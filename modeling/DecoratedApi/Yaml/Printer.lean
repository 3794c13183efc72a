import DecoratedApi.Yaml.Scalar

/-!
# YAML documents

A JSON value as a YAML document in block style. Sequences under a key start at the column of the
key; all else is indented by two.
-/

namespace DecoratedApi.Yaml

def numberText : JsonNumber → List Char
  | .integer n => (Json.numberText (.integer n)).toList
  | .float x => (x.render .yaml).toList

/-- The blocks under one another at a column. A block that ends with a line break has ended its own
line. -/
def stack (column : Nat) : List (List Char) → List Char
  | [] => []
  | [block] => block
  | block :: rest =>
    block ++ (if block.getLast? == some '\n' then [] else ['\n']) ++ spaces column ++
      stack column rest

/-- Whether a text can be a key on the line of its value: it is short and on one line. -/
def isSimpleKey (s : String) : Bool := s.utf8ByteSize ≤ 128 && !s.toList.any isBreak

/-- Whether a value is written on the line of its key. -/
def isInline : Json → Bool
  | .array (_ :: _) => false
  | .object (_ :: _) => false
  | _ => true

mutual
/-- A value whose first line starts at a column, where the column of a scalar's further lines is the
same. -/
def block (column : Nat) : Json → List Char
  | .null => "null".toList
  | .bool b => if b then "true".toList else "false".toList
  | .number n => numberText n
  | .string s => scalar column s
  | .array [] => ['[', ']']
  | .object [] => ['\x7b', '\x7d']
  | .array (first :: rest) =>
    stack column (('-' :: ' ' :: block (column + 2) first) :: items column rest)
  | .object ((key, value) :: rest) => stack column (member column key value :: members column rest)

def items (column : Nat) : List Json → List (List Char)
  | [] => []
  | v :: rest => ('-' :: ' ' :: block (column + 2) v) :: items column rest

def members (column : Nat) : List (String × Json) → List (List Char)
  | [] => []
  | (key, value) :: rest => member column key value :: members column rest

/-- One member of a mapping. A key that is long or has line breaks stands after a question mark. -/
def member (column : Nat) (key : String) (value : Json) : List Char :=
  if isSimpleKey key then
    scalar (column + 2) key ++ ':' ::
      (if isInline value then ' ' :: block (column + 2) value
        else match value with
          | .array vs => '\n' :: spaces column ++ block column (.array vs)
          | v => '\n' :: spaces (column + 2) ++ block (column + 2) v)
  else
    stack column
      ['?' :: ' ' :: scalar (column + 2) key, ':' :: ' ' :: block (column + 2) value]
end

/-- The value as a document. -/
def document (v : Json) : String :=
  let cs := block 0 v
  String.ofList (if cs.getLast? == some '\n' then cs else cs ++ ['\n'])

end DecoratedApi.Yaml
