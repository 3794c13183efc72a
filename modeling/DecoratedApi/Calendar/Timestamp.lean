import DecoratedApi.Calendar.Date
import DecoratedApi.Text.Blank

/-!
# Timestamps

A timestamp is a moment in universal time. It is read from one of three forms: a full timestamp
with an offset, a date and time without one, or a date alone. It is written as a date or, to the
millisecond, as a full timestamp.
-/

namespace DecoratedApi

/-- A moment in universal time. Second 60 is a leap second. -/
structure Timestamp where
  date : Date
  hour : Nat
  minute : Nat
  second : Nat
  nanosecond : Nat
deriving DecidableEq, Repr

namespace Timestamp

/-! ## Writing -/

/-- A number with at least `width` digits. -/
def padded (width n : Nat) : List Char :=
  let digits := Nat.toDigits 10 n
  List.replicate (width - digits.length) '0' ++ digits

/-- A year has at least four digits, and a sign when it lies outside 0 to 9999. -/
def yearChars (year : Int) : List Char :=
  if year < 0 then '-' :: padded 4 year.natAbs
  else if 9999 < year then '+' :: padded 4 year.natAbs
  else padded 4 year.natAbs

def dateChars (d : Date) : List Char :=
  yearChars d.year ++ '-' :: padded 2 d.month ++ '-' :: padded 2 d.day

/-- The date alone. -/
def dateText (t : Timestamp) : String := String.ofList (dateChars t.date)

/-- The full timestamp in universal time, cut to milliseconds. -/
def text (t : Timestamp) : String :=
  String.ofList (dateChars t.date ++ 'T' :: padded 2 t.hour ++ ':' :: padded 2 t.minute ++
    ':' :: padded 2 t.second ++ '.' :: padded 3 (t.nanosecond / 1000000) ++ ['Z'])

/-! ## Reading -/

def numberOf (cs : List Char) : Nat := cs.foldl (fun n c => n * 10 + (c.toNat - '0'.toNat)) 0

/-- Between `least` and `most` digits. -/
def digits? (least most : Nat) (cs : List Char) : Option (Nat × List Char) :=
  let taken := (cs.take most).takeWhile Char.isDigit
  if taken.length < least then none else some (numberOf taken, cs.drop taken.length)

def char? (c : Char) : List Char → Option (List Char)
  | d :: cs => if c = d then some cs else none
  | [] => none

/-- The fraction of a second, in nanoseconds: a point and at least one digit. Digits after the
ninth are passed over. -/
def fraction? (cs : List Char) : Option (Nat × List Char) :=
  match cs with
  | '.' :: cs =>
    let all := cs.takeWhile Char.isDigit
    if all.isEmpty then none
    else
      let nine := all.take 9
      some (numberOf nine * Nat.pow 10 (9 - nine.length), cs.drop all.length)
  | cs => some (0, cs)

/-- An offset from universal time, in minutes: `Z`, or a sign, two digits of hours, a colon and two
digits of minutes, at most 23:59. -/
def offset? (cs : List Char) : Option (Int × List Char) :=
  match cs with
  | 'Z' :: rest | 'z' :: rest => some (0, rest)
  | '+' :: rest => after 1 rest
  | '-' :: rest | '−' :: rest => after (-1) rest
  | _ => none
where
  after (sign : Int) (cs : List Char) : Option (Int × List Char) := do
    let (hours, cs) ← digits? 2 2 cs
    let cs ← char? ':' cs
    let (minutes, cs) ← digits? 2 2 cs
    if hours ≤ 23 ∧ minutes ≤ 59 then some (sign * (hours * 60 + minutes : Nat), cs) else none

/-- The moment with this local date and time, if they are in range. -/
def at? (year : Int) (month day hour minute second nanosecond : Nat) : Option Timestamp := do
  let date ← Date.of? year month day
  if hour ≤ 23 ∧ minute ≤ 59 ∧ second ≤ 60 then some ⟨date, hour, minute, second, nanosecond⟩
  else none

/-- The same moment, when `t` is local time that runs ahead of universal time by the given minutes
(less than a day). -/
def behind (t : Timestamp) (minutes : Int) : Timestamp :=
  let total : Int := t.hour * 60 + t.minute - minutes
  let (date, total) :=
    if total < 0 then (t.date.previous, total + 1440)
    else if 1440 ≤ total then (t.date.next, total - 1440)
    else (t.date, total)
  { t with date, hour := total.toNat / 60, minute := total.toNat % 60 }

/-- What stands between the date and the time of a full timestamp: a space or a small `t` may stand
for the `T`. -/
def separator? : List Char → Option (List Char)
  | 'T' :: cs | 't' :: cs | ' ' :: cs => some cs
  | _ => none

/-- A full timestamp: fields of fixed width, then an offset. -/
def full? (cs : List Char) : Option (Timestamp × List Char) := do
  let (year, cs) ← digits? 4 4 cs
  let cs ← char? '-' cs
  let (month, cs) ← digits? 2 2 cs
  let cs ← char? '-' cs
  let (day, cs) ← digits? 2 2 cs
  let cs ← separator? cs
  let (hour, cs) ← digits? 2 2 cs
  let cs ← char? ':' cs
  let (minute, cs) ← digits? 2 2 cs
  let cs ← char? ':' cs
  let (second, cs) ← digits? 2 2 cs
  let (nano, cs) ← fraction? cs
  let (offset, cs) ← offset? cs
  let t ← at? year month day hour minute second nano
  some (t.behind offset, cs)

/-- A field of one or two digits, after any blank characters. -/
def field? (cs : List Char) : Option (Nat × List Char) := digits? 1 2 (cs.dropWhile Text.isBlank)

/-- A year, after any blank characters: up to four digits, or any number of them after a sign. -/
def year? (cs : List Char) : Option (Int × List Char) :=
  match cs.dropWhile Text.isBlank with
  | '-' :: rest => (digits? 1 rest.length rest).map fun (n, r) => (-(n : Int), r)
  | '+' :: rest => (digits? 1 rest.length rest).map fun (n, r) => ((n : Int), r)
  | cs => (digits? 1 4 cs).map fun (n, r) => ((n : Int), r)

def dateFields? (cs : List Char) : Option ((Int × Nat × Nat) × List Char) := do
  let (year, cs) ← year? cs
  let cs ← char? '-' cs
  let (month, cs) ← field? cs
  let cs ← char? '-' cs
  let (day, cs) ← field? cs
  some ((year, month, day), cs)

/-- A date and time without an offset, taken as universal time. -/
def plain? (cs : List Char) : Option (Timestamp × List Char) := do
  let ((year, month, day), cs) ← dateFields? cs
  let cs ← char? 'T' cs
  let (hour, cs) ← field? cs
  let cs ← char? ':' cs
  let (minute, cs) ← field? cs
  let cs ← char? ':' cs
  let (second, cs) ← field? cs
  let (nano, cs) ← fraction? cs
  let t ← at? year month day hour minute second nano
  some (t, cs)

/-- A date alone, taken as the start of the day. -/
def dateOnly? (cs : List Char) : Option (Timestamp × List Char) := do
  let ((year, month, day), cs) ← dateFields? cs
  let t ← at? year month day 0 0 0 0
  some (t, cs)

def whole? (form : List Char → Option (Timestamp × List Char)) (cs : List Char) :
    Option Timestamp :=
  match form cs with
  | some (t, []) => some t
  | _ => none

/-- The moment that a text writes, in the first of the three forms that fits. -/
def read? (s : String) : Option Timestamp :=
  let cs := s.toList
  whole? full? cs <|> whole? plain? cs <|> whole? dateOnly? cs

/-! ## Moments as numbers -/

/-- The moment that lies the given number of milliseconds after the start of 1970, if it lies in
the calendar. -/
def ofMillis? (millis : Int) : Option Timestamp :=
  let days := millis.fdiv 86400000
  let rest := (millis - days * 86400000).toNat
  let date := Date.ofDays days
  if date.valid then
    some ⟨date, rest / 3600000, rest / 60000 % 60, rest / 1000 % 60, rest % 1000 * 1000000⟩
  else none

end Timestamp
end DecoratedApi
