import DecoratedApi.Document.MetadataJson
import DecoratedApi.Proofs.Maps

/-!
# Metadata read back

What is written as JSON reads back as it was, but for one thing: an optional value that is there and
is `null` is written like any other value, and `null` reads as absent. `Metadata.withoutNulls` is
the document without such values, `Metadata.optionalValues` lists where they can stand.
-/

namespace DecoratedApi

/-! ## Fields -/

namespace Fields

variable {α : Type} (encode : α → Json) (key k : String)

@[simp]
theorem find?_one (value : Json) :
    OrderedMap.find? key (one k value) = if k = key then some value else none := rfl

@[simp]
theorem find?_optional (o : Option α) :
    OrderedMap.find? key (optional encode k o) = if k = key then o.map encode else none := by
  cases o <;> simp [optional, OrderedMap.find?]

end Fields

namespace Json

variable {α : Type} {encode : α → Json} {decode : Json → Option α} {norm : α → α}

/-- The optional value as it is read back. -/
def present : Option Json → Option Json
  | some .null => none
  | value => value

@[simp]
theorem field?_object (key : String) (fields : Fields) :
    (object fields).field? key = OrderedMap.find? key fields := rfl

@[simp]
theorem requiredField?_object (key : String) (fields : Fields) :
    (object fields).requiredField? decode key = (OrderedMap.find? key fields).bind decode := rfl

/-- What is read where a value may be missing or `null`. -/
def optional? (decode : Json → Option α) : Option Json → Option (Option α)
  | none => some none
  | some .null => some none
  | some x => (decode x).map some

@[simp]
theorem optionalField?_object (key : String) (fields : Fields) :
    (object fields).optionalField? decode key =
      optional? decode (OrderedMap.find? key fields) := rfl

theorem optional?_map (hnull : ∀ a, encode a ≠ .null) (h : ∀ a, decode (encode a) = some (norm a))
    (o : Option α) : optional? decode (o.map encode) = some (o.map norm) := by
  cases o with
  | none => rfl
  | some a =>
    have hread : optional? decode (some (encode a)) = (decode (encode a)).map some := by
      cases hvalue : encode a with
      | null => exact absurd hvalue (hnull a)
      | _ => rfl
    simp [hread, h]

@[simp]
theorem string?_string (s : String) : string? (string s) = some s := rfl

@[simp]
theorem bool?_bool (b : Bool) : bool? (bool b) = some b := rfl

@[simp]
theorem optional?_any (o : Option Json) : optional? any? o = some (present o) := by
  match o with
  | none => rfl
  | some .null => rfl
  | some (.bool _) | some (.number _) | some (.string _) | some (.array _)
  | some (.object _) => rfl

@[simp]
theorem optional?_string (o : Option String) : optional? string? (o.map string) = some o := by
  cases o <;> rfl

theorem list?_map (h : ∀ a, decode (encode a) = some (norm a)) (as : List α) :
    list? decode (.array (as.map encode)) = some (as.map norm) := by
  simp only [list?]
  induction as with
  | nil => rfl
  | cons a rest ih => simp [List.mapM_cons, h, ih]

theorem members?_map (h : ∀ a, decode (encode a) = some (norm a)) (m : OrderedMap α) :
    members? decode (.object (m.map fun (k, a) => (k, encode a))) =
      some (m.map fun (k, a) => (k, norm a)) := by
  simp only [members?]
  induction m with
  | nil => rfl
  | cons e rest ih => simp [List.mapM_cons, h, ih]

@[simp]
theorem list?_any (values : List Json) : list? any? (.array values) = some values := by
  have h := list?_map (α := Json) (fun v => show any? (id v) = some (id v) from rfl) values
  simpa using h

@[simp]
theorem list?_ofStrings (ss : List String) : list? string? (ofStrings ss) = some ss := by
  have h := list?_map (fun s => show string? (string s) = some (id s) from rfl) ss
  simpa [ofStrings] using h

@[simp]
theorem optional?_ofStrings (o : Option (List String)) :
    optional? (list? string?) (o.map ofStrings) = some o := by
  have h := optional?_map (fun ss => show ofStrings ss ≠ .null from nofun)
    (fun ss => list?_ofStrings ss) o
  simpa using h

end Json

/-! ## Without nulls -/

def Validator.withoutNull (v : Validator) : Validator := { v with value := Json.present v.value }

def Validators.withoutNulls (vs : Validators) : Validators :=
  vs.map fun (k, v) => (k, v.withoutNull)

def Property.withoutNulls (p : Property) : Property :=
  { p with fallback := Json.present p.fallback, validators := Validators.withoutNulls p.validators }

def ObjectDefinition.withoutNulls (d : ObjectDefinition) : ObjectDefinition :=
  { d with properties := d.properties.map Property.withoutNulls }

def Definition.withoutNulls : Definition → Definition
  | object d => object d.withoutNulls
  | enum d => enum d

def Parameter.withoutNulls (p : Parameter) : Parameter :=
  { p with fallback := Json.present p.fallback, validators := Validators.withoutNulls p.validators }

def Response.withoutNull (r : Response) : Response :=
  { r with examples := Json.present r.examples }

def Method.withoutNulls (m : Method) : Method :=
  { m with
    parameters := m.parameters.map Parameter.withoutNulls
    responses := m.responses.map Response.withoutNull }

def Controller.withoutNulls (c : Controller) : Controller :=
  { c with methods := c.methods.map Method.withoutNulls }

/-- The document in which an optional value that is there and is `null` is absent. -/
def Metadata.withoutNulls (m : Metadata) : Metadata :=
  { controllers := m.controllers.map Controller.withoutNulls
    definitions := m.definitions.map fun (k, d) => (k, d.withoutNulls) }

/-! ## Types -/

@[simp]
theorem ApiType.ofJson?_toJson (t : ApiType) : ApiType.ofJson? t.toJson = some t := by
  induction t with
  | array element ih =>
    simp [ApiType.toJson, ApiType.ofJson?, ApiType.elementOf?, OrderedMap.find?, Json.string?, ih]
  | enum values =>
    simp [ApiType.toJson, ApiType.ofJson?, OrderedMap.find?, Json.string?, Json.list?_any]
  | _ =>
    simp [ApiType.toJson, ApiType.ofJson?, ApiType.tag, ApiType.simple, OrderedMap.find?,
      Json.string?]

@[simp]
theorem ApiType.optional?_toJson (o : Option ApiType) :
    Json.optional? ApiType.ofJson? (o.map ApiType.toJson) = some o := by
  have hnull : ∀ t : ApiType, t.toJson ≠ .null := by
    intro t
    cases t <;> nofun
  have h := Json.optional?_map hnull (fun t => t.ofJson?_toJson) o
  simpa using h

theorem Validator.ofJson?_toJson (v : Validator) :
    Validator.ofJson? v.toJson = some v.withoutNull := by
  simp [Validator.ofJson?, Validator.toJson, Json.isObject, OrderedMap.find?_append,
    Validator.withoutNull]

@[simp]
theorem Validators.members?_toJson (vs : Validators) :
    Json.members? Validator.ofJson? (Validators.toJson vs) = some (Validators.withoutNulls vs) :=
  Json.members?_map Validator.ofJson?_toJson vs

/-! ## Definitions -/

theorem Property.ofJson?_toJson (p : Property) :
    Property.ofJson? p.toJson = some p.withoutNulls := by
  simp [Property.ofJson?, Property.toJson, Property.withoutNulls, Validators.field?,
    OrderedMap.find?_append]

theorem ObjectDefinition.ofJson?_fields (d : ObjectDefinition) (tag : Json) :
    ObjectDefinition.ofJson? (.object (("dataType", tag) :: d.fields)) =
      some d.withoutNulls := by
  simp [ObjectDefinition.ofJson?, ObjectDefinition.fields, ObjectDefinition.withoutNulls,
    OrderedMap.find?, OrderedMap.find?_append, Json.list?_map Property.ofJson?_toJson]

theorem EnumDefinition.ofJson?_fields (d : EnumDefinition) (tag : Json) :
    EnumDefinition.ofJson? (.object (("dataType", tag) :: d.fields)) = some d := by
  simp [EnumDefinition.ofJson?, EnumDefinition.fields, OrderedMap.find?, OrderedMap.find?_append]

theorem Definition.ofJson?_toJson (d : Definition) :
    Definition.ofJson? d.toJson = some d.withoutNulls := by
  cases d with
  | object d =>
    simp [Definition.ofJson?, Definition.toJson, Definition.withoutNulls, OrderedMap.find?,
      ObjectDefinition.ofJson?_fields]
  | enum d =>
    simp [Definition.ofJson?, Definition.toJson, Definition.withoutNulls, OrderedMap.find?,
      EnumDefinition.ofJson?_fields]

/-! ## Methods -/

theorem Location.ofText?_text (l : Location) : Location.ofText? l.text = some l := by
  cases l <;> decide

theorem Verb.ofText?_text (v : Verb) : Verb.ofText? v.text = some v := by
  cases v <;> decide

theorem Parameter.ofJson?_toJson (p : Parameter) :
    Parameter.ofJson? p.toJson = some p.withoutNulls := by
  simp [Parameter.ofJson?, Parameter.toJson, Parameter.withoutNulls, Validators.field?,
    Location.ofText?_text, OrderedMap.find?_append]

theorem Security.ofJson?_toJson (s : Security) : Security.ofJson? s.toJson = some s := by
  simp [Security.ofJson?, Security.toJson, OrderedMap.find?_append]

theorem Response.ofJson?_toJson (r : Response) :
    Response.ofJson? r.toJson = some r.withoutNull := by
  simp [Response.ofJson?, Response.toJson, Response.withoutNull, OrderedMap.find?_append]

theorem Method.ofJson?_toJson (m : Method) : Method.ofJson? m.toJson = some m.withoutNulls := by
  simp [Method.ofJson?, Method.toJson, Method.withoutNulls, Verb.ofText?_text,
    OrderedMap.find?_append, Json.list?_map Parameter.ofJson?_toJson,
    Json.list?_map Response.ofJson?_toJson, Json.list?_map Security.ofJson?_toJson]

theorem Controller.ofJson?_toJson (c : Controller) :
    Controller.ofJson? c.toJson = some c.withoutNulls := by
  simp [Controller.ofJson?, Controller.toJson, Controller.withoutNulls, OrderedMap.find?_append,
    Json.list?_map Method.ofJson?_toJson]

theorem Metadata.ofJson?_toJson (m : Metadata) :
    Metadata.ofJson? m.toJson = some m.withoutNulls := by
  simp [Metadata.ofJson?, Metadata.toJson, Metadata.withoutNulls, OrderedMap.find?_append,
    Json.list?_map Controller.ofJson?_toJson, Json.members?_map Definition.ofJson?_toJson]

/-! ## Where nulls stand -/

def Validators.optionalValues (vs : Validators) : List (Option Json) := vs.map (·.2.value)

def Property.optionalValues (p : Property) : List (Option Json) :=
  p.fallback :: Validators.optionalValues p.validators

def Definition.optionalValues : Definition → List (Option Json)
  | object d => d.properties.flatMap Property.optionalValues
  | enum _ => []

def Parameter.optionalValues (p : Parameter) : List (Option Json) :=
  p.fallback :: Validators.optionalValues p.validators

def Method.optionalValues (m : Method) : List (Option Json) :=
  m.parameters.flatMap Parameter.optionalValues ++ m.responses.map (·.examples)

def Controller.optionalValues (c : Controller) : List (Option Json) :=
  c.methods.flatMap Method.optionalValues

/-- The values of a document that may be absent: defaults, settings of validators, examples. -/
def Metadata.optionalValues (m : Metadata) : List (Option Json) :=
  m.controllers.flatMap Controller.optionalValues ++
    m.definitions.flatMap (·.2.optionalValues)

theorem Json.present_eq_self_iff {o : Option Json} : Json.present o = o ↔ o ≠ some .null := by
  match o with
  | none => simp [Json.present]
  | some .null => simp [Json.present]
  | some (.bool _) | some (.number _) | some (.string _) | some (.array _)
  | some (.object _) => simp [Json.present]

theorem Validators.withoutNulls_eq_self_iff {vs : Validators} :
    Validators.withoutNulls vs = vs ↔ some .null ∉ Validators.optionalValues vs := by
  have hone : ∀ v : Validator, v.withoutNull = v ↔ v.value ≠ some .null := by
    intro v
    rw [← Json.present_eq_self_iff]
    cases v
    simp [Validator.withoutNull]
  simp [Validators.withoutNulls, Validators.optionalValues, map_eq_self_iff, hone]

theorem Validators.present_and_withoutNulls_iff {o : Option Json} {vs : Validators} :
    Json.present o = o ∧ Validators.withoutNulls vs = vs ↔
      some .null ∉ o :: Validators.optionalValues vs := by
  rw [List.mem_cons, not_or, Json.present_eq_self_iff, Validators.withoutNulls_eq_self_iff, ne_comm]

theorem Property.withoutNulls_eq_self_iff {p : Property} :
    p.withoutNulls = p ↔ some .null ∉ p.optionalValues := by
  rw [Property.optionalValues, ← Validators.present_and_withoutNulls_iff]
  cases p
  simp [Property.withoutNulls]

theorem Definition.withoutNulls_eq_self_iff {d : Definition} :
    d.withoutNulls = d ↔ some .null ∉ d.optionalValues := by
  cases d with
  | object d =>
    cases d
    simp [Definition.withoutNulls, ObjectDefinition.withoutNulls, Definition.optionalValues,
      map_eq_self_iff, Property.withoutNulls_eq_self_iff]
  | enum d => simp [Definition.withoutNulls, Definition.optionalValues]

theorem Parameter.withoutNulls_eq_self_iff {p : Parameter} :
    p.withoutNulls = p ↔ some .null ∉ p.optionalValues := by
  rw [Parameter.optionalValues, ← Validators.present_and_withoutNulls_iff]
  cases p
  simp [Parameter.withoutNulls]

theorem Response.withoutNull_eq_self_iff {r : Response} :
    r.withoutNull = r ↔ r.examples ≠ some .null := by
  rw [← Json.present_eq_self_iff]
  cases r
  simp [Response.withoutNull]

theorem Method.withoutNulls_eq_self_iff {m : Method} :
    m.withoutNulls = m ↔ some .null ∉ m.optionalValues := by
  cases m
  simp [Method.withoutNulls, Method.optionalValues, map_eq_self_iff,
    Parameter.withoutNulls_eq_self_iff, Response.withoutNull_eq_self_iff]

theorem Controller.withoutNulls_eq_self_iff {c : Controller} :
    c.withoutNulls = c ↔ some .null ∉ c.optionalValues := by
  cases c
  simp [Controller.withoutNulls, Controller.optionalValues, map_eq_self_iff,
    Method.withoutNulls_eq_self_iff]

theorem Metadata.withoutNulls_eq_self_iff {m : Metadata} :
    m.withoutNulls = m ↔ some .null ∉ m.optionalValues := by
  cases m
  simp [Metadata.withoutNulls, Metadata.optionalValues, map_eq_self_iff,
    Controller.withoutNulls_eq_self_iff, Definition.withoutNulls_eq_self_iff]

/-- A document is read back without its nulls, and as it was exactly when it has none. -/
theorem metadata_reads_back (m : Metadata) :
    Metadata.ofJson? m.toJson = some m.withoutNulls ∧
      (Metadata.ofJson? m.toJson = some m ↔ some .null ∉ m.optionalValues) := by
  refine ⟨m.ofJson?_toJson, ?_⟩
  rw [m.ofJson?_toJson, Option.some.injEq]
  exact Metadata.withoutNulls_eq_self_iff

end DecoratedApi
