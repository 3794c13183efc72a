import DecoratedApi.Proofs.Names
import DecoratedApi.Proofs.Operations

/-!
# References to components

A schema may refer to a component at any depth. Schemas are made from types and definitions, and
what they refer to is what these mention; a document has a component for every definition. So a
reference leads out of a document only if a name leads out of the metadata.
-/

namespace DecoratedApi.OpenApi

/-! ## References in schemas -/

/-- The reference occurs in the schema, at any depth. -/
inductive Schema.Refers : Schema → String → Prop
  | here {s : Schema} {r : String} (h : s.reference = some r) : Refers s r
  | items {s inner : Schema} {r : String} (h : s.items = some inner) (hr : inner.Refers r) :
      Refers s r
  | property {s inner : Schema} {r name : String} {ps : List (String × Schema)}
      (h : s.properties = some ps) (hmem : (name, inner) ∈ ps) (hr : inner.Refers r) : Refers s r
  | additional {s inner : Schema} {r : String} (h : s.additional = some inner)
      (hr : inner.Refers r) : Refers s r

namespace Schema

variable {s s' : Schema} {r : String}

/-- The parts of a schema that hold references are the same. -/
def SameParts (s s' : Schema) : Prop :=
  s.reference = s'.reference ∧ s.items = s'.items ∧ s.properties = s'.properties ∧
    s.additional = s'.additional

theorem Refers.of_sameParts (h : SameParts s s') (hr : s.Refers r) : s'.Refers r := by
  obtain ⟨hreference, hitems, hproperties, hadditional⟩ := h
  cases hr with
  | here h => exact .here (hreference ▸ h)
  | items h hr => exact .items (hitems ▸ h) hr
  | property h hmem hr => exact .property (hproperties ▸ h) hmem hr
  | additional h hr => exact .additional (hadditional ▸ h) hr

theorem SameParts.refl (s : Schema) : SameParts s s := ⟨rfl, rfl, rfl, rfl⟩

theorem SameParts.trans {s'' : Schema} (h : SameParts s s') (h' : SameParts s' s'') :
    SameParts s s'' :=
  ⟨h.1.trans h'.1, h.2.1.trans h'.2.1, h.2.2.1.trans h'.2.2.1, h.2.2.2.trans h'.2.2.2⟩

theorem applyValidator_sameParts (s : Schema) (name : String) (v : Validator) :
    SameParts (s.applyValidator name v) s := by
  unfold applyValidator
  split <;> exact .refl _

theorem applyValidators_sameParts (s : Schema) (vs : Validators) :
    SameParts (s.applyValidators vs) s := by
  unfold applyValidators
  induction vs generalizing s with
  | nil => exact .refl s
  | cons e rest ih => exact (ih _).trans (applyValidator_sameParts s e.1 e.2)

theorem not_refers_of_parts (hreference : s.reference = none) (hitems : s.items = none)
    (hproperties : s.properties = none) (hadditional : s.additional = none) : ¬ s.Refers r := by
  intro hr
  cases hr <;> simp_all

/-- The reference leads to the name in the type. -/
def LeadsTo (r : String) (t : ApiType) : Prop :=
  ∃ name, t.mentioned? = some name ∧ r = componentPath ++ name

theorem refers_ofType {t : ApiType} (h : (ofType t).Refers r) : LeadsTo r t := by
  induction t with
  | array element ih =>
    cases h with
    | here h => cases h
    | items h hr =>
      cases h
      exact ih hr
    | property h => cases h
    | additional h => cases h
  | refObject name | refEnum name =>
    cases h with
    | here h =>
      cases h
      exact ⟨name, rfl, rfl⟩
    | items h => cases h
    | property h => cases h
    | additional h => cases h
  | _ => exact absurd h (not_refers_of_parts rfl rfl rfl rfl)

theorem refers_ofProperty {q : Property} (h : (ofProperty q).Refers r) : LeadsTo r q.type := by
  refine refers_ofType (h.of_sameParts ((applyValidators_sameParts _ _).trans ?_))
  split <;> exact .refl _

theorem refers_ofDefinition {d : Definition} (h : (ofDefinition d).Refers r) :
    ∃ name, d.Mentions name ∧ r = componentPath ++ name := by
  cases d with
  | enum d => exact absurd h (not_refers_of_parts rfl rfl rfl rfl)
  | object d =>
    cases h with
    | here h => cases h
    | items h => cases h
    | property h hmem hr =>
      cases h
      obtain ⟨q, hq, he⟩ := List.mem_map.mp (OrderedMap.mem_of_mem_ofList hmem)
      cases he
      obtain ⟨name, hname, hr⟩ := refers_ofProperty hr
      exact ⟨name, ⟨d, rfl, .inl ⟨q, hq, hname⟩⟩, hr⟩
    | additional h hr =>
      obtain ⟨t, ht, rfl⟩ := Option.map_eq_some_iff.mp h
      obtain ⟨name, hname, hr⟩ := refers_ofType hr
      exact ⟨name, ⟨d, rfl, .inr ⟨t, ht, hname⟩⟩, hr⟩

end Schema

/-! ## References in operations -/

/-- The reference occurs in a schema of the content. -/
def ContentRefers (content : OrderedMap MediaType) (r : String) : Prop :=
  ∃ e ∈ content, e.2.schema.Refers r

/-- The reference occurs in a parameter, in the body or in a response. -/
def Operation.Refers (op : Operation) (r : String) : Prop :=
  (∃ q ∈ op.parameters, q.schema.Refers r) ∨
    (∃ body, op.requestBody = some body ∧ ContentRefers body.content r) ∨
    ∃ e ∈ op.responses, ∃ content, e.2.content = some content ∧ ContentRefers content r

variable {r : String}

theorem refers_of_jsonContent {schema : Schema} {sample : Option Json}
    (h : ContentRefers (jsonContent schema sample) r) : schema.Refers r := by
  obtain ⟨e, he, hr⟩ := h
  obtain rfl := List.mem_singleton.mp he
  exact hr

theorem refers_parameterSchema {q : Parameter} (h : (parameterSchema q).Refers r) :
    Schema.LeadsTo r q.type := by
  have hparts : Schema.SameParts (parameterSchema q) (Schema.ofType q.type) :=
    (Schema.applyValidators_sameParts _ _).trans ⟨rfl, rfl, rfl, rfl⟩
  exact Schema.refers_ofType (h.of_sameParts hparts)

theorem refers_bodySchema {ps : List Parameter} (h : (bodySchema ps).Refers r) :
    ∃ q ∈ ps, Schema.LeadsTo r q.type := by
  cases h with
  | here h => cases h
  | items h => cases h
  | property h hmem hr =>
    cases h
    obtain ⟨q, hq, he⟩ := List.mem_map.mp (OrderedMap.mem_of_mem_ofList hmem)
    cases he
    have hparts : Schema.SameParts { parameterSchema q with description := q.description }
        (parameterSchema q) := ⟨rfl, rfl, rfl, rfl⟩
    exact ⟨q, hq, refers_parameterSchema (hr.of_sameParts hparts)⟩
  | additional h => cases h

theorem refers_requestBody? {ps : List Parameter} {body : RequestBody}
    (hbody : requestBody? ps = some body) (h : ContentRefers body.content r) :
    ∃ q ∈ ps, Schema.LeadsTo r q.type := by
  unfold requestBody? at hbody
  split at hbody
  · next q hq =>
    cases hbody
    exact ⟨q, List.mem_of_find?_eq_some hq, refers_parameterSchema (refers_of_jsonContent h)⟩
  · split at hbody
    · cases hbody
    · cases hbody
      obtain ⟨q, hq, hr⟩ := refers_bodySchema (refers_of_jsonContent h)
      exact ⟨q, (List.mem_filter.mp hq).1, hr⟩

theorem refers_operationResponse {x : Response} {content : OrderedMap MediaType}
    (hcontent : (operationResponse x).content = some content) (h : ContentRefers content r) :
    ∃ t, x.schema = some t ∧ Schema.LeadsTo r t := by
  unfold operationResponse at hcontent
  dsimp only at hcontent
  split at hcontent
  · cases hcontent
  · cases hcontent
  · next t _ ht =>
    cases hcontent
    exact ⟨t, ht, Schema.refers_ofType (refers_of_jsonContent h)⟩

theorem refers_operationOf {m : Method} (h : (operationOf m).Refers r) :
    ∃ t ∈ m.types, Schema.LeadsTo r t := by
  have hparameter : ∀ q ∈ m.parameters, q.type ∈ m.types := fun q hq =>
    List.mem_cons_of_mem _ (List.mem_append_left _ (List.mem_map_of_mem hq))
  rcases h with ⟨o, ho, hr⟩ | ⟨body, hbody, hr⟩ | ⟨e, he, content, hcontent, hr⟩
  · obtain ⟨q, hq, hqo⟩ := List.mem_filterMap.mp ho
    have hschema : o.schema = parameterSchema q := by
      unfold operationParameter? at hqo
      dsimp only at hqo
      split at hqo <;> cases hqo <;> rfl
    rw [hschema] at hr
    exact ⟨q.type, hparameter q hq, refers_parameterSchema hr⟩
  · obtain ⟨q, hq, hr⟩ := refers_requestBody? hbody hr
    exact ⟨q.type, hparameter q hq, hr⟩
  · obtain ⟨x, hx, rfl⟩ := List.mem_map.mp (OrderedMap.mem_of_mem_ofList he)
    obtain ⟨t, ht, hr⟩ := refers_operationResponse hcontent hr
    exact ⟨t, List.mem_cons_of_mem _ (List.mem_append_right _ (List.mem_filterMap.mpr ⟨x, hx, ht⟩)),
      hr⟩

/-! ## References in documents -/

namespace Document

/-- The reference occurs in an operation or in a component. -/
def Refers (doc : Document) (r : String) : Prop :=
  (∃ path verb op, doc.Has path verb op ∧ op.Refers r) ∨ ∃ e ∈ doc.schemas, e.2.Refers r

variable {doc : Document} {info : Info} {m : Metadata}

theorem schemas_foldl_addController (cs : List Controller) :
    (cs.foldl addController doc).schemas = doc.schemas := by
  have hmethods : ∀ (c : Controller) (ms : List Method) (doc : Document),
      (ms.foldl (addMethod c) doc).schemas = doc.schemas := by
    intro c ms
    induction ms with
    | nil => exact fun _ => rfl
    | cons x rest ih =>
      intro doc
      rw [List.foldl_cons, ih, addMethod]
      split <;> rfl
  induction cs generalizing doc with
  | nil => rfl
  | cons c rest ih => rw [List.foldl_cons, ih, addController, hmethods]

theorem schemas_foldl_addDefinition (entries : List (String × Definition)) :
    (entries.foldl addDefinition doc).schemas =
      (entries.map fun e => (e.1, Schema.ofDefinition e.2)).foldl
        (fun schemas (k, s) => OrderedMap.set k s schemas) doc.schemas := by
  induction entries generalizing doc with
  | nil => rfl
  | cons e rest ih =>
    rw [List.foldl_cons, ih, List.map_cons, List.foldl_cons, addDefinition]

theorem schemas_addMetadata :
    (addMetadata { info } m).schemas =
      OrderedMap.ofList (m.definitions.map fun e => (e.1, Schema.ofDefinition e.2)) := by
  rw [addMetadata, schemas_foldl_addDefinition, schemas_foldl_addController]
  rfl

theorem refers_addMetadata {r : String} (h : (addMetadata { info } m).Refers r) :
    ∃ name, m.Mentions name ∧ r = Schema.componentPath ++ name := by
  rcases h with ⟨path, verb, op, hhas, hr⟩ | ⟨e, he, hr⟩
  · obtain ⟨c, hc, x, hx, -, -, -, rfl⟩ := has_addMetadata hhas
    obtain ⟨t, ht, name, hname, hr⟩ := refers_operationOf hr
    exact ⟨name, .inl ⟨c, hc, t, List.mem_flatMap.mpr ⟨x, hx, ht⟩, hname⟩, hr⟩
  · rw [schemas_addMetadata] at he
    obtain ⟨d, hd, rfl⟩ := List.mem_map.mp (OrderedMap.mem_of_mem_ofList he)
    obtain ⟨name, hname, hr⟩ := Schema.refers_ofDefinition hr
    exact ⟨name, .inr ⟨d, hd, hname⟩, hr⟩

theorem toJson_components (h : doc.schemas ≠ []) :
    doc.toJson.field? "components" =
      some (.object [("schemas", .object (doc.schemas.map fun (k, s) => (k, s.toJson)))]) := by
  simp [toJson, Json.field?, Fields.one, OrderedMap.find?, h]

end Document
end DecoratedApi.OpenApi

namespace DecoratedApi

open Resolver OpenApi

/-- A reference in a document leads to one of its components, which are then written. -/
theorem references_lead_to_components {p : Program} {depth : Nat} {m : Metadata}
    (h : p.metadataAt depth = some (.ok m)) {info : Info} {doc : Document}
    (hdoc : doc = Document.addMetadata { info } m) {r : String} (hr : doc.Refers r) :
    ∃ name schemas, r = "#/components/schemas/" ++ name ∧ name ∈ OrderedMap.keys doc.schemas ∧
      doc.toJson.field? "components" = some (.object [("schemas", .object schemas)]) ∧
      OrderedMap.keys schemas = OrderedMap.keys doc.schemas := by
  subst hdoc
  obtain ⟨s, hwalk, hfinish⟩ := Program.metadataAt_ok.mp h
  obtain ⟨hadv, htypes⟩ := Program.generateControllers_advances hwalk
  obtain ⟨-, hkeys, hclosed⟩ := finish_closed (hadv.wellFormed .fresh) hfinish
  obtain ⟨name, hmention, rfl⟩ := Document.refers_addMetadata hr
  have hdefined : name ∈ OrderedMap.keys m.definitions := by
    rcases hmention with ⟨c, hc, t, ht, hname⟩ | ⟨⟨key, d⟩, hmem, hname⟩
    · exact hkeys name (htypes c hc t ht name hname)
    · exact (hclosed key d hmem).2 name hname
  have hcomponent : name ∈ OrderedMap.keys (Document.addMetadata { info } m).schemas := by
    rw [Document.schemas_addMetadata, OrderedMap.mem_keys_ofList, OrderedMap.keys, List.map_map]
    exact hdefined
  refine ⟨name, _, rfl, hcomponent, Document.toJson_components ?_, by simp [OrderedMap.keys]⟩
  exact List.ne_nil_of_mem (List.mem_map.mp hcomponent).choose_spec.1

theorem shop_refers_to_states :
    ∃ m doc, Program.shop.metadataAt 20 = some (.ok m) ∧ doc = Document.addMetadata {} m ∧
      doc.Refers "#/components/schemas/State" ∧ "State" ∈ OrderedMap.keys doc.schemas ∧
      (doc.toJson.field? "components").isSome = true := by
  have hgen : Program.shop.generates 20 (fun m =>
      (OrderedMap.find? "Order" (Document.addMetadata {} m).schemas).any fun order =>
        order.properties.any fun ps => (OrderedMap.find? "state" ps).any fun state =>
          state.reference == some "#/components/schemas/State") = true := by decide +kernel
  obtain ⟨m, h, hok⟩ := Program.generates_iff.mp hgen
  obtain ⟨order, horder, hok⟩ := (Option.any_eq_true _ _).mp hok
  obtain ⟨ps, hps, hok⟩ := (Option.any_eq_true _ _).mp hok
  obtain ⟨state, hstate, hok⟩ := (Option.any_eq_true _ _).mp hok
  have hrefers : (Document.addMetadata {} m).Refers "#/components/schemas/State" :=
    .inr ⟨_, OrderedMap.mem_of_find?_eq_some horder,
      .property hps (OrderedMap.mem_of_find?_eq_some hstate) (.here (by simpa using hok))⟩
  obtain ⟨name, schemas, hname, hkey, hwritten, -⟩ := references_lead_to_components h rfl hrefers
  obtain rfl : "State" = name :=
    (String.append_right_inj "#/components/schemas/").mp (by rw [← hname]; rfl)
  exact ⟨m, _, h, rfl, hrefers, hkey, by rw [hwritten]; rfl⟩

end DecoratedApi
