import DecoratedApi.OpenApi.Document
import DecoratedApi.Proofs.Methods
import DecoratedApi.Proofs.Paths

/-!
# Operations and their paths

An operation of a document belongs to a visible method of a controller, and stands under the path and
the verb of this method: whatever replaced it belonged there too. The path joins that of the
controller and that of the method without the slashes at their ends. A place for a parameter begins
and ends with a brace, so it is never cut.
-/

namespace DecoratedApi

/-! ## Places in paths -/

namespace Path

open MethodSite (placeholder)

variable {name path : String}

theorem toList_placeholder (name : String) :
    (placeholder name).toList = '\x7b' :: (name.toList ++ ['\x7d']) := by
  simp [placeholder]

theorem placeholder_infix_trimSlashes (h : (placeholder name).toList <:+: path.toList) :
    (placeholder name).toList <:+: (trimSlashes path).toList := by
  rw [toList_placeholder] at h ⊢
  rw [toList_trimSlashes]
  exact Text.infix_stripWhile (by decide) (by decide) h

theorem placeholder_infix_join (base : String) (h : (placeholder name).toList <:+: path.toList) :
    (placeholder name).toList <:+: (join base path).toList := by
  have htrim := placeholder_infix_trimSlashes h
  unfold join
  dsimp only
  split
  · exact htrim
  · split
    · -- A path without characters has no place for a parameter.
      next hempty =>
      rw [String.isEmpty_iff.mp hempty, toList_placeholder] at htrim
      simp at htrim
    · rw [String.toList_append]
      exact htrim.trans List.infix_append_right

end Path

/-! ## The origin of operations -/

namespace OpenApi

/-- The path has this operation for the verb. -/
def Document.Has (doc : Document) (path : String) (verb : Verb) (op : Operation) : Prop :=
  ∃ item, (path, item) ∈ doc.paths ∧ item.operation verb = some op

namespace Document

variable {doc : Document} {path : String} {verb : Verb} {op : Operation}

theorem has_addOperation {path' : String} {verb' : Verb} {op' : Operation}
    (h : (doc.addOperation path' verb' op').Has path verb op) :
    path = path' ∧ verb = verb' ∧ op = op' ∨ doc.Has path verb op := by
  obtain ⟨item, hmem, hop⟩ := h
  rcases OrderedMap.mem_of_mem_set hmem with he | hmem
  · obtain ⟨rfl, rfl⟩ : path = path' ∧ item = _ := by simpa using he
    by_cases hverb : verb = verb'
    · subst hverb
      rw [PathItem.operation_withOperation_self, Option.some.injEq] at hop
      exact .inl ⟨rfl, rfl, hop.symm⟩
    · -- The other operations of the path are the earlier ones, if there are any.
      rw [PathItem.operation_withOperation_of_ne _ hverb] at hop
      cases hfind : OrderedMap.find? path doc.paths with
      | none =>
        rw [hfind] at hop
        cases verb <;> cases hop
      | some item =>
        rw [hfind] at hop
        exact .inr ⟨item, OrderedMap.mem_of_find?_eq_some hfind, hop⟩
  · exact .inr ⟨item, hmem, hop⟩

/-- The operation is that of the method, and stands where the method belongs. -/
def Places (c : Controller) (m : Method) (path : String) (verb : Verb) (op : Operation) : Prop :=
  m.hidden = false ∧ path = pathOf c m ∧ verb = m.verb ∧ op = operationOf m

theorem has_addMethod {c : Controller} {m : Method} (h : (addMethod c doc m).Has path verb op) :
    doc.Has path verb op ∨ Places c m path verb op := by
  unfold addMethod at h
  split at h
  · exact .inl h
  · next hidden =>
    rcases has_addOperation h with ⟨hpath, hverb, hop⟩ | h
    · exact .inr ⟨by simpa using hidden, hpath, hverb, hop⟩
    · exact .inl h

theorem has_foldl {α : Type} {f : Document → α → Document} {P : α → Prop}
    (hstep : ∀ doc a, (f doc a).Has path verb op → doc.Has path verb op ∨ P a) {as : List α}
    (h : (as.foldl f doc).Has path verb op) : doc.Has path verb op ∨ ∃ a ∈ as, P a := by
  induction as generalizing doc with
  | nil => exact .inl h
  | cons a rest ih =>
    rcases ih h with h | ⟨a', ha', hp⟩
    · rcases hstep doc a h with h | hp
      · exact .inl h
      · exact .inr ⟨a, List.mem_cons_self, hp⟩
    · exact .inr ⟨a', List.mem_cons_of_mem _ ha', hp⟩

theorem paths_foldl_addDefinition (entries : List (String × Definition)) :
    (entries.foldl addDefinition doc).paths = doc.paths := by
  induction entries generalizing doc with
  | nil => rfl
  | cons e rest ih => rw [List.foldl_cons, ih, addDefinition]

theorem has_addController {c : Controller} (h : (addController doc c).Has path verb op) :
    doc.Has path verb op ∨ ∃ m ∈ c.methods, Places c m path verb op :=
  has_foldl (f := addMethod c) (fun _ _ => has_addMethod) h

theorem has_addMetadata {info : Info} {m : Metadata}
    (h : (addMetadata { info } m).Has path verb op) :
    ∃ c ∈ m.controllers, ∃ x ∈ c.methods, Places c x path verb op := by
  rw [Has, addMetadata, paths_foldl_addDefinition] at h
  rcases has_foldl (f := addController) (fun _ _ => has_addController) h with ⟨item, hmem, -⟩ | h
  · cases hmem
  · exact h

end Document

theorem operationParameter?_path {q : Parameter} {o : OperationParameter}
    (h : operationParameter? q = some o) (hpath : o.location = "path") :
    q.location = .path ∧ o.name = q.name ∧ o.required = q.required := by
  cases hlocation : q.location with
  | path =>
    simp only [operationParameter?, hlocation, Option.some.injEq] at h
    subst h
    exact ⟨rfl, rfl, rfl⟩
  | query | header =>
    simp only [operationParameter?, hlocation, Option.some.injEq] at h
    subst h
    simp [Location.text] at hpath
  | formData | body | bodyProperty | request => simp [operationParameter?, hlocation] at h

theorem requestBody?_isSome {ps : List Parameter} (h : (requestBody? ps).isSome = true) :
    ∃ q ∈ ps, q.location = .body ∨ q.location = .bodyProperty := by
  unfold requestBody? at h
  split at h
  · next body hbody =>
    exact ⟨body, List.mem_of_find?_eq_some hbody, .inl (by simpa using List.find?_some hbody)⟩
  · split at h
    · cases h
    · next props hprops hne =>
      obtain ⟨q, hq⟩ := List.exists_mem_of_ne_nil _ (fun he => hne he)
      obtain ⟨hmem, hlocation⟩ := List.mem_filter.mp hq
      exact ⟨q, hmem, .inr (by simpa using hlocation)⟩

end OpenApi

open OpenApi

/-- Whatever slashes the two parts of a path begin and end with, an operation stands under a path that
has a place for each of its path parameters, and only a verb that carries a body has one. -/
theorem operations_fit_their_paths {p : Program} {depth : Nat} {m : Metadata}
    (h : p.metadataAt depth = some (.ok m)) (info : Info) {path : String} {item : PathItem}
    {verb : Verb} {op : Operation}
    (hpath : (path, item) ∈ (Document.addMetadata { info } m).paths)
    (hop : item.operation verb = some op) :
    (∀ o ∈ op.parameters, o.location = "path" →
      o.required = true ∧ (MethodSite.placeholder o.name).toList <:+: path.toList) ∧
    (op.requestBody.isSome = true → verb ∈ [Verb.post, .put, .patch]) := by
  obtain ⟨c, hc, x, hx, -, rfl, rfl, rfl⟩ := Document.has_addMetadata ⟨item, hpath, hop⟩
  obtain ⟨controller, decl, hdescribes⟩ := Program.exists_describes h hc hx
  constructor
  · intro o ho hlocation
    obtain ⟨q, hq, hqo⟩ := List.mem_filterMap.mp ho
    obtain ⟨hqlocation, hname, hrequired⟩ := operationParameter?_path hqo hlocation
    obtain ⟨hneeded, hplace⟩ := (hdescribes.parameters q hq).placed hqlocation
    rw [hname, hrequired, Document.pathOf, String.toList_append]
    exact ⟨hneeded, (Path.placeholder_infix_join c.path hplace).trans List.infix_append_right⟩
  · intro hbody
    obtain ⟨q, hq, hlocation⟩ := requestBody?_isSome hbody
    exact (hdescribes.parameters q hq).carried hlocation

theorem shop_finds_orders_by_id :
    ∃ m item op o, Program.shop.metadataAt 20 = some (.ok m) ∧
      ("/orders/\x7bid\x7d", item) ∈ (Document.addMetadata {} m).paths ∧
      item.operation .get = some op ∧ o ∈ op.parameters ∧ o.location = "path" ∧
      o.required = true ∧
      (MethodSite.placeholder o.name).toList <:+: "/orders/\x7bid\x7d".toList := by
  have hgen : Program.shop.generates 20 (fun m =>
      (OrderedMap.find? "/orders/\x7bid\x7d" (Document.addMetadata {} m).paths).any fun item =>
        (item.operation .get).any fun op => op.parameters.any (·.location == "path")) = true := by
    decide +kernel
  obtain ⟨m, h, hok⟩ := Program.generates_iff.mp hgen
  obtain ⟨item, hitem, hok⟩ := (Option.any_eq_true _ _).mp hok
  obtain ⟨op, hop, hok⟩ := (Option.any_eq_true _ _).mp hok
  obtain ⟨o, ho, hlocation⟩ := List.any_eq_true.mp hok
  have hmem := OrderedMap.mem_of_find?_eq_some hitem
  have hpath : o.location = "path" := by simpa using hlocation
  exact ⟨m, item, op, o, h, hmem, hop, ho, hpath,
    (operations_fit_their_paths h {} hmem hop).1 o ho hpath⟩

end DecoratedApi
