import Mathlib.Data.List.Perm.Subperm
import Mathlib.Data.Set.Subsingleton
import DecoratedApi.Proofs.Unions
import DecoratedApi.Route.MethodOf

/-!
# Inferred return types

A method that declares no return type returns what its `return` statements show. Only the set of
shown types counts: none is `void`, one stands for itself, and several are an object
(`return_type_is_what_is_shown`).
-/

namespace DecoratedApi

/-! ## What one statement shows -/

theorem Shape.toNode_injective : Function.Injective Shape.toNode := by
  intro a b h
  induction a generalizing b with
  | keyword k => cases b <;> simp_all [toNode, TypeNode.named]
  | array element ih =>
    cases b with
    | array other =>
      rw [toNode, toNode, TypeNode.array.injEq] at h
      rw [ih h]
    | _ => cases h
  | named name => cases b <;> simp_all [toNode, TypeNode.named]

theorem Shape.literal?_toNode (shape : Shape) : shape.toNode.literal? = none := by
  cases shape <;> rfl

namespace Expr

/-- What shows no type: `null`, a name, and an expression that is not understood. -/
inductive IsMute : Expr → Prop
  | null : IsMute null
  | identifier (name : String) : IsMute (identifier name)
  | other (kind text : String) : IsMute (other kind text)

theorem returnShape?_eq_none {value : Option Expr} :
    returnShape? value = none ↔ ∃ e, value = some e ∧ e.IsMute := by
  constructor
  · intro h
    match value, h with
    | some null, _ => exact ⟨_, rfl, .null⟩
    | some (identifier name), _ => exact ⟨_, rfl, .identifier name⟩
    | some (other kind text), _ => exact ⟨_, rfl, .other kind text⟩
  · rintro ⟨e, rfl, hmute⟩
    cases hmute <;> rfl

theorem isNullish_shape (e : Expr) : e.shape.toNode.isNullish = false := by
  cases e with
  | array items => cases items <;> rfl
  | _ => rfl

theorem returnShape?_cases {value : Option Expr} {shape : Shape}
    (h : returnShape? value = some shape) :
    (shape = .keyword .undefined ∧ (value = none ∨ value = some undefined)) ∨
      (shape.toNode.isNullish = false ∧ ∃ e, value = some e ∧ e ≠ undefined) := by
  match value with
  | none => exact .inl ⟨(Option.some.inj h).symm, .inl rfl⟩
  | some undefined => exact .inl ⟨(Option.some.inj h).symm, .inr rfl⟩
  | some (object entries) =>
    cases h
    exact .inr ⟨rfl, _, rfl, nofun⟩
  | some (string _) | some (number _) | some (bool _) | some (array _) | some (construct _ _) =>
    cases h
    exact .inr ⟨isNullish_shape _, _, rfl, nofun⟩

end Expr

namespace MethodDecl

open Resolver DecoratedApi.Expr

variable {p : Program} {node : TypeNode} {ctx : ResolveContext} {s : ResolverState}
  {out : Outcome ApiType × ResolverState} {values : List (Option Expr)} {shapes found : List Shape}

/-! ## The loop over the statements -/

theorem returnShapes_error_iff (values : List (Option Expr)) (shapes : List Shape) :
    (∃ e, returnShapes values shapes = .error e) ↔ ∃ value ∈ values, returnShape? value = none := by
  induction values generalizing shapes with
  | nil => simp [returnShapes]
  | cons value rest ih =>
    cases hvalue : returnShape? value with
    | none => simp [returnShapes, hvalue]
    | some shape => simp [returnShapes, hvalue, ih]

theorem returnShapes_ok (h : returnShapes values shapes = .ok found) (hnodup : shapes.Nodup) :
    found.Nodup ∧ ∀ shape,
      shape ∈ found ↔ shape ∈ shapes ∨ ∃ value ∈ values, returnShape? value = some shape := by
  induction values generalizing shapes with
  | nil =>
    cases h
    simpa using hnodup
  | cons value rest ih =>
    cases hvalue : returnShape? value with
    | none => simp [returnShapes, hvalue] at h
    | some first =>
      simp only [returnShapes, hvalue] at h
      split at h
      · next hknown =>
        -- A shape that is known adds nothing to the list, and nothing to its members.
        obtain ⟨hfound, hmem⟩ := ih h hnodup
        refine ⟨hfound, fun shape => ?_⟩
        have hfirst : first = shape → shape ∈ shapes := by
          rintro rfl
          simpa using hknown
        grind
      · next hnew =>
        have hnotMem : first ∉ shapes := by simpa using hnew
        obtain ⟨hfound, hmem⟩ := ih h (List.nodup_append.mpr ⟨hnodup, by simp, by grind⟩)
        refine ⟨hfound, fun shape => ?_⟩
        rw [hmem]
        grind

/-! ## The annotation of a list of shapes -/

/-- The annotations of the shapes that are not `undefined`. -/
def annotations (shapes : List Shape) : List TypeNode :=
  (shapes.map Shape.toNode).filter (!·.isNullish)

theorem mem_annotations :
    node ∈ annotations shapes ↔
      ∃ shape ∈ shapes, shape.toNode.isNullish = false ∧ shape.toNode = node := by
  simp [annotations, List.filter_map, and_assoc]

theorem nodup_annotations (h : shapes.Nodup) : (annotations shapes).Nodup :=
  (h.map Shape.toNode_injective).filter _

theorem annotationOf_void (h : annotations shapes = [])
    (hundefined : ∀ shape ∈ shapes, shape.toNode.isNullish = true → shape = .keyword .undefined) :
    annotationOf shapes = .keyword .void := by
  have hall : ∀ shape ∈ shapes, shape = .keyword .undefined := by
    intro shape hshape
    refine hundefined shape hshape (Bool.of_not_eq_false fun hvalue => ?_)
    have hmem := mem_annotations.mpr ⟨shape, hshape, hvalue, rfl⟩
    rw [h] at hmem
    cases hmem
  unfold annotationOf
  rw [if_pos (by simpa using hall)]

theorem endsWith_annotationOf (h : annotations shapes ≠ []) :
    EndsWith p (annotationOf shapes) ctx s out ↔
      EndsWith p (.union (shapes.map Shape.toNode)) ctx s out := by
  -- A single shape stands for itself, as it would in a union of its own.
  obtain ⟨node, hnode⟩ := List.exists_mem_of_ne_nil _ h
  obtain ⟨shape, hshape, hvalue, rfl⟩ := mem_annotations.mp hnode
  have hsome : ¬shapes.all (· == .keyword .undefined) = true := by
    intro hall
    obtain rfl : shape = .keyword .undefined := by simpa using List.all_eq_true.mp hall shape hshape
    cases hvalue
  unfold annotationOf
  rw [if_neg hsome]
  split
  · next single =>
    obtain rfl := List.mem_singleton.mp hshape
    exact (endsWith_same (plan_union_single (by simp [hvalue]))).symm
  · rfl

theorem endsWith_annotationOf_single (h : annotations shapes = [node]) :
    EndsWith p (annotationOf shapes) ctx s out ↔ EndsWith p node ctx s out := by
  rw [endsWith_annotationOf (by simp [h]), endsWith_same (plan_union_single h)]

theorem endsWith_annotationOf_several (h : 2 ≤ (annotations shapes).length) :
    EndsWith p (annotationOf shapes) ctx s out ↔ out = (.ok .object, s) := by
  have hne : annotations shapes ≠ [] := List.ne_nil_of_length_pos (by omega)
  obtain ⟨node, hnode⟩ := List.exists_mem_of_ne_nil _ hne
  obtain ⟨shape, -, -, rfl⟩ := mem_annotations.mp hnode
  have hnone := literalValues?_eq_none hnode shape.literal?_toNode
  rw [endsWith_annotationOf hne, endsWith_answer (plan_union_several h)]
  rw [annotations] at hnone
  rw [hnone]
  rfl

/-! ## What a method shows -/

/-- The values that a method returns, `undefined` aside. -/
def returned (m : MethodDecl) : Set Expr := {e | some e ∈ m.returns ∧ e ≠ .undefined}

/-- The types that these values show. -/
def shown (m : MethodDecl) : Set TypeNode :=
  {node | ∃ e ∈ m.returned, ∃ shape, returnShape? (some e) = some shape ∧ shape.toNode = node}

variable {m : MethodDecl}

theorem returnNode_of_none (h : m.returnType = none) :
    m.returnNode = (returnShapes m.returns []).map annotationOf := by
  rw [returnNode, h]
  cases returnShapes m.returns [] <;> rfl

theorem mem_shown_iff (h : returnShapes m.returns [] = .ok shapes) :
    node ∈ m.shown ↔ node ∈ annotations shapes := by
  obtain ⟨-, hmem⟩ := returnShapes_ok h List.nodup_nil
  rw [mem_annotations]
  constructor
  · rintro ⟨e, ⟨he, hne⟩, shape, hshape, rfl⟩
    refine ⟨shape, (hmem shape).mpr (.inr ⟨_, he, hshape⟩), ?_, rfl⟩
    obtain ⟨-, hnone | hundefined⟩ | ⟨hvalue, -⟩ := returnShape?_cases hshape
    · cases hnone
    · exact absurd (Option.some.inj hundefined) hne
    · exact hvalue
  · rintro ⟨shape, hshape, hvalue, rfl⟩
    obtain hnil | ⟨value, hmember, hshape⟩ := (hmem shape).mp hshape
    · cases hnil
    · obtain ⟨rfl, -⟩ | ⟨-, e, rfl, hne⟩ := returnShape?_cases hshape
      · cases hvalue
      · exact ⟨e, ⟨hmember, hne⟩, shape, hshape, rfl⟩

theorem returnNode_error_iff (h : m.returnType = none) :
    (∃ e, m.returnNode = .error e) ↔ ∃ e ∈ m.returned, e.IsMute := by
  have hloop : (∃ e, m.returnNode = .error e) ↔ ∃ e, returnShapes m.returns [] = .error e := by
    rw [returnNode_of_none h]
    cases returnShapes m.returns [] <;> simp [Except.map]
  rw [hloop, returnShapes_error_iff]
  constructor
  · rintro ⟨value, hvalue, hnone⟩
    obtain ⟨e, rfl, hmute⟩ := returnShape?_eq_none.mp hnone
    refine ⟨e, ⟨hvalue, ?_⟩, hmute⟩
    rintro rfl
    cases hmute
  · rintro ⟨e, ⟨he, -⟩, hmute⟩
    exact ⟨_, he, returnShape?_eq_none.mpr ⟨e, rfl, hmute⟩⟩

theorem endsWith_returnNode (h : m.returnType = none) (hnode : m.returnNode = .ok node)
    (p : Program) (ctx : ResolveContext) (s : ResolverState)
    (out : Outcome ApiType × ResolverState) :
    (m.shown = ∅ → (EndsWith p node ctx s out ↔ out = (.ok .void, s))) ∧
    (∀ v, m.shown = {v} → (EndsWith p node ctx s out ↔ EndsWith p v ctx s out)) ∧
    (m.shown.Nontrivial → (EndsWith p node ctx s out ↔ out = (.ok .object, s))) := by
  rw [returnNode_of_none h] at hnode
  cases hloop : returnShapes m.returns [] with
  | error e => simp [hloop, Except.map] at hnode
  | ok shapes =>
    obtain rfl : annotationOf shapes = node := by simpa [hloop, Except.map] using hnode
    obtain ⟨hnodup, hmem⟩ := returnShapes_ok hloop List.nodup_nil
    refine ⟨fun hnone => ?_, fun v hone => ?_, fun hseveral => ?_⟩
    · have hnil : annotations shapes = [] := by
        refine List.eq_nil_iff_forall_not_mem.mpr fun node hnode => ?_
        rw [← mem_shown_iff hloop, hnone] at hnode
        exact hnode
      have hundefined : ∀ shape ∈ shapes,
          shape.toNode.isNullish = true → shape = .keyword .undefined := by
        intro shape hshape hnullish
        obtain hnil | ⟨value, -, hshape⟩ := (hmem shape).mp hshape
        · cases hnil
        · obtain ⟨hshape, -⟩ | ⟨hvalue, -⟩ := returnShape?_cases hshape
          · exact hshape
          · rw [hvalue] at hnullish
            cases hnullish
      rw [annotationOf_void hnil hundefined, endsWith_answer rfl]
      rfl
    · -- Each type is in the list once, so the list is no longer than the set.
      have hperm : (annotations shapes).Perm [v] := by
        refine (List.perm_ext_iff_of_nodup (nodup_annotations hnodup) (List.nodup_singleton v)).mpr
          fun node => ?_
        rw [← mem_shown_iff hloop, hone, Set.mem_singleton_iff, List.mem_singleton]
      exact endsWith_annotationOf_single (List.perm_singleton.mp hperm)
    · obtain ⟨a, ha, b, hb, hne⟩ := hseveral
      rw [mem_shown_iff hloop] at ha hb
      have hsub : [a, b] ⊆ annotations shapes := by simp [ha, hb]
      exact endsWith_annotationOf_several
        (List.subperm_of_subset (by simpa using hne) hsub).length_le

theorem endsWith_returnNode_congr {m' : MethodDecl} {node' : TypeNode} (h : m.returnType = none)
    (h' : m'.returnType = none) (hshown : m'.shown = m.shown) (hnode : m.returnNode = .ok node)
    (hnode' : m'.returnNode = .ok node') :
    EndsWith p node' ctx s out ↔ EndsWith p node ctx s out := by
  obtain ⟨hnone, hone, hseveral⟩ := endsWith_returnNode h hnode p ctx s out
  obtain ⟨hnone', hone', hseveral'⟩ := endsWith_returnNode h' hnode' p ctx s out
  rw [hshown] at hnone' hone' hseveral'
  rcases m.shown.eq_empty_or_nonempty with hempty | ⟨v, hv⟩
  · rw [hnone hempty, hnone' hempty]
  · rcases Set.eq_singleton_or_nontrivial hv with hsingle | hmany
    · rw [hone v hsingle, hone' v hsingle]
    · rw [hseveral hmany, hseveral' hmany]

end MethodDecl

open Resolver MethodDecl

/-- A method without a declared return type: inference fails exactly when a returned expression
shows nothing. Otherwise the inferred type is `void` when no type is shown, resolves as the one
that is shown, and is an object when there are several. Order, repetition and bare returns play no
part in this. -/
theorem return_type_is_what_is_shown (p : Program) {m : MethodDecl} (h : m.returnType = none) :
    ((∃ e, m.returnNode = .error e) ↔ ∃ e ∈ m.returned, e.IsMute) ∧
    (∀ node, m.returnNode = .ok node → ∀ ctx s out,
      (m.shown = ∅ → (EndsWith p node ctx s out ↔ out = (.ok .void, s))) ∧
      (∀ v, m.shown = {v} → (EndsWith p node ctx s out ↔ EndsWith p v ctx s out)) ∧
      (m.shown.Nontrivial → (EndsWith p node ctx s out ↔ out = (.ok .object, s)))) ∧
    ∀ m' : MethodDecl, m'.returnType = none →
      (m'.returned = m.returned →
        ((∃ e, m'.returnNode = .error e) ↔ ∃ e, m.returnNode = .error e) ∧ m'.shown = m.shown) ∧
      (m'.shown = m.shown → ∀ node node', m.returnNode = .ok node → m'.returnNode = .ok node' →
        ∀ ctx s out, EndsWith p node' ctx s out ↔ EndsWith p node ctx s out) := by
  refine ⟨returnNode_error_iff h, fun node hnode => endsWith_returnNode h hnode p,
    fun m' h' => ⟨?_, ?_⟩⟩
  · intro hreturned
    rw [returnNode_error_iff h, returnNode_error_iff h', shown, shown, hreturned]
    exact ⟨Iff.rfl, rfl⟩
  · intro hshown node node' hnode hnode' ctx s out
    exact endsWith_returnNode_congr h h' hshown hnode hnode'

/-- A method that tells when somebody came last, if ever. -/
def MethodDecl.lastVisit : MethodDecl :=
  { name := "lastVisit", doc := none, decorators := [], parameters := [], returnType := none
    returns := [none, some (.construct "Date" []), some .undefined] }

def MethodDecl.nextVisit : MethodDecl :=
  { MethodDecl.lastVisit with
    returns := [some (.construct "Date" []), some (.construct "Date" [])] }

theorem visits_are_times :
    ∃ node node', lastVisit.returnNode = .ok node ∧ nextVisit.returnNode = .ok node' ∧
      EndsWith ⟨[]⟩ node {} {} (.ok .datetime, {}) ∧
      EndsWith ⟨[]⟩ node' {} {} (.ok .datetime, {}) := by
  have hlast : lastVisit.returned = {.construct "Date" []} := by
    ext e
    simp only [returned, lastVisit, List.mem_cons, Set.mem_ofPred_eq, Set.mem_singleton_iff]
    grind
  have hnext : nextVisit.returned = {.construct "Date" []} := by
    ext e
    simp only [returned, nextVisit, List.mem_cons, Set.mem_ofPred_eq, Set.mem_singleton_iff]
    grind
  have hshown : lastVisit.shown = {.named "Date"} := by
    rw [shown, hlast]
    ext node
    simp [Expr.returnShape?, Expr.shape, Shape.toNode, eq_comm]
  obtain ⟨-, hends, hothers⟩ := return_type_is_what_is_shown ⟨[]⟩ (m := lastVisit) rfl
  obtain ⟨hreturned, hsame⟩ := hothers nextVisit rfl
  have htime := ((hends _ rfl {} {} _).2.1 _ hshown).mpr ⟨1, rfl⟩
  obtain ⟨-, hagree⟩ := hreturned (hnext.trans hlast.symm)
  exact ⟨_, _, rfl, rfl, htime, (hsame hagree _ _ rfl rfl {} {} _).mpr htime⟩

end DecoratedApi
