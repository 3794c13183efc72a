import DecoratedApi.Proofs.Depth
import DecoratedApi.Proofs.Parts

/-!
# Unions of literals

A union of literals is an enum of their values. A union that stands in another one is looked into
only where nothing but `null` and `undefined` stands beside it. Where literals are grouped in any
other way, the whole is an object and the values are lost (`grouping_is_ignored_iff`).
-/

namespace DecoratedApi

namespace Resolver

variable {p : Program} {node : TypeNode} {members : List TypeNode} {ctx : ResolveContext}

/-! ## Members of a union -/

theorem plan_union_single (h : members.filter (!·.isNullish) = [node]) :
    plan p (.union members) ctx = .same node := by
  simp [plan, Plan.ofUnion, h]

theorem plan_union_several (h : 2 ≤ (members.filter (!·.isNullish)).length) :
    plan p (.union members) ctx = .answer (.ok
      (((literalValues? (members.filter (!·.isNullish))).map ApiType.enum).getD .object)) := by
  cases hremaining : members.filter (!·.isNullish) with
  | nil => simp [hremaining] at h
  | cons first others =>
    cases others with
    | nil => simp [hremaining] at h
    | cons second rest =>
      simp only [plan, Plan.ofUnion, hremaining]
      cases literalValues? (first :: second :: rest) <;> rfl

end Resolver

/-! ## Trees of unions -/

namespace TypeNode

variable {node : TypeNode} {members : List TypeNode}

def literal? : TypeNode → Option Literal
  | literal l => some l
  | _ => none

mutual
/-- What a tree of unions is made of, from left to right. -/
def leaves : TypeNode → List TypeNode
  | union members => leavesOf members
  | node => [node]

def leavesOf : List TypeNode → List TypeNode
  | [] => []
  | member :: rest => leaves member ++ leavesOf rest
end

theorem leaves_union (members : List TypeNode) :
    (union members).leaves = members.flatMap leaves := by
  rw [leaves]
  induction members with
  | nil => rfl
  | cons member rest ih => rw [leavesOf, ih, List.flatMap_cons]

theorem leaves_leaf {leaf : TypeNode} (h : leaf ∈ node.leaves) : leaf.leaves = [leaf] := by
  induction node using parts_induction with
  | h node ih =>
    cases node with
    | union members =>
      rw [leaves_union] at h
      obtain ⟨member, hmember, hleaf⟩ := List.mem_flatMap.mp h
      exact ih member hmember hleaf
    | _ =>
      obtain rfl := List.mem_singleton.mp h
      rfl

/-- The literals in a tree of unions, from left to right. -/
def literals (node : TypeNode) : List Literal := node.leaves.filterMap literal?

theorem literals_union (members : List TypeNode) :
    (union members).literals = members.flatMap literals := by
  rw [literals, leaves_union, List.filterMap_flatMap]
  rfl

theorem literals_strip (members : List TypeNode) :
    (members.filter (!·.isNullish)).flatMap literals = (union members).literals := by
  rw [literals_union]
  induction members with
  | nil => rfl
  | cons member rest ih =>
    rw [List.filter_cons, List.flatMap_cons, ← ih]
    split
    · rw [List.flatMap_cons]
    · next h =>
      -- What is stripped holds no literal.
      have hnone : member.literals = [] := by
        cases member with
        | keyword k => rfl
        | _ => simp [isNullish] at h
      rw [hnone, List.nil_append]

theorem literals_leaves (node : TypeNode) : (union node.leaves).literals = node.literals := by
  have hall : ∀ leaf ∈ node.leaves, leaf.literals = leaf.literal?.toList := by
    intro leaf h
    rw [literals, leaves_leaf h, List.filterMap_eq_flatMap_toList, List.flatMap_singleton]
  rw [literals_union, List.flatMap_congr hall, literals, List.filterMap_eq_flatMap_toList]

/-- All literals stand in one union. Around it there may be unions with `null` and `undefined`. -/
inductive IsOneGroup : TypeNode → Prop
  | here {members : List TypeNode}
      (h : ∀ member ∈ members.filter (!·.isNullish), member.literal?.isSome = true) :
      IsOneGroup (union members)
  | within {members : List TypeNode} {inner : TypeNode}
      (h : members.filter (!·.isNullish) = [inner]) (hinner : inner.IsOneGroup) :
      IsOneGroup (union members)

theorem length_literals_of_isSome (h : node.literal?.isSome = true) : node.literals.length = 1 := by
  cases node with
  | literal l => rfl
  | _ => cases h

theorem isOneGroup_single (h : members.filter (!·.isNullish) = [node])
    (htwo : 2 ≤ node.literals.length) : (union members).IsOneGroup ↔ node.IsOneGroup := by
  constructor
  · intro hgroup
    cases hgroup with
    | here hall =>
      -- The member would be the only literal.
      rw [length_literals_of_isSome (hall node (by simp [h]))] at htwo
      omega
    | within h' hinner =>
      obtain rfl : node = _ := by simpa [h] using h'
      exact hinner
  · exact .within h

theorem isOneGroup_several (h : 2 ≤ (members.filter (!·.isNullish)).length) :
    (union members).IsOneGroup ↔
      ∀ member ∈ members.filter (!·.isNullish), member.literal?.isSome = true := by
  constructor
  · intro hgroup
    cases hgroup with
    | here hall => exact hall
    | within h' _ =>
      rw [h'] at h
      simp at h
  · exact .here

end TypeNode

namespace Resolver

open TypeNode

variable {p : Program} {node : TypeNode} {ctx : ResolveContext} {s : ResolverState}

theorem literalValues?_eq_some {nodes : List TypeNode}
    (h : ∀ node ∈ nodes, node.literal?.isSome = true) :
    literalValues? nodes = some ((nodes.flatMap literals).map (·.value)) := by
  induction nodes with
  | nil => rfl
  | cons first rest ih =>
    have hrest := ih fun node hnode => h node (List.mem_cons_of_mem _ hnode)
    cases first with
    | literal l => simp [literalValues?, hrest, literals, leaves, literal?]
    | _ => cases h _ List.mem_cons_self

theorem literalValues?_eq_none {nodes : List TypeNode} {node : TypeNode} (hnode : node ∈ nodes)
    (h : node.literal? = none) : literalValues? nodes = none := by
  induction nodes with
  | nil => cases hnode
  | cons first rest ih =>
    cases first with
    | literal l =>
      rcases List.mem_cons.mp hnode with rfl | hrest
      · cases h
      · simp [literalValues?, ih hrest]
    | _ => rfl

theorem endsWith_tree (p : Program) (ctx : ResolveContext) (s : ResolverState)
    (htwo : 2 ≤ node.literals.length) :
    (node.IsOneGroup ∧ EndsWith p node ctx s (.ok (.enum (node.literals.map (·.value))), s)) ∨
      (¬node.IsOneGroup ∧ EndsWith p node ctx s (.ok .object, s)) := by
  induction node using parts_induction with
  | h node ih =>
    cases node with
    | union members =>
      rw [← literals_strip] at htwo ⊢
      match hremaining : members.filter (!·.isNullish) with
      | [] => simp [hremaining] at htwo
      | [single] =>
        -- The member is resolved in the place of the union, so its own groups count.
        have hmem : single ∈ members.filter (!·.isNullish) := by simp [hremaining]
        have hplan : plan p (.union members) ctx = .same single := plan_union_single hremaining
        rw [hremaining, List.flatMap_singleton] at htwo ⊢
        rw [isOneGroup_single hremaining htwo, endsWith_same hplan, endsWith_same hplan]
        exact ih single (List.mem_of_mem_filter hmem) htwo
      | first :: second :: rest =>
        -- Here the search ends: only literals are recognized among several members.
        have hseveral : 2 ≤ (members.filter (!·.isNullish)).length := by simp [hremaining]
        rw [isOneGroup_several hseveral, endsWith_answer (plan_union_several hseveral),
          endsWith_answer (plan_union_several hseveral)]
        by_cases hall : ∀ member ∈ members.filter (!·.isNullish), member.literal?.isSome = true
        · exact .inl ⟨hall, by rw [literalValues?_eq_some hall]; rfl⟩
        · obtain ⟨member, hmember, hnone⟩ : ∃ member ∈ members.filter (!·.isNullish),
              member.literal? = none := by simpa [and_assoc] using hall
          exact .inr ⟨hall, by rw [literalValues?_eq_none hmember hnone]; rfl⟩
    | _ =>
      have hone := Nat.le_trans htwo (List.length_filterMap_le literal? [_])
      simp at hone

end Resolver

open Resolver TypeNode

/-- Where a tree of unions is made of literals, of which there are several, and of `null` and
`undefined`: without its groups it is the enum of the literals' values, from left to right. As it
stands it is the same enum exactly when all literals stand in one group, and else an object. The
state stays as it is. -/
theorem grouping_is_ignored_iff (p : Program) {node : TypeNode}
    (hleaves : ∀ leaf ∈ node.leaves, leaf.literal?.isSome = true ∨ leaf.isNullish = true)
    (htwo : 2 ≤ node.literals.length) (ctx : ResolveContext) (s : ResolverState) :
    EndsWith p (.union node.leaves) ctx s (.ok (.enum (node.literals.map (·.value))), s) ∧
    (EndsWith p node ctx s (.ok (.enum (node.literals.map (·.value))), s) ↔ node.IsOneGroup) ∧
    (EndsWith p node ctx s (.ok .object, s) ↔ ¬node.IsOneGroup) := by
  constructor
  · have hflat : (union node.leaves).IsOneGroup := .here fun leaf hleaf => by
      obtain ⟨hmem, hnullish⟩ := List.mem_filter.mp hleaf
      exact (hleaves leaf hmem).resolve_right (by simpa using hnullish)
    rw [← literals_leaves] at htwo ⊢
    obtain ⟨-, h⟩ | ⟨hno, -⟩ := endsWith_tree p ctx s htwo
    · exact h
    · exact absurd hflat hno
  · obtain ⟨hgroup, h⟩ | ⟨hno, h⟩ := endsWith_tree p ctx s htwo
    · refine ⟨iff_of_true h hgroup, iff_of_false (fun hobject => ?_) (not_not_intro hgroup)⟩
      cases h.unique hobject
    · refine ⟨iff_of_false (fun henum => ?_) hno, iff_of_true h hno⟩
      cases h.unique henum

/-- A size in a group, with `null` and `undefined` around it. -/
def TypeNode.optionalSize : TypeNode :=
  .union [.union [.keyword .null, .union [.literal (.string "small"), .literal (.string "large")]],
    .keyword .undefined]

theorem optional_size_is_its_values :
    optionalSize.leaves = [.keyword .null, .literal (.string "small"), .literal (.string "large"),
      .keyword .undefined] ∧
    EndsWith ⟨[]⟩ (.union optionalSize.leaves) {} {}
      (.ok (.enum [.string "small", .string "large"]), {}) ∧
    EndsWith ⟨[]⟩ optionalSize {} {} (.ok (.enum [.string "small", .string "large"]), {}) := by
  have hleaves : ∀ leaf ∈ optionalSize.leaves,
      leaf.literal?.isSome = true ∨ leaf.isNullish = true := by decide
  have hgroup : optionalSize.IsOneGroup := .within rfl (.within rfl (.here (by decide)))
  obtain ⟨hflat, henum, -⟩ := grouping_is_ignored_iff ⟨[]⟩ hleaves (by decide) {} {}
  exact ⟨rfl, hflat, henum.mpr hgroup⟩

/-- A size of which the second and the third value stand in brackets. -/
def TypeNode.bracketedSize : TypeNode :=
  .union [.literal (.string "small"),
    .union [.literal (.string "medium"), .literal (.string "large")]]

/-- The brackets are not looked into: three literals are no enum but an object. -/
theorem bracketed_size_is_an_object :
    (∀ leaf ∈ bracketedSize.leaves, leaf.literal?.isSome = true ∨ leaf.isNullish = true) ∧
    bracketedSize.literals = [.string "small", .string "medium", .string "large"] ∧
    EndsWith ⟨[]⟩ (.union bracketedSize.leaves) {} {}
      (.ok (.enum [.string "small", .string "medium", .string "large"]), {}) ∧
    EndsWith ⟨[]⟩ bracketedSize {} {} (.ok .object, {}) ∧
    ¬EndsWith ⟨[]⟩ bracketedSize {} {}
      (.ok (.enum [.string "small", .string "medium", .string "large"]), {}) := by
  have hobject : EndsWith ⟨[]⟩ bracketedSize {} {} (.ok .object, {}) := ⟨1, rfl⟩
  refine ⟨by decide, rfl, ⟨1, rfl⟩, hobject, fun henum => ?_⟩
  cases hobject.unique henum

end DecoratedApi
