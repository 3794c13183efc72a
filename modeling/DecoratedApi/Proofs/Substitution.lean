import DecoratedApi.Proofs.Parts
import DecoratedApi.Proofs.Session

/-!
# One substitution after another

Arguments of a generic type may themselves name parameters, which are replaced in turn. Two
substitutions one after the other come to a single one: a name that the first one binds stands for
what the second one makes of it, and any other name for what the second one says. A substitution
that binds no name of a type leaves it as it is (`substitutions_compose`).
-/

namespace DecoratedApi

namespace Bindings

variable {b b' c : Bindings} {name : String}

/-- `c` says at once what `b` and then `b'` say. -/
def Composes (b b' c : Bindings) : Prop :=
  ∀ name, c.find? name =
    match b.find? name with
    | some t => some (t.substitute b')
    | none => b'.find? name

/-- The bindings of the first substitution, into which the second one is carried, and behind them
those of the second one, for all names that the first one leaves. -/
def andThen (b b' : Bindings) : Bindings := b.map (fun e => (e.1, e.2.substitute b')) ++ b'

theorem composes_andThen (b b' : Bindings) : b.Composes b' (b.andThen b') := by
  intro name
  induction b with
  | nil => rfl
  | cons entry rest ih =>
    obtain ⟨n, t⟩ := entry
    by_cases hn : n = name
    · simp [andThen, find?, hn]
    · simp only [andThen, List.map_cons, List.cons_append, find?, if_neg hn]
      exact ih

theorem Composes.substitute_lookup (h : b.Composes b' c) (name : String) :
    (b.lookup name).substitute b' = c.lookup name := by
  have hname := h name
  unfold lookup
  cases hfind : b.find? name with
  | some t =>
    rw [hfind] at hname
    simp [hname]
  | none =>
    rw [hfind] at hname
    rw [hname, Option.getD_none, TypeNode.substitute_named, lookup]

end Bindings

namespace TypeNode

variable {b b' c : Bindings} {node : TypeNode}

theorem substitute_substitute (h : b.Composes b' c) (node : TypeNode) :
    (node.substitute b).substitute b' = node.substitute c := by
  induction node using parts_induction with
  | h node ih =>
    by_cases hnode : ∃ n, node = named n
    · obtain ⟨n, rfl⟩ := hnode
      rw [substitute_named, substitute_named, h.substitute_lookup]
    · have hne : ∀ n, node ≠ named n := fun n hn => hnode ⟨n, hn⟩
      -- A name with arguments keeps them, so the second substitution does not take it for a parameter.
      have hne' : ∀ n, node.mapParts (substitute b) ≠ named n := mapParts_ne_named hne
      rw [substitute_eq_mapParts hne, substitute_eq_mapParts hne', mapParts_mapParts,
        substitute_eq_mapParts hne]
      exact mapParts_congr ih

theorem substitute_eq_self (h : ∀ name, node.Names name → b.find? name = none) :
    node.substitute b = node := by
  apply substitute_eq_self_iff.mpr
  intro name hname
  rw [Bindings.lookup, h name hname, Option.getD_none]

end TypeNode

theorem PropertyOf.substitute_substitute {b b' c : Bindings} (h : b.Composes b' c)
    (m : PropertyDecl) : (m.substitute b).substitute b' = m.substitute c := by
  have htype : (m.type.map (TypeNode.substitute b)).map (TypeNode.substitute b') =
      m.type.map (TypeNode.substitute c) := by
    rw [Option.map_map]
    exact Option.map_congr fun t _ => TypeNode.substitute_substitute h t
  unfold substitute
  rw [htype]

/-- There is one substitution that does what two do one after the other, and whichever does so has
the same effect on all types and properties. Where no name is bound, and so with no bindings at all,
nothing changes. -/
theorem substitutions_compose (b b' : Bindings) :
    b.Composes b' (b.andThen b') ∧
    (∀ c, b.Composes b' c →
      (∀ node : TypeNode, (node.substitute b).substitute b' = node.substitute c) ∧
        ∀ m : PropertyDecl, (m.substitute b).substitute b' = m.substitute c) ∧
    (∀ node : TypeNode, (∀ name, node.Names name → b.find? name = none) →
      node.substitute b = node) ∧
    ∀ node : TypeNode, node.substitute [] = node := by
  refine ⟨Bindings.composes_andThen b b', ?_, fun _ => TypeNode.substitute_eq_self,
    TypeNode.substitute_nil⟩
  intro c hc
  exact ⟨TypeNode.substitute_substitute hc, PropertyOf.substitute_substitute hc⟩

/-- Items of a type, and pages of them under any other name. -/
def TypeNode.shelf : TypeNode :=
  .object [PropertyDecl.plain "items" (.array (.named "T"))]
    (some (.reference "Page" [.named "T", .named "U"]))

theorem TypeNode.names_shelf {name : String} (h : shelf.Names name) : name = "T" ∨ name = "U" := by
  have hshelf : ∀ n, shelf ≠ named n := by simp [shelf, named]
  have hitems : ∀ n, array (named "T") ≠ named n := by simp [named]
  have hpages : ∀ n, reference "Page" [named "T", named "U"] ≠ named n := by simp [named]
  have hparts : shelf.parts = [array (named "T"), reference "Page" [named "T", named "U"]] := rfl
  rw [names_iff_of_ne hshelf, hparts] at h
  simpa [names_iff_of_ne hitems, names_iff_of_ne hpages, parts, eq_comm] using h

namespace Bindings

def boxes : Bindings := [("T", .reference "Box" [.named "U"])]

def words : Bindings :=
  [("U", .keyword .string), ("T", .keyword .number), ("Page", .keyword .boolean)]

def boxedWords : Bindings :=
  [("T", .reference "Box" [.keyword .string]), ("U", .keyword .string), ("Page", .keyword .boolean)]

end Bindings

/-- Boxes are put in the place of `T`, and words into the boxes. What the second substitution says of
`T` and of `Page` has no effect: the one is gone, and the other has arguments. -/
theorem shelf_of_boxes_is_filled_in :
    Bindings.boxes.Composes .words .boxedWords ∧
    (TypeNode.shelf.substitute .boxes).substitute .words = TypeNode.shelf.substitute .boxedWords ∧
    TypeNode.shelf.substitute [("Page", .keyword .boolean)] = .shelf := by
  have hcomposes : Bindings.boxes.Composes .words .boxedWords := by
    intro name
    by_cases ht : "T" = name
    · subst ht
      rfl
    · simp [Bindings.boxes, Bindings.words, Bindings.boxedWords, Bindings.find?, ht]
  have hnone : ∀ name, TypeNode.shelf.Names name →
      Bindings.find? [("Page", .keyword .boolean)] name = none := by
    intro name hname
    rcases TypeNode.names_shelf hname with rfl | rfl <;> rfl
  obtain ⟨-, hcompose, -⟩ := substitutions_compose .boxes .words
  obtain ⟨-, -, hsame, -⟩ := substitutions_compose [("Page", .keyword .boolean)] []
  exact ⟨hcomposes, (hcompose _ hcomposes).1 .shelf, hsame .shelf hnone⟩

end DecoratedApi
