import DecoratedApi.Declaration.Decl
import DecoratedApi.Proofs.Maps

/-!
# Looking up declarations

Declarations are looked up in an index of places that is filled in one pass over all units. The
places under a name are those of its declarations, each of them exists, and they stand in the order
of the units. So looking a name up comes to reading all units from the first to the last.
-/

namespace DecoratedApi.Program

variable (p : Program)

/-- All declarations, each with its unit, in order. -/
def written : List (SourceUnit × Declaration) :=
  p.units.flatMap fun u => u.declarations.map fun d => (u, d)

theorem declarations_eq : p.declarations = p.written.map (·.2) := by
  simp [declarations, written, List.map_flatMap, Function.comp_def]

/-! ## The index -/

theorem find?_addPlace (index : OrderedMap (List Place)) (entry : String × Place) (name : String) :
    (OrderedMap.find? name (addPlace index entry)).getD [] =
      (OrderedMap.find? name index).getD [] ++ if entry.1 == name then [entry.2] else [] := by
  rw [addPlace, OrderedMap.find?_set]
  by_cases h : entry.1 = name
  · simp [h]
  · simp [h, Ne.symm h]

theorem find?_foldl_addPlace (entries : List (String × Place)) (index : OrderedMap (List Place))
    (name : String) :
    (OrderedMap.find? name (entries.foldl addPlace index)).getD [] =
      (OrderedMap.find? name index).getD [] ++ (entries.filter (·.1 == name)).map (·.2) := by
  induction entries generalizing index with
  | nil => simp
  | cons entry rest ih =>
    rw [List.foldl_cons, ih, find?_addPlace, List.filter_cons, List.append_assoc]
    split <;> simp

theorem find?_index (name : String) :
    (OrderedMap.find? name p.index).getD [] = (p.places.filter (·.1 == name)).map (·.2) := by
  rw [index, find?_foldl_addPlace]
  rfl

/-! ## Places -/

/-- All declarations with their units and their places. -/
def placed : List ((SourceUnit × Declaration) × Place) :=
  p.units.zipIdx.flatMap fun (u, i) => u.declarations.zipIdx.map fun (d, j) => ((u, d), ⟨i, j⟩)

theorem places_eq : p.places = p.placed.map fun e => (e.1.2.name, e.2) := by
  simp [places, placed, List.map_flatMap, Function.comp_def]

theorem map_fst_placed : p.placed.map (·.1) = p.written := by
  have hunit : ∀ u : SourceUnit,
      (u.declarations.zipIdx.map fun x => (u, x.1)) = u.declarations.map fun d => (u, d) := by
    intro u
    nth_rewrite 2 [← List.zipIdx_map_fst 0 u.declarations]
    rw [List.map_map]
    rfl
  calc p.placed.map (·.1)
      = p.units.zipIdx.flatMap fun e => e.1.declarations.map fun d => (e.1, d) := by
        simp [placed, List.map_flatMap, Function.comp_def, hunit]
    _ = (p.units.zipIdx.map Prod.fst).flatMap fun u => u.declarations.map fun d => (u, d) := by
        rw [List.flatMap_map]
    _ = p.written := by rw [List.zipIdx_map_fst, written]

theorem declarationAt?_of_mem {e : (SourceUnit × Declaration) × Place} (h : e ∈ p.placed) :
    p.declarationAt? e.2 = some e.1 := by
  obtain ⟨⟨u, i⟩, hu, he⟩ := List.mem_flatMap.mp h
  obtain ⟨⟨d, j⟩, hd, rfl⟩ := List.mem_map.mp he
  have hunit : p.units[i]? = some u := List.mem_zipIdx_iff_getElem?.mp hu
  have hdeclaration : u.declarations[j]? = some d := List.mem_zipIdx_iff_getElem?.mp hd
  simp [declarationAt?, hunit, hdeclaration]

/-! ## Names -/

theorem locate_eq (name : String) :
    p.locate name = p.written.filter (·.2.name == Text.lastSegment name) := by
  rw [locate, find?_index, places_eq, List.filter_map, List.map_map, List.filterMap_map,
    ← map_fst_placed, List.filter_map]
  rw [← List.filterMap_eq_map]
  refine List.filterMap_congr fun e he => ?_
  exact p.declarationAt?_of_mem (List.mem_of_mem_filter he)

theorem find_eq (name : String) :
    p.find name = p.declarations.filter (·.name == Text.lastSegment name) := by
  rw [find, locate_eq, declarations_eq, List.filter_map]
  rfl

end DecoratedApi.Program
