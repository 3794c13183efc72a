import Mathlib.Data.List.Perm.Subperm
import DecoratedApi.Files.Load
import DecoratedApi.Proofs.Lists

/-!
# Which files a program is loaded from

The imports of a file are known once it is read. `FileTree.BreadthFirst` says which order the files
come in: the entry, and then what each file imports, file after file, where it is imported first. So
all that imports lead to is there once, and what fewer imports lead to comes first. Loading a
program reads the files in this order.
-/

namespace DecoratedApi.Files.FileTree

/-- The syntax of the file at a place; none when it cannot be read or is not well formed. -/
def rootAt? (t : FileTree) (place : Place) : Option Source.Node :=
  (t.textAt? place).bind (Source.readNode? (isMarkup place.path))

/-- The files that the statements at a place import, in the order of the statements. -/
def importsOf (t : FileTree) (place : Place) : List Place :=
  match t.rootAt? place with
  | some root =>
    root.parts.filterMap fun statement =>
      (Source.importOf? statement.1).bind (t.importOf? place)
  | none => []

/-- The place is reached from the start through so many imports. -/
inductive Reached (t : FileTree) (start : Place) : Nat → Place → Prop
  | start : Reached t start 0 start
  | next {n : Nat} {a b : Place} (ha : Reached t start n a) (hb : b ∈ t.importsOf a) :
      Reached t start (n + 1) b

/-- The order in which a breadth-first walk along the imports comes to the files. -/
structure BreadthFirst (t : FileTree) (start : Place) (order : List Place) : Prop where
  nodup : order.Nodup
  mem_iff : ∀ place, place ∈ order ↔ ∃ n, t.Reached start n place
  eq_eraseDups : order = (start :: order.flatMap t.importsOf).eraseDups
  nearer : order.Pairwise fun a b => ∀ n, t.Reached start n b → ∃ m ≤ n, t.Reached start m a

/-! ## Reading a file -/

variable {t : FileTree} {start : Place}

theorem exists_unitAt_iff {place : Place} :
    (∃ unit, t.unitAt place = .ok unit) ↔ (t.rootAt? place).isSome := by
  unfold unitAt rootAt? Source.readUnit?
  cases t.textAt? place with
  | none => simp
  | some text =>
    cases hroot : Source.readNode? (isMarkup place.path) text <;> simp [hroot]

theorem importsOf_eq {place : Place} {unit : SourceUnit} (h : t.unitAt place = .ok unit) :
    t.importsOf place = unit.imports.filterMap (t.importOf? place) := by
  unfold unitAt Source.readUnit? at h
  unfold importsOf rootAt?
  cases htext : t.textAt? place with
  | none => simp [htext] at h
  | some text =>
    cases hroot : Source.readNode? (isMarkup place.path) text with
    | none => simp [htext, hroot] at h
    | some root =>
      obtain rfl : _ = unit := by simpa [htext, hroot] using h
      simp [hroot, List.filterMap_filterMap]

/-! ## Places that are new -/

theorem fresh_eq (seen places : List Place) :
    fresh seen places = (places.removeAll seen).eraseDups := by
  induction places generalizing seen with
  | nil => rfl
  | cons place rest ih =>
    rw [fresh, ih, ih]
    by_cases hseen : place ∈ seen
    · simp [List.removeAll, hseen]
    · have hfirst : (place :: rest).removeAll seen = place :: rest.removeAll seen := by
        simp [List.removeAll, hseen]
      have hrest : rest.removeAll (seen ++ [place]) =
          (rest.removeAll seen).filter fun b => !b == place := by
        simp only [List.removeAll, List.filter_filter]
        refine List.filter_congr fun b _ => ?_
        by_cases hb : b = place <;> simp [hb]
      rw [hfirst, hrest, List.eraseDups_cons, if_neg (by simpa using hseen)]

theorem mem_fresh {seen places : List Place} {place : Place} :
    place ∈ fresh seen places ↔ place ∈ places ∧ place ∉ seen := by
  simp [fresh_eq, List.removeAll]

theorem nodup_fresh (seen places : List Place) : (fresh seen places).Nodup := by
  induction places generalizing seen with
  | nil => exact List.nodup_nil
  | cons place rest ih =>
    rw [fresh]
    split
    · exact ih seen
    · refine List.nodup_cons.mpr ⟨?_, ih _⟩
      simp [mem_fresh]

/-! ## The walk -/

/-- The places that a walk reads, in order. -/
def visited (t : FileTree) : (fuel : Nat) → (queue seen : List Place) → List Place
  | _, [], _ => []
  | 0, _ :: _, _ => []
  | fuel + 1, place :: queue, seen =>
    let found := fresh seen (t.importsOf place)
    place :: t.visited fuel (queue ++ found) (seen ++ found)

theorem walk_eq_mapM (t : FileTree) (fuel : Nat) (queue seen : List Place) :
    t.walk fuel queue seen = (t.visited fuel queue seen).mapM t.unitAt := by
  induction fuel generalizing queue seen with
  | zero => cases queue <;> rfl
  | succ fuel ih =>
    cases queue with
    | nil => rfl
    | cons place queue =>
      rw [walk, visited, List.mapM_cons]
      cases hunit : t.unitAt place with
      | error e => rfl
      | ok unit =>
        simp only [ih, importsOf_eq hunit]
        rfl

/-- What holds when some places are read and the queue is what they have led to. -/
structure Walked (t : FileTree) (start : Place) (passed queue : List Place) : Prop where
  nodup : (passed ++ queue).Nodup
  eq_eraseDups : passed ++ queue = (start :: passed.flatMap t.importsOf).eraseDups
  reached : ∀ place ∈ passed ++ queue, ∃ n, t.Reached start n place

namespace Walked

variable {place : Place} {passed queue : List Place}

theorem begun (t : FileTree) (start : Place) : t.Walked start [] [start] where
  nodup := by simp
  eq_eraseDups := by simp [List.eraseDups_cons]
  reached := by
    intro place hplace
    obtain rfl : place = start := by simpa using hplace
    exact ⟨0, .start⟩

theorem step (h : t.Walked start passed (place :: queue)) :
    t.Walked start (passed ++ [place])
      (queue ++ fresh (passed ++ place :: queue) (t.importsOf place)) := by
  have hlist : passed ++ [place] ++
      (queue ++ fresh (passed ++ place :: queue) (t.importsOf place)) =
        (passed ++ place :: queue) ++ fresh (passed ++ place :: queue) (t.importsOf place) := by
    simp
  constructor
  · rw [hlist]
    refine List.nodup_append'.mpr ⟨h.nodup, nodup_fresh _ _, fun b hb hfresh => ?_⟩
    exact (mem_fresh.mp hfresh).2 hb
  · have hseen : (t.importsOf place).removeAll (passed ++ place :: queue) =
        (t.importsOf place).removeAll (start :: passed.flatMap t.importsOf) := by
      refine List.filter_congr fun b _ => ?_
      rw [h.eq_eraseDups]
      simp
    rw [hlist, List.flatMap_append, ← List.cons_append, List.eraseDups_append, ← h.eq_eraseDups,
      fresh_eq, hseen]
    simp
  · rw [hlist]
    intro b hb
    rcases List.mem_append.mp hb with hb | hb
    · exact h.reached b hb
    · obtain ⟨n, hn⟩ := h.reached place (by simp)
      exact ⟨n + 1, hn.next (mem_fresh.mp hb).1⟩

end Walked

/-! ## Files -/

theorem hasFile_of_mem_importsOf {a b : Place} (h : b ∈ t.importsOf a) : t.hasFile b = true := by
  unfold importsOf at h
  split at h
  · obtain ⟨statement, -, himport⟩ := List.mem_filterMap.mp h
    obtain ⟨specifier, -, himport⟩ := Option.bind_eq_some_iff.mp himport
    rw [importOf?, Option.bind_eq_bind, Option.bind_eq_some_iff] at himport
    obtain ⟨path, hpath, hplace⟩ := himport
    have hfile := List.find?_some hpath
    rw [isFile, hplace] at hfile
    exact hfile
  · cases h

theorem Reached.hasFile {n : Nat} {place : Place} (hstart : t.hasFile start = true)
    (h : t.Reached start n place) : t.hasFile place = true := by
  cases h with
  | start => exact hstart
  | next _ hb => exact hasFile_of_mem_importsOf hb

theorem mem_keys_of_hasFile {place : Place} (h : t.hasFile place = true) :
    place ∈ t.entries.map Prod.fst := by
  unfold hasFile find? at h
  split at h
  · next content hfind =>
    split at hfind
    · cases hfind
    · obtain ⟨before, after, hentries, -⟩ := List.lookup_eq_some_iff.mp hfind
      simp [hentries]
  · cases h

theorem length_le_entries {places : List Place} (hnodup : places.Nodup)
    (hfiles : ∀ place ∈ places, t.hasFile place = true) : places.length ≤ t.entries.length := by
  have hsub : places ⊆ t.entries.map Prod.fst := fun place hplace =>
    mem_keys_of_hasFile (hfiles place hplace)
  simpa using (hnodup.subperm hsub).length_le

theorem Walked.visited {passed queue : List Place} (h : t.Walked start passed queue)
    (hstart : t.hasFile start = true) (fuel : Nat)
    (hfuel : t.entries.length ≤ fuel + passed.length) :
    t.Walked start (passed ++ t.visited fuel queue (passed ++ queue)) [] := by
  induction fuel generalizing passed queue with
  | zero =>
    cases queue with
    | nil => simpa [FileTree.visited] using h
    | cons place queue =>
      -- All that is passed or waits is a file of its own, so the fuel cannot be gone yet.
      have hlength := length_le_entries h.nodup fun b hb =>
        (h.reached b hb).choose_spec.hasFile hstart
      simp at hlength
      omega
  | succ fuel ih =>
    cases queue with
    | nil => simpa [FileTree.visited] using h
    | cons place queue =>
      have hrest := ih h.step (by simp; omega)
      simpa [FileTree.visited] using hrest

/-! ## The order -/

theorem isPrefix_of_split {order before after : List Place}
    (h : order = (start :: order.flatMap t.importsOf).eraseDups)
    (hsplit : order = before ++ after) :
    (start :: before.flatMap t.importsOf).eraseDups <+: order := by
  have hsplit' : order = (start :: before.flatMap t.importsOf ++
      after.flatMap t.importsOf).eraseDups := by
    rw [List.cons_append, ← List.flatMap_append, ← hsplit]
    exact h
  rw [List.eraseDups_append] at hsplit'
  exact ⟨_, hsplit'.symm⟩

namespace Walked

variable {order : List Place} (h : t.Walked start order [])

include h

theorem order_eq : order = (start :: order.flatMap t.importsOf).eraseDups := by
  simpa using h.eq_eraseDups

theorem mem_iff (place : Place) : place ∈ order ↔ ∃ n, t.Reached start n place := by
  constructor
  · intro hplace
    exact h.reached place (by simpa using hplace)
  · rintro ⟨n, hn⟩
    induction hn with
    | start =>
      rw [h.order_eq]
      simp
    | @next n a b _ hb ha =>
      rw [h.order_eq]
      simp only [List.mem_eraseDups, List.mem_cons, List.mem_flatMap]
      exact .inr ⟨a, ha, hb⟩

theorem mem_of_before {before after : List Place} (hsplit : order = before ++ after) {a b : Place}
    (hab : [a, b].Sublist order) (hb : b ∈ start :: before.flatMap t.importsOf) :
    a ∈ start :: before.flatMap t.importsOf := by
  obtain ⟨rest, hrest⟩ := isPrefix_of_split h.order_eq hsplit
  have hnodup : order.Nodup := by simpa using h.nodup
  rw [← hrest] at hab hnodup
  rw [← List.mem_eraseDups] at hb ⊢
  exact mem_of_pair_sublist hnodup hab hb

theorem reached_of_before {a b : Place} {n : Nat} (hb : t.Reached start n b)
    (hab : [a, b].Sublist order) : ∃ m ≤ n, t.Reached start m a := by
  induction hb generalizing a with
  | start =>
    have hmem : a ∈ start :: [].flatMap t.importsOf :=
      h.mem_of_before (List.nil_append order).symm hab (by simp)
    obtain rfl : a = start := by simpa using hmem
    exact ⟨0, Nat.le_refl 0, .start⟩
  | @next n c b hc hb ih =>
    -- The file that imports `b` stands at the end of a part which leads to `a` as well.
    obtain ⟨before, after, hsplit⟩ := List.append_of_mem ((h.mem_iff c).mpr ⟨n, hc⟩)
    have hsplit' : order = (before ++ [c]) ++ after := by simp [hsplit]
    have ha := h.mem_of_before hsplit' hab
      (List.mem_cons_of_mem _ (List.mem_flatMap.mpr ⟨c, by simp, hb⟩))
    rcases List.mem_cons.mp ha with rfl | ha
    · exact ⟨0, Nat.zero_le _, .start⟩
    · obtain ⟨d, hd, had⟩ := List.mem_flatMap.mp ha
      rcases List.mem_append.mp hd with hd | hd
      · have hdc : [d, c].Sublist order := by
          rw [hsplit]
          exact (List.singleton_sublist.mpr hd).append
            (List.singleton_sublist.mpr List.mem_cons_self)
        obtain ⟨m, hm, hd⟩ := ih hdc
        exact ⟨m + 1, Nat.succ_le_succ hm, hd.next had⟩
      · obtain rfl : d = c := by simpa using hd
        exact ⟨n + 1, Nat.le_refl _, hc.next had⟩

theorem breadthFirst : t.BreadthFirst start order where
  nodup := by simpa using h.nodup
  mem_iff := h.mem_iff
  eq_eraseDups := h.order_eq
  nearer := List.pairwise_iff_forall_sublist.mpr fun hab n hb => h.reached_of_before hb hab

end Walked

namespace BreadthFirst

variable {order other : List Place}

theorem eq_of_closed (h : t.BreadthFirst start order) {before after : List Place}
    (hsplit : order = before ++ after)
    (hclosed : ∀ place ∈ start :: before.flatMap t.importsOf, place ∈ before) :
    order = before := by
  have hreached : ∀ n place, t.Reached start n place → place ∈ before := by
    intro n place hplace
    induction hplace with
    | start => exact hclosed start List.mem_cons_self
    | next _ hb ha =>
      exact hclosed _ (List.mem_cons_of_mem _ (List.mem_flatMap.mpr ⟨_, ha, hb⟩))
  obtain rfl : after = [] := by
    refine List.eq_nil_iff_forall_not_mem.mpr fun place hplace => ?_
    have hnodup := h.nodup
    rw [hsplit] at hnodup
    obtain ⟨n, hn⟩ := (h.mem_iff place).mp (by simp [hsplit, hplace])
    exact (List.nodup_append'.mp hnodup).2.2 (hreached n place hn) hplace
  rw [hsplit, List.append_nil]

theorem unique (h : t.BreadthFirst start order) (h' : t.BreadthFirst start other) :
    order = other := by
  -- The two agree on a first part of any length: it gives the next place, or it is all.
  have htake : ∀ k, order.take k = other.take k := by
    intro k
    induction k with
    | zero => rfl
    | succ k ih =>
      have hsplit := (List.take_append_drop k order).symm
      have hsplit' : other = order.take k ++ other.drop k := by
        rw [ih, List.take_append_drop]
      have hpart := isPrefix_of_split h.eq_eraseDups hsplit
      have hpart' := isPrefix_of_split h'.eq_eraseDups hsplit'
      by_cases hlength : k < (start :: (order.take k).flatMap t.importsOf).eraseDups.length
      · obtain ⟨rest, hrest⟩ := hpart
        obtain ⟨rest', hrest'⟩ := hpart'
        rw [← hrest, ← hrest', List.take_append_of_le_length hlength,
          List.take_append_of_le_length hlength]
      · have hclosed : ∀ place ∈ start :: (order.take k).flatMap t.importsOf,
            place ∈ order.take k := by
          intro place hplace
          have hmem := List.mem_eraseDups.mpr hplace
          rw [List.prefix_iff_eq_take.mp hpart] at hmem
          exact List.take_subset_take_left order (by omega) hmem
        rw [h.eq_of_closed hsplit hclosed, h'.eq_of_closed hsplit' hclosed]
  have hlong := htake (order.length + other.length)
  rwa [List.take_of_length_le (Nat.le_add_right _ _),
    List.take_of_length_le (Nat.le_add_left _ _)] at hlong

end BreadthFirst

theorem reachable_eq_mapM (hstart : t.hasFile start = true) :
    ∃ order, t.BreadthFirst start order ∧ t.reachable start = order.mapM t.unitAt := by
  have hwalked := (Walked.begun t start).visited hstart (t.entries.length + 1) (by simp)
  exact ⟨_, hwalked.breadthFirst, t.walk_eq_mapM _ _ _⟩

/-! ## Loading -/

theorem exists_mapM_unitAt_iff {order : List Place} :
    (∃ units, order.mapM t.unitAt = .ok units) ↔ ∀ place ∈ order, (t.rootAt? place).isSome := by
  simp only [exists_mapM_iff, exists_unitAt_iff]

theorem unitsFrom_file {entry : String} {place : Place} (hplace : t.locate? entry = some place)
    (hfile : t.hasFile place = true) : t.unitsFrom entry = t.reachable place := by
  have hdirectory : t.hasDirectory place = false := by
    unfold hasFile at hfile
    unfold hasDirectory
    cases hfind : t.find? place with
    | none => rfl
    | some e => cases e <;> simp_all
  simp [unitsFrom, hplace, hdirectory]

/-- Loading from a file reads what its imports lead to, in the one breadth-first order, and leaves
out what a pattern describes afterwards. It fails exactly when one of these files cannot be read. -/
theorem load_follows_imports {entry : String} {place : Place} {ignore : List String}
    {globs : List Glob} (hplace : t.locate? entry = some place) (hfile : t.hasFile place = true)
    (hglobs : readGlobs ignore = .ok globs) :
    ∃ order, (∀ places, t.BreadthFirst place places ↔ places = order) ∧
      t.load entry ignore = (do
        let units ← order.mapM t.unitAt
        return ⟨units.filter fun unit => !isIgnored (t.patternRoot? entry) globs unit.path⟩) ∧
      ((∃ p, t.load entry ignore = .ok p) ↔
        ∀ n file, t.Reached place n file → (t.rootAt? file).isSome) := by
  obtain ⟨order, horder, hreachable⟩ := reachable_eq_mapM hfile
  have hload : t.load entry ignore = (do
      let units ← order.mapM t.unitAt
      return ⟨units.filter fun unit => !isIgnored (t.patternRoot? entry) globs unit.path⟩) := by
    rw [load, hglobs, unitsFrom_file hplace hfile, hreachable]
    rfl
  refine ⟨order, fun places => ⟨fun h => h.unique horder, fun h => h ▸ horder⟩, hload, ?_⟩
  have hall : (∀ n file, t.Reached place n file → (t.rootAt? file).isSome) ↔
      ∀ file ∈ order, (t.rootAt? file).isSome := by
    simp only [horder.mem_iff, forall_exists_index]
    exact forall_comm
  rw [hall, ← exists_mapM_unitAt_iff, hload]
  cases order.mapM t.unitAt <;> simp

/-- A page that imports a file and itself, and a picture. -/
def pages : FileTree where
  entries := [
    (["app"], .directory),
    (["app", "main.ts"], .file (.text "import './user';\nexport * from './main';")),
    (["app", "user.ts"], .file (.text "export interface User { name: string }")),
    (["app", "logo.ts"], .file .binary)]
  current := ["app"]

theorem pages_reach_user {n : Nat} (h : pages.Reached ["app", "main.ts"] n ["app", "user.ts"]) :
    ["app", "user.ts"] ∈ pages.importsOf ["app", "main.ts"] := by
  generalize huser : ["app", "user.ts"] = file at h
  induction h with
  | start => simp at huser
  | @next n a b ha hb ih =>
    subst huser
    have hkey := mem_keys_of_hasFile (ha.hasFile (by decide))
    simp only [pages, List.map_cons, List.map_nil, List.mem_cons, List.not_mem_nil, or_false] at hkey
    rcases hkey with rfl | rfl | rfl | rfl
    · cases hb
    · exact hb
    · exact ih rfl
    · cases hb

/-- The page comes first. The file that it imports comes in by that import alone, and is left out
afterwards, since the pattern describes it. The picture cannot be loaded. -/
theorem pages_load :
    (∃ order, pages.BreadthFirst ["app", "main.ts"] (["app", "main.ts"] :: order) ∧
      (["app", "user.ts"] ∈ order ↔ ["app", "user.ts"] ∈ pages.importsOf ["app", "main.ts"]) ∧
      pages.load "main.ts" ["**/u*"] = (do
        let units ← (["app", "main.ts"] :: order).mapM pages.unitAt
        return ⟨units.filter fun unit => !isIgnored (pages.patternRoot? "main.ts")
          [[.anySteps, .char 'u', .anySequence]] unit.path⟩)) ∧
    isIgnored (pages.patternRoot? "main.ts") [[.anySteps, .char 'u', .anySequence]]
      (Place.path ["app", "user.ts"]) = true ∧
    ∀ p, pages.load "logo.ts" [] ≠ .ok p := by
  refine ⟨?_, by decide, ?_⟩
  · obtain ⟨order, horder, hload, -⟩ := @load_follows_imports pages "main.ts" ["app", "main.ts"]
      ["**/u*"] [[.anySteps, .char 'u', .anySequence]] (by decide) (by decide) rfl
    have hfirst := (horder order).mpr rfl
    obtain ⟨rest, rfl⟩ : ∃ rest, order = ["app", "main.ts"] :: rest := by
      have heq := hfirst.eq_eraseDups
      rw [List.eraseDups_cons] at heq
      exact ⟨_, heq⟩
    refine ⟨rest, hfirst, ?_, hload⟩
    -- What the page imports is kept as a term: the tables of the parser are looked up by hashes,
    -- which do not reduce.
    constructor
    · intro huser
      obtain ⟨n, hn⟩ := (hfirst.mem_iff _).mp (List.mem_cons_of_mem _ huser)
      exact pages_reach_user hn
    · intro himport
      have huser := (hfirst.mem_iff _).mpr ⟨1, .next .start himport⟩
      simpa using huser
  · obtain ⟨-, -, -, hok⟩ := @load_follows_imports pages "logo.ts" ["app", "logo.ts"] [] []
      (by decide) (by decide) rfl
    intro p hp
    have hroot : (pages.rootAt? ["app", "logo.ts"]).isSome = true := hok.mp ⟨p, hp⟩ 0 _ .start
    cases hroot

end DecoratedApi.Files.FileTree
