import DecoratedApi.Proofs.Trimming
import DecoratedApi.Route.MethodOf

/-!
# Joined paths

The slashes at the ends of a path do not count. Joining puts one slash between what is left of two
paths, and nothing where one of them is used up. The result has no slashes at its ends, so it does
not matter in which order three paths are joined (`joined_paths_form_a_monoid`).
-/

namespace DecoratedApi.Path

/-- A path of nothing but slashes. -/
def slashes (n : Nat) : String := String.ofList (List.replicate n '/')

/-- A path that neither starts nor ends with a slash. -/
def IsBare (s : String) : Prop := s.toList.head? ≠ some '/' ∧ s.toList.getLast? ≠ some '/'

variable {a b c s : String}

theorem slash_of_mem_slashes {n : Nat} : ∀ c ∈ (slashes n).toList, (c == '/') = true := by
  intro c hc
  rw [slashes, String.toList_ofList] at hc
  simp [List.eq_of_mem_replicate hc]

/-! ## Trimming -/

theorem toList_trimSlashes (s : String) :
    (trimSlashes s).toList = Text.stripWhile (· == '/') s.toList := by
  unfold trimSlashes Text.strip
  exact String.toList_ofList

theorem trimSlashes_eq_self_iff : trimSlashes s = s ↔ IsBare s := by
  rw [← String.toList_inj, toList_trimSlashes, Text.stripWhile_eq_self_iff, IsBare]
  simp only [beq_eq_false_iff_ne, Option.mem_def]
  constructor
  · rintro ⟨hfirst, hlast⟩
    exact ⟨fun h => hfirst _ h rfl, fun h => hlast _ h rfl⟩
  · rintro ⟨hfirst, hlast⟩
    constructor
    · rintro _ h rfl
      exact hfirst h
    · rintro _ h rfl
      exact hlast h

theorem trimSlashes_trimSlashes (s : String) : trimSlashes (trimSlashes s) = trimSlashes s := by
  rw [← String.toList_inj]
  simp only [toList_trimSlashes]
  exact Text.stripWhile_stripWhile

theorem isBare_trimSlashes (s : String) : IsBare (trimSlashes s) :=
  trimSlashes_eq_self_iff.mp (trimSlashes_trimSlashes s)

theorem trimSlashes_surrounded (m n : Nat) (s : String) :
    trimSlashes (slashes m ++ s ++ slashes n) = trimSlashes s := by
  rw [← String.toList_inj]
  simp only [toList_trimSlashes, String.toList_append]
  rw [Text.stripWhile_append_right slash_of_mem_slashes,
    Text.stripWhile_append_left slash_of_mem_slashes]

theorem trimSlashes_slashes (n : Nat) : trimSlashes (slashes n) = "" := by
  rw [← String.toList_inj, toList_trimSlashes, Text.stripWhile_eq_nil slash_of_mem_slashes]
  rfl

/-! ## Joining -/

theorem join_of_left_empty (h : trimSlashes a = "") (b : String) : join a b = trimSlashes b := by
  simp [join, h]

theorem join_of_right_empty (a : String) (h : trimSlashes b = "") : join a b = trimSlashes a := by
  unfold join
  by_cases ha : trimSlashes a = ""
  · simp [ha, h]
  · simp [ha, h]

theorem join_of_ne_empty (ha : trimSlashes a ≠ "") (hb : trimSlashes b ≠ "") :
    join a b = trimSlashes a ++ "/" ++ trimSlashes b := by
  simp [join, ha, hb]

theorem join_congr {a' b' : String} (ha : trimSlashes a = trimSlashes a')
    (hb : trimSlashes b = trimSlashes b') : join a b = join a' b' := by
  unfold join
  rw [ha, hb]

theorem isBare_join (a b : String) : IsBare (join a b) := by
  by_cases ha : trimSlashes a = ""
  · rw [join_of_left_empty ha]
    exact isBare_trimSlashes b
  by_cases hb : trimSlashes b = ""
  · rw [join_of_right_empty a hb]
    exact isBare_trimSlashes a
  rw [join_of_ne_empty ha hb]
  -- The ends are those of the two parts, neither of which is empty.
  have hfirst : (trimSlashes a).toList ≠ [] := by simpa using ha
  have hlast : (trimSlashes b).toList ≠ [] := by simpa using hb
  unfold IsBare
  simp only [String.toList_append, List.append_assoc]
  rw [List.head?_append_of_ne_nil _ hfirst, ← List.append_assoc,
    List.getLast?_append_of_ne_nil _ hlast]
  exact ⟨(isBare_trimSlashes a).1, (isBare_trimSlashes b).2⟩

theorem trimSlashes_join (a b : String) : trimSlashes (join a b) = join a b :=
  trimSlashes_eq_self_iff.mpr (isBare_join a b)

theorem join_assoc (a b c : String) : join (join a b) c = join a (join b c) := by
  by_cases ha : trimSlashes a = ""
  · rw [join_of_left_empty ha (join b c), trimSlashes_join, join_of_left_empty ha b]
    exact join_congr (trimSlashes_trimSlashes b) rfl
  by_cases hc : trimSlashes c = ""
  · rw [join_of_right_empty _ hc, trimSlashes_join, join_of_right_empty b hc]
    exact join_congr rfl (trimSlashes_trimSlashes b).symm
  by_cases hb : trimSlashes b = ""
  · rw [join_of_right_empty a hb, join_of_left_empty hb]
    exact join_congr (trimSlashes_trimSlashes a) (trimSlashes_trimSlashes c).symm
  have hleft : trimSlashes (join a b) = trimSlashes a ++ "/" ++ trimSlashes b := by
    rw [trimSlashes_join, join_of_ne_empty ha hb]
  have hright : trimSlashes (join b c) = trimSlashes b ++ "/" ++ trimSlashes c := by
    rw [trimSlashes_join, join_of_ne_empty hb hc]
  have hleftne : trimSlashes (join a b) ≠ "" := by simp [hleft, ha]
  have hrightne : trimSlashes (join b c) ≠ "" := by simp [hright, hb]
  rw [join_of_ne_empty hleftne hc, join_of_ne_empty ha hrightne, hleft, hright]
  simp only [String.append_assoc]

/-- A joined path has no slashes at its ends and does not depend on those of its parts. What is
nothing but slashes adds nothing, and three paths may be joined from either side. -/
theorem joined_paths_form_a_monoid (a b c : String) :
    IsBare (join a b) ∧
    (∀ i j k l, join (slashes i ++ a ++ slashes j) (slashes k ++ b ++ slashes l) = join a b) ∧
    (∀ n, join (slashes n) b = trimSlashes b ∧ join a (slashes n) = trimSlashes a) ∧
    join (join a b) c = join a (join b c) := by
  refine ⟨isBare_join a b, ?_, ?_, join_assoc a b c⟩
  · intro i j k l
    exact join_congr (trimSlashes_surrounded i j a) (trimSlashes_surrounded k l b)
  · intro n
    exact ⟨join_of_left_empty (trimSlashes_slashes n) b, join_of_right_empty a (trimSlashes_slashes n)⟩

example : join "/users/" "\x7bid\x7d//" = "users/\x7bid\x7d" := by decide

end DecoratedApi.Path
