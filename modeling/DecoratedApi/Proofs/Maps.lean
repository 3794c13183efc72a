import Mathlib.Data.List.Induction
import DecoratedApi.OrderedMap
import DecoratedApi.Proofs.Lists

/-!
# Laws of ordered maps

What is found in a map and which keys it has, after a key has been set or erased, and when a whole
list of entries has been set.
-/

namespace DecoratedApi.OrderedMap

variable {α β : Type} {key : String} {value : α} {m : OrderedMap α}

/-! ## Looking up -/

theorem find?_append (key : String) (m m' : OrderedMap α) :
    find? key (m ++ m') = (find? key m).or (find? key m') := by
  induction m with
  | nil => rfl
  | cons e rest ih =>
    obtain ⟨k, v⟩ := e
    by_cases h : k = key <;> simp [find?, h, ih]

theorem find?_isSome_iff : (find? key m).isSome ↔ key ∈ keys m := by
  induction m with
  | nil => simp [find?, keys]
  | cons e rest ih =>
    obtain ⟨k, v⟩ := e
    by_cases h : k = key
    · simp [find?, keys, h]
    · have hk : key ≠ k := fun he => h he.symm
      simpa [find?, keys, h, hk] using ih

theorem mem_of_find?_eq_some (h : find? key m = some value) : (key, value) ∈ m := by
  induction m with
  | nil => simp [find?] at h
  | cons e rest ih =>
    obtain ⟨k, v⟩ := e
    by_cases hk : k = key
    · obtain rfl : v = value := by simpa [find?, hk] using h
      simp [hk]
    · exact List.mem_cons_of_mem _ (ih (by simpa [find?, hk] using h))

theorem find?_eq_some_of_mem (hm : (keys m).Nodup) (h : (key, value) ∈ m) :
    find? key m = some value := by
  induction m with
  | nil => simp at h
  | cons e rest ih =>
    obtain ⟨k, v⟩ := e
    obtain ⟨hk, hrest⟩ := List.nodup_cons.mp hm
    rcases List.mem_cons.mp h with he | hmem
    · obtain ⟨rfl, rfl⟩ : key = k ∧ value = v := by simpa using he
      simp [find?]
    · have hne : k ≠ key := by
        rintro rfl
        exact hk (List.mem_map_of_mem (f := (·.1)) hmem)
      simpa [find?, hne] using ih hrest hmem

theorem eq_nil_of_find? (h : ∀ key, find? key m = none) : m = [] := by
  cases m with
  | nil => rfl
  | cons e rest =>
    have hfirst := h e.1
    simp [find?] at hfirst

theorem find?_map (f : α → β) (key : String) (m : OrderedMap α) :
    find? key (m.map fun e => (e.1, f e.2)) = (find? key m).map f := by
  induction m with
  | nil => rfl
  | cons e rest ih =>
    simp only [List.map_cons, find?, ih]
    split <;> rfl

/-! ## Setting and erasing -/

theorem find?_set (key other : String) (value : α) (m : OrderedMap α) :
    find? other (set key value m) = if other = key then some value else find? other m := by
  split
  · next h => rw [h, find?_set_self]
  · next h => exact find?_set_of_ne h value m

theorem mem_of_mem_set {e : String × α} (h : e ∈ set key value m) : e = (key, value) ∨ e ∈ m := by
  induction m with
  | nil => exact .inl (by simpa [set] using h)
  | cons e' rest ih =>
    obtain ⟨k, v⟩ := e'
    rw [set] at h
    split at h
    · next hk =>
      rcases List.mem_cons.mp h with rfl | hmem
      · exact .inl (by rw [hk])
      · exact .inr (List.mem_cons_of_mem _ hmem)
    · rcases List.mem_cons.mp h with rfl | hmem
      · exact .inr List.mem_cons_self
      · exact (ih hmem).imp_right (List.mem_cons_of_mem _)

theorem set_append_of_notMem (h : key ∉ keys m) (value : α) (m' : OrderedMap α) :
    set key value (m ++ m') = m ++ set key value m' := by
  induction m with
  | nil => rfl
  | cons e rest ih =>
    obtain ⟨k, v⟩ := e
    have hk : k ≠ key := by rintro rfl; simp [keys] at h
    have hrest : key ∉ keys rest := fun hmem => h (List.mem_cons_of_mem _ hmem)
    simp [set, hk, ih hrest]

theorem set_of_notMem (h : key ∉ keys m) (value : α) : set key value m = m ++ [(key, value)] := by
  simpa [set] using set_append_of_notMem h value []

theorem keys_set_of_mem (h : key ∈ keys m) (value : α) : keys (set key value m) = keys m := by
  induction m with
  | nil => simp [keys] at h
  | cons e rest ih =>
    obtain ⟨k, v⟩ := e
    by_cases hk : k = key
    · simp [set, keys, hk]
    · have hrest : key ∈ keys rest := by
        rcases List.mem_cons.mp h with he | hmem
        · exact absurd he.symm hk
        · exact hmem
      have := ih hrest
      simp only [keys] at this
      simp [set, keys, hk, this]

theorem keys_set (key : String) (value : α) (m : OrderedMap α) :
    keys (set key value m) = if key ∈ keys m then keys m else keys m ++ [key] := by
  split
  · next h => exact keys_set_of_mem h value
  · next h => simp [set_of_notMem h, keys]

theorem find?_erase (key other : String) (m : OrderedMap α) :
    find? other (erase key m) = if other = key then none else find? other m := by
  induction m with
  | nil => simp [erase, find?]
  | cons e rest ih =>
    obtain ⟨k, v⟩ := e
    by_cases hk : k = key
    · have herase : erase key ((k, v) :: rest) = erase key rest := by simp [erase, hk]
      rw [herase, ih]
      split
      · rfl
      · next hne => simp [find?, hk, Ne.symm hne]
    · have herase : erase key ((k, v) :: rest) = (k, v) :: erase key rest := by simp [erase, hk]
      rw [herase, find?, find?, ih]
      split
      · next ho => rw [if_neg (by rw [← ho]; exact hk)]
      · rfl

/-! ## Many entries -/

theorem mem_of_mem_foldl_set {entries : List (String × α)} {e : String × α}
    (h : e ∈ entries.foldl (fun m (k, v) => set k v m) m) : e ∈ entries ∨ e ∈ m := by
  induction entries generalizing m with
  | nil => exact .inr h
  | cons e' rest ih =>
    rcases ih h with hmem | hmem
    · exact .inl (List.mem_cons_of_mem _ hmem)
    · rcases mem_of_mem_set hmem with rfl | hmem
      · exact .inl List.mem_cons_self
      · exact .inr hmem

theorem mem_of_mem_ofList {entries : List (String × α)} {e : String × α} (h : e ∈ ofList entries) :
    e ∈ entries := by
  rcases mem_of_mem_foldl_set h with hmem | hmem
  · exact hmem
  · cases hmem

theorem keys_foldl_set {f : OrderedMap α → β → OrderedMap α} {key : β → String}
    (hstep : ∀ m b, ∃ value, f m b = set (key b) value m) (bs : List β) :
    keys (bs.foldl f []) = (bs.map key).eraseDups := by
  induction bs using List.reverseRecOn with
  | nil => rfl
  | append_singleton bs b ih =>
    -- From the end: a key that is there already keeps its place, and a new one comes last.
    obtain ⟨value, hvalue⟩ := hstep (bs.foldl f []) b
    rw [List.foldl_append, List.foldl_cons, List.foldl_nil, hvalue, keys_set, ih, List.map_append,
      List.map_cons, List.map_nil, eraseDups_concat]
    simp only [List.mem_eraseDups]

theorem keys_ofList (entries : List (String × α)) :
    keys (ofList entries) = (keys entries).eraseDups := by
  have hstep : ∀ (m : OrderedMap α) (e : String × α), ∃ value, set e.1 e.2 m = set e.1 value m :=
    fun _ e => ⟨e.2, rfl⟩
  exact keys_foldl_set hstep entries

theorem mem_keys_ofList {entries : List (String × α)} :
    key ∈ keys (ofList entries) ↔ key ∈ keys entries := by
  rw [keys_ofList, List.mem_eraseDups]

theorem find?_ofList (entries : List (String × α)) (key : String) :
    find? key (ofList entries) = (entries.filter (·.1 == key)).getLast?.map (·.2) := by
  have hstep : ∀ (m : OrderedMap α) (e : String × α),
      find? key (set e.1 e.2 m) = if e.1 == key then some e.2 else find? key m := by
    intro m e
    rw [find?_set]
    by_cases h : e.1 = key
    · simp [h]
    · simp [h, Ne.symm h]
  rw [ofList, foldl_last_write hstep]
  simp [find?]

theorem ofList_eq_self {entries : List (String × α)}
    (h : (keys entries).Nodup) : ofList entries = entries := by
  induction entries using List.reverseRecOn with
  | nil => rfl
  | append_singleton entries e ih =>
    rw [keys, List.map_append, List.nodup_append] at h
    obtain ⟨hentries, -, hnew⟩ := h
    have hkey : e.1 ∉ keys entries := fun hmem => hnew _ hmem e.1 (by simp) rfl
    have hfold : ofList (entries ++ [e]) = set e.1 e.2 (ofList entries) := by simp [ofList]
    rw [hfold, ih hentries, set_of_notMem hkey]

end DecoratedApi.OrderedMap
