import Mathlib.Data.List.DropRight
import Mathlib.Data.List.Infix
import DecoratedApi.Text.Words

/-!
# Trimming and lines

What is taken off the ends of a text does not depend on how much of it stands there, and a text
stays as it is exactly when nothing of it stands at its ends. A word is split off at the blank
behind it. Lines that are joined by line breaks are read back, and so is a text between two marks.
-/

namespace DecoratedApi.Text

/-! ## Ends -/

section Ends

variable {p : Char → Bool} {cs margin : List Char} {c : Char}

theorem dropEndWhile_append (h : ∀ c ∈ margin, p c = true) :
    dropEndWhile p (cs ++ margin) = dropEndWhile p cs := by
  have hmargin : ∀ c ∈ margin.reverse, p c = true := by simpa using h
  rw [dropEndWhile, List.reverse_append, List.dropWhile_append_of_pos hmargin]
  rfl

theorem dropEndWhile_cons (h : p c = false) :
    dropEndWhile p (c :: cs) = c :: dropEndWhile p cs := by
  rw [dropEndWhile, List.reverse_cons, List.dropWhile_append]
  split
  · next hempty => simp [dropEndWhile, List.isEmpty_iff.mp hempty, h]
  · simp [dropEndWhile]

theorem stripWhile_append_left (h : ∀ c ∈ margin, p c = true) :
    stripWhile p (margin ++ cs) = stripWhile p cs := by
  rw [stripWhile, List.dropWhile_append_of_pos h]
  rfl

theorem stripWhile_append_right (h : ∀ c ∈ margin, p c = true) :
    stripWhile p (cs ++ margin) = stripWhile p cs := by
  rw [stripWhile, stripWhile, List.dropWhile_append]
  split
  · next hempty => rw [List.isEmpty_iff.mp hempty, List.dropWhile_eq_nil_iff.mpr h]
  · exact dropEndWhile_append h

theorem stripWhile_eq_nil (h : ∀ c ∈ cs, p c = true) : stripWhile p cs = [] := by
  rw [stripWhile, List.dropWhile_eq_nil_iff.mpr h]
  rfl

theorem stripWhile_cons_of_pos (h : p c = true) : stripWhile p (c :: cs) = stripWhile p cs := by
  rw [stripWhile, List.dropWhile_cons_of_pos h]
  rfl

theorem stripWhile_cons_of_neg (h : p c = false) :
    stripWhile p (c :: cs) = c :: dropEndWhile p cs := by
  rw [stripWhile, List.dropWhile_cons_of_neg (by simp [h]), dropEndWhile_cons h]

theorem stripWhile_dropEndWhile : stripWhile p (dropEndWhile p cs) = stripWhile p cs := by
  have hcut : dropEndWhile p cs ++ cs.rtakeWhile p = cs := List.rdropWhile_append_rtakeWhile
  calc stripWhile p (dropEndWhile p cs)
      = stripWhile p (dropEndWhile p cs ++ cs.rtakeWhile p) :=
        (stripWhile_append_right fun _ => List.mem_rtakeWhile_imp).symm
    _ = stripWhile p cs := by rw [hcut]

theorem dropWhile_eq_self_iff_head? : cs.dropWhile p = cs ↔ ∀ c ∈ cs.head?, p c = false := by
  rw [List.dropWhile_eq_self_iff]
  cases cs <;> simp

theorem dropEndWhile_eq_self_iff : dropEndWhile p cs = cs ↔ ∀ c ∈ cs.getLast?, p c = false := by
  rw [dropEndWhile, List.reverse_eq_iff, dropWhile_eq_self_iff_head?, List.head?_reverse]

theorem stripWhile_eq_self_iff :
    stripWhile p cs = cs ↔ (∀ c ∈ cs.head?, p c = false) ∧ ∀ c ∈ cs.getLast?, p c = false := by
  rw [← dropWhile_eq_self_iff_head?, ← dropEndWhile_eq_self_iff]
  constructor
  · intro h
    have hle : cs.length ≤ (cs.dropWhile p).length := by
      nth_rewrite 1 [← h]
      exact (List.rdropWhile_prefix p _).length_le
    have hfront : cs.dropWhile p = cs := (List.dropWhile_suffix p).eq_of_length_le hle
    rw [stripWhile, hfront] at h
    exact ⟨hfront, h⟩
  · rintro ⟨hfront, hback⟩
    rw [stripWhile, hfront, hback]

theorem dropWhile_append_cons (h : p c = false) (cs rest : List Char) :
    (cs ++ c :: rest).dropWhile p = cs.dropWhile p ++ c :: rest := by
  rw [List.dropWhile_append]
  split
  · next hempty => simp [List.isEmpty_iff.mp hempty, h]
  · rfl

theorem stripWhile_eq_dropWhile (h : ∀ c ∈ cs.getLast?, p c = false) :
    stripWhile p cs = cs.dropWhile p := by
  refine dropEndWhile_eq_self_iff.mpr fun c hc => h c ?_
  rw [← List.takeWhile_append_dropWhile (p := p) (l := cs)]
  exact List.mem_getLast?_append_of_mem_getLast? hc

theorem stripWhile_concat (h : p c = false) (cs : List Char) :
    stripWhile p (cs ++ [c]) = cs.dropWhile p ++ [c] := by
  rw [stripWhile_eq_dropWhile (by simp [h]), dropWhile_append_cons h]

theorem stripWhile_stripWhile : stripWhile p (stripWhile p cs) = stripWhile p cs := by
  refine stripWhile_dropEndWhile.trans ?_
  rw [stripWhile, List.dropWhile_idempotent]
  rfl

theorem infix_dropWhile {u : List Char} (hc : p c = false) (h : c :: u <:+: cs) :
    c :: u <:+: cs.dropWhile p := by
  induction cs with
  | nil => simp at h
  | cons x xs ih =>
    rw [List.dropWhile_cons]
    split
    · next hx =>
      rcases List.infix_cons_iff.mp h with hprefix | hinfix
      · obtain rfl : c = x := (List.cons_prefix_cons.mp hprefix).1
        rw [hc] at hx
        cases hx
      · exact ih hinfix
    · exact h

theorem infix_dropEndWhile {u : List Char} (hc : p c = false) (h : u ++ [c] <:+: cs) :
    u ++ [c] <:+: dropEndWhile p cs := by
  rw [dropEndWhile, ← List.reverse_infix, List.reverse_reverse, List.reverse_append]
  rw [← List.reverse_infix, List.reverse_append] at h
  exact infix_dropWhile hc h

theorem infix_stripWhile {d : Char} {u : List Char} (hc : p c = false) (hd : p d = false)
    (h : c :: (u ++ [d]) <:+: cs) : c :: (u ++ [d]) <:+: stripWhile p cs := by
  have hfront := infix_dropWhile hc h
  rw [← List.cons_append] at hfront ⊢
  exact infix_dropEndWhile hd hfront

end Ends

/-- The last character is there and is not blank. -/
def EndsFilled (cs : List Char) : Prop := ∃ c ∈ cs.getLast?, isBlank c = false

namespace EndsFilled

variable {cs : List Char}

theorem append (h : EndsFilled cs) (front : List Char) : EndsFilled (front ++ cs) := by
  obtain ⟨c, hlast, hc⟩ := h
  exact ⟨c, List.mem_getLast?_append_of_mem_getLast? hlast, hc⟩

theorem cons (h : EndsFilled cs) (c : Char) : EndsFilled (c :: cs) := h.append [c]

theorem unblank (h : EndsFilled cs) : ∀ c ∈ cs.getLast?, isBlank c = false := by
  obtain ⟨d, hlast, hd⟩ := h
  rw [hlast]
  rintro _ ⟨⟩
  exact hd

theorem trimBlank_append_cons (h : EndsFilled cs) {c : Char} (hc : isBlank c = false)
    (front : List Char) : trimBlank (front ++ c :: cs) = front.dropWhile isBlank ++ c :: cs := by
  have hends : EndsFilled (front ++ c :: cs) := (h.cons c).append front
  rw [trimBlank, stripWhile_eq_dropWhile hends.unblank, dropWhile_append_cons hc]

end EndsFilled

/-! ## Words -/

section Words

variable {word rest : List Char} {b : Char}

theorem splitWord_trimBlank (cs : List Char) : splitWord (trimBlank cs) = splitWord cs := by
  have htrim : trimBlank (trimBlank cs) = trimBlank cs := stripWhile_stripWhile
  rw [splitWord, splitWord, htrim]

theorem splitWord_append_left {margin : List Char} (h : ∀ c ∈ margin, isBlank c = true)
    (cs : List Char) : splitWord (margin ++ cs) = splitWord cs := by
  have htrim : trimBlank (margin ++ cs) = trimBlank cs := stripWhile_append_left h
  rw [splitWord, splitWord, htrim]

theorem splitWord_append_cons (hword : ∀ c ∈ word, isBlank c = false) (hne : word ≠ [])
    (hb : isBlank b = true) (hrest : EndsFilled rest) :
    splitWord (word ++ b :: rest) = (word, trimBlank rest) := by
  have htrim : trimBlank (word ++ b :: rest) = word ++ b :: rest := by
    refine stripWhile_eq_self_iff.mpr
      ⟨fun c hc => hword c ?_, ((hrest.cons b).append word).unblank⟩
    rw [List.head?_append_of_ne_nil _ hne] at hc
    exact List.mem_of_head? hc
  have hpass : ∀ c ∈ word, (!isBlank c) = true := by simpa using hword
  have htake : (b :: rest).takeWhile (!isBlank ·) = [] := by simp [hb]
  have hdrop : (b :: rest).dropWhile (!isBlank ·) = b :: rest := by simp [hb]
  rw [splitWord, htrim, List.takeWhile_append_of_pos hpass, List.dropWhile_append_of_pos hpass,
    htake, hdrop, List.append_nil]
  exact congrArg (word, ·) (stripWhile_cons_of_pos hb)

end Words

/-! ## Lines -/

section Joined

variable {sep first last : List Char} {lines more : List (List Char)}

theorem intercalate_append (hlines : lines ≠ []) (hmore : more ≠ []) :
    sep.intercalate (lines ++ more) = sep.intercalate lines ++ sep ++ sep.intercalate more := by
  induction lines with
  | nil => exact absurd rfl hlines
  | cons line rest ih =>
    cases rest with
    | nil => simp [List.intercalate_cons_of_ne_nil hmore]
    | cons next rest =>
      rw [List.cons_append, List.intercalate_cons_of_ne_nil (by simp),
        List.intercalate_cons_of_ne_nil (by simp), ih (by simp)]
      simp only [List.append_assoc]

theorem intercalate_cons_append (margin : List Char) :
    sep.intercalate ((margin ++ first) :: lines) = margin ++ sep.intercalate (first :: lines) := by
  cases lines <;> simp [List.intercalate_cons_cons]

theorem intercalate_concat_append (margin : List Char) :
    sep.intercalate (lines ++ [last ++ margin]) = sep.intercalate (lines ++ [last]) ++ margin := by
  by_cases hlines : lines = []
  · simp [hlines]
  · simp [intercalate_append hlines]

theorem head?_intercalate (h : first ≠ []) :
    (sep.intercalate (first :: lines)).head? = first.head? := by
  cases first with
  | nil => exact absurd rfl h
  | cons c cs => rw [List.intercalate_cons_cons_left, List.head?_cons, List.head?_cons]

theorem getLast?_intercalate (h : last ≠ []) :
    (sep.intercalate (lines ++ [last])).getLast? = last.getLast? := by
  have hcut : sep.intercalate (lines ++ [[] ++ last]) = sep.intercalate (lines ++ [[]]) ++ last :=
    intercalate_concat_append last
  rw [List.nil_append] at hcut
  rw [hcut, List.getLast?_append, Option.or_of_isSome (by simpa using h)]

end Joined

theorem splitAt_eq_splitOn (sep : Char) (cs : List Char) : splitAt sep cs = cs.splitOn sep := by
  induction cs with
  | nil => rfl
  | cons c cs ih =>
    have hcons : (c :: cs).splitOn sep =
        if c == sep then [] :: cs.splitOn sep else (cs.splitOn sep).modifyHead (c :: ·) := by
      simp only [List.splitOn_eq_splitOnP, List.splitOnP_cons_eq_if_modifyHead]
    rw [splitAt, ih, hcons]
    by_cases hc : c = sep
    · simp [hc]
    · cases hpieces : cs.splitOn sep with
      | nil => exact absurd hpieces (List.splitOn_ne_nil sep cs)
      | cons piece pieces => simp [hc]

theorem linesOf_intercalate {lines : List (List Char)} (hbreak : ∀ line ∈ lines, '\n' ∉ line)
    (hlines : lines ≠ []) (hlast : lines.getLast? ≠ some []) :
    linesOf (['\n'].intercalate lines) = lines := by
  rw [linesOf, splitAt_eq_splitOn, List.splitOn_intercalate _ hbreak hlines]
  split
  · next earlier hreverse =>
    rw [← List.head?_reverse, hreverse] at hlast
    exact absurd rfl hlast
  · exact List.reverse_reverse lines

/-! ## Marks -/

theorem dropLead?_append (lead cs : List Char) : dropLead? lead (lead ++ cs) = some cs := by
  induction lead with
  | nil => rfl
  | cons c lead ih => rw [List.cons_append, dropLead?, if_pos rfl, ih]

theorem dropTail?_append (tail cs : List Char) : dropTail? tail (cs ++ tail) = some cs := by
  rw [dropTail?, List.reverse_append, dropLead?_append]
  exact congrArg some (List.reverse_reverse cs)

end DecoratedApi.Text
