import DecoratedApi.Proofs.Trimming
import DecoratedApi.Source.ExprOf

/-!
# Escapes

Most characters can be written in a literal in more than one way. However each of them is written, a
text between quotes is read as the string that was meant (`written_string_is_read_back`). Between
backticks a text is read as it is between quotes, unless an escaped backtick stands at its end
(`template_agrees_with_string_iff`).
-/

namespace DecoratedApi.Source

variable {c q : Char} {cs w rest : List Char}

/-! ## Units -/

/-- The letters among the digits in base 16 may be small or capital. -/
def IsHexDigit (n : Nat) (c : Char) : Prop := n < 16 ∧ (c = n.digitChar ∨ c = n.digitChar.toUpper)

instance (n : Nat) : Decidable (IsHexDigit n c) := inferInstanceAs (Decidable (_ ∧ _))

theorem IsHexDigit.hexDigit?_eq {n : Nat} (h : IsHexDigit n c) : Text.hexDigit? c = some n := by
  have hall : ∀ d ∈ List.range 16,
      Text.hexDigit? d.digitChar = some d ∧ Text.hexDigit? d.digitChar.toUpper = some d := by
    decide
  obtain ⟨hlt, rfl | rfl⟩ := h
  · exact (hall n (List.mem_range.mpr hlt)).1
  · exact (hall n (List.mem_range.mpr hlt)).2

/-- The number of a character in four digits. -/
inductive HexUnit (c : Char) : List Char → Prop
  | digits {d₃ d₂ d₁ d₀ : Char} (h₃ : IsHexDigit (c.toNat / 0x1000) d₃)
      (h₂ : IsHexDigit (c.toNat / 0x100 % 16) d₂) (h₁ : IsHexDigit (c.toNat / 0x10 % 16) d₁)
      (h₀ : IsHexDigit (c.toNat % 16) d₀) : HexUnit c [d₃, d₂, d₁, d₀]

theorem HexUnit.readDigits?_eq (h : HexUnit c cs) : Text.readDigits? 16 cs = some c.toNat := by
  obtain ⟨h₃, h₂, h₁, h₀⟩ := h
  have hlt := h₃.1
  simp only [Text.readDigits?, List.foldl_cons, List.foldl_nil, h₃.hexDigit?_eq, h₂.hexDigit?_eq,
    h₁.hexDigit?_eq, h₀.hexDigit?_eq, Option.bind_eq_bind, Option.bind_some, hlt, h₂.1, h₁.1, h₀.1,
    if_true]
  rw [Option.some.injEq]
  omega

theorem HexUnit.codePoint?_eq (h : HexUnit c cs) : codePoint? cs = some c := by
  have hread := h.readDigits?_eq
  have hvalid : c.toNat < 0xD800 ∨ 0xDFFF < c.toNat ∧ c.toNat < 0x110000 := c.valid
  obtain @⟨d₃, _, _, _, h₃, _, _, _⟩ := h
  have hplus : d₃ ≠ '+' := by
    rintro rfl
    cases h₃.hexDigit?_eq
  unfold codePoint?
  simp [hplus, hread, hvalid]

theorem readDigits?_eq_none {base : Nat} (hmem : c ∈ cs) (hc : Text.hexDigit? c = none) :
    Text.readDigits? base cs = none := by
  unfold Text.readDigits?
  generalize some 0 = start
  induction cs generalizing start with
  | nil => cases hmem
  | cons first cs ih =>
    rw [List.foldl_cons]
    rcases List.mem_cons.mp hmem with rfl | hmem
    · rw [hc]
      cases start <;> exact List.foldl_fixed' (fun _ => rfl) cs
    · exact ih hmem _

theorem codePoint?_eq_none (hmem : c ∈ cs) (hc : Text.hexDigit? c = none) (hplus : c ≠ '+') :
    codePoint? cs = none := by
  unfold codePoint?
  split
  · next rest =>
    have hrest : c ∈ rest := (List.mem_cons.mp hmem).resolve_left hplus
    simp [readDigits?_eq_none hrest hc]
  · simp [readDigits?_eq_none hmem hc]

/-! ## Spellings -/

/-- The ways to write a character between quotes. -/
inductive Spells : Char → List Char → Prop
  | plain {c : Char} (h : c ≠ '\\') : Spells c [c]
  | escaped {c : Char} (h : c ∉ ['n', 't', 'r', '0', 'u']) : Spells c ['\\', c]
  | newline : Spells '\n' ['\\', 'n']
  | tab : Spells '\t' ['\\', 't']
  | carriageReturn : Spells '\r' ['\\', 'r']
  | null : Spells '\x00' ['\\', '0']
  | unit {c : Char} {digits : List Char} (h : HexUnit c digits) : Spells c ('\\' :: 'u' :: digits)

theorem unescape_plain (h : c ≠ '\\') (rest : List Char) :
    unescape (c :: rest) = c :: unescape rest := by
  rw [unescape] <;> simp_all

theorem unescape_escaped (h : c ≠ 'u') (rest : List Char) :
    unescape ('\\' :: c :: rest) = escaped c :: unescape rest := by
  rw [unescape] <;> simp_all

theorem unescape_unit (h : HexUnit c cs) (rest : List Char) :
    unescape ('\\' :: 'u' :: (cs ++ rest)) = c :: unescape rest := by
  have hunit : unescapeUnit cs = [c] := by rw [unescapeUnit, h.codePoint?_eq]
  obtain ⟨_, _, _, _⟩ := h
  simp only [List.cons_append, List.nil_append, unescape, hunit]

theorem escaped_eq_self (h : c ∉ ['n', 't', 'r', '0']) : escaped c = c := by
  unfold escaped
  split <;> simp_all

theorem unescape_spelling (h : Spells c w) (rest : List Char) :
    unescape (w ++ rest) = c :: unescape rest := by
  cases h with
  | plain h => exact unescape_plain h rest
  | escaped h =>
    have hu : c ≠ 'u' := by
      rintro rfl
      simp at h
    have hself : Source.escaped c = c := escaped_eq_self fun hmem => h (by simp_all)
    refine (unescape_escaped hu rest).trans ?_
    rw [hself]
  | newline => exact unescape_escaped (by decide) rest
  | tab => exact unescape_escaped (by decide) rest
  | carriageReturn => exact unescape_escaped (by decide) rest
  | null => exact unescape_escaped (by decide) rest
  | unit h => exact unescape_unit h rest

theorem unescape_spellings {ws : List (List Char)} (h : List.Forall₂ Spells cs ws) :
    unescape ws.flatten = cs := by
  induction h with
  | nil => rfl
  | cons hc _ ih => rw [List.flatten_cons, unescape_spelling hc, ih]

theorem stringContentOf_quoted (hq : isQuote q = true) (cs : List Char) :
    stringContentOf (q :: (cs ++ [q])) = unescape cs := by
  simp [stringContentOf, hq]

/-- However the characters of a string are written, the quoted text is read as the string. -/
theorem written_string_is_read_back {q : Char} (hq : isQuote q = true) {s : String}
    {ws : List (List Char)} (h : List.Forall₂ Spells s.toList ws) :
    stringContent (String.ofList (q :: (ws.flatten ++ [q]))) = s := by
  rw [stringContent, String.toList_ofList, stringContentOf_quoted hq, unescape_spellings h,
    String.ofList_toList]

/-- A backslash before a letter that would be an escape, a line break, a quote and a unit. -/
theorem escapes_in_a_row_are_read_back :
    List.Forall₂ Spells "\\n\n'J".toList
      [['\\', '\\'], ['n'], ['\\', 'n'], ['\\', '\x27'], ['\\', 'u', '0', '0', '4', 'A']] ∧
    stringContent "'\\\\n\\n\\'\\u004A'" = "\\n\n'J" := by
  have h : List.Forall₂ Spells "\\n\n'J".toList
      [['\\', '\\'], ['n'], ['\\', 'n'], ['\\', '\x27'], ['\\', 'u', '0', '0', '4', 'A']] :=
    .cons (.escaped (by decide)) <| .cons (.plain (by decide)) <| .cons .newline <|
      .cons (.escaped (by decide)) <|
      .cons (.unit (.digits (by decide) (by decide) (by decide) (by decide))) .nil
  have hread := written_string_is_read_back (q := '\x27') rfl h
  exact ⟨h, hread⟩

/-! ## Templates -/

/-- A text between backticks. A backslash takes the next character with it; apart from such pairs
there is no backtick, and no `$` before an opening brace. -/
inductive IsTemplateBody : List Char → Prop
  | nil : IsTemplateBody []
  | plain {c : Char} {cs : List Char} (hslash : c ≠ '\\') (htick : c ≠ '\x60')
      (hopen : c = '$' → cs.head? ≠ some '\x7b') (h : IsTemplateBody cs) : IsTemplateBody (c :: cs)
  | escape (c : Char) {cs : List Char} (h : IsTemplateBody cs) : IsTemplateBody ('\\' :: c :: cs)

/-- The node is a template without substitutions. -/
structure Node.IsTemplate (n : Node) (body : List Char) : Prop where
  kind : n.kind = "template_string"
  text : n.text = String.ofList ('\x60' :: (body ++ ['\x60']))
  unsubstituted : n.partOf? "template_substitution" = none

/-- The node is a string between two quotes. -/
structure Node.IsQuoted (n : Node) (q : Char) (body : List Char) : Prop where
  kind : n.kind = "string"
  text : n.text = String.ofList (q :: (body ++ [q]))

theorem exprOf_quoted {n : Node} (hn : n.IsQuoted q cs) (hq : isQuote q = true) :
    exprOf n = .string (String.ofList (unescape cs)) := by
  have hcontent : stringContent n.text = String.ofList (unescape cs) := by
    rw [stringContent, hn.text, String.toList_ofList, stringContentOf_quoted hq]
  unfold exprOf
  simp [hn.kind, hcontent]

theorem exprOf_template {n : Node} (hn : n.IsTemplate cs) :
    exprOf n = .string (String.ofList (unescape (Text.stripWhile (· == '\x60') cs))) := by
  have hcontent : templateContent n.text =
      String.ofList (unescape (Text.stripWhile (· == '\x60') cs)) := by
    rw [templateContent, hn.text, String.toList_ofList, Text.stripWhile_cons_of_pos rfl,
      Text.stripWhile_append_right (by simp)]
  unfold exprOf
  simp [hn.kind, templateExpr, hn.unsubstituted, hcontent]

namespace IsTemplateBody

theorem head?_ne (h : IsTemplateBody cs) : cs.head? ≠ some '\x60' := by
  cases h with
  | nil => simp
  | plain hslash htick hopen h => simpa using htick
  | escape c h => simp

theorem exists_of_getLast? (h : IsTemplateBody cs) (hlast : cs.getLast? = some '\x60') :
    ∃ front, cs = front ++ ['\\', '\x60'] := by
  induction h with
  | nil => simp at hlast
  | @plain c cs hslash htick hopen h ih =>
    cases cs with
    | nil => simp_all
    | cons next rest =>
      obtain ⟨front, hfront⟩ := ih (by simpa using hlast)
      exact ⟨c :: front, by rw [hfront]; rfl⟩
  | @escape c cs h ih =>
    cases cs with
    | nil =>
      obtain rfl : c = '\x60' := by simpa using hlast
      exact ⟨[], rfl⟩
    | cons next rest =>
      obtain ⟨front, hfront⟩ := ih (by simpa using hlast)
      exact ⟨'\\' :: c :: front, by rw [hfront]; rfl⟩

theorem stripWhile_eq (h : IsTemplateBody cs) :
    Text.stripWhile (· == '\x60') cs =
      if cs.getLast? = some '\x60' then cs.dropLast else cs := by
  have hfirst : ∀ c ∈ cs.head?, (c == '\x60') = false := by
    rintro c hc
    have hne := h.head?_ne
    simp_all
  split
  · next hlast =>
    obtain ⟨front, rfl⟩ := h.exists_of_getLast? hlast
    have hcut : front ++ ['\\', '\x60'] = (front ++ ['\\']) ++ ['\x60'] := by simp
    rw [hcut] at hfirst ⊢
    rw [List.dropLast_concat, Text.stripWhile_append_right (by simp), Text.stripWhile_eq_self_iff]
    exact ⟨fun c hc => hfirst c (List.mem_head?_append_of_mem_head? hc), by simp⟩
  · next hlast =>
    refine Text.stripWhile_eq_self_iff.mpr ⟨hfirst, fun c hc => ?_⟩
    simp_all

end IsTemplateBody

theorem unescapeUnit_of_mem (hmem : c ∈ cs) (hc : Text.hexDigit? c = none) (hplus : c ≠ '+') :
    unescapeUnit cs = '\\' :: 'u' :: cs := by
  rw [unescapeUnit, codePoint?_eq_none hmem hc hplus]

theorem getLast?_unescape (hc : c = '\\' ∨ c = '\x60') (h : cs.getLast? = some c) :
    (unescape cs).getLast? = some c := by
  -- A backslash or a backtick at the end is kept: plain, escaped or in the place of a digit.
  have hself : escaped c = c := by rcases hc with rfl | rfl <;> rfl
  have hunit : ∀ digits, c ∈ digits → unescapeUnit digits = '\\' :: 'u' :: digits := by
    intro digits hmem
    rcases hc with rfl | rfl <;> exact unescapeUnit_of_mem hmem rfl (by decide)
  -- Read last is the character itself, an escape of it, or a unit that it spoils.
  fun_induction unescape cs with
  | case1 => cases h
  | case2 => exact h
  | case3 a b d e rest ih =>
    cases rest with
    | nil =>
      have he : e = c := by simpa using h
      rw [hunit _ (by simp [he])]
      exact h
    | cons first rest => exact List.mem_getLast?_append_of_mem_getLast? (ih (by simpa using h))
  | case4 rest hshort =>
    cases rest with
    | nil => exact h
    | cons first rest =>
      have hmem : c ∈ first :: rest := List.mem_of_getLast? (by simpa using h)
      rw [hunit _ hmem]
      exact h
  | case5 first rest _ _ ih =>
    cases rest with
    | nil =>
      have hfirst : first = c := by simpa using h
      simp [unescape, hfirst, hself]
    | cons next rest => exact List.mem_getLast?_cons (ih (by simpa using h))
  | case6 first rest _ _ _ _ ih =>
    cases rest with
    | nil => exact h
    | cons next rest => exact List.mem_getLast?_cons (ih (by simpa using h))

/-- Between quotes a text is read with its escapes undone. Between backticks it is read in the same
way exactly when no escaped backtick stands at its end: that one is taken for a mark, and only its
backslash is read. -/
theorem template_agrees_with_string_iff {body : List Char} (hbody : IsTemplateBody body) {q : Char}
    (hq : isQuote q = true) {n m : Node} (hn : n.IsTemplate body) (hm : m.IsQuoted q body) :
    exprOf m = .string (String.ofList (unescape body)) ∧
    (exprOf n = exprOf m ↔ body.getLast? ≠ some '\x60') ∧
    (body.getLast? = some '\x60' →
      exprOf n = .string (String.ofList (unescape body.dropLast))) := by
  have hquoted := exprOf_quoted hm hq
  have htemplate := exprOf_template hn
  rw [hbody.stripWhile_eq] at htemplate
  refine ⟨hquoted, ⟨fun hsame hlast => ?_, fun hlast => ?_⟩, fun hlast => ?_⟩
  · rw [htemplate, if_pos hlast, hquoted, Expr.string.injEq, String.ofList_inj] at hsame
    obtain ⟨front, rfl⟩ := hbody.exists_of_getLast? hlast
    -- One reading would end with a backslash and with a backtick.
    have hslash : (front ++ ['\\', '\x60']).dropLast.getLast? = some '\\' := by simp
    have hread := getLast?_unescape (.inl rfl) hslash
    rw [hsame, getLast?_unescape (.inr rfl) hlast] at hread
    simp at hread
  · rw [htemplate, if_neg hlast, hquoted]
  · rw [htemplate, if_pos hlast]

def Node.leaf (kind text : String) : Node :=
  { kind, named := true, field := none, text, children := [] }

theorem leading_backtick_agrees :
    exprOf (.leaf "template_string" "\x60\\\x60a$\x60") = .string "\x60a$" ∧
      exprOf (.leaf "string" "'\\\x60a$'") = .string "\x60a$" := by
  have hbody : IsTemplateBody ['\\', '\x60', 'a', '$'] :=
    .escape _ (.plain (by decide) (by decide) (by decide)
      (.plain (by decide) (by decide) (by decide) .nil))
  obtain ⟨hquoted, hsame, -⟩ := template_agrees_with_string_iff hbody rfl
    (n := .leaf "template_string" "\x60\\\x60a$\x60") (m := .leaf "string" "'\\\x60a$'")
    ⟨rfl, rfl, rfl⟩ ⟨rfl, rfl⟩
  exact ⟨(hsame.mpr (by decide)).trans hquoted, hquoted⟩

/-- Of an escaped backtick at the end only the backslash is read. -/
theorem trailing_backtick_is_lost :
    IsTemplateBody ['a', '\\', '\x60'] ∧
    (Node.leaf "template_string" "\x60a\\\x60\x60").IsTemplate ['a', '\\', '\x60'] ∧
    String.ofList (unescape ['a', '\\', '\x60']) = "a\x60" ∧
    exprOf (.leaf "template_string" "\x60a\\\x60\x60") = .string "a\\" := by
  have htemplate :
      (Node.leaf "template_string" "\x60a\\\x60\x60").IsTemplate ['a', '\\', '\x60'] :=
    ⟨rfl, rfl, rfl⟩
  refine ⟨.plain (by decide) (by decide) (by decide) (.escape _ .nil), htemplate, by decide, ?_⟩
  exact exprOf_template htemplate

end DecoratedApi.Source
