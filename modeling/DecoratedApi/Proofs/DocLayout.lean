import DecoratedApi.Doc.Comment
import DecoratedApi.Proofs.Trimming

/-!
# The layout of documentation comments

A documentation comment is laid out as one line for each mark, with a star before every line of the
description and of the tags. Reading it gives back what was laid out, however far the lines are
indented (`layout_is_read_back`).
-/

namespace DecoratedApi

namespace DocComment

variable {cs row : List Char}

/-! ## Layouts -/

/-- A text on one line, without blanks at its ends. -/
structure IsLine (cs : List Char) : Prop where
  unbroken : '\n' ∉ cs
  trimmed : Text.trimBlank cs = cs

instance : Decidable (IsLine cs) :=
  decidable_of_iff ('\n' ∉ cs ∧ Text.trimBlank cs = cs) ⟨fun h => ⟨h.1, h.2⟩, fun h => ⟨h.1, h.2⟩⟩

/-- A tag that is to be laid out, with the lines of its comment. -/
structure TagText where
  name : List Char
  comment : List (List Char)
  name_unblank : ∀ c ∈ name, Text.isBlank c = false
  comment_isLine : ∀ line ∈ comment, IsLine line
  comment_filled : ∀ line ∈ comment, line ≠ []
  continues : ∀ line ∈ comment.tail, line.head? ≠ some '@'

/-- The name and the first line of the comment stand on one row. -/
def TagText.rows (t : TagText) : List (List Char) :=
  match t.comment with
  | [] => ['@' :: t.name]
  | first :: rest => ('@' :: (t.name ++ ' ' :: first)) :: rest

/-- A comment that is to be laid out. Its description may have empty lines, but does not start or
end with one. -/
structure Layout where
  description : List (List Char)
  tags : List TagText
  description_isLine : ∀ line ∈ description, IsLine line
  untagged : ∀ line ∈ description, line.head? ≠ some '@'
  starts_filled : description.head? ≠ some []
  ends_filled : description.getLast? ≠ some []

/-- Blanks before a line. -/
structure Indent where
  chars : List Char
  blank : ∀ c ∈ chars, Text.isBlank c = true
  unbroken : '\n' ∉ chars

/-- The lines joined by a character; none when there are no lines. -/
def joined? (sep : Char) (lines : List (List Char)) : Option String :=
  if lines = [] then none else some (String.ofList ([sep].intercalate lines))

/-- What the tag says once it is read: its name and its lines, joined by blanks. -/
def TagText.tag (t : TagText) : DocTag := ⟨String.ofList t.name, joined? ' ' t.comment⟩

/-- A row behind a star, with a blank on each side of the star. -/
def frame (row : List Char) : List Char := ' ' :: '*' :: ' ' :: row

namespace Layout

variable (l : Layout)

def rows : List (List Char) := l.description ++ l.tags.flatMap TagText.rows

/-- The rows in their frames between the two marks. -/
def lines : List (List Char) := ['/', '*', '*'] :: l.rows.map frame ++ [[' ', '*', '/']]

/-- The comment as it is written, where every line has an indentation of its own. -/
def text (indent : Nat → Indent) : String :=
  String.ofList (['\n'].intercalate (l.lines.mapIdx fun i line => (indent i).chars ++ line))

/-- The comment that was laid out. -/
def comment : DocComment := ⟨joined? '\n' l.description, l.tags.map TagText.tag⟩

end Layout

/-! ## Rows -/

theorem isLine_iff : IsLine cs ↔ '\n' ∉ cs ∧ (∀ c ∈ cs.head?, Text.isBlank c = false) ∧
    ∀ c ∈ cs.getLast?, Text.isBlank c = false := by
  rw [← Text.stripWhile_eq_self_iff]
  exact ⟨fun h => ⟨h.unbroken, h.trimmed⟩, fun h => ⟨h.1, h.2⟩⟩

/-- What a row says, once it is out of its frame. -/
def lineOf : List Char → Line
  | '@' :: rest =>
    .tag (rest.takeWhile (!Text.isBlank ·)) (Text.trimBlank (rest.dropWhile (!Text.isBlank ·)))
  | cs => .text cs

theorem readLine_indented (indent : Indent) (cs : List Char) :
    readLine (indent.chars ++ cs) = readLine cs := by
  have htrim : Text.trimBlank (indent.chars ++ cs) = Text.trimBlank cs :=
    Text.stripWhile_append_left indent.blank
  rw [readLine, readLine, htrim]

theorem readLine_frame (hrow : IsLine row) : readLine (frame row) = lineOf row := by
  -- The star belongs to the frame, and a star behind it to the row.
  have hframe : Text.trimBlank (frame row) = '*' :: Text.dropEndWhile Text.isBlank (' ' :: row) :=
    (Text.stripWhile_cons_of_pos rfl).trans (Text.stripWhile_cons_of_neg rfl)
  calc readLine (frame row)
      = lineOf (Text.trimBlank (Text.dropEndWhile Text.isBlank (' ' :: row))) := by
        rw [readLine, hframe]
        rfl
    _ = lineOf (Text.trimBlank (' ' :: row)) := congrArg lineOf Text.stripWhile_dropEndWhile
    _ = lineOf (Text.trimBlank row) := congrArg lineOf (Text.stripWhile_cons_of_pos rfl)
    _ = lineOf row := congrArg lineOf hrow.trimmed

theorem lineOf_text (h : row.head? ≠ some '@') : lineOf row = .text row := by
  unfold lineOf
  split
  · simp at h
  · rfl

theorem lineOf_tag {name rest : List Char} (hname : ∀ c ∈ name, Text.isBlank c = false)
    (hrest : ∀ c ∈ rest.head?, Text.isBlank c = true) :
    lineOf ('@' :: (name ++ rest)) = .tag name (Text.trimBlank rest) := by
  have hword : ∀ c ∈ name, (!Text.isBlank c) = true := by simpa using hname
  have hend : rest.takeWhile (!Text.isBlank ·) = [] ∧ rest.dropWhile (!Text.isBlank ·) = rest := by
    cases rest with
    | nil => exact ⟨rfl, rfl⟩
    | cons c cs =>
      have hc : Text.isBlank c = true := hrest c rfl
      simp [hc]
  rw [lineOf, List.takeWhile_append_of_pos hword, List.dropWhile_append_of_pos hword, hend.1,
    hend.2, List.append_nil]

theorem isLine_tag {name rest : List Char} (hname : ∀ c ∈ name, Text.isBlank c = false)
    (hbreak : '\n' ∉ rest) (hlast : ∀ c ∈ rest.getLast?, Text.isBlank c = false) :
    IsLine ('@' :: (name ++ rest)) := by
  refine isLine_iff.mpr ⟨?_, by rintro _ ⟨⟩; rfl, fun c hc => ?_⟩
  · have hword : '\n' ∉ name := fun hmem => absurd (hname _ hmem) (by decide)
    simp [hword, hbreak]
  · rw [← List.cons_append, List.getLast?_append, Option.mem_def, Option.or_eq_some_iff] at hc
    rcases hc with hc | ⟨-, hc⟩
    · exact hlast c hc
    · rcases List.mem_cons.mp (List.mem_of_getLast? hc) with rfl | hmem
      · rfl
      · exact hname c hmem

namespace TagText

variable (t : TagText)

/-- What the rows of a tag say. -/
def read : List Line :=
  match t.comment with
  | [] => [.tag t.name []]
  | first :: rest => .tag t.name first :: rest.map .text

theorem map_lineOf_rows : t.rows.map lineOf = t.read := by
  obtain ⟨name, comment, hname, hline, hfilled, hcontinues⟩ := t
  cases comment with
  | nil =>
    have hhead : lineOf ('@' :: (name ++ [])) = .tag name [] := lineOf_tag hname (by simp)
    rw [List.append_nil] at hhead
    simp [rows, read, hhead]
  | cons first rest =>
    have hblank : ∀ c ∈ (' ' :: first).head?, Text.isBlank c = true := by
      rintro _ ⟨⟩
      rfl
    have hfirst : Text.trimBlank (' ' :: first) = first :=
      (Text.stripWhile_cons_of_pos rfl).trans (hline first List.mem_cons_self).trimmed
    have hhead : lineOf ('@' :: (name ++ ' ' :: first)) = .tag name first :=
      (lineOf_tag hname hblank).trans (congrArg (Line.tag name) hfirst)
    have hrest : rest.map lineOf = rest.map .text :=
      List.map_congr_left fun line hmem => lineOf_text (hcontinues line hmem)
    simp only [rows, read, List.map_cons, hhead, hrest]

theorem isLine_rows : ∀ row ∈ t.rows, IsLine row := by
  obtain ⟨name, comment, hname, hline, hfilled, hcontinues⟩ := t
  intro row hrow
  cases comment with
  | nil =>
    obtain rfl := List.mem_singleton.mp hrow
    have hhead : IsLine ('@' :: (name ++ [])) := isLine_tag hname (by simp) (by simp)
    rwa [List.append_nil] at hhead
  | cons first rest =>
    rcases List.mem_cons.mp hrow with rfl | hrow
    · have hfirst := isLine_iff.mp (hline first List.mem_cons_self)
      refine isLine_tag hname (by simpa using hfirst.1) fun c hc => hfirst.2.2 c ?_
      rwa [List.getLast?_cons_of_ne_nil (hfilled first List.mem_cons_self)] at hc
    · exact hline row (List.mem_cons_of_mem _ hrow)

end TagText

namespace Layout

variable (l : Layout)

theorem map_lineOf_rows :
    l.rows.map lineOf = l.description.map .text ++ l.tags.flatMap TagText.read := by
  have hdescription : l.description.map lineOf = l.description.map .text :=
    List.map_congr_left fun line hmem => lineOf_text (l.untagged line hmem)
  rw [rows, List.map_append, hdescription, List.map_flatMap]
  simp only [TagText.map_lineOf_rows]

theorem isLine_rows : ∀ row ∈ l.rows, IsLine row := by
  intro row hrow
  rcases List.mem_append.mp hrow with hrow | hrow
  · exact l.description_isLine row hrow
  · obtain ⟨t, -, hrow⟩ := List.mem_flatMap.mp hrow
    exact t.isLine_rows row hrow

end Layout

/-! ## Gathering -/

theorem joinLines_eq_intercalate (sep : Char) (lines : List (List Char)) :
    joinLines sep lines = [sep].intercalate lines := by
  fun_induction joinLines sep lines with
  | case1 => rfl
  | case2 cs => exact List.intercalate_singleton.symm
  | case3 cs rest hrest ih =>
    rw [ih, List.intercalate_cons_of_ne_nil (by rintro rfl; exact hrest rfl)]
    simp

theorem nonEmpty?_intercalate {sep : Char} {lines : List (List Char)} (h : lines.head? ≠ some []) :
    nonEmpty? ([sep].intercalate lines) = joined? sep lines := by
  cases lines with
  | nil => rfl
  | cons first rest =>
    have hfirst : first ≠ [] := fun hnil => h (by rw [hnil]; rfl)
    have hne : [sep].intercalate (first :: rest) ≠ [] := by
      rwa [← List.head?_eq_none_iff.ne, Text.head?_intercalate hfirst, List.head?_eq_none_iff.ne]
    simp [nonEmpty?, joined?, hne]

theorem gather_texts (texts : List (List Char)) (rest : List Line) :
    gather (texts.map .text ++ rest) = (texts ++ (gather rest).1, (gather rest).2) := by
  induction texts with
  | nil => rfl
  | cons cs texts ih => simp only [List.map_cons, List.cons_append, gather, ih]

theorem gather_tag (name first : List Char) (texts : List (List Char)) (rest : List Line) :
    gather (.tag name first :: texts.map .text ++ rest) =
      ([], ⟨String.ofList name, nonEmpty? (joinLines ' '
        ((first :: (texts ++ (gather rest).1)).filter (!·.isEmpty)))⟩ :: (gather rest).2) := by
  rw [List.cons_append, gather, gather_texts]

theorem gather_read (t : TagText) {rest : List Line} (hrest : ∀ line ∈ (gather rest).1, line = []) :
    gather (t.read ++ rest) = ([], t.tag :: (gather rest).2) := by
  obtain ⟨name, comment, hname, hline, hfilled, hcontinues⟩ := t
  have hblanks : (gather rest).1.filter (!·.isEmpty) = [] := by
    simpa [List.filter_eq_nil_iff] using hrest
  have hcomment : comment.filter (!·.isEmpty) = comment := by
    simpa [List.filter_eq_self] using hfilled
  have hjoined : nonEmpty? (joinLines ' ' comment) = joined? ' ' comment := by
    rw [joinLines_eq_intercalate]
    exact nonEmpty?_intercalate fun hhead => hfilled [] (List.mem_of_head? hhead) rfl
  cases comment with
  | nil =>
    refine (gather_tag name [] [] rest).trans ?_
    rw [List.nil_append, List.filter_cons_of_neg (by simp), hblanks, hjoined]
    rfl
  | cons first texts =>
    refine (gather_tag name first texts rest).trans ?_
    rw [← List.cons_append, List.filter_append, hcomment, hblanks, List.append_nil, hjoined]
    rfl

theorem gather_tags (ts : List TagText) :
    ∃ blanks, gather (ts.flatMap TagText.read ++ [.text []]) = (blanks, ts.map TagText.tag) ∧
      ∀ line ∈ blanks, line = [] := by
  induction ts with
  | nil => exact ⟨[[]], rfl, by simp⟩
  | cons t ts ih =>
    obtain ⟨blanks, hgather, hblanks⟩ := ih
    refine ⟨[], ?_, by simp⟩
    rw [List.flatMap_cons, List.append_assoc, gather_read t (by rwa [hgather]), hgather]
    rfl

/-! ## Reading -/

theorem isBlank_of_mem_blanks {blanks : List (List Char)} (h : ∀ line ∈ blanks, line = []) :
    ∀ c ∈ ['\n'].intercalate blanks, Text.isBlank c = true := by
  induction blanks with
  | nil => simp
  | cons line rest ih =>
    obtain ⟨rfl, hrest⟩ := List.forall_mem_cons.mp h
    cases rest with
    | nil => simp
    | cons next rest =>
      rw [List.intercalate_cons_cons]
      intro c hc
      rcases List.mem_cons.mp hc with rfl | hc
      · rfl
      · exact ih hrest c hc

theorem trimBlank_append_blanks {lines blanks : List (List Char)}
    (h : ∀ line ∈ blanks, line = []) :
    Text.trimBlank (['\n'].intercalate (lines ++ blanks)) =
      Text.trimBlank (['\n'].intercalate lines) := by
  have hblank := isBlank_of_mem_blanks h
  by_cases hlines : lines = []
  · rw [hlines]
    exact Text.stripWhile_eq_nil hblank
  · by_cases hblanks : blanks = []
    · rw [hblanks, List.append_nil]
    · rw [Text.intercalate_append hlines hblanks, List.append_assoc]
      refine Text.stripWhile_append_right fun c hc => ?_
      rcases List.mem_cons.mp hc with rfl | hc
      · rfl
      · exact hblank c hc

namespace Layout

variable (l : Layout)

theorem trimBlank_description :
    Text.trimBlank (['\n'].intercalate l.description) = ['\n'].intercalate l.description := by
  obtain ⟨description, -, hlines, -, hstarts, hends⟩ := l
  refine Text.stripWhile_eq_self_iff.mpr ⟨?_, ?_⟩
  · cases description with
    | nil => simp
    | cons first rest =>
      rw [Text.head?_intercalate (by rintro rfl; exact hstarts rfl)]
      exact (isLine_iff.mp (hlines first List.mem_cons_self)).2.1
  · rcases List.eq_nil_or_concat' description with rfl | ⟨rest, last, rfl⟩
    · simp
    · rw [Text.getLast?_intercalate (by rintro rfl; exact hends (by simp))]
      exact (isLine_iff.mp (hlines last (by simp))).2.2

theorem trimBlank_between {blanks : List (List Char)} (h : ∀ line ∈ blanks, line = []) :
    Text.trimBlank (['\n'].intercalate ([] :: (l.description ++ blanks))) =
      ['\n'].intercalate l.description := by
  have hfront : Text.trimBlank (['\n'].intercalate ([] :: l.description)) =
      Text.trimBlank (['\n'].intercalate l.description) := by
    cases l.description with
    | nil => simp
    | cons first rest =>
      rw [List.intercalate_cons_cons]
      exact Text.stripWhile_cons_of_pos rfl
  rw [← List.cons_append, trimBlank_append_blanks h, hfront, trimBlank_description]

/-- The lines between the two marks. The marks themselves stand on the first and the last one. -/
def inner (indent : Nat → Indent) : List (List Char) :=
  [] :: ((l.rows.map frame).mapIdx fun i line => (indent (i + 1)).chars ++ line) ++
    [(indent (l.rows.length + 1)).chars ++ [' ']]

variable (indent : Nat → Indent)

theorem toList_text : (l.text indent).toList = (indent 0).chars ++
    (['/', '*', '*'] ++ (['\n'].intercalate (l.inner indent) ++ ['*', '/'])) := by
  have hlines : (l.lines.mapIdx fun i line => (indent i).chars ++ line) =
      ((indent 0).chars ++ (['/', '*', '*'] ++ [])) ::
        (((l.rows.map frame).mapIdx fun i line => (indent (i + 1)).chars ++ line) ++
          [((indent (l.rows.length + 1)).chars ++ [' ']) ++ ['*', '/']]) := by
    simp [lines, List.mapIdx_cons, List.mapIdx_append]
  rw [text, String.toList_ofList, hlines, Text.intercalate_cons_append,
    Text.intercalate_cons_append, ← List.cons_append, Text.intercalate_concat_append]
  rfl

theorem map_readLine_inner :
    (l.inner indent).map readLine = .text [] :: l.rows.map lineOf ++ [.text []] := by
  have hrows : ((l.rows.map frame).mapIdx fun i line => (indent (i + 1)).chars ++ line).map
      readLine = l.rows.map lineOf := by
    calc _ = (l.rows.map frame).map readLine := by
          refine List.ext_getElem? fun i => ?_
          simp [Function.comp_def, readLine_indented]
      _ = l.rows.map lineOf := by
          rw [List.map_map]
          exact List.map_congr_left fun row hrow => readLine_frame (l.isLine_rows row hrow)
  have hlast : readLine ((indent (l.rows.length + 1)).chars ++ [' ']) = .text [] :=
    readLine_indented _ _
  simp only [inner, List.map_cons, List.map_append, List.map_nil, hrows, hlast]
  rfl

theorem unbroken_inner : ∀ line ∈ l.inner indent, '\n' ∉ line := by
  have hrow : ∀ line ∈ l.rows.map frame, '\n' ∉ line := by
    intro line hline
    obtain ⟨row, hrow, rfl⟩ := List.mem_map.mp hline
    simp [frame, (l.isLine_rows row hrow).unbroken]
  intro line hline
  simp only [inner, List.cons_append, List.mem_cons, List.mem_append, List.not_mem_nil,
    or_false] at hline
  rcases hline with rfl | hline | rfl
  · simp
  · obtain ⟨i, hi, rfl⟩ := List.mem_mapIdx.mp hline
    have hframed := hrow _ (List.getElem_mem hi)
    exact fun hmem => (List.mem_append.mp hmem).elim (indent (i + 1)).unbroken hframed
  · simp [(indent (l.rows.length + 1)).unbroken]

theorem ofLines_inner : ofLines (l.inner indent) = l.comment := by
  obtain ⟨blanks, hgather, hblanks⟩ := gather_tags l.tags
  have hall : gather ((l.inner indent).map readLine) =
      ([] :: (l.description ++ blanks), l.tags.map TagText.tag) := by
    rw [map_readLine_inner, map_lineOf_rows, List.cons_append, List.append_assoc]
    refine (gather_texts ([] :: l.description) _).trans ?_
    rw [hgather]
    rfl
  rw [ofLines, hall]
  simp only [comment, joinLines_eq_intercalate, trimBlank_between l hblanks,
    nonEmpty?_intercalate l.starts_filled]

theorem trimBlank_text : Text.trimBlank (l.text indent).toList =
    ['/', '*', '*'] ++ (['\n'].intercalate (l.inner indent) ++ ['*', '/']) := by
  rw [l.toList_text]
  refine (Text.stripWhile_append_left (indent 0).blank).trans ?_
  refine Text.stripWhile_eq_self_iff.mpr ⟨?_, fun c hc => ?_⟩
  · rintro _ ⟨⟩
    rfl
  · rw [← List.append_assoc, List.getLast?_append] at hc
    obtain rfl : '/' = c := Option.some.inj hc
    rfl

theorem linesOf_inner : Text.linesOf (['\n'].intercalate (l.inner indent)) = l.inner indent := by
  refine Text.linesOf_intercalate (l.unbroken_inner indent) (List.cons_ne_nil _ _) ?_
  -- The last line is the indentation of the closing mark and the blank before it.
  rw [inner, List.getLast?_concat]
  simp

end Layout
end DocComment

/-- A comment that is laid out is read back, however far its lines are indented. -/
theorem layout_is_read_back (l : DocComment.Layout) (indent : Nat → DocComment.Indent) :
    DocComment.read? (l.text indent) = some l.comment := by
  rw [DocComment.read?, DocComment.ofChars?, l.trimBlank_text]
  simp only [Text.dropLead?_append, Text.dropTail?_append, Option.bind_eq_bind, Option.bind_some,
    l.linesOf_inner, l.ofLines_inner]

/-- Stars in the text, an empty line, a comment of two lines and a tag without one. -/
def DocComment.Layout.stars : DocComment.Layout where
  description := [['*', 'a', '*'], [], ['b']]
  tags := [
    { name := ['x'], comment := [['c', ' ', '@', 'd'], ['*', ' ', 'e']],
      name_unblank := List.forall_mem_singleton.mpr rfl, comment_isLine := by decide,
      comment_filled := by decide, continues := by decide },
    { name := ['y'], comment := [],
      name_unblank := List.forall_mem_singleton.mpr rfl, comment_isLine := by decide,
      comment_filled := by decide, continues := by decide }]
  description_isLine := by decide
  untagged := by decide
  starts_filled := by decide
  ends_filled := by decide

theorem stars_are_read_back :
    DocComment.read? " /**\n  * *a*\n  * \n  * b\n  * @x c @d\n  * * e\n  * @y\n  */" =
      some ⟨some "*a*\n\nb", [⟨"x", some "c @d * e"⟩, ⟨"y", none⟩]⟩ :=
  layout_is_read_back .stars fun _ => ⟨[' '], List.forall_mem_singleton.mpr rfl, by decide⟩

end DecoratedApi
