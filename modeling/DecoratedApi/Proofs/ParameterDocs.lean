import DecoratedApi.Proofs.Trimming
import DecoratedApi.Route.ParameterOf

/-!
# What a comment says about a parameter

The comment of a method speaks about its parameters: `@param` tags describe them, and the other tags
name the parameter that they are aimed at. A parameter does not depend on the tags that are aimed
elsewhere (`tags_stay_with_their_parameter`). A type in braces is skipped in a description exactly
when no braces stand in it (`type_is_skipped_iff`).
-/

namespace DecoratedApi

/-! ## Tags of a parameter -/

/-- The tag may count for a parameter: it is a `@param` tag, or its comment starts with the name. -/
def DocTag.concerns (name : String) (tag : DocTag) : Bool :=
  tag.name == "param" || tag.comment.any fun comment => (Text.firstWord comment).1 == name

/-- The tags that may count for the parameter. -/
def DocComment.concerning (doc : Option DocComment) (name : String) : List DocTag :=
  ((doc.map (·.tags)).getD []).filter (·.concerns name)

theorem DocTag.concerns_of_aimedAt {name other : String} {tag : DocTag} (hother : other ≠ name)
    (haimed : (DocComment.aimedAt other tag).isSome = true) (hparam : tag.name ≠ "param") :
    tag.concerns name = false := by
  unfold DocComment.aimedAt at haimed
  cases hcomment : tag.comment with
  | none => simp [hcomment] at haimed
  | some comment =>
    have hfirst : (Text.firstWord comment).1 = other := by
      by_contra hne
      simp [hcomment, hne] at haimed
    simp [concerns, hcomment, hparam, hfirst, hother]

namespace DocComment

variable {name : String}

theorem aimedAt_eq_none {tag : DocTag} (h : tag.concerns name = false) :
    aimedAt name tag = none := by
  unfold aimedAt
  cases hcomment : tag.comment with
  | none => rfl
  | some comment =>
    have hfirst : (Text.firstWord comment).1 ≠ name := by
      rintro rfl
      simp [DocTag.concerns, hcomment] at h
    simp [hfirst]

theorem filterMap_aimedAt (name : String) (tags : List DocTag) :
    (tags.filter (·.concerns name)).filterMap (aimedAt name) = tags.filterMap (aimedAt name) := by
  rw [List.filterMap_filter]
  refine List.filterMap_congr fun tag _ => ?_
  split
  · rfl
  · next h => exact (aimedAt_eq_none (by simpa using h)).symm

theorem filter_param (name : String) (tags : List DocTag) :
    (tags.filter (·.concerns name)).filter (·.name == "param") =
      tags.filter (·.name == "param") := by
  rw [List.filter_filter]
  refine List.filter_congr fun tag _ => ?_
  cases hparam : tag.name == "param" <;> simp [DocTag.concerns, hparam]

theorem parameterTags_eq (doc : Option DocComment) (name : String) :
    (doc.map (·.parameterTags name)).getD [] =
      (concerning doc name).filterMap (aimedAt name) := by
  cases doc with
  | none => rfl
  | some doc => exact (filterMap_aimedAt name doc.tags).symm

theorem paramDescription_eq (doc : Option DocComment) (name : String) :
    doc.bind (·.paramDescription name) =
      (((concerning doc name).filter (·.name == "param")).filterMap (·.comment)).findSome?
        (describes name) := by
  cases doc with
  | none => rfl
  | some doc =>
    simp only [concerning, Option.map_some, Option.getD_some, filter_param]
    rfl

end DocComment

namespace MethodSite

/-- Two sites that tell a parameter the same. -/
structure Agree (name : String) (site site' : MethodSite) : Prop where
  verb : site.verb = site'.verb
  path : site.path = site'.path
  hints : site.hints name = site'.hints name
  validators : site.validators name = site'.validators name
  description : site.description name = site'.description name

theorem agree_of_concerning {name : String} {doc doc' : Option DocComment}
    (h : DocComment.concerning doc name = DocComment.concerning doc' name) (verb : Verb)
    (path : String) : Agree name ⟨verb, path, doc⟩ ⟨verb, path, doc'⟩ where
  verb := rfl
  path := rfl
  hints := by simp only [hints, DocComment.parameterTags_eq, h]
  validators := by simp only [validators, Validators.ofParameter, DocComment.parameterTags_eq, h]
  description := by simp only [description, DocComment.paramDescription_eq, h]

variable {name : String} {site site' : MethodSite}

theorem Agree.parameter_eq (h : Agree name site site') (self : Resolver.Recursor)
    {p : ParameterDecl} (hp : p.name = some name) :
    site.parameter self p = site'.parameter self p := by
  have hplace : site.hasPlaceFor = site'.hasPlaceFor := by
    funext wireName
    rw [hasPlaceFor, hasPlaceFor, h.path]
  have hwire : ∀ b wireName, wireParameter site self p b name wireName =
      wireParameter site' self p b name wireName := by
    intro b wireName
    simp only [wireParameter, h.hints, h.validators, h.description, hplace, h.path]
  unfold parameter
  simp only [hp]
  split
  · simp only [requestParameter, h.validators, h.description]
  · simp only [bodyParameter, h.verb, h.hints, h.validators, h.description]
  · simp only [bodyPropertyParameter, h.verb, h.hints, h.validators, h.description]
  · apply hwire
  · apply hwire
  · apply hwire

end MethodSite

open Resolver in
/-- Two comments with the same tags that may count for a parameter give the same parameter or the
same error, and leave the same state. So a tag that is aimed at another parameter has no effect,
wherever it stands and whatever it says. -/
theorem tags_stay_with_their_parameter (program : Program) (depth : Nat) {p : ParameterDecl}
    {name : String} (hp : p.name = some name) (verb : Verb) (path : String) (s : ResolverState) :
    (∀ doc doc', DocComment.concerning doc name = DocComment.concerning doc' name →
      (MethodSite.parameter ⟨verb, path, doc⟩ (resolve program depth) p).runFrom s =
        (MethodSite.parameter ⟨verb, path, doc'⟩ (resolve program depth) p).runFrom s) ∧
    ∀ other tag, other ≠ name → (DocComment.aimedAt other tag).isSome = true →
      tag.name ≠ "param" → ∀ description before after,
      (MethodSite.parameter ⟨verb, path, some ⟨description, before ++ tag :: after⟩⟩
          (resolve program depth) p).runFrom s =
        (MethodSite.parameter ⟨verb, path, some ⟨description, before ++ after⟩⟩
          (resolve program depth) p).runFrom s := by
  have hsame : ∀ doc doc', DocComment.concerning doc name = DocComment.concerning doc' name →
      MethodSite.parameter ⟨verb, path, doc⟩ (resolve program depth) p =
        MethodSite.parameter ⟨verb, path, doc'⟩ (resolve program depth) p :=
    fun _ _ h => (MethodSite.agree_of_concerning h verb path).parameter_eq _ hp
  refine ⟨fun doc doc' h => by rw [hsame doc doc' h], ?_⟩
  intro other tag hother haimed hparam description before after
  have hout := DocTag.concerns_of_aimedAt hother haimed hparam
  rw [hsame _ (some ⟨description, before ++ after⟩)]
  simp [DocComment.concerning, hout]

/-- The number of an order, with a comment that also has the tags given. -/
def Parameter.orderNumber (others : List DocTag) : Resolve Parameter :=
  MethodSite.parameter
    { verb := .get, path := "\x7bid\x7d"
      doc := some
        { description := none
          tags := [⟨"param", some "id The number."⟩, ⟨"isInt", some "id"⟩] ++
            (others ++ [⟨"minimum", some "id 1"⟩]) } }
    (Resolver.resolve ⟨[]⟩ 5)
    { name := some "id", decorators := [], type := some (.keyword .number), optional := false
      initializer := none, accessibility := none, readonly := false }

/-- The name `ids` starts with `id`, and one of its tags is malformed. -/
theorem id_is_not_affected_by_ids :
    ∃ q, (Parameter.orderNumber []).runFrom {} = some (.ok q, {}) ∧
      q.type = .integer ∧ q.validators.map (·.1) = ["isInt", "minimum"] ∧
      q.description = some "The number." ∧
      (Parameter.orderNumber [⟨"minimum", some "ids many"⟩, ⟨"isLong", some "ids"⟩]).runFrom {} =
        some (.ok q, {}) ∧
      (Parameter.orderNumber [⟨"minimum", some "ids many"⟩]).runFrom {} = some (.ok q, {}) := by
  obtain ⟨q, hrun, htype, hvalidators, hdescription⟩ : ∃ q,
      (Parameter.orderNumber []).runFrom {} = some (.ok q, {}) ∧
      q.type = .integer ∧ q.validators.map (·.1) = ["isInt", "minimum"] ∧
      q.description = some "The number." := ⟨_, rfl, rfl, rfl, rfl⟩
  obtain ⟨hsame, hother⟩ :=
    tags_stay_with_their_parameter ⟨[]⟩ 5 (p := ⟨some "id", [], _, _, _, _, _⟩) rfl .get _ {}
  refine ⟨q, hrun, htype, hvalidators, hdescription, ?_, ?_⟩
  · exact (hsame _ _ (by decide)).trans hrun
  · exact (hother "ids" _ (by decide) (by decide) (by decide) _ _ _).trans hrun

/-! ## Types in braces -/

namespace DocComment

variable {cs rest word : List Char} {type name text comment : String}

/-- A text in which every brace has its partner. -/
inductive Balanced : List Char → Prop
  | nil : Balanced []
  | plain {c : Char} {cs : List Char} (hopen : c ≠ '\x7b') (hclose : c ≠ '\x7d')
      (h : Balanced cs) : Balanced (c :: cs)
  | group {inner rest : List Char} (hinner : Balanced inner) (hrest : Balanced rest) :
      Balanced ('\x7b' :: (inner ++ '\x7d' :: rest))

theorem Balanced.mem_iff (h : Balanced cs) : '\x7b' ∈ cs ↔ '\x7d' ∈ cs := by
  induction h with
  | nil => simp
  | plain hopen hclose h ih => simp [hopen.symm, hclose.symm, ih]
  | group => simp

theorem balanced_of_flat (hopen : '\x7b' ∉ cs) (hclose : '\x7d' ∉ cs) : Balanced cs := by
  induction cs with
  | nil => exact .nil
  | cons c cs ih =>
    obtain ⟨hc, hcs⟩ := not_or.mp (List.mem_cons.not.mp hopen)
    obtain ⟨hc', hcs'⟩ := not_or.mp (List.mem_cons.not.mp hclose)
    exact .plain (Ne.symm hc) (Ne.symm hc') (ih hcs hcs')

/-- A name as it stands in a comment: one word without square brackets. -/
structure IsParamName (name : String) : Prop where
  filled : name ≠ ""
  unblank : name.toList.any Text.isBlank = false
  unbracketed : '[' ∉ name.toList ∧ ']' ∉ name.toList

/-- A text that is kept as it is: it is trimmed, and no dash is taken off its front. -/
structure IsRemark (text : String) : Prop where
  filled : text ≠ ""
  trimmed : Text.trim text = text
  undashed : text.toList.head? ≠ some '-'

/-- A comment that gives a parameter a type and a remark, with or without a dash between. -/
def typedParam (type name text : String) (dashed : Bool) : String :=
  "\x7b" ++ type ++ "\x7d " ++ name ++ (if dashed then " - " else " ") ++ text

/-- What stands behind the name and a blank. -/
def remark (text : String) (dashed : Bool) : List Char :=
  if dashed then '-' :: ' ' :: text.toList else text.toList

theorem length_le_remark (text : String) (dashed : Bool) :
    text.toList.length ≤ (remark text dashed).length := by
  cases dashed with
  | false => exact Nat.le_refl _
  | true => exact Nat.le_add_right text.toList.length 2

theorem toList_typedParam (type name text : String) (dashed : Bool) :
    (typedParam type name text dashed).toList = '\x7b' :: (type.toList ++ '\x7d' ::
      ' ' :: (name.toList ++ ' ' :: remark text dashed)) := by
  cases dashed <;> simp [typedParam, remark]

namespace IsRemark

theorem trimBlank (h : IsRemark text) : Text.trimBlank text.toList = text.toList := by
  rw [← String.ofList_inj, String.ofList_toList]
  exact h.trimmed

theorem endsFilled (h : IsRemark text) : Text.EndsFilled text.toList := by
  have hlast := (Text.stripWhile_eq_self_iff.mp h.trimBlank).2
  cases hchars : text.toList.getLast? with
  | none => exact absurd (by simpa using hchars) h.filled
  | some c => exact ⟨c, hchars, hlast c hchars⟩

theorem remark_endsFilled (h : IsRemark text) (dashed : Bool) :
    Text.EndsFilled (remark text dashed) := by
  cases dashed with
  | false => exact h.endsFilled
  | true => exact h.endsFilled.append ['-', ' ']

theorem trimBlank_remark (h : IsRemark text) (dashed : Bool) :
    Text.trimBlank (remark text dashed) = remark text dashed := by
  cases dashed with
  | false => exact h.trimBlank
  | true => exact (h.endsFilled.cons ' ').trimBlank_append_cons rfl []

theorem undash_remark (h : IsRemark text) (dashed : Bool) :
    Text.trimBlank ((remark text dashed).dropWhile (· == '-')) = text.toList := by
  cases dashed with
  | false =>
    have hdrop : text.toList.dropWhile (· == '-') = text.toList := by
      refine Text.dropWhile_eq_self_iff_head?.mpr fun c hc => ?_
      have hne := h.undashed
      simp_all
    rw [remark, if_neg (by decide), hdrop, h.trimBlank]
  | true => exact (Text.stripWhile_cons_of_pos rfl).trans h.trimBlank

theorem nonEmpty?_eq (h : IsRemark text) : nonEmpty? text.toList = some text := by
  have hfilled : text.toList ≠ [] := by simpa using h.filled
  simp [nonEmpty?, hfilled]

end IsRemark

theorem IsParamName.isBlank_eq_false (h : IsParamName name) :
    ∀ c ∈ name.toList, Text.isBlank c = false := by
  simpa using List.any_eq_false.mp h.unblank

theorem IsParamName.stripWhile_eq (h : IsParamName name) :
    Text.stripWhile (fun c => c == '[' || c == ']') name.toList = name.toList := by
  have hplain : ∀ c ∈ name.toList, (c == '[' || c == ']') = false := by
    intro c hc
    have hopen : c ≠ '[' := by
      rintro rfl
      exact h.unbracketed.1 hc
    have hclose : c ≠ ']' := by
      rintro rfl
      exact h.unbracketed.2 hc
    simp [hopen, hclose]
  exact Text.stripWhile_eq_self_iff.mpr
    ⟨fun c hc => hplain c (List.mem_of_head? hc), fun c hc => hplain c (List.mem_of_getLast? hc)⟩

theorem skipType_eq {inner : List Char} (hinner : '\x7d' ∉ inner) (hrest : Text.EndsFilled rest) :
    skipType ('\x7b' :: (inner ++ '\x7d' :: rest)) = Text.trimBlank rest := by
  have hends : Text.EndsFilled (inner ++ '\x7d' :: rest) := (hrest.cons '\x7d').append inner
  have htrim : Text.trimBlank ('\x7b' :: (inner ++ '\x7d' :: rest)) =
      '\x7b' :: (inner ++ '\x7d' :: rest) := hends.trimBlank_append_cons rfl []
  have hfront : ('\x7b' :: inner).dropWhile (· != '\x7d') = [] := by
    refine List.dropWhile_eq_nil_iff.mpr fun c hc => ?_
    rcases List.mem_cons.mp hc with rfl | hc
    · rfl
    · have hne : c ≠ '\x7d' := by
        rintro rfl
        exact hinner hc
      simpa using hne
  have hdrop : ('\x7b' :: (inner ++ '\x7d' :: rest)).dropWhile (· != '\x7d') = '\x7d' :: rest := by
    rw [← List.cons_append, Text.dropWhile_append_cons rfl, hfront, List.nil_append]
  unfold skipType
  simp only [htrim, hdrop, if_true]

theorem describes_eq_some_iff {found : String}
    (hskip : skipType comment.toList = Text.trimBlank cs)
    (hsplit : Text.splitWord cs = (word, rest)) :
    describes name comment = some found ↔
      String.ofList (Text.stripWhile (fun c => c == '[' || c == ']') word) = name ∧
        nonEmpty? (Text.trimBlank (rest.dropWhile (· == '-'))) = some found := by
  simp only [describes, hskip, Text.splitWord_trimBlank, hsplit, Option.ite_none_right_eq_some]

theorem describes_typedParam (htype : '\x7d' ∉ type.toList) (hname : IsParamName name)
    (htext : IsRemark text) (dashed : Bool) :
    describes name (typedParam type name text dashed) = some text := by
  have hremark := htext.remark_endsFilled dashed
  have hne : name.toList ≠ [] := by simpa using hname.filled
  have hskip : skipType (typedParam type name text dashed).toList =
      Text.trimBlank (' ' :: (name.toList ++ ' ' :: remark text dashed)) := by
    rw [toList_typedParam]
    exact skipType_eq htype (((hremark.cons ' ').append name.toList).cons ' ')
  have hsplit : Text.splitWord (' ' :: (name.toList ++ ' ' :: remark text dashed)) =
      (name.toList, remark text dashed) := by
    have hword := Text.splitWord_append_cons hname.isBlank_eq_false hne (b := ' ') rfl hremark
    rw [htext.trimBlank_remark] at hword
    exact (Text.splitWord_append_left (List.forall_mem_singleton.mpr rfl) _).trans hword
  rw [describes_eq_some_iff hskip hsplit, hname.stripWhile_eq, htext.undash_remark]
  exact ⟨String.ofList_toList, htext.nonEmpty?_eq⟩

theorem splitWord_brace (hrest : Text.EndsFilled rest) (after : List Char) :
    (∃ word front, Text.splitWord (after ++ '\x7d' :: ' ' :: rest) =
      (word, front ++ '\x7d' :: ' ' :: rest)) ∨
    ∃ front, Text.splitWord (after ++ '\x7d' :: ' ' :: rest) =
      (front ++ ['\x7d'], Text.trimBlank rest) := by
  -- Where a brace stands before the rest, both are kept whole, or the brace ends the word.
  have htrim := (hrest.cons ' ').trimBlank_append_cons (c := '\x7d') rfl after
  cases hstart : (after.dropWhile Text.isBlank).dropWhile (!Text.isBlank ·) with
  | nil =>
    have hword : ∀ c ∈ after.dropWhile Text.isBlank ++ ['\x7d'], Text.isBlank c = false := by
      intro c hc
      rcases List.mem_append.mp hc with hc | hc
      · simpa using List.dropWhile_eq_nil_iff.mp hstart c hc
      · obtain rfl := List.mem_singleton.mp hc
        rfl
    rw [← Text.splitWord_trimBlank, htrim, List.append_cons]
    exact .inr ⟨_, Text.splitWord_append_cons hword (by simp) rfl hrest⟩
  | cons b behind =>
    have hdrop : (after.dropWhile Text.isBlank ++ '\x7d' :: ' ' :: rest).dropWhile
        (!Text.isBlank ·) = (b :: behind) ++ '\x7d' :: ' ' :: rest := by
      rw [List.dropWhile_append, hstart]
      rfl
    unfold Text.splitWord
    simp only [htrim, hdrop, (hrest.cons ' ').trimBlank_append_cons (c := '\x7d') rfl]
    exact .inl ⟨_, _, rfl⟩

theorem length_lt_of_nonEmpty? (hrest : Text.EndsFilled rest) {front : List Char} {found : String}
    (h : nonEmpty? (Text.trimBlank ((front ++ '\x7d' :: rest).dropWhile (· == '-'))) = some found) :
    rest.length < found.toList.length := by
  -- A brace is neither a dash nor blank, so it stays in the description.
  rw [Text.dropWhile_append_cons rfl, hrest.trimBlank_append_cons rfl] at h
  unfold nonEmpty? at h
  split at h
  · cases h
  · cases h
    rw [String.toList_ofList, List.length_append, List.length_cons]
    omega

theorem length_lt_of_describes (htype : '\x7d' ∈ type.toList) (htext : IsRemark text)
    {dashed : Bool} {found : String}
    (hfound : describes name (typedParam type name text dashed) = some found) :
    text.toList.length < found.toList.length := by
  -- Behind a nested type, what is found holds more than the remark.
  obtain ⟨inner, after, hchars, hinner⟩ := List.eq_append_cons_of_mem htype
  have hremark := htext.remark_endsFilled dashed
  have hrest : Text.EndsFilled (name.toList ++ ' ' :: remark text dashed) :=
    (hremark.cons ' ').append name.toList
  have hskip : skipType (typedParam type name text dashed).toList =
      Text.trimBlank (after ++ '\x7d' :: ' ' :: (name.toList ++ ' ' :: remark text dashed)) := by
    rw [toList_typedParam, hchars, List.append_assoc, List.cons_append]
    exact skipType_eq hinner (((hrest.cons ' ').cons '\x7d').append after)
  have hlength := length_le_remark text dashed
  obtain ⟨word, front, hsplit⟩ | ⟨front, hsplit⟩ := splitWord_brace hrest after
  · obtain ⟨-, hfound⟩ := (describes_eq_some_iff hskip hsplit).mp hfound
    have hlong := length_lt_of_nonEmpty? (hrest.cons ' ') hfound
    simp only [List.length_cons, List.length_append] at hlong
    omega
  · obtain ⟨hword, hfound⟩ := (describes_eq_some_iff hskip hsplit).mp hfound
    -- The word is the name itself, which then ends with the brace.
    rw [Text.stripWhile_concat rfl] at hword
    rw [← hword, String.toList_ofList, ← List.append_cons,
      (hremark.cons ' ').trimBlank_append_cons rfl] at hfound
    have hlong := length_lt_of_nonEmpty? (hremark.cons ' ') hfound
    rw [List.length_cons] at hlong
    omega

end DocComment

open DocComment

/-- A parameter that is described with its type gets the description exactly when no braces stand in
the type: the first closing brace is taken for its end. -/
theorem type_is_skipped_iff {doc : DocComment} {type name text : String} (dashed : Bool)
    (hdoc : doc.tags.filter (·.name == "param") =
      [⟨"param", some (typedParam type name text dashed)⟩])
    (htype : Balanced type.toList) (hname : IsParamName name) (htext : IsRemark text) :
    doc.paramDescription name = some text ↔
      '\x7b' ∉ type.toList ∧ '\x7d' ∉ type.toList := by
  have hdescribes :
      doc.paramDescription name = describes name (typedParam type name text dashed) := by
    rw [paramDescription, hdoc]
    simp
  rw [hdescribes, htype.mem_iff, and_self]
  constructor
  · intro hfound hnested
    exact absurd (length_lt_of_describes hnested htext hfound) (Nat.lt_irrefl _)
  · intro hflat
    exact describes_typedParam hflat hname htext dashed

theorem flat_type_is_skipped :
    DocComment.paramDescription ⟨none, [⟨"isArray", some "sizes"⟩,
      ⟨"param", some "\x7bMap<string, number>\x7d sizes - by name"⟩]⟩ "sizes" = some "by name" := by
  have hname : IsParamName "sizes" := ⟨by decide, by decide, by decide⟩
  have htext : IsRemark "by name" := ⟨by decide, by decide, by decide⟩
  have htype : Balanced "Map<string, number>".toList := balanced_of_flat (by decide) (by decide)
  exact (type_is_skipped_iff true rfl htype hname htext).mpr (by decide)

theorem nested_type_hides_description :
    Balanced "\x7bx: T\x7d".toList ∧ IsParamName "p" ∧ IsRemark "a place" ∧
    typedParam "\x7bx: T\x7d" "p" "a place" false = "\x7b\x7bx: T\x7d\x7d p a place" ∧
    DocComment.paramDescription ⟨none, [⟨"param", some "\x7b\x7bx: T\x7d\x7d p a place"⟩]⟩ "p" =
      none := by
  have hinner : Balanced ['x', ':', ' ', 'T'] := balanced_of_flat (by decide) (by decide)
  exact ⟨.group hinner .nil, ⟨by decide, by decide, by decide⟩, ⟨by decide, by decide, by decide⟩,
    by decide, by decide⟩

end DecoratedApi
