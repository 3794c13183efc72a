import DecoratedApi.Proofs.Methods

/-!
# Where an error is found

A cause that is found inside a method is wrapped in its place, and what is checked for a method or a
class as a whole names it in its own message. The deferred work fails only on placeholders, and a
walk that has succeeded leaves none. So no error without a place is left.
-/

namespace DecoratedApi

open Resolve

/-! ## Messages -/

namespace GenerateError

/-- The message quotes the method, with its controller. -/
def NamesMethod (e : GenerateError) (controller method : String) : Prop :=
  ("'" ++ controller ++ "." ++ method ++ "'").toList <:+: e.message.toList

/-- The message quotes the class. -/
def NamesClass (e : GenerateError) (name : String) : Prop :=
  ("'" ++ name ++ "' class").toList <:+: e.message.toList

variable (controller method : String)

theorem inMethod_namesMethod (cause : GenerateError) :
    (inMethod cause controller method).NamesMethod controller method := by
  refine ⟨(cause.message ++ " \n in ").toList, [], ?_⟩
  change _ = (cause.message ++ " \n in '" ++ controller ++ "." ++ method ++ "'").toList
  simp

theorem manyVerbs_namesMethod (found : List String) :
    (manyVerbs controller method found).NamesMethod controller method := by
  refine ⟨"Only one path decorator in ".toList,
    (" method, Found: " ++ ", ".intercalate found).toList, ?_⟩
  change _ = ("Only one path decorator in '" ++ controller ++ "." ++ method ++
    "' method, Found: " ++ ", ".intercalate found).toList
  simp

theorem repeatedOnMethod_namesMethod (label : String) :
    (repeatedOnMethod label controller method).NamesMethod controller method := by
  refine ⟨("Only one " ++ label ++ " decorator allowed in ").toList, " method.".toList, ?_⟩
  change _ = ("Only one " ++ label ++ " decorator allowed in '" ++ controller ++ "." ++ method ++
    "' method.").toList
  simp

theorem manyBodies_namesMethod : (manyBodies controller method).NamesMethod controller method := by
  refine ⟨"Only one body parameter allowed in ".toList, " method.".toList, ?_⟩
  change _ = ("Only one body parameter allowed in '" ++ controller ++ "." ++ method ++
    "' method.").toList
  simp

theorem bodyAndProperties_namesMethod :
    (bodyAndProperties controller method).NamesMethod controller method := by
  refine ⟨"Choose either during @Body or @BodyProp in ".toList, " method.".toList, ?_⟩
  change _ = ("Choose either during @Body or @BodyProp in '" ++ controller ++ "." ++ method ++
    "' method.").toList
  simp

theorem inClass_namesClass (cause : GenerateError) (name : String) :
    (inClass cause name).NamesClass name := by
  refine ⟨(cause.message ++ " \n in ").toList, [], ?_⟩
  change _ = (cause.message ++ " \n in '" ++ name ++ "' class").toList
  simp

theorem repeatedOnClass_namesClass (label name : String) :
    (repeatedOnClass label name).NamesClass name := by
  refine ⟨("Only one " ++ label ++ " decorator allowed in ").toList, ".".toList, ?_⟩
  change _ = ("Only one " ++ label ++ " decorator allowed in '" ++ name ++ "' class.").toList
  simp

end GenerateError

/-! ## Failures of a computation -/

namespace Resolve

variable {α β : Type} {P : GenerateError → Prop}

/-- However the computation fails, the cause is as it should be. -/
def FailsWith (P : GenerateError → Prop) (x : Resolve α) : Prop :=
  ∀ s e s', x.runFrom s = some (.error e, s') → P e

theorem failsWith_pure (a : α) : FailsWith P (pure a : Resolve α) := by
  intro s e s' h
  simp at h

theorem FailsWith.bind {x : Resolve α} {f : α → Resolve β} (hx : FailsWith P x)
    (hf : ∀ a, FailsWith P (f a)) : FailsWith P (x >>= f) := by
  intro s e s' h
  rw [runFrom_bind] at h
  split at h
  · cases h
  · next e₁ s₁ hfail =>
    cases h
    exact hx s e s' hfail
  · next a s₁ _ => exact hf a s₁ e s' h

theorem failsWith_ofOutcome_bind {o : Outcome α} {f : α → Resolve β}
    (ho : ∀ e, o = .error e → P e) (hf : ∀ a, o = .ok a → FailsWith P (f a)) :
    FailsWith P (ofOutcome o >>= f) := by
  intro s e s' hrun
  rw [runFrom_bind, runFrom_ofOutcome] at hrun
  cases o with
  | error cause =>
    cases hrun
    exact ho e rfl
  | ok a => exact hf a rfl s e s' hrun

theorem FailsWith.mono {Q : GenerateError → Prop} {x : Resolve α} (hx : FailsWith P x)
    (h : ∀ e, P e → Q e) : FailsWith Q x :=
  fun s e s' hrun => h e (hx s e s' hrun)

theorem failsWith_mapError {f : GenerateError → GenerateError} (h : ∀ e, P (f e))
    (x : Resolve α) : FailsWith P (mapError f x) := by
  intro s e s' hrun
  rw [mapError, runFrom_bind, runFrom_outcome] at hrun
  cases hx : x.runFrom s with
  | none => simp [hx] at hrun
  | some out =>
    obtain ⟨o, s₁⟩ := out
    rw [hx] at hrun
    cases o with
    | ok a => simp at hrun
    | error cause =>
      obtain ⟨rfl, -⟩ : f cause = e ∧ s₁ = s' := by simpa using hrun
      exact h cause

end Resolve

/-! ## Methods -/

namespace MethodDecl

open GenerateError

variable {controller : String} {m : MethodDecl} {e : GenerateError}

theorem route?_error (h : m.route? controller = .error e) : e.NamesMethod controller m.name := by
  unfold route? at h
  split at h
  · cases h
  · cases h
  · cases h
    exact manyVerbs_namesMethod ..

theorem single_error {kind : DecoratorKind} {label : String}
    (h : m.single controller kind label = .error e) : e.NamesMethod controller m.name := by
  unfold single at h
  split at h
  · cases h
  · cases h
  · cases h
    exact repeatedOnMethod_namesMethod ..

theorem successResponse_error {type : ApiType} (h : m.successResponse controller type = .error e) :
    e.NamesMethod controller m.name := by
  unfold successResponse at h
  simp only [bind, Except.bind] at h
  split at h
  · next hsuccess =>
    cases h
    exact single_error hsuccess
  · split at h
    · cases h
    · split at h
      · next hsample =>
        cases h
        exact single_error hsample
      · split at h
        · split at h
          · cases h
          · cases h
            exact inMethod_namesMethod ..
        · cases h

theorem checkBodies_error {method : String} {ps : List Parameter}
    (h : checkBodies controller method ps = .error e) : e.NamesMethod controller method := by
  simp only [checkBodies] at h
  split at h
  · cases h
    exact manyBodies_namesMethod ..
  · split at h
    · cases h
      exact bodyAndProperties_namesMethod ..
    · cases h

theorem tags_error {inherited : List String} (h : m.tags controller inherited = .error e) :
    e.NamesMethod controller m.name := by
  unfold tags at h
  simp only [bind, Except.bind] at h
  split at h
  · next hsingle =>
    cases h
    exact single_error hsingle
  · split at h <;> cases h

theorem security_error {inherited : List Security}
    (h : m.security controller inherited = .error e) : e.NamesMethod controller m.name := by
  unfold security at h
  split at h
  · cases h
  · obtain ⟨d, -, hd⟩ := exists_of_mapM_error h
    split at hd
    · cases hd
    · cases hd
      exact inMethod_namesMethod ..

variable (self : Resolver.Recursor)

theorem generateParameters_failsWith (site : MethodSite) (method : String)
    (ps : List ParameterDecl) :
    FailsWith (·.NamesMethod controller method)
      (generateParameters self site controller method ps) := by
  induction ps with
  | nil => exact failsWith_pure _
  | cons p rest ih =>
    refine (failsWith_mapError (fun cause => inMethod_namesMethod _ _ cause) _).bind fun q => ?_
    exact ih.bind fun qs => failsWith_pure _

theorem generate_failsWith (route : MethodRoute) (tags : List String) (security : List Security) :
    FailsWith (·.NamesMethod controller m.name)
      (m.generate self controller (some route) tags security) := by
  have located : ∀ {α : Type} (x : Resolve α), FailsWith (·.NamesMethod controller m.name)
      (Resolve.mapError (.inMethod · controller m.name) x) :=
    failsWith_mapError fun cause => inMethod_namesMethod _ _ cause
  refine (located _).bind fun node => ?_
  refine (located _).bind fun type => ?_
  refine (located _).bind fun listed => ?_
  refine failsWith_ofOutcome_bind (fun e h => successResponse_error h) fun success _ => ?_
  refine (generateParameters_failsWith self _ _ _).bind fun parameters => ?_
  refine failsWith_ofOutcome_bind (fun e h => checkBodies_error h) fun _ _ => ?_
  refine failsWith_ofOutcome_bind (fun e h => security_error h) fun security _ => ?_
  refine failsWith_ofOutcome_bind (fun e h => tags_error h) fun tags _ => ?_
  refine failsWith_ofOutcome_bind (fun e h => single_error h) fun hidden _ => ?_
  exact failsWith_pure _

end MethodDecl

/-! ## Controllers -/

/-- The message names a method of the class, or the class. -/
def ClassDecl.IsNamedBy (c : ClassDecl) (e : GenerateError) : Prop :=
  (∃ m ∈ c.methods, e.NamesMethod c.name m.name) ∨ e.NamesClass c.name

namespace ClassDecl

open GenerateError

variable {c : ClassDecl} {e : GenerateError}

theorem route?_error (h : c.route? = .error e) : c.isController = true ∧ e.NamesClass c.name := by
  unfold route? at h
  split at h
  · cases h
  · cases h
  · next hnone _ =>
    cases h
    exact ⟨by simpa [isController] using hnone, repeatedOnClass_namesClass ..⟩

theorem tags_error (h : c.tags = .error e) : e.NamesClass c.name := by
  unfold tags at h
  split at h
  · cases h
  · cases h
  · cases h
    exact repeatedOnClass_namesClass ..

theorem security_error (h : c.security = .error e) : e.NamesClass c.name := by
  obtain ⟨d, -, hd⟩ := exists_of_mapM_error h
  split at hd
  · cases hd
  · cases hd
    exact inClass_namesClass ..

variable (self : Resolver.Recursor)

theorem generateMethods_failsWith (controller : String) (tags : List String)
    (security : List Security) (ms : List MethodDecl) :
    FailsWith (fun e => ∃ m ∈ ms, e.NamesMethod controller m.name)
      (generateMethods self controller tags security ms) := by
  induction ms with
  | nil => exact failsWith_pure _
  | cons m rest ih =>
    have hhere : ∀ e : GenerateError, e.NamesMethod controller m.name →
        ∃ m' ∈ m :: rest, e.NamesMethod controller m'.name :=
      fun e he => ⟨m, List.mem_cons_self, he⟩
    have hrest : FailsWith (fun e => ∃ m' ∈ m :: rest, e.NamesMethod controller m'.name)
        (generateMethods self controller tags security rest) :=
      ih.mono fun e ⟨m', hm', he⟩ => ⟨m', List.mem_cons_of_mem m hm', he⟩
    refine failsWith_ofOutcome_bind (fun e h => hhere e (MethodDecl.route?_error h))
      fun route _ => ?_
    cases route with
    | none => exact hrest
    | some route =>
      refine ((MethodDecl.generate_failsWith self route tags security).mono hhere).bind
        fun m' => ?_
      exact hrest.bind fun ms' => failsWith_pure _

theorem generate_failsWith (location : String) (route : Option Decorator) :
    FailsWith c.IsNamedBy (c.generate self location route) := by
  refine failsWith_ofOutcome_bind (fun e h => .inr (tags_error h)) fun tags _ => ?_
  refine failsWith_ofOutcome_bind (fun e h => .inr (security_error h)) fun security _ => ?_
  refine ((generateMethods_failsWith self _ _ _ _).mono fun e he => .inl he).bind fun ms => ?_
  exact failsWith_pure _

end ClassDecl

namespace Program

theorem generateControllers_failsWith (self : Resolver.Recursor)
    (cs : List (String × ClassDecl)) :
    FailsWith (fun e => ∃ entry ∈ cs, entry.2.isController = true ∧ entry.2.IsNamedBy e)
      (generateControllers self cs) := by
  induction cs with
  | nil => exact failsWith_pure _
  | cons entry rest ih =>
    obtain ⟨location, c⟩ := entry
    have hrest : FailsWith (fun e => ∃ entry ∈ (location, c) :: rest,
        entry.2.isController = true ∧ entry.2.IsNamedBy e) (generateControllers self rest) :=
      ih.mono fun e ⟨entry, hentry, he⟩ => ⟨entry, List.mem_cons_of_mem _ hentry, he⟩
    refine failsWith_ofOutcome_bind (fun e h => ?_) fun route hroute => ?_
    · obtain ⟨hc, he⟩ := ClassDecl.route?_error h
      exact ⟨(location, c), List.mem_cons_self, hc, .inr he⟩
    · cases route with
      | none => exact hrest
      | some route =>
        have hc : c.isController = true := ClassDecl.route?_isSome hroute
        have hgenerate := ClassDecl.generate_failsWith (c := c) self location (some route)
        refine (hgenerate.mono fun e he => ⟨(location, c), List.mem_cons_self, hc, he⟩).bind
          fun c' => ?_
        exact hrest.bind fun cs' => failsWith_pure _

variable {p : Program} {depth : Nat} {e : GenerateError}

theorem walk_of_metadataAt_error (h : p.metadataAt depth = some (.error e)) :
    ∃ s, (generateControllers (Resolver.resolve p depth) p.classes).runFrom {} =
      some (.error e, s) := by
  unfold metadataAt at h
  split at h
  · cases h
  · next cause s hwalk =>
    cases h
    exact ⟨s, hwalk⟩
  · next controllers s hwalk =>
    -- Once the walk has succeeded nothing fails.
    obtain ⟨hadv, -⟩ := generateControllers_advances hwalk
    obtain ⟨defs, hdefs⟩ := (Resolver.finish_isOk_iff (hadv.wellFormed .fresh)).mpr
      (Resolver.not_pending_of_advances hadv)
    rw [hdefs] at h
    cases h

end Program

/-- An error that stops the generation names a controller of the program or one of its methods, and
an error of a method that answers requests names this method. -/
theorem errors_name_their_place (p : Program) (depth : Nat) :
    (∀ e, p.metadataAt depth = some (.error e) →
      ∃ entry ∈ p.classes, entry.2.isController = true ∧
        ((∃ m ∈ entry.2.methods, e.NamesMethod entry.2.name m.name) ∨
          e.NamesClass entry.2.name)) ∧
    ∀ (controller : String) (m : MethodDecl) (route : MethodRoute),
      m.route? controller = .ok (some route) →
      ∀ tags security s e s',
        (m.generate (Resolver.resolve p depth) controller (some route) tags security).runFrom s =
          some (.error e, s') →
        e.NamesMethod controller m.name := by
  constructor
  · intro e h
    obtain ⟨s, hwalk⟩ := Program.walk_of_metadataAt_error h
    exact Program.generateControllers_failsWith _ _ _ e s hwalk
  · intro controller m route _ tags security s e s' h
    exact MethodDecl.generate_failsWith _ route tags security s e s' h

/-- Orders like a whole order are asked for, which no query can carry. -/
def MethodDecl.alike : MethodDecl :=
  { name := "alike", doc := none, decorators := [⟨"Get", [], []⟩]
    parameters := [.bound "other" ⟨"Query", [], []⟩ (.named "Order")]
    returnType := some (.array (.named "Order")), returns := [] }

def Program.misfit : Program :=
  { units := [
      { path := "misfit.ts"
        imports := []
        declarations := [
          .plainInterface "Order" [] [.plain "parts" (.array (.named "Order"))],
          .ofClass { ClassDecl.orders with methods := [.alike] }] }] }

theorem misfit_error_names_alike :
    ∃ e s, Program.misfit.metadataAt 20 = some (.error e) ∧
      (MethodDecl.alike.generate (Resolver.resolve .misfit 20) "Orders" (some ⟨.get, ""⟩) []
        []).runFrom {} = some (.error e, s) ∧
      (∃ entry ∈ Program.misfit.classes, entry.2.isController = true ∧
        ((∃ m ∈ entry.2.methods, e.NamesMethod entry.2.name m.name) ∨
          e.NamesClass entry.2.name)) ∧
      e.NamesMethod "Orders" "alike" := by
  let cause : GenerateError := .wireType "Query" "other" (.refObject "Order")
  have hprogram : Program.misfit.metadataAt 20 =
      some (.error (.inMethod cause "Orders" "alike")) := rfl
  obtain ⟨s, hmethod⟩ : ∃ s,
      (MethodDecl.alike.generate (Resolver.resolve .misfit 20) "Orders" (some ⟨.get, ""⟩) []
        []).runFrom {} = some (.error (.inMethod cause "Orders" "alike"), s) := ⟨_, rfl⟩
  obtain ⟨hwhole, halone⟩ := errors_name_their_place .misfit 20
  exact ⟨_, s, hprogram, hmethod, hwhole _ hprogram,
    halone "Orders" .alike ⟨.get, ""⟩ rfl [] [] {} _ s hmethod⟩

end DecoratedApi
