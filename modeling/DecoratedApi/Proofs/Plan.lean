import DecoratedApi.Proofs.Run

/-!
# What a type annotation asks for

Which way a type node is resolved does not depend on the table: `plan` tells it from the program,
the node and the place alone. Interfaces, classes and aliases of object types are built alike, from
a `Blueprint`. One level of resolution carries out the plan of the node (`step_eq_run`).
-/

namespace DecoratedApi.Resolver

/-- What the definition of an object type is built from. The parameters of a generic declaration
are already replaced. -/
structure Blueprint where
  description : Option String
  initializedIsOptional : Bool
  members : List PropertyDecl
  index : Option TypeNode
  bases : List TypeNode

namespace Blueprint

def ofInterface (decl : InterfaceDecl) (b : Bindings) : Blueprint :=
  { description := descriptionOf decl.doc
    initializedIsOptional := false
    members := decl.properties.map (PropertyOf.substitute b)
    index := decl.index.map (TypeNode.substitute b)
    bases := decl.bases.map (TypeNode.substitute b) }

def ofClass (decl : ClassDecl) (b : Bindings) : Blueprint :=
  { description := descriptionOf decl.doc
    initializedIsOptional := true
    members := decl.properties.map (PropertyOf.substitute b)
    index := none
    bases := decl.base.toList.map (TypeNode.substitute b) }

def ofAlias (decl : AliasDecl) (members : List PropertyDecl) (index : Option TypeNode) :
    Blueprint :=
  { description := descriptionOf decl.doc, initializedIsOptional := false, members, index
    bases := [] }

/-- The definition before anything is inherited. -/
def own (b : Blueprint) (name : String) (properties : List Property)
    (additional : Option ApiType) : ObjectDefinition :=
  { name, description := b.description, properties, additional }

def build (self : Recursor) (b : Blueprint) (name : String) : Resolve ObjectDefinition := do
  let properties ← properties self b.initializedIsOptional b.members
  let additional ← additional self b.index
  inheritAll self (b.own name properties additional) b.bases

end Blueprint

theorem buildInterface_eq (self : Recursor) (decl : InterfaceDecl) (b : Bindings) :
    buildInterface self decl b = (Blueprint.ofInterface decl b).build self := rfl

theorem buildClass_eq (self : Recursor) (decl : ClassDecl) (b : Bindings) :
    buildClass self decl b = (Blueprint.ofClass decl b).build self := by
  funext name
  simp [buildClass, Blueprint.build, Blueprint.ofClass, Blueprint.own, additional]

theorem buildAlias_eq (self : Recursor) (decl : AliasDecl) (members : List PropertyDecl)
    (index : Option TypeNode) :
    buildAlias self decl members index = (Blueprint.ofAlias decl members index).build self := by
  funext name
  simp [buildAlias, Blueprint.build, Blueprint.ofAlias, Blueprint.own, inheritAll]

/-! ## Plans -/

/-- The ways in which a node is resolved: the answer is known; another node is resolved in its
place, or as the element of an array; an enum or an object type is put into the table. -/
inductive Plan
  | answer (o : Outcome ApiType)
  | same (node : TypeNode)
  | list (node : TypeNode)
  | register (d : EnumDefinition)
  | define (key : String) (b : Blueprint)

namespace Plan

/-- The table has the enum in the end. -/
def registered (d : EnumDefinition) : Resolve ApiType := do
  let s ← get
  if !s.table.contains d.name then
    set { s with table := s.table.fill (.enum d) }
  pure (.refEnum d.name)

/-- Carries out the plan. -/
def run (self : Recursor) (ctx : ResolveContext) : Plan → Resolve ApiType
  | answer o => Resolve.ofOutcome o
  | same node => self node ctx
  | list node => do
    let type ← self node ctx
    pure (.array type)
  | register d => registered d
  | define key b => reference key (b.build self)

/-- The plan for a union, of which `null` and `undefined` are left out. -/
def ofUnion (members : List TypeNode) : Plan :=
  match members.filter (!·.isNullish) with
  | [] => .answer (.error (.nullishUnion (TypeNode.union members).describe))
  | [single] => .same single
  | several =>
    match literalValues? several with
    | some values => .answer (.ok (.enum values))
    | none => .answer (.ok .object)

/-- The plan for an instance of a declaration, or the reason why there is none. -/
def ofInstance (name : String) (parameters : List TypeParameter) (arguments : List TypeNode)
    (plan : Instance → Plan) : Plan :=
  match Instance.of name parameters arguments with
  | .ok i => plan i
  | .error e => .answer (.error e)

/-- The plan for a declaration that is named with arguments. -/
def ofDeclaration (arguments : List TypeNode) (ctx : ResolveContext) : Declaration → Plan
  | .ofEnum decl =>
    match enumValues decl.name decl.members .zero with
    | .ok values =>
      if ctx.extractEnum then .register ⟨decl.name, descriptionOf decl.doc, values⟩
      else .answer (.ok (.enum values))
    | .error e => .answer (.error e)
  | .ofAlias decl =>
    ofInstance decl.name decl.typeParameters arguments fun i =>
      match decl.value.substitute i.bindings with
      | .object members index => .define (i.key decl.name) (.ofAlias decl members index)
      | value => .same value
  | .ofInterface decl =>
    ofInstance decl.name decl.typeParameters arguments fun i =>
      .define (i.key decl.name) (.ofInterface decl i.bindings)
  | .ofClass decl =>
    ofInstance decl.name decl.typeParameters arguments fun i =>
      .define (i.key decl.name) (.ofClass decl i.bindings)

/-- The plan for a name with arguments: built in, or declared in the program. -/
def ofName (p : Program) (name : String) (arguments : List TypeNode) (ctx : ResolveContext) :
    Plan :=
  match builtin? name arguments ctx with
  | some (.known type) => .answer (.ok type)
  | some (.list element) => .list element
  | some (.wrapper inner) => .same inner
  | none =>
    match declarationOf p name with
    | .ok declaration => ofDeclaration arguments ctx declaration
    | .error e => .answer (.error e)

end Plan

/-- The plan for a type node. -/
def plan (p : Program) (node : TypeNode) (ctx : ResolveContext) : Plan :=
  match node with
  | .keyword k => .answer (keywordType k ctx)
  | .array element => .list element
  | .union members => .ofUnion members
  | .intersection members =>
    .answer (.error (.intersection (TypeNode.intersection members).describe))
  | .literal l => .answer (.ok (if ctx.extractEnum then .enum [l.value] else literalType l))
  | .object _ _ => .answer (.ok .object)
  | .unsupported kind text => .answer (.error (.unknownType kind text))
  | .reference name arguments => .ofName p name arguments ctx

namespace Plan

variable (self : Recursor) (ctx : ResolveContext)

theorem run_ofUnion (members : List TypeNode) :
    (ofUnion members).run self ctx = union self members ctx := by
  unfold ofUnion union
  generalize members.filter (!·.isNullish) = remaining
  match remaining with
  | [] => rfl
  | [single] => rfl
  | first :: second :: rest =>
    simp only
    cases literalValues? (first :: second :: rest) <;> rfl

theorem run_ofInstance (name : String) (parameters : List TypeParameter)
    (arguments : List TypeNode) (plan : Instance → Plan) :
    (ofInstance name parameters arguments plan).run self ctx =
      Resolve.ofOutcome (Instance.of name parameters arguments) >>= fun i =>
        (plan i).run self ctx := by
  unfold ofInstance
  cases Instance.of name parameters arguments <;> rfl

theorem run_ofDeclaration (arguments : List TypeNode) (d : Declaration) :
    (ofDeclaration arguments ctx d).run self ctx = declared self arguments ctx d := by
  cases d with
  | ofEnum decl =>
    simp only [ofDeclaration, declared, enumType]
    cases enumValues decl.name decl.members .zero with
    | error e => rfl
    | ok values => cases h : ctx.extractEnum <;> rfl
  | ofAlias decl =>
    rw [ofDeclaration, run_ofInstance, declared]
    congr
    funext i
    cases decl.value.substitute i.bindings with
    | object members index => simp only [run, buildAlias_eq]
    | _ => rfl
  | ofInterface decl =>
    rw [ofDeclaration, run_ofInstance, declared]
    simp only [run, buildInterface_eq]
  | ofClass decl =>
    rw [ofDeclaration, run_ofInstance, declared]
    simp only [run, buildClass_eq]

theorem run_ofName (p : Program) (name : String) (arguments : List TypeNode) :
    (ofName p name arguments ctx).run self ctx = named p self name arguments ctx := by
  unfold ofName named
  cases builtin? name arguments ctx with
  | some b => cases b <;> rfl
  | none =>
    simp only
    cases declarationOf p name with
    | error e => rfl
    | ok declaration => exact run_ofDeclaration self ctx arguments declaration

end Plan

theorem step_eq_run (p : Program) (self : Recursor) (node : TypeNode) (ctx : ResolveContext) :
    step p self node ctx = (plan p node ctx).run self ctx := by
  cases node with
  | union members => exact (Plan.run_ofUnion self ctx members).symm
  | reference name arguments => exact (Plan.run_ofName self ctx p name arguments).symm
  | _ => rfl

theorem resolve_zero (p : Program) (node : TypeNode) (ctx : ResolveContext) (s : ResolverState) :
    (resolve p 0 node ctx).runFrom s = none := rfl

theorem resolve_succ (p : Program) (depth : Nat) (node : TypeNode) (ctx : ResolveContext) :
    resolve p (depth + 1) node ctx = (plan p node ctx).run (resolve p depth) ctx :=
  step_eq_run p (resolve p depth) node ctx

theorem resolve_congr {p p' : Program} (h : ∀ node ctx, plan p node ctx = plan p' node ctx)
    (depth : Nat) : resolve p depth = resolve p' depth := by
  induction depth with
  | zero => rfl
  | succ depth ih =>
    funext node ctx
    rw [resolve_succ, resolve_succ, ih, h]

/-- What holds at the end of a call holds when carrying out a plan shows it, given that it holds of
the calls that the plan makes. -/
theorem resolve_ends {p : Program}
    {Q : TypeNode → ResolveContext → ResolverState → Outcome ApiType → ResolverState → Prop}
    (h : ∀ self : Recursor, (∀ node ctx s, (self node ctx).Ends s (Q node ctx s)) →
      ∀ node ctx s, ((plan p node ctx).run self ctx).Ends s (Q node ctx s)) (depth : Nat) :
    ∀ node ctx s, (resolve p depth node ctx).Ends s (Q node ctx s) := by
  induction depth with
  | zero =>
    intro node ctx s r s' hrun
    simp [resolve_zero] at hrun
  | succ depth ih =>
    intro node ctx s
    rw [resolve_succ]
    exact h _ ih node ctx s

end DecoratedApi.Resolver
