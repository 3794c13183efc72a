import DecoratedApi.Proofs.Operations

/-!
# The table of routes

Controllers and metadata are added to a document one after the other. What this comes to is told by
the list of all visible methods, in the order in which they are added: under a path and a verb
stands the last one that belongs there, and the paths stand in the order of their first ones. The
responses of an operation follow the same rule.
-/

namespace DecoratedApi

namespace OpenApi

/-! ## Additions -/

/-- The controller with its visible methods only. -/
def withoutHidden (c : Controller) : Controller :=
  { c with methods := c.methods.filter (!·.hidden) }

/-- A call that adds to a document. -/
inductive Addition
  | controller (c : Controller)
  | metadata (m : Metadata)

namespace Addition

def apply (doc : Document) : Addition → Document
  | controller c => doc.addController c
  | metadata m => doc.addMetadata m

/-- The controllers whose methods are added, in order. -/
def controllers : Addition → List Controller
  | controller c => [c]
  | metadata m => m.controllers

/-- The addition without its hidden methods. -/
def visible : Addition → Addition
  | controller c => controller (withoutHidden c)
  | metadata m => metadata { m with controllers := m.controllers.map withoutHidden }

end Addition

/-- The document that several additions make of an empty one. -/
def Document.ofAdditions (info : Info) (additions : List Addition) : Document :=
  additions.foldl Addition.apply { info }

/-- A method that is not hidden, and its path in a document. -/
structure Route where
  path : String
  method : Method

namespace Route

/-- The method belongs under this path and this verb. -/
def standsAt (path : String) (verb : Verb) (r : Route) : Bool :=
  r.path == path && r.method.verb == verb

def ofController (c : Controller) : List Route :=
  (c.methods.filter (!·.hidden)).map fun m => ⟨Document.pathOf c m, m⟩

/-- The visible methods of all controllers, in the order in which they are added. -/
def all (additions : List Addition) : List Route :=
  additions.flatMap fun a => a.controllers.flatMap ofController

/-- Puts the operation of a method in its place. An operation that stands there already is replaced.
-/
def write (paths : OrderedMap PathItem) (r : Route) : OrderedMap PathItem :=
  OrderedMap.set r.path
    (((OrderedMap.find? r.path paths).getD {}).withOperation r.method.verb (operationOf r.method))
    paths

theorem mem_all {additions : List Addition} {r : Route} :
    r ∈ all additions ↔ ∃ a ∈ additions, ∃ c ∈ a.controllers, ∃ m ∈ c.methods,
      m.hidden = false ∧ ⟨Document.pathOf c m, m⟩ = r := by
  simp only [all, ofController, List.mem_flatMap, List.mem_map, List.mem_filter, and_assoc,
    Bool.not_eq_true']

theorem ofController_withoutHidden (c : Controller) :
    ofController (withoutHidden c) = ofController c := by
  simp [ofController, withoutHidden, Document.pathOf]

theorem all_map_visible (additions : List Addition) :
    all (additions.map Addition.visible) = all additions := by
  rw [all, all, List.flatMap_map]
  refine List.flatMap_congr fun a _ => ?_
  cases a with
  | controller c =>
    simp [Addition.visible, Addition.controllers, ofController_withoutHidden]
  | metadata m =>
    simp [Addition.visible, Addition.controllers, List.flatMap_map, ofController_withoutHidden]

end Route

open Route

theorem paths_addController (doc : Document) (c : Controller) :
    (doc.addController c).paths = (ofController c).foldl write doc.paths := by
  rw [ofController, List.foldl_map, List.foldl_filter, Document.addController]
  induction c.methods generalizing doc with
  | nil => rfl
  | cons m rest ih =>
    rw [List.foldl_cons, List.foldl_cons, ih]
    congr 1
    unfold Document.addMethod
    cases m.hidden <;> rfl

theorem paths_foldl_addController (doc : Document) (cs : List Controller) :
    (cs.foldl Document.addController doc).paths =
      (cs.flatMap ofController).foldl write doc.paths := by
  induction cs generalizing doc with
  | nil => rfl
  | cons c rest ih =>
    rw [List.foldl_cons, ih, paths_addController, List.flatMap_cons, List.foldl_append]

theorem paths_apply (doc : Document) (a : Addition) :
    (a.apply doc).paths = (a.controllers.flatMap ofController).foldl write doc.paths := by
  cases a with
  | controller c => exact paths_foldl_addController doc [c]
  | metadata m =>
    rw [Addition.apply, Document.addMetadata, Document.paths_foldl_addDefinition,
      paths_foldl_addController, Addition.controllers]

theorem paths_ofAdditions (info : Info) (additions : List Addition) :
    (Document.ofAdditions info additions).paths = (all additions).foldl write [] := by
  suffices h : ∀ doc : Document,
      (additions.foldl Addition.apply doc).paths = (all additions).foldl write doc.paths from
    h { info }
  intro doc
  induction additions generalizing doc with
  | nil => rfl
  | cons a rest ih =>
    rw [List.foldl_cons, ih, paths_apply, ← List.foldl_append, all, all, List.flatMap_cons]

/-! ## What is found under a path -/

/-- What a document has under a path and a verb. -/
def operationAt (path : String) (verb : Verb) (paths : OrderedMap PathItem) : Option Operation :=
  (OrderedMap.find? path paths).bind (·.operation verb)

theorem operationAt_write (path : String) (verb : Verb) (paths : OrderedMap PathItem) (r : Route) :
    operationAt path verb (write paths r) =
      if r.standsAt path verb then some (operationOf r.method)
      else operationAt path verb paths := by
  rw [operationAt, write, OrderedMap.find?_set, standsAt]
  by_cases hpath : r.path = path
  · subst hpath
    by_cases hverb : r.method.verb = verb
    · subst hverb
      simp [PathItem.operation_withOperation_self]
    · -- The other operations of the path stay; a path that was not there has none.
      simp only [if_true, Option.bind_some,
        PathItem.operation_withOperation_of_ne _ (Ne.symm hverb), operationAt]
      cases OrderedMap.find? r.path paths with
      | none => cases verb <;> simp [hverb, PathItem.operation]
      | some item => simp [hverb]
  · simp [hpath, Ne.symm hpath, operationAt]

theorem operationAt_foldl_write (path : String) (verb : Verb) (rs : List Route) :
    operationAt path verb (rs.foldl write []) =
      (rs.filter (standsAt path verb)).getLast?.map (operationOf ·.method) := by
  rw [foldl_last_write (operationAt_write path verb)]
  simp [operationAt, OrderedMap.find?]

theorem exists_operationAt_iff (path : String) (verb : Verb) (rs : List Route) :
    (∃ op, operationAt path verb (rs.foldl write []) = some op) ↔
      ∃ r ∈ rs, r.path = path ∧ r.method.verb = verb := by
  rw [← Option.isSome_iff_exists, operationAt_foldl_write, Option.isSome_map, List.getLast?_isSome]
  simp [standsAt, List.filter_eq_nil_iff]

theorem exists_operation_of_mem {rs : List Route} {e : String × PathItem}
    (h : e ∈ rs.foldl write []) : ∃ verb op, e.2.operation verb = some op := by
  induction rs using List.reverseRecOn with
  | nil => cases h
  | append_singleton rs r ih =>
    rw [List.foldl_append, List.foldl_cons, List.foldl_nil] at h
    rcases OrderedMap.mem_of_mem_set h with rfl | h
    · exact ⟨r.method.verb, operationOf r.method, PathItem.operation_withOperation_self _ _ _⟩
    · exact ih h

/-! ## The responses of an operation -/

/-- The names of the responses in the order in which they first come, each with the last response of
that name. -/
structure Gathers (rs : List Response) (found : OrderedMap OperationResponse) : Prop where
  names : OrderedMap.keys found = (rs.map (·.name)).eraseDups
  last : ∀ name, OrderedMap.find? name found =
    (rs.filter (·.name == name)).getLast?.map operationResponse

theorem operationOf_gathers (m : Method) : Gathers m.responses (operationOf m).responses where
  names := by
    rw [operationOf, OrderedMap.keys_ofList, OrderedMap.keys, List.map_map]
    rfl
  last := fun name => by
    rw [operationOf, OrderedMap.find?_ofList, List.filter_map, List.getLast?_map, Option.map_map]
    rfl

theorem Gathers.find?_last {rs : List Response} {found : OrderedMap OperationResponse}
    (h : Gathers rs found) {r : Response} (hr : rs.getLast? = some r) :
    OrderedMap.find? r.name found = some (operationResponse r) := by
  -- Nothing comes behind it, so it is the last one of its name as well.
  obtain ⟨before, rfl⟩ := List.getLast?_eq_some_iff.mp hr
  simp [h.last, List.filter_append]

end OpenApi

open OpenApi

/-- However controllers and metadata are added: there is an operation under a path and a verb
exactly when a visible method of an added controller belongs there. It is that of the last such
method, and has its responses under their names, the last one of each name. Paths stand in the order
of their first visible methods, none of them is empty, and hidden methods might as well not be
there. -/
theorem route_table_is_exact (info : Info) (additions : List Addition) :
    (∀ path verb,
      (∃ op, operationAt path verb (Document.ofAdditions info additions).paths = some op) ↔
        ∃ a ∈ additions, ∃ c ∈ a.controllers, ∃ m ∈ c.methods,
          m.hidden = false ∧ "/" ++ Path.join c.path m.path = path ∧ m.verb = verb) ∧
    (∀ path verb op,
      operationAt path verb (Document.ofAdditions info additions).paths = some op →
      ∃ r, ((Route.all additions).filter (Route.standsAt path verb)).getLast? = some r ∧
        op = operationOf r.method ∧ Gathers r.method.responses op.responses ∧
        ∀ last, r.method.responses.getLast? = some last →
          OrderedMap.find? last.name op.responses = some (operationResponse last)) ∧
    OrderedMap.keys (Document.ofAdditions info additions).paths =
      ((Route.all additions).map (·.path)).eraseDups ∧
    (∀ e ∈ (Document.ofAdditions info additions).paths, ∃ verb op, e.2.operation verb = some op) ∧
    (Document.ofAdditions info (additions.map Addition.visible)).paths =
      (Document.ofAdditions info additions).paths := by
  simp only [paths_ofAdditions, Route.all_map_visible]
  refine ⟨fun path verb => ?_, fun path verb op hop => ?_, ?_,
    fun e he => exists_operation_of_mem he, trivial⟩
  · rw [exists_operationAt_iff]
    simp only [Route.mem_all]
    constructor
    · rintro ⟨_, ⟨a, ha, c, hc, m, hm, hidden, rfl⟩, hpath, hverb⟩
      exact ⟨a, ha, c, hc, m, hm, hidden, hpath, hverb⟩
    · rintro ⟨a, ha, c, hc, m, hm, hidden, hpath, hverb⟩
      exact ⟨_, ⟨a, ha, c, hc, m, hm, hidden, rfl⟩, hpath, hverb⟩
  · rw [operationAt_foldl_write, Option.map_eq_some_iff] at hop
    obtain ⟨r, hr, rfl⟩ := hop
    have hgathers := operationOf_gathers r.method
    exact ⟨r, hr, rfl, hgathers, fun last hlast => hgathers.find?_last hlast⟩
  · exact OrderedMap.keys_foldl_set (fun _ r => ⟨_, rfl⟩) _

/-- A method that lists something, with a response of its own beside that of success. -/
def Method.listing (name path : String) (hidden : Bool) : Method :=
  { name, verb := .get, path, parameters := []
    responses := [⟨"200", "All of them", none, none⟩, ⟨"200", "Ok", some .object, none⟩]
    type := .object, security := [], tags := [], hidden, deprecated := false
    description := none, summary := none }

/-- Orders are listed twice under one path, and once where nobody should look. -/
def OpenApi.Addition.orders : List Addition :=
  [.controller
      { name := "Orders", location := "orders.ts", path := "/orders/"
        methods := [.listing "all" "" false, .listing "lost" "lost" true] },
    .metadata
      { controllers := [
          { name := "News", location := "news.ts", path := "orders"
            methods := [.listing "newest" "//" false] }]
        definitions := [] }]

theorem newest_orders_are_listed :
    ∃ op, operationAt "/orders" .get (Document.ofAdditions {} Addition.orders).paths = some op ∧
      op.operationId = "newest" ∧
      OrderedMap.find? "200" op.responses =
        some (operationResponse ⟨"200", "Ok", some .object, none⟩) ∧
      OrderedMap.keys (Document.ofAdditions {} Addition.orders).paths = ["/orders"] := by
  obtain ⟨hfound, hlast, hkeys, -, -⟩ := route_table_is_exact {} Addition.orders
  have hroutes : Route.all Addition.orders =
      [⟨"/orders", .listing "all" "" false⟩, ⟨"/orders", .listing "newest" "//" false⟩] := by rfl
  obtain ⟨op, hop⟩ := (hfound "/orders" .get).mpr
    ⟨_, List.mem_cons_self, _, List.mem_cons_self, _, List.mem_cons_self, rfl, rfl, rfl⟩
  obtain ⟨r, hr, rfl, -, hsuccess⟩ := hlast _ _ _ hop
  rw [hroutes] at hr
  obtain rfl : ⟨"/orders", .listing "newest" "//" false⟩ = r := Option.some.inj hr
  exact ⟨_, hop, rfl, hsuccess _ rfl, by rw [hkeys, hroutes]; rfl⟩

end DecoratedApi
