import SyntaxTree.Proofs.Walk.Tours

set_option autoImplicit false

namespace SyntaxTree

/-- Does what handlers do, and every handler writes down the node that its kind and what it was
given make up. -/
def Handlers.logged {σ : Type} (handlers : Handlers σ) : Handlers (σ × List Node) where
  onRoot info stmts state :=
    (handlers.onRoot info stmts state.1, state.2 ++ [.list .root info stmts])
  onStmtList info stmts state :=
    (handlers.onStmtList info stmts state.1, state.2 ++ [.list .stmtList info stmts])
  onExpression info expr state :=
    (handlers.onExpression info expr state.1, state.2 ++ [.wrapper .expression info expr])
  onNullable info expr state :=
    (handlers.onNullable info expr state.1, state.2 ++ [.wrapper .nullable info expr])
  onParameter info byRef variadic type var defaultValue state :=
    (handlers.onParameter info byRef variadic type var defaultValue state.1,
      state.2 ++ [.parameter info byRef variadic type var defaultValue])
  onIdentifier info value state :=
    (handlers.onIdentifier info value state.1, state.2 ++ [.leaf .identifier info value])
  onVariable info varName state :=
    (handlers.onVariable info varName state.1, state.2 ++ [.wrapper .variable info varName])
  onName info parts state :=
    (handlers.onName info parts state.1, state.2 ++ [.list .name info parts])
  onNamePart info value state :=
    (handlers.onNamePart info value state.1, state.2 ++ [.leaf .namePart info value])
  onFunctionCall info function argumentList state :=
    (handlers.onFunctionCall info function argumentList state.1,
      state.2 ++ [.functionCall info function argumentList])
  onArgumentList info arguments state :=
    (handlers.onArgumentList info arguments state.1,
      state.2 ++ [.list .argumentList info arguments])
  onArgument info variadic isReference expr state :=
    (handlers.onArgument info variadic isReference expr state.1,
      state.2 ++ [.argument info variadic isReference expr])
  onNumberLiteral info value state :=
    (handlers.onNumberLiteral info value state.1, state.2 ++ [.leaf .numberLiteral info value])
  onIntegerLiteral info value state :=
    (handlers.onIntegerLiteral info value state.1, state.2 ++ [.leaf .integerLiteral info value])
  onStringLiteral info value state :=
    (handlers.onStringLiteral info value state.1, state.2 ++ [.leaf .stringLiteral info value])

/-- A node is given to the one handler that writes down that node. -/
theorem Node.accept_logged {σ : Type} (handlers : Handlers σ) (node : Node)
    (state : σ × List Node) : node.accept handlers.logged state =
      (node.accept handlers state.1, state.2 ++ [node]) := by
  cases node with
  | list kind info items => cases kind <;> rfl
  | wrapper kind info child => cases kind <;> rfl
  | leaf kind info value => cases kind <;> rfl
  | parameter info byRef variadic type var defaultValue => rfl
  | functionCall info function argumentList => rfl
  | argument info variadic isReference expr => rfl

/-- A visitor that gives every node to its handler, with what it does before and after that and at
the other hooks. -/
structure Dispatcher (σ : Type) where
  handlers : Handlers σ := {}
  before : Node → σ → σ := fun _ state => state
  after : Node → σ → Descent × σ := fun _ state => (.descend, state)
  leaveNode : Node → σ → σ := fun _ state => state
  enterRole : Role → (isList : Bool) → σ → σ := fun _ _ state => state
  leaveRole : Role → (isList : Bool) → σ → σ := fun _ _ state => state

namespace Dispatcher

variable {σ : Type} (dispatcher : Dispatcher σ)

def visitor : Visitor σ where
  handlers := dispatcher.handlers
  enterNode node state :=
    dispatcher.after node (node.accept dispatcher.handlers (dispatcher.before node state))
  leaveNode := dispatcher.leaveNode
  enterRole := dispatcher.enterRole
  leaveRole := dispatcher.leaveRole

def logged : Dispatcher (σ × List Node) where
  handlers := dispatcher.handlers.logged
  before node state := (dispatcher.before node state.1, state.2)
  after node state :=
    ((dispatcher.after node state.1).1, (dispatcher.after node state.1).2, state.2)
  leaveNode node state := (dispatcher.leaveNode node state.1, state.2)
  enterRole role isList state := (dispatcher.enterRole role isList state.1, state.2)
  leaveRole role isList state := (dispatcher.leaveRole role isList state.1, state.2)

theorem enterNode_logged (node : Node) (state : σ × List Node) :
    dispatcher.logged.visitor.enterNode node state =
      ((dispatcher.visitor.enterNode node state.1).1,
        (dispatcher.visitor.enterNode node state.1).2, state.2 ++ [node]) := by
  simp [visitor, logged, Node.accept_logged]

theorem logged_extends : dispatcher.logged.visitor.Extends Prod.fst dispatcher.visitor := by
  constructor
  · intro node state
    rw [enterNode_logged]
  · exact fun _ _ => rfl
  · exact fun _ _ _ => rfl
  · exact fun _ _ _ => rfl

/-- Whether a visitor passes the nodes down to a depth and no others, where its state tells at which
depth it stands. -/
structure StopsAt (greatest : Option Nat) (standsAt : Nat → σ → Prop) : Prop where
  enterNode : ∀ {depth state} (node : Node), standsAt depth state →
    (dispatcher.visitor.enterNode node state).1 =
      (if greatest.all (depth < ·) then .descend else .skip) ∧
    standsAt (depth + 1) (dispatcher.visitor.enterNode node state).2
  leaveNode : ∀ {depth state} (node : Node), standsAt (depth + 1) state →
    standsAt depth (dispatcher.leaveNode node state)
  enterRole : ∀ {depth state} (role : Role) (isList : Bool), standsAt depth state →
    standsAt depth (dispatcher.enterRole role isList state)
  leaveRole : ∀ {depth state} (role : Role) (isList : Bool), standsAt depth state →
    standsAt depth (dispatcher.leaveRole role isList state)

end Dispatcher

namespace Node

/-- The nodes of a tree that stand no deeper than allowed, if its root stands at a depth. -/
def nodesWithin (greatest : Option Nat) (depth : Nat) (node : Node) : List Node :=
  (node.places.filter fun place => greatest.all (depth + place.depth ≤ ·)).map Place.node

variable {greatest : Option Nat} {depth : Nat}

theorem nodesWithin_eq_map (node : Node) : node.nodesWithin greatest depth =
    ((node.places.map fun place => (place.node, depth + place.depth)).filter
      fun entry => greatest.all (entry.2 ≤ ·)).map Prod.fst := by
  rw [nodesWithin, List.filter_map, List.map_map]
  rfl

theorem nodesWithin_eq (h : greatest.all (depth ≤ ·) = true) (node : Node) :
    node.nodesWithin greatest depth =
      node :: node.children.flatMap (·.nodesWithin greatest (depth + 1)) := by
  have hunder (i : Nat) (place : Place) :
      ((place.under i).node, depth + (place.under i).depth) =
        (place.node, depth + 1 + place.depth) := by
    simp only [Place.under, Place.depth, List.length_cons, Prod.mk.injEq, true_and]
    omega
  have hchildren : (placesFrom 0 (node.children.map places)).map
      (fun place => (place.node, depth + place.depth)) = node.children.flatMap fun child =>
        child.places.map fun place => (place.node, depth + 1 + place.depth) := by
    rw [map_placesFrom hunder, List.flatMap_map]
  rw [nodesWithin_eq_map, places_eq, List.map_cons, List.filter_cons_of_pos (by exact h),
    List.map_cons, hchildren, List.filter_flatMap, List.map_flatMap]
  simp only [nodesWithin_eq_map]

theorem nodesWithin_deeper (h : greatest.all (depth < ·) = false) (node : Node) :
    node.nodesWithin greatest (depth + 1) = [] := by
  cases greatest with
  | none => cases h
  | some m =>
    have hm : m ≤ depth := by simpa using h
    have hdeeper (place : Place) : ¬ depth + 1 + place.depth ≤ m := by omega
    simp [nodesWithin, hdeeper]

end Node

namespace Dispatcher.StopsAt

variable {σ : Type} {dispatcher : Dispatcher σ} {greatest : Option Nat}
  {standsAt : Nat → σ → Prop}

theorem logged_closed (h : dispatcher.StopsAt greatest standsAt) :
    Walk.Closed dispatcher.logged.visitor dispatcher.logged.visitor fun depth nodes walk _ =>
      greatest.all (depth ≤ ·) = true → ∀ run : Walk (σ × List Node),
        standsAt depth run.state.1 → standsAt depth (walk run).state.1 ∧
          (walk run).state.2 = run.state.2 ++ nodes.flatMap (·.nodesWithin greatest depth) where
  nil _ run hat := ⟨hat, (List.append_nil _).symm⟩
  append := by
    intro depth nodes more walk next _ _ hwalk hnext hdepth run hat
    obtain ⟨hat, hlog⟩ := hwalk hdepth run hat
    obtain ⟨hat, hmore⟩ := hnext hdepth (walk run) hat
    refine ⟨hat, ?_⟩
    rw [hmore, hlog, List.append_assoc, List.flatMap_append]
  role := by
    intro depth nodes walk _ role isList hwalk hdepth run hat
    obtain ⟨hat, hlog⟩ := hwalk hdepth
      (run.call (dispatcher.logged.visitor.enterRole role isList)) (h.enterRole role isList hat)
    exact ⟨h.leaveRole role isList hat, hlog⟩
  node := by
    intro depth walk _ node hwalk hdepth run hat
    obtain ⟨hanswer, hentered⟩ := h.enterNode node hat
    have henter := dispatcher.enterNode_logged node run.state
    rw [List.flatMap_singleton, Node.nodesWithin_eq hdepth]
    cases hdeepest : greatest.all (depth < ·) with
    | true =>
      rw [hanswer, hdeepest] at henter
      have hbelow : greatest.all (depth + 1 ≤ ·) = true := hdeepest
      obtain ⟨hleft, hlog⟩ := hwalk hbelow
        ⟨((dispatcher.visitor.enterNode node run.state.1).2, run.state.2 ++ [node]),
          run.summary.enter depth⟩ hentered
      rw [Walk.node_descend henter]
      exact ⟨h.leaveNode node hleft, hlog.trans (List.append_assoc ..)⟩
    | false =>
      -- the node itself is handled, and all that stands below it is too deep
      rw [hanswer, hdeepest] at henter
      rw [Walk.node_skip henter]
      refine ⟨h.leaveNode node hentered, ?_⟩
      simp [Node.nodesWithin_deeper hdeepest, Dispatcher.visitor, Dispatcher.logged]

theorem traverse_logged (h : dispatcher.StopsAt greatest standsAt) (state : σ)
    (hat : standsAt 0 state) (root : Node) :
    (root.traverse dispatcher.logged.visitor (state, [])).state =
      ((root.traverse dispatcher.visitor state).state, root.nodesWithin greatest 0) := by
  have hdepth : greatest.all (0 ≤ ·) = true := by cases greatest <;> simp
  have hstate := Node.walk_map dispatcher.logged_extends root 0 ⟨(state, []), {}⟩
  obtain ⟨-, hlog⟩ := h.logged_closed.walk root 0 hdepth ⟨(state, []), {}⟩ hat
  rw [List.flatMap_singleton] at hlog
  exact Prod.ext (congrArg Walk.state hstate).symm hlog

end Dispatcher.StopsAt

theorem Dispatcher.stopsAt_none {σ : Type} (handlers : Handlers σ) :
    ({ handlers } : Dispatcher σ).StopsAt none fun _ _ => True where
  enterNode _ _ := ⟨rfl, trivial⟩
  leaveNode _ _ := trivial
  enterRole _ _ _ := trivial
  leaveRole _ _ _ := trivial

namespace Listing

def dispatcher (options : ListingOptions) : Dispatcher Listing where
  handlers := handlers options
  before node listing := { listing with position := node.position }
  after _ listing := (ListingOptions.descent options listing.depth,
    { listing with level := listing.level + 1, depth := listing.depth + 1 })
  leaveNode := (lister options).leaveNode
  enterRole := (lister options).enterRole
  leaveRole := (lister options).leaveRole

theorem lister_eq (options : ListingOptions) : lister options = (dispatcher options).visitor := rfl

theorem dispatcher_stopsAt (options : ListingOptions) :
    (dispatcher options).StopsAt options.maxDepth fun depth listing => listing.depth = depth := by
  have hextends := lister_extends options
  rw [lister_eq] at hextends
  constructor
  · rintro _ listing node rfl
    have henter := hextends.enterNode node listing
    have hanswer := congrArg Prod.fst henter
    have hdepth := congrArg Prod.snd henter
    exact ⟨hanswer.symm.trans (descent_eq options listing.depth), hdepth.symm⟩
  · intro depth listing node hat
    exact congrArg (· - 1) hat
  · intro depth listing role isList hat
    exact (hextends.enterRole role isList listing).symm.trans hat
  · intro depth listing role isList hat
    exact (hextends.leaveRole role isList listing).symm.trans hat

end Listing

/-- A visitor with handlers only has every node of the tree handled, in order, each once and by the
handler of its kind; a lister has those handled that stand no deeper than its options allow. The log
changes nothing in what the visitor does. -/
theorem Node.each_handled_once (root : Node) :
    (∀ {σ : Type} (handlers : Handlers σ) (state : σ),
      (root.traverse { handlers := handlers.logged } (state, [])).state =
        ((root.traverse { handlers } state).state, root.nodes)) ∧
    ∀ (options : ListingOptions) (listing : Listing),
      (root.traverse (Listing.dispatcher options).logged.visitor
          ({ listing with depth := 0 }, [])).state =
        ((root.traverse (Listing.lister options) { listing with depth := 0 }).state,
          (root.places.filter fun place => options.maxDepth.all (place.depth ≤ ·)).map
            Place.node) := by
  constructor
  · intro σ handlers state
    have hlogged := (Dispatcher.stopsAt_none handlers).traverse_logged state trivial root
    have hall : root.nodesWithin none 0 = root.nodes := by simp [nodesWithin, nodes]
    rw [hall] at hlogged
    exact hlogged
  · intro options listing
    have hlogged := (Listing.dispatcher_stopsAt options).traverse_logged
      { listing with depth := 0 } rfl root
    rw [← Listing.lister_eq] at hlogged
    simpa only [nodesWithin, Nat.zero_add] using hlogged

end SyntaxTree
