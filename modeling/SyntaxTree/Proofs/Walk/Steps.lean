import SyntaxTree.Walk.Traversal
import SyntaxTree.Proofs.Node.Children

/-! Walks, for all kinds at once: what is walked of a node are its slots, one after another. What
holds of a whole walk follows from what one node and one role keep. So a visitor that does at every
hook what another does, and more, is taken along the same walk. -/

set_option autoImplicit false

namespace SyntaxTree

namespace Summary

def enter (summary : Summary) (depth : Nat) : Summary :=
  { summary with
    nodesEntered := summary.nodesEntered + 1
    maxDepth := max summary.maxDepth depth }

def skip (summary : Summary) : Summary :=
  { summary with nodesSkipped := summary.nodesSkipped + 1 }

end Summary

namespace Walk

variable {σ : Type} {visitor : Visitor σ} {target : Node}

theorem node_descend {run : Walk σ} {state : σ}
    (h : visitor.enterNode target run.state = (.descend, state)) (depth : Nat)
    (children : Walk σ → Walk σ) : node visitor target depth children run =
      (children ⟨state, run.summary.enter depth⟩).call (visitor.leaveNode target) := by
  simp [node, h, Summary.enter]

theorem node_skip {run : Walk σ} {state : σ}
    (h : visitor.enterNode target run.state = (.skip, state)) (depth : Nat)
    (children : Walk σ → Walk σ) : node visitor target depth children run =
      ⟨visitor.leaveNode target state, (run.summary.enter depth).skip⟩ := by
  simp [node, h, call, Summary.enter, Summary.skip]

end Walk

/-- Whether a walk enters the role of a slot: a role for one child needs the child. -/
def Node.Slot.isWalked : Node.Slot → Bool
  | .single none => false
  | .single (some _) => true
  | .list _ => true

namespace Node

variable {σ τ : Type} (visitor : Visitor σ)

def walkSlot (slot : Role × Slot) (depth : Nat) (run : Walk σ) : Walk σ :=
  if slot.2.isWalked then
    Walk.role visitor slot.1 slot.2.isList (walkList visitor slot.2.children depth) run
  else run

def walkSlots : List (Role × Slot) → Nat → Walk σ → Walk σ
  | [], _, run => run
  | slot :: slots, depth, run => walkSlots slots depth (walkSlot visitor slot depth run)

theorem children_of_skipped {slot : Slot} (h : slot.isWalked = false) : slot.children = [] := by
  cases slot with
  | single o =>
    cases o with
    | none => rfl
    | some node => cases h
  | list items => cases h

theorem walkOption_eq (role : Role) (o : Option Node) (depth : Nat) (run : Walk σ) :
    walkOption visitor role o depth run = walkSlot visitor (role, .single o) depth run := by
  cases o <;> rfl

theorem walk_eq (node : Node) (depth : Nat) (run : Walk σ) :
    node.walk visitor depth run =
      Walk.node visitor node depth (walkSlots visitor node.slots (depth + 1)) run := by
  cases node with
  | list kind info items => rfl
  | wrapper kind info child =>
    have hwalk : walkOption visitor kind.role child (depth + 1) =
        walkSlots visitor [(kind.role, .single child)] (depth + 1) := by
      funext run
      exact walkOption_eq visitor _ _ _ _
    rw [walk, hwalk]
    rfl
  | leaf kind info value => rfl
  | parameter info byRef variadic type var defaultValue =>
    simp [walk, walkOption_eq, slots, walkSlots]
  | functionCall info function argumentList => simp [walk, walkOption_eq, slots, walkSlots]
  | argument info variadic isReference expr =>
    have hwalk : walkOption visitor .expr expr (depth + 1) =
        walkSlots visitor [(.expr, .single expr)] (depth + 1) := by
      funext run
      exact walkOption_eq visitor _ _ _ _
    rw [walk, hwalk]
    rfl

end Node

/-- A relation between the walks of two visitors through the same nodes, one after another. It is
closed if it holds of the walks through a node whenever it holds of those through its children, with
roles entered and left on the way. -/
structure Walk.Closed {σ τ : Type} (visitor : Visitor σ) (other : Visitor τ)
    (R : Nat → List Node → (Walk σ → Walk σ) → (Walk τ → Walk τ) → Prop) : Prop where
  nil : ∀ {depth}, R depth [] id id
  append : ∀ {depth nodes more walk next walk' next'},
    R depth nodes walk walk' → R depth more next next' →
    R depth (nodes ++ more) (fun run => next (walk run)) (fun run => next' (walk' run))
  role : ∀ {depth nodes walk walk'} (role : Role) (isList : Bool), R depth nodes walk walk' →
    R depth nodes (Walk.role visitor role isList walk) (Walk.role other role isList walk')
  node : ∀ {depth walk walk'} (node : Node), R (depth + 1) node.children walk walk' →
    R depth [node] (Walk.node visitor node depth walk) (Walk.node other node depth walk')

namespace Walk.Closed

variable {σ τ : Type} {visitor : Visitor σ} {other : Visitor τ}
  {R : Nat → List Node → (Walk σ → Walk σ) → (Walk τ → Walk τ) → Prop}

theorem list (h : Closed visitor other R) {nodes : List Node} {depth : Nat}
    (hwalk : ∀ node ∈ nodes, R depth [node] (node.walk visitor depth) (node.walk other depth)) :
    R depth nodes (Node.walkList visitor nodes depth) (Node.walkList other nodes depth) := by
  induction nodes with
  | nil => exact h.nil
  | cons node nodes ih =>
    exact h.append (hwalk node (by simp)) (ih fun n hn => hwalk n (List.mem_cons_of_mem _ hn))

theorem slots (h : Closed visitor other R) {slots : List (Role × Node.Slot)} {depth : Nat}
    (hwalk : ∀ slot ∈ slots, ∀ node ∈ slot.2.children,
      R depth [node] (node.walk visitor depth) (node.walk other depth)) :
    R depth (slots.flatMap (·.2.children)) (Node.walkSlots visitor slots depth)
      (Node.walkSlots other slots depth) := by
  induction slots with
  | nil => exact h.nil
  | cons slot slots ih =>
    have hslot : R depth slot.2.children (Node.walkSlot visitor slot depth)
        (Node.walkSlot other slot depth) := by
      cases hwalked : slot.2.isWalked with
      | true =>
        have hrole := h.role slot.1 slot.2.isList (h.list (hwalk slot (by simp)))
        have hwalk {υ : Type} (v : Visitor υ) : Node.walkSlot v slot depth =
            Walk.role v slot.1 slot.2.isList (Node.walkList v slot.2.children depth) :=
          funext fun _ => if_pos hwalked
        rw [hwalk, hwalk]
        exact hrole
      | false =>
        have hwalk {υ : Type} (v : Visitor υ) : Node.walkSlot v slot depth = id :=
          funext fun _ => if_neg (by simp [hwalked])
        rw [hwalk, hwalk, Node.children_of_skipped hwalked]
        exact h.nil
    have hslots := h.append hslot (ih fun s hs => hwalk s (List.mem_cons_of_mem _ hs))
    rw [List.flatMap_cons]
    exact hslots

/-- A closed relation holds of the walks through every node. -/
theorem walk (h : Closed visitor other R) (node : Node) (depth : Nat) :
    R depth [node] (node.walk visitor depth) (node.walk other depth) := by
  induction node using Node.induction generalizing depth with
  | step node ih =>
    have hslots : R (depth + 1) node.children (Node.walkSlots visitor node.slots (depth + 1))
        (Node.walkSlots other node.slots (depth + 1)) :=
      h.slots fun slot hs child hc => ih child (Node.mem_children.2 ⟨slot, hs, hc⟩) (depth + 1)
    have hnode := h.node node hslots
    have hwalk {υ : Type} (v : Visitor υ) : node.walk v depth =
        Walk.node v node depth (Node.walkSlots v node.slots (depth + 1)) :=
      funext (node.walk_eq v depth)
    rw [hwalk, hwalk]
    exact hnode

end Walk.Closed

def Walk.map {σ τ : Type} (f : τ → σ) (run : Walk τ) : Walk σ := ⟨f run.state, run.summary⟩

/-- The first visitor does at every hook what the second does with a part of its state. -/
structure Visitor.Extends {σ τ : Type} (f : τ → σ) (more : Visitor τ) (visitor : Visitor σ) :
    Prop where
  enterNode : ∀ node state, visitor.enterNode node (f state) =
    ((more.enterNode node state).1, f (more.enterNode node state).2)
  leaveNode : ∀ node state, visitor.leaveNode node (f state) = f (more.leaveNode node state)
  enterRole : ∀ role isList state,
    visitor.enterRole role isList (f state) = f (more.enterRole role isList state)
  leaveRole : ∀ role isList state,
    visitor.leaveRole role isList (f state) = f (more.leaveRole role isList state)

namespace Node

variable {σ τ : Type} {f : τ → σ} {more : Visitor τ} {visitor : Visitor σ}

theorem map_closed (he : more.Extends f visitor) : Walk.Closed visitor more
    fun _ _ walk walk' => ∀ run : Walk τ, walk (run.map f) = (walk' run).map f where
  nil _ := rfl
  append hwalk hnext run := by simp only [hwalk, hnext]
  role role isList hwalk run := by
    have henter : (run.map f).call (visitor.enterRole role isList) =
        (run.call (more.enterRole role isList)).map f := by
      simp [Walk.call, Walk.map, he.enterRole]
    rw [Walk.role, Walk.role, henter, hwalk]
    simp [Walk.call, Walk.map, he.leaveRole]
  node := by
    intro depth walk walk' node hwalk run
    have henter := he.enterNode node run.state
    cases hm : more.enterNode node run.state with
    | mk descent state =>
      rw [hm] at henter
      cases descent with
      | descend =>
        have hbelow := hwalk ⟨state, run.summary.enter depth⟩
        rw [Walk.node_descend hm, Walk.node_descend henter]
        have hcall (below : Walk τ) : (below.map f).call (visitor.leaveNode node) =
            (below.call (more.leaveNode node)).map f := by
          simp [Walk.call, Walk.map, he.leaveNode]
        rw [← hcall, ← hbelow]
        rfl
      | skip =>
        rw [Walk.node_skip hm, Walk.node_skip henter]
        simp [Walk.map, he.leaveNode]

/-- Seen through the part of the state, the walk of the visitor that does more is that of the
other. -/
theorem walk_map (he : more.Extends f visitor) (node : Node) (depth : Nat) (run : Walk τ) :
    node.walk visitor depth (run.map f) = (node.walk more depth run).map f :=
  (map_closed he).walk node depth run

end Node

end SyntaxTree
