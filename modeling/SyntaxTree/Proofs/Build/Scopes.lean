import SyntaxTree.Build.TreeBuilder
import SyntaxTree.Proofs.Build.Levels

/-! What a builder is for: lists of nodes within lists. Here every list owns its nodes, and those
that have been taken are marked. Ids are numbers without a bound. -/

set_option autoImplicit false

namespace SyntaxTree

inductive Operation where
  | openList
  | emit (node : Node)
  | alloc (node : Node)
  | take (id : NodeId)
  | closeList
  | finish (root : Node)
  | reset

inductive Reply where
  | done
  | id (id : NodeId)
  | node (result : Except BuildError Node)
  | nodes (result : Except BuildError (List Node))

/-- A node that has been stored, and whether it has been taken. -/
structure Child where
  id : Nat
  node : Node
  taken : Bool

namespace Child

def nodeId (child : Child) : NodeId := ⟨UInt32.ofNat child.id⟩

def content (child : Child) : Option Node := if child.taken then none else some child.node

def release (i : Nat) (child : Child) : Child :=
  if child.id = i then { child with taken := true } else child

theorem content_release (i : Nat) (child : Child) :
    (child.release i).content = if child.id = i then none else child.content := by
  unfold release
  split <;> rfl

@[simp] theorem release_id (i : Nat) (child : Child) : (child.release i).id = child.id := by
  unfold release
  split <;> rfl

@[simp] theorem release_node (i : Nat) (child : Child) : (child.release i).node = child.node := by
  unfold release
  split <;> rfl

@[simp] theorem release_nodeId (i : Nat) (child : Child) :
    (child.release i).nodeId = child.nodeId := by rw [nodeId, release_id, nodeId]

theorem nodeId_index {child : Child} (h : child.id < UInt32.size) :
    child.nodeId.index = child.id := by
  rw [nodeId, NodeId.index, UInt32.toNat_ofNat']
  exact Nat.mod_eq_of_lt h

end Child

/-- Lists of children within lists, the children that stand in no list, and how many nodes have been
stored. -/
structure Scopes where
  levels : Levels Child
  loose : List Child
  stored : Nat

namespace Scopes

def empty : Scopes := ⟨.empty, [], 0⟩

def children (scopes : Scopes) : List Child := scopes.levels.items ++ scopes.loose

def node? (scopes : Scopes) (i : Nat) : Option Node :=
  (scopes.children.find? (·.id = i)).bind Child.content

def release (scopes : Scopes) (i : Nat) : Scopes :=
  { scopes with levels := scopes.levels.map (Child.release i)
                loose := scopes.loose.map (Child.release i) }

def close (scopes : Scopes) : Except BuildError (List Node) × Scopes :=
  match scopes.levels.innermost.find? Child.taken with
  | some child => (.error (.alreadyTaken child.nodeId), scopes)
  | none =>
    (.ok (scopes.levels.innermost.map Child.node), { scopes with levels := scopes.levels.pop })

def step (scopes : Scopes) : Operation → Reply × Scopes
  | .openList => (.done, { scopes with levels := scopes.levels.push })
  | .emit node =>
    let child : Child := ⟨scopes.stored, node, false⟩
    (.id child.nodeId,
      { scopes with levels := scopes.levels.add child, stored := scopes.stored + 1 })
  | .alloc node =>
    let child : Child := ⟨scopes.stored, node, false⟩
    (.id child.nodeId,
      { scopes with loose := scopes.loose ++ [child], stored := scopes.stored + 1 })
  | .take id =>
    if id.index < scopes.stored then
      match scopes.node? id.index with
      | some node => (.node (.ok node), scopes.release id.index)
      | none => (.node (.error (.alreadyTaken id)), scopes)
    else (.node (.error (.unknownNode id)), scopes)
  | .closeList => (.nodes scopes.close.1, scopes.close.2)
  | .finish root =>
    if scopes.levels.scopes.length > 0 then
      (.node (.error (.unbalancedLists scopes.levels.scopes.length)), scopes)
    else (.node (.ok root), empty)
  | .reset => (.done, empty)

def run (scopes : Scopes) : List Operation → List Reply × Scopes
  | [] => ([], scopes)
  | operation :: operations =>
    let (reply, next) := scopes.step operation
    let (replies, last) := next.run operations
    (reply :: replies, last)

/-- Whether fewer than 2 ^ 32 nodes, as many as there are ids, are stored at every moment of a
run. -/
def Fits (scopes : Scopes) : List Operation → Prop
  | [] => scopes.stored < UInt32.size
  | operation :: operations =>
    scopes.stored < UInt32.size ∧ (scopes.step operation).2.Fits operations

theorem step_stored_le (scopes : Scopes) (operation : Operation) :
    (scopes.step operation).2.stored ≤ scopes.stored + 1 := by
  cases operation with
  | openList => exact Nat.le_succ _
  | emit node => exact Nat.le_refl _
  | alloc node => exact Nat.le_refl _
  | take id =>
    simp only [step]
    split
    · split <;> exact Nat.le_succ _
    · exact Nat.le_succ _
  | closeList =>
    simp only [step, close]
    split <;> exact Nat.le_succ _
  | finish root =>
    simp only [step]
    split
    · exact Nat.le_succ _
    · exact Nat.zero_le _
  | reset => exact Nat.zero_le _

theorem fits_of_length {scopes : Scopes} {operations : List Operation}
    (h : scopes.stored + operations.length < UInt32.size) : scopes.Fits operations := by
  induction operations generalizing scopes with
  | nil => exact h
  | cons operation operations ih =>
    rw [List.length_cons] at h
    have hstep := scopes.step_stored_le operation
    exact ⟨by omega, ih (by omega)⟩

structure Valid (scopes : Scopes) : Prop where
  nodup : (scopes.children.map Child.id).Nodup
  lt : ∀ child ∈ scopes.children, child.id < scopes.stored

theorem valid_empty : empty.Valid := ⟨List.nodup_nil, nofun⟩

theorem children_release (scopes : Scopes) (i : Nat) :
    (scopes.release i).children = scopes.children.map (Child.release i) := by
  rw [children, children, List.map_append, release, Levels.items_map]

theorem Valid.release {scopes : Scopes} (h : scopes.Valid) (i : Nat) :
    (scopes.release i).Valid := by
  have hids : (scopes.release i).children.map Child.id = scopes.children.map Child.id := by
    rw [children_release, List.map_map]
    exact List.map_congr_left fun child _ => child.release_id i
  constructor
  · rw [hids]
    exact h.nodup
  · intro child hc
    rw [children_release] at hc
    obtain ⟨old, hold, rfl⟩ := List.mem_map.1 hc
    rw [Child.release_id]
    exact h.lt old hold

theorem Valid.store {scopes next : Scopes} (h : scopes.Valid) {node : Node}
    {taken : Bool} (hc : next.children.Perm (⟨scopes.stored, node, taken⟩ :: scopes.children))
    (hs : next.stored = scopes.stored + 1) : next.Valid := by
  constructor
  · rw [(hc.map Child.id).nodup_iff, List.map_cons, List.nodup_cons]
    refine ⟨fun hmem => ?_, h.nodup⟩
    obtain ⟨child, hchild, he⟩ := List.mem_map.1 hmem
    have hlt := h.lt child hchild
    have hid : child.id = scopes.stored := he
    omega
  · intro child hmem
    rw [hs]
    rcases List.mem_cons.1 (hc.mem_iff.1 hmem) with rfl | hold
    · exact Nat.lt_succ_self _
    · have hlt := h.lt child hold
      omega

theorem children_emit (scopes : Scopes) (child : Child) :
    ((scopes.levels.add child).items ++ scopes.loose).Perm (child :: scopes.children) := by
  rw [Levels.items_add, List.append_assoc]
  exact List.perm_middle

theorem children_alloc (scopes : Scopes) (child : Child) :
    (scopes.levels.items ++ (scopes.loose ++ [child])).Perm (child :: scopes.children) := by
  rw [← List.append_assoc]
  exact List.perm_append_singleton ..

theorem children_pop (scopes : Scopes) : (scopes.levels.pop.items ++ scopes.loose).Sublist
    scopes.children := by
  have hitems := scopes.levels.items_pop
  rw [children, hitems]
  exact (List.sublist_append_left ..).append_right _

theorem Valid.pop {scopes : Scopes} (h : scopes.Valid) :
    Valid { scopes with levels := scopes.levels.pop } := by
  have hs := scopes.children_pop
  exact ⟨h.nodup.sublist (hs.map Child.id), fun child hc => h.lt child (hs.subset hc)⟩

theorem Valid.pop_disjoint {scopes : Scopes} (h : scopes.Valid) {child other : Child}
    (hc : child ∈ scopes.levels.pop.items ++ scopes.loose)
    (ho : other ∈ scopes.levels.innermost) : child.id ≠ other.id := by
  have hnodup := h.nodup
  have hperm : scopes.children.Perm
      ((scopes.levels.pop.items ++ scopes.loose) ++ scopes.levels.innermost) := by
    have hitems := scopes.levels.items_pop
    rw [children, hitems, List.append_assoc, List.append_assoc]
    exact List.perm_append_comm.append_left _
  rw [(hperm.map Child.id).nodup_iff, List.map_append, List.nodup_append] at hnodup
  exact hnodup.2.2 _ (List.mem_map_of_mem hc) _ (List.mem_map_of_mem ho)

end Scopes

end SyntaxTree
