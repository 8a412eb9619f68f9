import SyntaxTree.Proofs.Walk.Calls

set_option autoImplicit false

namespace SyntaxTree

inductive Entered where
  | node (node : Node)
  | role (role : Role) (isList : Bool)
  deriving DecidableEq

/-- What is open after a call, the innermost first. Only the innermost can be left. -/
def Entered.step : List Entered → Call → Option (List Entered)
  | entered, .enterNode target _ => some (.node target :: entered)
  | .node target :: entered, .leaveNode other => if other = target then some entered else none
  | entered, .enterRole name isList => some (.role name isList :: entered)
  | .role name isList :: entered, .leaveRole other otherIsList =>
    if other = name ∧ otherIsList = isList then some entered else none
  | _, _ => none

def Call.Balanced (calls : List Call) : Prop := calls.foldlM Entered.step [] = some []

inductive Frame where
  | node (node : Node) (slots : List (Role × Node.Slot))
  | role (role : Role) (isList : Bool) (children : List Node)

namespace Frame

def ofNode (target : Node) : Descent → Frame
  | .descend => .node target (target.slots.filter (·.2.isWalked))
  | .skip => .node target []

/-- What is open after a call, the innermost first. A role is entered when it is the next of its
node and left when nothing remains of its children; a child is entered when it is the next of its
role and left when nothing remains of its roles. -/
def step : List Frame → Call → Option (List Frame)
  | .role name isList (child :: children) :: frames, .enterNode target answer =>
    if target = child then some (ofNode target answer :: .role name isList children :: frames)
    else none
  | .node target [] :: frames, .leaveNode other => if other = target then some frames else none
  | .node target (slot :: slots) :: frames, .enterRole name isList =>
    if name = slot.1 ∧ isList = slot.2.isList then
      some (.role name isList slot.2.children :: .node target slots :: frames)
    else none
  | .role name isList [] :: frames, .leaveRole other otherIsList =>
    if other = name ∧ otherIsList = isList then some frames else none
  | _, _ => none

def entered : Frame → Entered
  | .node target _ => .node target
  | .role name isList _ => .role name isList

@[simp] theorem node_entered (target : Node) (slots : List (Role × Node.Slot)) :
    (node target slots).entered = .node target := rfl

@[simp] theorem role_entered (name : Role) (isList : Bool) (children : List Node) :
    (role name isList children).entered = .role name isList := rfl

@[simp] theorem ofNode_entered (target : Node) (answer : Descent) :
    (ofNode target answer).entered = .node target := by cases answer <;> rfl

theorem step_entered {frames next : List Frame} {call : Call} (h : step frames call = some next) :
    Entered.step (frames.map entered) call = some (next.map entered) := by
  unfold step at h
  split at h
  · split at h
    · cases h
      simp [Entered.step]
    · cases h
  · split at h
    · next he =>
      cases h
      simp [Entered.step, he]
    · cases h
  · split at h
    · cases h
      simp [Entered.step]
    · cases h
  · split at h
    · next he =>
      cases h
      simp [Entered.step, he]
    · cases h
  · cases h

theorem steps_entered {frames next : List Frame} {calls : List Call}
    (h : calls.foldlM step frames = some next) :
    calls.foldlM Entered.step (frames.map entered) = some (next.map entered) := by
  induction calls generalizing frames with
  | nil =>
    cases h
    rfl
  | cons call calls ih =>
    rw [List.foldlM_cons, Option.bind_eq_bind, Option.bind_eq_some_iff] at h ⊢
    obtain ⟨between, hstep, hrest⟩ := h
    exact ⟨_, step_entered hstep, ih hrest⟩

end Frame

namespace Node

def Follows (node : Node) (calls : List Call) : Prop :=
  ∃ answer rest, calls = .enterNode node answer :: rest ∧
    rest.foldlM Frame.step [Frame.ofNode node answer] = some []

theorem Follows.balanced {node : Node} {calls : List Call} (h : node.Follows calls) :
    Call.Balanced calls := by
  obtain ⟨answer, rest, rfl, hrest⟩ := h
  have hs := Frame.steps_entered hrest
  rw [List.map_singleton, Frame.ofNode_entered] at hs
  exact hs

def Closes (node : Node) : Prop := ∀ (skips : Skips) (frames : List Frame),
  (node.callsInside skips).foldlM Frame.step (.ofNode node (skips.answer []) :: frames) =
    some frames

theorem listCalls_steps {nodes : List Node} (h : ∀ node ∈ nodes, node.Closes) (skips : Skips)
    (i : Nat) (role : Role) (isList : Bool) (frames : List Frame) :
    (listCalls skips i nodes).foldlM Frame.step (.role role isList nodes :: frames) =
      some (.role role isList [] :: frames) := by
  induction nodes generalizing i with
  | nil => rfl
  | cons node nodes ih =>
    have hrest := ih (fun n hn => h n (List.mem_cons_of_mem _ hn)) (i + 1)
    have hfirst := h node (by simp) (skips.below i) (.role role isList nodes :: frames)
    simp [listCalls_cons, calls_eq, List.foldlM_append, Frame.step, hfirst, hrest]

theorem slotCalls_steps {slots : List (Role × Slot)}
    (h : ∀ slot ∈ slots, ∀ child ∈ slot.2.children, child.Closes) (skips : Skips) (i : Nat)
    (node : Node) (frames : List Frame) :
    (slotCalls skips i slots).foldlM Frame.step
        (.node node (slots.filter (·.2.isWalked)) :: frames) = some (.node node [] :: frames) := by
  induction slots generalizing i with
  | nil => rfl
  | cons slot slots ih =>
    have hrest := ih (fun s hs => h s (List.mem_cons_of_mem _ hs)) (i + slot.2.children.length)
    cases hw : slot.2.isWalked with
    | false => simpa [slotCalls_cons, roleCalls, hw] using hrest
    | true =>
      have hchildren := listCalls_steps (h slot (by simp)) skips i slot.1 slot.2.isList
        (.node node (slots.filter (·.2.isWalked)) :: frames)
      simp [slotCalls_cons, roleCalls, hw, Frame.step, List.foldlM_append, hchildren, hrest]

theorem closes (node : Node) : node.Closes := by
  induction node using Node.induction with
  | step node ih =>
    intro skips frames
    cases hs : skips [] with
    | true => simp [callsInside, Skips.answer, hs, Frame.ofNode, Frame.step]
    | false =>
      have hchildren : ∀ slot ∈ node.slots, ∀ child ∈ slot.2.children, child.Closes :=
        fun slot hslot child hc => ih child (mem_children.2 ⟨slot, hslot, hc⟩)
      have hslots := slotCalls_steps hchildren skips 0 node frames
      simp [callsInside, Skips.answer, hs, Frame.ofNode, List.foldlM_append, hslots, Frame.step]

theorem calls_follow (node : Node) (skips : Skips) : node.Follows (node.calls skips) :=
  ⟨_, _, calls_eq node skips, node.closes skips []⟩

end Node

end SyntaxTree
