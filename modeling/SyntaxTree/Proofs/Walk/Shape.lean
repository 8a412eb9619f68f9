import Mathlib.Data.List.Forall2
import SyntaxTree.Proofs.Walk.Steps
import SyntaxTree.Walk.Event

set_option autoImplicit false

namespace SyntaxTree

namespace Node

mutual

/-- Whether two trees have nodes of the same kinds at the same places. -/
def SameShape : Node → Node → Prop
  | .list kind _ items, .list kind' _ items' => kind = kind' ∧ SameShapes items items'
  | .wrapper kind _ child, .wrapper kind' _ child' => kind = kind' ∧ SameShapeIfAny child child'
  | .leaf kind _ _, .leaf kind' _ _ => kind = kind'
  | .parameter _ _ _ type var defaultValue, .parameter _ _ _ type' var' defaultValue' =>
    SameShapeIfAny type type' ∧ SameShapeIfAny var var' ∧
      SameShapeIfAny defaultValue defaultValue'
  | .functionCall _ function argumentList, .functionCall _ function' argumentList' =>
    SameShapeIfAny function function' ∧ SameShapeIfAny argumentList argumentList'
  | .argument _ _ _ expr, .argument _ _ _ expr' => SameShapeIfAny expr expr'
  | _, _ => False

def SameShapes : List Node → List Node → Prop
  | [], [] => True
  | node :: nodes, node' :: nodes' => SameShape node node' ∧ SameShapes nodes nodes'
  | _, _ => False

def SameShapeIfAny : Option Node → Option Node → Prop
  | none, none => True
  | some node, some node' => SameShape node node'
  | _, _ => False

end

def SameSlot (slot slot' : Role × Slot) : Prop :=
  slot.1 = slot'.1 ∧ slot.2.isList = slot'.2.isList ∧
    List.Forall₂ SameShape slot.2.children slot'.2.children

theorem sameShapes_iff {nodes nodes' : List Node} :
    SameShapes nodes nodes' ↔ List.Forall₂ SameShape nodes nodes' := by
  induction nodes generalizing nodes' with
  | nil => cases nodes' <;> simp [SameShapes]
  | cons node nodes ih => cases nodes' <;> simp [SameShapes, ih]

theorem sameShapeIfAny_iff {o o' : Option Node} :
    SameShapeIfAny o o' ↔ List.Forall₂ SameShape o.toList o'.toList := by
  cases o <;> cases o' <;> simp [SameShapeIfAny]

theorem sameShape_iff {a b : Node} :
    a.SameShape b ↔ a.kind = b.kind ∧ List.Forall₂ SameSlot a.slots b.slots := by
  cases a <;> cases b <;>
    simp [SameShape, kind, slots, SameSlot, Slot.isList, Slot.children, sameShapes_iff,
      sameShapeIfAny_iff]
  case list.list => rintro rfl; simp
  case wrapper.wrapper => rintro rfl; simp

section

variable (run : Walk (Array Event)) (node : Node) (role : Role) (isList : Bool)

theorem call_enterRole : (run.call (Event.recorder.enterRole role isList)).state.toList =
    run.state.toList ++ [.enterRole role isList] := Array.toList_push

theorem call_leaveRole : (run.call (Event.recorder.leaveRole role isList)).state.toList =
    run.state.toList ++ [.leaveRole role isList] := Array.toList_push

theorem call_leaveNode : (run.call (Event.recorder.leaveNode node)).state.toList =
    run.state.toList ++ [.leaveNode node.kind] := Array.toList_push

end

def slotEvents (slot : Role × Slot) : List Event :=
  if slot.2.isWalked then
    .enterRole slot.1 slot.2.isList ::
      (slot.2.children.flatMap events ++ [.leaveRole slot.1 slot.2.isList])
  else []

theorem walkList_recorder {nodes : List Node} {depth : Nat}
    (h : ∀ node ∈ nodes, ∀ run : Walk (Array Event),
      (node.walk Event.recorder depth run).state.toList = run.state.toList ++ node.events)
    (run : Walk (Array Event)) : (walkList Event.recorder nodes depth run).state.toList =
      run.state.toList ++ nodes.flatMap events := by
  induction nodes generalizing run with
  | nil => simp [walkList]
  | cons node nodes ih =>
    have hfirst := h node (by simp) run
    have hrest := ih (fun n hn => h n (List.mem_cons_of_mem _ hn))
      (node.walk Event.recorder depth run)
    rw [walkList, hrest, hfirst, List.flatMap_cons, List.append_assoc]

theorem walkSlots_recorder {slots : List (Role × Slot)} {depth : Nat}
    (h : ∀ slot ∈ slots, ∀ node ∈ slot.2.children, ∀ run : Walk (Array Event),
      (node.walk Event.recorder depth run).state.toList = run.state.toList ++ node.events)
    (run : Walk (Array Event)) : (walkSlots Event.recorder slots depth run).state.toList =
      run.state.toList ++ slots.flatMap slotEvents := by
  induction slots generalizing run with
  | nil => simp [walkSlots]
  | cons slot slots ih =>
    have hrest := ih (fun s hs => h s (List.mem_cons_of_mem _ hs))
      (walkSlot Event.recorder slot depth run)
    have hslot : (walkSlot Event.recorder slot depth run).state.toList =
        run.state.toList ++ slotEvents slot := by
      unfold walkSlot slotEvents
      split
      · rw [Walk.role, call_leaveRole, walkList_recorder (h slot (by simp)), call_enterRole]
        simp
      · simp
    rw [walkSlots, hrest, hslot, List.flatMap_cons, List.append_assoc]

theorem walk_recorder (node : Node) (depth : Nat) (run : Walk (Array Event)) :
    (node.walk Event.recorder depth run).state.toList = run.state.toList ++
      .enterNode node.kind :: (node.slots.flatMap slotEvents ++ [.leaveNode node.kind]) := by
  induction node using Node.induction generalizing depth run with
  | step node ih =>
    have hevents (child : Node) (hc : child ∈ node.children) (depth : Nat)
        (run : Walk (Array Event)) : (child.walk Event.recorder depth run).state.toList =
          run.state.toList ++ child.events := by
      have hchild := ih child hc
      have hroot := hchild 0 ⟨#[], {}⟩
      rw [hchild, events, traverse, hroot]
      rfl
    have hslots (run : Walk (Array Event)) :
        (walkSlots Event.recorder node.slots (depth + 1) run).state.toList =
          run.state.toList ++ node.slots.flatMap slotEvents :=
      walkSlots_recorder (fun slot hs child hc =>
        hevents child (mem_children.2 ⟨slot, hs, hc⟩) (depth + 1)) run
    rw [walk_eq, Walk.node_descend rfl, call_leaveNode, hslots]
    simp

theorem events_eq (node : Node) : node.events =
    .enterNode node.kind :: (node.slots.flatMap slotEvents ++ [.leaveNode node.kind]) :=
  node.walk_recorder 0 ⟨#[], {}⟩

theorem isWalked_eq (slot : Slot) : slot.isWalked = (slot.isList || !slot.children.isEmpty) := by
  cases slot with
  | single o => cases o <;> rfl
  | list items => rfl

theorem flatMap_events {nodes nodes' : List Node} (h : List.Forall₂ SameShape nodes nodes')
    (he : ∀ node ∈ nodes, ∀ node', node.SameShape node' → node.events = node'.events) :
    nodes.flatMap events = nodes'.flatMap events := by
  induction h with
  | nil => rfl
  | cons h _ ih =>
    have hfirst := he _ (by simp) _ h
    have hrest := ih fun n hn => he n (List.mem_cons_of_mem _ hn)
    rw [List.flatMap_cons, List.flatMap_cons, hfirst, hrest]

theorem SameSlot.slotEvents_eq {slot slot' : Role × Slot} (h : SameSlot slot slot')
    (he : ∀ node ∈ slot.2.children, ∀ node', node.SameShape node' → node.events = node'.events) :
    slotEvents slot = slotEvents slot' := by
  obtain ⟨hrole, hlist, hchildren⟩ := h
  have hevents := flatMap_events hchildren he
  have hempty : slot.2.children.isEmpty = slot'.2.children.isEmpty := by
    have hlength := hchildren.length_eq
    rw [Bool.eq_iff_iff, List.isEmpty_iff_length_eq_zero, hlength,
      List.isEmpty_iff_length_eq_zero]
  simp only [slotEvents, isWalked_eq, hrole, hlist, hevents, hempty]

theorem flatMap_slotEvents {slots slots' : List (Role × Slot)}
    (h : List.Forall₂ SameSlot slots slots') (he : ∀ slot ∈ slots, ∀ node ∈ slot.2.children,
      ∀ node', node.SameShape node' → node.events = node'.events) :
    slots.flatMap slotEvents = slots'.flatMap slotEvents := by
  induction h with
  | nil => rfl
  | cons h _ ih =>
    have hfirst := h.slotEvents_eq (he _ (by simp))
    have hrest := ih fun s hs => he s (List.mem_cons_of_mem _ hs)
    rw [List.flatMap_cons, List.flatMap_cons, hfirst, hrest]

theorem SameShape.events_eq {a b : Node} (h : a.SameShape b) : a.events = b.events := by
  induction a using Node.induction generalizing b with
  | step a ih =>
    obtain ⟨hkind, hslots⟩ := sameShape_iff.1 h
    have hevents := flatMap_slotEvents hslots fun slot hs node hn node' hsame =>
      ih node (mem_children.2 ⟨slot, hs, hn⟩) hsame
    rw [a.events_eq, b.events_eq, hkind, hevents]

end Node

end SyntaxTree
