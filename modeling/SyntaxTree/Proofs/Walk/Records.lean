import SyntaxTree.Proofs.Node.Kernel
import SyntaxTree.Proofs.Node.Untagged
import SyntaxTree.Proofs.Walk.EventTexts

/-! The records of a tree and a walk through it. Under the names of its roles, and nowhere else, the
record of a node holds the records of its children, so a document is made of records as the tree is
made of nodes, and its kinds stand in the order in which a walk enters the nodes. -/

set_option autoImplicit false

namespace SyntaxTree

namespace Json

def heldBy : Json → List Json
  | .null => []
  | .arr items => items
  | value => [value]

/-- The records under the names of roles, in the order of the document. -/
def nodeRecords : Json → List Json
  | .obj members => (members.filter (holdsNodes ·.1)).flatMap fun member => heldBy member.2
  | _ => []

def at? : Json → Path → Option Json
  | value, [] => some value
  | value, i :: path =>
    match value.nodeRecords[i]? with
    | none => none
    | some record => record.at? path

end Json

open Json

namespace Event

def entered? : Event → Option NodeKind
  | .enterNode kind => some kind
  | _ => none

end Event

namespace Node

theorem record_members (tagged : Bool) (node : Node) : node.record tagged =
    .obj ((head tagged node.kind node.info ++ node.valueMembers) ++ node.slotMembers tagged) := by
  rw [record_eq, List.append_assoc]

theorem filter_apart {α : Type} {p : α → Bool} {xs ys : List α} (hxs : ∀ x ∈ xs, p x = false)
    (hys : ∀ y ∈ ys, p y = true) :
    (xs ++ ys).filter p = ys ∧ (xs ++ ys).filter (!p ·) = xs := by
  have hnone : xs.filter p = [] := List.filter_eq_nil_iff.2 fun x h => by simp [hxs x h]
  have hall : xs.filter (!p ·) = xs := List.filter_eq_self.2 fun x h => by simp [hxs x h]
  have hnone' : ys.filter (!p ·) = [] := List.filter_eq_nil_iff.2 fun y h => by simp [hys y h]
  rw [List.filter_append, List.filter_append, hnone, List.filter_eq_self.2 hys, hall, hnone']
  simp

theorem holdsNodes_slotMembers {tagged : Bool} {node : Node} {member : String × Json}
    (h : member ∈ node.slotMembers tagged) : holdsNodes member.1 = true := by
  obtain ⟨slot, -, rfl⟩ := mem_slotMembers.1 h
  exact slot.1.holdsNodes_name

theorem holdsNodes_head {tagged : Bool} {node : Node} {member : String × Json}
    (h : member ∈ head tagged node.kind node.info ++ node.valueMembers) :
    holdsNodes member.1 = false := by
  have hown : member = node.tag ∨ member ∈ node.ownMembers := by
    cases tagged with
    | true => exact List.mem_cons.1 h
    | false => exact .inr h
  rcases hown with rfl | hown
  · show holdsNodes "Kind" = false
    decide
  · exact holdsNodes_ownMembers hown

theorem filter_members (tagged : Bool) (node : Node) :
    ((head tagged node.kind node.info ++ node.valueMembers) ++ node.slotMembers tagged).filter
      (holdsNodes ·.1) = node.slotMembers tagged ∧
    ((head tagged node.kind node.info ++ node.valueMembers) ++ node.slotMembers tagged).filter
      (!holdsNodes ·.1) = head tagged node.kind node.info ++ node.valueMembers :=
  filter_apart (fun _ h => holdsNodes_head h) (fun _ h => holdsNodes_slotMembers h)

theorem heldBy_record (tagged : Bool) (node : Node) :
    heldBy (node.record tagged) = [node.record tagged] := by
  rw [record_members]
  rfl

theorem heldBy_slot (tagged : Bool) (slot : Slot) :
    heldBy (slot.record tagged) = slot.children.map (record tagged) := by
  cases slot with
  | single o =>
    cases o with
    | none => rfl
    | some child => exact heldBy_record tagged child
  | list items => rfl

theorem nodeRecords_record (tagged : Bool) (node : Node) :
    (node.record tagged).nodeRecords = node.children.map (record tagged) := by
  rw [record_members, nodeRecords, (node.filter_members tagged).1, slotMembers, List.flatMap_map,
    children, List.map_flatMap]
  exact List.flatMap_congr fun slot _ => heldBy_slot tagged slot.2

theorem at?_record (tagged : Bool) (root : Node) (path : Path) :
    (root.record tagged).at? path = (root.at? path).map (record tagged) := by
  induction path generalizing root with
  | nil => rfl
  | cons i path ih =>
    rw [Json.at?, Node.at?, nodeRecords_record, List.getElem?_map]
    cases root.children[i]? with
    | none => rfl
    | some child => exact ih child

theorem entered_slotEvents {slot : Role × Slot} (h : ∀ child ∈ slot.2.children,
      child.events.filterMap Event.entered? = child.nodes.map kind) :
    (slotEvents slot).filterMap Event.entered? =
      slot.2.children.flatMap fun child => child.nodes.map kind := by
  have hchildren : (slot.2.children.flatMap events).filterMap Event.entered? =
      slot.2.children.flatMap fun child => child.nodes.map kind := by
    rw [List.filterMap_flatMap]
    exact List.flatMap_congr h
  cases hw : slot.2.isWalked with
  | true =>
    rw [slotEvents, if_pos hw, List.filterMap_cons_none rfl, List.filterMap_append, hchildren]
    simp [Event.entered?]
  | false => simp [slotEvents, hw, children_of_skipped hw]

theorem entered_events (node : Node) :
    node.events.filterMap Event.entered? = node.nodes.map kind := by
  induction node using Node.induction with
  | step node ih =>
    have hslots : (node.slots.flatMap slotEvents).filterMap Event.entered? =
        node.children.flatMap fun child => child.nodes.map kind := by
      rw [List.filterMap_flatMap, children, List.flatMap_assoc]
      exact List.flatMap_congr fun slot hs => entered_slotEvents fun child hc =>
        ih child (mem_children.2 ⟨slot, hs, hc⟩)
    rw [events_eq, nodes_eq]
    simp [Event.entered?, hslots, List.map_flatMap]

/-- The record of a node holds its slots in order, each under the name of its role, and beside them
only what does not depend on them. So the records of a document stand where the nodes of the tree
do, and the kinds in the document are those of the nodes that a walk enters, in order. -/
theorem record_holds_slots (root : Node) :
    (∀ tagged pretty, (root.record tagged).Documents (root.text tagged pretty)) ∧
    (∀ tagged, ∀ node ∈ root.nodes, ∃ members, node.record tagged = .obj members ∧
      members.filter (holdsNodes ·.1) =
        node.slots.map (fun slot => (slot.1.name, slot.2.record tagged)) ∧
      members.filter (!holdsNodes ·.1) = head tagged node.kind node.info ++ node.valueMembers) ∧
    (∀ tagged path, (root.record tagged).at? path = (root.at? path).map (record tagged)) ∧
    (root.record true).tags.map Prod.snd =
      (root.events.filterMap Event.entered?).map (fun kind => .str kind.name) := by
  refine ⟨root.documents_text, fun tagged node _ => ?_,
    fun tagged path => root.at?_record tagged path, ?_⟩
  · exact ⟨_, node.record_members tagged, node.filter_members tagged⟩
  · rw [tags_record, entered_events, List.map_map, List.map_map]
    rfl

end Node

end SyntaxTree
