import Mathlib.Data.List.Basic
import SyntaxTree.Proofs.Node.Places
import SyntaxTree.Proofs.Node.Record

/-! The plain form of a tree is the tagged form without the kinds. Kinds are taken from records of
nodes only: those of the root and of what stands under the name of a role, alone or in an array. -/

set_option autoImplicit false

namespace SyntaxTree

namespace Json

def holdsNodes (key : String) : Bool := (Role.all.map Role.name).contains key

mutual

/-- Deletes the kind that stands first in the record of a node, and in those of all nodes below. -/
def untag : Json → Json
  | .arr items => .arr (untagItems items)
  | .obj members => .obj (untagMembers true members)
  | value => value

def untagItems : List Json → List Json
  | [] => []
  | item :: items => item.untag :: untagItems items

def untagMembers : Bool → List (String × Json) → List (String × Json)
  | _, [] => []
  | isFirst, (key, value) :: members =>
    if isFirst ∧ key = "Kind" then untagMembers false members
    else (key, if holdsNodes key then value.untag else value) :: untagMembers false members

end

mutual

/-- The members that `untag` deletes, in the order of the document. -/
def tags : Json → List (String × Json)
  | .arr items => tagsItems items
  | .obj members => tagsMembers true members
  | _ => []

def tagsItems : List Json → List (String × Json)
  | [] => []
  | item :: items => item.tags ++ tagsItems items

def tagsMembers : Bool → List (String × Json) → List (String × Json)
  | _, [] => []
  | isFirst, (key, value) :: members =>
    if isFirst ∧ key = "Kind" then (key, value) :: tagsMembers false members
    else (if holdsNodes key then value.tags else []) ++ tagsMembers false members

end

theorem untagItems_eq (items : List Json) : untagItems items = items.map untag := by
  induction items with
  | nil => rfl
  | cons item items ih => rw [untagItems, ih, List.map_cons]

theorem tagsItems_eq (items : List Json) : tagsItems items = items.flatMap tags := by
  induction items with
  | nil => rfl
  | cons item items ih => rw [tagsItems, ih, List.flatMap_cons]

def untagMember (member : String × Json) : String × Json :=
  (member.1, if holdsNodes member.1 then member.2.untag else member.2)

def tagsMember (member : String × Json) : List (String × Json) :=
  if holdsNodes member.1 then member.2.tags else []

theorem untagMembers_false (members : List (String × Json)) :
    untagMembers false members = members.map untagMember := by
  induction members with
  | nil => rfl
  | cons member members ih => simp [untagMembers, ih, untagMember]

theorem tagsMembers_false (members : List (String × Json)) :
    tagsMembers false members = members.flatMap tagsMember := by
  induction members with
  | nil => rfl
  | cons member members ih => simp [tagsMembers, ih, tagsMember]

theorem untag_tagged (kind : Json) (members : List (String × Json)) :
    untag (.obj (("Kind", kind) :: members)) = .obj (members.map untagMember) := by
  simp [untag, untagMembers, untagMembers_false]

theorem tags_tagged (kind : Json) (members : List (String × Json)) :
    tags (.obj (("Kind", kind) :: members)) = ("Kind", kind) :: members.flatMap tagsMember := by
  simp [tags, tagsMembers, tagsMembers_false]

end Json

open Json

theorem Role.holdsNodes_name (role : Role) : holdsNodes role.name = true := by
  cases role <;> decide

namespace Node

def ownMembers (node : Node) : List (String × Json) :=
  head false node.kind node.info ++ node.valueMembers

theorem record_tagged (node : Node) : node.record true =
    .obj (("Kind", .str node.kind.name) :: (node.ownMembers ++ node.slotMembers true)) := by
  rw [record_eq, ownMembers, List.append_assoc]
  rfl

theorem record_plain (node : Node) :
    node.record false = .obj (node.ownMembers ++ node.slotMembers false) := by
  rw [record_eq, ownMembers, List.append_assoc]

theorem holdsNodes_ownMembers {node : Node} {member : String × Json}
    (h : member ∈ node.ownMembers) : holdsNodes member.1 = false := by
  have hkey : member.1 ∈ ["FreeFloating", "Position", "Value", "ByRef", "Variadic",
      "IsReference"] := by
    cases node <;> simp [ownMembers, head, valueMembers] at h ⊢ <;> grind
  have hall : ∀ key ∈ ["FreeFloating", "Position", "Value", "ByRef", "Variadic", "IsReference"],
      holdsNodes key = false := by decide
  exact hall _ hkey

theorem untag_ownMembers (node : Node) : node.ownMembers.map untagMember = node.ownMembers := by
  have hm : ∀ member ∈ node.ownMembers, untagMember member = member := by
    intro member hmem
    simp [untagMember, holdsNodes_ownMembers hmem]
  rw [List.map_congr_left hm, List.map_id']

theorem tags_ownMembers (node : Node) : node.ownMembers.flatMap tagsMember = [] := by
  rw [List.flatMap_eq_nil_iff]
  intro member hmem
  simp [tagsMember, holdsNodes_ownMembers hmem]

theorem untag_slot {slot : Slot}
    (h : ∀ child ∈ slot.children, (child.record true).untag = child.record false) :
    (slot.record true).untag = slot.record false := by
  cases slot with
  | single o =>
    cases o with
    | none => rfl
    | some child => exact h child (by simp [Slot.children])
  | list items =>
    have hm : items.map (untag ∘ record true) = items.map (record false) := List.map_congr_left h
    rw [Slot.record, untag, untagItems_eq, List.map_map, hm]
    rfl

theorem tags_slot {slot : Slot} (f : Node → List (String × Json))
    (h : ∀ child ∈ slot.children, (child.record true).tags = f child) :
    (slot.record true).tags = slot.children.flatMap f := by
  cases slot with
  | single o =>
    cases o with
    | none => rfl
    | some child =>
      have hc := h child (by simp [Slot.children])
      simpa [Slot.children, Slot.record, Json.ofOption] using hc
  | list items =>
    rw [Slot.record, tags, tagsItems_eq, List.flatMap_map]
    exact List.flatMap_congr h

theorem untag_record (node : Node) : (node.record true).untag = node.record false := by
  induction node using Node.induction with
  | step node ih =>
    have hslots : (node.slotMembers true).map untagMember = node.slotMembers false := by
      rw [slotMembers, List.map_map]
      refine List.map_congr_left fun slot hs => ?_
      have hslot : (slot.2.record true).untag = slot.2.record false :=
        untag_slot fun child hc => ih child (mem_children.2 ⟨slot, hs, hc⟩)
      simp [untagMember, slot.1.holdsNodes_name, hslot]
    rw [record_tagged, untag_tagged, List.map_append, untag_ownMembers, hslots, record_plain]

def tag (node : Node) : String × Json := ("Kind", .str node.kind.name)

theorem tags_record (node : Node) : (node.record true).tags = node.nodes.map tag := by
  induction node using Node.induction with
  | step node ih =>
    have hslots : (node.slotMembers true).flatMap tagsMember =
        node.children.flatMap fun child => child.nodes.map tag := by
      rw [slotMembers, List.flatMap_map, children, List.flatMap_assoc]
      refine List.flatMap_congr fun slot hs => ?_
      have hslot := tags_slot (fun child => child.nodes.map tag) fun child hc =>
        ih child (mem_children.2 ⟨slot, hs, hc⟩)
      simp [tagsMember, slot.1.holdsNodes_name, hslot]
    rw [record_tagged, tags_tagged, List.flatMap_append, tags_ownMembers, hslots, nodes_eq,
      List.map_cons, List.map_flatMap]
    rfl

/-- In either layout, the tagged document of a tree becomes the plain one when the kinds are
deleted: one for each node, in order, and always the first member of its record. -/
theorem untag_text (node : Node) (pretty : Bool) :
    value node.taggedRecord.nesting (node.text true pretty).toList = .ok (node.taggedRecord, []) ∧
    value node.plainRecord.nesting (node.text false pretty).toList = .ok (node.plainRecord, []) ∧
    node.taggedRecord.untag = node.plainRecord ∧
    node.taggedRecord.untag.text pretty = node.text false pretty ∧
    node.taggedRecord.tags = node.nodes.map (fun n => ("Kind", .str n.kind.name)) ∧
    ∀ n ∈ node.nodes, ∃ members, n.taggedRecord = .obj (("Kind", .str n.kind.name) :: members) ∧
      n.plainRecord = .obj (members.map untagMember) := by
  have htagged := node.value_text true pretty (Nat.le_refl _)
  have hplain := node.value_text false pretty (Nat.le_refl _)
  have huntag : node.taggedRecord.untag = node.plainRecord := node.untag_record
  refine ⟨htagged, hplain, huntag, ?_, node.tags_record, ?_⟩
  · rw [huntag]
    rfl
  · intro n _
    have hn := n.untag_record
    rw [record_tagged, untag_tagged] at hn
    exact ⟨_, n.record_tagged, hn.symm⟩

end Node

end SyntaxTree
