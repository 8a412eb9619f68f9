import SyntaxTree.Node.Record
import SyntaxTree.Proofs.Json.Written
import SyntaxTree.Proofs.Node.Children

set_option autoImplicit false

namespace SyntaxTree

namespace Json

theorem nestingItems_le_iff {items : List Json} {n : Nat} :
    nestingItems items ≤ n ↔ ∀ item ∈ items, item.nesting ≤ n := by
  induction items with
  | nil => simp [nestingItems]
  | cons item items ih => simp only [nestingItems, Nat.max_le, ih, List.forall_mem_cons]

theorem nestingMembers_le_iff {members : List (String × Json)} {n : Nat} :
    nestingMembers members ≤ n ↔ ∀ member ∈ members, member.2.nesting ≤ n := by
  induction members with
  | nil => simp [nestingMembers]
  | cons member members ih =>
    simp only [nestingMembers, Nat.max_le, ih, List.forall_mem_cons]

theorem nesting_le_items {item : Json} {items : List Json} (h : item ∈ items) :
    item.nesting ≤ nestingItems items := nestingItems_le_iff.1 (Nat.le_refl _) item h

theorem nesting_le_members {member : String × Json} {members : List (String × Json)}
    (h : member ∈ members) : member.2.nesting ≤ nestingMembers members :=
  nestingMembers_le_iff.1 (Nat.le_refl _) member h

theorem nesting_item_lt {item : Json} {items : List Json} (h : item ∈ items) :
    item.nesting < (Json.arr items).nesting := Nat.lt_succ_of_le (nesting_le_items h)

theorem nesting_member_lt {member : String × Json} {members : List (String × Json)}
    (h : member ∈ members) : member.2.nesting < (Json.obj members).nesting :=
  Nat.lt_succ_of_le (nesting_le_members h)

theorem wholeItems_iff {items : List Json} : WholeItems items ↔ ∀ item ∈ items, item.Whole := by
  induction items with
  | nil => simp [WholeItems]
  | cons item items ih => simp [WholeItems, ih]

theorem wholeMembers_iff {members : List (String × Json)} :
    WholeMembers members ↔ ∀ member ∈ members, member.2.Whole := by
  induction members with
  | nil => simp [WholeMembers]
  | cons member members ih => simp [WholeMembers, ih]

theorem Whole.arr {items : List Json} (h : ∀ item ∈ items, item.Whole) : (Json.arr items).Whole :=
  wholeItems_iff.2 h

theorem Whole.obj {members : List (String × Json)} (h : ∀ member ∈ members, member.2.Whole) :
    (Json.obj members).Whole := wholeMembers_iff.2 h

theorem whole_ofOption {α : Type} {write : α → Json} {o : Option α}
    (h : ∀ a ∈ o, (write a).Whole) : (Json.ofOption write o).Whole := by
  cases o with
  | none => trivial
  | some a => exact h a rfl

theorem whole_ofNat {n : Nat} (h : n ≤ collectable) : (Json.ofNat n).Whole :=
  ⟨Int.natCast_nonneg n, Int.ofNat_le.2 h⟩

end Json

theorem Position.record_whole (p : Position) : p.record.Whole := by
  have hn (n : UInt32) : (Json.ofNat n.toNat).Whole :=
    Json.whole_ofNat (Nat.le_trans (Nat.le_of_lt n.toNat_lt) (by decide))
  exact ⟨hn _, hn _, hn _, hn _, trivial⟩

theorem Token.record_whole (token : Token) : token.record.Whole :=
  ⟨trivial, trivial, Json.whole_ofOption fun p _ => p.record_whole, trivial⟩

theorem Token.records_whole (tokens : List Token) : (Token.records tokens).Whole :=
  Json.Whole.arr fun value hv => by
    obtain ⟨token, -, rfl⟩ := List.mem_map.1 hv
    exact token.record_whole

namespace Node

theorem plainRecords_eq (nodes : List Node) : plainRecords nodes = nodes.map (record false) := by
  induction nodes with
  | nil => rfl
  | cons node nodes ih =>
    rw [plainRecords, ih]
    rfl

theorem plainChild_eq (o : Option Node) : plainChild o = .ofOption (record false) o := by
  cases o <;> rfl

theorem taggedRecords_eq (nodes : List Node) : taggedRecords nodes = nodes.map (record true) := by
  induction nodes with
  | nil => rfl
  | cons node nodes ih =>
    rw [taggedRecords, ih]
    rfl

theorem taggedChild_eq (o : Option Node) : taggedChild o = .ofOption (record true) o := by
  cases o <;> rfl

def head (tagged : Bool) (kind : NodeKind) (info : Metadata) : List (String × Json) :=
  (if tagged then [("Kind", .str kind.name)] else []) ++ [
    ("FreeFloating", .ofOption Token.records info.freeFloating),
    ("Position", .ofOption Position.record info.position)]

def valueMembers : Node → List (String × Json)
  | .leaf _ _ value => [("Value", .str value)]
  | .parameter _ byRef variadic _ _ _ => [("ByRef", .bool byRef), ("Variadic", .bool variadic)]
  | .argument _ variadic isReference _ =>
    [("Variadic", .bool variadic), ("IsReference", .bool isReference)]
  | _ => []

def Slot.record (tagged : Bool) : Slot → Json
  | .single child => .ofOption (Node.record tagged) child
  | .list items => .arr (items.map (Node.record tagged))

/-- The members of a node for its children, one for each role. -/
def slotMembers (tagged : Bool) (node : Node) : List (String × Json) :=
  node.slots.map fun (role, slot) => (role.name, slot.record tagged)

theorem plainRecord_eq (node : Node) : node.plainRecord =
    .obj (node.info.members ++ (node.valueMembers ++ node.slotMembers false)) := by
  cases node with
  | list kind info items =>
    have hitems := plainRecords_eq items
    cases kind <;> rw [plainRecord, hitems] <;> rfl
  | wrapper kind info child =>
    have hchild := plainChild_eq child
    cases kind <;> rw [plainRecord, hchild] <;> rfl
  | leaf kind info value => cases kind <;> rfl
  | parameter info byRef variadic type var defaultValue =>
    rw [plainRecord, plainChild_eq type, plainChild_eq var, plainChild_eq defaultValue]
    rfl
  | functionCall info function argumentList =>
    rw [plainRecord, plainChild_eq function, plainChild_eq argumentList]
    rfl
  | argument info variadic isReference expr =>
    rw [plainRecord, plainChild_eq expr]
    rfl

theorem taggedFields_eq (node : Node) :
    node.taggedFields = node.valueMembers ++ node.slotMembers true := by
  cases node with
  | list kind info items =>
    have hitems := taggedRecords_eq items
    cases kind <;> rw [taggedFields, hitems] <;> rfl
  | wrapper kind info child =>
    have hchild := taggedChild_eq child
    cases kind <;> rw [taggedFields, hchild] <;> rfl
  | leaf kind info value => cases kind <;> rfl
  | parameter info byRef variadic type var defaultValue =>
    rw [taggedFields, taggedChild_eq type, taggedChild_eq var, taggedChild_eq defaultValue]
    rfl
  | functionCall info function argumentList =>
    rw [taggedFields, taggedChild_eq function, taggedChild_eq argumentList]
    rfl
  | argument info variadic isReference expr =>
    rw [taggedFields, taggedChild_eq expr]
    rfl

/-- Both writers write the values of a node and then its slots, each under the name of its role. -/
theorem record_eq (tagged : Bool) (node : Node) : node.record tagged =
    .obj (head tagged node.kind node.info ++ (node.valueMembers ++ node.slotMembers tagged)) := by
  cases tagged with
  | false => exact node.plainRecord_eq
  | true =>
    rw [record, taggedRecord, taggedFields_eq]
    rfl

theorem mem_slotMembers {tagged : Bool} {node : Node} {member : String × Json} :
    member ∈ node.slotMembers tagged ↔
      ∃ slot ∈ node.slots, (slot.1.name, slot.2.record tagged) = member := List.mem_map

theorem slot_nesting {tagged : Bool} {slot : Slot} {child : Node} (h : child ∈ slot.children) :
    (child.record tagged).nesting ≤ (slot.record tagged).nesting := by
  cases slot with
  | single o =>
    cases o with
    | none => simp [Slot.children] at h
    | some node =>
      have hc : child = node := by simpa [Slot.children] using h
      rw [hc]
      exact Nat.le_refl _
  | list items =>
    have hc : child.record tagged ∈ items.map (record tagged) := List.mem_map_of_mem h
    exact Nat.le_of_lt (Json.nesting_item_lt hc)

theorem nesting_child_lt (tagged : Bool) {node child : Node} (h : child ∈ node.children) :
    (child.record tagged).nesting < (node.record tagged).nesting := by
  obtain ⟨slot, hs, hc⟩ := mem_children.1 h
  have hm : (slot.1.name, slot.2.record tagged) ∈
      head tagged node.kind node.info ++ (node.valueMembers ++ node.slotMembers tagged) := by
    have hslot : (slot.1.name, slot.2.record tagged) ∈ node.slotMembers tagged :=
      mem_slotMembers.2 ⟨slot, hs, rfl⟩
    exact List.mem_append_right _ (List.mem_append_right _ hslot)
  have hlt := Json.nesting_member_lt hm
  have hle : (child.record tagged).nesting ≤ (slot.2.record tagged).nesting := slot_nesting hc
  rw [record_eq tagged node]
  exact Nat.lt_of_le_of_lt hle hlt

theorem head_whole {tagged : Bool} {kind : NodeKind} {info : Metadata} {member : String × Json}
    (h : member ∈ head tagged kind info) : member.2.Whole := by
  have hf : (Json.ofOption Token.records info.freeFloating).Whole :=
    Json.whole_ofOption fun tokens _ => Token.records_whole tokens
  have hp : (Json.ofOption Position.record info.position).Whole :=
    Json.whole_ofOption fun p _ => p.record_whole
  cases tagged with
  | true =>
    simp only [head, if_true, List.cons_append, List.nil_append, List.mem_cons,
      List.not_mem_nil, or_false] at h
    rcases h with rfl | rfl | rfl
    · trivial
    · exact hf
    · exact hp
  | false =>
    simp only [head, Bool.false_eq_true, if_false, List.nil_append, List.mem_cons,
      List.not_mem_nil, or_false] at h
    rcases h with rfl | rfl
    · exact hf
    · exact hp

theorem valueMembers_whole {node : Node} {member : String × Json}
    (h : member ∈ node.valueMembers) : member.2.Whole := by
  cases node <;> simp [valueMembers] at h
  case leaf => rw [h]; trivial
  case parameter => rcases h with rfl | rfl <;> trivial
  case argument => rcases h with rfl | rfl <;> trivial

theorem record_whole (tagged : Bool) (node : Node) : (node.record tagged).Whole := by
  induction node using Node.induction with
  | step node ih =>
    rw [record_eq]
    refine Json.Whole.obj fun member hm => ?_
    rcases List.mem_append.1 hm with hm | hm
    · exact head_whole hm
    rcases List.mem_append.1 hm with hm | hm
    · exact valueMembers_whole hm
    · obtain ⟨⟨role, slot⟩, hs, rfl⟩ := mem_slotMembers.1 hm
      have hchild (child : Node) (hc : child ∈ slot.children) : (child.record tagged).Whole :=
        ih child (mem_children.2 ⟨_, hs, hc⟩)
      cases slot with
      | single o =>
        refine Json.whole_ofOption fun child hc => hchild child ?_
        simpa [Slot.children] using hc
      | list items =>
        refine Json.Whole.arr fun value hv => ?_
        obtain ⟨child, hc, rfl⟩ := List.mem_map.1 hv
        exact hchild child hc

/-- Both texts of a tree, in either form, are read as its record. -/
theorem value_text (node : Node) (tagged pretty : Bool) {depth : Nat}
    (h : (node.record tagged).nesting ≤ depth) :
    Json.value depth (node.text tagged pretty).toList = .ok (node.record tagged, []) :=
  Json.value_text (node.record_whole tagged) h pretty

end Node

end SyntaxTree
