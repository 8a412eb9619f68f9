import SyntaxTree.Proofs.Decoder.Streams
import SyntaxTree.Proofs.Node.Gaps
import SyntaxTree.Proofs.Node.Plain

/-! Reading a record as a node of a kind that is known beforehand. The record of a tree is read as
the tree itself, its tag being a member like any other that no field wants, and as what any other
kind with the same fields makes of it. The plain form is read only of nodes without children, for
children have to name their kinds. -/

set_option autoImplicit false

namespace SyntaxTree

open Json

theorem Decoder.streams_ofOption {α β : Type} {decoder : Decoder α} {write : β → Json}
    {o : Option β} (h : ∀ b ∈ o, decoder.Streams (write b)) :
    decoder.option.Streams (.ofOption write o) := by
  refine Streams.option fun hne => ?_
  cases o with
  | none => exact absurd rfl hne
  | some b => exact h b rfl

theorem Position.streams_record (p : Position) : Position.decoder.Streams p.record := by
  have hn (n : UInt32) := Decoder.streams_uint32 (.ofNat n.toNat)
  exact Form.streams_obj (Form.streamsMember_of_fields (by decide) (.cons (.of (hn _))
    (.cons (.of (hn _)) (.cons (.of (hn _)) (.cons (.of (hn _)) .nil)))))

theorem Token.streams_record (token : Token) : Token.decoder.Streams token.record := by
  have hkind : TokenKind.decoder.Streams (.str token.kind.name) := Alternatives.streams_str _ _
  have hposition : Position.decoder.option.Streams (.ofOption Position.record token.position) :=
    Decoder.streams_ofOption fun p _ => p.streams_record
  exact Form.streams_obj (Form.streamsMember_of_fields (by decide)
    (.cons (.of hkind) (.cons (.of (Decoder.streams_string _)) (.cons (.of hposition) .nil))))

namespace Node

theorem formOf_streams {α : Type} {kind : NodeKind} (info : Metadata) {blank : α}
    {fields : List (Field (Metadata × α))} {members : List (String × Json)}
    (h : List.Forall₂ Field.StreamsMember fields members) :
    List.Forall₂ Field.StreamsMember (formOf kind blank fields).fields
      (head false kind info ++ members) := by
  have htokens : Token.decoder.list.option.Streams (.ofOption Token.records info.freeFloating) :=
    Decoder.streams_ofOption fun tokens _ => Decoder.Streams.list fun v hv => by
      obtain ⟨token, -, rfl⟩ := List.mem_map.1 hv
      exact token.streams_record
  have hposition : Position.decoder.option.Streams (.ofOption Position.record info.position) :=
    Decoder.streams_ofOption fun p _ => p.streams_record
  exact .cons (.of htokens) (.cons (.of hposition) h)

variable {child : Decoder Node} {levels : Nat} {tagged : Bool}

theorem kindForm_streams (node : Node) (h : ∀ c ∈ node.children, child.Streams (c.record tagged)) :
    List.Forall₂ Field.StreamsMember (kindForm child node.kind).form.fields
      (node.ownMembers ++ node.slotMembers tagged) := by
  have hflag (b : Bool) := Decoder.streams_flag (.bool b)
  have hchild {o : Option Node} (ho : ∀ c ∈ o.toList, c ∈ node.children) :
      child.option.Streams (.ofOption (record tagged) o) :=
    Decoder.streams_ofOption fun c hc => h c (ho c (by simpa using hc))
  rw [ownMembers, List.append_assoc]
  cases node with
  | list kind info items =>
    have hitems : child.list.Streams (.arr (items.map (record tagged))) :=
      Decoder.Streams.list fun v hv => by
        obtain ⟨c, hc, rfl⟩ := List.mem_map.1 hv
        exact h c (by simpa using hc)
    exact formOf_streams info (.cons (.of hitems) .nil)
  | wrapper kind info c => exact formOf_streams info (.cons (.of (hchild (by simp))) .nil)
  | leaf kind info value =>
    exact formOf_streams info (.cons (.of (Decoder.streams_string _)) .nil)
  | parameter info byRef variadic type var defaultValue =>
    exact formOf_streams info (.cons (.of (hflag _)) (.cons (.of (hflag _))
      (.cons (.of (hchild (by simp +contextual))) (.cons (.of (hchild (by simp +contextual)))
        (.cons (.of (hchild (by simp +contextual))) .nil)))))
  | functionCall info function argumentList =>
    exact formOf_streams info (.cons (.of (hchild (by simp +contextual)))
      (.cons (.of (hchild (by simp +contextual))) .nil))
  | argument info variadic isReference expr =>
    exact formOf_streams info (.cons (.of (hflag _)) (.cons (.of (hflag _))
      (.cons (.of (hchild (by simp))) .nil)))

theorem find?_kind (levels : Nat) (kind : NodeKind) :
    (kindForm (decoderWithin levels) kind).form.fields.find? (·.key = "Kind") = none := by
  have hkeys := (kindForm_matches levels kind).keys
  rw [List.find?_eq_none]
  intro field hfield
  have hmem := List.mem_map_of_mem (f := Field.key) hfield
  rw [hkeys] at hmem
  have hne : field.key ≠ "Kind" := fun he => kind_not_mem_fieldEntries kind (he ▸ hmem)
  simpa using hne

theorem namesForm_either (fields : NodeKind → Json → Except Problem Node) (tagged : Bool)
    (node : Node) : (Node.tagged fields).NamesForm (node.record tagged) := by
  cases tagged with
  | true => exact namesForm_record fields node
  | false =>
    rw [record_plain]
    intro member hmember hkey
    have hkind : "Kind" = member.1 := hkey.symm
    exact absurd (hkind ▸ List.mem_map_of_mem hmember) node.kind_not_mem_plain

theorem streams_record (levels : Nat) (tagged : Bool) (node : Node) :
    (decoderWithin levels).Streams (node.record tagged) := by
  cases levels with
  | zero => exact Tagged.streams (namesForm_either _ tagged node)
  | succ levels => exact Tagged.streams (namesForm_either _ tagged node)

theorem streamsMember (levels : Nat) (tagged : Bool) (node : Node) :
    ∀ member ∈ node.ownMembers ++ node.slotMembers tagged,
      (kindForm (decoderWithin levels) node.kind).form.StreamsMember member :=
  Form.streamsMember_of_fields (kindForm_orderless _ node.kind).keys
    (kindForm_streams node fun child _ => child.streams_record levels tagged)

theorem fieldDecoder_streams (levels : Nat) (tagged : Bool) (node : Node) :
    (fieldDecoder (decoderWithin levels) node.kind).Streams
      (.obj (node.ownMembers ++ node.slotMembers tagged)) := by
  rw [fieldDecoder_eq]
  exact (Form.streams_obj (node.streamsMember levels tagged)).map _

theorem fieldDecoder_streams_named (levels : Nat) (tagged : Bool) (name : String) (node : Node) :
    (fieldDecoder (decoderWithin levels) node.kind).Streams
      (.obj (("Kind", .str name) :: (node.ownMembers ++ node.slotMembers tagged))) := by
  rw [fieldDecoder_eq]
  refine (Form.streams_obj (List.forall_mem_cons.2 ⟨.inr ?_, ?_⟩)).map _
  · exact ⟨find?_kind levels node.kind, str_isSkipped name⟩
  · exact node.streamsMember levels tagged

theorem fieldDecoder_kind (kind : NodeKind) (v : Json) (members : List (String × Json)) :
    (fieldDecoder (decoderWithin levels) kind).Alike (.obj (("Kind", v) :: members))
      (.obj members) := by
  refine fieldDecoder_alike (Form.ofJson_obj_congr (kindForm_orderless _ kind) ?_)
  intro field hfield
  have hne : "Kind" ≠ field.key := by
    simpa [eq_comm] using List.find?_eq_none.1 (find?_kind levels kind) field hfield
  exact .of_eq (under_cons_ne hne v members)

theorem exists_of_keys (node : Node) {kind : NodeKind}
    (h : kind.fieldEntries.map Entry.key = node.kind.fieldEntries.map Entry.key) :
    ∃ other : Node, other.kind = kind ∧ other.info = node.info ∧
      other.valueMembers = node.valueMembers ∧ other.slots = node.slots := by
  have hkinds := NodeKind.exchangeable_iff.2 h
  cases kind <;> cases node <;>
    simp [Node.kind, NodeKind.Exchangeable, NodeKind.groups] at hkinds
  case list.list kind kind' info items =>
    have hrole : kind.role.name = kind'.role.name := by
      simpa [Node.kind, NodeKind.fieldEntries, NodeKind.ownEntries, Entry.items] using h
    exact ⟨.list kind info items, rfl, rfl, rfl, by rw [slots, slots, Role.name_inj hrole]⟩
  case wrapper.wrapper kind kind' info child =>
    have hrole : kind.role.name = kind'.role.name := by
      simpa [Node.kind, NodeKind.fieldEntries, NodeKind.ownEntries, Entry.ifAny] using h
    exact ⟨.wrapper kind info child, rfl, rfl, rfl, by rw [slots, slots, Role.name_inj hrole]⟩
  case leaf.leaf kind kind' info value => exact ⟨.leaf kind info value, rfl, rfl, rfl, rfl⟩
  all_goals exact ⟨_, rfl, rfl, rfl, rfl⟩

theorem ofJson_plain (node other : Node) :
    (decoderWithin levels).ofJson (node.record false) ≠ .ok other := by
  have hopened {fields : NodeKind → Json → Except Problem Node} :
      (Node.tagged fields).decoder.ofJson (node.record false) ≠ .ok other := by
    have huntagged : (Node.tagged fields).tag ∉
        (node.ownMembers ++ node.slotMembers false).map Prod.fst := node.kind_not_mem_plain
    have hmembers := Tagged.foldlM_takeMember huntagged ⟨none, []⟩
    rw [record_plain]
    simp [Tagged.decoder, hmembers]
  cases levels with
  | zero => exact hopened
  | succ levels => exact hopened

theorem slotMembers_childless {node : Node} (h : node.children = []) :
    node.slotMembers false = node.slotMembers true := by
  refine List.map_congr_left fun slot hslot => ?_
  have hnone : slot.2.children = [] := List.flatMap_eq_nil_iff.1 h slot hslot
  obtain ⟨role, slot⟩ := slot
  cases slot with
  | single o =>
    cases o with
    | none => rfl
    | some child => cases hnone
  | list items =>
    cases items with
    | nil => rfl
    | cons item items => cases hnone

/-- What a node has under a role is not read in the plain form, unless it is nothing. -/
theorem Slot.children_of_plain {slot read : Slot}
    (h : (Slot.decoder levels slot.isList).ofJson (slot.record false) = .ok read) :
    slot.children = [] := by
  cases slot with
  | single o =>
    cases o with
    | none => rfl
    | some child =>
      obtain ⟨o, ho, -⟩ := Decoder.map_ofJson_iff.1 h
      have hread : (decoderWithin levels).option.ofJson (child.record false) = .ok o := ho
      rw [Decoder.option_ofJson_some (child.record_ne_null false), bind_eq_ok] at hread
      obtain ⟨other, hother, -⟩ := hread
      exact absurd hother (child.ofJson_plain other)
  | list items =>
    obtain ⟨nodes, hnodes, -⟩ := Decoder.map_ofJson_iff.1 h
    cases items with
    | nil => rfl
    | cons item items =>
      cases Decoder.list_ofJson_arr_iff.1 hnodes with
      | cons hitem _ => exact absurd hitem (item.ofJson_plain _)

theorem fieldDecoder_plain_iff {node other : Node} :
    (fieldDecoder (decoderWithin levels) node.kind).ofJson (node.record false) = .ok other ↔
      node.children = [] ∧ other = node := by
  have hchildless (h : node.children = []) :
      (fieldDecoder (decoderWithin levels) node.kind).ofJson (node.record false) = .ok node := by
    have hread : (fieldDecoder (decoderWithin levels) node.kind).ofJson (.obj
        (head false node.kind node.info ++ (node.valueMembers ++ node.slotMembers true))) =
          .ok node := node.fieldDecoder_ofJson (by simp [h])
    rwa [← slotMembers_childless h, ← record_eq] at hread
  constructor
  · intro hread
    have hnone : node.children = [] := by
      refine List.flatMap_eq_nil_iff.2 fun slot hslot => ?_
      have hmem : (slot.1.name, slot.2.record false) ∈ node.slotMembers false :=
        mem_slotMembers.2 ⟨slot, hslot, rfl⟩
      -- what is read as a record has been read member by member
      obtain ⟨before, after, hsplit⟩ :=
        List.append_of_mem (List.mem_append_right node.ownMembers hmem)
      rw [record_plain, hsplit] at hread
      obtain ⟨read, hslotread, -⟩ := slot_of_fieldDecoder (entry_of_mem hslot) hread
      exact Slot.children_of_plain hslotread
    rw [hchildless hnone] at hread
    exact ⟨hnone, (Except.ok.inj hread).symm⟩
  · rintro ⟨hnone, rfl⟩
    exact hchildless hnone

theorem nesting_plain_le (node : Node) :
    (node.record false).nesting ≤ (node.record true).nesting := by
  induction node using Node.induction with
  | step node ih =>
    rw [record_plain, record_tagged]
    refine Nat.succ_le_succ (nestingMembers_le_iff.2 fun member hmember => ?_)
    rcases List.mem_append.1 hmember with hown | hrole
    · exact nesting_le_members (List.mem_cons_of_mem _ (List.mem_append_left _ hown))
    · obtain ⟨⟨role, slot⟩, hslot, rfl⟩ := mem_slotMembers.1 hrole
      have hmem : (role.name, slot.record true) ∈ node.slotMembers true :=
        mem_slotMembers.2 ⟨(role, slot), hslot, rfl⟩
      have hchild (child : Node) (hc : child ∈ slot.children) :
          (child.record false).nesting ≤ (child.record true).nesting :=
        ih child (mem_children.2 ⟨(role, slot), hslot, hc⟩)
      have hle : (slot.record false).nesting ≤ (slot.record true).nesting := by
        cases slot with
        | single o =>
          cases o with
          | none => exact Nat.le_refl _
          | some child => exact hchild child (by simp [Slot.children])
        | list items =>
          refine Nat.succ_le_succ (nestingItems_le_iff.2 fun v hv => ?_)
          obtain ⟨item, hitem, rfl⟩ := List.mem_map.1 hv
          exact (hchild item hitem).trans (nesting_le_items (List.mem_map_of_mem hitem))
      exact hle.trans (nesting_le_members
        (List.mem_cons_of_mem _ (List.mem_append_right _ hmem)))

theorem read_tagged {node other : Node} (h : (node.record true).nesting ≤ nestingLimit)
    (pretty : Bool) (hown : other.ownMembers = node.ownMembers)
    (hslots : other.slots = node.slots) :
    (decoderOf other.kind).read (node.text true pretty) = .ok other := by
  have hmembers : other.slotMembers true = node.slotMembers true := by
    rw [slotMembers, slotMembers, hslots]
  have hrecord : node.record true = .obj (("Kind", .str node.kind.name) ::
      (other.ownMembers ++ other.slotMembers true)) := by
    rw [hown, hmembers, record_tagged]
  have hstreams := other.fieldDecoder_streams_named nestingLimit true node.kind.name
  rw [← hrecord] at hstreams
  rw [decoderOf, decoder, hstreams.read_iff (node.value_text true pretty h) rfl, hrecord,
    fieldDecoder_kind, ownMembers, List.append_assoc]
  refine other.fieldDecoder_ofJson fun c hc => decoderWithin_ofJson ?_
  have hchild : c ∈ node.children := by rwa [children, ← hslots]
  exact Nat.le_of_lt ((nesting_child_lt true hchild).trans_le h)

/-- What the texts of a node are read as by the kind, without asking for a tag. -/
structure ReadsByKind (node : Node) (pretty : Bool) : Prop where
  tagged : ofText (node.text true pretty) = .ok node
  own : (decoderOf node.kind).read (node.text true pretty) = .ok node
  others : ∀ kind : NodeKind,
    kind.fieldEntries.map Entry.key = node.kind.fieldEntries.map Entry.key →
    ∃ other, (decoderOf kind).read (node.text true pretty) = .ok other ∧ other.kind = kind ∧
      other.info = node.info ∧ other.valueMembers = node.valueMembers ∧ other.slots = node.slots
  plain : ∀ other, (decoderOf node.kind).read (node.text false pretty) = .ok other ↔
    node.children = [] ∧ other = node

/-- The tagged text of a tree is read as the tree if the kind is its own, and as the node with the
same in all fields if the kind has the same fields. The plain text is read as the tree if it has no
children, and else not at all. -/
theorem decoderOf_text {node : Node} (h : (node.record true).nesting ≤ 127) (pretty : Bool) :
    node.ReadsByKind pretty := by
  refine ⟨ofText_text_of_le h pretty, read_tagged h pretty rfl rfl, fun kind hkeys => ?_,
    fun other => ?_⟩
  · obtain ⟨other, rfl, hinfo, hvalues, hslots⟩ := node.exists_of_keys hkeys
    have hown : other.ownMembers = node.ownMembers := by
      rw [ownMembers, ownMembers, hvalues, hinfo]
      rfl
    exact ⟨other, read_tagged h pretty hown hslots, rfl, hinfo, hvalues, hslots⟩
  · have hstreams := node.fieldDecoder_streams nestingLimit false
    rw [← record_plain] at hstreams
    rw [decoderOf, decoder,
      hstreams.read_iff (node.value_text false pretty (node.nesting_plain_le.trans h)) rfl,
      fieldDecoder_plain_iff]

def statements : Node :=
  .list .stmtList { freeFloating := some [⟨.comment, "#", none⟩] } [.leaf .identifier {} "a"]

theorem statements_read : (statements.record true).nesting ≤ 127 ∧
    (decoderOf (.list .stmtList)).read (statements.text true true) = .ok statements ∧
    (∃ other, (decoderOf (.list .root)).read (statements.text true true) = .ok other ∧
      other.kind = .list .root ∧ other.slots = statements.slots) ∧
    (decoderOf (.list .stmtList)).read (statements.text false true) ≠ .ok statements := by
  have hnesting : (statements.record true).nesting ≤ 127 := by decide
  obtain ⟨-, hown, hothers, hplain⟩ := decoderOf_text hnesting true
  obtain ⟨other, hread, hkind, -, -, hslots⟩ := hothers (.list .root) rfl
  exact ⟨hnesting, hown, ⟨other, hread, hkind, hslots⟩, fun h => by cases ((hplain _).1 h).1⟩

end Node

end SyntaxTree
