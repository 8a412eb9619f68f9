import SyntaxTree.Proofs.Decoder.Containers
import SyntaxTree.Proofs.Node.Alike
import SyntaxTree.Proofs.Node.Places

/-! How deep the record of a tree nests that has been read. Nothing is written deeper than it was
read, but for lists: one that is left out is written as an empty array. So a record nests at most
one deeper than the value that its tree was read from, and only where it holds an empty list. -/

set_option autoImplicit false

namespace SyntaxTree

open Json

variable {α β : Type} {m : Nat}

theorem Json.Carries.nesting_le {key : String} {v tag fields : Json}
    (h : Carries key v tag fields) : fields.nesting ≤ v.nesting := by
  cases h with
  | object =>
    exact Nat.succ_le_succ (nestingMembers_le_iff.2 fun member hm =>
      nesting_le_members (List.mem_of_mem_filter hm))
  | array => exact Nat.succ_le_succ (Nat.le_max_right _ _)

/-- Whether a property of records is kept when a field is read from a value of limited nesting. -/
def Field.Keeps (m : Nat) (P : α → Prop) (field : Field α) : Prop :=
  ∀ w change, w.nesting ≤ m → field.decoder.ofJson w = .ok change → ∀ a, P a → P (change a)

theorem Field.keeps_of {P : α → Prop} {key : String} {presence : Presence} {decoder : Decoder β}
    {put : β → α → α}
    (h : ∀ w x, w.nesting ≤ m → decoder.ofJson w = .ok x → ∀ a, P a → P (put x a)) :
    (Field.of key presence decoder put).Keeps m P := by
  intro w change hw hread a ha
  obtain ⟨x, hx, rfl⟩ := Decoder.map_ofJson_iff.1 hread
  exact h w x hw hx a ha

namespace Form

variable {form : Form α} {v : Json} {a : α}

theorem nesting_pos (h : form.decoder.ofJson v = .ok a) : 0 < v.nesting := by
  rcases ofJson_cases h with ⟨members, rfl⟩ | ⟨vs, rfl⟩ <;> exact Nat.succ_pos _

theorem ofJson_keeps (hform : form.Orderless) (P : α → Prop) (h : form.decoder.ofJson v = .ok a)
    (hv : v.nesting ≤ m + 1) (hfields : ∀ field ∈ form.fields, field.Keeps m P)
    (hblank : P form.blank) : P a := by
  rcases ofJson_cases h with ⟨members, rfl⟩ | ⟨vs, rfl⟩
  · obtain ⟨hfills, -⟩ := (ofJson_obj_iff hform).1 h
    refine hfills.invariant P (fun field hfield change htakes a ha => ?_) hblank
    obtain ⟨w, hone, hread⟩ := htakes
    have hmem : (field.key, w) ∈ members := mem_under.1 (by simp [hone])
    have hw : w.nesting < (Json.obj members).nesting := nesting_member_lt hmem
    exact hfields field hfield w change (by omega) hread a ha
  · refine (ofJson_arr_iff.1 h).invariant P (fun field hfield w hw change hread a ha => ?_) hblank
    have hw := nesting_item_lt hw
    exact hfields field hfield w change (by omega) hread a ha

end Form

theorem Decoder.option_nesting {decoder : Decoder β} {write : β → Json}
    (hwrite : ∀ v b, decoder.ofJson v = .ok b → (write b).nesting ≤ v.nesting) {v : Json}
    {o : Option β} (h : decoder.option.ofJson v = .ok o) :
    (Json.ofOption write o).nesting ≤ v.nesting := by
  rcases option_ofJson_cases h with rfl | ⟨b, rfl, hb⟩
  · exact Nat.zero_le _
  · exact hwrite v b hb

theorem Position.nesting_le (v : Json) (p : Position) (h : Position.decoder.ofJson v = .ok p) :
    p.record.nesting ≤ v.nesting := Form.nesting_pos h

theorem Token.nesting_le (v : Json) (token : Token) (h : Token.decoder.ofJson v = .ok token) :
    token.record.nesting ≤ v.nesting := by
  obtain ⟨m, hm⟩ := Nat.exists_eq_add_of_le' (Form.nesting_pos h)
  have hkeeps : (Json.ofOption Position.record token.position).nesting ≤ m := by
    refine Form.ofJson_keeps (form_matches 0).orderless
      (fun token => (Json.ofOption Position.record token.position).nesting ≤ m) h
      (Nat.le_of_eq hm) ?_ (Nat.zero_le m)
    simp only [form, List.mem_cons, List.not_mem_nil, or_false, forall_eq_or_imp, forall_eq]
    refine ⟨Field.keeps_of fun w x _ _ a ha => ha, Field.keeps_of fun w x _ _ a ha => ha,
      Field.keeps_of fun w o hw ho a _ => ?_⟩
    exact Nat.le_trans (Decoder.option_nesting Position.nesting_le ho) hw
  rw [hm]
  exact Nat.succ_le_succ (by simpa [nestingMembers, nesting] using hkeeps)

theorem Token.records_nesting_le (v : Json) (tokens : List Token)
    (h : Token.decoder.list.ofJson v = .ok tokens) :
    (Token.records tokens).nesting ≤ v.nesting := by
  obtain ⟨vs, rfl, hread⟩ := Decoder.list_ofJson_cases h
  refine Nat.succ_le_succ (nestingItems_le_iff.2 fun record hrecord => ?_)
  obtain ⟨token, htoken, rfl⟩ := List.mem_map.1 hrecord
  obtain ⟨w, hw, hread⟩ := hread token htoken
  exact Nat.le_trans (Token.nesting_le w token hread) (nesting_le_items hw)

def Metadata.Fits (m : Nat) (info : Metadata) : Prop :=
  (Json.ofOption Token.records info.freeFloating).nesting ≤ m ∧
    (Json.ofOption Position.record info.position).nesting ≤ m

namespace Node

def HasEmptyList (node : Node) : Prop := ∃ n ∈ node.nodes, ∃ kind info, n = .list kind info []

def Slot.HasEmptyList (slot : Slot) : Prop :=
  slot = .list [] ∨ ∃ child ∈ slot.children, child.HasEmptyList

theorem HasEmptyList.of_slot {node : Node} {slot : Role × Slot} (hslot : slot ∈ node.slots)
    (h : slot.2.HasEmptyList) : node.HasEmptyList := by
  rcases h with hempty | ⟨child, hchild, n, hn, hbare⟩
  · have hlist : ∃ kind info, node = .list kind info [] := by
      cases node <;> simp [slots] at hslot
      case list kind info items =>
        rw [hslot] at hempty
        cases hempty
        exact ⟨kind, info, rfl⟩
      case wrapper => simp [hslot] at hempty
      case parameter => rcases hslot with rfl | rfl | rfl <;> cases hempty
      case functionCall => rcases hslot with rfl | rfl <;> cases hempty
      case argument => simp [hslot] at hempty
    exact ⟨node, by rw [nodes_eq]; simp, hlist⟩
  · have hmem : child ∈ node.children := mem_children.2 ⟨slot, hslot, hchild⟩
    refine ⟨n, ?_, hbare⟩
    rw [nodes_eq]
    exact List.mem_cons_of_mem _ (List.mem_flatMap.2 ⟨child, hmem, hn⟩)

/-- Whether the record of a tree nests no deeper than a limit, or one deeper with an empty list. -/
def Fits (m : Nat) (node : Node) : Prop :=
  (node.record true).nesting ≤ m + 1 ∧ (m < (node.record true).nesting → node.HasEmptyList)

def Slot.Fits (m : Nat) (slot : Slot) : Prop :=
  (slot.record true).nesting ≤ m + 1 ∧ (m < (slot.record true).nesting → slot.HasEmptyList)

variable {node : Node}

theorem Fits.mono {k : Nat} (h : node.Fits k) (hk : k ≤ m) : node.Fits m :=
  ⟨Nat.le_trans h.1 (Nat.succ_le_succ hk), fun hm => h.2 (Nat.lt_of_le_of_lt hk hm)⟩

theorem Slot.fits_none : (Slot.single none).Fits m :=
  ⟨Nat.zero_le _, fun hm => absurd hm (Nat.not_lt_zero m)⟩

theorem Slot.fits_single {o : Option Node} (h : ∀ child, o = some child → child.Fits m) :
    (Slot.single o).Fits m := by
  cases o with
  | none => exact fits_none
  | some child =>
    obtain ⟨hle, hempty⟩ := h child rfl
    exact ⟨hle, fun hm => .inr ⟨child, by simp [Slot.children], hempty hm⟩⟩

theorem Slot.fits_empty : (Slot.list []).Fits m :=
  ⟨Nat.succ_le_succ (Nat.zero_le m), fun _ => .inl rfl⟩

theorem Slot.fits_list {items : List Node} (h : ∀ item ∈ items, ∃ k < m, item.Fits k) :
    (Slot.list items).Fits m := by
  by_cases hnone : items = []
  · rw [hnone]
    exact fits_empty
  obtain ⟨first, hfirst⟩ := List.exists_mem_of_ne_nil items hnone
  obtain ⟨k, hk, -⟩ := h first hfirst
  rw [Slot.Fits, Slot.record, nesting]
  constructor
  · refine Nat.succ_le_succ (nestingItems_le_iff.2 fun v hv => ?_)
    obtain ⟨item, hitem, rfl⟩ := List.mem_map.1 hv
    obtain ⟨k, hk, hle, -⟩ := h item hitem
    omega
  · intro hm
    by_contra hbare
    have hle : nestingItems (items.map (Node.record true)) ≤ m - 1 := by
      refine nestingItems_le_iff.2 fun v hv => ?_
      obtain ⟨item, hitem, rfl⟩ := List.mem_map.1 hv
      obtain ⟨k, hk, -, hempty⟩ := h item hitem
      by_contra hdeep
      exact hbare (.inr ⟨item, hitem, hempty (by omega)⟩)
    omega

theorem head_nesting_le (hinfo : node.info.Fits m) {member : String × Json}
    (h : member ∈ head true node.kind node.info) : member.2.nesting ≤ m := by
  have hmember : member = ("Kind", .str node.kind.name) ∨
      member = ("FreeFloating", .ofOption Token.records node.info.freeFloating) ∨
        member = ("Position", .ofOption Position.record node.info.position) := by
    simpa [head] using h
  rcases hmember with rfl | rfl | rfl
  · exact Nat.zero_le m
  · exact hinfo.1
  · exact hinfo.2

theorem valueMembers_nesting {member : String × Json} (h : member ∈ node.valueMembers) :
    member.2.nesting = 0 := by
  cases node <;> simp [valueMembers] at h
  case leaf => rw [h]; rfl
  case parameter => rcases h with rfl | rfl <;> rfl
  case argument => rcases h with rfl | rfl <;> rfl

theorem fits_of_slots (hinfo : node.info.Fits m) (hslots : ∀ slot ∈ node.slots, slot.2.Fits m) :
    node.Fits (m + 1) := by
  have hmember : ∀ member ∈ head true node.kind node.info ++
      (node.valueMembers ++ node.slotMembers true), member.2.nesting ≤ m ∨
        ∃ slot ∈ node.slots, member.2 = slot.2.record true := by
    intro member hmember
    simp only [List.mem_append] at hmember
    rcases hmember with hhead | hvalue | hslot
    · exact .inl (head_nesting_le hinfo hhead)
    · exact .inl (valueMembers_nesting hvalue ▸ Nat.zero_le m)
    · obtain ⟨slot, hmem, rfl⟩ := mem_slotMembers.1 hslot
      exact .inr ⟨slot, hmem, rfl⟩
  rw [Fits, record_eq, nesting]
  constructor
  · refine Nat.succ_le_succ (nestingMembers_le_iff.2 fun member hm => ?_)
    rcases hmember member hm with hle | ⟨slot, hslot, heq⟩
    · exact Nat.le_succ_of_le hle
    · rw [heq]
      exact (hslots slot hslot).1
  · -- The metadata and the values keep the limit, so the slots alone can be to blame.
    intro hdeep
    by_contra hbare
    refine absurd hdeep (Nat.not_lt_of_le (Nat.succ_le_succ (nestingMembers_le_iff.2 ?_)))
    intro member hm
    rcases hmember member hm with hle | ⟨slot, hslot, heq⟩
    · exact hle
    · by_contra hslotDeep
      rw [heq] at hslotDeep
      exact hbare (.of_slot hslot ((hslots slot hslot).2 (Nat.lt_of_not_le hslotDeep)))

/-- What holds of the blank fields and is kept by each field holds of what is read, and the metadata
keep the limit. -/
theorem formOf_ofJson {kind : NodeKind} {blank : α} {fields : List (Field (Metadata × α))}
    (hform : (formOf kind blank fields).Orderless) {v : Json} {a : Metadata × α}
    (h : (formOf kind blank fields).decoder.ofJson v = .ok a) (hv : v.nesting = m + 1)
    (P : α → Prop) (hblank : P blank)
    (hfields : ∀ field ∈ fields, field.Keeps m fun a => a.1.Fits m ∧ P a.2) :
    a.1.Fits m ∧ P a.2 := by
  refine Form.ofJson_keeps hform (fun a => a.1.Fits m ∧ P a.2) h (Nat.le_of_eq hv) ?_
    ⟨⟨Nat.zero_le m, Nat.zero_le m⟩, hblank⟩
  simp only [formOf, List.cons_append, List.nil_append, List.forall_mem_cons]
  refine ⟨Field.keeps_of fun w tokens hw htokens a ha => ?_,
    Field.keeps_of fun w p hw hp a ha => ?_, hfields⟩
  · have hle := Decoder.option_nesting Token.records_nesting_le htokens
    exact ⟨⟨Nat.le_trans hle hw, ha.1.2⟩, ha.2⟩
  · have hle := Decoder.option_nesting Position.nesting_le hp
    exact ⟨⟨ha.1.1, Nat.le_trans hle hw⟩, ha.2⟩

section

variable {child : Decoder Node} (hchild : ∀ w n, child.ofJson w = .ok n → n.Fits w.nesting)

include hchild

theorem Slot.fits_option {w : Json} {o : Option Node} (hw : w.nesting ≤ m)
    (h : child.option.ofJson w = .ok o) : (Slot.single o).Fits m := by
  refine Slot.fits_single fun n hn => ?_
  rcases Decoder.option_ofJson_cases h with rfl | ⟨b, rfl, hb⟩
  · cases hn
  · cases hn
    exact (hchild w n hb).mono hw

theorem Slot.fits_items {w : Json} {items : List Node} (hw : w.nesting ≤ m)
    (h : child.list.ofJson w = .ok items) : (Slot.list items).Fits m := by
  refine Slot.fits_list fun item hitem => ?_
  obtain ⟨vs, rfl, hread⟩ := Decoder.list_ofJson_cases h
  obtain ⟨v, hv, hread⟩ := hread item hitem
  exact ⟨v.nesting, Nat.lt_of_lt_of_le (nesting_item_lt hv) hw, hchild v item hread⟩

variable {v : Json} (hv : v.nesting = m + 1)

include hv

theorem listForm_fits {kind : ListKind} {a : Metadata × List Node}
    (h : (listForm child kind kind.role.name).decoder.ofJson v = .ok a) :
    Node.Fits (m + 1) (.list kind a.1 a.2) := by
  have hkeeps := formOf_ofJson (kindForm_orderless child (.list kind)) h hv
    (fun items => (Slot.list items).Fits m) Slot.fits_empty
  simp only [List.forall_mem_cons, List.not_mem_nil, false_imp_iff, implies_true,
    and_true] at hkeeps
  obtain ⟨hinfo, hitems⟩ := hkeeps
    (Field.keeps_of fun w items hw h a ha => ⟨ha.1, Slot.fits_items hchild hw h⟩)
  exact fits_of_slots hinfo (by simpa [slots] using hitems)

theorem wrapperForm_fits {kind : WrapperKind} {a : Metadata × Option Node}
    (h : (wrapperForm child kind kind.role.name).decoder.ofJson v = .ok a) :
    Node.Fits (m + 1) (.wrapper kind a.1 a.2) := by
  have hkeeps := formOf_ofJson (kindForm_orderless child (.wrapper kind)) h hv
    (fun o => (Slot.single o).Fits m) Slot.fits_none
  simp only [List.forall_mem_cons, List.not_mem_nil, false_imp_iff, implies_true,
    and_true] at hkeeps
  obtain ⟨hinfo, hc⟩ := hkeeps
    (Field.keeps_of fun w o hw h a ha => ⟨ha.1, Slot.fits_option hchild hw h⟩)
  exact fits_of_slots hinfo (by simpa [slots] using hc)

theorem parameterForm_fits {a : Metadata × ParameterFields}
    (h : (parameterForm child).decoder.ofJson v = .ok a) :
    Node.Fits (m + 1)
      (.parameter a.1 a.2.byRef a.2.variadic a.2.type a.2.var a.2.defaultValue) := by
  have hkeeps := formOf_ofJson (kindForm_orderless child .parameter) h hv
    (fun fields => (Slot.single fields.type).Fits m ∧ (Slot.single fields.var).Fits m ∧
      (Slot.single fields.defaultValue).Fits m) ⟨Slot.fits_none, Slot.fits_none, Slot.fits_none⟩
  simp only [List.forall_mem_cons, List.not_mem_nil, false_imp_iff, implies_true,
    and_true] at hkeeps
  obtain ⟨hinfo, ht, hv, hd⟩ := hkeeps
    ⟨Field.keeps_of fun w flag hw h a ha => ha,
      Field.keeps_of fun w flag hw h a ha => ha,
      Field.keeps_of fun w o hw h a ha => ⟨ha.1, Slot.fits_option hchild hw h, ha.2.2⟩,
      Field.keeps_of fun w o hw h a ha => ⟨ha.1, ha.2.1, Slot.fits_option hchild hw h, ha.2.2.2⟩,
      Field.keeps_of fun w o hw h a ha => ⟨ha.1, ha.2.1, ha.2.2.1, Slot.fits_option hchild hw h⟩⟩
  exact fits_of_slots hinfo (by simpa [slots] using ⟨ht, hv, hd⟩)

theorem functionCallForm_fits {a : Metadata × Option Node × Option Node}
    (h : (functionCallForm child).decoder.ofJson v = .ok a) :
    Node.Fits (m + 1) (.functionCall a.1 a.2.1 a.2.2) := by
  have hkeeps := formOf_ofJson (kindForm_orderless child .functionCall) h hv
    (fun fields => (Slot.single fields.1).Fits m ∧ (Slot.single fields.2).Fits m)
    ⟨Slot.fits_none, Slot.fits_none⟩
  simp only [List.forall_mem_cons, List.not_mem_nil, false_imp_iff, implies_true,
    and_true] at hkeeps
  obtain ⟨hinfo, hf, hl⟩ := hkeeps
    ⟨Field.keeps_of fun w o hw h a ha => ⟨ha.1, Slot.fits_option hchild hw h, ha.2.2⟩,
      Field.keeps_of fun w o hw h a ha => ⟨ha.1, ha.2.1, Slot.fits_option hchild hw h⟩⟩
  exact fits_of_slots hinfo (by simpa [slots] using ⟨hf, hl⟩)

theorem argumentForm_fits {a : Metadata × ArgumentFields}
    (h : (argumentForm child).decoder.ofJson v = .ok a) :
    Node.Fits (m + 1) (.argument a.1 a.2.variadic a.2.isReference a.2.expr) := by
  have hkeeps := formOf_ofJson (kindForm_orderless child .argument) h hv
    (fun fields => (Slot.single fields.expr).Fits m) Slot.fits_none
  simp only [List.forall_mem_cons, List.not_mem_nil, false_imp_iff, implies_true,
    and_true] at hkeeps
  obtain ⟨hinfo, he⟩ := hkeeps
    ⟨Field.keeps_of fun w flag hw h a ha => ha,
      Field.keeps_of fun w flag hw h a ha => ha,
      Field.keeps_of fun w o hw h a ha => ⟨ha.1, Slot.fits_option hchild hw h⟩⟩
  exact fits_of_slots hinfo (by simpa [slots] using he)

end

theorem leafForm_fits {kind : LeafKind} {v : Json} (hv : v.nesting = m + 1)
    {a : Metadata × String} (h : (leafForm kind "Value").decoder.ofJson v = .ok a) :
    Node.Fits (m + 1) (.leaf kind a.1 a.2) := by
  have hkeeps := formOf_ofJson (kindForm_orderless decoder (.leaf kind)) h hv
    (fun _ => True) trivial
  simp only [List.forall_mem_cons, List.not_mem_nil, false_imp_iff, implies_true,
    and_true] at hkeeps
  have hinfo := hkeeps (Field.keeps_of fun w value hw h a ha => ha)
  exact fits_of_slots hinfo (by simp [slots])

theorem fits_of_fieldDecoder {child : Decoder Node}
    (hchild : ∀ w n, child.ofJson w = .ok n → n.Fits w.nesting) {kind : NodeKind} {v : Json}
    (h : (fieldDecoder child kind).ofJson v = .ok node) : node.Fits v.nesting := by
  rw [fieldDecoder_eq] at h
  obtain ⟨a, ha, rfl⟩ := Decoder.map_ofJson_iff.1 h
  obtain ⟨m, hm⟩ := Nat.exists_eq_add_of_le' (Form.nesting_pos ha)
  rw [hm]
  cases kind with
  | list kind => exact listForm_fits hchild hm ha
  | wrapper kind => exact wrapperForm_fits hchild hm ha
  | leaf kind => exact leafForm_fits hm ha
  | parameter => exact parameterForm_fits hchild hm ha
  | functionCall => exact functionCallForm_fits hchild hm ha
  | argument => exact argumentForm_fits hchild hm ha

/-- The record of a tree nests no deeper than the value that the tree was read from, or one deeper
with an empty list. -/
theorem fits_of_ofJson {levels : Nat} {v : Json} (h : (decoderWithin levels).ofJson v = .ok node) :
    node.Fits v.nesting := by
  induction levels generalizing v node with
  | zero => exact absurd h (ofJson_zero v node)
  | succ levels ih =>
    obtain ⟨kind, tag, fields, -, hcarries, h⟩ := ofJson_succ_iff.1 h
    exact (fits_of_fieldDecoder (fun _ _ => ih) h).mono (hcarries.nesting_le)

end Node

end SyntaxTree
