import SyntaxTree.Proofs.Node.Extent

/-! Members with the same key. Wherever a record of a document is read, each of its keys may be
given once: a document that gives one twice is rejected, so there is never a choice to be made
between the two. -/

set_option autoImplicit false

namespace SyntaxTree

open Json

variable {α β : Type} {levels : Nat}

def Field.Yields (levels : Nat) (field : Field α) (entry : Entry) : Prop :=
  ∀ v change, field.decoder.ofJson v = .ok change →
    ∃ x, (entry.content.decoder levels).ofJson v = .ok x

namespace Field.Yields

theorem plain {field : Field α} {entry : Entry} (h : entry.content = .plain) :
    field.Yields levels entry := by
  intro v _ _
  rw [h]
  exact ⟨v, rfl⟩

theorem of_content {key : String} {presence : Presence} {content : Content}
    {decoder : Decoder β} {put : β → α → α} {absent : Option Json}
    (h : ∀ v b, decoder.ofJson v = .ok b → ∃ x, (content.decoder levels).ofJson v = .ok x) :
    (Field.of key presence decoder put).Yields levels ⟨key, content, absent⟩ := by
  intro v change hread
  obtain ⟨b, hb, -⟩ := Decoder.map_ofJson_iff.1 hread
  exact h v b hb

theorem ifAny {key : String} {presence : Presence} (content : Content)
    {put : Option content.Value → α → α} :
    (Field.of key presence (content.decoder levels).option put).Yields levels
      (.ifAny key content) :=
  of_content fun _ b hb => ⟨b, hb⟩

theorem items {key : String} {presence : Presence} (content : Content)
    {put : List content.Value → α → α} :
    (Field.of key presence (content.decoder levels).list put).Yields levels
      (.items key content) :=
  of_content fun _ b hb => ⟨b, hb⟩

end Field.Yields

def Form.Yields (levels : Nat) (form : Form α) (entries : List Entry) : Prop :=
  List.Forall₂ (Field.Yields levels) form.fields entries

theorem Position.form_yields (levels : Nat) : Position.form.Yields levels Position.entries :=
  .cons (.plain rfl) (.cons (.plain rfl) (.cons (.plain rfl) (.cons (.plain rfl) .nil)))

theorem Token.form_yields (levels : Nat) : Token.form.Yields levels Token.entries :=
  .cons (.plain rfl) (.cons (.plain rfl) (.cons (.ifAny .position) .nil))

theorem Node.kindForm_yields (levels : Nat) (kind : NodeKind) :
    (kindForm (decoderWithin levels) kind).form.Yields levels kind.fieldEntries := by
  have hhead {α : Type} {blank : α} {fields : List (Field (Metadata × α))} {entries : List Entry}
      (h : List.Forall₂ (Field.Yields levels) fields entries) :
      (formOf kind blank fields).Yields levels
        (.ifAny "FreeFloating" (.list .token) :: .ifAny "Position" .position :: entries) :=
    .cons (.ifAny (.list .token)) (.cons (.ifAny .position) h)
  cases kind with
  | list kind => exact hhead (.cons (.items .node) .nil)
  | wrapper kind => exact hhead (.cons (.ifAny .node) .nil)
  | leaf kind => exact hhead (.cons (.plain rfl) .nil)
  | parameter =>
    exact hhead (.cons (.plain rfl) (.cons (.plain rfl) (.cons (.ifAny .node)
      (.cons (.ifAny .node) (.cons (.ifAny .node) .nil)))))
  | functionCall => exact hhead (.cons (.ifAny .node) (.cons (.ifAny .node) .nil))
  | argument =>
    exact hhead (.cons (.plain rfl) (.cons (.plain rfl) (.cons (.ifAny .node) .nil)))

/-- Whether something is read from a value where a content stands. -/
def Content.Accepts (content : Content) (v : Json) : Prop :=
  ∃ levels x, (content.decoder levels).ofJson v = .ok x

namespace Form

variable {form : Form α} {entries : List Entry} {entry : Entry} {v : Json} {a : α}

theorem Yields.at_place (h : form.Yields levels entries) {i : Nat} {field : Field α}
    (hfield : form.fields[i]? = some field) (hentry : entries[i]? = some entry) :
    field.Yields levels entry := by
  obtain ⟨hi, rfl⟩ := List.getElem?_eq_some_iff.1 hfield
  obtain ⟨hi', rfl⟩ := List.getElem?_eq_some_iff.1 hentry
  exact h.get hi hi'

/-- A member of an object that is read stands alone under its key, and its value is read. -/
theorem Matches.member (h : form.Matches levels entries) (hyields : form.Yields levels entries)
    {members : List (String × Json)} (hread : form.decoder.ofJson (.obj members) = .ok a)
    (hentry : entry ∈ entries) (hmem : (entry.key, v) ∈ members) :
    under entry.key members = [v] ∧ entry.content.Accepts v := by
  obtain ⟨i, hi, rfl⟩ := List.getElem_of_mem hentry
  have hi' : i < form.fields.length := h.fields.length_eq ▸ hi
  have hkey := (h.fields.get hi' hi).key
  obtain ⟨before, after, rfl⟩ := List.append_of_mem hmem
  rw [List.get_eq_getElem, List.get_eq_getElem] at hkey
  rw [← hkey] at hread ⊢
  obtain ⟨change, b, hleaves, hv, -⟩ :=
    (ofJson_obj_member_iff h.orderless (List.getElem_mem hi') before after).1 hread
  have hnone := hleaves.missing
  rw [under_append, List.append_eq_nil_iff] at hnone
  refine ⟨by rw [under_append, under_cons_self, hnone.1, hnone.2, List.nil_append], levels, ?_⟩
  exact hyields.get hi' hi v change hv

theorem FillsItems.at_place {fields : List (Field α)} {items : List Json} {b : α}
    (h : FillsItems fields items a b) {i : Nat} (hitem : items[i]? = some v) :
    ∃ field, fields[i]? = some field ∧ ∃ change, field.decoder.ofJson v = .ok change := by
  induction h generalizing i with
  | nil => simp at hitem
  | missing => simp at hitem
  | given hread _ ih =>
    cases i with
    | zero =>
      cases hitem
      exact ⟨_, rfl, _, hread⟩
    | succ i => exact ih hitem

theorem Yields.item (h : form.Yields levels entries) {items : List Json}
    (hread : form.decoder.ofJson (.arr items) = .ok a) {i : Nat}
    (hentry : entries[i]? = some entry) (hitem : items[i]? = some v) :
    entry.content.Accepts v := by
  obtain ⟨field, hfield, change, hv⟩ := (ofJson_arr_iff.1 hread).at_place hitem
  exact ⟨levels, h.at_place hfield hentry v change hv⟩

end Form

namespace Node

theorem ofJson_of_fieldDecoder {child : Decoder Node} {kind : NodeKind} {v : Json} {node : Node}
    (h : (fieldDecoder child kind).ofJson v = .ok node) :
    ∃ fields, (kindForm child kind).form.decoder.ofJson v = .ok fields := by
  rw [fieldDecoder_eq] at h
  obtain ⟨fields, hread, -⟩ := Decoder.map_ofJson_iff.1 h
  exact ⟨fields, hread⟩

end Node

namespace Layout

variable {content : Content} {entries : List Entry} {entry : Entry} {v : Json}

theorem member {members : List (String × Json)} (h : Layout content (.obj members) entries)
    (hread : content.Accepts (.obj members)) (hentry : entry ∈ entries)
    (hmem : (entry.key, v) ∈ members) :
    under entry.key members = [v] ∧ entry.content.Accepts v := by
  obtain ⟨levels, x, hread⟩ := hread
  cases h with
  | position =>
    exact (Position.form_matches levels).member (Position.form_yields levels) hread hentry hmem
  | token => exact (Token.form_matches levels).member (Token.form_yields levels) hread hentry hmem
  | @object kind tag _ htag hkind =>
    cases levels with
    | zero => exact absurd hread (Node.ofJson_zero _ _)
    | succ levels =>
      obtain ⟨hone, hfields⟩ := (Node.ofJson_obj_iff htag hkind).1 hread
      rcases List.mem_cons.1 hentry with rfl | hentry
      · have hv : v = tag := List.mem_singleton.1 (hone ▸ mem_under.2 hmem)
        exact ⟨hv ▸ hone, 0, v, rfl⟩
      · have hne := Node.ne_kind_of_mem hentry
        obtain ⟨fields, hfields⟩ := Node.ofJson_of_fieldDecoder hfields
        rw [← under_without hne]
        refine (Node.kindForm_matches levels kind).member (Node.kindForm_yields levels kind)
          hfields hentry (mem_under.1 ?_)
        rw [under_without hne]
        exact mem_under.2 hmem

theorem item {items : List Json} (h : Layout content (.arr items) entries)
    (hread : content.Accepts (.arr items)) {i : Nat} (hentry : entries[i]? = some entry)
    (hitem : items[i]? = some v) : entry.content.Accepts v := by
  obtain ⟨levels, x, hread⟩ := hread
  cases h with
  | position => exact (Position.form_yields levels).item hread hentry hitem
  | token => exact (Token.form_yields levels).item hread hentry hitem
  | @array kind tag items htag =>
    cases levels with
    | zero => exact absurd hread (Node.ofJson_zero _ _)
    | succ levels =>
      cases i with
      | zero =>
        cases hentry
        exact ⟨0, v, rfl⟩
      | succ i =>
        obtain ⟨fields, hfields⟩ :=
          Node.ofJson_of_fieldDecoder ((Node.ofJson_arr_iff htag).1 hread)
        exact (Node.kindForm_yields levels kind).item hfields hentry hitem

end Layout

/-- Whether a value is read, as what one content says, wherever another is read as what another
says: it is the value of an entry or an item, any number of times over. -/
inductive Json.Within (inner : Content) (w : Json) : Content → Json → Prop
  | here : Within inner w inner w
  | member {content : Content} {entries : List Entry} {members : List (String × Json)}
      {entry : Entry} {v : Json} : Layout content (.obj members) entries → entry ∈ entries →
      (entry.key, v) ∈ members → Within inner w entry.content v →
      Within inner w content (.obj members)
  | place {content : Content} {entries : List Entry} {items : List Json} {i : Nat} {entry : Entry}
      {v : Json} : Layout content (.arr items) entries → entries[i]? = some entry →
      items[i]? = some v → Within inner w entry.content v → Within inner w content (.arr items)
  | item {content : Content} {items : List Json} {v : Json} : v ∈ items →
      Within inner w content v → Within inner w (.list content) (.arr items)
  | present {content : Content} {v : Json} : v ≠ .null → Within inner w content v →
      Within inner w (.option content) v

theorem Content.Accepts.within {inner outer : Content} {w v : Json} (hread : outer.Accepts v)
    (h : Json.Within inner w outer v) : inner.Accepts w := by
  induction h with
  | here => exact hread
  | member hlayout hentry hmem _ ih => exact ih (hlayout.member hread hentry hmem).2
  | place hlayout hentry hitem _ ih => exact ih (hlayout.item hread hentry hitem)
  | item hmem _ ih =>
    obtain ⟨levels, x, hread⟩ := hread
    obtain ⟨i, hi, rfl⟩ := List.getElem_of_mem hmem
    have hitems := Decoder.list_ofJson_arr_iff.1 hread
    have hi' : i < x.length := hitems.length_eq ▸ hi
    exact ih ⟨levels, _, hitems.get hi hi'⟩
  | @present content v hv _ ih =>
    obtain ⟨levels, o, hread⟩ : ∃ levels o, (content.decoder levels).option.ofJson v = .ok o :=
      hread
    rw [Decoder.option_ofJson_some hv, bind_eq_ok] at hread
    obtain ⟨x, hread, -⟩ := hread
    exact ih ⟨levels, x, hread⟩

inductive Content.HasKey : Content → List (String × Json) → String → Prop
  | entry {content : Content} {members : List (String × Json)} {entries : List Entry}
      {entry : Entry} : Layout content (.obj members) entries → entry ∈ entries →
      HasKey content members entry.key
  | kind {members : List (String × Json)} : HasKey .node members "Kind"

/-- Whether some record that is read with a document gives one of its keys more than once. -/
def Json.RepeatsKey (v : Json) : Prop :=
  ∃ content members key, Json.Within content (.obj members) .node v ∧
    content.HasKey members key ∧ 1 < (under key members).length

theorem Content.HasKey.once {content : Content} {members : List (String × Json)} {key : String}
    (h : content.HasKey members key) (hread : content.Accepts (.obj members)) :
    (under key members).length ≤ 1 := by
  cases h with
  | @entry _ _ _ entry hlayout hentry =>
    cases hvalues : under entry.key members with
    | nil => exact Nat.zero_le 1
    | cons v values =>
      have hmem : (entry.key, v) ∈ members := mem_under.1 (by simp [hvalues])
      have hone := (hlayout.member hread hentry hmem).1
      simp [← hvalues, hone]
  | kind =>
    obtain ⟨levels, node, hread⟩ := hread
    cases levels with
    | zero => exact absurd hread (Node.ofJson_zero _ _)
    | succ levels =>
      obtain ⟨kind, tag, fields, -, hcarries, -⟩ := Node.ofJson_succ_iff.1 hread
      cases hcarries with
      | object hone => simp [hone]

namespace Node

theorem not_repeatsKey {v : Json} (h : Content.node.Accepts v) : ¬ v.RepeatsKey := by
  rintro ⟨content, members, key, hwithin, hkey, hrepeated⟩
  exact Nat.not_lt.2 (hkey.once (h.within hwithin)) hrepeated

/-- A text is rejected if what it spells, or would spell, gives a key of some record twice, wherever
the record is read. -/
theorem ofDocument_repeated {text : String} (h : ∀ v : Json, v.Documents text → v.RepeatsKey) :
    ∃ message line column, ofDocument text = .error (.invalidInput message line column) := by
  refine ofDocument_error fun node hread => ?_
  obtain ⟨v, hv, -, -, hnode⟩ := ofText_iff_documents.1 (ofDocument_eq_ok_iff.1 hread)
  exact not_repeatsKey ⟨_, node, hnode⟩ (h v hv)

def valuedTwice : Json :=
  .obj [("Kind", .str "NamePart"), ("Value", .str ""), ("Value", .str "")]

def nameValuedTwice : String :=
  "[\"Name\",null,null,[\x7b\"Kind\":\"NamePart\",\"Value\":\"\",\"V\\u0061lue\":\"\"\x7d]]"

theorem nameValuedTwice_rejected :
    (Json.arr [.str "Name", .null, .null, .arr [valuedTwice]]).Documents nameValuedTwice ∧
    (∀ v : Json, v.Documents nameValuedTwice → v.RepeatsKey) ∧
    ∃ message line column,
      ofDocument nameValuedTwice = .error (.invalidInput message line column) := by
  have hread : value 127 nameValuedTwice.toList =
      .ok (.arr [.str "Name", .null, .null, .arr [valuedTwice]], []) := rfl
  have hdocument := (documents_iff.2 ⟨_, hread, rfl⟩).1
  have hname : (NodeKind.list .name).TaggedBy (.str "Name") := .name
  have hpart : Layout .node valuedTwice (NodeKind.leaf .namePart).entries :=
    .object .name (by simp [NodeKind.name])
  have htext : Entry.text "Value" ∈ (NodeKind.leaf .namePart).entries := by
    simp [NodeKind.entries, NodeKind.fieldEntries, NodeKind.ownEntries]
  have hwithin : Json.Within .node valuedTwice .node
      (.arr [.str "Name", .null, .null, .arr [valuedTwice]]) :=
    .place (i := 3) (.array hname) rfl rfl (.item (.head _) .here)
  have hrepeats (v : Json) (hv : v.Documents nameValuedTwice) : v.RepeatsKey := by
    rw [hv.unique hdocument]
    exact ⟨_, _, _, hwithin, .entry hpart htext, by decide⟩
  exact ⟨hdocument, hrepeats, ofDocument_repeated hrepeats⟩

/-- A key that no record of the type has may be given twice. -/
example : ofDocument "\x7b\"Note\":1,\"Kind\":\"Root\",\"Note\":2\x7d" =
    .ok (.list .root {} []) := rfl

end Node

end SyntaxTree
