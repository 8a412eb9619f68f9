import SyntaxTree.Proofs.Node.Reads

/-! Records with a gap: all is there but one value, which is what the node has under a role. What is
read depends on the value in the gap by what that is read as under the role, and by nothing else. -/

set_option autoImplicit false

namespace SyntaxTree

open Json

variable {α β : Type} {levels : Nat}

theorem exists_append_of_getElem? {items : List α} {i : Nat} {a : α} (h : items[i]? = some a) :
    ∃ before after, items = before ++ a :: after ∧ before.length = i := by
  obtain ⟨hi, rfl⟩ := List.getElem?_eq_some_iff.1 h
  exact ⟨items.take i, items.drop (i + 1), by simp, List.length_take_of_le (Nat.le_of_lt hi)⟩

namespace Role

theorem name_inj {role role' : Role} (h : role.name = role'.name) : role = role' := by
  cases role <;> cases role' <;> simp [name] at h ⊢

theorem name_ne_kind (role : Role) : role.name ≠ "Kind" := by cases role <;> decide

def entry (role : Role) : Bool → Entry
  | false => .ifAny role.name .node
  | true => .items role.name .node

theorem entry_key (role : Role) (isList : Bool) : (role.entry isList).key = role.name := by
  cases isList <;> rfl

theorem entry_inj {role role' : Role} {isList isList' : Bool}
    (h : role.entry isList = role'.entry isList') : role = role' ∧ isList = isList' := by
  have hname : role.name = role'.name := by
    rw [← entry_key role isList, ← entry_key role' isList', h]
  refine ⟨name_inj hname, ?_⟩
  cases isList <;> cases isList' <;> simp [entry, Entry.ifAny, Entry.items] at h ⊢

end Role

namespace Node

def Slot.decoder (levels : Nat) : Bool → Decoder Slot
  | false => (decoderWithin levels).option.map .single
  | true => (decoderWithin levels).list.map .list

def slot? (node : Node) (role : Role) : Option Slot := node.slots.lookup role

end Node

open Node

/-- A field reads what an entry for a role holds, and that is what the node has under the role then,
whatever else is read. -/
structure Field.Serves (levels : Nat) (node : α → Node) (field : Field α) (entry : Entry) :
    Prop where
  reads : ∀ role isList, entry = Role.entry role isList → ∀ v change,
    field.decoder.ofJson v = .ok change → ∃ slot, (Slot.decoder levels isList).ofJson v = .ok slot ∧
      ∀ a, (node (change a)).slot? role = some slot
  given : ∀ role isList, entry = Role.entry role isList → ∀ v slot,
    (Slot.decoder levels isList).ofJson v = .ok slot → ∃ change, field.decoder.ofJson v = .ok change

namespace Field.Serves

variable {node : α → Node}

theorem other {field : Field α} {entry : Entry}
    (h : ∀ role isList, entry ≠ Role.entry role isList) : field.Serves levels node entry where
  reads role isList heq := absurd heq (h role isList)
  given role isList heq := absurd heq (h role isList)

theorem slot {role : Role} (isList : Bool) {key : String} {presence : Presence}
    {decoder : Decoder β} {put : β → α → α} {slotOf : β → Slot}
    (hdecoder : Slot.decoder levels isList = decoder.map slotOf)
    (hput : ∀ x a, (node (put x a)).slot? role = some (slotOf x)) :
    (Field.of key presence decoder put).Serves levels node (role.entry isList) where
  reads role' isList' heq v change hread := by
    obtain ⟨rfl, rfl⟩ := Role.entry_inj heq
    obtain ⟨x, hx, rfl⟩ := Decoder.map_ofJson_iff.1 hread
    rw [hdecoder]
    exact ⟨slotOf x, Decoder.map_ofJson hx slotOf, hput x⟩
  given role' isList' heq v slot hread := by
    obtain ⟨rfl, rfl⟩ := Role.entry_inj heq
    rw [hdecoder] at hread
    obtain ⟨x, hx, -⟩ := Decoder.map_ofJson_iff.1 hread
    exact ⟨put x, Decoder.map_ofJson hx put⟩

theorem single {role : Role} {key : String} {presence : Presence}
    {put : Option Node → α → α}
    (hput : ∀ o a, (node (put o a)).slot? role = some (.single o)) :
    (Field.of key presence (decoderWithin levels).option put).Serves levels node
      (role.entry false) := slot false rfl hput

theorem plain {key : String} {presence : Presence} {decoder : Decoder β} {put : β → α → α}
    {absent : Option Json} :
    (Field.of key presence decoder put).Serves levels node ⟨key, .plain, absent⟩ :=
  other fun _ isList => by cases isList <;> simp [Role.entry, Entry.ifAny, Entry.items]

end Field.Serves

namespace Node

theorem formOf_serves {kind : NodeKind} {blank : α} {fields : List (Field (Metadata × α))}
    {entries : List Entry} {node : Metadata × α → Node}
    (h : List.Forall₂ (Field.Serves levels node) fields entries) :
    List.Forall₂ (Field.Serves levels node) (formOf kind blank fields).fields
      (.ifAny "FreeFloating" (.list .token) :: .ifAny "Position" .position :: entries) := by
  have hother {key : String} {content : Content} (hne : content ≠ .node) (role : Role)
      (isList : Bool) : Entry.ifAny key content ≠ role.entry isList := by
    cases isList <;> simp [Role.entry, Entry.ifAny, Entry.items, hne]
  exact .cons (.other (hother nofun)) (.cons (.other (hother nofun)) h)

theorem kindForm_serves (levels : Nat) (kind : NodeKind) :
    List.Forall₂ (Field.Serves levels (kindForm (decoderWithin levels) kind).node)
      (kindForm (decoderWithin levels) kind).form.fields kind.fieldEntries := by
  have hself {role : Role} (slot : Slot) : List.lookup role [(role, slot)] = some slot := by simp
  cases kind with
  | list kind => exact formOf_serves (.cons (.slot true rfl fun _ _ => hself _) .nil)
  | wrapper kind => exact formOf_serves (.cons (.single fun _ _ => hself _) .nil)
  | leaf kind => exact formOf_serves (.cons .plain .nil)
  | parameter =>
    exact formOf_serves (.cons .plain (.cons .plain (.cons (.single fun _ _ => rfl)
      (.cons (.single fun _ _ => rfl) (.cons (.single fun _ _ => rfl) .nil)))))
  | functionCall =>
    exact formOf_serves (.cons (.single fun _ _ => rfl)
      (.cons (.single fun _ _ => rfl) .nil))
  | argument =>
    exact formOf_serves (.cons .plain (.cons .plain (.cons (.single fun _ _ => rfl) .nil)))

theorem exists_serving (levels : Nat) {kind : NodeKind} {role : Role} {isList : Bool}
    (h : role.entry isList ∈ kind.fieldEntries) :
    ∃ field ∈ (kindForm (decoderWithin levels) kind).form.fields, field.key = role.name ∧
      field.Serves levels (kindForm (decoderWithin levels) kind).node (role.entry isList) := by
  have hmatches := (kindForm_matches levels kind).fields
  obtain ⟨i, hi, hentry⟩ := List.getElem_of_mem h
  have hi' : i < (kindForm (decoderWithin levels) kind).form.fields.length :=
    hmatches.length_eq ▸ hi
  have hkey := (hmatches.get hi' hi).key
  have hserves := (kindForm_serves levels kind).get hi' hi
  rw [List.get_eq_getElem, List.get_eq_getElem, hentry] at hkey hserves
  exact ⟨_, List.getElem_mem hi', hkey.trans (role.entry_key isList), hserves⟩

section

variable {kind : NodeKind} {role : Role} {isList : Bool} {before after : List (String × Json)}
  {v w : Json} {node : Node}

/-- A member for a role is read as what the node has under the role. -/
theorem slot_of_fieldDecoder (hentry : role.entry isList ∈ kind.fieldEntries)
    (h : (fieldDecoder (decoderWithin levels) kind).ofJson
      (.obj (before ++ (role.name, v) :: after)) = .ok node) :
    ∃ slot, (Slot.decoder levels isList).ofJson v = .ok slot ∧ node.slot? role = some slot := by
  obtain ⟨field, hfield, hkey, hserves⟩ := exists_serving levels hentry
  rw [fieldDecoder_eq] at h
  obtain ⟨a, ha, rfl⟩ := Decoder.map_ofJson_iff.1 h
  rw [← hkey, Form.ofJson_obj_member_iff (kindForm_orderless _ kind) hfield] at ha
  obtain ⟨change, b, -, hread, rfl⟩ := ha
  obtain ⟨slot, hslot, hnode⟩ := hserves.reads role isList rfl v change hread
  exact ⟨slot, hslot, hnode b⟩

theorem fieldDecoder_of_slot (hentry : role.entry isList ∈ kind.fieldEntries)
    (h : (fieldDecoder (decoderWithin levels) kind).ofJson
      (.obj (before ++ (role.name, v) :: after)) = .ok node) {slot : Slot}
    (hslot : (Slot.decoder levels isList).ofJson w = .ok slot) :
    ∃ node', (fieldDecoder (decoderWithin levels) kind).ofJson
      (.obj (before ++ (role.name, w) :: after)) = .ok node' := by
  obtain ⟨field, hfield, hkey, hserves⟩ := exists_serving levels hentry
  rw [fieldDecoder_eq] at h ⊢
  obtain ⟨a, ha, -⟩ := Decoder.map_ofJson_iff.1 h
  rw [← hkey, Form.ofJson_obj_member_iff (kindForm_orderless _ kind) hfield] at ha
  obtain ⟨-, b, hleaves, -, -⟩ := ha
  obtain ⟨change, hread⟩ := hserves.given role isList rfl w slot hslot
  have hw := (Form.ofJson_obj_member_iff (kindForm_orderless _ kind) hfield before after).2
    ⟨change, b, hleaves, hread, rfl⟩
  rw [hkey] at hw
  exact ⟨_, Decoder.map_ofJson hw _⟩

end

/-- The fields of a node that are given as items are read as members under the keys of its kind. -/
theorem fieldDecoder_arr_iff {kind : NodeKind} {items : List Json} {node : Node} :
    (fieldDecoder (decoderWithin levels) kind).ofJson (.arr items) = .ok node ↔
      Form.Spans (kindForm (decoderWithin levels) kind).form.fields items.length ∧
        (fieldDecoder (decoderWithin levels) kind).ofJson
          (.obj ((kind.fieldEntries.map Entry.key).zip items)) = .ok node := by
  rw [fieldDecoder_eq, Decoder.map_ofJson_iff, Decoder.map_ofJson_iff,
    ← (kindForm_matches levels kind).keys]
  simp only [Form.ofJson_arr_iff_obj (kindForm_orderless _ kind), and_assoc, exists_and_left]

end Node

/-- A record with one value left open. -/
inductive Gap where
  | member (before : List (String × Json)) (key : String) (after : List (String × Json))
  | item (before after : List Json)

namespace Gap

def fill : Gap → Json → Json
  | .member before key after, v => .obj (before ++ (key, v) :: after)
  | .item before after, v => .arr (before ++ v :: after)

/-- Whether the gap is for what a node has under a role. -/
inductive Holds (role : Role) (isList : Bool) : Gap → Prop
  | member {kind : NodeKind} {tag : Json} {before after : List (String × Json)} :
      kind.TaggedBy tag → ("Kind", tag) ∈ before ++ after → role.entry isList ∈ kind.fieldEntries →
      Holds role isList (.member before role.name after)
  | item {kind : NodeKind} {tag : Json} {before after : List Json} : kind.TaggedBy tag →
      kind.fieldEntries[before.length]? = some (role.entry isList) →
      Holds role isList (.item (tag :: before) after)

theorem exists_zip {keys : List String} {key : String} {before : List Json}
    (h : keys[before.length]? = some key) (after : List Json) : ∃ before' after', ∀ v,
      keys.zip (before ++ v :: after) = before' ++ (key, v) :: after' := by
  obtain ⟨first, others, rfl, hlength⟩ := exists_append_of_getElem? h
  exact ⟨first.zip before, others.zip after, fun v => by
    rw [List.zip_append hlength, List.zip_cons_cons]⟩

namespace Holds

variable {gap : Gap} {role : Role} {isList : Bool}

theorem fields (h : gap.Holds role isList) (levels : Nat) :
    ∃ (kind : NodeKind) (before after : List (String × Json)) (others : Prop),
      role.entry isList ∈ kind.fieldEntries ∧ ∀ v node,
        (decoderWithin (levels + 1)).ofJson (gap.fill v) = .ok node ↔ others ∧
          (fieldDecoder (decoderWithin levels) kind).ofJson
            (.obj (before ++ (role.name, v) :: after)) = .ok node := by
  cases h with
  | @member kind tag before after htag hmem hentry =>
    refine ⟨kind, without "Kind" before, without "Kind" after,
      under "Kind" (before ++ after) = [tag], hentry, fun v node => ?_⟩
    have hmem' : ("Kind", tag) ∈ before ++ (role.name, v) :: after := by
      rcases List.mem_append.1 hmem with hmem | hmem <;> simp [hmem]
    rw [fill, ofJson_obj_iff htag hmem', under_append, under_cons_ne role.name_ne_kind,
      ← under_append, without_append, without_cons_ne role.name_ne_kind]
  | @item kind tag before after htag hentry =>
    have hkey : (kind.fieldEntries.map Entry.key)[before.length]? = some role.name := by
      rw [List.getElem?_map, hentry, Option.map_some, Role.entry_key]
    obtain ⟨before', after', hzip⟩ := exists_zip hkey after
    refine ⟨kind, before', after', Form.Spans (kindForm (decoderWithin levels) kind).form.fields
      (before.length + (after.length + 1)), List.mem_of_getElem? hentry, fun v node => ?_⟩
    rw [fill, List.cons_append, ofJson_arr_iff htag, fieldDecoder_arr_iff, hzip,
      List.length_append, List.length_cons]

theorem slot (h : gap.Holds role isList) {v : Json} {node : Node}
    (hread : (decoderWithin (levels + 1)).ofJson (gap.fill v) = .ok node) :
    ∃ slot, (Slot.decoder levels isList).ofJson v = .ok slot ∧ node.slot? role = some slot := by
  obtain ⟨kind, before, after, others, hentry, hiff⟩ := h.fields levels
  exact slot_of_fieldDecoder hentry ((hiff v node).1 hread).2

/-- A record that is read with one value in the gap is read with every other that fits there. -/
theorem ofJson_of_slot (h : gap.Holds role isList) {v w : Json} {node : Node}
    (hread : (decoderWithin (levels + 1)).ofJson (gap.fill v) = .ok node) {slot : Slot}
    (hslot : (Slot.decoder levels isList).ofJson w = .ok slot) :
    ∃ node', (decoderWithin (levels + 1)).ofJson (gap.fill w) = .ok node' := by
  obtain ⟨kind, before, after, others, hentry, hiff⟩ := h.fields levels
  obtain ⟨hothers, hfields⟩ := (hiff v node).1 hread
  obtain ⟨node', hnode'⟩ := fieldDecoder_of_slot hentry hfields hslot
  exact ⟨node', (hiff w node').2 ⟨hothers, hnode'⟩⟩

end Holds

end Gap

namespace Node

theorem kind_of_fieldDecoder {child : Decoder Node} {kind : NodeKind} {v : Json} {node : Node}
    (h : (fieldDecoder child kind).ofJson v = .ok node) : node.kind = kind := by
  rw [fieldDecoder_eq] at h
  obtain ⟨a, -, rfl⟩ := Decoder.map_ofJson_iff.1 h
  cases kind <;> rfl

theorem entry_of_mem {node : Node} {slot : Role × Slot} (h : slot ∈ node.slots) :
    slot.1.entry slot.2.isList ∈ node.kind.fieldEntries := by
  have hall : ∀ slot ∈ node.slots, slot.1.entry slot.2.isList ∈ node.kind.fieldEntries := by
    cases node <;>
      simp [slots, kind, NodeKind.fieldEntries, NodeKind.ownEntries, Slot.isList, Role.entry]
  exact hall slot h

theorem entry_of_slot {node : Node} {role : Role} {slot : Slot} (h : node.slot? role = some slot) :
    role.entry slot.isList ∈ node.kind.fieldEntries := by
  have hmem : (role, slot) ∈ node.slots := by
    obtain ⟨before, after, hslots, -⟩ := List.lookup_eq_some_iff.1 h
    rw [hslots]
    simp
  exact entry_of_mem hmem

section

variable {kind : NodeKind} {tag : Json} {members : List (String × Json)} {node : Node} {role : Role}
  {slot : Slot}

theorem exists_member (htag : kind.TaggedBy tag) (hmem : ("Kind", tag) ∈ members)
    (h : (decoderWithin (levels + 1)).ofJson (.obj members) = .ok node)
    (hslot : node.slot? role = some slot) (hsome : slot.children ≠ []) :
    ∃ v, (role.name, v) ∈ members := by
  have hkind : node.kind = kind := kind_of_fieldDecoder ((ofJson_obj_iff htag hmem).1 h).2
  have hentry : role.entry slot.isList ∈ kind.fieldEntries := hkind ▸ entry_of_slot hslot
  by_contra hnone
  have hnew : (role.entry slot.isList).key ∉ members.map Prod.fst := by
    rw [Role.entry_key, List.mem_map]
    rintro ⟨⟨key, v⟩, hv, rfl⟩
    exact hnone ⟨v, hv⟩
  -- Otherwise the value that stands for nothing could be put in, and would be read as nothing.
  obtain ⟨absent, habsent, hnothing⟩ : ∃ absent, (role.entry slot.isList).absent = some absent ∧
      ∀ other, (Slot.decoder levels slot.isList).ofJson absent = .ok other →
        other.children = [] := by
    cases slot.isList with
    | false => exact ⟨.null, rfl, fun other hother => by cases hother; rfl⟩
    | true => exact ⟨.arr [], rfl, fun other hother => by cases hother; rfl⟩
  have hentry' : role.entry slot.isList ∈ kind.entries := List.mem_cons_of_mem _ hentry
  have hfilled := (alike_fill htag hmem hentry' habsent hnew node).1 h
  rw [Role.entry_key] at hfilled
  have hgap : (Gap.member [] role.name members).Holds role slot.isList := .member htag hmem hentry
  obtain ⟨other, hother, hsame⟩ := hgap.slot hfilled
  rw [hslot, Option.some.injEq] at hsame
  rw [hsame] at hsome
  exact hsome (hnothing other hother)

theorem exists_item {items : List Json} (htag : kind.TaggedBy tag)
    (h : (decoderWithin (levels + 1)).ofJson (.arr (tag :: items)) = .ok node)
    (hslot : node.slot? role = some slot) (hsome : slot.children ≠ []) :
    ∃ before v after, items = before ++ v :: after ∧
      kind.fieldEntries[before.length]? = some (role.entry slot.isList) := by
  have hfields := (ofJson_arr_iff htag).1 h
  have hkind : node.kind = kind := kind_of_fieldDecoder hfields
  have hentry : role.entry slot.isList ∈ kind.fieldEntries := hkind ▸ entry_of_slot hslot
  have hnew : "Kind" ∉ ((kind.fieldEntries.map Entry.key).zip items).map Prod.fst := fun hkey => by
    obtain ⟨member, hm, he⟩ := List.mem_map.1 hkey
    exact kind_not_mem_fieldEntries kind (he ▸ (List.of_mem_zip hm).1)
  have hobject : (decoderWithin (levels + 1)).ofJson
      (.obj (("Kind", tag) :: (kind.fieldEntries.map Entry.key).zip items)) = .ok node := by
    rw [ofJson_obj_iff htag (by simp), under_cons_self, under_eq_nil_iff.2 hnew,
      without_cons_self, without_of_not_mem hnew]
    exact ⟨rfl, (fieldDecoder_arr_iff.1 hfields).2⟩
  obtain ⟨v, hv⟩ := exists_member htag (by simp) hobject hslot hsome
  have hzip : (role.name, v) ∈ (kind.fieldEntries.map Entry.key).zip items := by
    simpa [role.name_ne_kind] using hv
  obtain ⟨i, hi⟩ := List.mem_iff_getElem?.1 hzip
  obtain ⟨hkey, hitem⟩ := List.getElem?_zip_eq_some.1 hi
  rw [List.getElem?_map, Option.map_eq_some_iff] at hkey
  obtain ⟨entry, hplace, hname⟩ := hkey
  have hsame : entry = role.entry slot.isList := by
    refine List.inj_on_of_nodup_map (kindForm_matches levels kind).nodup
      (List.mem_of_getElem? hplace) hentry ?_
    rw [hname, Role.entry_key]
  obtain ⟨before, after, rfl, hlength⟩ := exists_append_of_getElem? hitem
  rw [hsame, ← hlength] at hplace
  exact ⟨before, v, after, rfl, hplace⟩

/-- What a node has under a role stands in a gap for it, unless that is nothing. -/
theorem exists_gap {v : Json} (h : (decoderWithin (levels + 1)).ofJson v = .ok node)
    (hslot : node.slot? role = some slot) (hsome : slot.children ≠ []) :
    ∃ (gap : Gap) (w : Json), gap.Holds role slot.isList ∧ v = gap.fill w := by
  obtain ⟨kind, tag, fields, htag, hcarries, hfields⟩ := ofJson_succ_iff.1 h
  cases hcarries with
  | @object _ members hone =>
    have hmem : ("Kind", tag) ∈ members := mem_under.1 (by simp [hone])
    have hentry : role.entry slot.isList ∈ kind.fieldEntries :=
      kind_of_fieldDecoder hfields ▸ entry_of_slot hslot
    obtain ⟨w, hw⟩ := exists_member htag hmem h hslot hsome
    obtain ⟨before, after, rfl⟩ := List.append_of_mem hw
    have hmem' : ("Kind", tag) ∈ before ++ after := by
      have hne : ("Kind", tag) ≠ (role.name, w) := fun he =>
        role.name_ne_kind (congrArg Prod.fst he).symm
      simpa [hne] using hmem
    exact ⟨.member before role.name after, w, .member htag hmem' hentry, rfl⟩
  | array =>
    obtain ⟨before, w, after, rfl, hplace⟩ := exists_item htag h hslot hsome
    exact ⟨.item (tag :: before) after, w, .item htag hplace, rfl⟩

end

end Node

end SyntaxTree
