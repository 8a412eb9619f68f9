import SyntaxTree.Proofs.Node.Layout

set_option autoImplicit false

namespace SyntaxTree

open Json

variable {α : Type} {levels : Nat}

/-- Whether the values under the key of an entry are the same, or differ in one value that is read
alike. -/
inductive Entry.Agrees (levels : Nat) (entry : Entry) : List Json → List Json → Prop
  | perm {values values' : List Json} : values.Perm values' → Agrees levels entry values values'
  | value {v w : Json} (before after : List Json) : (entry.content.decoder levels).Alike v w →
      Agrees levels entry (before ++ v :: after) (before ++ w :: after)

theorem Entry.Agrees.perm_of_plain {entry : Entry} {values values' : List Json}
    (h : entry.Agrees levels values values') (hplain : entry.content = .plain) :
    values.Perm values' := by
  cases h with
  | perm h => exact h
  | value before after h =>
    rw [hplain] at h
    rw [Decoder.alike_json h]

theorem Field.Matches.agrees {blank : α} {field : Field α} {entry : Entry}
    (h : field.Matches levels blank entry) {values values' : List Json}
    (hagrees : entry.Agrees levels values values') : field.Agrees values values' := by
  cases hagrees with
  | perm hperm => exact .of_perm hperm
  | value before after hv => exact .of_value (h.alike _ _ hv) before after

namespace Form.Matches

variable {form : Form α} {entries : List Entry} {members members' : List (String × Json)}

theorem keys (h : form.Matches levels entries) :
    form.fields.map Field.key = entries.map Entry.key := by
  rw [← List.forall₂_eq_eq_eq, List.forall₂_map_left_iff, List.forall₂_map_right_iff]
  exact h.fields.imp fun _ _ hmatch => hmatch.key

theorem nodup (h : form.Matches levels entries) : (entries.map Entry.key).Nodup :=
  h.keys ▸ h.orderless.keys

theorem at_place (h : form.Matches levels entries) {i : Nat} {field : Field α} {entry : Entry}
    (hfield : form.fields[i]? = some field) (hentry : entries[i]? = some entry) :
    field.Matches levels form.blank entry := by
  obtain ⟨hi, rfl⟩ := List.getElem?_eq_some_iff.1 hfield
  obtain ⟨hi', rfl⟩ := List.getElem?_eq_some_iff.1 hentry
  exact h.fields.get hi hi'

theorem exists_entry (h : form.Matches levels entries) {field : Field α}
    (hfield : field ∈ form.fields) :
    ∃ entry ∈ entries, field.Matches levels form.blank entry := by
  obtain ⟨i, hi, rfl⟩ := List.getElem_of_mem hfield
  have hi' : i < entries.length := h.fields.length_eq ▸ hi
  exact ⟨entries[i], List.getElem_mem hi', h.fields.get hi hi'⟩

theorem exists_field (h : form.Matches levels entries) {entry : Entry} (hentry : entry ∈ entries) :
    ∃ field ∈ form.fields, field.Matches levels form.blank entry := by
  obtain ⟨i, hi, rfl⟩ := List.getElem_of_mem hentry
  have hi' : i < form.fields.length := h.fields.length_eq ▸ hi
  exact ⟨form.fields[i], List.getElem_mem hi', h.fields.get hi' hi⟩

theorem alike_obj (h : form.Matches levels entries) (hagrees : ∀ entry ∈ entries,
      entry.Agrees levels (under entry.key members) (under entry.key members')) :
    form.decoder.Alike (.obj members) (.obj members') := by
  refine ofJson_obj_congr h.orderless fun field hfield => ?_
  obtain ⟨entry, hentry, hmatch⟩ := h.exists_entry hfield
  have hkey := hagrees entry hentry
  rw [← hmatch.key] at hkey
  exact hmatch.agrees hkey

theorem alike_fill (h : form.Matches levels entries) {entry : Entry} (hentry : entry ∈ entries)
    {v : Json} (habsent : entry.absent = some v) (hnew : entry.key ∉ members.map Prod.fst) :
    form.decoder.Alike (.obj members) (.obj ((entry.key, v) :: members)) := by
  obtain ⟨field, hfield, hmatch⟩ := h.exists_field hentry
  obtain ⟨hoptional, change, hread, hblank⟩ := hmatch.absent v habsent
  rw [← hmatch.key] at hnew ⊢
  exact fun a => (ofJson_obj_fill h.orderless hfield hoptional hread hblank
    (under_eq_nil_iff.2 hnew) a).symm

theorem alike_arr (h : form.Matches levels entries) {before after : List Json} {v w : Json}
    {entry : Entry} (hentry : entries[before.length]? = some entry)
    (hv : (entry.content.decoder levels).Alike v w) :
    form.decoder.Alike (.arr (before ++ v :: after)) (.arr (before ++ w :: after)) := by
  refine ofJson_arr_congr fun field hfield => ?_
  exact (h.at_place hfield hentry).alike v w hv

end Form.Matches

theorem NodeKind.getElem?_rank (kind : NodeKind) : NodeKind.all[kind.rank.val]? = some kind := by
  cases kind with
  | list kind => cases kind <;> rfl
  | wrapper kind => cases kind <;> rfl
  | leaf kind => cases kind <;> rfl
  | _ => rfl

theorem NodeKind.rank_of_getElem? {i : Nat} {kind : NodeKind}
    (h : NodeKind.all[i]? = some kind) : kind.rank.val = i := by
  have hmap : (NodeKind.all.map NodeKind.rank)[i]? = some kind.rank := by simp [h]
  rw [NodeKind.all_rank] at hmap
  obtain ⟨hi, heq⟩ := List.getElem?_eq_some_iff.1 hmap
  rw [← heq]
  simp

namespace Node

variable {kind : NodeKind} {tag : Json} {members members' : List (String × Json)}

theorem takeTag_of_taggedBy (fields : NodeKind → Json → Except Problem Node)
    (htag : kind.TaggedBy tag) : (tagged fields).takeTag tag = .ok (fields kind) := by
  cases htag with
  | name => exact tagged_find fields kind
  | rank =>
    have hform : (tagged fields).forms[kind.rank.val]? = some (kind.name, fields kind) := by
      simp [tagged, kind.getElem?_rank]
    have hneg : ¬ (kind.rank.val : Int) < 0 := by omega
    simp [Tagged.takeTag, hneg, hform]

theorem taggedBy_of_takeTag {fields : NodeKind → Json → Except Problem Node}
    {form : Json → Except Problem Node} (h : (tagged fields).takeTag tag = .ok form) :
    ∃ kind : NodeKind, kind.TaggedBy tag ∧ form = fields kind := by
  cases tag with
  | str name =>
    have hfind : (tagged fields).forms.find name = .ok form := h
    unfold Alternatives.find at hfind
    split at hfind
    · next a hlookup =>
      cases hfind
      obtain ⟨before, after, hforms, -⟩ := List.lookup_eq_some_iff.1 hlookup
      have hmem : (name, form) ∈ (tagged fields).forms := by
        rw [hforms]
        simp
      obtain ⟨kind, -, heq⟩ := List.mem_map.1 hmem
      cases heq
      exact ⟨kind, .name, rfl⟩
    · cases hfind
  | num n =>
    cases n with
    | integer n =>
      simp only [Tagged.takeTag] at h
      split at h
      · cases h
      · next hneg =>
        split at h
        · next name form' hform =>
          cases h
          obtain ⟨kind, hkind, heq⟩ : ∃ kind, NodeKind.all[n.toNat]? = some kind ∧
              (kind.name, fields kind) = (name, form) := by simpa [tagged] using hform
          cases heq
          have hn : (kind.rank.val : Int) = n := by
            have hrank := NodeKind.rank_of_getElem? hkind
            omega
          rw [← hn]
          exact ⟨kind, .rank, rfl⟩
        · cases h
    | double => cases h
  | _ => cases h

theorem ofJson_obj_iff (htag : kind.TaggedBy tag) (hmem : ("Kind", tag) ∈ members) {node : Node} :
    (decoderWithin (levels + 1)).ofJson (.obj members) = .ok node ↔
      under "Kind" members = [tag] ∧
        (fieldDecoder (decoderWithin levels) kind).ofJson (.obj (without "Kind" members)) =
          .ok node := by
  have hform := takeTag_of_taggedBy
    (fun kind value => (fieldDecoder (decoderWithin levels) kind).ofJson value) htag
  rw [decoderWithin, Tagged.ofJson_obj_iff]
  constructor
  · rintro ⟨tag', form, hone, htake, h⟩
    have hsame : tag = tag' := by
      have hunder := mem_under.2 hmem
      rw [show under "Kind" members = [tag'] from hone] at hunder
      exact List.mem_singleton.1 hunder
    rw [← hsame, hform] at htake
    cases htake
    exact ⟨hsame ▸ hone, h⟩
  · rintro ⟨hone, h⟩
    exact ⟨tag, _, hone, hform, h⟩

theorem ofJson_arr_iff (htag : kind.TaggedBy tag) {items : List Json} {node : Node} :
    (decoderWithin (levels + 1)).ofJson (.arr (tag :: items)) = .ok node ↔
      (fieldDecoder (decoderWithin levels) kind).ofJson (.arr items) = .ok node := by
  have hform := takeTag_of_taggedBy
    (fun kind value => (fieldDecoder (decoderWithin levels) kind).ofJson value) htag
  rw [decoderWithin, Tagged.ofJson_arr_iff]
  constructor
  · rintro ⟨_, _, form, heq, htake, h⟩
    cases heq
    rw [hform] at htake
    cases htake
    exact h
  · intro h
    exact ⟨tag, items, _, rfl, hform, h⟩

theorem ofJson_zero (v : Json) (node : Node) : (decoderWithin 0).ofJson v ≠ .ok node := by
  intro h
  rw [decoderWithin, Tagged.ofJson_iff] at h
  obtain ⟨tag, form, fields, -, htake, h⟩ := h
  obtain ⟨kind, -, rfl⟩ := taggedBy_of_takeTag htake
  cases h

/-- Only records that carry a tag are read as nodes, the rest of them as the fields of the kind that
the tag stands for. -/
theorem ofJson_succ_iff {v : Json} {node : Node} :
    (decoderWithin (levels + 1)).ofJson v = .ok node ↔
      ∃ (kind : NodeKind) (tag fields : Json), kind.TaggedBy tag ∧ Carries "Kind" v tag fields ∧
        (fieldDecoder (decoderWithin levels) kind).ofJson fields = .ok node := by
  rw [decoderWithin, Tagged.ofJson_iff]
  constructor
  · rintro ⟨tag, form, fields, hcarries, htake, h⟩
    obtain ⟨kind, htag, rfl⟩ := taggedBy_of_takeTag htake
    exact ⟨kind, tag, fields, htag, hcarries, h⟩
  · rintro ⟨kind, tag, fields, htag, hcarries, h⟩
    exact ⟨tag, _, fields, hcarries, takeTag_of_taggedBy _ htag, h⟩

theorem alike_zero (v w : Json) : (decoderWithin 0).Alike v w := fun node =>
  iff_of_false (ofJson_zero v node) (ofJson_zero w node)

theorem fieldDecoder_alike {v w : Json}
    (h : (kindForm (decoderWithin levels) kind).form.decoder.Alike v w) :
    (fieldDecoder (decoderWithin levels) kind).Alike v w := by
  rw [fieldDecoder_eq]
  exact h.map _

theorem alike_obj_of_tag (htag : kind.TaggedBy tag) (hmem : ("Kind", tag) ∈ members)
    (hkind : (under "Kind" members).Perm (under "Kind" members'))
    (h : (kindForm (decoderWithin levels) kind).form.decoder.Alike
      (.obj (without "Kind" members)) (.obj (without "Kind" members'))) :
    (decoderWithin (levels + 1)).Alike (.obj members) (.obj members') := by
  have hmem' : ("Kind", tag) ∈ members' := mem_under.1 (hkind.subset (mem_under.2 hmem))
  intro node
  rw [ofJson_obj_iff htag hmem, ofJson_obj_iff htag hmem']
  have hone : under "Kind" members = [tag] ↔ under "Kind" members' = [tag] := by
    rw [← List.perm_singleton, ← List.perm_singleton, hkind.congr_left]
  rw [hone, fieldDecoder_alike h node]

theorem kind_not_mem_fieldEntries (kind : NodeKind) :
    "Kind" ∉ kind.fieldEntries.map Entry.key := by
  cases kind with
  | list kind => cases kind <;> decide
  | wrapper kind => cases kind <;> decide
  | leaf kind => cases kind <;> decide
  | _ => decide

theorem ne_kind_of_mem {entry : Entry} (h : entry ∈ kind.fieldEntries) : entry.key ≠ "Kind" :=
  fun he => kind_not_mem_fieldEntries kind (he ▸ List.mem_map_of_mem h)

theorem alike_obj (htag : kind.TaggedBy tag) (hmem : ("Kind", tag) ∈ members)
    (hagrees : ∀ entry ∈ kind.entries,
      entry.Agrees levels (under entry.key members) (under entry.key members')) :
    (decoderWithin (levels + 1)).Alike (.obj members) (.obj members') := by
  have hkind := (hagrees (.scalar "Kind") (by simp [NodeKind.entries])).perm_of_plain rfl
  refine alike_obj_of_tag htag hmem hkind ?_
  refine (kindForm_matches levels kind).alike_obj fun entry hentry => ?_
  have hne := ne_kind_of_mem hentry
  rw [under_without hne, under_without hne]
  exact hagrees entry (List.mem_cons_of_mem _ hentry)

theorem alike_fill (htag : kind.TaggedBy tag) (hmem : ("Kind", tag) ∈ members) {entry : Entry}
    (hentry : entry ∈ kind.entries) {v : Json} (habsent : entry.absent = some v)
    (hnew : entry.key ∉ members.map Prod.fst) :
    (decoderWithin (levels + 1)).Alike (.obj members) (.obj ((entry.key, v) :: members)) := by
  rcases List.mem_cons.1 hentry with rfl | hentry
  · cases habsent
  · have hne := ne_kind_of_mem hentry
    refine alike_obj_of_tag htag hmem (by rw [under_cons_ne hne]) ?_
    rw [without_cons_ne hne]
    refine (kindForm_matches levels kind).alike_fill hentry habsent fun hkey => hnew ?_
    exact List.map_subset _ (List.filter_subset_self _) hkey

theorem alike_arr {before after : List Json} {v w : Json} {entry : Entry}
    (htag : kind.TaggedBy tag) (hentry : kind.fieldEntries[before.length]? = some entry)
    (hv : (entry.content.decoder levels).Alike v w) :
    (decoderWithin (levels + 1)).Alike (.arr (tag :: (before ++ v :: after)))
      (.arr (tag :: (before ++ w :: after))) := by
  intro node
  rw [ofJson_arr_iff htag, ofJson_arr_iff htag]
  exact fieldDecoder_alike ((kindForm_matches levels kind).alike_arr hentry hv) node

end Node

end SyntaxTree
