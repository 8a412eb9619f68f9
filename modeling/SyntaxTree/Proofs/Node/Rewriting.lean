import Mathlib.Logic.Relation
import SyntaxTree.Proofs.Decoder.Containers
import SyntaxTree.Proofs.Json.Document
import SyntaxTree.Proofs.Node.Alike

/-! Documents that are written differently and say the same. Members may stand in any order, members
that no record of the type has come and go, and so do those that say nothing; the spelling of the
text is free anyhow. No such change makes a difference to the tree that is read. -/

set_option autoImplicit false

namespace SyntaxTree

open Json

inductive Layout : Content → Json → List Entry → Prop
  | position {v : Json} : Layout .position v Position.entries
  | token {v : Json} : Layout .token v Token.entries
  | object {kind : NodeKind} {tag : Json} {members : List (String × Json)} :
      kind.TaggedBy tag → ("Kind", tag) ∈ members → Layout .node (.obj members) kind.entries
  | array {kind : NodeKind} {tag : Json} {items : List Json} :
      kind.TaggedBy tag → Layout .node (.arr (tag :: items)) kind.entries

/-- A change of a value at one place. -/
inductive Rewrite : Content → Json → Json → Prop
  /-- Members change places. -/
  | permute {content : Content} {entries : List Entry} {members members' : List (String × Json)} :
      Layout content (.obj members) entries → members.Perm members' →
      Rewrite content (.obj members) (.obj members')
  /-- A member is put in that is no entry of the record, with any value. -/
  | insert {content : Content} {entries : List Entry} {before after : List (String × Json)}
      {key : String} {v : Json} : Layout content (.obj (before ++ after)) entries →
      key ∉ entries.map Entry.key →
      Rewrite content (.obj (before ++ after)) (.obj (before ++ (key, v) :: after))
  /-- An entry that is left out is put in, with the value that stands for nothing. -/
  | fill {content : Content} {entries : List Entry} {before after : List (String × Json)}
      {entry : Entry} {v : Json} : Layout content (.obj (before ++ after)) entries →
      entry ∈ entries → entry.absent = some v → entry.key ∉ (before ++ after).map Prod.fst →
      Rewrite content (.obj (before ++ after)) (.obj (before ++ (entry.key, v) :: after))
  /-- The value of an entry changes. -/
  | member {content : Content} {entries : List Entry} {before after : List (String × Json)}
      {entry : Entry} {v w : Json} :
      Layout content (.obj (before ++ (entry.key, v) :: after)) entries → entry ∈ entries →
      Rewrite entry.content v w → Rewrite content (.obj (before ++ (entry.key, v) :: after))
        (.obj (before ++ (entry.key, w) :: after))
  /-- The value of an entry changes in a record that is written as an array. -/
  | place {content : Content} {entries : List Entry} {before after : List Json}
      {entry : Entry} {v w : Json} : Layout content (.arr (before ++ v :: after)) entries →
      entries[before.length]? = some entry → Rewrite entry.content v w →
      Rewrite content (.arr (before ++ v :: after)) (.arr (before ++ w :: after))
  | item {content : Content} {before after : List Json} {v w : Json} : Rewrite content v w →
      Rewrite (.list content) (.arr (before ++ v :: after)) (.arr (before ++ w :: after))
  | present {content : Content} {v w : Json} : Rewrite content v w →
      Rewrite (.option content) v w

namespace Layout

variable {content : Content} {entries : List Entry} {members members' : List (String × Json)}

theorem keys_nodup {v : Json} (h : Layout content v entries) : (entries.map Entry.key).Nodup := by
  have hkind (kind : NodeKind) : (kind.entries.map Entry.key).Nodup :=
    List.nodup_cons.2 ⟨Node.kind_not_mem_fieldEntries kind, (Node.kindForm_matches 0 kind).nodup⟩
  cases h with
  | position => exact (Position.form_matches 0).nodup
  | token => exact (Token.form_matches 0).nodup
  | object => exact hkind _
  | array => exact hkind _

theorem alike_obj (h : Layout content (.obj members) entries) (hagrees : ∀ levels,
      ∀ entry ∈ entries, entry.Agrees levels (under entry.key members) (under entry.key members'))
    (levels : Nat) : (content.decoder levels).Alike (.obj members) (.obj members') := by
  cases h with
  | position => exact (Position.form_matches levels).alike_obj (hagrees levels)
  | token => exact (Token.form_matches levels).alike_obj (hagrees levels)
  | object htag hmem =>
    cases levels with
    | zero => exact Node.alike_zero _ _
    | succ levels => exact Node.alike_obj htag hmem (hagrees levels)

theorem alike_front (h : Layout content (.obj members) entries) {entry : Entry}
    (hentry : entry ∈ entries) {v : Json} (habsent : entry.absent = some v)
    (hnew : entry.key ∉ members.map Prod.fst) (levels : Nat) :
    (content.decoder levels).Alike (.obj members) (.obj ((entry.key, v) :: members)) := by
  cases h with
  | position => exact (Position.form_matches levels).alike_fill hentry habsent hnew
  | token => exact (Token.form_matches levels).alike_fill hentry habsent hnew
  | object htag hmem =>
    cases levels with
    | zero => exact Node.alike_zero _ _
    | succ levels => exact Node.alike_fill htag hmem hentry habsent hnew

theorem cons (h : Layout content (.obj members) entries) (member : String × Json) :
    Layout content (.obj (member :: members)) entries := by
  cases h with
  | position => exact .position
  | token => exact .token
  | object htag hmem => exact .object htag (List.mem_cons_of_mem _ hmem)

theorem alike_perm (h : Layout content (.obj members) entries) (hperm : members.Perm members')
    (levels : Nat) : (content.decoder levels).Alike (.obj members) (.obj members') :=
  h.alike_obj (fun _ entry _ => .perm (under_perm entry.key hperm)) levels

theorem alike_arr {before after : List Json} {v w : Json} {entry : Entry}
    (h : Layout content (.arr (before ++ v :: after)) entries)
    (hentry : entries[before.length]? = some entry)
    (hv : ∀ levels, (entry.content.decoder levels).Alike v w) (levels : Nat) :
    (content.decoder levels).Alike (.arr (before ++ v :: after)) (.arr (before ++ w :: after)) := by
  generalize hvs : before ++ v :: after = vs at h
  cases h with
  | position => exact hvs ▸ (Position.form_matches levels).alike_arr hentry (hv levels)
  | token => exact hvs ▸ (Token.form_matches levels).alike_arr hentry (hv levels)
  | array htag =>
    cases before with
    | nil =>
      cases hentry
      rw [← Decoder.alike_json (hv levels), ← hvs]
      exact fun _ => Iff.rfl
    | cons tag before =>
      obtain ⟨rfl, rfl⟩ := List.cons.inj hvs
      cases levels with
      | zero => exact Node.alike_zero _ _
      | succ levels => exact Node.alike_arr htag hentry (hv levels)

end Layout

namespace Decoder

variable {α : Type} {decoder : Decoder α} {v w : Json}

theorem Alike.list (h : decoder.Alike v w) (before after : List Json) :
    decoder.list.Alike (.arr (before ++ v :: after)) (.arr (before ++ w :: after)) := by
  intro items
  have hitem (a : α) := h a
  simp only [list_ofJson_middle_iff, hitem]

theorem Alike.option (h : decoder.Alike v w) (hv : v ≠ .null) (hw : w ≠ .null) :
    decoder.option.Alike v w := by
  intro o
  rw [option_ofJson_some hv, option_ofJson_some hw, bind_eq_ok, bind_eq_ok]
  exact exists_congr fun a => and_congr_left fun _ => h a

end Decoder

namespace Rewrite

variable {content : Content} {v w : Json}

theorem ne_null (h : Rewrite content v w) : v ≠ .null ∧ w ≠ .null := by
  induction h with
  | present _ ih => exact ih
  | _ => exact ⟨nofun, nofun⟩

theorem agrees_member {entries : List Entry} (hkeys : (entries.map Entry.key).Nodup)
    {entry : Entry} (hentry : entry ∈ entries) {levels : Nat}
    (hv : (entry.content.decoder levels).Alike v w) (before after : List (String × Json))
    {other : Entry} (hother : other ∈ entries) :
    other.Agrees levels (under other.key (before ++ (entry.key, v) :: after))
      (under other.key (before ++ (entry.key, w) :: after)) := by
  rw [under_append, under_append]
  by_cases hkey : entry.key = other.key
  · have hsame : entry = other := List.inj_on_of_nodup_map hkeys hentry hother hkey
    rw [← hsame, under_cons_self, under_cons_self]
    exact .value _ _ hv
  · rw [under_cons_ne hkey, under_cons_ne hkey]
    exact .perm (.refl _)

/-- A change of a value makes no difference to what is read of it. -/
theorem alike (h : Rewrite content v w) : ∀ levels, (content.decoder levels).Alike v w := by
  induction h with
  | permute hlayout hperm => exact hlayout.alike_perm hperm
  | @insert _ _ before after key v hlayout hkey =>
    refine hlayout.alike_obj fun levels entry hentry => .perm ?_
    have hne : key ≠ entry.key := fun he => hkey (he ▸ List.mem_map_of_mem hentry)
    rw [under_append, under_append, under_cons_ne hne]
  | @fill _ _ before after entry v hlayout hentry habsent hnew =>
    intro levels a
    have hfront := hlayout.alike_front hentry habsent hnew levels a
    have hplace := (hlayout.cons (entry.key, v)).alike_perm List.perm_middle.symm levels a
    exact hfront.trans hplace
  | member hlayout hentry _ ih =>
    exact hlayout.alike_obj fun levels other hother =>
      agrees_member hlayout.keys_nodup hentry (ih levels) _ _ hother
  | place hlayout hentry _ ih => exact hlayout.alike_arr hentry ih
  | item _ ih => exact fun levels => (ih levels).list _ _
  | present h ih => exact fun levels => (ih levels).option h.ne_null.1 h.ne_null.2

theorem ne_plain (h : Rewrite content v w) : content ≠ .plain := by
  rintro rfl
  cases h with
  | permute hlayout => cases hlayout
  | insert hlayout => cases hlayout
  | fill hlayout => cases hlayout
  | member hlayout => cases hlayout
  | place hlayout => cases hlayout

theorem key_ne_kind {kind : NodeKind} {entry : Entry} (hentry : entry ∈ kind.entries)
    (h : entry.content ≠ .plain ∨ entry.absent ≠ none) : entry.key ≠ "Kind" := by
  rcases List.mem_cons.1 hentry with rfl | hentry
  · simp [Entry.scalar] at h
  · exact Node.ne_kind_of_mem hentry

theorem namesForm_iff {fields : NodeKind → Json → Except Problem Node}
    (h : Rewrite .node v w) :
    (Node.tagged fields).NamesForm v ↔ (Node.tagged fields).NamesForm w := by
  have hput {before after : List (String × Json)} {key : String} (hkey : key ≠ "Kind") (u : Json) :
      (Node.tagged fields).NamesForm (.obj (before ++ (key, u) :: after)) ↔
        (Node.tagged fields).NamesForm (.obj (before ++ after)) := by
    simp [Tagged.NamesForm, Node.tagged, hkey, or_imp, forall_and]
  cases h with
  | permute _ hperm => simp only [Tagged.NamesForm, hperm.mem_iff]
  | insert hlayout hkey =>
    cases hlayout with
    | object => exact (hput (fun he => hkey (by simp [he, NodeKind.entries, Entry.scalar])) _).symm
  | fill hlayout hentry habsent =>
    cases hlayout with
    | object => exact (hput (key_ne_kind hentry (.inr (by simp [habsent]))) _).symm
  | member hlayout hentry h =>
    generalize hmembers : _ ++ (_ : String × Json) :: _ = members at hlayout
    cases hlayout with
    | object =>
      have hkey := key_ne_kind hentry (.inl h.ne_plain)
      rw [← hmembers, hput hkey, hput hkey]
  | @place _ _ before after entry v w hlayout hentry h =>
    cases before with
    | nil =>
      cases hlayout with
      | array =>
        cases hentry
        exact absurd rfl h.ne_plain
    | cons => exact Iff.rfl

end Rewrite

namespace Node

/-- A tree is read from a text if the text spells a value, not too deep and with a name for a tag,
that the tree is read from. -/
theorem ofText_iff_documents {text : String} {node : Node} :
    ofText text = .ok node ↔ ∃ v : Json, v.Documents text ∧ v.nesting ≤ nestingLimit ∧
      (tagged fun kind value => (fieldDecoder (decoderWithin 126) kind).ofJson value).NamesForm v ∧
        decoder.ofJson v = .ok node := by
  rw [ofText_eq_ok_iff]
  constructor
  · rintro ⟨rest, hread, hrest⟩
    obtain ⟨v, hv, hnames, hnode⟩ := Tagged.ofText_eq_ok_iff.1 hread
    obtain ⟨hdocument, hnesting⟩ := documents_iff.2 ⟨rest, hv, hrest⟩
    exact ⟨v, hdocument, hnesting, hnames, hnode⟩
  · rintro ⟨v, hdocument, hnesting, hnames, hnode⟩
    obtain ⟨rest, hv, hrest⟩ := documents_iff.1 ⟨hdocument, hnesting⟩
    exact ⟨rest, Tagged.ofText_eq_ok_iff.2 ⟨v, hv, hnames, hnode⟩, hrest⟩

theorem eqvGen_alike {fields : NodeKind → Json → Except Problem Node} {v w : Json}
    (h : Relation.EqvGen (Rewrite .node) v w) :
    decoder.Alike v w ∧ ((tagged fields).NamesForm v ↔ (tagged fields).NamesForm w) := by
  induction h with
  | rel v w h => exact ⟨h.alike nestingLimit, h.namesForm_iff⟩
  | refl v => exact ⟨fun _ => Iff.rfl, Iff.rfl⟩
  | symm v w _ ih => exact ⟨fun node => (ih.1 node).symm, ih.2.symm⟩
  | trans u v w _ _ ih ih' => exact ⟨fun node => (ih.1 node).trans (ih'.1 node), ih.2.trans ih'.2⟩

/-- A tree that is read from a text is read from every other text that says the same: from every
spelling of a value that any number of changes, made or undone, lead to from the value of the text,
if no more than 127 arrays and objects stand inside one another in it. -/
theorem ofText_rewritten {text : String} {node : Node} (h : ofText text = .ok node) :
    (∃ v : Json, v.Documents text) ∧
    ∀ (v w : Json) (other : String), v.Documents text → Relation.EqvGen (Rewrite .node) v w →
      w.nesting ≤ 127 → w.Documents other → ofText other = .ok node := by
  obtain ⟨u, hu, -, hnames, hnode⟩ := ofText_iff_documents.1 h
  refine ⟨⟨u, hu⟩, fun v w other hv hrewrite hnesting hw => ?_⟩
  rw [hu.unique hv] at hnames hnode
  obtain ⟨hreads, hiff⟩ := eqvGen_alike hrewrite
  exact ofText_iff_documents.2 ⟨w, hw, hnesting, hiff.1 hnames, (hreads node).1 hnode⟩

theorem variable_rewritten :
    ofText "\x7b\"Kind\":\"Variable\"\x7d" = .ok (.wrapper .variable {} none) ∧
    ofText " \x7b\"V\\u0061rName\" : null,\"Extra\":[true],\"Kind\":\"Variable\"\x7d\n" =
      .ok (.wrapper .variable {} none) := by
  have hread : ofText "\x7b\"Kind\":\"Variable\"\x7d" = .ok (.wrapper .variable {} none) := rfl
  have hv : value 127 "\x7b\"Kind\":\"Variable\"\x7d".toList =
      .ok (.obj [("Kind", .str "Variable")], []) := rfl
  have hw : value 127
      " \x7b\"V\\u0061rName\" : null,\"Extra\":[true],\"Kind\":\"Variable\"\x7d\n".toList =
        .ok (.obj [("VarName", .null), ("Extra", .arr [.bool true]), ("Kind", .str "Variable")],
          ['\n']) := rfl
  have htag : (NodeKind.wrapper .variable).TaggedBy (.str "Variable") := .name
  have hentry : Entry.ifAny "VarName" .node ∈ (NodeKind.wrapper .variable).entries := by
    simp [NodeKind.entries, NodeKind.fieldEntries, NodeKind.ownEntries, WrapperKind.role, Role.name]
  have hnew : (Entry.ifAny "VarName" .node).key ∉ ["Kind"] := by decide
  have hfill : Rewrite .node (.obj ([] ++ [("Kind", .str "Variable")]))
      (.obj ([] ++ ("VarName", .null) :: [("Kind", .str "Variable")])) :=
    .fill (.object htag (by simp)) hentry rfl hnew
  have hinsert : Rewrite .node (.obj ([("VarName", .null)] ++ [("Kind", .str "Variable")]))
      (.obj ([("VarName", .null)] ++
        ("Extra", .arr [.bool true]) :: [("Kind", .str "Variable")])) :=
    .insert (.object htag (by simp)) (by decide)
  have hrewrite := (Relation.EqvGen.rel _ _ hfill).trans _ _ _ (.rel _ _ hinsert)
  exact ⟨hread, (ofText_rewritten hread).2 _ _ _ (documents_iff.2 ⟨_, hv, rfl⟩).1 hrewrite
    (by decide) (documents_iff.2 ⟨_, hw, rfl⟩).1⟩

end Node

end SyntaxTree
