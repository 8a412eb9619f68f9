import Mathlib.Data.List.DropRight
import Mathlib.Data.List.Nodup
import SyntaxTree.Decoder.Record
import SyntaxTree.Proofs.Decoder.Containers
import SyntaxTree.Proofs.Decoder.Tagged
import SyntaxTree.Proofs.Json.Skip

/-! Reading straight from the text and reading from a value come to the same. A decoder that streams
a value reads it where it stands if and only if it reads it by itself, and as the same. Of a record
this holds if it does of what its fields are given; members of no field are passed over. -/

set_option autoImplicit false

namespace SyntaxTree

open Json

variable {α β σ : Type} {v : Json}

namespace Json

theorem ItemList.foldItems_iff {item : List Char → Except Fault (Read Json)}
    {item' : List Char → Except Fault (Read α)} {take : Json → Except Problem α} {isFirst : Bool}
    {text rest : List Char} {vs : List Json} (h : ItemList item isFirst text vs rest)
    (hs : Shrinks item) (hitem : ∀ v ∈ vs, ∀ t u, item t = .ok (v, u) →
      ∀ a r, item' t = .ok (a, r) ↔ r = u ∧ take v = .ok a)
    {bound : List Char} (hb : text.length ≤ bound.length) {read read' : List α} {r : List Char} :
    Json.foldItems (collect item') isFirst bound read text = .ok (read', r) ↔
      r = rest ∧ ∃ as, vs.mapM take = .ok as ∧ read' = as.reverse ++ read := by
  induction h generalizing bound read with
  | nil hn =>
    rw [foldItems_none hn]
    simp [pure, Except.pure, and_comm, eq_comm]
  | @cons isFirst text t₁ t₂ rest v vs hn hv _ ih =>
    have h₁ := nextItem_length hn
    have h₂ := hs _ _ _ hv
    cases bound with
    | nil => simp at hb; simp [hb] at h₁; simp [h₁] at h₂
    | cons _ bound =>
      have hle : t₂.length ≤ bound.length := by simp at hb; omega
      have hfirst := hitem v (by simp) t₁ t₂ hv
      unfold Json.foldItems
      rw [List.mapM_cons]
      cases htake : take v with
      | ok a =>
        have hread := (hfirst a t₂).2 ⟨rfl, htake⟩
        have hrest := @ih (fun w hw => hitem w (List.mem_cons_of_mem _ hw)) bound hle (a :: read)
        simp only [hn, collect, hread, ok_bind, hrest, bind_eq_ok]
        constructor
        · rintro ⟨rfl, as, has, rfl⟩
          exact ⟨rfl, a :: as, ⟨as, has, rfl⟩, by simp⟩
        · rintro ⟨rfl, _, ⟨as, has, hcons⟩, rfl⟩
          cases hcons
          exact ⟨rfl, as, has, by simp⟩
      | error problem =>
        cases hread : item' t₁ with
        | ok taken =>
          have hok := ((hfirst taken.1 taken.2).1 hread).2
          rw [htake] at hok
          cases hok
        | error fault => simp [hn, collect, hread]

theorem MemberList.foldMembers_iff {item : List Char → Except Fault (Read Json)}
    {step : σ → String → List Char → Except Fault (Read σ)}
    {take : σ → String × Json → Except Problem σ} {isFirst : Bool} {text rest : List Char}
    {members : List (String × Json)} (h : MemberList item isFirst text members rest)
    (hs : Shrinks item) (hstep : ∀ member ∈ members, ∀ t t' u, colon t = .ok t' →
      item t' = .ok (member.2, u) → ∀ s s' r,
        step s member.1 t = .ok (s', r) ↔ r = u ∧ take s member = .ok s')
    {bound : List Char} (hb : text.length ≤ bound.length) {s s' : σ} {r : List Char} :
    Json.foldMembers step isFirst bound s text = .ok (s', r) ↔
      r = rest ∧ members.foldlM take s = .ok s' := by
  induction h generalizing bound s with
  | nil hn =>
    rw [foldMembers_none hn]
    simp [pure, Except.pure, and_comm, eq_comm]
  | @cons isFirst text t₁ t₂ t₃ t₄ rest key w members hn hk hc hv _ ih =>
    have h₁ := nextKey_length hn
    have h₂ := stringText_length hk
    have h₃ := colon_length hc
    have h₄ := hs _ _ _ hv
    cases bound with
    | nil => simp at hb; simp [hb] at h₁
    | cons _ bound =>
      have hle : t₄.length ≤ bound.length := by simp at hb; omega
      have hfirst := hstep (key, w) (by simp) t₂ t₃ t₄ hc hv s
      unfold Json.foldMembers
      rw [List.foldlM_cons]
      cases htake : take s (key, w) with
      | ok s₁ =>
        have hread := (hfirst s₁ t₄).2 ⟨rfl, htake⟩
        have hrest := @ih (fun member hm => hstep member (List.mem_cons_of_mem _ hm)) bound hle s₁
        simp only [hn, hk, hread, ok_bind, hrest]
      | error problem =>
        cases hread : step s key t₂ with
        | ok taken =>
          have hok := ((hfirst taken.1 taken.2).1 hread).2
          rw [htake] at hok
          cases hok
        | error fault => simp [hn, hk, hread]

end Json

namespace Decoder

/-- Whether a decoder reads a value where it stands in a text exactly as it reads the value by
itself. -/
def Streams (decoder : Decoder α) (v : Json) : Prop :=
  ∀ depth text rest, value depth text = .ok (v, rest) → ∀ a r,
    decoder.ofText depth text = .ok (a, r) ↔ r = rest ∧ decoder.ofJson v = .ok a

theorem Streams.map {decoder : Decoder α} (h : decoder.Streams v) (f : α → β) :
    (decoder.map f).Streams v := by
  intro depth text rest hv b r
  simp only [Decoder.map, bind_eq_ok, Prod.exists, h depth text rest hv]
  constructor
  · rintro ⟨a, _, ⟨rfl, ha⟩, heq⟩
    cases heq
    exact ⟨rfl, a, ha, rfl⟩
  · rintro ⟨rfl, a, ha, heq⟩
    cases heq
    exact ⟨a, r, ⟨rfl, ha⟩, rfl⟩

theorem streams_json (v : Json) : json.Streams v := by
  intro depth text rest hv a r
  have hread : json.ofText depth text = .ok (v, rest) := hv
  rw [hread]
  simp [json, and_comm, eq_comm]

theorem streams_ofScalar {expected : String} {pick : Json → Option (Except Problem α)}
    (hpick : ∀ v a, pick v = some (.ok a) → IsScalar v) (v : Json) :
    (ofScalar expected pick).Streams v := by
  intro depth text rest hv a r
  have hjson : (ofScalar expected pick).ofJson v = .ok a ↔ pick v = some (.ok a) := by
    simp only [ofScalar]
    cases pick v <;> simp
  rw [hjson]
  rcases value_cases (fun d _ => value_shrinks d) hv with hread | ⟨-, t, vs, -, -, hs, rfl, -⟩ |
    ⟨-, t, ms, -, -, hs, rfl, -⟩
  · simp only [ofScalar]
    split
    · next hs => simp [hs, scalar] at hread
    · next hs => simp [hs, scalar] at hread
    · rw [hread, ok_bind]
      cases pick v with
      | none => simp
      | some picked => cases picked <;> simp [and_comm, eq_comm]
  · have hpicked : pick (.arr vs) ≠ some (.ok a) := fun h => hpick _ a h
    simp [ofScalar, hs, hpicked]
  · have hpicked : pick (.obj ms) ≠ some (.ok a) := fun h => hpick _ a h
    simp [ofScalar, hs, hpicked]

theorem streams_string (v : Json) : string.Streams v := by
  refine streams_ofScalar (fun v a h => ?_) v
  cases v with
  | arr => cases h
  | obj => cases h
  | _ => trivial

theorem streams_flag (v : Json) : flag.Streams v := by
  refine streams_ofScalar (fun v a h => ?_) v
  cases v with
  | arr => cases h
  | obj => cases h
  | _ => trivial

theorem streams_unsigned (bits : Nat) (v : Json) : (unsigned bits).Streams v := by
  unfold unsigned
  refine streams_ofScalar (fun v a h => ?_) v
  cases v with
  | arr => cases h
  | obj => cases h
  | _ => trivial

theorem streams_uint8 (v : Json) : uint8.Streams v := (streams_unsigned 8 v).map UInt8.ofNat

theorem streams_uint32 (v : Json) : uint32.Streams v := (streams_unsigned 32 v).map UInt32.ofNat

theorem value_skipSpace (depth : Nat) (text : List Char) :
    value depth (skipSpace text) = value depth text := by
  have hagain : skipSpace (skipSpace text) = skipSpace text := List.dropWhile_idempotent _ _
  rw [value, value, hagain]

theorem Streams.option {decoder : Decoder α} (h : v ≠ .null → decoder.Streams v) :
    decoder.option.Streams v := by
  intro depth text rest hv o r
  by_cases hnull : v = .null
  · rw [hnull] at hv ⊢
    rcases value_cases (fun d _ => value_shrinks d) hv with hread | ⟨-, -, _, -, -, -, hv, -⟩ |
      ⟨-, -, _, -, -, -, hv, -⟩
    · obtain ⟨core, -, hcore, htext⟩ := scalar_eq_ok hread
      cases hcore
      simp [Decoder.option, htext, word, and_comm, eq_comm]
    · cases hv
    · cases hv
  · rw [← value_skipSpace] at hv
    have hread := (h hnull).map some depth _ rest hv o r
    rw [option_ofJson_some hnull]
    simp only [Decoder.option]
    split
    · next t hs =>
      rw [value, hs] at hv
      exact absurd (literal_eq_ok hv).1 hnull
    · exact hread

theorem Streams.list {decoder : Decoder α} {vs : List Json} (h : ∀ v ∈ vs, decoder.Streams v) :
    decoder.list.Streams (.arr vs) := by
  intro depth text rest hv as r
  obtain ⟨d, t, u, rfl, hs, hvs, hl⟩ := value_eq_arr_iff.1 hv
  have hfold (read : List α) (u' : List Char) :
      foldItems (collect (decoder.ofText d)) true t [] t = .ok (read, u') ↔
        u' = u ∧ ∃ as, vs.mapM decoder.ofJson = .ok as ∧ read = as.reverse ++ [] :=
    hvs.foldItems_iff (value_shrinks d) (fun v hmem t u hv => h v hmem d t u hv) (Nat.le_refl _)
  have hlist : decoder.list.ofText (d + 1) text = finish leaveArray
      (foldItems (collect (decoder.ofText d)) true t [] t >>= fun taken =>
        .ok (taken.1.reverse, taken.2)) := by
    simp only [Decoder.list, hs]
    rfl
  rw [hlist, finish_eq_ok_iff]
  simp only [bind_eq_ok, Prod.exists, hfold]
  constructor
  · rintro ⟨u', ⟨_, _, ⟨rfl, read, hread, rfl⟩, heq⟩, hl'⟩
    cases heq
    rw [hl] at hl'
    cases hl'
    rw [List.append_nil, List.reverse_reverse]
    exact ⟨rfl, hread⟩
  · rintro ⟨rfl, hread⟩
    exact ⟨u, ⟨as.reverse, u, ⟨rfl, as, hread, by simp⟩, by simp⟩, hl⟩

end Decoder

theorem Alternatives.streams_str (alternatives : Alternatives α) (name : String) :
    alternatives.decoder.Streams (.str name) := by
  intro depth text rest hv a r
  obtain ⟨w, core, hw, ⟨body, hbody, rfl⟩, -, rfl⟩ := value_sound depth _ _ _ hv
  have hs := skipSpace_blank_cons hw (show isSpace '"' = false by decide) (body ++ '"' :: rest)
  have htext : w ++ ('"' :: (body ++ ['"']) ++ rest) = w ++ '"' :: (body ++ '"' :: rest) := by simp
  rw [htext]
  simp only [decoder, hs, readName, hbody.stringText_eq, ok_bind]
  cases alternatives.find name <;> simp [and_comm, eq_comm]

theorem Tagged.streams {tagged : Tagged α} (h : tagged.NamesForm v) : tagged.decoder.Streams v := by
  intro depth text rest hv a r
  rw [ofText_eq_ok_iff]
  constructor
  · rintro ⟨w, hw, -, ha⟩
    rw [hv] at hw
    cases hw
    exact ⟨rfl, ha⟩
  · rintro ⟨rfl, ha⟩
    exact ⟨v, hv, h, ha⟩

def Field.StreamsMember (field : Field α) (member : String × Json) : Prop :=
  field.key = member.1 ∧ field.decoder.Streams member.2

theorem Field.StreamsMember.of {key : String} {presence : Presence} {decoder : Decoder β}
    {put : β → α → α} (h : decoder.Streams v) :
    (Field.of key presence decoder put).StreamsMember (key, v) := ⟨rfl, h.map put⟩

namespace Form

variable {form : Form α} {members : List (String × Json)}

/-- Whether a member is for a field that streams its value, or for no field and passed over. -/
def StreamsMember (form : Form α) (member : String × Json) : Prop :=
  (∃ field, form.fields.find? (·.key = member.1) = some field ∧ field.StreamsMember member) ∨
    form.fields.find? (·.key = member.1) = none ∧ IsSkipped member.2

theorem readMember_iff {member : String × Json} (h : form.StreamsMember member) {depth : Nat}
    {text text' rest : List Char} (hc : colon text = .ok text')
    (hv : value depth text' = .ok (member.2, rest)) (filling filling' : Filling α)
    (r : List Char) : form.readMember depth filling member.1 text = .ok (filling', r) ↔
      r = rest ∧ form.takeMember filling member = .ok filling' := by
  rcases h with ⟨field, hfind, -, hfield⟩ | ⟨hfind, hskipped⟩
  · by_cases hseen : member.1 ∈ filling.seen
    · simp [readMember, takeMember, fieldFor, hfind, hseen]
    · have hfor : form.fieldFor filling member.1 = .ok (some field) := by
        simp [fieldFor, hfind, hseen]
      have hread := hfield depth text' rest hv
      simp only [readMember, takeMember, hfor, hc, ok_bind, bind_eq_ok, Prod.exists, hread]
      constructor
      · rintro ⟨change, _, ⟨rfl, hchange⟩, heq⟩
        cases heq
        exact ⟨rfl, change, hchange, rfl⟩
      · rintro ⟨rfl, change, hchange, heq⟩
        cases heq
        exact ⟨change, r, ⟨rfl, hchange⟩, rfl⟩
  · have hskip := hskipped depth text' rest hv
    simp only [readMember, takeMember, fieldFor, hfind, hc, hskip, ok_bind, Except.ok.injEq,
      Prod.mk.injEq]
    rw [and_comm, eq_comm (a := rest)]

theorem readMembers_eq_ok_iff {depth : Nat} {text rest : List Char} {a : α} :
    form.readMembers depth text = .ok (a, rest) ↔ ∃ filling,
      foldMembers (form.readMember depth) true text ⟨form.blank, []⟩ text = .ok (filling, rest) ∧
        form.complete filling = .ok a := by
  simp only [readMembers, bind_eq_ok, Prod.exists]
  constructor
  · rintro ⟨filling, text', hfold, h⟩
    cases hcomplete : form.complete filling with
    | error problem => simp [hcomplete] at h
    | ok record =>
      simp only [hcomplete, Except.ok.injEq, Prod.mk.injEq] at h
      obtain ⟨rfl, rfl⟩ := h
      exact ⟨filling, hfold, hcomplete⟩
  · rintro ⟨filling, hfold, hcomplete⟩
    exact ⟨filling, rest, hfold, by simp [hcomplete]⟩

/-- An object streams if its members do. -/
theorem streams_obj (h : ∀ member ∈ members, form.StreamsMember member) :
    form.decoder.Streams (.obj members) := by
  intro depth text rest hv a r
  obtain ⟨d, t, u, rfl, hs, hmembers, hl⟩ := value_eq_obj_iff.1 hv
  have hfold (filling : Filling α) (u' : List Char) :
      foldMembers (form.readMember d) true t ⟨form.blank, []⟩ t = .ok (filling, u') ↔
        u' = u ∧ members.foldlM form.takeMember ⟨form.blank, []⟩ = .ok filling :=
    hmembers.foldMembers_iff (value_shrinks d)
      (fun member hmember _ _ _ hc hv => readMember_iff (h member hmember) hc hv) (Nat.le_refl _)
  have hjson : form.decoder.ofJson (.obj members) =
      (members.foldlM form.takeMember ⟨form.blank, []⟩ >>= form.complete) := rfl
  have htext : form.decoder.ofText (d + 1) text =
      finish leaveObject (form.readMembers d t) := by simp [decoder, hs]
  rw [hjson, htext, finish_eq_ok_iff, bind_eq_ok]
  simp only [readMembers_eq_ok_iff, hfold]
  constructor
  · rintro ⟨_, ⟨filling, ⟨rfl, htake⟩, hcomplete⟩, hl'⟩
    rw [hl] at hl'
    cases hl'
    exact ⟨rfl, filling, htake, hcomplete⟩
  · rintro ⟨rfl, filling, htake, hcomplete⟩
    exact ⟨u, ⟨filling, ⟨rfl, htake⟩, hcomplete⟩, hl⟩

theorem find?_key {fields : List (Field α)} (hkeys : (fields.map Field.key).Nodup)
    {field : Field α} (hfield : field ∈ fields) :
    fields.find? (·.key = field.key) = some field := by
  cases hfind : fields.find? (·.key = field.key) with
  | none => exact absurd (List.find?_eq_none.1 hfind field hfield) (by simp)
  | some other =>
    have hkey : other.key = field.key := by simpa using List.find?_some hfind
    rw [List.inj_on_of_nodup_map hkeys (List.mem_of_find?_eq_some hfind) hfield hkey]

theorem streamsMember_of_fields (hkeys : (form.fields.map Field.key).Nodup)
    (h : List.Forall₂ Field.StreamsMember form.fields members) :
    ∀ member ∈ members, form.StreamsMember member := by
  intro member hmember
  obtain ⟨i, hi, rfl⟩ := List.getElem_of_mem hmember
  have hi' : i < form.fields.length := h.length_eq ▸ hi
  have hstreams : (form.fields[i]).StreamsMember members[i] := h.get hi' hi
  refine .inl ⟨form.fields[i], ?_, hstreams⟩
  rw [← hstreams.1]
  exact find?_key hkeys (List.getElem_mem hi')

end Form

/-- A document that holds what a decoder streams is read as that. -/
theorem Decoder.Streams.read_iff {decoder : Decoder α} (h : decoder.Streams v) {text : String}
    {rest : List Char} (hv : value nestingLimit text.toList = .ok (v, rest))
    (hrest : skipSpace rest = []) {a : α} :
    decoder.read text = .ok a ↔ decoder.ofJson v = .ok a := by
  rw [Decoder.read, document_eq_ok_iff]
  simp only [h _ _ _ hv]
  constructor
  · rintro ⟨_, ⟨-, ha⟩, -⟩
    exact ha
  · intro ha
    exact ⟨rest, ⟨rfl, ha⟩, hrest⟩

end SyntaxTree
