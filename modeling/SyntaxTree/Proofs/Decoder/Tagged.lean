import SyntaxTree.Proofs.Json.Reading
import SyntaxTree.Proofs.Decoder.Buffered

set_option autoImplicit false

namespace SyntaxTree.Tagged

open Json

variable {α : Type} {tagged : Tagged α}

theorem foldlM_takeMember {members : List (String × Json)} (h : tagged.tag ∉ members.map Prod.fst)
    (opened : Opened α) : members.foldlM tagged.takeMember opened =
      .ok { opened with members := members.reverse ++ opened.members } := by
  induction members generalizing opened with
  | nil => rfl
  | cons member members ih =>
    simp only [List.map_cons, List.mem_cons, not_or] at h
    have hne : ¬ member.1 = tagged.tag := fun he => h.1 he.symm
    rw [List.foldlM_cons]
    simp [takeMember, hne, ih h.2]

theorem ofJson_obj {name : String} {form : Json → Except Problem α}
    (hname : tagged.forms.find name = .ok form) {members : List (String × Json)}
    (h : tagged.tag ∉ members.map Prod.fst) :
    tagged.decoder.ofJson (.obj ((tagged.tag, .str name) :: members)) = form (.obj members) := by
  have ht := foldlM_takeMember h ⟨some form, []⟩
  simp [decoder, takeMember, takeTag, hname, ht]

def nameTag (tagged : Tagged α) : Json → Except Problem (Json → Except Problem α)
  | .str name => tagged.forms.find name
  | value => .error (.invalidType (.ofJson value) tagText)

def nameMember (tagged : Tagged α) (opened : Opened α) (member : String × Json) :
    Except Problem (Opened α) :=
  if member.1 = tagged.tag then
    if opened.form.isSome then .error (.duplicateField member.1)
    else do
      let form ← tagged.nameTag member.2
      .ok { opened with form := some form }
  else .ok { opened with members := member :: opened.members }

def NamesForm (tagged : Tagged α) : Json → Prop
  | .arr (tag :: _) => ∃ name, tag = .str name
  | .obj members => ∀ member ∈ members, member.1 = tagged.tag → ∃ name, member.2 = .str name
  | _ => True

theorem nameTag_eq_ok_iff {v : Json} {form : Json → Except Problem α} :
    tagged.nameTag v = .ok form ↔ (∃ name, v = .str name) ∧ tagged.takeTag v = .ok form := by
  cases v <;> simp [nameTag, takeTag]

theorem foldlM_nameMember_iff {members : List (String × Json)} {opened opened' : Opened α} :
    members.foldlM tagged.nameMember opened = .ok opened' ↔
      tagged.NamesForm (.obj members) ∧ members.foldlM tagged.takeMember opened = .ok opened' := by
  induction members generalizing opened with
  | nil => simp [NamesForm]
  | cons member members ih =>
    rw [List.foldlM_cons, List.foldlM_cons, bind_eq_ok, bind_eq_ok]
    have hstep (o : Opened α) : tagged.nameMember opened member = .ok o ↔
        (member.1 = tagged.tag → ∃ name, member.2 = .str name) ∧
          tagged.takeMember opened member = .ok o := by
      unfold nameMember takeMember
      by_cases hkey : member.1 = tagged.tag
      · by_cases hform : opened.form.isSome = true
        · simp [hkey, hform]
        · simp [hkey, hform, bind_eq_ok, nameTag_eq_ok_iff, and_assoc]
      · simp [hkey]
    simp only [hstep, ih, NamesForm, List.forall_mem_cons]
    constructor
    · rintro ⟨o, ⟨h₁, h₂⟩, h₃, h₄⟩
      exact ⟨⟨h₁, h₃⟩, o, h₂, h₄⟩
    · rintro ⟨⟨h₁, h₃⟩, o, h₂, h₄⟩
      exact ⟨o, ⟨h₁, h₂⟩, h₃, h₄⟩

theorem readTag_eq_ok_iff (depth : Nat) {text rest : List Char}
    {form : Json → Except Problem α} :
    tagged.readTag text = .ok (form, rest) ↔
      ∃ v, value depth text = .ok (v, rest) ∧ tagged.nameTag v = .ok form := by
  constructor
  · intro h
    unfold readTag at h
    split at h
    · next r hs =>
      obtain ⟨⟨name, r'⟩, hname, h⟩ := bind_eq_ok.1 h
      cases hf : tagged.forms.find name with
      | error problem => simp [hf] at h
      | ok form' =>
        simp only [hf, Except.ok.injEq, Prod.mk.injEq] at h
        obtain ⟨rfl, rfl⟩ := h
        refine ⟨.str name, ?_, hf⟩
        simp [value, hs, scalar, hname]
    · cases h
  · rintro ⟨v, hv, hf⟩
    obtain ⟨⟨name, rfl⟩, hf⟩ := nameTag_eq_ok_iff.1 hf
    obtain ⟨w, core, hw, ⟨body, hb, rfl⟩, -, rfl⟩ := value_sound depth _ _ _ hv
    have hfind : tagged.forms.find name = .ok form := hf
    have hs : skipSpace (w ++ ('"' :: (body ++ ['"']) ++ rest)) = '"' :: (body ++ '"' :: rest) := by
      simpa using skipSpace_blank_cons hw (show isSpace '"' = false by decide) (body ++ '"' :: rest)
    unfold readTag
    rw [hs]
    simp [Alternatives.readName, hb.stringText_eq, hfind]

theorem readMember_factors (tagged : Tagged α) (depth : Nat) :
    Factors (tagged.readMember depth) (value depth) tagged.nameMember := by
  intro opened key text opened' rest
  by_cases hkey : key = tagged.tag
  · by_cases hform : opened.form.isSome = true
    · simp [readMember, nameMember, hkey, hform]
    · simp only [readMember, nameMember, hkey, hform, if_true, bind_eq_ok, Bool.false_eq_true,
        if_false]
      constructor
      · rintro ⟨t, hc, ⟨form, r⟩, hread, h⟩
        cases h
        obtain ⟨v, hv, hf⟩ := (readTag_eq_ok_iff depth).1 hread
        exact ⟨t, v, hc, hv, form, hf, rfl⟩
      · rintro ⟨t, v, hc, hv, form, hf, h⟩
        cases h
        exact ⟨t, hc, (form, rest), (readTag_eq_ok_iff depth).2 ⟨v, hv, hf⟩, rfl⟩
  · simp only [readMember, nameMember, hkey, if_false, bind_eq_ok]
    constructor
    · rintro ⟨t, hc, ⟨v, r⟩, hv, h⟩
      cases h
      exact ⟨t, v, hc, hv, rfl⟩
    · rintro ⟨t, v, hc, hv, h⟩
      cases h
      exact ⟨t, hc, (v, rest), hv, rfl⟩

theorem readForm_eq_ok_iff {read : Except Fault (Read ((Json → Except Problem α) × Json))}
    {a : α} {rest : List Char} :
    readForm read = .ok (a, rest) ↔
      ∃ form v, read = .ok ((form, v), rest) ∧ form v = .ok a := by
  constructor
  · intro h
    obtain ⟨⟨⟨form, v⟩, r⟩, hr, h⟩ := bind_eq_ok.1 h
    cases hf : form v with
    | error problem => simp [hf] at h
    | ok b =>
      simp only [hf, Except.ok.injEq, Prod.mk.injEq] at h
      obtain ⟨rfl, rfl⟩ := h
      exact ⟨form, v, hr, hf⟩
  · rintro ⟨form, v, rfl, hf⟩
    simp [readForm, hf]

theorem readMembers_eq_ok_iff {depth : Nat} {text rest : List Char}
    {form : Json → Except Problem α} {v : Json} :
    tagged.readMembers depth text = .ok ((form, v), rest) ↔
      ∃ ms opened, MemberList (value depth) true text ms rest ∧
        ms.foldlM tagged.nameMember ⟨none, []⟩ = .ok opened ∧ opened.form = some form ∧
        v = .obj opened.members.reverse := by
  constructor
  · intro h
    obtain ⟨⟨opened, r⟩, hf, h⟩ := bind_eq_ok.1 h
    obtain ⟨ms, hms, ht⟩ := memberList_of_foldMembers (readMember_factors tagged depth) hf
    cases hform : opened.form with
    | none => simp [hform] at h
    | some form' =>
      simp only [hform, Except.ok.injEq, Prod.mk.injEq] at h
      obtain ⟨⟨rfl, rfl⟩, rfl⟩ := h
      exact ⟨ms, opened, hms, ht, hform, rfl⟩
  · rintro ⟨ms, opened, hms, ht, hform, rfl⟩
    have hf := hms.foldMembers (readMember_factors tagged depth) (value_shrinks depth)
      (Nat.le_refl _) ht
    simp [readMembers, hf, hform]

theorem readItems_eq (tagged : Tagged α) (depth : Nat) (text : List Char) :
    tagged.readItems depth text = (do
      match ← nextItem true text with
      | none => .error (.loose (.missingField tagged.tag) text)
      | some text =>
        let (form, text) ← tagged.readTag text
        let (read, text) ← foldItems (collect (value depth)) false text [] text
        .ok ((form, .arr read.reverse), text)) := rfl

theorem readItems_eq_ok_iff {depth : Nat} {text rest : List Char}
    {form : Json → Except Problem α} {v : Json} :
    tagged.readItems depth text = .ok ((form, v), rest) ↔
      ∃ tag vs, ItemList (value depth) true text (tag :: vs) rest ∧
        tagged.nameTag tag = .ok form ∧ v = .arr vs := by
  rw [readItems_eq]
  constructor
  · intro h
    obtain ⟨next, hn, h⟩ := bind_eq_ok.1 h
    cases next with
    | none => cases h
    | some t =>
      obtain ⟨⟨form', t₁⟩, hread, h⟩ := bind_eq_ok.1 h
      obtain ⟨⟨read, t₂⟩, hf, h⟩ := bind_eq_ok.1 h
      cases h
      obtain ⟨tag, htag, hform⟩ := (readTag_eq_ok_iff depth).1 hread
      obtain ⟨vs, rfl, hvs⟩ := itemList_of_foldItems hf
      exact ⟨tag, vs, .cons hn htag hvs, hform, by simp⟩
  · rintro ⟨tag, vs, hvs, hform, rfl⟩
    cases hvs with
    | cons hn htag hvs =>
      have hread := (readTag_eq_ok_iff depth).2 ⟨tag, htag, hform⟩
      have hf := hvs.foldItems (value_shrinks depth) (Nat.le_refl _) []
      simp [hn, hread, hf]

theorem exists_value_of_ofText {depth : Nat} {text rest : List Char} {a : α}
    (h : tagged.decoder.ofText depth text = .ok (a, rest)) :
    ∃ v, value depth text = .ok (v, rest) ∧ tagged.NamesForm v ∧
      tagged.decoder.ofJson v = .ok a := by
  simp only [decoder] at h
  split at h
  · next t hs =>
    cases depth with
    | zero => cases h
    | succ depth =>
      obtain ⟨form, v, hread, hv⟩ := readForm_eq_ok_iff.1 h
      obtain ⟨r, hi, hl⟩ := finish_eq_ok_iff.1 hread
      obtain ⟨tag, vs, hvs, hform, rfl⟩ := readItems_eq_ok_iff.1 hi
      obtain ⟨hname, htake⟩ := nameTag_eq_ok_iff.1 hform
      refine ⟨_, value_eq_arr_iff.2 ⟨depth, t, r, rfl, hs, hvs, hl⟩, hname, ?_⟩
      simp [decoder, htake, hv]
  · next t hs =>
    cases depth with
    | zero => cases h
    | succ depth =>
      obtain ⟨form, v, hread, hv⟩ := readForm_eq_ok_iff.1 h
      obtain ⟨r, hm, hl⟩ := finish_eq_ok_iff.1 hread
      obtain ⟨ms, opened, hms, ht, hform, rfl⟩ := readMembers_eq_ok_iff.1 hm
      obtain ⟨hname, htake⟩ := foldlM_nameMember_iff.1 ht
      refine ⟨_, value_eq_obj_iff.2 ⟨depth, t, r, rfl, hs, hms, hl⟩, hname, ?_⟩
      simp [decoder, htake, hform, hv]
  · cases h

theorem ofText_of_value {depth : Nat} {text rest : List Char} {a : α} {v : Json}
    (hv : value depth text = .ok (v, rest)) (hname : tagged.NamesForm v)
    (ha : tagged.decoder.ofJson v = .ok a) :
    tagged.decoder.ofText depth text = .ok (a, rest) := by
  cases v with
  | arr vs =>
    obtain ⟨d, t, r, rfl, hs, hvs, hl⟩ := value_eq_arr_iff.1 hv
    cases vs with
    | nil => cases ha
    | cons tag vs =>
      obtain ⟨form, hform, ha⟩ := bind_eq_ok.1 ha
      have hi := readItems_eq_ok_iff.2 ⟨tag, vs, hvs, nameTag_eq_ok_iff.2 ⟨hname, hform⟩, rfl⟩
      have hread := readForm_eq_ok_iff.2 ⟨form, _, finish_eq_ok_iff.2 ⟨r, hi, hl⟩, ha⟩
      simpa [decoder, hs] using hread
  | obj ms =>
    obtain ⟨d, t, r, rfl, hs, hms, hl⟩ := value_eq_obj_iff.1 hv
    obtain ⟨opened, ht, ha⟩ := bind_eq_ok.1 ha
    cases hform : opened.form with
    | none => simp [hform] at ha
    | some form =>
      simp only [hform] at ha
      have hm := readMembers_eq_ok_iff.2
        ⟨ms, opened, hms, foldlM_nameMember_iff.2 ⟨hname, ht⟩, hform, rfl⟩
      have hread := readForm_eq_ok_iff.2 ⟨form, _, finish_eq_ok_iff.2 ⟨r, hm, hl⟩, ha⟩
      simpa [decoder, hs] using hread
  | _ => cases ha

/-- A tagged record is read from the text as from its value. -/
theorem ofText_eq_ok_iff {depth : Nat} {text rest : List Char} {a : α} :
    tagged.decoder.ofText depth text = .ok (a, rest) ↔
      ∃ v, value depth text = .ok (v, rest) ∧ tagged.NamesForm v ∧
        tagged.decoder.ofJson v = .ok a := by
  constructor
  · exact exists_value_of_ofText
  · rintro ⟨v, hv, hname, ha⟩
    exact ofText_of_value hv hname ha

theorem shrinks (tagged : Tagged α) (depth : Nat) :
    Shrinks (tagged.decoder.ofText depth) := by
  intro text a rest h
  obtain ⟨v, hv, -, -⟩ := ofText_eq_ok_iff.1 h
  exact value_shrinks depth _ _ _ hv

end SyntaxTree.Tagged
