import SyntaxTree.Node.Decoder
import SyntaxTree.Proofs.Json.Faults
import SyntaxTree.Proofs.Node.Reads

/-! Places of faults in documents. The record of a tree is read from the text up to its end, and
whatever is wrong there has a place. Its fields are read from its values then, and whatever is wrong
in them, at any depth, has none. -/

set_option autoImplicit false

namespace SyntaxTree

open Json

variable {α : Type}

theorem Decoder.mismatch_isLocated (expected : String) (text : List Char) :
    (mismatch expected text).IsLocated := by
  unfold mismatch
  split
  · simp
  · simp
  · split
    · next fault hfault => exact scalar_locates text fault hfault
    · simp

theorem Json.document_eq_error {read : List Char → Except Fault (Read α)} {text : List Char}
    {defect : Defect} (h : document read text = .error defect) :
    ∃ fault, defect = fault.defect text ∧ (read text = .error fault ∨ fault.IsLocated) := by
  unfold document at h
  split at h
  · next fault hfault =>
    cases h
    exact ⟨fault, rfl, .inl hfault⟩
  · split at h
    · cases h
    · cases h
      exact ⟨_, rfl, .inr trivial⟩

namespace Tagged

variable {tagged : Tagged α} {depth : Nat} {text rest : List Char}

/-- Reads a record up to its end: the form that its tag names, and the value that holds its
fields. -/
def opening (tagged : Tagged α) (depth : Nat) (text : List Char) :
    Except Fault (Read ((Json → Except Problem α) × Json)) :=
  match skipSpace text with
  | '[' :: rest =>
    match depth with
    | 0 => .error (faultAhead .nestingTooDeep ('[' :: rest))
    | depth + 1 => finish leaveArray (tagged.readItems depth rest)
  | '{' :: rest =>
    match depth with
    | 0 => .error (faultAhead .nestingTooDeep ('{' :: rest))
    | depth + 1 => finish leaveObject (tagged.readMembers depth rest)
  | text => .error (Decoder.mismatch tagged.expected text)

theorem ofText_eq (tagged : Tagged α) (depth : Nat) (text : List Char) :
    tagged.decoder.ofText depth text = readForm (tagged.opening depth text) := by
  cases hs : skipSpace text with
  | nil => simp [decoder, opening, hs, readForm]
  | cons c rest =>
    by_cases hlist : c = '['
    · rw [hlist] at hs
      cases depth <;> simp [decoder, opening, hs, readForm]
    by_cases hobject : c = '{'
    · rw [hobject] at hs
      cases depth <;> simp [decoder, opening, hs, readForm]
    · simp [decoder, opening, hs, hlist, hobject, readForm]

-- no matter what the members hold: `finish` has given a place to every fault by then
theorem opening_locates (tagged : Tagged α) (depth : Nat) (text : List Char) :
    Locates (tagged.opening depth text) := by
  unfold opening
  split
  · cases depth with
    | zero => simp
    | succ depth => exact finish_locates leaveArray_isLocated _
  · cases depth with
    | zero => simp
    | succ depth => exact finish_locates leaveObject_isLocated _
  · exact locates_error.2 (Decoder.mismatch_isLocated _ _)

theorem namesForm_of_carries {v fields : Json} {name : String}
    (h : Carries tagged.tag v (.str name) fields) : tagged.NamesForm v := by
  cases h with
  | object hone =>
    rintro ⟨_, w⟩ hmember rfl
    have hw := mem_under.2 hmember
    rw [hone] at hw
    exact ⟨name, List.mem_singleton.1 hw⟩
  | array => exact ⟨name, rfl⟩

theorem exists_name_of_carries {v tag fields : Json} (h : Carries tagged.tag v tag fields)
    (hnames : tagged.NamesForm v) : ∃ name, tag = .str name := by
  cases h with
  | object hone => exact hnames (_, tag) (mem_under.1 (hone ▸ List.mem_singleton_self tag)) rfl
  | array => exact hnames

/-- A record can be read up to its end exactly if it names a form once. -/
theorem opening_eq_ok_iff {form : Json → Except Problem α} {fields : Json} :
    tagged.opening depth text = .ok ((form, fields), rest) ↔
      ∃ v name, value depth text = .ok (v, rest) ∧ Carries tagged.tag v (.str name) fields ∧
        tagged.forms.find name = .ok form := by
  constructor
  · intro h
    unfold opening at h
    split at h
    · next t hs =>
      cases depth with
      | zero => cases h
      | succ depth =>
        obtain ⟨r, hi, hl⟩ := finish_eq_ok_iff.1 h
        obtain ⟨tag, vs, hvs, hform, rfl⟩ := readItems_eq_ok_iff.1 hi
        obtain ⟨⟨name, rfl⟩, -⟩ := nameTag_eq_ok_iff.1 hform
        exact ⟨_, name, value_eq_arr_iff.2 ⟨depth, t, r, rfl, hs, hvs, hl⟩, .array, hform⟩
    · next t hs =>
      cases depth with
      | zero => cases h
      | succ depth =>
        obtain ⟨r, hm, hl⟩ := finish_eq_ok_iff.1 h
        obtain ⟨ms, ⟨_, left⟩, hms, ht, rfl, rfl⟩ := readMembers_eq_ok_iff.1 hm
        obtain ⟨hnames, htake⟩ := foldlM_nameMember_iff.1 ht
        obtain ⟨tag, hone, hform, rfl⟩ := foldlM_takeMember_iff.1 htake
        have hcarries : Carries tagged.tag (.obj ms) tag _ := .object hone
        obtain ⟨name, rfl⟩ := exists_name_of_carries hcarries hnames
        refine ⟨_, name, value_eq_obj_iff.2 ⟨depth, t, r, rfl, hs, hms, hl⟩, ?_, hform⟩
        simpa using hcarries
    · cases h
  · rintro ⟨v, name, hv, hcarries, hform⟩
    have hnames := namesForm_of_carries hcarries
    cases hcarries with
    | object hone =>
      obtain ⟨d, t, r, rfl, hs, hms, hl⟩ := value_eq_obj_iff.1 hv
      have htake : _ = Except.ok (⟨some form, _ ++ []⟩ : Opened α) :=
        foldlM_takeMember_iff.2 ⟨_, hone, hform, rfl⟩
      have hm := readMembers_eq_ok_iff.2
        ⟨_, _, hms, foldlM_nameMember_iff.2 ⟨hnames, htake⟩, rfl, rfl⟩
      have hopen := finish_eq_ok_iff.2 ⟨r, hm, hl⟩
      simpa [opening, hs] using hopen
    | array =>
      obtain ⟨d, t, r, rfl, hs, hvs, hl⟩ := value_eq_arr_iff.1 hv
      have hi := readItems_eq_ok_iff.2 ⟨_, _, hvs, hform, rfl⟩
      have hopen := finish_eq_ok_iff.2 ⟨r, hi, hl⟩
      simpa [opening, hs] using hopen

/-- A fault has no place exactly if the record names a form and the form is at fault. -/
theorem ofText_loose_iff {problem : Problem} :
    tagged.decoder.ofText depth text = .error (.loose problem rest) ↔
      ∃ v name fields form, value depth text = .ok (v, rest) ∧
        Carries tagged.tag v (.str name) fields ∧ tagged.forms.find name = .ok form ∧
        form fields = .error problem := by
  rw [ofText_eq]
  constructor
  · intro h
    cases hopen : tagged.opening depth text with
    | error fault =>
      rw [hopen] at h
      cases h
      exact (opening_locates tagged depth text _ hopen).elim
    | ok read =>
      obtain ⟨⟨form, fields⟩, r⟩ := read
      cases hform : form fields with
      | ok a => simp [readForm, hopen, hform] at h
      | error problem' =>
        simp only [readForm, hopen, ok_bind, hform, Except.error.injEq, Fault.loose.injEq] at h
        obtain ⟨rfl, rfl⟩ := h
        obtain ⟨v, name, hv, hcarries, hfind⟩ := opening_eq_ok_iff.1 hopen
        exact ⟨v, name, fields, form, hv, hcarries, hfind, hform⟩
  · rintro ⟨v, name, fields, form, hv, hcarries, hfind, hform⟩
    have hopen := opening_eq_ok_iff.2 ⟨v, name, hv, hcarries, hfind⟩
    simp [readForm, hopen, hform]

end Tagged

theorem Json.Carries.unique {key : String} {v tag tag' fields fields' : Json}
    (h : Carries key v tag fields) (h' : Carries key v tag' fields') :
    tag = tag' ∧ fields = fields' := by
  cases h with
  | object hone =>
    cases h' with
    | object hone' =>
      rw [hone] at hone'
      exact ⟨List.singleton_inj.1 hone', rfl⟩
  | array =>
    cases h'
    exact ⟨rfl, rfl⟩

theorem Tagged.ofJson_of_carries {tagged : Tagged α} {v tag fields : Json}
    {form : Json → Except Problem α} (h : Carries tagged.tag v tag fields)
    (hform : tagged.takeTag tag = .ok form) {a : α} :
    tagged.decoder.ofJson v = .ok a ↔ form fields = .ok a := by
  rw [ofJson_iff]
  constructor
  · rintro ⟨tag', form', fields', hcarries, htake, hread⟩
    obtain ⟨rfl, rfl⟩ := h.unique hcarries
    rw [hform] at htake
    cases htake
    exact hread
  · exact fun hread => ⟨tag, form, fields, h, hform, hread⟩

/-- Whether a record names a kind once but no tree is read from it. -/
def Json.Misfit (v : Json) : Prop :=
  (∃ (kind : NodeKind) (fields : Json), Carries "Kind" v (.str kind.name) fields) ∧
    ∀ node, ¬ v.Reads node

namespace Node

theorem ofText_loose_iff {text rest : List Char} :
    (∃ problem, decoder.ofText nestingLimit text = .error (.loose problem rest)) ↔
      ∃ v, value nestingLimit text = .ok (v, rest) ∧ v.Misfit := by
  obtain ⟨forms, hdecoder⟩ : ∃ forms, decoder = (tagged forms).decoder := ⟨_, rfl⟩
  have hread {v : Json} {kind : NodeKind} {fields : Json}
      (hcarries : Carries "Kind" v (.str kind.name) fields) {node : Node} :
      decoder.ofJson v = .ok node ↔ forms kind fields = .ok node := by
    have hkind : Carries (tagged forms).tag v (.str kind.name) fields := hcarries
    rw [hdecoder]
    exact Tagged.ofJson_of_carries hkind (takeTag_of_taggedBy forms .name)
  constructor
  · rintro ⟨problem, h⟩
    rw [hdecoder] at h
    obtain ⟨v, name, fields, form, hv, hcarries, hfind, hform⟩ := Tagged.ofText_loose_iff.1 h
    have htake : (tagged forms).takeTag (.str name) = .ok form := hfind
    obtain ⟨kind, htag, rfl⟩ := taggedBy_of_takeTag htake
    cases htag
    refine ⟨v, hv, ⟨kind, fields, hcarries⟩, fun node hnode => ?_⟩
    obtain ⟨-, -, -, -, hnesting, -⟩ := value_sound nestingLimit _ _ _ hv
    have hok := (hread hcarries).1 (hnode.ofJson hnesting)
    rw [hform] at hok
    cases hok
  · rintro ⟨v, hv, ⟨kind, fields, hcarries⟩, hno⟩
    -- the form of the kind fails, since with what it reads the record would be read as a tree
    cases hform : forms kind fields with
    | error problem =>
      rw [hdecoder]
      have hfind := tagged_find forms kind
      exact ⟨problem, Tagged.ofText_loose_iff.2 ⟨v, _, fields, _, hv, hcarries, hfind, hform⟩⟩
    | ok node => exact absurd ⟨nestingLimit, (hread hcarries).2 hform⟩ (hno node)

theorem ofText_line {text : String} {defect : Defect} (h : ofText text = .error defect) :
    defect.line ≤ 1 + text.toList.count '\n' ∧ (defect.line = 0 → defect.column = 0) ∧
    (defect.line = 0 ↔ ∃ v rest, value nestingLimit text.toList = .ok (v, rest) ∧ v.Misfit) := by
  obtain ⟨fault, rfl, hfault⟩ := document_eq_error h
  have hmisfit : (∃ v rest, value nestingLimit text.toList = .ok (v, rest) ∧ v.Misfit) →
      (fault.defect text.toList).line = 0 := by
    rintro ⟨v, rest, hv, hmisfit⟩
    obtain ⟨problem, hloose⟩ := ofText_loose_iff.2 ⟨v, hv, hmisfit⟩
    have hdocument : document (decoder.ofText nestingLimit) text.toList =
        .error (Fault.defect text.toList (.loose problem rest)) := by simp [document, hloose]
    exact congrArg Defect.line (Except.error.inj (h.symm.trans hdocument))
  cases fault with
  | located problem left =>
    have hlocated : (Fault.located problem left).IsLocated := trivial
    obtain ⟨hone, hlast⟩ := hlocated.line text.toList
    have hpos : (Fault.defect text.toList (.located problem left)).line ≠ 0 := by omega
    exact ⟨hlast, fun h0 => absurd h0 hpos, fun h0 => absurd h0 hpos, hmisfit⟩
  | loose problem rest =>
    obtain ⟨v, hv⟩ := ofText_loose_iff.1 ⟨problem, hfault.resolve_right id⟩
    exact ⟨Nat.zero_le _, fun _ => rfl, fun _ => ⟨v, rest, hv⟩, hmisfit⟩

/-- A text that is not blank and no document is rejected at one of its lines, unless it begins with
a record that names a kind and yet is no tree of that kind, however deep in the record the fault is.
Such a record is rejected at no place. -/
theorem ofDocument_rejected {text : String} {failure : Failure}
    (hblank : Text.isBlank text.toList = false) (h : ofDocument text = .error failure) :
    ∃ message line column, failure = .invalidInput message line column ∧
      line ≤ 1 + text.toList.count '\n' ∧ (line = 0 → column = 0) ∧
      (line = 0 ↔ ∃ v rest, value nestingLimit text.toList = .ok (v, rest) ∧ v.Misfit) := by
  unfold ofDocument at h
  rw [hblank] at h
  simp only [Bool.false_eq_true, if_false] at h
  split at h
  · cases h
  · next defect hdefect =>
    cases h
    exact ⟨_, defect.line, defect.column, rfl, ofText_line hdefect⟩

def closure : String := "\x7b\"Kind\":\"Closure\"\x7d"

def closureInRoot : String := "\x7b\"Kind\":\"Root\",\"Stmts\":[\x7b\"Kind\":\"Closure\"\x7d]\x7d"

def closureUnknown : Problem := .unknownVariant "Closure" (NodeKind.all.map NodeKind.name)

theorem closureInRoot_rejected : Text.isBlank closureInRoot.toList = false ∧
    ofDocument closureInRoot = .error (.ofDefect ⟨closureUnknown, 0, 0⟩) ∧
    ∃ v rest, value nestingLimit closureInRoot.toList = .ok (v, rest) ∧ v.Misfit := by
  have hblank : Text.isBlank closureInRoot.toList = false := by decide
  have hread : ofDocument closureInRoot = .error (.ofDefect ⟨closureUnknown, 0, 0⟩) := rfl
  obtain ⟨message, line, column, heq, -, -, hmisfit⟩ := ofDocument_rejected hblank hread
  cases heq
  exact ⟨hblank, hread, hmisfit.1 rfl⟩

/-- A record without a known kind is rejected at its place if it stands alone, but at no place if it
stands among the statements of a root. -/
theorem closureInRoot_unplaced :
    ofDocument closure = .error (.ofDefect ⟨closureUnknown, 1, 17⟩) ∧
    ofDocument closureInRoot = .error (.ofDefect ⟨closureUnknown, 0, 0⟩) ∧
    ¬ ∀ text failure, Text.isBlank text.toList = false → ofDocument text = .error failure →
      ∃ message line column, failure = .invalidInput message line column ∧
        1 ≤ line ∧ line ≤ 1 + text.toList.count '\n' := by
  have halone : ofText closure = .error ⟨closureUnknown, 1, 17⟩ := rfl
  have hread : ofDocument closureInRoot = .error (.ofDefect ⟨closureUnknown, 0, 0⟩) := rfl
  refine ⟨?_, hread, fun hplaced => ?_⟩
  · have hblank : Text.isBlank closure.toList = false := by decide
    simp [ofDocument, hblank, halone]
  · obtain ⟨message, line, column, heq, hone, -⟩ := hplaced _ _ (by decide) hread
    cases heq
    cases hone

end Node

end SyntaxTree
