import SyntaxTree.Proofs.Json.Numeral
import SyntaxTree.Proofs.Json.Sequence

set_option autoImplicit false

namespace SyntaxTree.Json

def Delimits (text : List Char) : Prop :=
  ∀ c ∈ text.head?, isSpace c = true ∨ c = ',' ∨ c = ']' ∨ c = '}'

theorem Delimits.numberEnds {text : List Char} (h : Delimits text) : NumberEnds text := by
  intro c hc
  have hd := h c hc
  simp only [isSpace, Bool.or_eq_true, decide_eq_true_eq] at hd
  rcases hd with (((rfl | rfl) | rfl) | rfl) | rfl | rfl | rfl <;> decide

theorem Blank.delimits {w rest : List Char} (hw : Blank w) (h : Delimits rest) :
    Delimits (w ++ rest) := by
  cases w with
  | nil => exact h
  | cons c w => simpa [Delimits] using .inl (hw c (by simp))

theorem Leads.delimits {lead : List Char} (h : Leads false lead) (rest : List Char) :
    Delimits (lead ++ rest) := by
  obtain ⟨v, w, hv, -, rfl⟩ := h
  rw [List.append_assoc]
  exact hv.delimits (by simp [Delimits])

theorem Leads.append_blank {isFirst : Bool} {lead w : List Char} (h : Leads isFirst lead)
    (hw : Blank w) : Leads isFirst (lead ++ w) := by
  cases isFirst with
  | true => exact Blank.append h hw
  | false =>
    obtain ⟨u, v, hu, hv, rfl⟩ := h
    exact ⟨u, v ++ w, hu, hv.append hw, by simp⟩

theorem Spells.head {v : Json} {core : List Char} (h : v.Spells core) :
    ∃ c t, core = c :: t ∧ isSpace c = false ∧ c ≠ ']' := by
  cases v with
  | null => exact ⟨_, _, h, by decide, by decide⟩
  | bool b => cases b <;> exact ⟨_, _, h, by decide, by decide⟩
  | num n =>
    obtain ⟨c, t, rfl, hc, -⟩ := number_takes h
    refine ⟨c, _, rfl, ?_⟩
    rcases hc with rfl | hc
    · decide
    · constructor
      · rw [Bool.eq_false_iff]
        intro hs
        simp only [isSpace, Bool.or_eq_true, decide_eq_true_eq] at hs
        rcases hs with ((rfl | rfl) | rfl) | rfl <;> simp at hc
      · rintro rfl
        simp at hc
  | str s =>
    obtain ⟨body, -, rfl⟩ := h
    exact ⟨_, _, rfl, by decide, by decide⟩
  | arr items =>
    obtain ⟨body, w, -, -, rfl⟩ := h
    exact ⟨_, _, rfl, by decide, by decide⟩
  | obj members =>
    obtain ⟨body, w, -, -, rfl⟩ := h
    exact ⟨_, _, rfl, by decide, by decide⟩

def IsScalar : Json → Prop
  | .arr _ => False
  | .obj _ => False
  | _ => True

theorem literal_eq_ok {letters text rest : List Char} {v literal : Json}
    (h : (do let rest ← word letters text; .ok (literal, rest)) = .ok (v, rest)) :
    v = literal ∧ text = letters ++ rest := by
  obtain ⟨r, hw, h⟩ := bind_eq_ok.1 h
  cases h
  exact ⟨rfl, word_eq_ok_iff.1 hw⟩

theorem scalar_eq_ok {text rest : List Char} {v : Json} (h : scalar text = .ok (v, rest)) :
    ∃ core, IsScalar v ∧ v.Spells core ∧ text = core ++ rest := by
  cases text with
  | nil => cases h
  | cons c text =>
    rw [scalar] at h
    split at h
    · next hc =>
      obtain ⟨rfl, rfl⟩ := literal_eq_ok h
      exact ⟨_, trivial, rfl, by rw [hc]; rfl⟩
    split at h
    · next hc =>
      obtain ⟨rfl, rfl⟩ := literal_eq_ok h
      exact ⟨_, trivial, rfl, by rw [hc]; rfl⟩
    split at h
    · next hc =>
      obtain ⟨rfl, rfl⟩ := literal_eq_ok h
      exact ⟨_, trivial, rfl, by rw [hc]; rfl⟩
    split at h
    · next hc =>
      obtain ⟨⟨s, r⟩, hs, h⟩ := bind_eq_ok.1 h
      cases h
      obtain ⟨body, hb, rfl⟩ := stringText_eq_ok hs
      exact ⟨_, trivial, ⟨body, hb, rfl⟩, by simp [hc]⟩
    split at h
    · next hc =>
      obtain ⟨⟨n, r⟩, hn, h⟩ := bind_eq_ok.1 h
      cases h
      have hnum : number ('-' :: text) = .ok (n, rest) := hn
      obtain ⟨d, used, hsplit, -, hread⟩ := number_takes hnum
      exact ⟨d :: used, trivial, by simpa [Spells] using hread [] numberEnds_nil, hc ▸ hsplit⟩
    split at h
    · next hc =>
      obtain ⟨⟨n, r⟩, hn, h⟩ := bind_eq_ok.1 h
      cases h
      have hnum : number (c :: text) = .ok (n, rest) := number_digit hc text ▸ hn
      obtain ⟨d, used, hsplit, -, hread⟩ := number_takes hnum
      exact ⟨d :: used, trivial, by simpa [Spells] using hread [] numberEnds_nil, hsplit⟩
    · cases h

theorem scalar_spells {v : Json} (hv : IsScalar v) {core : List Char} (h : v.Spells core)
    {rest : List Char} (hr : (∃ n, v = .num n) → NumberEnds rest) :
    scalar (core ++ rest) = .ok (v, rest) := by
  cases v with
  | null =>
    cases h
    simp [scalar, word]
  | bool b =>
    cases b <;> cases h <;> simp [scalar, word]
  | num n =>
    obtain ⟨c, used, hcore, hc, hread⟩ := number_takes h
    rw [List.append_nil] at hcore
    have hn := hread rest (hr ⟨n, rfl⟩)
    rw [hcore]
    rcases hc with rfl | hc
    · have hm : numeral true (used ++ rest) = .ok (n, rest) := hn
      simp [scalar, hm]
    · rw [List.cons_append, number_digit hc] at hn
      have hne (d : Char) (hd : d.isDigit = false) : c ≠ d := by
        rintro rfl
        simp [hd] at hc
      simp [scalar, hne 'n', hne 't', hne 'f', hne '"', hne '-', hc, hn]
  | str s =>
    obtain ⟨body, hb, rfl⟩ := h
    simp [scalar, hb.stringText_eq]
  | arr items => cases hv
  | obj members => cases hv

theorem value_scalar {depth : Nat} {w text : List Char} (hw : Blank w) (hs : Solid text)
    (harr : ∀ t, text ≠ '[' :: t) (hobj : ∀ t, text ≠ '{' :: t) :
    value depth (w ++ text) = scalar text := by
  unfold value
  rw [skipSpace_blank hw hs]
  split
  · exact absurd rfl (harr _)
  · exact absurd rfl (hobj _)
  · rfl

theorem scalar_value_spells (v : Json) (hv : IsScalar v) {core : List Char} (h : v.Spells core)
    {depth : Nat} {w rest : List Char} (hw : Blank w) (hr : NumberEnds rest) :
    value depth (w ++ (core ++ rest)) = .ok (v, rest) := by
  obtain ⟨c, t, hcore, hc, -⟩ := h.head
  have hs : Solid (core ++ rest) := by simpa [hcore] using hc
  have hsc := scalar_spells hv h fun _ => hr
  have hne (d : Char) (hd : ∀ t, scalar (d :: t) ≠ .ok (v, rest)) (t : List Char) :
      core ++ rest ≠ d :: t := fun he => hd t (he ▸ hsc)
  have harr := hne '[' (by intro t ht; simp [scalar] at ht)
  have hobj := hne '{' (by intro t ht; simp [scalar] at ht)
  rw [value_scalar hw hs harr hobj, hsc]

theorem items_eq (item : List Char → Except Fault (Read Json)) (text : List Char) :
    items item text = (do
      let (read, text) ← foldItems (collect item) true text [] text
      .ok (.arr read.reverse, text)) := rfl

def keepMember (read : List (String × Json)) (member : String × Json) :
    Except Problem (List (String × Json)) := .ok (member :: read)

theorem foldlM_keepMember (members read : List (String × Json)) :
    members.foldlM keepMember read = .ok (members.reverse ++ read) := by
  induction members generalizing read with
  | nil => rfl
  | cons member members ih => simpa [List.foldlM_cons, keepMember] using ih (member :: read)

theorem items_eq_ok_iff {item : List Char → Except Fault (Read Json)} (hs : Shrinks item)
    {text rest : List Char} {v : Json} :
    items item text = .ok (v, rest) ↔ ∃ vs, v = .arr vs ∧ ItemList item true text vs rest := by
  constructor
  · intro h
    obtain ⟨⟨read, r⟩, hf, h⟩ := bind_eq_ok.1 h
    cases h
    obtain ⟨vs, rfl, hvs⟩ := itemList_of_foldItems hf
    exact ⟨vs, by simp, hvs⟩
  · rintro ⟨vs, rfl, hvs⟩
    have hf := hvs.foldItems hs (Nat.le_refl _) []
    simp [items_eq, hf]

def collectMember (item : List Char → Except Fault (Read Json)) (read : List (String × Json))
    (key : String) (text : List Char) : Except Fault (Read (List (String × Json))) := do
  let text ← colon text
  let (value, text) ← item text
  .ok ((key, value) :: read, text)

theorem collectMember_factors (item : List Char → Except Fault (Read Json)) :
    Factors (collectMember item) item keepMember := by
  intro read key text read' rest
  constructor
  · intro h
    obtain ⟨t, hc, h⟩ := bind_eq_ok.1 h
    obtain ⟨⟨v, r⟩, hv, h⟩ := bind_eq_ok.1 h
    cases h
    exact ⟨t, v, hc, hv, rfl⟩
  · rintro ⟨t, v, hc, hv, ht⟩
    cases ht
    simp [collectMember, hc, hv]

theorem members_eq (item : List Char → Except Fault (Read Json)) (text : List Char) :
    members item text = (do
      let (read, text) ← foldMembers (collectMember item) true text [] text
      .ok (.obj read.reverse, text)) := rfl

theorem members_eq_ok_iff {item : List Char → Except Fault (Read Json)} (hs : Shrinks item)
    {text rest : List Char} {v : Json} :
    members item text = .ok (v, rest) ↔
      ∃ ms, v = .obj ms ∧ MemberList item true text ms rest := by
  have hf := collectMember_factors item
  constructor
  · intro h
    obtain ⟨⟨read, r⟩, hr, h⟩ := bind_eq_ok.1 h
    cases h
    obtain ⟨ms, hms, hk⟩ := memberList_of_foldMembers hf hr
    rw [foldlM_keepMember] at hk
    cases hk
    exact ⟨ms, by simp, hms⟩
  · rintro ⟨ms, rfl, hms⟩
    have hr := hms.foldMembers hf hs (Nat.le_refl _) (foldlM_keepMember ms [])
    simp [members_eq, hr]

def Sound (depth : Nat) (item : List Char → Except Fault (Read Json)) : Prop :=
  ∀ text v rest, item text = .ok (v, rest) →
    ∃ w core, Blank w ∧ v.Spells core ∧ v.nesting ≤ depth ∧ text = w ++ (core ++ rest)

theorem Sound.shrinks {depth : Nat} {item : List Char → Except Fault (Read Json)}
    (h : Sound depth item) : Shrinks item := by
  intro text v rest hv
  obtain ⟨w, core, -, hcore, -, rfl⟩ := h _ _ _ hv
  obtain ⟨c, t, rfl, -, -⟩ := hcore.head
  simp; omega

theorem ItemList.spells {depth : Nat} {item : List Char → Except Fault (Read Json)}
    (hi : Sound depth item) {isFirst : Bool} {text rest : List Char} {vs : List Json}
    (h : ItemList item isFirst text vs rest) :
    ∃ body, SpellsItems isFirst vs body ∧ nestingItems vs ≤ depth ∧ text = body ++ rest := by
  induction h with
  | nil _ => exact ⟨[], rfl, Nat.zero_le _, rfl⟩
  | cons hn hv _ ih =>
    obtain ⟨lead, hl, rfl⟩ := nextItem_eq_some hn
    obtain ⟨w, core, hw, hcore, hd, rfl⟩ := hi _ _ _ hv
    obtain ⟨body, hbody, hds, rfl⟩ := ih
    exact ⟨_, ⟨lead ++ w, core, body, hl.append_blank hw, hcore, hbody, rfl⟩,
      Nat.max_le.2 ⟨hd, hds⟩, by simp⟩

theorem MemberList.spells {depth : Nat} {item : List Char → Except Fault (Read Json)}
    (hi : Sound depth item) {isFirst : Bool} {text rest : List Char}
    {ms : List (String × Json)} (h : MemberList item isFirst text ms rest) :
    ∃ body, SpellsMembers isFirst ms body ∧ nestingMembers ms ≤ depth ∧ text = body ++ rest := by
  induction h with
  | nil _ => exact ⟨[], rfl, Nat.zero_le _, rfl⟩
  | cons hn hk hc hv _ ih =>
    obtain ⟨lead, hl, rfl⟩ := nextKey_eq_some hn
    obtain ⟨name, hname, rfl⟩ := stringText_eq_ok hk
    obtain ⟨u, hu, rfl⟩ := colon_eq_ok hc
    obtain ⟨w, core, hw, hcore, hd, rfl⟩ := hi _ _ _ hv
    obtain ⟨body, hbody, hds, rfl⟩ := ih
    exact ⟨_, ⟨lead, name, u ++ ':' :: w, core, body, hl, hname, ⟨u, w, hu, hw, rfl⟩, hcore,
      hbody, rfl⟩, Nat.max_le.2 ⟨hd, hds⟩, by simp⟩

theorem scalar_isScalar {text rest : List Char} {v : Json} (h : scalar text = .ok (v, rest)) :
    IsScalar v := by
  obtain ⟨core, hs, -, -⟩ := scalar_eq_ok h
  exact hs

/-- What is read is a scalar, or the items or members that have been read one level below. -/
theorem value_cases {depth : Nat} {text rest : List Char} {v : Json}
    (hs : ∀ d, depth = d + 1 → Shrinks (value d)) (h : value depth text = .ok (v, rest)) :
    scalar (skipSpace text) = .ok (v, rest) ∨
    (∃ d t vs r, depth = d + 1 ∧ skipSpace text = '[' :: t ∧ v = .arr vs ∧
      ItemList (value d) true t vs r ∧ leaveArray r = (none, rest)) ∨
    ∃ d t ms r, depth = d + 1 ∧ skipSpace text = '{' :: t ∧ v = .obj ms ∧
      MemberList (value d) true t ms r ∧ leaveObject r = (none, rest) := by
  unfold value at h
  split at h
  · next t ht =>
    cases depth with
    | zero => cases h
    | succ d =>
      obtain ⟨r, hi, hl⟩ := finish_eq_ok_iff.1 h
      obtain ⟨vs, rfl, hvs⟩ := (items_eq_ok_iff (hs d rfl)).1 hi
      exact .inr (.inl ⟨d, t, vs, r, rfl, ht, rfl, hvs, hl⟩)
  · next t ht =>
    cases depth with
    | zero => cases h
    | succ d =>
      obtain ⟨r, hm, hl⟩ := finish_eq_ok_iff.1 h
      obtain ⟨ms, rfl, hms⟩ := (members_eq_ok_iff (hs d rfl)).1 hm
      exact .inr (.inr ⟨d, t, ms, r, rfl, ht, rfl, hms, hl⟩)
  · exact .inl h

theorem nesting_of_isScalar {v : Json} (hv : IsScalar v) : v.nesting = 0 := by
  cases v with
  | arr items => cases hv
  | obj members => cases hv
  | _ => rfl

theorem value_sound (depth : Nat) : Sound depth (value depth) := by
  induction depth using Nat.strongRecOn with
  | ind depth ih =>
    intro text v rest h
    have hs : ∀ d, depth = d + 1 → Shrinks (value d) := fun d hd => (ih d (by omega)).shrinks
    obtain ⟨w, hw, htext⟩ := exists_blank text
    rw [htext]
    rcases value_cases hs h with hscalar | ⟨d, t, vs, r, rfl, ht, rfl, hvs, hl⟩ |
      ⟨d, t, ms, r, rfl, ht, rfl, hms, hl⟩
    · obtain ⟨core, hv, hcore, ht⟩ := scalar_eq_ok hscalar
      have hzero := nesting_of_isScalar hv
      exact ⟨w, core, hw, hcore, by omega, by rw [ht]⟩
    · obtain ⟨body, hbody, hd, rfl⟩ := hvs.spells (ih d (by omega))
      obtain ⟨u, hu, rfl⟩ := leaveArray_eq_none hl
      exact ⟨w, _, hw, ⟨body, u, hbody, hu, rfl⟩, Nat.succ_le_succ hd, by simp [ht]⟩
    · obtain ⟨body, hbody, hd, rfl⟩ := hms.spells (ih d (by omega))
      obtain ⟨u, hu, rfl⟩ := leaveObject_eq_none hl
      exact ⟨w, _, hw, ⟨body, u, hbody, hu, rfl⟩, Nat.succ_le_succ hd, by simp [ht]⟩

theorem value_shrinks (depth : Nat) : Shrinks (value depth) := (value_sound depth).shrinks

theorem value_eq_arr_iff {depth : Nat} {text rest : List Char} {vs : List Json} :
    value depth text = .ok (.arr vs, rest) ↔ ∃ d t r, depth = d + 1 ∧ skipSpace text = '[' :: t ∧
      ItemList (value d) true t vs r ∧ leaveArray r = (none, rest) := by
  constructor
  · intro h
    rcases value_cases (fun d _ => value_shrinks d) h with hscalar |
      ⟨d, t, vs', r, hd, ht, hv, hvs, hl⟩ | ⟨d, t, ms, r, -, -, hv, -⟩
    · exact (scalar_isScalar hscalar).elim
    · cases hv
      exact ⟨d, t, r, hd, ht, hvs, hl⟩
    · cases hv
  · rintro ⟨d, t, r, rfl, hs, hvs, hl⟩
    have hi := (items_eq_ok_iff (value_shrinks d)).2 ⟨vs, rfl, hvs⟩
    unfold value
    rw [hs]
    exact finish_eq_ok_iff.2 ⟨r, hi, hl⟩

theorem value_eq_obj_iff {depth : Nat} {text rest : List Char} {ms : List (String × Json)} :
    value depth text = .ok (.obj ms, rest) ↔ ∃ d t r, depth = d + 1 ∧ skipSpace text = '{' :: t ∧
      MemberList (value d) true t ms r ∧ leaveObject r = (none, rest) := by
  constructor
  · intro h
    rcases value_cases (fun d _ => value_shrinks d) h with hscalar |
      ⟨d, t, vs, r, -, -, hv, -⟩ | ⟨d, t, ms', r, hd, ht, hv, hms, hl⟩
    · exact (scalar_isScalar hscalar).elim
    · cases hv
    · cases hv
      exact ⟨d, t, r, hd, ht, hms, hl⟩
  · rintro ⟨d, t, r, rfl, hs, hms, hl⟩
    have hm := (members_eq_ok_iff (value_shrinks d)).2 ⟨ms, rfl, hms⟩
    unfold value
    rw [hs]
    exact finish_eq_ok_iff.2 ⟨r, hm, hl⟩

theorem SpellsItems.delimits {items : List Json} {body rest : List Char}
    (h : SpellsItems false items body) (hr : Delimits rest) : Delimits (body ++ rest) := by
  cases items with
  | nil =>
    cases h
    exact hr
  | cons item items =>
    obtain ⟨lead, core, more, hl, -, -, rfl⟩ := h
    rw [List.append_assoc]
    exact hl.delimits _

theorem SpellsMembers.delimits {members : List (String × Json)} {body rest : List Char}
    (h : SpellsMembers false members body) (hr : Delimits rest) : Delimits (body ++ rest) := by
  cases members with
  | nil =>
    cases h
    exact hr
  | cons member members =>
    obtain ⟨lead, name, gap, core, more, hl, -, -, -, -, rfl⟩ := h
    rw [List.append_assoc]
    exact hl.delimits _

mutual

/-- Every spelling is read, whatever white space stands before it. -/
theorem value_spells : ∀ (v : Json) {core : List Char}, v.Spells core → ∀ {depth : Nat},
    v.nesting ≤ depth → ∀ {w rest : List Char}, Blank w → NumberEnds rest →
    value depth (w ++ (core ++ rest)) = .ok (v, rest)
  | .arr items, core, h, depth, hd, w, rest, hw, hr => by
    obtain ⟨body, u, hbody, hu, rfl⟩ := h
    cases depth with
    | zero => simp [nesting] at hd
    | succ depth =>
      have hi := itemList_spells items hbody (Nat.le_of_succ_le_succ hd) hu rest
      have hs := skipSpace_blank_cons hw (show isSpace '[' = false by decide)
        (body ++ (u ++ ']' :: rest))
      have hv := value_eq_arr_iff.2 ⟨depth, _, _, rfl, hs, hi, leaveArray_close hu rest⟩
      simpa using hv
  | .obj members, core, h, depth, hd, w, rest, hw, hr => by
    obtain ⟨body, u, hbody, hu, rfl⟩ := h
    cases depth with
    | zero => simp [nesting] at hd
    | succ depth =>
      have hm := memberList_spells members hbody (Nat.le_of_succ_le_succ hd) hu rest
      have hs := skipSpace_blank_cons hw (show isSpace '{' = false by decide)
        (body ++ (u ++ '}' :: rest))
      have hv := value_eq_obj_iff.2 ⟨depth, _, _, rfl, hs, hm, leaveObject_close hu rest⟩
      simpa using hv
  | .null, _, h, _, _, _, _, hw, hr => scalar_value_spells (.null) trivial h hw hr
  | .bool b, _, h, _, _, _, _, hw, hr => scalar_value_spells (.bool b) trivial h hw hr
  | .num n, _, h, _, _, _, _, hw, hr => scalar_value_spells (.num n) trivial h hw hr
  | .str s, _, h, _, _, _, _, hw, hr => scalar_value_spells (.str s) trivial h hw hr

theorem itemList_spells : ∀ (items : List Json) {isFirst : Bool} {body : List Char},
    SpellsItems isFirst items body → ∀ {depth : Nat}, nestingItems items ≤ depth →
    ∀ {w : List Char}, Blank w → ∀ rest,
    ItemList (value depth) isFirst (body ++ (w ++ ']' :: rest)) items (w ++ ']' :: rest)
  | [], isFirst, body, h, depth, hd, w, hw, rest => by
    cases h
    exact .nil (nextItem_close hw)
  | item :: items, isFirst, body, h, depth, hd, w, hw, rest => by
    obtain ⟨lead, core, more, hl, hcore, hmore, rfl⟩ := h
    have hd := Nat.max_le.1 hd
    have hdel := hmore.delimits (hw.delimits (show Delimits (']' :: rest) by simp [Delimits]))
    have hv := value_spells item hcore hd.1 blank_nil hdel.numberEnds
    have hi := itemList_spells items hmore hd.2 hw rest
    obtain ⟨c, t, rfl, hc, hb⟩ := hcore.head
    have hn : nextItem isFirst (lead ++ c :: (t ++ (more ++ (w ++ ']' :: rest)))) =
        .ok (some _) := nextItem_leads hl hc hb
    exact .cons (by simpa using hn) hv hi

theorem memberList_spells : ∀ (members : List (String × Json)) {isFirst : Bool}
    {body : List Char}, SpellsMembers isFirst members body → ∀ {depth : Nat},
    nestingMembers members ≤ depth → ∀ {w : List Char}, Blank w → ∀ rest,
    MemberList (value depth) isFirst (body ++ (w ++ '}' :: rest)) members (w ++ '}' :: rest)
  | [], isFirst, body, h, depth, hd, w, hw, rest => by
    cases h
    exact .nil (nextKey_close hw)
  | (key, v) :: members, isFirst, body, h, depth, hd, w, hw, rest => by
    obtain ⟨lead, name, gap, core, more, hl, hname, ⟨x, y, hx, hy, rfl⟩, hcore, hmore, rfl⟩ := h
    have hd := Nat.max_le.1 hd
    have hdel := hmore.delimits (hw.delimits (show Delimits ('}' :: rest) by simp [Delimits]))
    have hv := value_spells v hcore hd.1 hy hdel.numberEnds
    have hm := memberList_spells members hmore hd.2 hw rest
    have hn : nextKey isFirst (lead ++ '"' :: (name ++ '"' :: (x ++ ':' ::
        (y ++ (core ++ (more ++ (w ++ '}' :: rest))))))) = .ok (some _) := nextKey_leads hl
    exact .cons (by simpa using hn) (hname.stringText_eq _) (colon_blank hx _) hv hm

end

/-- What is read at one depth is read at every depth that its nesting keeps. -/
theorem value_of_value {d depth : Nat} {text rest : List Char} {v : Json}
    (h : value d text = .ok (v, rest)) (hr : NumberEnds rest) (hv : v.nesting ≤ depth) :
    value depth text = .ok (v, rest) := by
  obtain ⟨w, core, hw, hcore, -, rfl⟩ := value_sound d _ _ _ h
  exact value_spells v hcore hv hw hr

theorem document_eq_ok_iff {α : Type} {read : List Char → Except Fault (Read α)}
    {text : List Char} {a : α} :
    document read text = .ok a ↔ ∃ rest, read text = .ok (a, rest) ∧ skipSpace rest = [] := by
  constructor
  · intro h
    unfold document at h
    split at h
    · cases h
    · next b rest hread =>
      split at h
      · next hs =>
        cases h
        exact ⟨rest, hread, hs⟩
      · cases h
  · rintro ⟨rest, hread, hs⟩
    simp [document, hread, hs]

end SyntaxTree.Json
