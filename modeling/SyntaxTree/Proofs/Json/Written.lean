import SyntaxTree.Json.Writer
import SyntaxTree.Proofs.Json.Reading

set_option autoImplicit false

namespace SyntaxTree.Json

theorem hexValue?_hexDigit : ∀ n < 16, hexValue? (hexDigit n) = some n := by decide

theorem escapedChar_spells (c : Char) : SpellsChar c (escapedChar c) := by
  unfold escapedChar
  split
  · next h => subst h; exact .letter rfl
  split
  · next h => subst h; exact .letter rfl
  split
  · next h => subst h; exact .letter rfl
  split
  · next h => subst h; exact .letter rfl
  split
  · next h => subst h; exact .letter rfl
  split
  · next h => subst h; exact .letter rfl
  split
  · next h => subst h; exact .letter rfl
  split
  · next hc =>
    have h₁ := hexValue?_hexDigit (c.toNat / 16) (by omega)
    have h₂ := hexValue?_hexDigit (c.toNat % 16) (by omega)
    have h₀ : hexValue? '0' = some 0 := rfl
    have hn : hexNumber? '0' '0' (hexDigit (c.toNat / 16)) (hexDigit (c.toNat % 16)) =
        some c.toNat := by
      simp [hexNumber?, h₀, h₁, h₂]
      omega
    have hs := SpellsChar.unit hn (by simp [isLowSurrogate]; omega)
      (by simp [isHighSurrogate]; omega)
    rwa [Char.ofNat_toNat] at hs
  · next hq hb _ _ _ _ _ hc => exact .plain hq hb (by simpa [isControl] using hc)

theorem flatMap_escapedChar_spells (cs : List Char) :
    SpellsChars cs (cs.flatMap escapedChar) := by
  induction cs with
  | nil => exact .nil
  | cons c cs ih => exact .cons (escapedChar_spells c) ih

theorem le_ofDigitChars (ds : List Char) (k : Nat) : k ≤ Nat.ofDigitChars 10 ds k := by
  rw [Nat.ofDigitChars_eq_ofDigitChars_zero]
  have h := Nat.le_mul_of_pos_left k (Nat.pow_pos (n := ds.length) (show 0 < 10 by decide))
  omega

theorem wholeDigits_digits {ds : List Char} (hd : ∀ c ∈ ds, c.isDigit = true) {k : Nat}
    (hk : Nat.ofDigitChars 10 ds k ≤ collectable) :
    wholeDigits k ds = (⟨Nat.ofDigitChars 10 ds k, 0⟩, []) := by
  induction ds generalizing k with
  | nil => rfl
  | cons c ds ih =>
    have hc : digit? c = some (c.toNat - 48) := by simp [digit?, hd c (by simp)]
    rw [Nat.ofDigitChars_cons, Nat.mul_comm] at hk ⊢
    have hle := le_ofDigitChars ds (k * 10 + (c.toNat - 48))
    have hfit : k * 10 + (c.toNat - 48) ≤ collectable := Nat.le_trans hle hk
    have ht := ih (fun x hx => hd x (by simp [hx])) hk
    simpa [wholeDigits, hc, hfit] using ht

theorem head_toDigits {n : Nat} (hn : 0 < n) :
    ∃ c ds k, Nat.toDigits 10 n = c :: ds ∧ digit? c = some (k + 1) := by
  induction n using Nat.strongRecOn with
  | ind n ih =>
    by_cases h : n < 10
    · have hc : ∀ m < 10, 0 < m → digit? (Nat.digitChar m) = some (m - 1 + 1) := by decide
      exact ⟨_, [], n - 1, Nat.toDigits_of_lt_base h, hc n h hn⟩
    · obtain ⟨c, ds, k, hds, hc⟩ := ih (n / 10) (by omega) (by omega)
      rw [Nat.toDigits_of_base_le (by decide) (by omega), hds]
      exact ⟨c, _, k, rfl, hc⟩

theorem number_toDigits {n : Nat} (hn : n ≤ collectable) :
    number (Nat.toDigits 10 n) = .ok (.integer n, []) := by
  cases n with
  | zero => rfl
  | succ n =>
    obtain ⟨c, ds, k, hds, hc⟩ := head_toDigits (Nat.succ_pos n)
    have hdig : ∀ x ∈ c :: ds, x.isDigit = true := by
      intro x hx
      exact Nat.isDigit_of_mem_toDigits (by decide) (by decide) (hds ▸ hx)
    have hval : Nat.ofDigitChars 10 ds (k + 1) = n + 1 := by
      have h := Nat.ofDigitChars_ten_toDigits (n := n + 1)
      rw [hds, Nat.ofDigitChars_cons] at h
      have hk : c.toNat - 48 = k + 1 := by simpa [digit?, hdig c (by simp)] using hc
      simpa [hk] using h
    have hw := wholeDigits_digits (fun x hx => hdig x (by simp [hx])) (hval ▸ hn)
    rw [hds, number_digit (isDigit_of_digit? hc), numeral_succ hc, hw, hval]
    rfl

mutual

/-- Whether every number in a value is whole and fits into 64 bits without a sign. -/
def Whole : Json → Prop
  | .num (.integer n) => 0 ≤ n ∧ n ≤ collectable
  | .num (.double _) => False
  | .arr items => WholeItems items
  | .obj members => WholeMembers members
  | _ => True

def WholeItems : List Json → Prop
  | [] => True
  | item :: items => item.Whole ∧ WholeItems items

def WholeMembers : List (String × Json) → Prop
  | [] => True
  | (_, value) :: members => value.Whole ∧ WholeMembers members

end

theorem written_toDigits {n : Int} (h : 0 ≤ n) :
    (Number.integer n).written = Nat.toDigits 10 n.toNat := by
  cases n with
  | ofNat n => exact Nat.toList_repr
  | negSucc n => omega

theorem scalarText_spells {v : Json} (hs : IsScalar v) (hv : v.Whole) :
    v.Spells (scalarText v) := by
  cases v with
  | null => rfl
  | bool b => cases b <;> rfl
  | num n =>
    cases n with
    | integer n =>
      have hn : n.toNat ≤ collectable := by have h := hv.2; omega
      have hr := number_toDigits hn
      rw [Int.toNat_of_nonneg hv.1, ← written_toDigits hv.1] at hr
      exact hr
    | double d => cases hv
  | str s => exact ⟨_, flatMap_escapedChar_spells s.toList, rfl⟩
  | arr items => cases hs
  | obj members => cases hs

theorem SpellsItems.after_comma {item : Json} {items : List Json} {body : List Char}
    (h : SpellsItems true (item :: items) body) :
    SpellsItems false (item :: items) (',' :: body) := by
  obtain ⟨lead, core, rest, hl, hcore, hrest, rfl⟩ := h
  exact ⟨',' :: lead, core, rest, ⟨[], lead, blank_nil, hl, rfl⟩, hcore, hrest, rfl⟩

theorem SpellsMembers.after_comma {member : String × Json} {members : List (String × Json)}
    {body : List Char} (h : SpellsMembers true (member :: members) body) :
    SpellsMembers false (member :: members) (',' :: body) := by
  obtain ⟨lead, name, gap, core, rest, hl, hname, hgap, hcore, hrest, rfl⟩ := h
  exact ⟨',' :: lead, name, gap, core, rest, ⟨[], lead, blank_nil, hl, rfl⟩, hname, hgap, hcore,
    hrest, rfl⟩

theorem colon_blank_nil : Colon [':'] := ⟨[], [], blank_nil, blank_nil, rfl⟩

theorem colon_blank_space : Colon [':', ' '] :=
  ⟨[], [' '], blank_nil, by simp [Blank, isSpace], rfl⟩

mutual

theorem compactBefore_spells : ∀ v : Json, v.Whole →
    ∃ core, v.Spells core ∧ ∀ rest, v.compactBefore rest = core ++ rest
  | .arr items, hv => by
    obtain ⟨body, hbody, hrest⟩ := compactItems_spells items hv
    exact ⟨_, ⟨body, [], hbody, blank_nil, rfl⟩, fun rest => by simp [compactBefore, hrest]⟩
  | .obj members, hv => by
    obtain ⟨body, hbody, hrest⟩ := compactMembers_spells members hv
    exact ⟨_, ⟨body, [], hbody, blank_nil, rfl⟩, fun rest => by simp [compactBefore, hrest]⟩
  | .null, hv => ⟨_, scalarText_spells trivial hv, fun rest => rfl⟩
  | .bool _, hv => ⟨_, scalarText_spells trivial hv, fun rest => rfl⟩
  | .num _, hv => ⟨_, scalarText_spells trivial hv, fun rest => rfl⟩
  | .str _, hv => ⟨_, scalarText_spells trivial hv, fun rest => rfl⟩

theorem compactItems_spells : ∀ items : List Json, WholeItems items →
    ∃ body, SpellsItems true items body ∧ ∀ rest, compactItems rest items = body ++ rest
  | [], _ => ⟨[], rfl, fun rest => rfl⟩
  | [item], hv => by
    obtain ⟨core, hcore, hrest⟩ := compactBefore_spells item hv.1
    exact ⟨core, ⟨[], core, [], blank_nil, hcore, rfl, by simp⟩, hrest⟩
  | item :: next :: items, hv => by
    obtain ⟨core, hcore, hrest⟩ := compactBefore_spells item hv.1
    obtain ⟨body, hbody, hmore⟩ := compactItems_spells (next :: items) hv.2
    refine ⟨core ++ ',' :: body, ⟨[], core, _, blank_nil, hcore, hbody.after_comma, rfl⟩, ?_⟩
    intro rest
    simp [compactItems, hrest, hmore]

theorem compactMembers_spells : ∀ members : List (String × Json), WholeMembers members →
    ∃ body, SpellsMembers true members body ∧ ∀ rest, compactMembers rest members = body ++ rest
  | [], _ => ⟨[], rfl, fun rest => rfl⟩
  | [(key, v)], hv => by
    obtain ⟨core, hcore, hrest⟩ := compactBefore_spells v hv.1
    have hkey := flatMap_escapedChar_spells key.toList
    refine ⟨_, ⟨[], _, _, core, [], blank_nil, hkey, colon_blank_nil, hcore, rfl, rfl⟩, ?_⟩
    intro rest
    simp [compactMembers, stringBefore, hrest]
  | (key, v) :: next :: members, hv => by
    obtain ⟨core, hcore, hrest⟩ := compactBefore_spells v hv.1
    obtain ⟨body, hbody, hmore⟩ := compactMembers_spells (next :: members) hv.2
    have hkey := flatMap_escapedChar_spells key.toList
    refine ⟨_, ⟨[], _, _, core, _, blank_nil, hkey, colon_blank_nil, hcore,
      hbody.after_comma, rfl⟩, ?_⟩
    intro rest
    simp [compactMembers, stringBefore, hrest, hmore]

end

theorem spacesBefore_eq (rest : List Char) (n : Nat) :
    spacesBefore rest n = List.replicate n ' ' ++ rest := by
  induction n with
  | zero => rfl
  | succ n ih => simp [spacesBefore, ih, List.replicate_succ]

def line (level : Nat) : List Char := '\n' :: List.replicate (2 * level) ' '

theorem lineBefore_eq (level : Nat) (rest : List Char) :
    lineBefore level rest = line level ++ rest := by simp [lineBefore, line, spacesBefore_eq]

theorem blank_line (level : Nat) : Blank (line level) := by
  intro c hc
  rcases List.mem_cons.1 hc with rfl | hc
  · rfl
  · rw [List.eq_of_mem_replicate hc]
    rfl

mutual

theorem prettyBefore_spells : ∀ (v : Json) (level : Nat), v.Whole →
    ∃ core, v.Spells core ∧ ∀ rest, v.prettyBefore level rest = core ++ rest
  | .arr [], level, _ => ⟨_, ⟨[], [], rfl, blank_nil, rfl⟩, fun rest => rfl⟩
  | .arr (item :: items), level, hv => by
    obtain ⟨body, hbody, hrest⟩ := prettyItems_spells (item :: items) (level + 1) hv
    refine ⟨_, ⟨body, _, hbody, blank_line level, rfl⟩, fun rest => ?_⟩
    simp [prettyBefore, hrest, lineBefore_eq]
  | .obj [], level, _ => ⟨_, ⟨[], [], rfl, blank_nil, rfl⟩, fun rest => rfl⟩
  | .obj (member :: members), level, hv => by
    obtain ⟨body, hbody, hrest⟩ := prettyMembers_spells (member :: members) (level + 1) hv
    refine ⟨_, ⟨body, _, hbody, blank_line level, rfl⟩, fun rest => ?_⟩
    simp [prettyBefore, hrest, lineBefore_eq]
  | .null, _, hv => ⟨_, scalarText_spells trivial hv, fun rest => rfl⟩
  | .bool _, _, hv => ⟨_, scalarText_spells trivial hv, fun rest => rfl⟩
  | .num _, _, hv => ⟨_, scalarText_spells trivial hv, fun rest => rfl⟩
  | .str _, _, hv => ⟨_, scalarText_spells trivial hv, fun rest => rfl⟩

theorem prettyItems_spells : ∀ (items : List Json) (level : Nat), WholeItems items →
    ∃ body, SpellsItems true items body ∧ ∀ rest, prettyItems level rest items = body ++ rest
  | [], _, _ => ⟨[], rfl, fun rest => rfl⟩
  | [item], level, hv => by
    obtain ⟨core, hcore, hrest⟩ := prettyBefore_spells item level hv.1
    refine ⟨_, ⟨line level, core, [], blank_line level, hcore, rfl, rfl⟩, fun rest => ?_⟩
    simp [prettyItems, lineBefore_eq, hrest]
  | item :: next :: items, level, hv => by
    obtain ⟨core, hcore, hrest⟩ := prettyBefore_spells item level hv.1
    obtain ⟨body, hbody, hmore⟩ := prettyItems_spells (next :: items) level hv.2
    refine ⟨_, ⟨line level, core, _, blank_line level, hcore, hbody.after_comma, rfl⟩, ?_⟩
    intro rest
    simp [prettyItems, lineBefore_eq, hrest, hmore]

theorem prettyMembers_spells : ∀ (members : List (String × Json)) (level : Nat),
    WholeMembers members →
    ∃ body, SpellsMembers true members body ∧
      ∀ rest, prettyMembers level rest members = body ++ rest
  | [], _, _ => ⟨[], rfl, fun rest => rfl⟩
  | [(key, v)], level, hv => by
    obtain ⟨core, hcore, hrest⟩ := prettyBefore_spells v level hv.1
    have hkey := flatMap_escapedChar_spells key.toList
    refine ⟨_, ⟨line level, _, _, core, [], blank_line level, hkey, colon_blank_space, hcore, rfl,
      rfl⟩, fun rest => ?_⟩
    simp [prettyMembers, lineBefore_eq, stringBefore, hrest]
  | (key, v) :: next :: members, level, hv => by
    obtain ⟨core, hcore, hrest⟩ := prettyBefore_spells v level hv.1
    obtain ⟨body, hbody, hmore⟩ := prettyMembers_spells (next :: members) level hv.2
    have hkey := flatMap_escapedChar_spells key.toList
    refine ⟨_, ⟨line level, _, _, core, _, blank_line level, hkey, colon_blank_space, hcore,
      hbody.after_comma, rfl⟩, fun rest => ?_⟩
    simp [prettyMembers, lineBefore_eq, stringBefore, hrest, hmore]

end

theorem text_spells {v : Json} (hv : v.Whole) (pretty : Bool) :
    v.Spells (v.text pretty).toList := by
  cases pretty with
  | true =>
    obtain ⟨core, hcore, hrest⟩ := prettyBefore_spells v 0 hv
    simpa [text, Json.pretty, hrest] using hcore
  | false =>
    obtain ⟨core, hcore, hrest⟩ := compactBefore_spells v hv
    simpa [text, compact, hrest] using hcore

/-- Both written forms are read again, if the limit of nesting is kept. -/
theorem value_text {v : Json} (hv : v.Whole) {depth : Nat} (hd : v.nesting ≤ depth)
    (pretty : Bool) : value depth (v.text pretty).toList = .ok (v, []) := by
  simpa using value_spells v (text_spells hv pretty) hd blank_nil numberEnds_nil

end SyntaxTree.Json
