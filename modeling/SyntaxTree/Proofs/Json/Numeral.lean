import SyntaxTree.Proofs.Json.Grammar

set_option autoImplicit false

namespace SyntaxTree.Json

def NoDigit (text : List Char) : Prop := ∀ c ∈ text.head?, c.isDigit = false

/-- A text that does not go on with a number. -/
def NumberEnds (text : List Char) : Prop :=
  ∀ c ∈ text.head?, c.isDigit = false ∧ c ≠ '.' ∧ c ≠ 'e' ∧ c ≠ 'E'

@[simp] theorem noDigit_nil : NoDigit [] := by simp [NoDigit]

@[simp] theorem noDigit_cons (c : Char) (text : List Char) :
    NoDigit (c :: text) ↔ c.isDigit = false := by simp [NoDigit]

@[simp] theorem numberEnds_nil : NumberEnds [] := by simp [NumberEnds]

@[simp] theorem numberEnds_cons (c : Char) (text : List Char) :
    NumberEnds (c :: text) ↔ c.isDigit = false ∧ c ≠ '.' ∧ c ≠ 'e' ∧ c ≠ 'E' := by
  simp [NumberEnds]

theorem NumberEnds.noDigit {text : List Char} (h : NumberEnds text) : NoDigit text :=
  fun c hc => (h c hc).1

theorem NoDigit.append {used rest r : List Char} (h : NoDigit (used ++ rest))
    (hr : NumberEnds r) : NoDigit (used ++ r) := by
  cases used with
  | nil => exact hr.noDigit
  | cons c used => simpa using h

theorem digit?_eq_none_iff {c : Char} : digit? c = none ↔ c.isDigit = false := by
  simp [digit?]

theorem isDigit_of_digit? {c : Char} {n : Nat} (h : digit? c = some n) : c.isDigit = true := by
  cases hc : c.isDigit with
  | true => rfl
  | false => simp [digit?, hc] at h

theorem noDigit_dropWhile (text : List Char) : NoDigit (text.dropWhile Char.isDigit) := by
  induction text with
  | nil => simp
  | cons c text ih =>
    by_cases hc : c.isDigit = true
    · simpa [hc] using ih
    · simp [hc]

theorem takeWhile_isDigit (text : List Char) :
    ∀ c ∈ text.takeWhile Char.isDigit, c.isDigit = true := List.all_eq_true.1 List.all_takeWhile

theorem dropWhile_digits {used : List Char} (hu : ∀ c ∈ used, c.isDigit = true) {r : List Char}
    (hr : NoDigit r) : (used ++ r).dropWhile Char.isDigit = r := by
  rw [List.dropWhile_append_of_pos hu]
  cases r with
  | nil => rfl
  | cons c r => simp [(noDigit_cons c r).1 hr]

theorem takeWhile_digits {used : List Char} (hu : ∀ c ∈ used, c.isDigit = true) {r : List Char}
    (hr : NoDigit r) : (used ++ r).takeWhile Char.isDigit = used := by
  rw [List.takeWhile_append_of_pos hu]
  cases r with
  | nil => simp
  | cons c r => simp [(noDigit_cons c r).1 hr]

theorem wholeDigits_noDigit {r : List Char} (hr : NoDigit r) (k : Nat) :
    wholeDigits k r = (⟨k, 0⟩, r) := by
  cases r with
  | nil => rfl
  | cons c r => simp [wholeDigits, digit?_eq_none_iff.2 ((noDigit_cons c r).1 hr)]

theorem fractionDigits_noDigit {r : List Char} (hr : NoDigit r) (d : Decimal) :
    fractionDigits d r = (d, r) := by
  cases r with
  | nil => rfl
  | cons c r => simp [fractionDigits, digit?_eq_none_iff.2 ((noDigit_cons c r).1 hr)]

theorem exists_wholeDigits (k : Nat) (text : List Char) :
    ∃ d used rest, text = used ++ rest ∧ NoDigit rest ∧
      ∀ r, NoDigit r → wholeDigits k (used ++ r) = (d, r) := by
  induction text generalizing k with
  | nil => exact ⟨_, [], [], rfl, noDigit_nil, fun r hr => wholeDigits_noDigit hr k⟩
  | cons c text ih =>
    cases hc : digit? c with
    | none =>
      have hd := digit?_eq_none_iff.1 hc
      exact ⟨_, [], c :: text, rfl, by simpa using hd, fun r hr => wholeDigits_noDigit hr k⟩
    | some n =>
      by_cases hfit : k * 10 + n ≤ collectable
      · obtain ⟨d, used, rest, rfl, hrest, hread⟩ := ih (k * 10 + n)
        refine ⟨d, c :: used, rest, rfl, hrest, fun r hr => ?_⟩
        simp [wholeDigits, hc, hfit, hread r hr]
      · have hdig := isDigit_of_digit? hc
        have hall : ∀ x ∈ c :: text.takeWhile Char.isDigit, x.isDigit = true := by
          simpa [hdig] using takeWhile_isDigit text
        refine ⟨⟨k, (text.takeWhile Char.isDigit).length + 1⟩, c :: text.takeWhile Char.isDigit,
          text.dropWhile Char.isDigit, by simp, noDigit_dropWhile text, fun r hr => ?_⟩
        have ht := takeWhile_digits hall hr
        have hd := dropWhile_digits hall hr
        simp only [List.cons_append] at ht hd
        simp [wholeDigits, hc, hfit, ht, hd]

theorem exists_fractionDigits (d : Decimal) (text : List Char) :
    ∃ d' used rest, text = used ++ rest ∧ NoDigit rest ∧
      ∀ r, NoDigit r → fractionDigits d (used ++ r) = (d', r) := by
  induction text generalizing d with
  | nil => exact ⟨_, [], [], rfl, noDigit_nil, fun r hr => fractionDigits_noDigit hr d⟩
  | cons c text ih =>
    cases hc : digit? c with
    | none =>
      have hd := digit?_eq_none_iff.1 hc
      exact ⟨_, [], c :: text, rfl, by simpa using hd, fun r hr => fractionDigits_noDigit hr d⟩
    | some n =>
      by_cases hfit : d.digits * 10 + n ≤ collectable
      · obtain ⟨d', used, rest, rfl, hrest, hread⟩ := ih ⟨d.digits * 10 + n, d.exponent - 1⟩
        refine ⟨d', c :: used, rest, rfl, hrest, fun r hr => ?_⟩
        simp [fractionDigits, hc, hfit, hread r hr]
      · have hdig := isDigit_of_digit? hc
        have hall : ∀ x ∈ c :: text.takeWhile Char.isDigit, x.isDigit = true := by
          simpa [hdig] using takeWhile_isDigit text
        refine ⟨d, c :: text.takeWhile Char.isDigit, text.dropWhile Char.isDigit, by simp,
          noDigit_dropWhile text, fun r hr => ?_⟩
        have hd := dropWhile_digits hall hr
        simp only [List.cons_append] at hd
        simp [fractionDigits, hc, hfit, hd]

/-- A reader takes a part of a text, and takes the same in front of every other text that does not
go on with the number. -/
def Takes (read : List Char → Except Fault (Read Number)) (text : List Char) (n : Number)
    (rest : List Char) : Prop :=
  ∃ used, text = used ++ rest ∧ ∀ r, NumberEnds r → read (used ++ r) = .ok (n, r)

theorem real_eq_ok {negative : Bool} {d : Decimal} {text rest : List Char} {n : Number}
    (h : real negative d text = .ok (n, rest)) :
    text = rest ∧ ∀ r, real negative d r = .ok (n, r) := by
  unfold real at h ⊢
  split at h
  · next f hf =>
    cases h
    exact ⟨rfl, fun r => rfl⟩
  · cases h

theorem exponentDigits_noDigit {r : List Char} (hr : NoDigit r) (negative shrinks : Bool)
    (d : Decimal) (e : Nat) :
    exponentDigits negative d shrinks e r = real negative (moved d shrinks e) r := by
  cases r with
  | nil => rfl
  | cons c r => simp [exponentDigits, digit?_eq_none_iff.2 ((noDigit_cons c r).1 hr)]

theorem exponentDigits_takes {negative shrinks : Bool} {d : Decimal} {e : Nat}
    {text rest : List Char} {n : Number}
    (h : exponentDigits negative d shrinks e text = .ok (n, rest)) :
    Takes (exponentDigits negative d shrinks e) text n rest := by
  induction text generalizing e with
  | nil =>
    obtain ⟨rfl, hr⟩ := real_eq_ok h
    refine ⟨[], rfl, fun r he => ?_⟩
    rw [List.nil_append, exponentDigits_noDigit he.noDigit, hr]
  | cons c text ih =>
    cases hc : digit? c with
    | none =>
      simp only [exponentDigits, hc] at h
      obtain ⟨rfl, hr⟩ := real_eq_ok h
      refine ⟨[], rfl, fun r he => ?_⟩
      rw [List.nil_append, exponentDigits_noDigit he.noDigit, hr]
    | some k =>
      simp only [exponentDigits, hc] at h
      by_cases hfit : e * 10 + k ≤ greatestExponent
      · simp only [hfit, if_true] at h
        obtain ⟨used, rfl, hread⟩ := ih h
        refine ⟨c :: used, rfl, fun r hr => ?_⟩
        simp [exponentDigits, hc, hfit, hread r hr]
      · simp only [hfit, if_false] at h
        split at h
        · cases h
        · next hzero =>
          obtain ⟨hrest, hreal⟩ := real_eq_ok h
          refine ⟨c :: text.takeWhile Char.isDigit, by simp [← hrest], fun r hr => ?_⟩
          have hd := dropWhile_digits (takeWhile_isDigit text) hr.noDigit
          simp only [List.cons_append, exponentDigits, hc, hfit, if_false, hzero, hd]
          exact hreal r

def exponentStart (negative : Bool) (d : Decimal) (shrinks : Bool) :
    List Char → Except Fault (Read Number)
  | [] => .error (faultHere .endOfValue [])
  | c :: rest =>
    match digit? c with
    | some n => exponentDigits negative d shrinks n rest
    | none => .error (faultAhead .invalidNumber (c :: rest))

theorem exponentPart_eq (negative : Bool) (d : Decimal) (text : List Char) :
    (∃ t, text = '-' :: t ∧ exponentPart negative d text = exponentStart negative d true t) ∨
    (∃ t, text = '+' :: t ∧ exponentPart negative d text = exponentStart negative d false t) ∨
    ((∀ t, text ≠ '-' :: t) ∧ (∀ t, text ≠ '+' :: t) ∧
      exponentPart negative d text = exponentStart negative d false text) := by
  unfold exponentPart
  split
  · next hp =>
    split at hp
    · cases hp
      exact .inr (.inl ⟨_, rfl, rfl⟩)
    · cases hp
      exact .inl ⟨_, rfl, rfl⟩
    · next t hplus hminus =>
      cases hp
      exact .inr (.inr ⟨hminus, hplus, rfl⟩)

theorem exponentStart_takes {negative shrinks : Bool} {d : Decimal} {text rest : List Char}
    {n : Number} (h : exponentStart negative d shrinks text = .ok (n, rest)) :
    ∃ c used, text = c :: used ++ rest ∧ c.isDigit = true ∧
      ∀ r, NumberEnds r → exponentStart negative d shrinks (c :: used ++ r) = .ok (n, r) := by
  cases text with
  | nil => cases h
  | cons c text =>
    cases hc : digit? c with
    | none => simp [exponentStart, hc] at h
    | some k =>
      simp only [exponentStart, hc] at h
      obtain ⟨used, rfl, hread⟩ := exponentDigits_takes h
      refine ⟨c, used, rfl, isDigit_of_digit? hc, fun r hr => ?_⟩
      simpa [exponentStart, hc] using hread r hr

theorem exponentPart_takes {negative : Bool} {d : Decimal} {text rest : List Char} {n : Number}
    (h : exponentPart negative d text = .ok (n, rest)) :
    Takes (exponentPart negative d) text n rest := by
  rcases exponentPart_eq negative d text with ⟨t, rfl, ht⟩ | ⟨t, rfl, ht⟩ | ⟨hm, hp, ht⟩
  · obtain ⟨c, used, rfl, -, hread⟩ := exponentStart_takes (ht ▸ h)
    exact ⟨'-' :: c :: used, rfl, hread⟩
  · obtain ⟨c, used, rfl, -, hread⟩ := exponentStart_takes (ht ▸ h)
    exact ⟨'+' :: c :: used, rfl, hread⟩
  · obtain ⟨c, used, rfl, hc, hread⟩ := exponentStart_takes (ht ▸ h)
    refine ⟨c :: used, rfl, fun r hr => ?_⟩
    rcases exponentPart_eq negative d (c :: used ++ r) with ⟨_, ht, _⟩ | ⟨_, ht, _⟩ | ⟨_, _, ht⟩
    · cases ht
      simp at hc
    · cases ht
      simp at hc
    · rw [ht, hread r hr]

def afterFraction (negative : Bool) (d : Decimal) : List Char → Except Fault (Read Number)
  | 'e' :: rest => exponentPart negative d rest
  | 'E' :: rest => exponentPart negative d rest
  | rest => real negative d rest

theorem afterFraction_ends {r : List Char} (hr : NumberEnds r) (negative : Bool) (d : Decimal) :
    afterFraction negative d r = real negative d r := by
  unfold afterFraction
  split
  · simp at hr
  · simp at hr
  · rfl

theorem afterFraction_takes {negative : Bool} {d : Decimal} {text rest : List Char} {n : Number}
    (h : afterFraction negative d text = .ok (n, rest)) :
    Takes (afterFraction negative d) text n rest := by
  unfold afterFraction at h
  split at h
  · obtain ⟨used, rfl, hread⟩ := exponentPart_takes h
    exact ⟨'e' :: used, rfl, hread⟩
  · obtain ⟨used, rfl, hread⟩ := exponentPart_takes h
    exact ⟨'E' :: used, rfl, hread⟩
  · obtain ⟨rfl, hreal⟩ := real_eq_ok h
    refine ⟨[], rfl, fun r hr => ?_⟩
    rw [List.nil_append, afterFraction_ends hr, hreal]

theorem fractionPart_digit {c : Char} (hc : c.isDigit = true) (negative : Bool) (d : Decimal)
    (rest : List Char) : fractionPart negative d (c :: rest) =
      afterFraction negative (fractionDigits d (c :: rest)).1 (fractionDigits d (c :: rest)).2 := by
  rw [fractionPart, if_pos hc]
  generalize fractionDigits d (c :: rest) = p
  obtain ⟨d', t⟩ := p
  unfold afterFraction
  split <;> simp_all

theorem fractionPart_takes {negative : Bool} {d : Decimal} {text rest : List Char} {n : Number}
    (h : fractionPart negative d text = .ok (n, rest)) :
    Takes (fractionPart negative d) text n rest := by
  cases text with
  | nil => cases h
  | cons c text =>
    cases hc : c.isDigit with
    | false => simp [fractionPart, hc] at h
    | true =>
      obtain ⟨d', used, after, hsplit, hafter, hread⟩ := exists_fractionDigits d (c :: text)
      cases used with
      | nil =>
        rw [List.nil_append] at hsplit
        rw [← hsplit, noDigit_cons, hc] at hafter
        cases hafter
      | cons x used =>
        obtain ⟨rfl, rfl⟩ : c = x ∧ text = used ++ after := by simpa using hsplit
        have hd := hread after hafter
        rw [List.cons_append] at hd
        rw [fractionPart_digit hc, hd] at h
        obtain ⟨used', rfl, hread'⟩ := afterFraction_takes h
        refine ⟨c :: used ++ used', by simp, fun r hr => ?_⟩
        have hd' := hread (used' ++ r) (hafter.append hr)
        rw [List.cons_append] at hd'
        rw [List.append_assoc, List.cons_append, fractionPart_digit hc, hd']
        exact hread' r hr

def wholeEnd (negative : Bool) (d : Decimal) (rest : List Char) : Except Fault (Read Number) :=
  if d.exponent ≠ 0 then real negative d rest
  else if !negative then .ok (.integer d.digits, rest)
  else if d.digits = 0 ∨ d.digits > 1 <<< 63 then real negative d rest
  else .ok (.integer (-d.digits), rest)

theorem wholeEnd_eq_ok {negative : Bool} {d : Decimal} {text rest : List Char} {n : Number}
    (h : wholeEnd negative d text = .ok (n, rest)) :
    text = rest ∧ ∀ r, wholeEnd negative d r = .ok (n, r) := by
  unfold wholeEnd at h ⊢
  by_cases he : d.exponent ≠ 0
  · simp only [if_pos he] at h ⊢
    exact real_eq_ok h
  · by_cases hn : (!negative) = true
    · simp only [if_neg he, if_pos hn] at h ⊢
      cases h
      exact ⟨rfl, fun r => rfl⟩
    · by_cases hz : d.digits = 0 ∨ d.digits > 1 <<< 63
      · simp only [if_neg he, if_neg hn, if_pos hz] at h ⊢
        exact real_eq_ok h
      · simp only [if_neg he, if_neg hn, if_neg hz] at h ⊢
        cases h
        exact ⟨rfl, fun r => rfl⟩

theorem afterWhole_ends {r : List Char} (hr : NumberEnds r) (negative : Bool) (d : Decimal) :
    afterWhole negative d r = wholeEnd negative d r := by
  unfold afterWhole
  split
  · simp at hr
  · simp at hr
  · simp at hr
  · rfl

theorem afterWhole_takes {negative : Bool} {d : Decimal} {text rest : List Char} {n : Number}
    (h : afterWhole negative d text = .ok (n, rest)) :
    Takes (afterWhole negative d) text n rest := by
  unfold afterWhole at h
  split at h
  · obtain ⟨used, rfl, hread⟩ := fractionPart_takes h
    exact ⟨'.' :: used, rfl, hread⟩
  · obtain ⟨used, rfl, hread⟩ := exponentPart_takes h
    exact ⟨'e' :: used, rfl, hread⟩
  · obtain ⟨used, rfl, hread⟩ := exponentPart_takes h
    exact ⟨'E' :: used, rfl, hread⟩
  · obtain ⟨rfl, hend⟩ := wholeEnd_eq_ok h
    refine ⟨[], rfl, fun r hr => ?_⟩
    rw [List.nil_append, afterWhole_ends hr, hend]

theorem numeral_zero {c : Char} (hc : digit? c = some 0) {r : List Char} (hr : NoDigit r)
    (negative : Bool) : numeral negative (c :: r) = afterWhole negative ⟨0, 0⟩ r := by
  cases r with
  | nil => simp [numeral, hc]
  | cons d r => simp [numeral, hc, (noDigit_cons d r).1 hr]

theorem noDigit_of_numeral_zero {negative : Bool} {c : Char} {text : List Char}
    {a : Read Number} (hc : digit? c = some 0) (h : numeral negative (c :: text) = .ok a) :
    NoDigit text := by
  cases text with
  | nil => exact noDigit_nil
  | cons d text =>
    cases hd : d.isDigit with
    | true => simp [numeral, hc, hd] at h
    | false => simpa using hd

theorem numeral_succ {c : Char} {k : Nat} (hc : digit? c = some (k + 1)) (negative : Bool)
    (r : List Char) : numeral negative (c :: r) =
      afterWhole negative (wholeDigits (k + 1) r).1 (wholeDigits (k + 1) r).2 := by
  simp [numeral, hc]

theorem numeral_takes {negative : Bool} {text rest : List Char} {n : Number}
    (h : numeral negative text = .ok (n, rest)) :
    ∃ c used, text = c :: used ++ rest ∧ c.isDigit = true ∧
      ∀ r, NumberEnds r → numeral negative (c :: used ++ r) = .ok (n, r) := by
  cases text with
  | nil => cases h
  | cons c text =>
    cases hc : digit? c with
    | none => simp [numeral, hc] at h
    | some k =>
      have hdig := isDigit_of_digit? hc
      cases k with
      | zero =>
        have hnd := noDigit_of_numeral_zero hc h
        rw [numeral_zero hc hnd] at h
        obtain ⟨used, rfl, hread⟩ := afterWhole_takes h
        refine ⟨c, used, rfl, hdig, fun r hr => ?_⟩
        rw [List.cons_append, numeral_zero hc (hnd.append hr), hread r hr]
      | succ k =>
        obtain ⟨d, used, after, rfl, hafter, hread⟩ := exists_wholeDigits (k + 1) text
        rw [numeral_succ hc, hread after hafter] at h
        obtain ⟨used', rfl, hread'⟩ := afterWhole_takes h
        refine ⟨c, used ++ used', by simp, hdig, fun r hr => ?_⟩
        rw [List.cons_append, List.append_assoc, numeral_succ hc, hread _ (hafter.append hr)]
        exact hread' r hr

theorem number_digit {c : Char} (hc : c.isDigit = true) (text : List Char) :
    number (c :: text) = numeral false (c :: text) := by
  unfold number
  split
  · next heq =>
    cases heq
    simp at hc
  · rfl

/-- What is read as a number spells it, and spells it in front of every text that does not go on
with the number. -/
theorem number_takes {text rest : List Char} {n : Number} (h : number text = .ok (n, rest)) :
    ∃ c used, text = c :: used ++ rest ∧ (c = '-' ∨ c.isDigit = true) ∧
      ∀ r, NumberEnds r → number (c :: used ++ r) = .ok (n, r) := by
  unfold number at h
  split at h
  · obtain ⟨c, used, rfl, -, hread⟩ := numeral_takes h
    exact ⟨'-', c :: used, rfl, .inl rfl, hread⟩
  · obtain ⟨c, used, rfl, hc, hread⟩ := numeral_takes h
    refine ⟨c, used, rfl, .inr hc, fun r hr => ?_⟩
    rw [List.cons_append, number_digit hc]
    exact hread r hr

end SyntaxTree.Json
