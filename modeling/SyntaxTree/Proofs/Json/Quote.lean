import SyntaxTree.Proofs.Json.Token

set_option autoImplicit false

namespace SyntaxTree.Json

theorem bind_eq_ok {ε α β : Type} {x : Except ε α} {f : α → Except ε β} {b : β} :
    x >>= f = .ok b ↔ ∃ a, x = .ok a ∧ f a = .ok b := by
  cases x <;> simp [bind, Except.bind]

@[simp] theorem ok_bind {ε α β : Type} (a : α) (f : α → Except ε β) :
    (Except.ok a >>= f) = f a := rfl

@[simp] theorem error_bind {ε α β : Type} (e : ε) (f : α → Except ε β) :
    (Except.error e >>= f) = .error e := rfl

theorem hexUnit_eq_ok {text rest : List Char} {n : Nat} (h : hexUnit text = .ok (n, rest)) :
    ∃ a b c d, hexNumber? a b c d = some n ∧ text = a :: b :: c :: d :: rest := by
  unfold hexUnit at h
  split at h
  · next a b c d r =>
    split at h
    · next m hm =>
      cases h
      exact ⟨a, b, c, d, hm, rfl⟩
    · cases h
  · cases h

theorem hexUnit_digits {a b c d : Char} {n : Nat} (h : hexNumber? a b c d = some n)
    (rest : List Char) : hexUnit (a :: b :: c :: d :: rest) = .ok (n, rest) := by
  simp [hexUnit, h]

theorem lowSurrogate_eq_ok {high : Nat} {text rest : List Char} {c : Char}
    (h : lowSurrogate high text = .ok (c, rest)) :
    ∃ e f g k low, hexNumber? e f g k = some low ∧ isLowSurrogate low = true ∧
      c = surrogatePair high low ∧ text = '\\' :: 'u' :: e :: f :: g :: k :: rest := by
  unfold lowSurrogate at h
  split at h
  · obtain ⟨⟨low, r⟩, hu, hr⟩ := bind_eq_ok.1 h
    obtain ⟨e, f, g, k, hn, rfl⟩ := hexUnit_eq_ok hu
    by_cases hl : isLowSurrogate low = true
    · simp only [hl, if_true, Except.ok.injEq, Prod.mk.injEq] at hr
      obtain ⟨rfl, rfl⟩ := hr
      exact ⟨e, f, g, k, low, hn, hl, rfl, rfl⟩
    · simp [hl] at hr
  all_goals cases h

theorem escape_eq_ok {text rest : List Char} {c : Char} (h : escape text = .ok (c, rest)) :
    ∃ used, text = used ++ rest ∧ SpellsChar c ('\\' :: used) := by
  unfold escape at h
  split at h
  · cases h
  · next r =>
    obtain ⟨⟨n, r'⟩, hu, hr⟩ := bind_eq_ok.1 h
    obtain ⟨a, b, d, e, hn, rfl⟩ := hexUnit_eq_ok hu
    by_cases hl : isLowSurrogate n = true
    · simp [hl] at hr
    · simp only [hl, Bool.false_eq_true, if_false] at hr
      by_cases hh : isHighSurrogate n = true
      · simp only [hh, if_true] at hr
        obtain ⟨e', f, g, k, low, hn', hlow, hc, rfl⟩ := lowSurrogate_eq_ok hr
        refine ⟨['u', a, b, d, e, '\\', 'u', e', f, g, k], rfl, ?_⟩
        rw [hc]
        exact .pair hn (by simpa using hl) hh hn' hlow
      · simp only [hh, Bool.false_eq_true, if_false, Except.ok.injEq, Prod.mk.injEq] at hr
        obtain ⟨rfl, rfl⟩ := hr
        exact ⟨['u', a, b, d, e], rfl, .unit hn (by simpa using hl) (by simpa using hh)⟩
  · next l r hne =>
    split at h
    · next c' hc =>
      cases h
      exact ⟨[l], rfl, .letter hc⟩
    · cases h

theorem SpellsChar.escape_eq {c : Char} {used : List Char} (h : SpellsChar c ('\\' :: used))
    (rest : List Char) : escape (used ++ rest) = .ok (c, rest) := by
  cases h with
  | plain _ hb _ => exact absurd rfl hb
  | @letter _ l hl =>
    have hu : l ≠ 'u' := by rintro rfl; simp [letterEscape?] at hl
    simp [escape, hl]
  | unit hn hlow hhigh =>
    simp [escape, numericEscape, hexUnit_digits hn, hlow, hhigh]
  | pair hn hlow hhigh hn' hlow' =>
    simp [escape, numericEscape, lowSurrogate, hexUnit_digits hn, hexUnit_digits hn',
      hlow, hhigh, hlow']

theorem SpellsChar.plain_or_escape {c : Char} {text : List Char} (h : SpellsChar c text) :
    (text = [c] ∧ c ≠ '"' ∧ c ≠ '\\' ∧ isControl c = false) ∨ ∃ used, text = '\\' :: used := by
  cases h with
  | plain hq hb hc => exact .inl ⟨rfl, hq, hb, hc⟩
  | letter _ => exact .inr ⟨_, rfl⟩
  | unit _ _ _ => exact .inr ⟨_, rfl⟩
  | pair _ _ _ _ _ => exact .inr ⟨_, rfl⟩

theorem stringChars_eq_ok {bound text cs rest : List Char}
    (h : stringChars bound text = .ok (cs, rest)) :
    ∃ body, SpellsChars cs body ∧ text = body ++ '"' :: rest := by
  induction bound generalizing text cs with
  | nil => cases text <;> simp [stringChars] at h
  | cons _ bound ih =>
    cases text with
    | nil => simp [stringChars] at h
    | cons c text =>
      unfold stringChars at h
      by_cases hq : c = '"'
      · simp only [hq, if_true, Except.ok.injEq, Prod.mk.injEq] at h
        obtain ⟨rfl, rfl⟩ := h
        exact ⟨[], .nil, by rw [hq]; rfl⟩
      by_cases hb : c = '\\'
      · simp only [hb, if_true] at h
        obtain ⟨⟨d, r⟩, he, hr⟩ := bind_eq_ok.1 h
        obtain ⟨⟨ds, r'⟩, hs, hr'⟩ := bind_eq_ok.1 hr
        cases hr'
        obtain ⟨used, rfl, hd⟩ := escape_eq_ok he
        obtain ⟨body, hds, rfl⟩ := ih hs
        exact ⟨_, .cons hd hds, by simp [hb]⟩
      · simp only [hq, hb, if_false] at h
        by_cases hc : isControl c = true
        · simp [hc] at h
        · simp only [hc, Bool.false_eq_true, if_false] at h
          obtain ⟨⟨ds, r'⟩, hs, hr⟩ := bind_eq_ok.1 h
          cases hr
          obtain ⟨body, hds, rfl⟩ := ih hs
          exact ⟨_, .cons (.plain hq hb (by simpa using hc)) hds, rfl⟩

theorem SpellsChars.stringChars_eq {cs body : List Char} (h : SpellsChars cs body)
    {bound : List Char} (hb : body.length < bound.length) (rest : List Char) :
    stringChars bound (body ++ '"' :: rest) = .ok (cs, rest) := by
  induction h generalizing bound with
  | nil =>
    cases bound with
    | nil => simp at hb
    | cons _ bound => simp [stringChars]
  | @cons c cs text texts hc _ ih =>
    cases bound with
    | nil => simp at hb
    | cons _ bound =>
      rcases hc.plain_or_escape with ⟨rfl, hq, hs, hv⟩ | ⟨used, rfl⟩
      · have ht := @ih bound (by simpa using hb)
        simp [stringChars, hq, hs, hv, ht]
      · have ht := @ih bound (by simp at hb; omega)
        have he := hc.escape_eq (texts ++ '"' :: rest)
        simp [stringChars, he, ht]

theorem stringText_eq_ok {text rest : List Char} {s : String}
    (h : stringText text = .ok (s, rest)) :
    ∃ body, SpellsChars s.toList body ∧ text = body ++ '"' :: rest := by
  obtain ⟨⟨cs, r⟩, hc, hr⟩ := bind_eq_ok.1 h
  cases hr
  simpa using stringChars_eq_ok hc

theorem SpellsChars.stringText_eq {s : String} {body : List Char}
    (h : SpellsChars s.toList body) (rest : List Char) :
    stringText (body ++ '"' :: rest) = .ok (s, rest) := by
  have hb : body.length < (body ++ '"' :: rest).length := by simp
  simp [stringText, h.stringChars_eq hb rest]

end SyntaxTree.Json
