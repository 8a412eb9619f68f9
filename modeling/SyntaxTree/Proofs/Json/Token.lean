import SyntaxTree.Proofs.Json.Grammar

set_option autoImplicit false

namespace SyntaxTree.Json

def Solid (text : List Char) : Prop := ∀ c ∈ text.head?, isSpace c = false

@[simp] theorem solid_cons (c : Char) (text : List Char) :
    Solid (c :: text) ↔ isSpace c = false := by simp [Solid]

@[simp] theorem blank_nil : Blank [] := by simp [Blank]

theorem Blank.append {v w : List Char} (hv : Blank v) (hw : Blank w) : Blank (v ++ w) := by
  intro c hc
  rcases List.mem_append.1 hc with h | h
  · exact hv c h
  · exact hw c h

theorem skipSpace_of_solid {text : List Char} (h : Solid text) : skipSpace text = text := by
  cases text with
  | nil => rfl
  | cons c text => simp [skipSpace, (solid_cons c text).1 h]

theorem skipSpace_blank_append {w : List Char} (hw : Blank w) (text : List Char) :
    skipSpace (w ++ text) = skipSpace text := by
  induction w with
  | nil => rfl
  | cons c w ih =>
    have hc := hw c (by simp)
    have ht := ih fun d hd => hw d (by simp [hd])
    simpa [skipSpace, hc] using ht

theorem skipSpace_blank {w text : List Char} (hw : Blank w) (h : Solid text) :
    skipSpace (w ++ text) = text := by rw [skipSpace_blank_append hw, skipSpace_of_solid h]

theorem skipSpace_blank_cons {w : List Char} (hw : Blank w) {c : Char} (hc : isSpace c = false)
    (rest : List Char) : skipSpace (w ++ c :: rest) = c :: rest :=
  skipSpace_blank hw ((solid_cons c rest).2 hc)

theorem exists_blank (text : List Char) : ∃ w, Blank w ∧ text = w ++ skipSpace text := by
  refine ⟨text.takeWhile isSpace, ?_, ?_⟩
  · exact List.all_eq_true.1 List.all_takeWhile
  · exact List.takeWhile_append_dropWhile.symm

theorem exists_blank_of_skipSpace {text rest : List Char} (h : skipSpace text = rest) :
    ∃ w, Blank w ∧ text = w ++ rest := h ▸ exists_blank text

theorem word_eq_ok_iff {letters text rest : List Char} :
    word letters text = .ok rest ↔ text = letters ++ rest := by
  induction letters generalizing text with
  | nil => simp [word]
  | cons c letters ih =>
    cases text with
    | nil => simp [word]
    | cons d text =>
      by_cases hc : c = d
      · subst hc
        simp [word, ih]
      · have hd : ¬ d = c := fun h => hc h.symm
        simp [word, hc, hd]

theorem colon_eq_ok {text rest : List Char} (h : colon text = .ok rest) :
    ∃ w, Blank w ∧ text = w ++ ':' :: rest := by
  unfold colon at h
  split at h
  · next r hs =>
    cases h
    exact exists_blank_of_skipSpace hs
  · cases h
  · cases h

theorem colon_blank {w : List Char} (hw : Blank w) (rest : List Char) :
    colon (w ++ ':' :: rest) = .ok rest := by
  simp [colon, skipSpace_blank_cons hw (show isSpace ':' = false by decide)]

theorem nextItem_eq_some {isFirst : Bool} {text rest : List Char}
    (h : nextItem isFirst text = .ok (some rest)) :
    ∃ lead, Leads isFirst lead ∧ text = lead ++ rest := by
  unfold nextItem at h
  split at h
  · cases h
  · cases h
  · next c r hc hs =>
    obtain ⟨v, hv, rfl⟩ := exists_blank_of_skipSpace hs
    cases isFirst with
    | true =>
      simp only [if_true, Except.ok.injEq, Option.some.injEq] at h
      exact ⟨v, hv, by rw [h]⟩
    | false =>
      simp only [Bool.false_eq_true, if_false] at h
      split at h
      · next hcomma =>
        split at h
        · cases h
        · cases h
        · next r' hne hbr =>
          simp only [Except.ok.injEq, Option.some.injEq] at h
          obtain ⟨w, hw, hr⟩ := exists_blank_of_skipSpace (rfl : skipSpace r = _)
          refine ⟨v ++ ',' :: w, ⟨v, w, hv, hw, rfl⟩, ?_⟩
          rw [hcomma, ← h]
          simp [← hr]
      · cases h

theorem nextItem_leads {isFirst : Bool} {lead : List Char} {c : Char} {rest : List Char}
    (hl : Leads isFirst lead) (hs : isSpace c = false) (hc : c ≠ ']') :
    nextItem isFirst (lead ++ c :: rest) = .ok (some (c :: rest)) := by
  cases isFirst with
  | true =>
    have h := skipSpace_blank_cons hl hs rest
    simp [nextItem, h]
  | false =>
    obtain ⟨v, w, hv, hw, rfl⟩ := hl
    have h₁ := skipSpace_blank_cons hv (show isSpace ',' = false by decide) (w ++ c :: rest)
    have h₂ := skipSpace_blank_cons hw hs rest
    simp [nextItem, h₁, h₂, hc]

theorem nextItem_close {isFirst : Bool} {w rest : List Char} (hw : Blank w) :
    nextItem isFirst (w ++ ']' :: rest) = .ok none := by
  simp [nextItem, skipSpace_blank_cons hw (show isSpace ']' = false by decide)]

theorem nextKey_eq_some {isFirst : Bool} {text rest : List Char}
    (h : nextKey isFirst text = .ok (some rest)) :
    ∃ lead, Leads isFirst lead ∧ text = lead ++ '"' :: rest := by
  unfold nextKey at h
  split at h
  · cases h
  · cases h
  · next c r hc hs =>
    obtain ⟨v, hv, rfl⟩ := exists_blank_of_skipSpace hs
    cases isFirst with
    | true =>
      simp only [if_true] at h
      split at h
      · next hq =>
        cases h
        exact ⟨v, hv, by rw [hq]⟩
      · cases h
    | false =>
      simp only [Bool.false_eq_true, if_false] at h
      split at h
      · next hcomma =>
        split at h
        · cases h
        · next r' hr =>
          cases h
          obtain ⟨w, hw, rfl⟩ := exists_blank_of_skipSpace hr
          exact ⟨v ++ ',' :: w, ⟨v, w, hv, hw, rfl⟩, by simp [hcomma]⟩
        · cases h
        · cases h
      · cases h

theorem nextKey_leads {isFirst : Bool} {lead rest : List Char} (hl : Leads isFirst lead) :
    nextKey isFirst (lead ++ '"' :: rest) = .ok (some rest) := by
  cases isFirst with
  | true =>
    have h := skipSpace_blank_cons hl (show isSpace '"' = false by decide) rest
    simp [nextKey, h]
  | false =>
    obtain ⟨v, w, hv, hw, rfl⟩ := hl
    have h₁ := skipSpace_blank_cons hv (show isSpace ',' = false by decide) (w ++ '"' :: rest)
    have h₂ := skipSpace_blank_cons hw (show isSpace '"' = false by decide) rest
    simp [nextKey, h₁, h₂]

theorem nextKey_close {isFirst : Bool} {w rest : List Char} (hw : Blank w) :
    nextKey isFirst (w ++ '}' :: rest) = .ok none := by
  simp [nextKey, skipSpace_blank_cons hw (show isSpace '}' = false by decide)]

theorem leaveArray_eq_none {text rest : List Char} (h : leaveArray text = (none, rest)) :
    ∃ w, Blank w ∧ text = w ++ ']' :: rest := by
  unfold leaveArray at h
  split at h <;> simp at h
  next r hs =>
    subst h
    exact exists_blank_of_skipSpace hs

theorem leaveArray_close {w : List Char} (hw : Blank w) (rest : List Char) :
    leaveArray (w ++ ']' :: rest) = (none, rest) := by
  simp [leaveArray, skipSpace_blank_cons hw (show isSpace ']' = false by decide)]

theorem leaveObject_eq_none {text rest : List Char} (h : leaveObject text = (none, rest)) :
    ∃ w, Blank w ∧ text = w ++ '}' :: rest := by
  unfold leaveObject at h
  split at h <;> simp at h
  next r hs =>
    subst h
    exact exists_blank_of_skipSpace hs

theorem leaveObject_close {w : List Char} (hw : Blank w) (rest : List Char) :
    leaveObject (w ++ '}' :: rest) = (none, rest) := by
  simp [leaveObject, skipSpace_blank_cons hw (show isSpace '}' = false by decide)]

theorem finish_eq_ok_iff {α : Type} {leave : List Char → Option Fault × List Char}
    {read : Except Fault (Read α)} {a : α} {rest : List Char} :
    finish leave read = .ok (a, rest) ↔
      ∃ text, read = .ok (a, text) ∧ leave text = (none, rest) := by
  constructor
  · intro h
    unfold finish at h
    split at h
    · next b text =>
      split at h
      · next r hl =>
        cases h
        exact ⟨text, rfl, hl⟩
      · cases h
    · cases h
    · cases h
  · rintro ⟨text, rfl, hl⟩
    simp [finish, hl]

end SyntaxTree.Json
