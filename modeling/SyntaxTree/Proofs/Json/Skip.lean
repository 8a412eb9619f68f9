import SyntaxTree.Json.Skip
import SyntaxTree.Proofs.Json.Reading

set_option autoImplicit false

namespace SyntaxTree.Json

theorem skipEscape_letter {l : Char} (h : (letterEscape? l).isSome = true) (rest : List Char) :
    skipEscape (l :: rest) = .ok rest := by
  have hu : l ≠ 'u' := by rintro rfl; simp [letterEscape?] at h
  simp [skipEscape, h]

theorem skipEscape_unit {a b c d : Char} {n : Nat} (h : hexNumber? a b c d = some n)
    (rest : List Char) : skipEscape ('u' :: a :: b :: c :: d :: rest) = .ok rest := by
  simp [skipEscape, hexUnit_digits h]

theorem skipString_escape {c : Char} {bound text rest : List Char}
    (h : skipEscape text = .ok rest) :
    skipString (c :: bound) ('\\' :: text) = skipString bound rest := by
  simp [skipString, h]

/-- A character is passed over in as many steps as it has escapes, or in one. -/
theorem SpellsChar.skipString_eq {c : Char} {text bound : List Char} (h : SpellsChar c text)
    (hb : text.length ≤ bound.length) (rest : List Char) :
    ∃ left : List Char, bound.length ≤ text.length + left.length ∧
      skipString bound (text ++ rest) = skipString left rest := by
  have hpos : 0 < bound.length := by cases h <;> exact Nat.lt_of_lt_of_le (by simp) hb
  obtain ⟨b, bound, rfl⟩ := List.exists_cons_of_length_pos hpos
  cases h with
  | plain hquote hescape hcontrol =>
    refine ⟨bound, by simp only [List.length_cons]; omega, ?_⟩
    simp [skipString, hquote, hescape, hcontrol]
  | letter hletter =>
    refine ⟨bound, by simp only [List.length_cons]; omega, ?_⟩
    exact skipString_escape (skipEscape_letter (by rw [hletter]; rfl) rest)
  | unit hn _ _ =>
    refine ⟨bound, by simp only [List.length_cons]; omega, ?_⟩
    exact skipString_escape (skipEscape_unit hn rest)
  | pair hhigh _ _ hlow _ =>
    have hmore : 0 < bound.length := by simp at hb; omega
    obtain ⟨b', bound, rfl⟩ := List.exists_cons_of_length_pos hmore
    refine ⟨bound, by simp only [List.length_cons]; omega, ?_⟩
    exact (skipString_escape (skipEscape_unit hhigh _)).trans
      (skipString_escape (skipEscape_unit hlow rest))

theorem SpellsChars.skipString_eq {cs body : List Char} (h : SpellsChars cs body)
    {bound : List Char} (hb : body.length < bound.length) (rest : List Char) :
    skipString bound (body ++ '"' :: rest) = .ok rest := by
  induction h generalizing bound with
  | nil =>
    cases bound with
    | nil => simp at hb
    | cons _ bound => simp [skipString]
  | @cons c cs text texts hc _ ih =>
    rw [List.length_append] at hb
    have hfirst : text.length ≤ bound.length := by omega
    obtain ⟨left, hleft, hskip⟩ := hc.skipString_eq hfirst (texts ++ '"' :: rest)
    rw [List.append_assoc, hskip]
    exact ih (by omega)

/-- Whether a value is passed over wherever it can be read. -/
def IsSkipped (v : Json) : Prop :=
  ∀ depth text rest, value depth text = .ok (v, rest) → skipValue text = .ok rest

theorem str_isSkipped (s : String) : IsSkipped (.str s) := by
  intro depth text rest h
  obtain ⟨w, core, hw, ⟨body, hbody, rfl⟩, -, rfl⟩ := value_sound depth _ _ _ h
  have hspace := skipSpace_blank_cons hw (show isSpace '"' = false by decide) (body ++ '"' :: rest)
  have hstring : skipString (body ++ '"' :: rest) (body ++ '"' :: rest) = .ok rest :=
    hbody.skipString_eq (by simp) rest
  have hstart : skipStart [] (w ++ '"' :: (body ++ '"' :: rest)) = .ok ([], rest) := by
    rw [skipStart, hspace]
    simp [skipScalar, hstring, skipEnds]
  have htext : w ++ ('"' :: (body ++ ['"']) ++ rest) = w ++ '"' :: (body ++ '"' :: rest) := by simp
  rw [htext, skipValue, skipOpen, hstart]

end SyntaxTree.Json
