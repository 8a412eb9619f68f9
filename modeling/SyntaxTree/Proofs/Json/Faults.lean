import SyntaxTree.Proofs.Json.Numeral

/-! Places of faults. What is wrong in the text of a scalar, or where an array or object ought to
end, is always known with its place, and every place is on a line of the text. -/

set_option autoImplicit false

namespace SyntaxTree.Json

variable {α β : Type}

def Fault.IsLocated : Fault → Prop
  | .located .. => True
  | .loose .. => False

/-- Whether the place is known of whatever a step finds at fault. -/
def Locates (step : Except Fault α) : Prop := ∀ fault, step = .error fault → fault.IsLocated

@[simp] theorem faultAfter_isLocated (bytes : Nat) (problem : Problem) (text : List Char) :
    (faultAfter bytes problem text).IsLocated := trivial

@[simp] theorem faultHere_isLocated (problem : Problem) (text : List Char) :
    (faultHere problem text).IsLocated := trivial

@[simp] theorem faultAhead_isLocated (problem : Problem) (text : List Char) :
    (faultAhead problem text).IsLocated := trivial

@[simp] theorem locates_ok (a : α) : Locates (.ok a) := nofun

@[simp] theorem locates_error {fault : Fault} :
    Locates (.error fault : Except Fault α) ↔ fault.IsLocated := by
  constructor
  · exact fun h => h fault rfl
  · rintro h _ ⟨⟩
    exact h

theorem Locates.bind {step : Except Fault α} {next : α → Except Fault β} (h : Locates step)
    (hnext : ∀ a, Locates (next a)) : Locates (step >>= next) := by
  cases step with
  | error fault => exact locates_error.2 (h fault rfl)
  | ok a => exact hnext a

theorem word_locates (letters text : List Char) : Locates (word letters text) := by
  induction letters generalizing text with
  | nil => exact locates_ok _
  | cons c letters ih =>
    cases text with
    | nil => simp [word]
    | cons d text =>
      unfold word
      split
      · exact ih text
      · simp

@[simp] theorem hexFault_isLocated (text : List Char) : (hexFault text).IsLocated := by
  unfold hexFault
  split
  · trivial
  · simp

theorem hexUnit_locates (text : List Char) : Locates (hexUnit text) := by
  unfold hexUnit
  split
  · split <;> simp
  · simp

theorem lowSurrogate_locates (high : Nat) (text : List Char) :
    Locates (lowSurrogate high text) := by
  unfold lowSurrogate
  split
  · refine (hexUnit_locates _).bind fun (low, rest) => ?_
    dsimp only
    split <;> simp
  all_goals simp

theorem numericEscape_locates (text : List Char) : Locates (numericEscape text) := by
  refine (hexUnit_locates text).bind fun (n, rest) => ?_
  dsimp only
  split
  · simp
  split
  · exact lowSurrogate_locates _ _
  · simp

theorem escape_locates (text : List Char) : Locates (escape text) := by
  unfold escape
  split
  · simp
  · exact numericEscape_locates _
  · split <;> simp

theorem stringChars_locates (bound text : List Char) : Locates (stringChars bound text) := by
  induction bound generalizing text with
  | nil => cases text <;> simp [stringChars]
  | cons _ bound ih =>
    cases text with
    | nil => simp [stringChars]
    | cons c text =>
      have hrest {next : Read (List Char) → Read (List Char)} (rest : List Char) :
          Locates (stringChars bound rest >>= fun read => .ok (next read)) :=
        (ih rest).bind fun _ => locates_ok _
      unfold stringChars
      split
      · simp
      split
      · exact (escape_locates text).bind fun _ => hrest _
      split
      · simp
      · exact hrest text

theorem stringText_locates (text : List Char) : Locates (stringText text) :=
  (stringChars_locates text text).bind fun _ => locates_ok _

section

variable (negative : Bool)

theorem real_locates (d : Decimal) (rest : List Char) : Locates (real negative d rest) := by
  unfold real
  split <;> simp

theorem exponentDigits_locates (d : Decimal) (shrinks : Bool) (exponent : Nat)
    (text : List Char) : Locates (exponentDigits negative d shrinks exponent text) := by
  induction text generalizing exponent with
  | nil => exact real_locates negative _ _
  | cons c rest ih =>
    unfold exponentDigits
    split
    · exact real_locates negative _ _
    split
    · exact ih _
    split
    · simp
    · exact real_locates negative _ _

theorem exponentPart_locates (d : Decimal) (text : List Char) :
    Locates (exponentPart negative d text) := by
  unfold exponentPart
  dsimp only
  split
  · simp
  · split
    · exact exponentDigits_locates negative _ _ _ _
    · simp

theorem fractionPart_locates (d : Decimal) (text : List Char) :
    Locates (fractionPart negative d text) := by
  unfold fractionPart
  split
  · simp
  split
  · split
    · exact exponentPart_locates negative _ _
    · exact exponentPart_locates negative _ _
    · exact real_locates negative _ _
  · simp

theorem afterWhole_locates (d : Decimal) (text : List Char) :
    Locates (afterWhole negative d text) := by
  unfold afterWhole
  split
  · exact fractionPart_locates negative _ _
  · exact exponentPart_locates negative _ _
  · exact exponentPart_locates negative _ _
  · have hreal := real_locates negative d text
    repeat' split
    all_goals simp [hreal]

theorem numeral_locates (text : List Char) : Locates (numeral negative text) := by
  unfold numeral
  split
  · simp
  split
  · simp
  · split
    · split
      · simp
      · exact afterWhole_locates negative _ _
    · exact afterWhole_locates negative _ _
  · exact afterWhole_locates negative _ _

end

theorem scalar_locates (text : List Char) : Locates (scalar text) := by
  unfold scalar
  split
  · simp
  split
  · exact (word_locates _ _).bind fun _ => locates_ok _
  split
  · exact (word_locates _ _).bind fun _ => locates_ok _
  split
  · exact (word_locates _ _).bind fun _ => locates_ok _
  split
  · exact (stringText_locates _).bind fun _ => locates_ok _
  split
  · exact (numeral_locates _ _).bind fun _ => locates_ok _
  split
  · exact (numeral_locates _ _).bind fun _ => locates_ok _
  · simp

theorem leaveArray_isLocated (text : List Char) :
    ∀ fault ∈ (leaveArray text).1, fault.IsLocated := by
  unfold leaveArray
  split <;> simp

theorem leaveObject_isLocated (text : List Char) :
    ∀ fault ∈ (leaveObject text).1, fault.IsLocated := by
  unfold leaveObject
  split <;> simp

/-- Leaving an array or object gives a place to faults that have none. -/
theorem finish_locates {leave : List Char → Option Fault × List Char}
    (h : ∀ text, ∀ fault ∈ (leave text).1, fault.IsLocated) (read : Except Fault (Read α)) :
    Locates (finish leave read) := by
  unfold finish
  split
  · next a text =>
    split
    · simp
    · next fault rest hleave => exact locates_error.2 (h text fault (by simp [hleave]))
  · exact locates_error.2 trivial
  · simp

theorem placeAfter_line (bytes : Nat) (text : List Char) (line column : Nat) :
    line ≤ (placeAfter bytes text line column).1 ∧
      (placeAfter bytes text line column).1 ≤ line + text.count '\n' := by
  induction text generalizing bytes line column with
  | nil => cases bytes <;> simp [placeAfter]
  | cons c text ih =>
    cases bytes with
    | zero => simp [placeAfter]
    | succ bytes =>
      simp only [placeAfter]
      split
      · simp
      split
      · next hc =>
        have htext := ih (bytes + 1 - 1) (line + 1) 0
        rw [hc, List.count_cons_self]
        omega
      · next hc =>
        have htext := ih (bytes + 1 - c.utf8Size) line (column + c.utf8Size)
        rw [List.count_cons_of_ne hc]
        exact htext

theorem byteCount_toList (text : String) : byteCount text.toList = text.utf8ByteSize := by
  obtain ⟨cs, rfl⟩ : ∃ cs, text = String.ofList cs := ⟨text.toList, by simp⟩
  rw [String.toList_ofList]
  induction cs with
  | nil => rfl
  | cons c cs ih =>
    rw [byteCount_cons, ih, String.ofList_cons, String.utf8ByteSize_append,
      String.utf8ByteSize_singleton]

theorem placeAfter_le (bytes : Nat) (text : List Char) (line column : Nat) :
    (placeAfter bytes text line column).1 ≤ line + bytes ∧
      (placeAfter bytes text line column).2 ≤ column + bytes := by
  induction text generalizing bytes line column with
  | nil => cases bytes <;> simp [placeAfter]
  | cons c text ih =>
    cases bytes with
    | zero => simp [placeAfter]
    | succ bytes =>
      simp only [placeAfter]
      split
      · exact ⟨Nat.le_add_right _ _, Nat.le_refl _⟩
      · next hsize =>
        split
        · have htext := ih (bytes + 1 - 1) (line + 1) 0
          omega
        · have htext := ih (bytes + 1 - c.utf8Size) line (column + c.utf8Size)
          omega

theorem Fault.defect_le (fault : Fault) (text : List Char) :
    (fault.defect text).line ≤ 1 + byteCount text ∧
      (fault.defect text).column ≤ byteCount text := by
  cases fault with
  | located problem left =>
    have hplace := placeAfter_le (byteCount text - left) text 1 0
    simp only [Fault.defect]
    omega
  | loose problem rest => exact ⟨Nat.zero_le _, Nat.zero_le _⟩

/-- A fault with a place is on a line of the text, counted from one. -/
theorem Fault.IsLocated.line {fault : Fault} (h : fault.IsLocated) (text : List Char) :
    1 ≤ (fault.defect text).line ∧ (fault.defect text).line ≤ 1 + text.count '\n' := by
  cases fault with
  | located problem left => exact placeAfter_line _ text 1 0
  | loose problem rest => cases h

end SyntaxTree.Json
