import SyntaxTree.Proofs.Json.Reading

set_option autoImplicit false

namespace SyntaxTree.Json

/-- Whether a text spells a value and nothing else. -/
def Documents (v : Json) (text : String) : Prop :=
  ∃ before core after, Blank before ∧ v.Spells core ∧ Blank after ∧
    text.toList = before ++ (core ++ after)

theorem Blank.numberEnds {w : List Char} (h : Blank w) : NumberEnds w := by
  have hdelimits : Delimits (w ++ []) := h.delimits (by simp [Delimits])
  rw [List.append_nil] at hdelimits
  exact hdelimits.numberEnds

theorem Blank.skipSpace_eq {w : List Char} (h : Blank w) : skipSpace w = [] := by
  have hskip := skipSpace_blank_append h []
  rw [List.append_nil] at hskip
  exact hskip

/-- A text spells a value that nests no deeper than a limit if that value is read from it, up to
white space, under the limit. -/
theorem documents_iff {v : Json} {text : String} {depth : Nat} :
    v.Documents text ∧ v.nesting ≤ depth ↔
      ∃ rest, value depth text.toList = .ok (v, rest) ∧ skipSpace rest = [] := by
  constructor
  · rintro ⟨⟨before, core, after, hbefore, hcore, hafter, htext⟩, hdepth⟩
    have hv := value_spells v hcore hdepth hbefore hafter.numberEnds
    rw [← htext] at hv
    exact ⟨after, hv, hafter.skipSpace_eq⟩
  · rintro ⟨rest, hv, hrest⟩
    obtain ⟨before, core, hbefore, hcore, hdepth, htext⟩ := value_sound depth _ _ _ hv
    obtain ⟨after, hafter, rfl⟩ := exists_blank_of_skipSpace hrest
    rw [List.append_nil] at htext
    exact ⟨⟨before, core, after, hbefore, hcore, hafter, htext⟩, hdepth⟩

theorem documents_of_value {v : Json} {text : String} {depth : Nat}
    (h : value depth text.toList = .ok (v, [])) : v.Documents text :=
  (documents_iff.2 ⟨[], h, rfl⟩).1

theorem Documents.unique {v w : Json} {text : String} (hv : v.Documents text)
    (hw : w.Documents text) : v = w := by
  obtain ⟨r, hr, -⟩ := documents_iff.1 ⟨hv, Nat.le_max_left v.nesting w.nesting⟩
  obtain ⟨s, hs, -⟩ := documents_iff.1 ⟨hw, Nat.le_max_right v.nesting w.nesting⟩
  rw [hr] at hs
  cases hs
  rfl

end SyntaxTree.Json
