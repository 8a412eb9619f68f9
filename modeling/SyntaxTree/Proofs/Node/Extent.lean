import SyntaxTree.Proofs.Node.Reprint

/-! Where a document ends. Arrays and objects close themselves, so what is spelled up to the closing
bracket is read in front of any text: nothing that follows can make another value of it, and without
the bracket it is no value yet. -/

set_option autoImplicit false

namespace SyntaxTree

namespace Json

variable {v w : Json} {core rest : List Char} {depth : Nat}

/-- An array or object is read whatever follows it. -/
theorem Spells.value_eq (h : v.Spells core) (hbrackets : 0 < v.nesting) (hdepth : v.nesting ≤ depth)
    {before : List Char} (hbefore : Blank before) (rest : List Char) :
    value depth (before ++ (core ++ rest)) = .ok (v, rest) := by
  obtain ⟨depth, rfl⟩ := Nat.exists_eq_add_of_lt (Nat.lt_of_lt_of_le hbrackets hdepth)
  rw [Nat.zero_add] at hdepth ⊢
  cases v with
  | arr items =>
    obtain ⟨body, space, hbody, hspace, rfl⟩ := h
    have hitems := itemList_spells items hbody (Nat.le_of_succ_le_succ hdepth) hspace rest
    have hskip := skipSpace_blank_cons hbefore (show isSpace '[' = false by decide)
      (body ++ (space ++ ']' :: rest))
    have hread := value_eq_arr_iff.2 ⟨depth, _, _, rfl, hskip, hitems, leaveArray_close hspace rest⟩
    simpa using hread
  | obj members =>
    obtain ⟨body, space, hbody, hspace, rfl⟩ := h
    have hmembers := memberList_spells members hbody (Nat.le_of_succ_le_succ hdepth) hspace rest
    have hskip := skipSpace_blank_cons hbefore (show isSpace '\x7b' = false by decide)
      (body ++ (space ++ '}' :: rest))
    have hread :=
      value_eq_obj_iff.2 ⟨depth, _, _, rfl, hskip, hmembers, leaveObject_close hspace rest⟩
    simpa using hread
  | _ => exact absurd hbrackets (Nat.lt_irrefl 0)

theorem Spells.last (h : v.Spells core) (hbrackets : 0 < v.nesting) :
    ∃ inner bracket, core = inner ++ [bracket] ∧ isSpace bracket = false := by
  cases v with
  | arr items =>
    obtain ⟨body, space, -, -, rfl⟩ := h
    exact ⟨'[' :: (body ++ space), ']', by simp, by decide⟩
  | obj members =>
    obtain ⟨body, space, -, -, rfl⟩ := h
    exact ⟨'\x7b' :: (body ++ space), '}', by simp, by decide⟩
  | _ => exact absurd hbrackets (Nat.lt_irrefl 0)

theorem Blank.of_append_right {xs ys : List Char} (h : Blank (xs ++ ys)) : Blank ys :=
  fun c hc => h c (List.mem_append_right _ hc)

theorem Blank.of_append_left {xs ys : List Char} (h : Blank (xs ++ ys)) : Blank xs :=
  fun c hc => h c (List.mem_append_left _ hc)

/-- A text that spells an array or object, and that with more text behind it spells one again,
spells the same, and all that is behind it is white space. -/
theorem Documents.append_iff {text more : String} (h : v.Documents text)
    (hv : 0 < v.nesting) : w.Documents (text ++ more) ∧ 0 < w.nesting ↔
      w = v ∧ Blank more.toList := by
  obtain ⟨before, core, after, hbefore, hcore, hafter, htext⟩ := h
  have hread (depth : Nat) (hdepth : v.nesting ≤ depth) :
      value depth (text ++ more).toList = .ok (v, after ++ more.toList) := by
    have hvalue := hcore.value_eq hv hdepth hbefore (after ++ more.toList)
    simpa [htext] using hvalue
  constructor
  · rintro ⟨⟨before', core', after', hbefore', hcore', hafter', htext'⟩, hw⟩
    -- read within one limit that is enough for both, the text leaves the same rest
    have hread' := hcore'.value_eq hw (Nat.le_max_right v.nesting _) hbefore' after'
    rw [← htext', hread _ (Nat.le_max_left ..)] at hread'
    obtain ⟨rfl, hrest⟩ := Prod.mk.inj (Except.ok.inj hread')
    rw [← hrest] at hafter'
    exact ⟨rfl, hafter'.of_append_right⟩
  · rintro ⟨rfl, hmore⟩
    exact ⟨⟨before, core, after ++ more.toList, hbefore, hcore, hafter.append hmore,
      by simp [htext]⟩, hv⟩

theorem Documents.of_append {text more : String} (h : v.Documents (text ++ more))
    (hv : 0 < v.nesting) (hmore : Blank more.toList) : v.Documents text := by
  obtain ⟨before, core, after, hbefore, hcore, hafter, htext⟩ := h
  obtain ⟨inner, bracket, hlast, hbracket⟩ := hcore.last hv
  rw [String.toList_append, ← List.append_assoc, List.append_eq_append_iff] at htext
  rcases htext with ⟨cut, hcut, hrest⟩ | ⟨kept, hkept, hrest⟩
  · rw [hrest] at hmore
    -- the cut would take the bracket with it
    have hnone : cut = [] := by
      rcases List.eq_nil_or_concat cut with hnil | ⟨cut, c, rfl⟩
      · exact hnil
      · have hends := congrArg List.getLast? hcut
        have hc : bracket = c := by simpa [hlast] using hends
        have hspace := hmore c (by simp)
        rw [← hc, hbracket] at hspace
        cases hspace
    rw [hnone, List.append_nil] at hcut
    exact ⟨before, core, [], hbefore, hcore, blank_nil, by rw [← hcut, List.append_nil]⟩
  · rw [hrest] at hafter
    exact ⟨before, core, kept, hbefore, hcore, hafter.of_append_left,
      by rw [hkept, List.append_assoc]⟩

end Json

namespace Node

open Json

variable {text : String} {node : Node}

theorem ofDocument_error (h : ∀ node, ofDocument text ≠ .ok node) :
    ∃ message line column, ofDocument text = .error (.invalidInput message line column) := by
  unfold ofDocument at h ⊢
  split
  · exact ⟨_, _, _, rfl⟩
  · next hblank =>
    cases hread : ofText text with
    | error defect => exact ⟨_, _, _, rfl⟩
    | ok node => simp [hblank, hread] at h

theorem exists_documents (h : ofDocument text = .ok node) :
    ∃ v : Json, v.Documents text ∧ 0 < v.nesting ∧
      ∀ other, v.Documents other → ofDocument other = .ok node := by
  obtain ⟨v, hv, hnesting, hnames, hnode⟩ := ofText_iff_documents.1 (ofDocument_eq_ok_iff.1 h)
  refine ⟨v, hv, nesting_pos_of_ofJson hnode, fun other hother => ?_⟩
  exact ofDocument_eq_ok_iff.2 (ofText_iff_documents.2 ⟨v, hother, hnesting, hnames, hnode⟩)

theorem blank_of_append {more : String} {other : Node} (h : ofDocument text = .ok node)
    (hmore : ofDocument (text ++ more) = .ok other) : Blank more.toList := by
  obtain ⟨v, hv, hnesting, -⟩ := exists_documents h
  obtain ⟨w, hw, hnesting', -⟩ := exists_documents hmore
  exact ((hv.append_iff hnesting).1 ⟨hw, hnesting'⟩).2

/-- A document that is cut short or goes on is never read as another tree. If no more than white
space is missing or added it is read as the same, and else it is rejected. -/
theorem ofDocument_extent (h : ofDocument text = .ok node) :
    (∀ kept cut : String, text = kept ++ cut →
      (Blank cut.toList → ofDocument kept = .ok node) ∧
      (¬ Blank cut.toList →
        ∃ message line column, ofDocument kept = .error (.invalidInput message line column))) ∧
    ∀ more : String,
      (Blank more.toList → ofDocument (text ++ more) = .ok node) ∧
      (¬ Blank more.toList →
        ∃ message line column,
          ofDocument (text ++ more) = .error (.invalidInput message line column)) := by
  obtain ⟨v, hv, hnesting, hsame⟩ := exists_documents h
  refine ⟨fun kept cut htext => ⟨fun hcut => ?_, fun hcut => ?_⟩, fun more => ⟨fun hmore => ?_,
    fun hmore => ?_⟩⟩
  · rw [htext] at hv
    exact hsame kept (hv.of_append hnesting hcut)
  · refine ofDocument_error fun other hkept => hcut ?_
    rw [htext] at h
    exact blank_of_append hkept h
  · exact hsame _ ((hv.append_iff hnesting).2 ⟨rfl, hmore⟩).1
  · exact ofDocument_error fun other hread => hmore (blank_of_append h hread)

def written : String := "\x7b\"Kind\":\"Identifier\",\"Value\":\"a\\u0062\"\x7d"

def halfWritten : String := "\x7b\"Kind\":\"Identifier\",\"Value\":\"a\\u00"

theorem written_extent :
    let rejected (text : String) := ∃ message line column,
      ofDocument text = .error (.invalidInput message line column)
    ofDocument written = .ok (.leaf .identifier {} "ab") ∧
    (written = halfWritten ++ "62\"\x7d" ∧ ¬ Blank "62\"\x7d".toList ∧ rejected halfWritten) ∧
    (Blank "\n".toList ∧ ofDocument (written ++ "\n") = .ok (.leaf .identifier {} "ab")) ∧
    ¬ Blank " 5".toList ∧ rejected (written ++ " 5") := by
  intro rejected
  have hread : ofDocument written = .ok (.leaf .identifier {} "ab") := rfl
  have hhalf : written = halfWritten ++ "62\"\x7d" := by decide
  have hcut : ¬ Blank "62\"\x7d".toList := by simp [Blank, isSpace]
  have hfeed : Blank "\n".toList := by simp [Blank, isSpace]
  have hnumber : ¬ Blank " 5".toList := by simp [Blank, isSpace]
  obtain ⟨hkept, hmore⟩ := ofDocument_extent hread
  exact ⟨hread, ⟨hhalf, hcut, (hkept _ _ hhalf).2 hcut⟩, ⟨hfeed, (hmore _).1 hfeed⟩, hnumber,
    (hmore _).2 hnumber⟩

end Node

end SyntaxTree
