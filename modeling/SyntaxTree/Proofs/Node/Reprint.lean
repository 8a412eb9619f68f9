import SyntaxTree.Command.Basic
import SyntaxTree.Proofs.Node.Depth
import SyntaxTree.Proofs.Node.Rewriting

/-! Printing a tree that has been read, and reading it again. A list that the document leaves out is
printed as an empty array, so what is printed may nest one deeper than the document. It can be read
again unless that takes it over the limit. -/

set_option autoImplicit false

namespace SyntaxTree

open Json

variable {text : String} {v : Json}

theorem Json.Documents.not_blank (h : v.Documents text) (hv : 0 < v.nesting) :
    Text.isBlank text.toList = false := by
  obtain ⟨before, core, after, -, hcore, -, htext⟩ := h
  have hbracket : ∃ c ∈ core, Text.isWhiteSpace c = false := by
    cases v with
    | arr items =>
      obtain ⟨body, space, -, -, rfl⟩ := hcore
      exact ⟨'[', by simp, rfl⟩
    | obj members =>
      obtain ⟨body, space, -, -, rfl⟩ := hcore
      exact ⟨'\x7b', by simp, rfl⟩
    | _ => exact absurd hv (Nat.lt_irrefl 0)
  obtain ⟨c, hc, hblack⟩ := hbracket
  rw [Text.isBlank, List.all_eq_false]
  exact ⟨c, by simp [htext, hc], by simp [hblack]⟩

namespace Node

variable {node : Node}

theorem nesting_pos_of_ofJson {levels : Nat} (h : (decoderWithin levels).ofJson v = .ok node) :
    0 < v.nesting := by
  cases levels with
  | zero => exact absurd h (ofJson_zero v node)
  | succ levels =>
    rw [decoderWithin] at h
    rcases Tagged.ofJson_cases h with ⟨members, rfl⟩ | ⟨vs, rfl⟩ <;> exact Nat.succ_pos _

theorem ofDocument_eq_ok_iff : ofDocument text = .ok node ↔ ofText text = .ok node := by
  constructor
  · intro h
    unfold ofDocument at h
    split at h
    · cases h
    · split at h
      · next hread =>
        cases h
        exact hread
      · cases h
  · intro h
    obtain ⟨v, hv, -, -, hnode⟩ := ofText_iff_documents.1 h
    simp [ofDocument, hv.not_blank (nesting_pos_of_ofJson hnode), h]

/-- A printed tree, whatever white space follows, is read as that tree, or not at all if it nests
too deep. -/
theorem ofDocument_printed_iff (pretty : Bool) {after : String} (hafter : Blank after.toList)
    {other : Node} : ofDocument (node.text true pretty ++ after) = .ok other ↔
      other = node ∧ (node.record true).nesting ≤ 127 := by
  have hprinted := node.documents_printed true pretty hafter
  rw [ofDocument_eq_ok_iff, ofText_iff_documents]
  constructor
  · rintro ⟨v, hv, hnesting, -, hnode⟩
    rw [hv.unique hprinted] at hnesting hnode
    have hread : decoder.ofJson (node.record true) = .ok node := decoderWithin_ofJson hnesting
    rw [hread] at hnode
    cases hnode
    exact ⟨rfl, hnesting⟩
  · rintro ⟨rfl, hnesting⟩
    exact ⟨_, hprinted, hnesting, namesForm_record _ _, decoderWithin_ofJson hnesting⟩

theorem ofDocument_printed_of_lt (pretty : Bool) {after : String} (hafter : Blank after.toList)
    (h : 127 < (node.record true).nesting) :
    ∃ failure, ofDocument (node.text true pretty ++ after) = .error failure := by
  cases hread : ofDocument (node.text true pretty ++ after) with
  | error failure => exact ⟨failure, rfl⟩
  | ok other =>
    have hle := ((ofDocument_printed_iff pretty hafter).1 hread).2
    omega

/-- What is printed of a tree nests at most one deeper than the document that the tree was read
from, and only if a list is empty in it. -/
theorem fits_of_ofDocument (h : ofDocument text = .ok node) (hv : v.Documents text) :
    node.Fits v.nesting ∧ v.nesting ≤ 127 := by
  obtain ⟨w, hw, hnesting, -, hnode⟩ := ofText_iff_documents.1 (ofDocument_eq_ok_iff.1 h)
  rw [hv.unique hw]
  exact ⟨fits_of_ofJson hnode, hnesting⟩

end Node

/-- A tower of expressions around a root, with the members only that say something. -/
def Json.tower : Nat → Json
  | 0 => .obj [("Kind", .str "Root")]
  | n + 1 => .obj [("Kind", .str "Expression"), ("Expr", tower n)]

def Node.tower : Nat → Node
  | 0 => .list .root {} []
  | n + 1 => .wrapper .expression {} (some (tower n))

theorem Json.tower_nesting (n : Nat) : (tower n).nesting = n + 1 := by
  induction n with
  | zero => rfl
  | succ n ih => simp [tower, nesting, nestingMembers, ih]

theorem Node.tower_nesting (n : Nat) : ((tower n).record true).nesting = n + 2 := by
  induction n with
  | zero => rfl
  | succ n ih =>
    have hrecord : (tower (n + 1)).record true = .obj [("Kind", .str "Expression"),
        ("FreeFloating", .null), ("Position", .null), ("Expr", (tower n).record true)] := rfl
    simp [hrecord, nesting, nestingMembers, ih]

theorem Json.tower_whole (n : Nat) : (tower n).Whole := by
  induction n with
  | zero => exact ⟨trivial, trivial⟩
  | succ n ih => exact ⟨trivial, ih, trivial⟩

theorem Node.ofJson_tower {n levels : Nat} (h : n < levels) :
    (decoderWithin levels).ofJson (Json.tower n) = .ok (tower n) := by
  induction levels generalizing n with
  | zero => exact absurd h (Nat.not_lt_zero n)
  | succ levels ih =>
    cases n with
    | zero => rfl
    | succ n =>
      have hne : Json.tower n ≠ .null := by cases n <;> nofun
      have hchild : (decoderWithin levels).option.ofJson (Json.tower n) = .ok (some (tower n)) := by
        rw [Decoder.option_ofJson_some hne, ih (by omega)]
        rfl
      have hfields : (wrapperForm (decoderWithin levels) .expression "Expr").decoder.ofJson
          (.obj [("Expr", Json.tower n)]) = .ok ({}, some (tower n)) := by
        refine (Form.ofJson_obj_iff (kindForm_orderless _ (.wrapper .expression))).2 ⟨?_, ?_⟩
        · exact .missing rfl (.missing rfl (.given ⟨_, rfl, Decoder.map_ofJson hchild _⟩ .nil))
        · exact List.forall_mem_cons.2 ⟨nofun, List.forall_mem_cons.2 ⟨nofun,
            List.forall_mem_singleton.2 nofun⟩⟩
      have htag : (NodeKind.wrapper .expression).TaggedBy (.str "Expression") := .name
      exact (ofJson_obj_iff htag (by simp)).2 ⟨rfl, Decoder.map_ofJson hfields _⟩

theorem Node.ofDocument_tower {n : Nat} (h : n < 127) :
    ofDocument ((Json.tower n).text false) = .ok (tower n) := by
  have hnesting : (Json.tower n).nesting ≤ 127 := by
    rw [Json.tower_nesting]
    omega
  have hread := Json.value_text (Json.tower_whole n) hnesting false
  have hdocument := (documents_iff.2 ⟨_, hread, rfl⟩).1
  refine ofDocument_eq_ok_iff.2 (ofText_iff_documents.2 ⟨_, hdocument, hnesting, ?_,
    ofJson_tower h⟩)
  cases n <;> simp [Json.tower, Tagged.NamesForm, tagged]

namespace Invocation

theorem output_json (compact : Bool) (source : Source) (text : String) :
    output ⟨.json compact true, source⟩ (.ok text) =
      (Node.ofDocument text).map fun node => node.text true (!compact) ++ "\n" := by
  cases h : Node.ofDocument text <;> simp [output, Command.printer, h, Except.map]

theorem newline_blank : Blank "\n".toList := by simp [Blank, isSpace]

theorem output_printed (node : Node) (compact : Bool) (again : Source) :
    (output ⟨.json compact true, again⟩ (.ok (node.text true (!compact) ++ "\n")) =
      .ok (node.text true (!compact) ++ "\n") ↔ (node.record true).nesting ≤ 127) ∧
    ((∃ failure, output ⟨.json compact true, again⟩ (.ok (node.text true (!compact) ++ "\n")) =
      .error failure) ↔ 127 < (node.record true).nesting) := by
  rw [output_json]
  rcases Nat.lt_or_ge 127 (node.record true).nesting with h | h
  · obtain ⟨failure, hfailure⟩ := Node.ofDocument_printed_of_lt (!compact) newline_blank h
    rw [hfailure]
    exact ⟨iff_of_false nofun (by omega), iff_of_true ⟨failure, rfl⟩ h⟩
  · have hread := (Node.ofDocument_printed_iff (!compact) newline_blank).2 ⟨rfl, h⟩
    rw [hread]
    exact ⟨iff_of_true rfl h, iff_of_false (by rintro ⟨failure, ⟨⟩⟩) (by omega)⟩

/-- The tagged form of a document is read again as the same tree, and what is printed of it is
printed as itself, exactly if no more than 127 arrays and objects stand inside one another in it.
There are 128 at most, and that many only if the document has 127 and the tree a list without
items. -/
theorem output_read_again {node : Node} (h : Node.ofDocument text = .ok node) (compact : Bool)
    (source again : Source) :
    ∃ out, output ⟨.json compact true, source⟩ (.ok text) = .ok out ∧
      (Node.ofDocument (node.text true (!compact)) = .ok node ↔ (node.record true).nesting ≤ 127) ∧
      (output ⟨.json compact true, again⟩ (.ok out) = .ok out ↔
        (node.record true).nesting ≤ 127) ∧
      ((∃ failure, output ⟨.json compact true, again⟩ (.ok out) = .error failure) ↔
        (node.record true).nesting = 128) ∧
      ((node.record true).nesting = 128 →
        node.HasEmptyList ∧ ∀ v : Json, v.Documents text → v.nesting = 127) := by
  obtain ⟨v, hv, -⟩ := Node.ofText_iff_documents.1 (Node.ofDocument_eq_ok_iff.1 h)
  obtain ⟨⟨hone, hempty⟩, hlimit⟩ := Node.fits_of_ofDocument h hv
  obtain ⟨hprinted, hfails⟩ := output_printed node compact again
  refine ⟨_, by rw [output_json, h]; rfl, ?_, hprinted, ?_, fun hdeep => ?_⟩
  · rw [Node.ofDocument_eq_ok_iff]
    exact (node.ofText_text (!compact)).1
  · rw [hfails]
    omega
  · refine ⟨hempty (by omega), fun w hw => ?_⟩
    rw [hw.unique hv]
    omega

theorem tower_read_again :
    Node.ofDocument ((Json.tower 125).text false) = .ok (Node.tower 125) ∧
    ∃ out, output ⟨.json true true, .standardInput⟩ (.ok ((Json.tower 125).text false)) = .ok out ∧
      output ⟨.json true true, .standardInput⟩ (.ok out) = .ok out := by
  have hread : Node.ofDocument ((Json.tower 125).text false) = .ok (Node.tower 125) :=
    Node.ofDocument_tower (by decide)
  obtain ⟨out, hout, -, hagain, -⟩ := output_read_again hread true .standardInput .standardInput
  have hnesting := Nat.le_of_eq (Node.tower_nesting 125)
  exact ⟨hread, out, hout, hagain.2 hnesting⟩

/-- A tower of 126 expressions is read, but neither its tagged form nor what is printed of it is. -/
theorem tower_not_read_again :
    Node.ofDocument ((Json.tower 126).text false) = .ok (Node.tower 126) ∧
    ∀ (compact : Bool) (source : Source) (other : Node),
      Node.ofDocument ((Node.tower 126).text true (!compact)) ≠ .ok other ∧
      ∃ out, output ⟨.json compact true, source⟩ (.ok ((Json.tower 126).text false)) = .ok out ∧
        Node.ofDocument out ≠ .ok other := by
  have hread : Node.ofDocument ((Json.tower 126).text false) = .ok (Node.tower 126) :=
    Node.ofDocument_tower (by decide)
  have hdeep : 127 < ((Node.tower 126).record true).nesting := by
    rw [Node.tower_nesting]
    decide
  refine ⟨hread, fun compact source other => ⟨?_, _, by rw [output_json, hread]; rfl, ?_⟩⟩
  · rw [Ne, Node.ofDocument_eq_ok_iff]
    exact Node.ofText_text_of_lt hdeep (!compact) other
  · intro hother
    have hle := ((Node.ofDocument_printed_iff (!compact) newline_blank).1 hother).2
    omega

end Invocation

end SyntaxTree
