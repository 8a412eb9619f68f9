import SyntaxTree.Proofs.Json.Excess
import SyntaxTree.Proofs.Node.Faults
import SyntaxTree.Proofs.Node.Kernel
import SyntaxTree.Proofs.Node.Reprint
import SyntaxTree.Proofs.Node.Untagged

set_option autoImplicit false

namespace SyntaxTree

open Json

namespace Tagged

variable {α : Type} {tagged : Tagged α} {depth : Nat}

theorem readMember_relays {key : String} (h : key ≠ tagged.tag) :
    Relays depth (tagged.readMember depth) key where
  reads opened text text' v rest hc hv :=
    ⟨{ opened with members := (key, v) :: opened.members }, by simp [readMember, h, hc, hv]⟩
  stops opened text text' hc hv := by
    obtain ⟨left, hv⟩ := hv
    exact ⟨left, by simp [readMember, h, hc, hv]⟩

variable {members : List (String × Json)} (htag : tagged.tag ∉ members.map Prod.fst)

include htag

theorem ofText_untagged {text rest : List Char}
    (hv : value depth text = .ok (.obj members, rest)) :
    tagged.decoder.ofText depth text = .error (faultHere (.missingField tagged.tag) rest) := by
  obtain ⟨d, t, r, rfl, hs, hmembers, hleave⟩ := value_eq_obj_iff.1 hv
  have hnames : tagged.NamesForm (.obj members) := fun member hmember hkey =>
    absurd (hkey ▸ List.mem_map_of_mem hmember) htag
  have htake := foldlM_nameMember_iff.2 ⟨hnames, foldlM_takeMember htag ⟨none, []⟩⟩
  have hfold := hmembers.foldMembers (readMember_factors tagged d) (value_shrinks d)
    (Nat.le_refl _) htake
  simp [decoder, hs, readMembers, hfold, finish, hleave, readForm]

theorem ofText_tooDeep {text : String} (hv : (Json.obj members).Documents text)
    (hdepth : depth < (Json.obj members).nesting) :
    TooDeep (tagged.decoder.ofText depth text.toList) := by
  obtain ⟨before, core, after, hbefore, ⟨body, space, hbody, hspace, rfl⟩, -, htext⟩ := hv
  have hs : skipSpace text.toList = '\x7b' :: (body ++ (space ++ '\x7d' :: after)) := by
    have hskip := skipSpace_blank_cons hbefore (show isSpace '\x7b' = false by decide)
      (body ++ (space ++ '\x7d' :: after))
    simpa [htext] using hskip
  rw [ofText_eq, opening, hs]
  cases depth with
  | zero => exact ⟨_, rfl⟩
  | succ depth =>
    have hrelays (member) (hmember : member ∈ members) :
        Relays depth (tagged.readMember depth) member.1 :=
      readMember_relays fun hkey => htag (hkey ▸ List.mem_map_of_mem hmember)
    have hmembers := members_tooDeep members hbody (Nat.lt_of_succ_lt_succ hdepth) hspace after
      hrelays (Nat.le_refl _) ⟨none, []⟩
    exact ((hmembers.bind _).finish _).bind _

end Tagged

theorem Json.document_located {α : Type} {read : List Char → Except Fault (Read α)}
    {text : List Char} {problem : Problem} {left : Nat}
    (h : read text = .error (.located problem left)) :
    ∃ line column, 1 ≤ line ∧ document read text = .error ⟨problem, line, column⟩ := by
  have hlocated : (Fault.located problem left).IsLocated := trivial
  have hread : document read text = .error (Fault.defect text (.located problem left)) := by
    rw [document, h]
  exact ⟨_, _, (hlocated.line text).1, hread⟩

namespace Node

def plainProblem (node : Node) : Problem :=
  if (node.record false).nesting ≤ nestingLimit then .missingField "Kind" else .nestingTooDeep

theorem kind_not_mem_plain (node : Node) :
    "Kind" ∉ (node.ownMembers ++ node.slotMembers false).map Prod.fst := by
  rw [ownMembers, List.append_assoc, keys_plain]
  exact kind_not_mem_fieldEntries node.kind

theorem exists_plain_fault (node : Node) (pretty : Bool) :
    ∃ left, decoder.ofText nestingLimit (node.text false pretty).toList =
      .error (.located node.plainProblem left) := by
  have hdocument := node.documents_text false pretty
  rw [plainProblem]
  rw [record_plain] at hdocument ⊢
  split
  · next hnesting =>
    obtain ⟨rest, hv, -⟩ := documents_iff.1 ⟨hdocument, hnesting⟩
    exact ⟨_, Tagged.ofText_untagged node.kind_not_mem_plain hv⟩
  · next hnesting =>
    exact Tagged.ofText_tooDeep node.kind_not_mem_plain hdocument (Nat.lt_of_not_le hnesting)

/-- The plain form of a tree is rejected, whether it is printed on one line or on many: no kind is
found in its outermost record, or it nests too deep for the record to be read to its end. -/
theorem ofText_plain (node : Node) (pretty : Bool) :
    ∃ line column, 1 ≤ line ∧
      ofText (node.text false pretty) = .error ⟨node.plainProblem, line, column⟩ ∧
      ofDocument (node.text false pretty) =
        .error (.ofDefect ⟨node.plainProblem, line, column⟩) := by
  obtain ⟨left, hfault⟩ := node.exists_plain_fault pretty
  obtain ⟨line, column, hline, hread⟩ := document_located hfault
  have hdocument := node.documents_text false pretty
  rw [record_plain] at hdocument
  have hblank := hdocument.not_blank (Nat.succ_pos _)
  have htext : ofText (node.text false pretty) = .error ⟨node.plainProblem, line, column⟩ := hread
  exact ⟨line, column, hline, htext, by simp [ofDocument, hblank, htext]⟩

/-- The kind of a token is none of the node that it stands at. -/
example : ofText ((Node.leaf .identifier { freeFloating := some [⟨.comment, "#", none⟩] } "a").text
    false false) = .error ⟨.missingField "Kind", 1, 93⟩ := rfl

end Node

end SyntaxTree
