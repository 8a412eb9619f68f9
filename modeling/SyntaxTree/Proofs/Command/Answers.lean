import Mathlib.Algebra.Group.Nat.Defs
import SyntaxTree.Command.Arguments
import SyntaxTree.Proofs.Command.Reports
import SyntaxTree.Proofs.Node.Faults

set_option autoImplicit false

namespace SyntaxTree

open Json

/-- A text that is no document is invalid input, at a place in the text or at none. -/
theorem Node.ofDocument_failure {text : String} {failure : Failure}
    (h : ofDocument text = .error failure) : ∃ message line column,
      failure = .invalidInput message line column ∧
        line ≤ 1 + text.utf8ByteSize ∧ column ≤ text.utf8ByteSize := by
  unfold ofDocument at h
  split at h
  · cases h
    exact ⟨_, 0, 0, rfl, Nat.zero_le _, Nat.zero_le _⟩
  · split at h
    · cases h
    · next defect hdefect =>
      cases h
      obtain ⟨fault, rfl, -⟩ := document_eq_error hdefect
      have hplace := fault.defect_le text.toList
      rw [byteCount_toList] at hplace
      exact ⟨_, _, _, rfl, hplace⟩

theorem Node.ofDocument_fits {text : String} {failure : Failure}
    (h : ofDocument text = .error failure) (hsize : text.utf8ByteSize < 2 ^ 63) :
    failure.Fits := by
  obtain ⟨message, line, column, rfl, hline, hcolumn⟩ := ofDocument_failure h
  have hlimit : 2 ^ 63 < collectable := by decide
  exact ⟨by omega, by omega⟩

theorem SourceFault.failure_exitCode (fault : SourceFault) (source : Source) :
    (fault.failure source).exitCode = .io := by
  cases fault with
  | missing => cases source <;> rfl
  | system reason number => rfl
  | notUtf8 => rfl

theorem SourceFault.failure_fits (fault : SourceFault) (source : Source) :
    (fault.failure source).Fits := by
  cases fault with
  | missing => cases source <;> trivial
  | system reason number => trivial
  | notUtf8 => trivial

def Command.IsUsable : Command → Prop
  | .dump _ _ _ _ indent => indent ≤ 16
  | _ => True

inductive Command.Prints (root : Node) : Command → String → Prop
  | dump {values positions noRoles : Bool} {maxDepth : Option Nat} {indent : Nat} :
      Prints root (.dump values positions noRoles maxDepth indent) (root.listing {
        indent := String.ofList (List.replicate indent ' ')
        showRoles := !noRoles
        showValues := values
        showPositions := positions
        maxDepth })
  | events {json : Bool} : Prints root (.events json) (root.eventsText json)
  | json {compact tagged : Bool} :
      Prints root (.json compact tagged) (root.text tagged (!compact) ++ "\n")
  | stats : Prints root .stats (root.stats.record.text true ++ "\n")

namespace Invocation

/-- Why a command fails, with its exit code: the indentation is too wide, or else its source cannot
be read, or else what is read there is no document. -/
inductive Fails (content : Except SourceFault String) : Invocation → UInt8 → Failure → Prop
  | options {values positions noRoles : Bool} {maxDepth : Option Nat} {indent : Nat}
      {source : Source} : 16 < indent →
      Fails content ⟨.dump values positions noRoles maxDepth indent, source⟩ 2 (.invalidArguments
        ("--indent must be at most 16, got " ++ toString indent))
  | source {invocation : Invocation} {fault : SourceFault} : invocation.command.IsUsable →
      content = .error fault → Fails content invocation 4 (fault.failure invocation.source)
  | document {invocation : Invocation} {text : String} {failure : Failure} :
      invocation.command.IsUsable → content = .ok text → Node.ofDocument text = .error failure →
      Fails content invocation 3 failure

end Invocation

theorem Command.printer_cases (command : Command) (source : Source)
    (content : Except SourceFault String) :
    (command.IsUsable ∧ ∃ print, command.printer = .ok print ∧
      ∀ root, command.Prints root (print root)) ∨
    ∃ failure, command.printer = .error failure ∧
      Invocation.Fails content ⟨command, source⟩ 2 failure := by
  cases command with
  | dump values positions noRoles maxDepth indent =>
    by_cases hwide : 16 < indent
    · have hgreat : indent > greatestIndent := hwide
      refine .inr ⟨_, ?_, .options hwide⟩
      simp only [printer, listingOptions, if_pos hgreat]
      rfl
    · have hgreat : ¬ indent > greatestIndent := hwide
      refine .inl ⟨Nat.le_of_not_lt hwide, fun root => root.listing _, ?_, fun root => .dump⟩
      simp only [printer, listingOptions, if_neg hgreat]
      rfl
  | events => exact .inl ⟨trivial, _, rfl, fun root => .events⟩
  | json => exact .inl ⟨trivial, _, rfl, fun root => .json⟩
  | stats => exact .inl ⟨trivial, _, rfl, fun root => .stats⟩

namespace Invocation

variable {invocation : Invocation} {content : Except SourceFault String}

theorem output_cases (invocation : Invocation) (content : Except SourceFault String) :
    (∃ text root out, content = .ok text ∧ Node.ofDocument text = .ok root ∧
      invocation.output content = .ok out ∧ invocation.command.Prints root out) ∨
    ∃ code failure, invocation.output content = .error failure ∧
      Fails content invocation code failure := by
  rcases invocation.command.printer_cases invocation.source content with
    ⟨husable, print, hprint, hprints⟩ | ⟨failure, hprint, hfails⟩
  · cases hcontent : content with
    | error fault =>
      exact .inr ⟨4, _, by simp [output, hprint], .source husable rfl⟩
    | ok text =>
      cases hread : Node.ofDocument text with
      | error failure =>
        exact .inr ⟨3, failure, by simp [output, hprint, hread], .document husable rfl hread⟩
      | ok root =>
        have hout : invocation.output (.ok text) = .ok (print root) := by
          simp [output, hprint, hread]
        exact .inl ⟨text, root, print root, rfl, hread, hout, hprints root⟩
  · exact .inr ⟨2, failure, by simp [output, hprint], hfails⟩

theorem Fails.exitCode {code : UInt8} {failure : Failure}
    (h : Fails content invocation code failure) : failure.exitCode.number = code := by
  cases h with
  | options => rfl
  | source => exact congrArg ExitCode.number (SourceFault.failure_exitCode _ _)
  | document _ _ hread =>
    obtain ⟨message, line, column, rfl, -⟩ := Node.ofDocument_failure hread
    rfl

theorem Fails.fits {code : UInt8} {failure : Failure} (h : Fails content invocation code failure)
    (hsize : ∀ text, content = .ok text → text.utf8ByteSize < 2 ^ 63) : failure.Fits := by
  cases h with
  | options => trivial
  | source => exact SourceFault.failure_fits _ _
  | document _ hcontent hread => exact Node.ofDocument_fits hread (hsize _ hcontent)

theorem Fails.code_cases {code : UInt8} {failure : Failure}
    (h : Fails content invocation code failure) : code = 2 ∨ code = 3 ∨ code = 4 := by
  cases h with
  | options => exact .inl rfl
  | source => exact .inr (.inr rfl)
  | document => exact .inr (.inl rfl)

end Invocation

/-- A command answers with all that it prints of its tree, or with nothing but the report of the
first failure. The report is read back with its message and details, whatever texts are in them. No
text that can be held takes `2 ^ 63` bytes, so every place in it is a number of 64 bits. -/
theorem answer_complete {arguments : List String} {invocation : Invocation}
    {content : Source → Except SourceFault String}
    (h : Request.ofArguments arguments = .ok (.run invocation))
    (hsize : ∀ text, content invocation.source = .ok text → text.utf8ByteSize < 2 ^ 63) :
    (∃ text root out, content invocation.source = .ok text ∧ Node.ofDocument text = .ok root ∧
      invocation.command.Prints root out ∧ answer arguments content = ⟨0, out⟩) ∨
    ∃ code failure, invocation.Fails (content invocation.source) code failure ∧
      (code = 2 ∨ code = 3 ∨ code = 4) ∧
      answer arguments content =
        ⟨code, (ErrorReport.ofFailure failure).record.text true ++ "\n"⟩ ∧
      ErrorReport.decoder.read (answer arguments content).output =
        .ok ⟨"error", "1", code, failure.message, failure.details⟩ := by
  have hanswer : answer arguments content = invocation.answer (content invocation.source) := by
    simp [answer, h]
  rw [hanswer]
  rcases invocation.output_cases (content invocation.source) with
    ⟨text, root, out, htext, hroot, hout, hprints⟩ | ⟨code, failure, hout, hfails⟩
  · exact .inl ⟨text, root, out, htext, hroot, hprints, by simp [Invocation.answer, hout]⟩
  · have hcode := hfails.exitCode
    have hreport : invocation.answer (content invocation.source) = .ofFailure failure := by
      simp [Invocation.answer, hout]
    have hplain : (ErrorReport.ofFailure failure).error.IsPlain :=
      ErrorInfo.ofFailure_isPlain (hfails.fits hsize)
    have hread := ErrorReport.read_text hplain
    refine .inr ⟨code, failure, hfails, hfails.code_cases, ?_, ?_⟩
    · rw [hreport, Answer.ofFailure, hcode]
      rfl
    · rw [hreport, Answer.ofFailure, hread, ErrorReport.ofFailure, ErrorInfo.ofFailure, hcode]
      rfl

def oddKind : String := "\x7b\"Kind\":\"é\\\"\\n\\u0001\"\x7d"

def oddUnknown : Problem := .unknownVariant "é\"\n\x01" (NodeKind.all.map NodeKind.name)

theorem oddKind_answer :
    Request.ofArguments ["stats"] = .ok (.run ⟨.stats, .standardInput⟩) ∧
    oddKind.utf8ByteSize < 2 ^ 63 ∧
    (answer ["stats"] fun _ => .ok oddKind).exitCode = 3 ∧
    ErrorReport.decoder.read (answer ["stats"] fun _ => .ok oddKind).output =
      .ok ⟨"error", "1", 3, (Failure.ofDefect ⟨oddUnknown, 1, 22⟩).message,
        some (.obj [("column", .ofNat 22), ("line", .ofNat 1)])⟩ := by
  have hrun : Request.ofArguments ["stats"] = .ok (.run ⟨.stats, .standardInput⟩) := rfl
  have hsize : oddKind.utf8ByteSize < 2 ^ 63 := by decide
  have hrejected : Node.ofDocument oddKind = .error (.ofDefect ⟨oddUnknown, 1, 22⟩) := rfl
  have hfits : ∀ text, (Except.ok oddKind : Except SourceFault String) = .ok text →
      text.utf8ByteSize < 2 ^ 63 := by
    rintro text ⟨⟩
    exact hsize
  refine ⟨hrun, hsize, ?_⟩
  have hcomplete := @answer_complete _ _ (fun _ => .ok oddKind) hrun hfits
  rcases hcomplete with
    ⟨text, root, out, htext, hroot, -⟩ | ⟨code, failure, hfails, -, hanswer, hread⟩
  · cases htext
    rw [hrejected] at hroot
    cases hroot
  · cases hfails with
    | source husable hcontent => cases hcontent
    | document husable hcontent hdocument =>
      cases hcontent
      rw [hrejected] at hdocument
      cases hdocument
      rw [hread, hanswer]
      exact ⟨rfl, rfl⟩

end SyntaxTree
