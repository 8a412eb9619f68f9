import SyntaxTree.Failure
import SyntaxTree.Json.Basic
import SyntaxTree.Json.Writer
import SyntaxTree.Position

set_option autoImplicit false

namespace SyntaxTree

namespace Report

def schemaVersion : String := "1"

def text (report : Json) : String := report.text true ++ "\n"

end Report

/-- What a report tells about a failure. Absent details are left out; the members of those that are
present stand in the order of their keys. -/
structure ErrorInfo where
  code : UInt8
  message : String
  details : Option Json
  deriving Repr

structure ErrorReport where
  status : String
  schemaVersion : String
  error : ErrorInfo
  deriving Repr

def Failure.details : Failure → Option Json
  | .invalidInput _ line column => some (.obj [("column", .ofNat column), ("line", .ofNat line)])
  | .fileNotFound path => some (.obj [("path", .str path)])
  | _ => none

namespace ErrorInfo

def ofFailure (failure : Failure) : ErrorInfo where
  code := failure.exitCode.number
  message := failure.message
  details := failure.details

def record (info : ErrorInfo) : Json :=
  .obj ([("code", .ofNat info.code.toNat), ("message", .str info.message)] ++
    (info.details.map fun details => ("details", details)).toList)

def form : Form ErrorInfo where
  name := "struct ErrorInfo"
  blank := ⟨0, "", none⟩
  fields := [
    .of "code" .required .uint8 fun code info => { info with code },
    .of "message" .required .string fun message info => { info with message },
    .of "details" .optional (Decoder.json.map Json.sorted).option fun details info =>
      { info with details }]

def decoder : Decoder ErrorInfo := form.decoder

end ErrorInfo

namespace ErrorReport

def ofFailure (failure : Failure) : ErrorReport where
  status := "error"
  schemaVersion := Report.schemaVersion
  error := .ofFailure failure

def record (report : ErrorReport) : Json :=
  .obj [
    ("status", .str report.status),
    ("schema_version", .str report.schemaVersion),
    ("error", report.error.record)]

def form : Form ErrorReport where
  name := "struct ErrorResponse"
  blank := ⟨"", "", ⟨0, "", none⟩⟩
  fields := [
    .of "status" .required .string fun status report => { report with status },
    .of "schema_version" .required .string fun schemaVersion report =>
      { report with schemaVersion },
    .of "error" .required ErrorInfo.decoder fun error report => { report with error }]

def decoder : Decoder ErrorReport := form.decoder

end ErrorReport

end SyntaxTree
