import SyntaxTree.Decoder.Record

set_option autoImplicit false

namespace SyntaxTree

structure Position where
  startLine : UInt32
  endLine : UInt32
  startPos : UInt32
  endPos : UInt32
  deriving DecidableEq, Repr, Inhabited

inductive Backwards where
  | lines (first last : UInt32)
  | bytes (first last : UInt32)
  deriving DecidableEq, Repr

def Backwards.message : Backwards → String
  | .lines first last =>
    "Position start line (" ++ toString first ++ ") must be <= end line (" ++ toString last ++ ")"
  | .bytes first last =>
    "Position start (" ++ toString first ++ ") must be <= end (" ++ toString last ++ ")"

namespace Position

def check (p : Position) : Except Backwards Position :=
  if p.startLine > p.endLine then .error (.lines p.startLine p.endLine)
  else if p.startPos > p.endPos then .error (.bytes p.startPos p.endPos)
  else .ok p

/-- The number of bytes in the range; a range that runs backwards has none. -/
def length (p : Position) : UInt32 := if p.startPos ≤ p.endPos then p.endPos - p.startPos else 0

def isEmpty (p : Position) : Bool := p.startPos = p.endPos

def contains (p q : Position) : Bool := p.startPos ≤ q.startPos && q.endPos ≤ p.endPos

def cover (p q : Position) : Position where
  startLine := min p.startLine q.startLine
  endLine := max p.endLine q.endLine
  startPos := min p.startPos q.startPos
  endPos := max p.endPos q.endPos

def text (p : Position) : String :=
  toString p.startLine ++ ":" ++ toString p.startPos ++ ".." ++
    toString p.endLine ++ ":" ++ toString p.endPos

def record (p : Position) : Json :=
  .obj [
    ("StartLine", .ofNat p.startLine.toNat),
    ("EndLine", .ofNat p.endLine.toNat),
    ("StartPos", .ofNat p.startPos.toNat),
    ("EndPos", .ofNat p.endPos.toNat)]

def form : Form Position where
  name := "struct Position"
  blank := ⟨0, 0, 0, 0⟩
  fields := [
    .of "StartLine" .required .uint32 fun n p => { p with startLine := n },
    .of "EndLine" .required .uint32 fun n p => { p with endLine := n },
    .of "StartPos" .required .uint32 fun n p => { p with startPos := n },
    .of "EndPos" .required .uint32 fun n p => { p with endPos := n }]

def decoder : Decoder Position := form.decoder

end Position

end SyntaxTree
