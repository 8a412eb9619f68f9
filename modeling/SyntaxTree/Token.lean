import SyntaxTree.Decoder.Choice
import SyntaxTree.Position

set_option autoImplicit false

namespace SyntaxTree

inductive TokenKind where
  | whitespace
  | comment
  | docComment
  | other
  deriving DecidableEq, Repr, Inhabited

def TokenKind.all : List TokenKind := [.whitespace, .comment, .docComment, .other]

def TokenKind.name : TokenKind → String
  | .whitespace => "Whitespace"
  | .comment => "Comment"
  | .docComment => "DocComment"
  | .other => "Other"

def TokenKind.isComment : TokenKind → Bool
  | .comment => true
  | .docComment => true
  | _ => false

structure Token where
  kind : TokenKind
  value : String
  position : Option Position := none
  deriving DecidableEq, Repr, Inhabited

def Token.comments (tokens : List Token) : List Token := tokens.filter (·.kind.isComment)

def TokenKind.decoder : Decoder TokenKind :=
  Alternatives.decoder (TokenKind.all.map fun kind => (kind.name, kind))

namespace Token

def record (token : Token) : Json :=
  .obj [
    ("Kind", .str token.kind.name),
    ("Value", .str token.value),
    ("Position", .ofOption Position.record token.position)]

def form : Form Token where
  name := "struct FloatingToken"
  blank := ⟨.whitespace, "", none⟩
  fields := [
    .of "Kind" .required TokenKind.decoder fun kind token => { token with kind },
    .of "Value" .required .string fun value token => { token with value },
    .of "Position" .optional Position.decoder.option fun position token =>
      { token with position }]

def decoder : Decoder Token := form.decoder

def records (tokens : List Token) : Json := .arr (tokens.map record)

end Token

end SyntaxTree
