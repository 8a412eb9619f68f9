import SyntaxTree.Json.Basic

/-! The two written forms of a JSON value: `compact` on one line without spaces, and `pretty` with
one item or member a line, two spaces deeper than the line that opened it. Every form is written in
front of a text that follows it. -/

set_option autoImplicit false

namespace SyntaxTree.Json

def hexDigit (n : Nat) : Char := Nat.digitChar n

/-- A character inside a JSON string. Only the quotation mark, the backslash and the controls below
the space are escaped. -/
def escapedChar (c : Char) : List Char :=
  if c = '"' then ['\\', '"']
  else if c = '\\' then ['\\', '\\']
  else if c = '\x08' then ['\\', 'b']
  else if c = '\t' then ['\\', 't']
  else if c = '\n' then ['\\', 'n']
  else if c = '\x0c' then ['\\', 'f']
  else if c = '\r' then ['\\', 'r']
  else if c.toNat < 0x20 then
    ['\\', 'u', '0', '0', hexDigit (c.toNat / 16), hexDigit (c.toNat % 16)]
  else [c]

def stringBefore (rest text : List Char) : List Char :=
  '"' :: (text.flatMap escapedChar ++ '"' :: rest)

def scalarText : Json → List Char
  | .bool true => ['t', 'r', 'u', 'e']
  | .bool false => ['f', 'a', 'l', 's', 'e']
  | .num n => n.written
  | .str s => stringBefore [] s.toList
  | _ => ['n', 'u', 'l', 'l']

mutual

def compactBefore (rest : List Char) : Json → List Char
  | .arr items => '[' :: compactItems (']' :: rest) items
  | .obj members => '{' :: compactMembers ('}' :: rest) members
  | scalar => scalarText scalar ++ rest

def compactItems (rest : List Char) : List Json → List Char
  | [] => rest
  | [item] => item.compactBefore rest
  | item :: next :: items => item.compactBefore (',' :: compactItems rest (next :: items))

def compactMembers (rest : List Char) : List (String × Json) → List Char
  | [] => rest
  | [(key, value)] => stringBefore (':' :: value.compactBefore rest) key.toList
  | (key, value) :: next :: members =>
    stringBefore (':' :: value.compactBefore (',' :: compactMembers rest (next :: members)))
      key.toList

end

def compact (value : Json) : List Char := value.compactBefore []

def spacesBefore (rest : List Char) : Nat → List Char
  | 0 => rest
  | n + 1 => ' ' :: spacesBefore rest n

def lineBefore (level : Nat) (rest : List Char) : List Char := '\n' :: spacesBefore rest (2 * level)

mutual

/-- The pretty form in front of a text. It begins in the middle of a line at the given level. -/
def prettyBefore (level : Nat) (rest : List Char) : Json → List Char
  | .arr [] => '[' :: ']' :: rest
  | .arr (item :: items) =>
    '[' :: prettyItems (level + 1) (lineBefore level (']' :: rest)) (item :: items)
  | .obj [] => '{' :: '}' :: rest
  | .obj (member :: members) =>
    '{' :: prettyMembers (level + 1) (lineBefore level ('}' :: rest)) (member :: members)
  | scalar => scalarText scalar ++ rest

def prettyItems (level : Nat) (rest : List Char) : List Json → List Char
  | [] => rest
  | [item] => lineBefore level (item.prettyBefore level rest)
  | item :: next :: items =>
    lineBefore level (item.prettyBefore level (',' :: prettyItems level rest (next :: items)))

def prettyMembers (level : Nat) (rest : List Char) : List (String × Json) → List Char
  | [] => rest
  | [(key, value)] =>
    lineBefore level (stringBefore (':' :: ' ' :: value.prettyBefore level rest) key.toList)
  | (key, value) :: next :: members =>
    lineBefore level (stringBefore
      (':' :: ' ' :: value.prettyBefore level (',' :: prettyMembers level rest (next :: members)))
      key.toList)

end

def pretty (value : Json) : List Char := value.prettyBefore 0 []

def text (value : Json) (isPretty : Bool) : String :=
  String.ofList (if isPretty then value.pretty else value.compact)

end SyntaxTree.Json
