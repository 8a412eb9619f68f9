import SyntaxTree.Json.Reader

/-! The grammar of JSON, as a relation between values and their spellings. It knows nothing of the
reader: white space stands where two tokens meet, and a character of a string has several
spellings. Only a number is what the reader takes for it. -/

set_option autoImplicit false

namespace SyntaxTree.Json

def Blank (text : List Char) : Prop := ∀ c ∈ text, isSpace c = true

inductive SpellsChar : Char → List Char → Prop
  | plain {c : Char} : c ≠ '"' → c ≠ '\\' → isControl c = false → SpellsChar c [c]
  | letter {c l : Char} : letterEscape? l = some c → SpellsChar c ['\\', l]
  | unit {a b c d : Char} {n : Nat} : hexNumber? a b c d = some n →
      isLowSurrogate n = false → isHighSurrogate n = false →
      SpellsChar (Char.ofNat n) ['\\', 'u', a, b, c, d]
  | pair {a b c d e f g h : Char} {high low : Nat} :
      hexNumber? a b c d = some high → isLowSurrogate high = false →
      isHighSurrogate high = true → hexNumber? e f g h = some low → isLowSurrogate low = true →
      SpellsChar (surrogatePair high low) ['\\', 'u', a, b, c, d, '\\', 'u', e, f, g, h]

inductive SpellsChars : List Char → List Char → Prop
  | nil : SpellsChars [] []
  | cons {c : Char} {cs text texts : List Char} : SpellsChar c text → SpellsChars cs texts →
      SpellsChars (c :: cs) (text ++ texts)

def number : List Char → Except Fault (Read Number)
  | '-' :: rest => numeral true rest
  | text => numeral false text

/-- What stands before an item or a member: white space, after a comma except before the first. -/
def Leads (isFirst : Bool) (text : List Char) : Prop :=
  if isFirst then Blank text
  else ∃ before after, Blank before ∧ Blank after ∧ text = before ++ ',' :: after

def Colon (text : List Char) : Prop :=
  ∃ before after, Blank before ∧ Blank after ∧ text = before ++ ':' :: after

mutual

/-- The spellings of a value, without the white space around it. -/
def Spells : Json → List Char → Prop
  | .null, text => text = ['n', 'u', 'l', 'l']
  | .bool true, text => text = ['t', 'r', 'u', 'e']
  | .bool false, text => text = ['f', 'a', 'l', 's', 'e']
  | .num n, text => number text = .ok (n, [])
  | .str s, text => ∃ body, SpellsChars s.toList body ∧ text = '"' :: (body ++ ['"'])
  | .arr items, text =>
    ∃ body space, SpellsItems true items body ∧ Blank space ∧
      text = '[' :: (body ++ (space ++ [']']))
  | .obj members, text =>
    ∃ body space, SpellsMembers true members body ∧ Blank space ∧
      text = '{' :: (body ++ (space ++ ['}']))

def SpellsItems : Bool → List Json → List Char → Prop
  | _, [], text => text = []
  | isFirst, item :: items, text =>
    ∃ lead core rest, Leads isFirst lead ∧ item.Spells core ∧ SpellsItems false items rest ∧
      text = lead ++ (core ++ rest)

def SpellsMembers : Bool → List (String × Json) → List Char → Prop
  | _, [], text => text = []
  | isFirst, (key, value) :: members, text =>
    ∃ lead name colon core rest, Leads isFirst lead ∧ SpellsChars key.toList name ∧ Colon colon ∧
      value.Spells core ∧ SpellsMembers false members rest ∧
      text = lead ++ '"' :: (name ++ '"' :: (colon ++ (core ++ rest)))

end

end SyntaxTree.Json
