import SyntaxTree.Decoder.Basic

set_option autoImplicit false

namespace SyntaxTree

open Json

variable {α : Type}

abbrev Alternatives (α : Type) := List (String × α)

namespace Alternatives

def find (alternatives : Alternatives α) (name : String) : Except Problem α :=
  match alternatives.lookup name with
  | some a => .ok a
  | none => .error (.unknownVariant name (alternatives.map Prod.fst))

def readName (alternatives : Alternatives α) (text : List Char) : Except Fault (Read α) := do
  let (name, rest) ← stringText text
  match alternatives.find name with
  | .ok a => .ok (a, rest)
  | .error problem => .error (faultHere problem rest)

def readMember (alternatives : Alternatives α) (depth : Nat) (text : List Char) :
    Except Fault (Read α) := do
  let (a, text) ← match skipSpace text with
    | '"' :: rest => alternatives.readName rest
    | [] => .error (faultAhead .endOfObject [])
    | '}' :: rest => .error (faultAhead .expectedValue ('}' :: rest))
    | rest => .error (faultAhead .keyNotString rest)
  let text ← colon text
  let ((), text) ← Decoder.unit.ofText depth text
  match skipSpace text with
  | '}' :: rest => .ok (a, rest)
  | [] => .error (faultHere .endOfObject [])
  | rest => .error (faultHere .expectedValue rest)

def decoder (alternatives : Alternatives α) : Decoder α where
  ofText depth text :=
    match skipSpace text with
    | [] => .error (faultAhead .endOfValue [])
    | '"' :: rest => alternatives.readName rest
    | '{' :: rest =>
      match depth with
      | 0 => .error (faultAhead .nestingTooDeep ('{' :: rest))
      | depth + 1 => alternatives.readMember depth rest
    | text => .error (faultAhead .expectedValue text)
  ofJson
    | .str name => alternatives.find name
    | .obj [(name, value)] => do
      let a ← alternatives.find name
      Decoder.unit.ofJson value
      .ok a
    | .obj _ => .error .notOneMember
    | value => .error (.invalidType (.ofJson value) "string or map")

end Alternatives

/-- Records of several forms, told apart by the member under the key `tag`. The fields of the chosen
form are read from what is left of the record when all of it has been read. -/
structure Tagged (α : Type) where
  name : String
  tag : String
  forms : Alternatives (Json → Except Problem α)

namespace Tagged

/-- What is read of a record before its form is known: the form, once its tag has been read, and the
other members, the last first. -/
structure Opened (α : Type) where
  form : Option (Json → Except Problem α)
  members : List (String × Json)

def expected (tagged : Tagged α) : String := "internally tagged enum " ++ tagged.name

def tagText : String := "variant identifier"

def readTag (tagged : Tagged α) (text : List Char) :
    Except Fault (Read (Json → Except Problem α)) :=
  match skipSpace text with
  | '"' :: rest => tagged.forms.readName rest
  | text => .error (Decoder.mismatch tagText text)

def readMember (tagged : Tagged α) (depth : Nat) (opened : Opened α) (key : String)
    (text : List Char) : Except Fault (Read (Opened α)) :=
  if key = tagged.tag then
    if opened.form.isSome then .error (.loose (.duplicateField key) text)
    else do
      let text ← colon text
      let (form, text) ← tagged.readTag text
      .ok ({ opened with form := some form }, text)
  else do
    let text ← colon text
    let (value, text) ← Json.value depth text
    .ok ({ opened with members := (key, value) :: opened.members }, text)

def readMembers (tagged : Tagged α) (depth : Nat) (text : List Char) :
    Except Fault (Read ((Json → Except Problem α) × Json)) := do
  let (opened, text) ← foldMembers (tagged.readMember depth) true text ⟨none, []⟩ text
  match opened.form with
  | some form => .ok ((form, .obj opened.members.reverse), text)
  | none => .error (.loose (.missingField tagged.tag) text)

def readItems (tagged : Tagged α) (depth : Nat) (text : List Char) :
    Except Fault (Read ((Json → Except Problem α) × Json)) := do
  match ← nextItem true text with
  | none => .error (.loose (.missingField tagged.tag) text)
  | some text =>
    let (form, text) ← tagged.readTag text
    let step (read : List Json) (text : List Char) : Except Fault (Read (List Json)) := do
      let (value, text) ← Json.value depth text
      .ok (value :: read, text)
    let (read, text) ← foldItems step false text [] text
    .ok ((form, .arr read.reverse), text)

def readForm (read : Except Fault (Read ((Json → Except Problem α) × Json))) :
    Except Fault (Read α) := do
  let ((form, value), rest) ← read
  match form value with
  | .ok a => .ok (a, rest)
  | .error problem => .error (.loose problem rest)

/-- The tag of a record that has been read before. A number stands for the form at that place in the
order of declaration. -/
def takeTag (tagged : Tagged α) : Json → Except Problem (Json → Except Problem α)
  | .str name => tagged.forms.find name
  | .num (.integer n) =>
    if n < 0 then .error (.invalidType (.num (.integer n)) tagText)
    else
      match tagged.forms[n.toNat]? with
      | some (_, form) => .ok form
      | none =>
        .error (.invalidInteger n
          ("variant index 0 <= i < " ++ toString tagged.forms.length))
  | value => .error (.invalidType (.ofJson value) tagText)

def takeMember (tagged : Tagged α) (opened : Opened α) (member : String × Json) :
    Except Problem (Opened α) :=
  if member.1 = tagged.tag then
    if opened.form.isSome then .error (.duplicateField member.1)
    else do
      let form ← tagged.takeTag member.2
      .ok { opened with form := some form }
  else .ok { opened with members := member :: opened.members }

def decoder (tagged : Tagged α) : Decoder α where
  ofText depth text :=
    match skipSpace text with
    | '[' :: rest =>
      match depth with
      | 0 => .error (faultAhead .nestingTooDeep ('[' :: rest))
      | depth + 1 => readForm (finish leaveArray (tagged.readItems depth rest))
    | '{' :: rest =>
      match depth with
      | 0 => .error (faultAhead .nestingTooDeep ('{' :: rest))
      | depth + 1 => readForm (finish leaveObject (tagged.readMembers depth rest))
    | text => .error (Decoder.mismatch tagged.expected text)
  ofJson
    | .arr [] => .error (.missingField tagged.tag)
    | .arr (tag :: items) => do
      let form ← tagged.takeTag tag
      form (.arr items)
    | .obj members => do
      let opened ← members.foldlM tagged.takeMember ⟨none, []⟩
      match opened.form with
      | some form => form (.obj opened.members.reverse)
      | none => .error (.missingField tagged.tag)
    | value => .error (.invalidType (.ofJson value) tagged.expected)

end Tagged

end SyntaxTree
