import SyntaxTree.Decoder.Basic
import SyntaxTree.Json.Skip

/-! Reading records. A record is written as an object with a member for each field, in any order and
among members with other keys, or as an array of the field values in the order of declaration. -/

set_option autoImplicit false

namespace SyntaxTree

open Json

inductive Presence where
  | required
  | optional
  /-- In an object, and at the end of an array. -/
  | defaulted
  deriving DecidableEq, Repr

/-- A field of a record of type `α`: its value is read as a change of the record. -/
structure Field (α : Type) where
  key : String
  presence : Presence
  decoder : Decoder (α → α)

def Field.of {α β : Type} (key : String) (presence : Presence) (decoder : Decoder β)
    (put : β → α → α) : Field α :=
  ⟨key, presence, decoder.map put⟩

/-- A form of records: its name in messages, the record before any field is read, and the fields in
the order of declaration. -/
structure Form (α : Type) where
  name : String
  blank : α
  fields : List (Field α)

structure Filling (α : Type) where
  record : α
  seen : List String

namespace Form

variable {α : Type}

def elements (n : Nat) : String := toString n ++ (if n = 1 then " element" else " elements")

def lengthText (form : Form α) : String := form.name ++ " with " ++ elements form.fields.length

def sequenceText (form : Form α) : String := elements form.fields.length ++ " in sequence"

def fieldFor (form : Form α) (filling : Filling α) (key : String) :
    Except Problem (Option (Field α)) :=
  match form.fields.find? (·.key = key) with
  | none => .ok none
  | some field => if key ∈ filling.seen then .error (.duplicateField key) else .ok (some field)

def put (filling : Filling α) (field : Field α) (change : α → α) : Filling α :=
  ⟨change filling.record, field.key :: filling.seen⟩

/-- The record of an object that has been read: the first required field that is missing is at
fault. -/
def complete (form : Form α) (filling : Filling α) : Except Problem α :=
  match form.fields.find? fun field => field.presence = .required ∧ field.key ∉ filling.seen with
  | some field => .error (.missingField field.key)
  | none => .ok filling.record

def readMember (form : Form α) (depth : Nat) (filling : Filling α) (key : String)
    (text : List Char) : Except Fault (Read (Filling α)) :=
  match form.fieldFor filling key with
  | .error problem => .error (.loose problem text)
  | .ok none => do
    let text ← colon text
    let text ← skipValue text
    .ok (filling, text)
  | .ok (some field) => do
    let text ← colon text
    let (change, text) ← field.decoder.ofText depth text
    .ok (put filling field change, text)

def readMembers (form : Form α) (depth : Nat) (text : List Char) : Except Fault (Read α) := do
  let (filling, text) ← foldMembers (form.readMember depth) true text ⟨form.blank, []⟩ text
  match form.complete filling with
  | .ok record => .ok (record, text)
  | .error problem => .error (.loose problem text)

def readItems (form : Form α) (depth : Nat) :
    List (Field α) → Nat → Bool → α → List Char → Except Fault (Read α)
  | [], _, _, record, text => .ok (record, text)
  | field :: fields, index, isFirst, record, text =>
    match nextItem isFirst text with
    | .error fault => .error fault
    | .ok none =>
      if field.presence = .defaulted then
        form.readItems depth fields (index + 1) isFirst record text
      else .error (.loose (.invalidLength index form.lengthText) text)
    | .ok (some text) =>
      match field.decoder.ofText depth text with
      | .error fault => .error fault
      | .ok (change, text) => form.readItems depth fields (index + 1) false (change record) text

def takeMember (form : Form α) (filling : Filling α) (member : String × Json) :
    Except Problem (Filling α) :=
  match form.fieldFor filling member.1 with
  | .error problem => .error problem
  | .ok none => .ok filling
  | .ok (some field) => do
    let change ← field.decoder.ofJson member.2
    .ok (put filling field change)

def takeItems (form : Form α) : List (Field α) → Nat → α → List Json →
    Except Problem (α × List Json)
  | [], _, record, items => .ok (record, items)
  | field :: fields, index, record, [] =>
    if field.presence = .defaulted then form.takeItems fields (index + 1) record []
    else .error (.invalidLength index form.lengthText)
  | field :: fields, index, record, item :: items => do
    let change ← field.decoder.ofJson item
    form.takeItems fields (index + 1) (change record) items

def decoder (form : Form α) : Decoder α where
  ofText depth text :=
    match skipSpace text with
    | '[' :: rest =>
      match depth with
      | 0 => .error (faultAhead .nestingTooDeep ('[' :: rest))
      | depth + 1 => finish leaveArray (form.readItems depth form.fields 0 true form.blank rest)
    | '{' :: rest =>
      match depth with
      | 0 => .error (faultAhead .nestingTooDeep ('{' :: rest))
      | depth + 1 => finish leaveObject (form.readMembers depth rest)
    | text => .error (Decoder.mismatch form.name text)
  ofJson
    | .arr items => do
      let (record, left) ← form.takeItems form.fields 0 form.blank items
      if left.isEmpty then .ok record
      else .error (.invalidLength items.length form.sequenceText)
    | .obj members => do
      let filling ← members.foldlM form.takeMember ⟨form.blank, []⟩
      form.complete filling
    | value => .error (.invalidType (.ofJson value) form.name)

end Form

end SyntaxTree
