import Mathlib.Data.List.Forall2
import SyntaxTree.Proofs.Decoder.Tags
import SyntaxTree.Proofs.Node.RoundTrip

set_option autoImplicit false

namespace SyntaxTree

open Json

inductive Content where
  | plain
  | position
  | token
  | node
  | option (content : Content)
  | list (content : Content)

/-- A key of a record, with the value that stands for nothing if the member may be left out. -/
structure Entry where
  key : String
  content : Content
  absent : Option Json

namespace Entry

def scalar (key : String) : Entry := ⟨key, .plain, none⟩

def text (key : String) : Entry := ⟨key, .plain, some (.str "")⟩

def flag (key : String) : Entry := ⟨key, .plain, some (.bool false)⟩

def ifAny (key : String) (content : Content) : Entry := ⟨key, .option content, some .null⟩

def items (key : String) (content : Content) : Entry := ⟨key, .list content, some (.arr [])⟩

end Entry

def Position.entries : List Entry :=
  [.scalar "StartLine", .scalar "EndLine", .scalar "StartPos", .scalar "EndPos"]

def Token.entries : List Entry := [.scalar "Kind", .scalar "Value", .ifAny "Position" .position]

namespace NodeKind

def ownEntries : NodeKind → List Entry
  | .list kind => [.items kind.role.name .node]
  | .wrapper kind => [.ifAny kind.role.name .node]
  | .leaf _ => [.text "Value"]
  | .parameter => [
    .flag "ByRef",
    .flag "Variadic",
    .ifAny Role.type.name .node,
    .ifAny Role.var.name .node,
    .ifAny Role.defaultValue.name .node]
  | .functionCall => [.ifAny Role.function.name .node, .ifAny Role.argumentList.name .node]
  | .argument => [.flag "Variadic", .flag "IsReference", .ifAny Role.expr.name .node]

def fieldEntries (kind : NodeKind) : List Entry :=
  .ifAny "FreeFloating" (.list .token) :: .ifAny "Position" .position :: kind.ownEntries

def entries (kind : NodeKind) : List Entry := .scalar "Kind" :: kind.fieldEntries

/-- The values by which a record names its kind. -/
inductive TaggedBy (kind : NodeKind) : Json → Prop
  | name : TaggedBy kind (.str kind.name)
  | rank : TaggedBy kind (.num (.integer kind.rank.val))

end NodeKind

namespace Content

def Value : Content → Type
  | .plain => Json
  | .position => Position
  | .token => Token
  | .node => Node
  | .option content => Option content.Value
  | .list content => List content.Value

def decoder (levels : Nat) : (content : Content) → Decoder content.Value
  | .plain => .json
  | .position => Position.decoder
  | .token => Token.decoder
  | .node => Node.decoderWithin levels
  | .option content => (content.decoder levels).option
  | .list content => (content.decoder levels).list

end Content

/-- Whether two values are read as the same, or neither is read. -/
def Decoder.Alike {α : Type} (decoder : Decoder α) (v w : Json) : Prop :=
  ∀ a, decoder.ofJson v = .ok a ↔ decoder.ofJson w = .ok a

theorem Decoder.alike_json {v w : Json} (h : Decoder.json.Alike v w) : v = w :=
  (Except.ok.inj ((h v).1 rfl)).symm

variable {α β γ : Type} {levels : Nat}

theorem Decoder.map_ofJson_iff {decoder : Decoder β} {f : β → α} {v : Json} {a : α} :
    (decoder.map f).ofJson v = .ok a ↔ ∃ b, decoder.ofJson v = .ok b ∧ f b = a := by
  simp [map, bind_eq_ok]

theorem Decoder.Alike.map {decoder : Decoder β} {v w : Json} (h : decoder.Alike v w) (f : β → α) :
    (decoder.map f).Alike v w := by
  intro a
  rw [map_ofJson_iff, map_ofJson_iff]
  exact exists_congr fun b => and_congr_left fun _ => h b

/-- A field reads what an entry holds, and nothing leaves the blank as it is. -/
structure Field.Matches (levels : Nat) (blank : α) (field : Field α) (entry : Entry) : Prop where
  key : field.key = entry.key
  alike : ∀ v w, (entry.content.decoder levels).Alike v w → field.decoder.Alike v w
  absent : ∀ v, entry.absent = some v →
    field.presence ≠ .required ∧ ∃ change, field.decoder.ofJson v = .ok change ∧
      change blank = blank

namespace Field

variable {key : String} {blank : α} {put : β → α → α}

theorem Matches.scalar (decoder : Decoder β) :
    Matches levels blank (.of key .required decoder put) (.scalar key) where
  key := rfl
  alike v w h := by
    rw [Decoder.alike_json h]
    exact fun _ => Iff.rfl
  absent := nofun

theorem Matches.filled {presence : Presence} {decoder : Decoder β} {content : Content} {v : Json}
    {x : β} (hpresence : presence ≠ .required) (hread : decoder.ofJson v = .ok x)
    (hblank : put x blank = blank)
    (halike : ∀ v w, (content.decoder levels).Alike v w → decoder.Alike v w) :
    Matches levels blank (.of key presence decoder put) ⟨key, content, some v⟩ where
  key := rfl
  alike v w h := (halike v w h).map put
  absent := by
    rintro _ ⟨⟩
    exact ⟨hpresence, put x, Decoder.map_ofJson hread put, hblank⟩

theorem Matches.plain {decoder : Decoder β} {v : Json} {x : β} (hread : decoder.ofJson v = .ok x)
    (hblank : put x blank = blank) :
    Matches levels blank (.of key .defaulted decoder put) ⟨key, .plain, some v⟩ := by
  refine .filled nofun hread hblank fun v w h => ?_
  rw [Decoder.alike_json h]
  exact fun _ => Iff.rfl

theorem Matches.ifAny (content : Content) {put : Option content.Value → α → α}
    (hblank : put none blank = blank) :
    Matches levels blank (.of key .optional (content.decoder levels).option put)
      (.ifAny key content) :=
  .filled nofun rfl hblank fun _ _ h => h

theorem Matches.items (content : Content) {put : List content.Value → α → α}
    (hblank : put [] blank = blank) :
    Matches levels blank (.of key .defaulted (content.decoder levels).list put)
      (.items key content) :=
  .filled nofun rfl hblank fun _ _ h => h

theorem of_commutes {key' : String} {presence presence' : Presence} {decoder : Decoder β}
    {decoder' : Decoder γ} {put' : γ → α → α}
    (h : ∀ x y a, put x (put' y a) = put' y (put x a)) :
    (Field.of key presence decoder put).Commutes (.of key' presence' decoder' put') := by
  intro v v' change change' hv hv' a
  obtain ⟨x, -, rfl⟩ := Decoder.map_ofJson_iff.1 hv
  obtain ⟨y, -, rfl⟩ := Decoder.map_ofJson_iff.1 hv'
  exact h x y a

end Field

structure Form.Matches (levels : Nat) (form : Form α) (entries : List Entry) : Prop where
  orderless : form.Orderless
  fields : List.Forall₂ (Field.Matches levels form.blank) form.fields entries

theorem Position.form_matches (levels : Nat) : Position.form.Matches levels Position.entries where
  orderless := ⟨by decide, by simp [form, Field.of_commutes]⟩
  fields := .cons (.scalar _) (.cons (.scalar _) (.cons (.scalar _) (.cons (.scalar _) .nil)))

theorem Token.form_matches (levels : Nat) : Token.form.Matches levels Token.entries where
  orderless := ⟨by decide, by simp [form, Field.of_commutes]⟩
  fields := .cons (.scalar _) (.cons (.scalar _) (.cons (.ifAny .position rfl) .nil))

namespace Node

structure KindForm where
  Fields : Type
  form : Form Fields
  node : Fields → Node

def kindForm (child : Decoder Node) : NodeKind → KindForm
  | .list kind => ⟨_, listForm child kind kind.role.name, fun node => .list kind node.1 node.2⟩
  | .wrapper kind =>
    ⟨_, wrapperForm child kind kind.role.name, fun node => .wrapper kind node.1 node.2⟩
  | .leaf kind => ⟨_, leafForm kind "Value", fun node => .leaf kind node.1 node.2⟩
  | .parameter => ⟨_, parameterForm child, fun (info, fields) =>
    .parameter info fields.byRef fields.variadic fields.type fields.var fields.defaultValue⟩
  | .functionCall => ⟨_, functionCallForm child, fun (info, function, argumentList) =>
    .functionCall info function argumentList⟩
  | .argument => ⟨_, argumentForm child, fun (info, fields) =>
    .argument info fields.variadic fields.isReference fields.expr⟩

theorem fieldDecoder_eq (child : Decoder Node) (kind : NodeKind) :
    fieldDecoder child kind =
      (kindForm child kind).form.decoder.map (kindForm child kind).node := by
  cases kind with
  | list kind => exact fieldDecoder_list kind
  | wrapper kind => exact fieldDecoder_wrapper kind
  | leaf kind => exact fieldDecoder_leaf kind
  | parameter => rfl
  | functionCall => rfl
  | argument => rfl

theorem kindForm_orderless (child : Decoder Node) (kind : NodeKind) :
    (kindForm child kind).form.Orderless := by
  cases kind with
  | list kind => exact ⟨listForm_keys kind, by simp [kindForm, listForm, formOf, Field.of_commutes]⟩
  | wrapper kind =>
    exact ⟨wrapperForm_keys kind, by simp [kindForm, wrapperForm, formOf, Field.of_commutes]⟩
  | leaf kind => exact ⟨leafForm_keys kind, by simp [kindForm, leafForm, formOf, Field.of_commutes]⟩
  | parameter =>
    exact ⟨parameterForm_keys, by simp [kindForm, parameterForm, formOf, Field.of_commutes]⟩
  | functionCall =>
    exact ⟨functionCallForm_keys, by simp [kindForm, functionCallForm, formOf, Field.of_commutes]⟩
  | argument =>
    exact ⟨argumentForm_keys, by simp [kindForm, argumentForm, formOf, Field.of_commutes]⟩

theorem formOf_matches {kind : NodeKind} {blank : α} {fields : List (Field (Metadata × α))}
    {entries : List Entry}
    (h : List.Forall₂ (Field.Matches levels ({}, blank)) fields entries) :
    List.Forall₂ (Field.Matches levels (formOf kind blank fields).blank)
      (formOf kind blank fields).fields
      (.ifAny "FreeFloating" (.list .token) :: .ifAny "Position" .position :: entries) :=
  .cons (.ifAny (.list .token) rfl) (.cons (.ifAny .position rfl) h)

theorem kindForm_matches (levels : Nat) (kind : NodeKind) :
    (kindForm (decoderWithin levels) kind).form.Matches levels kind.fieldEntries := by
  refine ⟨kindForm_orderless _ kind, ?_⟩
  cases kind with
  | list kind => exact formOf_matches (.cons (.items .node rfl) .nil)
  | wrapper kind => exact formOf_matches (.cons (.ifAny .node rfl) .nil)
  | leaf kind => exact formOf_matches (.cons (.plain rfl rfl) .nil)
  | parameter =>
    exact formOf_matches (.cons (.plain rfl rfl) (.cons (.plain rfl rfl) (.cons (.ifAny .node rfl)
      (.cons (.ifAny .node rfl) (.cons (.ifAny .node rfl) .nil)))))
  | functionCall =>
    exact formOf_matches (.cons (.ifAny .node rfl) (.cons (.ifAny .node rfl) .nil))
  | argument =>
    exact formOf_matches (.cons (.plain rfl rfl) (.cons (.plain rfl rfl)
      (.cons (.ifAny .node rfl) .nil)))

end Node

end SyntaxTree
