import SyntaxTree.Proofs.Node.Layout

/-! What the written forms of a tree tell, however deep it nests. The tagged form tells one tree
from every other. The plain form does so up to kinds whose records have the same keys. -/

set_option autoImplicit false

namespace SyntaxTree

open Json

namespace NodeKind

def groups : List (List NodeKind) := [
  [.list .root, .list .stmtList],
  [.wrapper .expression, .wrapper .nullable],
  [.leaf .identifier, .leaf .namePart, .leaf .numberLiteral, .leaf .integerLiteral,
    .leaf .stringLiteral]]

/-- Whether two kinds can be exchanged without a trace in the plain form. -/
def Exchangeable (kind kind' : NodeKind) : Prop :=
  kind = kind' ∨ ∃ group ∈ groups, kind ∈ group ∧ kind' ∈ group

instance : DecidableRel Exchangeable := fun kind kind' =>
  inferInstanceAs (Decidable (kind = kind' ∨ ∃ group ∈ groups, kind ∈ group ∧ kind' ∈ group))

theorem exchangeable_iff {kind kind' : NodeKind} : kind.Exchangeable kind' ↔
    kind.fieldEntries.map Entry.key = kind'.fieldEntries.map Entry.key := by
  have hall : ∀ k ∈ all, ∀ k' ∈ all, Exchangeable k k' ↔
      k.fieldEntries.map Entry.key = k'.fieldEntries.map Entry.key := by decide
  exact hall _ kind.mem_all _ kind'.mem_all

end NodeKind

namespace Node

mutual

/-- Whether two trees are equal up to exchangeable kinds at any of their nodes. -/
def EqualUpToKinds : Node → Node → Prop
  | .list kind info items, .list kind' info' items' =>
    NodeKind.Exchangeable (.list kind) (.list kind') ∧ info = info' ∧
      EachEqualUpToKinds items items'
  | .wrapper kind info child, .wrapper kind' info' child' =>
    NodeKind.Exchangeable (.wrapper kind) (.wrapper kind') ∧ info = info' ∧
      EqualUpToKindsIfAny child child'
  | .leaf kind info value, .leaf kind' info' value' =>
    NodeKind.Exchangeable (.leaf kind) (.leaf kind') ∧ info = info' ∧ value = value'
  | .parameter info byRef variadic type var defaultValue,
      .parameter info' byRef' variadic' type' var' defaultValue' =>
    info = info' ∧ byRef = byRef' ∧ variadic = variadic' ∧ EqualUpToKindsIfAny type type' ∧
      EqualUpToKindsIfAny var var' ∧ EqualUpToKindsIfAny defaultValue defaultValue'
  | .functionCall info function argumentList, .functionCall info' function' argumentList' =>
    info = info' ∧ EqualUpToKindsIfAny function function' ∧
      EqualUpToKindsIfAny argumentList argumentList'
  | .argument info variadic isReference expr, .argument info' variadic' isReference' expr' =>
    info = info' ∧ variadic = variadic' ∧ isReference = isReference' ∧
      EqualUpToKindsIfAny expr expr'
  | _, _ => False

def EachEqualUpToKinds : List Node → List Node → Prop
  | [], [] => True
  | node :: nodes, node' :: nodes' => EqualUpToKinds node node' ∧ EachEqualUpToKinds nodes nodes'
  | _, _ => False

def EqualUpToKindsIfAny : Option Node → Option Node → Prop
  | none, none => True
  | some node, some node' => EqualUpToKinds node node'
  | _, _ => False

end

theorem documents_text (node : Node) (tagged pretty : Bool) :
    (node.record tagged).Documents (node.text tagged pretty) := by
  have hafter : Blank "".toList := blank_nil
  simpa using node.documents_printed tagged pretty hafter

theorem text_eq_iff {a b : Node} (tagged pretty : Bool) :
    a.text tagged pretty = b.text tagged pretty ↔ a.record tagged = b.record tagged := by
  constructor
  · intro h
    have ha := a.documents_text tagged pretty
    have hb := b.documents_text tagged pretty
    rw [← h] at hb
    exact ha.unique hb
  · intro h
    rw [text, text, h]

/-- A record names the tree that it was made of. -/
theorem record_tagged_injective {a b : Node} (h : a.record true = b.record true) : a = b := by
  have ha := decoderWithin_ofJson (Nat.le_refl (a.record true).nesting)
  have hb := decoderWithin_ofJson (Nat.le_refl (b.record true).nesting)
  rw [h, hb] at ha
  exact (Except.ok.inj ha).symm

theorem head_eq_iff (kind kind' : NodeKind) {info info' : Metadata} :
    head false kind info = head false kind' info' ↔ info = info' := by
  constructor
  · intro h
    have hmembers : Json.ofOption Token.records info.freeFloating =
        Json.ofOption Token.records info'.freeFloating ∧
          Json.ofOption Position.record info.position =
            Json.ofOption Position.record info'.position := by simpa [head] using h
    obtain ⟨htokens, hposition⟩ := hmembers
    have hfree := Token.option_ofJson info.freeFloating
    rw [htokens, Token.option_ofJson] at hfree
    have hplace := Position.option_ofJson info.position
    rw [hposition, Position.option_ofJson] at hplace
    obtain ⟨freeFloating, position⟩ := info
    simp only [Except.ok.injEq] at hfree hplace
    rw [← hfree, ← hplace]
  · intro h
    rw [h]
    rfl

/-- Plain records are equal exactly if they give the same metadata, values and slots. -/
theorem record_plain_eq_iff {a b : Node} : a.record false = b.record false ↔
    a.info = b.info ∧
      a.valueMembers ++ a.slotMembers false = b.valueMembers ++ b.slotMembers false := by
  have hlength : (head false a.kind a.info).length = (head false b.kind b.info).length := rfl
  rw [record_eq, record_eq, Json.obj.injEq, ← head_eq_iff a.kind b.kind]
  constructor
  · intro h
    exact List.append_inj h hlength
  · intro h
    rw [h.1, h.2]

theorem keys_plain (node : Node) :
    (head false node.kind node.info ++ (node.valueMembers ++ node.slotMembers false)).map
      Prod.fst = node.kind.fieldEntries.map Entry.key := by
  cases node <;> rfl

theorem exchangeable_of_record {a b : Node} (h : a.record false = b.record false) :
    a.kind.Exchangeable b.kind := by
  rw [record_eq, record_eq, Json.obj.injEq] at h
  rw [NodeKind.exchangeable_iff, ← keys_plain, ← keys_plain, h]

theorem EqualUpToKinds.exchangeable {a b : Node} (h : a.EqualUpToKinds b) :
    a.kind.Exchangeable b.kind := by
  cases a <;> cases b <;> simp [EqualUpToKinds] at h
  case list.list => exact h.1
  case wrapper.wrapper => exact h.1
  case leaf.leaf => exact h.1
  all_goals exact .inl rfl

theorem eachEqualUpToKinds_iff {items : List Node} (h : ∀ item ∈ items, ∀ b,
      item.record false = b.record false ↔ item.EqualUpToKinds b) (items' : List Node) :
    items.map (record false) = items'.map (record false) ↔ EachEqualUpToKinds items items' := by
  induction items generalizing items' with
  | nil => cases items' <;> simp [EachEqualUpToKinds]
  | cons item items ih =>
    cases items' with
    | nil => simp [EachEqualUpToKinds]
    | cons item' items' =>
      have hfirst := h item (by simp) item'
      have hrest := ih (fun n hn => h n (List.mem_cons_of_mem _ hn)) items'
      simp [EachEqualUpToKinds, hfirst, hrest]

theorem equalUpToKindsIfAny_iff {o : Option Node} (h : ∀ child ∈ o.toList, ∀ b,
      child.record false = b.record false ↔ child.EqualUpToKinds b) (o' : Option Node) :
    Json.ofOption (record false) o = .ofOption (record false) o' ↔ EqualUpToKindsIfAny o o' := by
  cases o with
  | none =>
    cases o' with
    | none => simp [EqualUpToKindsIfAny]
    | some child' =>
      have hne := (child'.record_ne_null false).symm
      simpa [EqualUpToKindsIfAny, Json.ofOption] using hne
  | some child =>
    cases o' with
    | none =>
      have hne := child.record_ne_null false
      simpa [EqualUpToKindsIfAny, Json.ofOption] using hne
    | some child' => exact h child (by simp) child'

theorem members_eq_iff {a b : Node} (hkinds : a.kind.Exchangeable b.kind)
    (h : ∀ child ∈ a.children, ∀ other : Node,
      child.record false = other.record false ↔ child.EqualUpToKinds other) :
    (a.info = b.info ∧
      a.valueMembers ++ a.slotMembers false = b.valueMembers ++ b.slotMembers false) ↔
        a.EqualUpToKinds b := by
  have hkeys := NodeKind.exchangeable_iff.1 hkinds
  have hitems (items items' : List Node) (hc : ∀ item ∈ items, item ∈ a.children) :=
    eachEqualUpToKinds_iff (fun item hi => h item (hc item hi)) items'
  have hchild (o o' : Option Node) (hc : ∀ child ∈ o.toList, child ∈ a.children) :=
    equalUpToKindsIfAny_iff (fun child hi => h child (hc child hi)) o'
  have hsame := hkinds
  cases a <;> cases b <;> simp [kind, NodeKind.Exchangeable, NodeKind.groups] at hsame
  case list.list kind _ items kind' _ items' =>
    have hrole : kind.role.name = kind'.role.name := by
      simpa [Node.kind, NodeKind.fieldEntries, NodeKind.ownEntries, Entry.items] using hkeys
    have hlists : NodeKind.Exchangeable (.list kind) (.list kind') := hkinds
    have hi := hitems items items' (by simp)
    simp [info, valueMembers, slotMembers, slots, Slot.record, hrole, hi, EqualUpToKinds, hlists]
  case wrapper.wrapper kind _ child kind' _ child' =>
    have hrole : kind.role.name = kind'.role.name := by
      simpa [Node.kind, NodeKind.fieldEntries, NodeKind.ownEntries, Entry.ifAny] using hkeys
    have hwrappers : NodeKind.Exchangeable (.wrapper kind) (.wrapper kind') := hkinds
    have hc := hchild child child' (by simp)
    simp [info, valueMembers, slotMembers, slots, Slot.record, hrole, hc, EqualUpToKinds, hwrappers]
  case leaf.leaf kind _ _ kind' _ _ =>
    have hleaves : NodeKind.Exchangeable (.leaf kind) (.leaf kind') := hkinds
    simp [info, valueMembers, slotMembers, slots, EqualUpToKinds, hleaves]
  case parameter.parameter type var defaultValue _ _ _ type' var' defaultValue' =>
    have ht := hchild type type' (by simp +contextual)
    have hv := hchild var var' (by simp +contextual)
    have hd := hchild defaultValue defaultValue' (by simp +contextual)
    simp [info, valueMembers, slotMembers, slots, Slot.record, ht, hv, hd, EqualUpToKinds]
  case functionCall.functionCall function argumentList _ function' argumentList' =>
    have hf := hchild function function' (by simp +contextual)
    have ha := hchild argumentList argumentList' (by simp +contextual)
    simp [info, valueMembers, slotMembers, slots, Slot.record, hf, ha, EqualUpToKinds]
  case argument.argument expr _ _ _ expr' =>
    have he := hchild expr expr' (by simp)
    simp [info, valueMembers, slotMembers, slots, Slot.record, he, EqualUpToKinds]

theorem equalUpToKinds_iff {a b : Node} :
    a.record false = b.record false ↔ a.EqualUpToKinds b := by
  induction a using Node.induction generalizing b with
  | step a ih =>
    by_cases hkinds : a.kind.Exchangeable b.kind
    · rw [record_plain_eq_iff]
      exact members_eq_iff hkinds fun child hc other => ih child hc
    · refine iff_of_false (fun h => hkinds ?_) (fun h => hkinds h.exchangeable)
      exact exchangeable_of_record h

/-- In either layout, trees have the same tagged text exactly if they are equal, and the same plain
text exactly if they are equal up to exchangeable kinds. -/
theorem text_kernel (a b : Node) (pretty : Bool) :
    (a.text true pretty = b.text true pretty ↔ a = b) ∧
    (a.text false pretty = b.text false pretty ↔ a.EqualUpToKinds b) := by
  rw [text_eq_iff, text_eq_iff]
  exact ⟨⟨record_tagged_injective, fun h => h ▸ rfl⟩, equalUpToKinds_iff⟩

end Node

end SyntaxTree
