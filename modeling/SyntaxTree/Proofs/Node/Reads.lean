import SyntaxTree.Proofs.Node.Depth

set_option autoImplicit false

namespace SyntaxTree

open Json

variable {α β : Type} {m : Nat}

/-- Whether a decoder is extended by another as far as values of limited nesting go. -/
def Decoder.Extends (m : Nat) (decoder decoder' : Decoder α) : Prop :=
  ∀ v a, v.nesting ≤ m → decoder.ofJson v = .ok a → decoder'.ofJson v = .ok a

namespace Decoder.Extends

variable {decoder decoder' : Decoder β}

theorem refl (decoder : Decoder β) : decoder.Extends m decoder := fun _ _ _ h => h

theorem map (h : decoder.Extends m decoder') (f : β → α) :
    (decoder.map f).Extends m (decoder'.map f) := by
  intro v a hv hread
  obtain ⟨b, hb, rfl⟩ := map_ofJson_iff.1 hread
  exact map_ofJson (h v b hv hb) f

theorem option (h : decoder.Extends m decoder') : decoder.option.Extends m decoder'.option := by
  intro v o hv hread
  by_cases hnull : v = .null
  · rw [hnull] at hread ⊢
    exact hread
  · rw [option_ofJson_some hnull, bind_eq_ok] at hread ⊢
    obtain ⟨b, hb, hsome⟩ := hread
    exact ⟨b, h v b hv hb, hsome⟩

theorem list (h : decoder.Extends m decoder') : decoder.list.Extends m decoder'.list := by
  intro v bs hv hread
  obtain ⟨vs, rfl, -⟩ := list_ofJson_cases hread
  rw [list_ofJson_arr_iff] at hread ⊢
  obtain ⟨hlength, hzip⟩ := List.forall₂_iff_zip.1 hread
  refine List.forall₂_iff_zip.2 ⟨hlength, fun {w b} hmem => ?_⟩
  have hw := nesting_item_lt (List.of_mem_zip hmem).1
  exact h w b (by omega) (hzip hmem)

end Decoder.Extends

structure Field.Extends (m : Nat) (field field' : Field α) : Prop where
  key : field.key = field'.key
  presence : field.presence = field'.presence
  decoder : field.decoder.Extends m field'.decoder

theorem Field.extends_of {key : String} {presence : Presence} {decoder decoder' : Decoder β}
    (h : decoder.Extends m decoder') (put : β → α → α) :
    (Field.of key presence decoder put).Extends m (.of key presence decoder' put) :=
  ⟨rfl, rfl, h.map put⟩

theorem Field.extends_refl (field : Field α) : field.Extends m field := ⟨rfl, rfl, .refl _⟩

namespace Form

variable {form form' : Form α} {fields fields' : List (Field α)} {a b : α}

theorem Fills.extends {members : List (String × Json)} (h : Fills members fields a b)
    (hmembers : ∀ member ∈ members, member.2.nesting ≤ m)
    (hfields : List.Forall₂ (Field.Extends m) fields fields') : Fills members fields' a b := by
  induction h generalizing fields' with
  | nil =>
    cases hfields
    exact .nil
  | missing hnone _ ih =>
    cases hfields with
    | cons hfield hfields =>
      rw [hfield.key] at hnone
      exact .missing hnone (ih hfields)
  | given htakes _ ih =>
    cases hfields with
    | cons hfield hfields =>
      obtain ⟨v, hone, hread⟩ := htakes
      rw [hfield.key] at hone
      have hmem := mem_under.1 (hone ▸ List.mem_singleton_self v)
      exact .given ⟨v, hone, hfield.decoder v _ (hmembers _ hmem) hread⟩ (ih hfields)

theorem FillsItems.extends {vs : List Json} (h : FillsItems fields vs a b)
    (hitems : ∀ v ∈ vs, v.nesting ≤ m)
    (hfields : List.Forall₂ (Field.Extends m) fields fields') : FillsItems fields' vs a b := by
  induction h generalizing fields' with
  | nil =>
    cases hfields
    exact .nil
  | missing hdefault _ ih =>
    cases hfields with
    | cons hfield hfields => exact .missing (hfield.presence ▸ hdefault) (ih hitems hfields)
  | given hread _ ih =>
    obtain ⟨hfirst, hitems⟩ := List.forall_mem_cons.1 hitems
    cases hfields with
    | cons hfield hfields => exact .given (hfield.decoder _ _ hfirst hread) (ih hitems hfields)

theorem required_extends {members : List (String × Json)}
    (hfields : List.Forall₂ (Field.Extends m) fields fields')
    (h : ∀ field ∈ fields, field.presence = .required → under field.key members ≠ []) :
    ∀ field ∈ fields', field.presence = .required → under field.key members ≠ [] := by
  intro field' hfield'
  obtain ⟨i, hi', rfl⟩ := List.getElem_of_mem hfield'
  have hi : i < fields.length := hfields.length_eq ▸ hi'
  have hboth : (fields[i]).Extends m fields'[i] := hfields.get hi hi'
  rw [← hboth.key, ← hboth.presence]
  exact h _ (List.getElem_mem hi)

theorem decoder_extends (hform : form.Orderless) (hform' : form'.Orderless)
    (hblank : form.blank = form'.blank)
    (hfields : List.Forall₂ (Field.Extends m) form.fields form'.fields) :
    form.decoder.Extends (m + 1) form'.decoder := by
  intro v a hv hread
  rcases ofJson_cases hread with ⟨members, rfl⟩ | ⟨vs, rfl⟩
  · obtain ⟨hfills, hrequired⟩ := (ofJson_obj_iff hform).1 hread
    have hmembers : ∀ member ∈ members, member.2.nesting ≤ m :=
      nestingMembers_le_iff.1 (Nat.le_of_succ_le_succ hv)
    rw [hblank] at hfills
    exact (ofJson_obj_iff hform').2
      ⟨hfills.extends hmembers hfields, required_extends hfields hrequired⟩
  · have hfills := ofJson_arr_iff.1 hread
    have hitems : ∀ v ∈ vs, v.nesting ≤ m :=
      nestingItems_le_iff.1 (Nat.le_of_succ_le_succ hv)
    rw [hblank] at hfills
    exact ofJson_arr_iff.2 (hfills.extends hitems hfields)

end Form

namespace Node

variable {child child' : Decoder Node}

theorem formOf_extends {kind : NodeKind} {blank : α} {fields fields' : List (Field (Metadata × α))}
    (h : List.Forall₂ (Field.Extends m) fields fields') :
    List.Forall₂ (Field.Extends m) (formOf kind blank fields).fields
      (formOf kind blank fields').fields :=
  .cons (Field.extends_refl _) (.cons (Field.extends_refl _) h)

theorem fieldDecoder_extends (h : child.Extends m child') (kind : NodeKind) :
    (fieldDecoder child kind).Extends (m + 1) (fieldDecoder child' kind) := by
  have hform := kindForm_orderless child kind
  have hform' := kindForm_orderless child' kind
  rw [fieldDecoder_eq child, fieldDecoder_eq child']
  cases kind with
  | list kind =>
    refine (Form.decoder_extends hform hform' rfl (formOf_extends ?_)).map _
    exact .cons (Field.extends_of h.list _) .nil
  | wrapper kind =>
    refine (Form.decoder_extends hform hform' rfl (formOf_extends ?_)).map _
    exact .cons (Field.extends_of h.option _) .nil
  | leaf kind => exact .refl _
  | parameter =>
    refine (Form.decoder_extends hform hform' rfl (formOf_extends ?_)).map _
    exact .cons (Field.extends_refl _) (.cons (Field.extends_refl _)
      (.cons (Field.extends_of h.option _) (.cons (Field.extends_of h.option _)
        (.cons (Field.extends_of h.option _) .nil))))
  | functionCall =>
    refine (Form.decoder_extends hform hform' rfl (formOf_extends ?_)).map _
    exact .cons (Field.extends_of h.option _) (.cons (Field.extends_of h.option _) .nil)
  | argument =>
    refine (Form.decoder_extends hform hform' rfl (formOf_extends ?_)).map _
    exact .cons (Field.extends_refl _) (.cons (Field.extends_refl _)
      (.cons (Field.extends_of h.option _) .nil))

/-- As many levels are enough for a value as it nests. -/
theorem ofJson_of_nesting {levels levels' : Nat} {v : Json} {node : Node}
    (h : (decoderWithin levels).ofJson v = .ok node) (hv : v.nesting ≤ levels') :
    (decoderWithin levels').ofJson v = .ok node := by
  induction levels generalizing levels' v node with
  | zero => exact absurd h (ofJson_zero v node)
  | succ levels ih =>
    obtain ⟨kind, tag, fields, htag, hcarries, h⟩ := ofJson_succ_iff.1 h
    cases levels' with
    | zero => cases hcarries <;> cases hv
    | succ levels' =>
      have hchild : (decoderWithin levels).Extends levels' (decoderWithin levels') :=
        fun w n hw hread => ih hread hw
      have hfields := Nat.le_trans hcarries.nesting_le hv
      have hread := fieldDecoder_extends hchild kind fields node hfields h
      exact ofJson_succ_iff.2 ⟨kind, tag, fields, htag, hcarries, hread⟩

end Node

/-- Whether a tree is read from a value, if as many levels as it has are allowed. -/
def Json.Reads (v : Json) (node : Node) : Prop :=
  ∃ levels, (Node.decoderWithin levels).ofJson v = .ok node

namespace Json.Reads

variable {v : Json} {node node' : Node} {levels : Nat}

theorem ofJson (h : v.Reads node) (hv : v.nesting ≤ levels) :
    (Node.decoderWithin levels).ofJson v = .ok node := by
  obtain ⟨levels', h⟩ := h
  exact Node.ofJson_of_nesting h hv

theorem unique (h : v.Reads node) (h' : v.Reads node') : node = node' := by
  have hread := h.ofJson (Nat.le_refl v.nesting)
  rw [h'.ofJson (Nat.le_refl v.nesting)] at hread
  exact (Except.ok.inj hread).symm

theorem ne_null (h : v.Reads node) : v ≠ .null := by
  rintro rfl
  obtain ⟨levels, h⟩ := h
  cases levels <;> cases h

end Json.Reads

end SyntaxTree
