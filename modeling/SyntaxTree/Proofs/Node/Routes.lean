import SyntaxTree.Proofs.Node.Gaps

set_option autoImplicit false

namespace SyntaxTree

open Json

variable {levels : Nat}

/-- The way from a node to one below it: the roles of the children on the way, with the number that
each has under its role. -/
abbrev Route := List (Role × Nat)

namespace Node

def child? (node : Node) (role : Role) (i : Nat) : Option Node :=
  (node.slot? role).bind (·.children[i]?)

def along? : Node → Route → Option Node
  | node, [] => some node
  | node, (role, i) :: route => (node.child? role i).bind (·.along? route)

end Node

open Node

theorem Node.Slot.decoder_single_iff {v : Json} (hv : v ≠ .null) {slot : Slot} :
    (Slot.decoder levels false).ofJson v = .ok slot ↔
      ∃ n, (decoderWithin levels).ofJson v = .ok n ∧ slot = .single (some n) := by
  rw [Slot.decoder, Decoder.map_ofJson_iff, Decoder.option_ofJson_some hv]
  simp only [bind_eq_ok, Except.ok.injEq]
  constructor
  · rintro ⟨o, ⟨n, hn, rfl⟩, rfl⟩
    exact ⟨n, hn, rfl⟩
  · rintro ⟨n, hn, rfl⟩
    exact ⟨some n, ⟨n, hn, rfl⟩, rfl⟩

/-- A document in which one value is missing, as records with gaps inside one another. -/
abbrev Context := List Gap

namespace Context

def fill (context : Context) (v : Json) : Json := context.foldr Gap.fill v

/-- Whether a child of the outermost record is missing: all that stands under its role, or an item
of the list there. -/
inductive Step (role : Role) : Nat → Context → Prop
  | single {gap : Gap} : gap.Holds role false → Step role 0 [gap]
  | item {gap : Gap} {before after : List Json} : gap.Holds role true →
      Step role before.length [gap, .item before after]

namespace Step

variable {role : Role} {i : Nat} {layer : Context} {v w : Json} {node n : Node}

theorem child (h : Step role i layer) (hv : v ≠ .null)
    (hread : (decoderWithin (levels + 1)).ofJson (layer.fill v) = .ok node) :
    ∃ n, (decoderWithin levels).ofJson v = .ok n ∧ node.child? role i = some n := by
  cases h with
  | single hgap =>
    obtain ⟨slot, hslot, hnode⟩ := hgap.slot hread
    obtain ⟨n, hn, rfl⟩ := (Slot.decoder_single_iff hv).1 hslot
    exact ⟨n, hn, by rw [child?, hnode]; rfl⟩
  | @item gap before after hgap =>
    obtain ⟨slot, hslot, hnode⟩ := hgap.slot hread
    obtain ⟨items, hitems, rfl⟩ := Decoder.map_ofJson_iff.1 hslot
    obtain ⟨first, n, others, hfirst, hn, -, rfl⟩ := Decoder.list_ofJson_middle_iff.1 hitems
    have hlength := Decoder.list_length hfirst
    exact ⟨n, hn, by simp [child?, hnode, Slot.children, hlength]⟩

theorem exchange (h : Step role i layer)
    (hread : (decoderWithin (levels + 1)).ofJson (layer.fill v) = .ok node)
    (hw : (decoderWithin levels).ofJson w = .ok n) :
    ∃ node', (decoderWithin (levels + 1)).ofJson (layer.fill w) = .ok node' := by
  have hwnull : w ≠ .null := Json.Reads.ne_null ⟨levels, hw⟩
  cases h with
  | single hgap =>
    exact hgap.ofJson_of_slot hread ((Slot.decoder_single_iff hwnull).2 ⟨n, hw, rfl⟩)
  | @item gap before after hgap =>
    obtain ⟨slot, hslot, -⟩ := hgap.slot hread
    obtain ⟨items, hitems, rfl⟩ := Decoder.map_ofJson_iff.1 hslot
    obtain ⟨first, -, others, hfirst, -, hothers, -⟩ := Decoder.list_ofJson_middle_iff.1 hitems
    have hitems' := Decoder.list_ofJson_middle_iff.2 ⟨first, n, others, hfirst, hw, hothers, rfl⟩
    exact hgap.ofJson_of_slot hread (Decoder.map_ofJson hitems' _)

end Step

theorem exists_step {role : Role} {i : Nat} {v : Json} {node n : Node}
    (h : (decoderWithin (levels + 1)).ofJson v = .ok node) (hchild : node.child? role i = some n) :
    ∃ layer w, Step role i layer ∧ v = fill layer w ∧ (decoderWithin levels).ofJson w = .ok n := by
  obtain ⟨slot, hslot, hi⟩ := Option.bind_eq_some_iff.1 hchild
  have hsome : slot.children ≠ [] := List.ne_nil_of_mem (List.mem_of_getElem? hi)
  obtain ⟨gap, x, hgap, rfl⟩ := exists_gap h hslot hsome
  obtain ⟨slot', hread, hsame⟩ := hgap.slot h
  rw [hslot] at hsame
  cases hsame
  cases slot with
  | single o =>
    have hx : x ≠ .null := by
      rintro rfl
      cases hread
      exact hsome rfl
    obtain ⟨n', hn', heq⟩ := (Slot.decoder_single_iff hx).1 hread
    cases heq
    have hfirst : i = 0 ∧ n' = n := by
      simpa [Slot.children, List.getElem?_singleton] using hi
    obtain ⟨rfl, rfl⟩ := hfirst
    exact ⟨[gap], x, .single hgap, rfl, hn'⟩
  | list items =>
    obtain ⟨_, hitems, heq⟩ := Decoder.map_ofJson_iff.1 hread
    cases heq
    obtain ⟨vs, rfl, -⟩ := Decoder.list_ofJson_cases hitems
    obtain ⟨hlt, -⟩ := List.getElem?_eq_some_iff.1 hi
    have hlt' : i < vs.length := Decoder.list_length hitems ▸ hlt
    obtain ⟨x, hx⟩ : ∃ x, vs[i]? = some x := ⟨vs[i], List.getElem?_eq_getElem hlt'⟩
    obtain ⟨before, after, rfl, rfl⟩ := exists_append_of_getElem? hx
    obtain ⟨first, n', others, hfirst, hn', -, rfl⟩ := Decoder.list_ofJson_middle_iff.1 hitems
    have hlength := Decoder.list_length hfirst
    have hsame : n' = n := by simpa [Slot.children, hlength] using hi
    exact ⟨[gap, .item before after], _, .item hgap, rfl, hsame ▸ hn'⟩

/-- Whether the node at the end of a route is missing. -/
inductive LeadsTo : Context → Route → Prop
  | here : LeadsTo [] []
  | child {layer context : Context} {role : Role} {i : Nat} {route : Route} : Step role i layer →
      LeadsTo context route → LeadsTo (layer ++ context) ((role, i) :: route)

theorem fill_append (outer inner : Context) (v : Json) :
    fill (outer ++ inner) v = outer.fill (inner.fill v) := List.foldr_append

theorem fill_ne_null (context : Context) {v : Json} (hv : v ≠ .null) : context.fill v ≠ .null := by
  cases context with
  | nil => exact hv
  | cons gap context => cases gap <;> nofun

namespace LeadsTo

variable {context : Context} {route : Route} {v w : Json} {node n : Node}

/-- Whatever stands at the end of a route is read as the node there. -/
theorem reads (h : context.LeadsTo route) (hv : v ≠ .null) (hread : (context.fill v).Reads node) :
    ∃ n, v.Reads n ∧ node.along? route = some n := by
  induction h generalizing node with
  | here => exact ⟨node, hread, rfl⟩
  | @child layer context role i route hstep _ ih =>
    obtain ⟨levels, hread⟩ := hread
    cases levels with
    | zero => exact absurd hread (ofJson_zero _ node)
    | succ levels =>
      rw [fill_append] at hread
      obtain ⟨child, hchild, hnode⟩ := hstep.child (context.fill_ne_null hv) hread
      obtain ⟨n, hn, halong⟩ := ih ⟨levels, hchild⟩
      exact ⟨n, hn, by rw [along?, hnode, Option.bind_some, halong]⟩

/-- Whatever else is read as a node may stand at the end of a route instead. -/
theorem exchange (h : context.LeadsTo route) (hv : v ≠ .null)
    (hread : (context.fill v).Reads node) (hw : w.Reads n) :
    ∃ node', (context.fill w).Reads node' := by
  induction h generalizing node with
  | here => exact ⟨n, hw⟩
  | @child layer context role i route hstep _ ih =>
    rw [fill_append] at hread ⊢
    -- With levels enough for both documents, one step of the route can be compared.
    obtain ⟨levels, hlevels⟩ : ∃ levels, (layer.fill (context.fill v)).nesting ≤ levels + 1 ∧
        (context.fill w).nesting ≤ levels := ⟨_, Nat.le_succ_of_le (Nat.le_max_left _ _),
          Nat.le_max_right _ _⟩
    have houter := hread.ofJson hlevels.1
    obtain ⟨child, hchild, -⟩ := hstep.child (context.fill_ne_null hv) houter
    obtain ⟨child', hchild'⟩ := ih ⟨levels, hchild⟩
    obtain ⟨node', hnode'⟩ := hstep.exchange houter (hchild'.ofJson hlevels.2)
    exact ⟨node', levels + 1, hnode'⟩

end LeadsTo

/-- Every node stands at the end of its route. -/
theorem exists_leadsTo {route : Route} {v : Json} {node n : Node} (hread : v.Reads node)
    (h : node.along? route = some n) :
    ∃ context w, LeadsTo context route ∧ v = fill context w ∧ w.Reads n := by
  induction route generalizing v node with
  | nil =>
    cases h
    exact ⟨[], v, .here, rfl, hread⟩
  | cons step route ih =>
    obtain ⟨child, hchild, halong⟩ := Option.bind_eq_some_iff.1 h
    obtain ⟨levels, hread⟩ := hread
    cases levels with
    | zero => exact absurd hread (ofJson_zero v node)
    | succ levels =>
      obtain ⟨layer, x, hstep, rfl, hx⟩ := exists_step hread hchild
      obtain ⟨context, w, hleads, rfl, hw⟩ := ih ⟨levels, hx⟩ halong
      exact ⟨layer ++ context, w, .child hstep hleads, (fill_append _ _ _).symm, hw⟩

end Context

end SyntaxTree
