import Mathlib.Data.List.Nodup
import SyntaxTree.Proofs.Node.RoundTrip
import SyntaxTree.Proofs.Walk.Shape

/-! The shape of a tree, read off the lines of its events. A line does not tell a node from a role
of the same name. Still no two shapes have the same lines: after a line that enters a node or leaves
a role there can only be roles, and after one that enters a role or leaves a node only nodes. -/

set_option autoImplicit false

namespace SyntaxTree

theorem Role.mem_all (role : Role) : role ∈ Role.all := by cases role <;> decide

namespace Event

def isLeave : Event → Bool
  | .enterNode _ => false
  | .leaveNode _ => true
  | .enterRole .. => false
  | .leaveRole .. => true

theorem isLeave_of_text {e e' : Event} (h : e.text = e'.text) : e.isLeave = e'.isLeave := by
  have hchars := congrArg String.toList h
  cases e <;> cases e' <;> simp [text, isLeave] at hchars ⊢

theorem enterNode_text {kind kind' : NodeKind}
    (h : (enterNode kind).text = (enterNode kind').text) : kind = kind' := by
  have hname : kind.name = kind'.name := by simpa [text] using h
  exact NodeKind.name_inj hname

theorem enterRole_text {role role' : Role} {isList isList' : Bool}
    (h : (enterRole role isList).text = (enterRole role' isList').text) : role = role' := by
  have htexts : ((Role.all.product [false, true]).map fun e =>
    (enterRole e.1 e.2).text).Nodup := by decide
  have hmem (role : Role) (isList : Bool) :
      (role, isList) ∈ Role.all.product [false, true] :=
    List.pair_mem_product.2 ⟨role.mem_all, by simp⟩
  have hpair := List.inj_on_of_nodup_map htexts (hmem role isList) (hmem role' isList') h
  exact congrArg Prod.fst hpair

theorem text_lineless (e : Event) : '\n' ∉ e.text.toList := by
  have hkind (kind : NodeKind) : '\n' ∉ kind.name.toList := by
    have hall : ∀ kind ∈ NodeKind.all, '\n' ∉ kind.name.toList := by decide
    exact hall kind kind.mem_all
  have hrole (role : Role) : '\n' ∉ role.name.toList := by cases role <;> decide
  have hmark (isList : Bool) : '\n' ∉ (listMark isList).toList := by cases isList <;> decide
  cases e <;> simp [text, hkind, hrole, hmark]

theorem lines_cons (e : Event) (events : List Event) : (lines (e :: events)).toList =
    e.text.toList ++ '\n' :: (lines events).toList := by simp [lines]

theorem line_inj {line line' rest rest' : List Char} (h : '\n' ∉ line) (h' : '\n' ∉ line')
    (heq : line ++ '\n' :: rest = line' ++ '\n' :: rest') : line = line' ∧ rest = rest' := by
  rcases List.append_eq_append_iff.1 heq with ⟨more, rfl, hmore⟩ | ⟨more, rfl, hmore⟩
  · cases more with
    | nil => simpa using hmore
    | cons c more =>
      obtain ⟨rfl, -⟩ := List.cons.inj hmore
      simp at h'
  · cases more with
    | nil => simpa [eq_comm] using hmore
    | cons c more =>
      obtain ⟨rfl, -⟩ := List.cons.inj hmore
      simp at h

theorem map_text_of_lines {events events' : List Event} (h : lines events = lines events') :
    events.map text = events'.map text := by
  induction events generalizing events' with
  | nil =>
    cases events' with
    | nil => rfl
    | cons e' events' =>
      have hchars := congrArg String.toList h
      rw [lines_cons] at hchars
      simp [lines] at hchars
  | cons e events ih =>
    have hchars := congrArg String.toList h
    rw [lines_cons] at hchars
    cases events' with
    | nil => simp [lines] at hchars
    | cons e' events' =>
      rw [lines_cons] at hchars
      obtain ⟨hline, hrest⟩ := line_inj e.text_lineless e'.text_lineless hchars
      rw [List.map_cons, List.map_cons, String.toList_injective hline,
        ih (String.toList_injective hrest)]

end Event

namespace Node

def eventLines (node : Node) : List String := node.events.map Event.text

def slotLines (slot : Role × Slot) : List String := (slotEvents slot).map Event.text

theorem eventLines_eq (node : Node) (rest : List String) : node.eventLines ++ rest =
    (Event.enterNode node.kind).text ::
      (node.slots.flatMap slotLines ++ (Event.leaveNode node.kind).text :: rest) := by
  have hslots (slots : List (Role × Slot)) :
      (slots.flatMap slotEvents).map Event.text = slots.flatMap slotLines := List.map_flatMap
  simp [eventLines, events_eq, hslots]

theorem slotLines_eq {slot : Role × Slot} (h : slot.2.isWalked = true) (rest : List String) :
    slotLines slot ++ rest = (Event.enterRole slot.1 slot.2.isList).text ::
      (slot.2.children.flatMap eventLines ++
        (Event.leaveRole slot.1 slot.2.isList).text :: rest) := by
  have hnodes (nodes : List Node) :
      (nodes.flatMap events).map Event.text = nodes.flatMap eventLines := List.map_flatMap
  simp [slotLines, slotEvents, h, hnodes]

theorem slotLines_skipped {slot : Role × Slot} (h : slot.2.isWalked = false) :
    slotLines slot = [] := by simp [slotLines, slotEvents, h]

/-- Whether the shape of a tree and what follows its lines can be told from the lines. -/
def Legible (node : Node) : Prop :=
  ∀ (other : Node) (rest rest' : List String), node.eventLines ++ rest = other.eventLines ++ rest' →
    node.SameShape other ∧ rest = rest'

theorem children_legible {nodes nodes' : List Node} (h : ∀ node ∈ nodes, node.Legible)
    {e e' : Event} (he : e.isLeave = true) (he' : e'.isLeave = true) {rest rest' : List String}
    (hlines : nodes.flatMap eventLines ++ e.text :: rest =
      nodes'.flatMap eventLines ++ e'.text :: rest') :
    List.Forall₂ SameShape nodes nodes' ∧ e.text :: rest = e'.text :: rest' := by
  induction nodes generalizing nodes' with
  | nil =>
    cases nodes' with
    | nil => exact ⟨.nil, hlines⟩
    | cons node' nodes' =>
      rw [List.flatMap_cons, List.append_assoc, eventLines_eq] at hlines
      have hhead := Event.isLeave_of_text (List.cons.inj hlines).1
      rw [he] at hhead
      cases hhead
  | cons node nodes ih =>
    cases nodes' with
    | nil =>
      rw [List.flatMap_cons, List.append_assoc, eventLines_eq] at hlines
      have hhead := Event.isLeave_of_text (List.cons.inj hlines).1
      rw [he'] at hhead
      cases hhead
    | cons node' nodes' =>
      rw [List.flatMap_cons, List.flatMap_cons, List.append_assoc, List.append_assoc] at hlines
      obtain ⟨hsame, hrest⟩ := h node (by simp) _ _ _ hlines
      obtain ⟨hmore, hend⟩ := ih (fun n hn => h n (List.mem_cons_of_mem _ hn)) hrest
      exact ⟨.cons hsame hmore, hend⟩

theorem slotLines_head {role : Role} {isList : Bool} {slots : List (Role × Slot)}
    (h : role ∉ slots.map Prod.fst) {e : Event} (he : e.isLeave = true)
    {rest lines : List String} : slots.flatMap slotLines ++ e.text :: rest ≠
      (Event.enterRole role isList).text :: lines := by
  induction slots with
  | nil =>
    intro heq
    have hhead := Event.isLeave_of_text (List.cons.inj heq).1
    rw [he] at hhead
    cases hhead
  | cons slot slots ih =>
    simp only [List.map_cons, List.mem_cons, not_or] at h
    rw [List.flatMap_cons, List.append_assoc]
    cases hw : slot.2.isWalked with
    | false =>
      rw [slotLines_skipped hw]
      exact ih h.2
    | true =>
      rw [slotLines_eq hw]
      intro heq
      exact h.1 (Event.enterRole_text (List.cons.inj heq).1).symm

def SameRoles (slots slots' : List (Role × Slot)) : Prop :=
  List.Forall₂ (fun slot slot' => slot.1 = slot'.1 ∧ slot.2.isList = slot'.2.isList) slots slots'

theorem SameRoles.roles_eq {slots slots' : List (Role × Slot)} (h : SameRoles slots slots') :
    slots.map Prod.fst = slots'.map Prod.fst := by
  induction h with
  | nil => rfl
  | cons h _ ih => rw [List.map_cons, List.map_cons, h.1, ih]

theorem sameRoles_of_kind {a b : Node} (h : a.kind = b.kind) : SameRoles a.slots b.slots := by
  cases a <;> cases b <;> simp [kind] at h <;> simp [SameRoles, slots, Slot.isList, h]

theorem roles_nodup (node : Node) : (node.slots.map Prod.fst).Nodup := by
  cases node <;> simp [slots]

theorem slots_legible {slots slots' : List (Role × Slot)}
    (h : ∀ slot ∈ slots, ∀ node ∈ slot.2.children, node.Legible)
    (hroles : SameRoles slots slots') (hnodup : (slots.map Prod.fst).Nodup) {e : Event}
    (he : e.isLeave = true) {rest rest' : List String}
    (hlines : slots.flatMap slotLines ++ e.text :: rest =
      slots'.flatMap slotLines ++ e.text :: rest') :
    List.Forall₂ SameSlot slots slots' ∧ rest = rest' := by
  induction hroles with
  | nil => exact ⟨.nil, (List.cons.inj hlines).2⟩
  | @cons slot slot' slots slots' hslot hroles ih =>
    have hmap : slots.map Prod.fst = slots'.map Prod.fst := SameRoles.roles_eq hroles
    obtain ⟨hnew, hnodup⟩ := List.nodup_cons.1 hnodup
    have hmore := ih (fun s hs => h s (List.mem_cons_of_mem _ hs)) hnodup
    rw [List.flatMap_cons, List.flatMap_cons, List.append_assoc, List.append_assoc] at hlines
    cases hw : slot.2.isWalked with
    | false =>
      rw [slotLines_skipped hw] at hlines
      cases hw' : slot'.2.isWalked with
      | false =>
        rw [slotLines_skipped hw'] at hlines
        obtain ⟨hslots, hrest⟩ := hmore hlines
        have hchildren : List.Forall₂ SameShape slot.2.children slot'.2.children := by
          rw [children_of_skipped hw, children_of_skipped hw']
          exact .nil
        exact ⟨.cons ⟨hslot.1, hslot.2, hchildren⟩ hslots, hrest⟩
      | true =>
        rw [slotLines_eq hw', ← hslot.1] at hlines
        exact absurd hlines (slotLines_head hnew he)
    | true =>
      rw [slotLines_eq hw] at hlines
      cases hw' : slot'.2.isWalked with
      | false =>
        rw [slotLines_skipped hw'] at hlines
        rw [hmap] at hnew
        exact absurd hlines.symm (slotLines_head hnew he)
      | true =>
        rw [slotLines_eq hw'] at hlines
        obtain ⟨hchildren, htail⟩ :=
          children_legible (h slot (by simp)) rfl rfl (List.cons.inj hlines).2
        obtain ⟨hslots, hrest⟩ := hmore (List.cons.inj htail).2
        exact ⟨.cons ⟨hslot.1, hslot.2, hchildren⟩ hslots, hrest⟩

theorem legible (node : Node) : node.Legible := by
  induction node using Node.induction with
  | step node ih =>
    intro other rest rest' hlines
    rw [eventLines_eq, eventLines_eq] at hlines
    obtain ⟨henter, hlines⟩ := List.cons.inj hlines
    have hkind := Event.enterNode_text henter
    rw [← hkind] at hlines
    obtain ⟨hslots, hrest⟩ := slots_legible
      (fun slot hs child hc => ih child (mem_children.2 ⟨slot, hs, hc⟩))
      (sameRoles_of_kind hkind) node.roles_nodup rfl hlines
    exact ⟨sameShape_iff.2 ⟨hkind, hslots⟩, hrest⟩

end Node

end SyntaxTree
