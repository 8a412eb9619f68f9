import Mathlib.Algebra.GroupWithZero.Nat
import Mathlib.Data.List.Induction
import Mathlib.Data.List.Perm.Basic
import SyntaxTree.Proofs.Build.Levels

/-! Scoped lists in use. Closing a list hands out its items, which may be read from either end, all
of them or not. However that is done, the list goes on as lists within lists would, no cut ever lies
outside of the buffer, and every item that was added leaves once or is still there. -/

set_option autoImplicit false

namespace SyntaxTree

variable {α β : Type}

inductive End where
  | front
  | back
  deriving DecidableEq, Repr

namespace End

def read : End → List α → Option α × List α
  | .front, items => (items.head?, items.tail)
  | .back, items => (items.getLast?, items.dropLast)

def readAll : List End → List α → List (Option α) × List α
  | [], items => ([], items)
  | e :: ends, items =>
    let (item, items) := e.read items
    let (more, left) := readAll ends items
    (item :: more, left)

theorem read_perm (e : End) (items : List α) :
    ((e.read items).1.toList ++ (e.read items).2).Perm items := by
  cases e with
  | front => cases items <;> simp [read]
  | back =>
    rcases List.eq_nil_or_concat items with rfl | ⟨items, item, rfl⟩
    · simp [read]
    · simpa [read] using (List.perm_append_singleton item items).symm

theorem readAll_perm (ends : List End) (items : List α) :
    ((readAll ends items).1.filterMap id ++ (readAll ends items).2).Perm items := by
  induction ends generalizing items with
  | nil => simp [readAll]
  | cons e ends ih =>
    have hfirst := e.read_perm items
    have hrest := (ih (e.read items).2).append_left (e.read items).1.toList
    have hitems : (readAll (e :: ends) items).1.filterMap id =
        (e.read items).1.toList ++ (readAll ends (e.read items).2).1.filterMap id := by
      cases h : (e.read items).1 <;> simp [readAll, h]
    rw [hitems, List.append_assoc]
    exact hrest.trans hfirst

theorem readAll_front (items : List α) :
    readAll (List.replicate items.length .front) items = (items.map some, []) := by
  induction items with
  | nil => rfl
  | cons item items ih => simp [List.replicate_succ, readAll, read, ih]

theorem readAll_back (items : List α) :
    readAll (List.replicate items.length .back) items = (items.reverse.map some, []) := by
  induction items using List.reverseRecOn with
  | nil => rfl
  | append_singleton items item ih => simp [List.replicate_succ, readAll, read, ih]

theorem read_map (f : α → β) (e : End) (items : List α) :
    e.read (items.map f) = ((e.read items).1.map f, (e.read items).2.map f) := by
  cases e <;> simp [read]

theorem readAll_map (f : α → β) (ends : List End) (items : List α) :
    readAll ends (items.map f) =
      ((readAll ends items).1.map (Option.map f), (readAll ends items).2.map f) := by
  induction ends generalizing items with
  | nil => rfl
  | cons e ends ih => simp [readAll, read_map, ih]

end End

/-- What becomes of the items of a list that is closed: the answers to those who read it, and the
items that nobody has read. -/
structure Removal (α : Type) where
  answers : List (Option α)
  dropped : List α

namespace Removal

def none : Removal α := ⟨[], []⟩

def items (removal : Removal α) : List α := removal.answers.filterMap id ++ removal.dropped

def map (f : α → β) (removal : Removal α) : Removal β :=
  ⟨removal.answers.map (Option.map f), removal.dropped.map f⟩

end Removal

structure Drain (α : Type) where
  before : Array α
  left : List α
  behind : Array α

namespace Drain

def start? (items : Array α) (first last : Nat) : Option (Drain α) :=
  if first ≤ last ∧ last ≤ items.size then
    some ⟨items.take first, (items.toList.take last).drop first, items.extract last items.size⟩
  else none

def read (drain : Drain α) (e : End) : Option α × Drain α :=
  ((e.read drain.left).1, { drain with left := (e.read drain.left).2 })

def readAll (drain : Drain α) : List End → List (Option α) × Drain α
  | [] => ([], drain)
  | e :: ends =>
    let (item, drain) := drain.read e
    let (more, drain) := drain.readAll ends
    (item :: more, drain)

def close (drain : Drain α) : Array α := drain.before ++ drain.behind

theorem readAll_eq (drain : Drain α) (ends : List End) :
    drain.readAll ends = ((End.readAll ends drain.left).1,
      { drain with left := (End.readAll ends drain.left).2 }) := by
  induction ends generalizing drain with
  | nil => rfl
  | cons e ends ih => simp [readAll, End.readAll, ih, read]

end Drain

/-- What a scoped list can be asked to do. To close a list is to say from which ends it is read. -/
inductive ListOperation (α : Type) where
  | add (item : α)
  | push
  | pop (ends : List End)
  | reset

namespace ListOperation

def map (f : α → β) : ListOperation α → ListOperation β
  | .add item => .add (f item)
  | .push => .push
  | .pop ends => .pop ends
  | .reset => .reset

def item? : ListOperation α → Option α
  | .add item => some item
  | _ => none

def numbered : Nat → List (ListOperation α) → List (ListOperation (Nat × α))
  | _, [] => []
  | n, .add item :: operations => .add (n, item) :: numbered (n + 1) operations
  | n, .push :: operations => .push :: numbered n operations
  | n, .pop ends :: operations => .pop ends :: numbered n operations
  | n, .reset :: operations => .reset :: numbered n operations

def added (operations : List (ListOperation α)) : List α := operations.filterMap item?

theorem map_numbered (n : Nat) (operations : List (ListOperation α)) :
    (numbered n operations).map (map Prod.snd) = operations := by
  induction operations generalizing n with
  | nil => rfl
  | cons operation operations ih => cases operation <;> simp [numbered, map, ih]

theorem added_cons (operation : ListOperation α) (operations : List (ListOperation α)) :
    added (operation :: operations) = operation.item?.toList ++ added operations := by
  cases h : operation.item? <;> simp [added, h]

theorem added_numbered (n : Nat) (operations : List (ListOperation α)) :
    (added (numbered n operations)).map Prod.fst = List.range' n (added operations).length := by
  induction operations generalizing n with
  | nil => rfl
  | cons operation operations ih =>
    cases operation <;> simp [numbered, added_cons, item?, ih, List.range'_succ]

end ListOperation

namespace ScopedList

def slice? (list : ScopedList α) : Option (List α) :=
  if list.cut ≤ list.size then some (list.items.toList.drop list.cut) else none

def close? (list : ScopedList α) (ends : List End) : Option (Removal α × ScopedList α) := do
  let drain ← Drain.start? list.items list.cut list.size
  let (answers, drain) := drain.readAll ends
  some (⟨answers, drain.left⟩, ⟨drain.close, list.cuts.tail⟩)

def step? (list : ScopedList α) : ListOperation α → Option (Removal α × ScopedList α)
  | .add item => some (.none, list.add item)
  | .push => some (.none, list.push)
  | .pop ends => list.close? ends
  | .reset => some (⟨[], list.items.toList⟩, .empty)

def run? (list : ScopedList α) :
    List (ListOperation α) → Option (List (Removal α) × ScopedList α)
  | [] => some ([], list)
  | operation :: operations => do
    let (removal, next) ← list.step? operation
    let (removals, last) ← next.run? operations
    some (removal :: removals, last)

end ScopedList

namespace Levels

def step (levels : Levels α) : ListOperation α → Removal α × Levels α
  | .add item => (.none, levels.add item)
  | .push => (.none, levels.push)
  | .pop ends =>
    (⟨(End.readAll ends levels.innermost).1, (End.readAll ends levels.innermost).2⟩, levels.pop)
  | .reset => (⟨[], levels.items⟩, .empty)

def run (levels : Levels α) : List (ListOperation α) → List (Removal α) × Levels α
  | [] => ([], levels)
  | operation :: operations =>
    let (removal, next) := levels.step operation
    let (removals, last) := next.run operations
    (removal :: removals, last)

theorem items_length (levels : Levels α) :
    levels.items.length = levels.bottom.length + (levels.scopes.map List.length).sum := by
  obtain ⟨scopes, bottom⟩ := levels
  induction scopes with
  | nil => simp
  | cons scope scopes ih => simp [ih]; omega

theorem step_perm (levels : Levels α) (operation : ListOperation α) :
    (levels.items ++ operation.item?.toList).Perm
      ((levels.step operation).1.items ++ (levels.step operation).2.items) := by
  cases operation with
  | add item => simp [step, Removal.none, Removal.items, ListOperation.item?, items_add]
  | push => simp [step, Removal.none, Removal.items, ListOperation.item?, items_push]
  | pop ends =>
    have hread := (End.readAll_perm ends levels.innermost).symm.append_left levels.pop.items
    rw [← items_pop] at hread
    simpa [step, Removal.items, ListOperation.item?] using hread.trans List.perm_append_comm
  | reset => simp [step, Removal.items, ListOperation.item?, Levels.empty]

/-- Every item has been removed once or is still there. -/
theorem run_perm (levels : Levels α) (operations : List (ListOperation α)) :
    (levels.items ++ ListOperation.added operations).Perm
      ((levels.run operations).1.flatMap Removal.items ++ (levels.run operations).2.items) := by
  induction operations generalizing levels with
  | nil => simp [run, ListOperation.added]
  | cons operation operations ih =>
    have hfirst := (levels.step_perm operation).append_right (ListOperation.added operations)
    have hrest := (ih (levels.step operation).2).append_left (levels.step operation).1.items
    rw [ListOperation.added_cons, ← List.append_assoc]
    rw [List.append_assoc (levels.step operation).1.items] at hfirst
    simpa [run] using hfirst.trans hrest

theorem step_map (f : α → β) (levels : Levels α) (operation : ListOperation α) :
    (levels.map f).step (operation.map f) =
      ((levels.step operation).1.map f, (levels.step operation).2.map f) := by
  cases operation with
  | add item => simp [step, ListOperation.map, map_add, Removal.map, Removal.none]
  | push => rfl
  | pop ends =>
    simp [step, ListOperation.map, innermost_map, map_pop, End.readAll_map, Removal.map]
  | reset =>
    have hitems := levels.items_map f
    simp [step, ListOperation.map, hitems, Removal.map]
    rfl

theorem run_map (f : α → β) (levels : Levels α) (operations : List (ListOperation α)) :
    (levels.map f).run (operations.map (ListOperation.map f)) =
      ((levels.run operations).1.map (Removal.map f), (levels.run operations).2.map f) := by
  induction operations generalizing levels with
  | nil => rfl
  | cons operation operations ih => simp [run, step_map, ih]

theorem starts_le (scopes : List (List α)) (bottom : List α) :
    ∀ cut ∈ starts scopes bottom, cut ≤ (items ⟨scopes, bottom⟩).length := by
  induction scopes with
  | nil => simp [starts]
  | cons scope scopes ih =>
    intro cut hcut
    rw [items_cons, List.length_append]
    rcases List.mem_cons.1 hcut with rfl | hcut
    · omega
    · have hle := ih cut hcut
      omega

theorem starts_sorted (scopes : List (List α)) (bottom : List α) :
    (starts scopes bottom).Pairwise (· ≥ ·) := by
  induction scopes with
  | nil => exact .nil
  | cons scope scopes ih => exact .cons (starts_le scopes bottom) ih

end Levels

namespace ScopedList

variable {list : ScopedList α} {levels : Levels α}

namespace Holds

theorem size (h : list.Holds levels) : list.size = levels.items.length := by
  rw [ScopedList.size, ← Array.length_toList, h.items]

theorem cuts_sorted (h : list.Holds levels) : list.cuts.reverse.Pairwise (· ≤ ·) := by
  rw [h.cuts, List.pairwise_reverse]
  exact Levels.starts_sorted levels.scopes levels.bottom

theorem cuts_le (h : list.Holds levels) : ∀ cut ∈ list.cuts, cut ≤ list.size := by
  rw [h.cuts, h.size]
  exact Levels.starts_le levels.scopes levels.bottom

theorem cut_le (h : list.Holds levels) : list.cut ≤ list.size := by
  have hitems := congrArg List.length levels.items_pop
  rw [List.length_append] at hitems
  rw [h.cut, h.size]
  omega

theorem slice?_eq (h : list.Holds levels) : list.slice? = some list.current := if_pos h.cut_le

theorem close?_eq (h : list.Holds levels) (ends : List End) :
    list.close? ends = some (⟨(End.readAll ends levels.innermost).1,
      (End.readAll ends levels.innermost).2⟩, list.pop.2) := by
  have hstart : Drain.start? list.items list.cut list.size =
      some ⟨list.items.take list.cut, levels.innermost, #[]⟩ := by
    have hleft : (list.items.toList.take list.size).drop list.cut = levels.innermost := by
      rw [ScopedList.size, ← Array.length_toList, List.take_length, ← h.current]
      rfl
    have hrange : list.cut ≤ list.size ∧ list.size ≤ list.items.size :=
      ⟨h.cut_le, Nat.le_refl list.size⟩
    rw [Drain.start?, if_pos hrange, hleft]
    simp [ScopedList.size]
  simp [close?, hstart, Drain.readAll_eq, Drain.close, ScopedList.pop]

theorem step?_eq (h : list.Holds levels) (operation : ListOperation α) :
    ∃ next, list.step? operation = some ((levels.step operation).1, next) ∧
      next.Holds (levels.step operation).2 := by
  cases operation with
  | add item => exact ⟨_, rfl, h.add item⟩
  | push => exact ⟨_, rfl, h.push⟩
  | pop ends => exact ⟨_, h.close?_eq ends, h.pop_snd⟩
  | reset => exact ⟨_, by simp [step?, Levels.step, h.items], holds_empty⟩

theorem run?_eq (h : list.Holds levels) (operations : List (ListOperation α)) :
    ∃ last, list.run? operations = some ((levels.run operations).1, last) ∧
      last.Holds (levels.run operations).2 := by
  induction operations generalizing list levels with
  | nil => exact ⟨list, rfl, h⟩
  | cons operation operations ih =>
    obtain ⟨next, hstep, hnext⟩ := h.step?_eq operation
    obtain ⟨last, hrun, hlast⟩ := ih hnext
    exact ⟨last, by simp [run?, hstep, hrun, Levels.run], hlast⟩

end Holds

/-- What is seen of a scoped list is what is seen of lists within lists, with the cuts in order and
all ranges within the buffer. Once its innermost list has been closed, it makes no difference how
that was read. -/
structure Shows (list : ScopedList α) (levels : Levels α) : Prop where
  cuts_sorted : list.cuts.reverse.Pairwise (· ≤ ·)
  cuts_le : ∀ cut ∈ list.cuts, cut ≤ list.size
  slice : list.slice? = some list.current
  current : list.current = levels.innermost
  popped : list.pop.1 = levels.innermost
  depth : list.depth = levels.scopes.length
  size : list.size = levels.bottom.length + (levels.scopes.map List.length).sum
  closed : ∀ ends, list.close? ends = some (⟨(End.readAll ends levels.innermost).1,
    (End.readAll ends levels.innermost).2⟩, list.pop.2)
  read : list.close? (List.replicate levels.innermost.length .front) =
    some (⟨levels.innermost.map some, []⟩, list.pop.2)
  readBack : list.close? (List.replicate levels.innermost.length .back) =
    some (⟨levels.innermost.reverse.map some, []⟩, list.pop.2)
  rest : list.pop.2.Holds levels.pop

theorem Holds.shows {list : ScopedList α} {levels : Levels α} (h : list.Holds levels) :
    list.Shows levels := by
  refine ⟨h.cuts_sorted, h.cuts_le, h.slice?_eq, h.current, h.current, h.depth, ?_, h.close?_eq,
    ?_, ?_, h.pop_snd⟩
  · rw [h.size, Levels.items_length]
  · rw [h.close?_eq, End.readAll_front]
  · rw [h.close?_eq, End.readAll_back]

/-- With a number on every item, no number is among those removed and those still there twice, and
none is lost. -/
structure LeavesOnce (operations : List (ListOperation α))
    (marked : List (Removal (Nat × α)) × Levels (Nat × α)) : Prop where
  removals : (Levels.empty.run operations).1 = marked.1.map (Removal.map Prod.snd)
  levels : (Levels.empty.run operations).2 = marked.2.map Prod.snd
  numbers : ((marked.1.flatMap Removal.items ++ marked.2.items).map Prod.fst).Perm
    (List.range (ListOperation.added operations).length)

theorem leavesOnce (operations : List (ListOperation α)) :
    LeavesOnce operations (Levels.empty.run (ListOperation.numbered 0 operations)) := by
  have hmap := Levels.empty.run_map (Prod.snd (α := Nat) (β := α))
    (ListOperation.numbered 0 operations)
  rw [ListOperation.map_numbered] at hmap
  have hperm := (Levels.empty.run_perm (ListOperation.numbered 0 operations)).map Prod.fst
  rw [List.map_append, ListOperation.added_numbered, ← List.range_eq_range'] at hperm
  exact ⟨congrArg Prod.fst hmap, congrArg Prod.snd hmap, hperm.symm⟩

/-- Whatever is done with a scoped list, no range is ever out of bounds, what is read and kept is
that of lists within lists, and every item leaves at one moment only or is still there. -/
theorem run?_acts_as_levels (operations : List (ListOperation α)) :
    (∃ list : ScopedList α,
      empty.run? operations = some ((Levels.empty.run operations).1, list) ∧
        list.Shows (Levels.empty.run operations).2) ∧
    LeavesOnce operations (Levels.empty.run (ListOperation.numbered 0 operations)) := by
  obtain ⟨list, hrun, hlist⟩ := holds_empty.run?_eq operations
  exact ⟨⟨list, hrun, hlist.shows⟩, leavesOnce operations⟩

end ScopedList

end SyntaxTree
