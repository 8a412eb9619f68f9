import Mathlib.Data.List.Find
import SyntaxTree.Proofs.Build.Ledger

set_option autoImplicit false

namespace SyntaxTree

def Reply.isError : Reply → Bool
  | .node (.error _) => true
  | .nodes (.error _) => true
  | _ => false

namespace TreeBuilder

variable {builder : TreeBuilder} {scopes : Scopes} {ledger : Ledger}

theorem tells_run (h : builder.Refines scopes) (ht : ledger.Tells scopes)
    {operations : List Operation} (hfit : scopes.Fits operations) :
    Ledger.Tells ((operations.zip (scopes.run operations).1).foldl Ledger.enter ledger)
      (scopes.run operations).2 := by
  induction operations generalizing builder scopes ledger with
  | nil => exact ht
  | cons operation operations ih =>
    have hnext := (h.step_eq hfit.1 operation).2
    exact ih hnext (ht.step h.valid hfit.1 operation) hfit.2

namespace Refines

theorem take_error_unchanged (h : builder.Refines scopes) {id : NodeId} {error : BuildError}
    (he : (builder.take id).1 = .error error) : (builder.take id).2 = builder := by
  by_cases hi : id.index < scopes.stored
  · have hslot := h.slot_eq hi
    cases hn : scopes.node? id.index with
    | none =>
      rw [hn] at hslot
      simp [take, Arena.take_taken hslot]
    | some node =>
      rw [hn] at hslot
      simp [take, Arena.take_held hslot] at he
  · have ht := Arena.take_unknown (h.slot_ge (Nat.le_of_not_lt hi))
    simp [take, ht]

/-- An operation that fails leaves all as it was. -/
theorem step_error_unchanged (h : builder.Refines scopes) (hfit : scopes.stored < UInt32.size)
    {operation : Operation} (he : (builder.step operation).1.isError = true) :
    (builder.step operation).2 = builder := by
  cases operation with
  | openList => cases he
  | emit node => cases he
  | alloc node => cases he
  | take id =>
    cases hr : (builder.take id).1 with
    | ok node => simp [step, hr, Reply.isError] at he
    | error error => exact h.take_error_unchanged hr
  | closeList =>
    cases ht : scopes.levels.innermost.find? Child.taken with
    | some child => simp [step, h.closeList_taken hfit ht]
    | none =>
      obtain ⟨arena, hclose, -, -⟩ := h.closeList_held hfit ht
      simp [step, hclose, Reply.isError] at he
  | finish root =>
    by_cases hopen : builder.depth > 0
    · simp [step, finish, hopen]
    · simp [step, finish, hopen, Reply.isError] at he
  | reset => cases he

theorem find?_moved (h : builder.Refines scopes) (ht : ledger.Tells scopes)
    (hfit : scopes.stored < UInt32.size) :
    ledger.lists.innermost.find? (· ∈ ledger.moved) =
      (scopes.levels.innermost.find? Child.taken).map Child.nodeId := by
  rw [ht.lists, Levels.innermost_map, List.find?_map]
  congr 1
  refine List.find?_congr fun child hc => ?_
  have htaken := ht.taken_iff h.valid hfit (mem_innermost hc)
  rw [Bool.eq_iff_iff, htaken]
  exact decide_eq_true_iff

theorem closeList_error_iff (h : builder.Refines scopes) (ht : ledger.Tells scopes)
    (hfit : scopes.stored < UInt32.size) {error : BuildError} :
    builder.closeList.1 = .error error ↔
      ∃ id, ledger.lists.innermost.find? (· ∈ ledger.moved) = some id ∧
        error = .alreadyTaken id := by
  rw [h.find?_moved ht hfit]
  cases hfind : scopes.levels.innermost.find? Child.taken with
  | some child =>
    rw [h.closeList_taken hfit hfind]
    simp [eq_comm]
  | none =>
    obtain ⟨arena, hclose, -, -⟩ := h.closeList_held hfit hfind
    rw [hclose]
    simp

theorem take_cases (h : builder.Refines scopes) (ht : ledger.Tells scopes) (id : NodeId) :
    (id ∉ ledger.handed ∧ id ∉ ledger.moved ∧ (builder.take id).1 = .error (.unknownNode id)) ∨
    (id ∈ ledger.handed ∧ id ∈ ledger.moved ∧ (builder.take id).1 = .error (.alreadyTaken id)) ∨
    (id ∈ ledger.handed ∧ id ∉ ledger.moved ∧ ∃ node, (builder.take id).1 = .ok node) := by
  rw [ht.handed, ht.moved]
  by_cases hi : id.index < scopes.stored
  · have hslot := h.slot_eq hi
    cases hn : scopes.node? id.index with
    | none =>
      have hall : ∀ child ∈ scopes.children, child.id = id.index → child.taken = true :=
        fun child hc => h.valid.node?_eq_none hn hc
      rw [hn] at hslot
      exact .inr (.inl ⟨hi, ⟨hi, hall⟩, by simp [take, Arena.take_taken hslot]⟩)
    | some node =>
      obtain ⟨child, hc, hid, hheld⟩ := Scopes.node?_eq_some hn
      have hnot : ¬ ∀ child ∈ scopes.children, child.id = id.index → child.taken = true :=
        fun hall => by simp [hall child hc hid] at hheld
      rw [hn] at hslot
      exact .inr (.inr ⟨hi, fun hm => hnot hm.2, node, by simp [take, Arena.take_held hslot]⟩)
  · have htake := Arena.take_unknown (h.slot_ge (Nat.le_of_not_lt hi))
    exact .inl ⟨hi, fun hm => hi hm.1, by simp [take, htake]⟩

theorem takeAll_of_check (h : builder.Refines scopes) (hfit : scopes.stored < UInt32.size)
    (hcheck : builder.lists.current.forM builder.arena.check = .ok ()) :
    ∃ nodes arena, builder.arena.takeAll builder.lists.current = (.ok nodes, arena) := by
  cases hfind : scopes.levels.innermost.find? Child.taken with
  | some child =>
    rw [h.current_eq, forM_check fun child hc => h.slot_innermost hfit hc, hfind] at hcheck
    cases hcheck
  | none =>
    obtain ⟨arena, hclose, -, -⟩ := h.closeList_held hfit hfind
    refine ⟨scopes.levels.innermost.map Child.node, arena, ?_⟩
    simp only [closeList, hcheck, ScopedList.pop, Prod.mk.injEq, mk.injEq] at hclose
    exact Prod.ext hclose.1 hclose.2.1

end Refines

/-- When and how the operations of a builder fail, for a ledger of its ids. -/
structure FailsBy (builder : TreeBuilder) (ledger : Ledger) : Prop where
  depth_eq : builder.depth = ledger.lists.scopes.length
  /-- A list is the whole buffer if none is open. -/
  closeList_fails : (∃ error, builder.closeList.1 = .error error) ↔
    ∃ id ∈ ledger.lists.innermost, id ∈ ledger.moved
  /-- The error names the first node that has been moved out. -/
  closeList_error : ∀ error, builder.closeList.1 = .error error ↔
    ∃ id, ledger.lists.innermost.find? (· ∈ ledger.moved) = some id ∧ error = .alreadyTaken id
  takeAll_ok : builder.lists.current.forM builder.arena.check = .ok () →
    ∃ nodes arena, builder.arena.takeAll builder.lists.current = (.ok nodes, arena)
  take_unknown : ∀ id, (builder.take id).1 = .error (.unknownNode id) ↔ id ∉ ledger.handed
  take_moved : ∀ id, (builder.take id).1 = .error (.alreadyTaken id) ↔ id ∈ ledger.moved
  take_ok : ∀ id, (∃ node, (builder.take id).1 = .ok node) ↔
    id ∈ ledger.handed ∧ id ∉ ledger.moved
  finish_eq : ∀ root, builder.finish root =
    if 0 < builder.depth then (.error (.unbalancedLists builder.depth), builder)
    else (.ok root, empty)
  unchanged : ∀ operation, (builder.step operation).1.isError = true →
    (builder.step operation).2 = builder

/-- In every state that a builder can reach while its ids do not run out, the history decides what
fails and how, and what fails changes nothing. -/
theorem run_failsBy (operations : List Operation) (hfit : Scopes.empty.Fits operations) :
    (empty.run operations).2.FailsBy
      (.ofHistory (operations.zip (empty.run operations).1)) := by
  obtain ⟨hreplies, h⟩ := refines_empty.run_eq hfit
  have ht := tells_run refines_empty Ledger.tells_empty hfit
  have hlast := hfit.stored_lt
  rw [← hreplies] at ht
  rw [Ledger.ofHistory]
  generalize (operations.zip (empty.run operations).1).foldl Ledger.enter .empty = ledger at ht ⊢
  constructor
  · rw [h.depth_eq, ht.lists]
    exact (List.length_map ..).symm
  · simp only [h.closeList_error_iff ht hlast]
    constructor
    · rintro ⟨_, id, hfind, -⟩
      exact ⟨id, List.mem_of_find?_eq_some hfind, by simpa using List.find?_some hfind⟩
    · rintro ⟨id, hid, hmoved⟩
      cases hfind : ledger.lists.innermost.find? (· ∈ ledger.moved) with
      | some first => exact ⟨_, first, rfl, rfl⟩
      | none => exact absurd hmoved (by simpa using List.find?_eq_none.1 hfind id hid)
  · exact fun error => h.closeList_error_iff ht hlast
  · exact h.takeAll_of_check hlast
  · intro id
    rcases h.take_cases ht id with ⟨h₁, h₂, h₃⟩ | ⟨h₁, h₂, h₃⟩ | ⟨h₁, h₂, node, h₃⟩ <;>
      simp [h₁, h₃]
  · intro id
    rcases h.take_cases ht id with ⟨h₁, h₂, h₃⟩ | ⟨h₁, h₂, h₃⟩ | ⟨h₁, h₂, node, h₃⟩ <;>
      simp [h₂, h₃]
  · intro id
    rcases h.take_cases ht id with ⟨h₁, h₂, h₃⟩ | ⟨h₁, h₂, h₃⟩ | ⟨h₁, h₂, node, h₃⟩ <;>
      simp [h₁, h₂, h₃]
  · exact fun root => rfl
  · exact fun operation => h.step_error_unchanged hlast

def lostChildren : List Operation :=
  let leaf (value : String) : Node := .leaf .identifier {} value
  [.openList, .emit (leaf "a"), .openList, .emit (leaf "b"), .emit (leaf "c"), .emit (leaf "d"),
    .take ⟨3⟩, .take ⟨0⟩, .take ⟨2⟩, .take ⟨2⟩]

theorem lostChildren_fails : Scopes.empty.Fits lostChildren ∧
    (empty.run lostChildren).2.closeList =
      (.error (.alreadyTaken ⟨2⟩), (empty.run lostChildren).2) := by
  have hfit : Scopes.empty.Fits lostChildren := Scopes.fits_of_length (by decide)
  have hfails := run_failsBy lostChildren hfit
  have herror : (empty.run lostChildren).2.closeList.1 = .error (.alreadyTaken ⟨2⟩) :=
    (hfails.closeList_error _).2 ⟨⟨2⟩, by decide +kernel, rfl⟩
  have hsame := hfails.unchanged .closeList (by simp [step, herror, Reply.isError])
  exact ⟨hfit, Prod.ext herror hsame⟩

end TreeBuilder

end SyntaxTree
