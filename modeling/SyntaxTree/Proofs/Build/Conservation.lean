import Mathlib.Data.List.Forall2
import SyntaxTree.Proofs.Build.Failures

/-! No node is lost and none is doubled. What has been given to a builder since it was last empty
has been handed out, once, or is still stored. -/

set_option autoImplicit false

namespace SyntaxTree

namespace Arena

variable {arena after : Arena} {id : NodeId} {node : Node}

def held (arena : Arena) : List Node := arena.slots.toList.filterMap (fun slot => slot)

/-- Whether the counter of an arena tells how many nodes it holds. -/
def IsCounted (arena : Arena) : Prop := arena.live = arena.held.length

theorem alloc_held (arena : Arena) (node : Node) :
    (arena.alloc node).2.held = arena.held ++ [node] := by simp [alloc, held]

theorem IsCounted.alloc (h : arena.IsCounted) (node : Node) : (arena.alloc node).2.IsCounted := by
  rw [IsCounted, alloc_held, List.length_append, ← h]
  rfl

theorem filterMap_set_perm {slots : List (Option Node)} {i : Nat}
    (h : slots[i]? = some (some node)) : (slots.filterMap (fun slot => slot)).Perm
      (node :: (slots.set i none).filterMap (fun slot => slot)) := by
  induction slots generalizing i with
  | nil => cases h
  | cons slot slots ih =>
    cases i with
    | zero =>
      cases h
      exact .refl _
    | succ i =>
      have hrest := ih h
      cases slot with
      | none => exact hrest
      | some other => exact (hrest.cons other).trans (.swap ..)

/-- Nodes have been taken one after another: each was the one held under its id, and nothing else
has changed. -/
structure Yields (arena : Arena) (ids : List NodeId) (nodes : List Node) (after : Arena) :
    Prop where
  owned : List.Forall₂ (fun id node => arena.slots[id.index]? = some (some node)) ids nodes
  nodup : ids.Nodup
  held : arena.held.Perm (nodes ++ after.held)
  counted : arena.IsCounted → after.IsCounted
  size : after.slots.size = arena.slots.size
  slots : ∀ i, after.slots[i]? =
    if i ∈ ids.map NodeId.index then some none else arena.slots[i]?

theorem Yields.refl : arena.Yields [] [] arena :=
  ⟨.nil, List.nodup_nil, .refl _, fun hcounted => hcounted, rfl, fun _ => rfl⟩

theorem take_eq_ok (h : arena.take id = (.ok node, after)) :
    arena.slots[id.index]? = some (some node) ∧
      after = ⟨arena.slots.setIfInBounds id.index none, arena.live - 1⟩ := by
  cases hslot : arena.slots[id.index]? with
  | none => simp [take_unknown hslot] at h
  | some slot =>
    cases slot with
    | none => simp [take_taken hslot] at h
    | some held =>
      rw [take_held hslot] at h
      cases h
      exact ⟨rfl, rfl⟩

theorem take_yields (h : arena.take id = (.ok node, after)) : arena.Yields [id] [node] after := by
  obtain ⟨hslot, rfl⟩ := take_eq_ok h
  have hlist : arena.slots.toList[id.index]? = some (some node) := by
    rw [Array.getElem?_toList]
    exact hslot
  have hheld : arena.held.Perm
      (node :: held ⟨arena.slots.setIfInBounds id.index none, arena.live - 1⟩) := by
    rw [held, held, Array.toList_setIfInBounds]
    exact filterMap_set_perm hlist
  constructor
  · exact .cons hslot .nil
  · exact List.nodup_singleton id
  · exact hheld
  · intro hcounted
    have hlength := hheld.length_eq
    rw [IsCounted] at hcounted ⊢
    rw [List.length_cons, ← hcounted] at hlength
    simp only
    omega
  · exact Array.size_setIfInBounds
  · intro i
    rw [getElem?_set_none arena.slots hslot]
    simp

theorem Yields.cons {mid : Arena} {ids : List NodeId} {nodes : List Node}
    (h : arena.Yields [id] [node] mid) (ht : mid.Yields ids nodes after) :
    arena.Yields (id :: ids) (node :: nodes) after := by
  have hmid (other : NodeId) (n : Node) (hslot : mid.slots[other.index]? = some (some n)) :
      other ≠ id ∧ arena.slots[other.index]? = some (some n) := by
    rw [h.slots] at hslot
    split at hslot
    · cases hslot
    · next hne => exact ⟨fun he => hne (by simp [he]), hslot⟩
  have hids : id ∉ ids := by
    intro hmem
    obtain ⟨i, hi, rfl⟩ := List.getElem_of_mem hmem
    have hlength := ht.owned.length_eq
    exact (hmid _ _ (ht.owned.get hi (hlength ▸ hi))).1 rfl
  constructor
  · exact .cons (List.forall₂_cons.1 h.owned).1
      (ht.owned.imp fun other n hslot => (hmid other n hslot).2)
  · exact List.nodup_cons.2 ⟨hids, ht.nodup⟩
  · exact h.held.trans (ht.held.cons node)
  · exact fun hcounted => ht.counted (h.counted hcounted)
  · exact ht.size.trans h.size
  · intro i
    rw [ht.slots, h.slots]
    by_cases hi : i ∈ ids.map NodeId.index
    · simp [hi]
    · simp [hi]

theorem takeAll_yields {ids : List NodeId} {nodes : List Node}
    (h : arena.takeAll ids = (.ok nodes, after)) : arena.Yields ids nodes after := by
  induction ids generalizing arena nodes with
  | nil =>
    cases h
    exact .refl
  | cons id ids ih =>
    rw [takeAll] at h
    split at h
    · cases h
    · next node mid htake =>
      split at h
      · cases h
      · next rest last hrest =>
        cases h
        exact (take_yields htake).cons (ih hrest)

end Arena

/-- The nodes given to a builder, under the ids it answered with, and the nodes it has handed
out. -/
structure Account where
  given : List (NodeId × Node)
  out : List Node

namespace Account

def empty : Account := ⟨[], []⟩

def enter (account : Account) : Operation × Reply → Account
  | (.emit node, .id id) => { account with given := (id, node) :: account.given }
  | (.alloc node, .id id) => { account with given := (id, node) :: account.given }
  | (.take _, .node (.ok node)) => { account with out := node :: account.out }
  | (.closeList, .nodes (.ok nodes)) => { account with out := nodes ++ account.out }
  | (.finish _, .node (.ok _)) => empty
  | (.reset, _) => empty
  | _ => account

def ofHistory (history : List (Operation × Reply)) : Account := history.foldl enter empty

end Account

namespace TreeBuilder

/-- An account and a ledger of the same history agree with what a builder holds. -/
structure Balances (builder : TreeBuilder) (account : Account) (ledger : Ledger) : Prop where
  conserved : (account.given.map Prod.snd).Perm (account.out ++ builder.arena.held)
  pending_eq : builder.pending = builder.arena.held.length
  distinct : (account.given.map Prod.fst).Nodup
  /-- No id has handed out its node twice. -/
  once : ledger.moved.Nodup
  /-- What an id has handed out is what was given under it. -/
  own : List.Forall₂ (fun id node => (id, node) ∈ account.given) ledger.moved account.out
  stored : ∀ entry ∈ account.given, entry.1.index < builder.arena.slots.size
  known : ∀ id node, builder.arena.slots[id.index]? = some (some node) → (id, node) ∈ account.given
  emptied : ∀ id ∈ ledger.moved, builder.arena.slots[id.index]? = some none

namespace Balances

variable {builder : TreeBuilder} {account : Account} {ledger : Ledger}

theorem empty_balances : empty.Balances .empty .empty where
  conserved := .refl _
  pending_eq := rfl
  distinct := List.nodup_nil
  once := List.nodup_nil
  own := .nil
  stored := nofun
  known := nofun
  emptied := nofun

theorem give (h : builder.Balances account ledger)
    (hfit : builder.arena.slots.size < UInt32.size) (node : Node) (lists : ScopedList NodeId)
    {next : Ledger} (hmoved : next.moved = ledger.moved) :
    Balances ⟨(builder.arena.alloc node).2, lists⟩
      { account with given := ((builder.arena.alloc node).1, node) :: account.given } next := by
  have hindex : (builder.arena.alloc node).1.index = builder.arena.slots.size := by
    rw [Arena.alloc, NodeId.index, UInt32.toNat_ofNat']
    exact Nat.mod_eq_of_lt hfit
  have hslots (i : Nat) : (builder.arena.alloc node).2.slots[i]? =
      if i = builder.arena.slots.size then some (some node) else builder.arena.slots[i]? :=
    Array.getElem?_push
  have hsize : (builder.arena.alloc node).2.slots.size = builder.arena.slots.size + 1 :=
    Array.size_push _
  constructor
  · rw [Arena.alloc_held, List.map_cons, ← List.append_assoc]
    exact (h.conserved.cons node).trans (List.perm_append_singleton ..).symm
  · exact Arena.IsCounted.alloc h.pending_eq node
  · refine List.nodup_cons.2 ⟨fun hmem => ?_, h.distinct⟩
    obtain ⟨entry, hentry, hid⟩ := List.mem_map.1 hmem
    have hlt := h.stored entry hentry
    rw [hid, hindex] at hlt
    omega
  · rw [hmoved]
    exact h.once
  · rw [hmoved]
    exact h.own.imp fun id n hgiven => List.mem_cons_of_mem _ hgiven
  · intro entry hentry
    rw [hsize]
    rcases List.mem_cons.1 hentry with rfl | hold
    · rw [hindex]
      exact Nat.lt_succ_self _
    · exact Nat.lt_succ_of_lt (h.stored entry hold)
  · intro id n hslot
    rw [hslots] at hslot
    split at hslot
    · next hi =>
      cases hslot
      rw [← hindex, NodeId.index_inj] at hi
      rw [hi]
      exact List.mem_cons_self
    · exact List.mem_cons_of_mem _ (h.known id n hslot)
  · intro id hid
    rw [hmoved] at hid
    have hold := h.emptied id hid
    have hlt := (Array.getElem?_eq_some_iff.1 hold).1
    rw [hslots, if_neg (Nat.ne_of_lt hlt)]
    exact hold

theorem hand (h : builder.Balances account ledger) {ids : List NodeId} {nodes : List Node}
    {after : Arena} (hyields : builder.arena.Yields ids nodes after) (lists : ScopedList NodeId)
    {next : Ledger} (hmoved : next.moved = ids ++ ledger.moved) :
    Balances ⟨after, lists⟩ { account with out := nodes ++ account.out } next := by
  have hdisjoint : ∀ id ∈ ids, id ∉ ledger.moved := by
    intro id hid hold
    obtain ⟨i, hi, rfl⟩ := List.getElem_of_mem hid
    have hlength := hyields.owned.length_eq
    have hslot := hyields.owned.get hi (hlength ▸ hi)
    rw [List.get_eq_getElem, h.emptied _ hold] at hslot
    cases hslot
  constructor
  · have hheld := hyields.held.append_left account.out
    rw [List.append_assoc]
    refine h.conserved.trans (hheld.trans ?_)
    rw [← List.append_assoc, ← List.append_assoc]
    exact List.perm_append_comm.append_right _
  · exact hyields.counted h.pending_eq
  · exact h.distinct
  · rw [hmoved, List.nodup_append]
    exact ⟨hyields.nodup, h.once, fun id hid other hold he => hdisjoint id hid (he ▸ hold)⟩
  · rw [hmoved]
    exact List.rel_append (hyields.owned.imp fun id n hslot => h.known id n hslot) h.own
  · intro entry hentry
    rw [hyields.size]
    exact h.stored entry hentry
  · intro id n hslot
    rw [hyields.slots] at hslot
    split at hslot
    · cases hslot
    · exact h.known id n hslot
  · intro id hid
    rw [hyields.slots]
    by_cases hnew : id.index ∈ ids.map NodeId.index
    · rw [if_pos hnew]
    · rw [if_neg hnew]
      rw [hmoved] at hid
      rcases List.mem_append.1 hid with hid | hold
      · exact absurd (List.mem_map_of_mem hid) hnew
      · exact h.emptied id hold

theorem keep (h : builder.Balances account ledger) (lists : ScopedList NodeId) {next : Ledger}
    (hmoved : next.moved = ledger.moved) : Balances ⟨builder.arena, lists⟩ account next :=
  h.hand .refl lists hmoved

variable {scopes : Scopes}

theorem take (h : builder.Balances account ledger) (hr : builder.Refines scopes) (id : NodeId) :
    (builder.step (.take id)).2.Balances
      (account.enter (.take id, (builder.step (.take id)).1))
      (ledger.enter (.take id, (builder.step (.take id)).1)) := by
  cases htake : (builder.take id).1 with
  | error error =>
    simp only [step, htake, hr.take_error_unchanged htake]
    exact h
  | ok node =>
    have harena : builder.arena.take id = (.ok node, (builder.take id).2.arena) :=
      Prod.ext htake rfl
    simp only [step, htake]
    exact h.hand (Arena.take_yields harena) builder.lists rfl

theorem closeList (h : builder.Balances account ledger) (hr : builder.Refines scopes)
    (ht : ledger.Tells scopes) (hfit : scopes.stored < UInt32.size) :
    (builder.step .closeList).2.Balances
      (account.enter (.closeList, (builder.step .closeList).1))
      (ledger.enter (.closeList, (builder.step .closeList).1)) := by
  cases hclose : builder.closeList.1 with
  | error error =>
    have hfails : (builder.step .closeList).1.isError = true := by
      simp [step, hclose, Reply.isError]
    rw [hr.step_error_unchanged hfit hfails]
    simp only [step, hclose]
    exact h
  | ok nodes =>
    have hcurrent : builder.lists.current = ledger.lists.innermost := by
      rw [hr.current_eq, ht.lists, Levels.innermost_map]
    have hall : ∃ after, builder.arena.takeAll ledger.lists.innermost = (.ok nodes, after) ∧
        builder.closeList.2 = ⟨after, builder.lists.pop.2⟩ := by
      rw [← hcurrent]
      cases hcheck : builder.lists.current.forM builder.arena.check with
      | error error => simp [TreeBuilder.closeList, hcheck] at hclose
      | ok checked =>
        simp only [TreeBuilder.closeList, hcheck, ScopedList.pop] at hclose ⊢
        exact ⟨_, Prod.ext hclose rfl, rfl⟩
    obtain ⟨after, htake, hnext⟩ := hall
    simp only [step, hclose, hnext]
    exact h.hand (Arena.takeAll_yields htake) _ rfl

theorem finish (h : builder.Balances account ledger) (root : Node) :
    (builder.step (.finish root)).2.Balances
      (account.enter (.finish root, (builder.step (.finish root)).1))
      (ledger.enter (.finish root, (builder.step (.finish root)).1)) := by
  by_cases hopen : builder.depth > 0
  · simp only [step, TreeBuilder.finish, hopen, if_true]
    exact h
  · simp only [step, TreeBuilder.finish, hopen, if_false]
    exact empty_balances

/-- Whatever a builder is asked, the balance is kept. -/
theorem step (h : builder.Balances account ledger) (hr : builder.Refines scopes)
    (ht : ledger.Tells scopes) (hfit : scopes.stored < UInt32.size) (operation : Operation) :
    (builder.step operation).2.Balances (account.enter (operation, (builder.step operation).1))
      (ledger.enter (operation, (builder.step operation).1)) := by
  have hsize := hr.size.symm ▸ hfit
  cases operation with
  | openList => exact h.keep _ rfl
  | emit node => exact h.give hsize node _ rfl
  | alloc node => exact h.give hsize node _ rfl
  | take id => exact h.take hr id
  | closeList => exact h.closeList hr ht hfit
  | finish root => exact h.finish root
  | reset => exact empty_balances

theorem run (h : builder.Balances account ledger) (hr : builder.Refines scopes)
    (ht : ledger.Tells scopes) {operations : List Operation} (hfit : scopes.Fits operations) :
    (builder.run operations).2.Balances
      ((operations.zip (builder.run operations).1).foldl Account.enter account)
      ((operations.zip (builder.run operations).1).foldl Ledger.enter ledger) := by
  induction operations generalizing builder scopes account ledger with
  | nil => exact h
  | cons operation operations ih =>
    obtain ⟨hreply, hnext⟩ := hr.step_eq hfit.1 operation
    have hstep := h.step hr ht hfit.1 operation
    have htells := ht.step hr.valid hfit.1 operation
    rw [← hreply] at htells
    exact ih hstep hnext htells hfit.2

end Balances

/-- After every run of a builder whose ids do not run out, and so at every moment of it: the nodes
that have been given since the builder was last empty are those that have been handed out and those
that are still there, of which it knows the number. Every id has handed out the node that was given
under it, and none twice. -/
theorem run_balances (operations : List Operation) (hfit : Scopes.empty.Fits operations) :
    (empty.run operations).2.Balances
      (.ofHistory (operations.zip (empty.run operations).1))
      (.ofHistory (operations.zip (empty.run operations).1)) :=
  Balances.empty_balances.run refines_empty Ledger.tells_empty hfit

/-- Nodes leave a builder one by one and as lists, and some are left behind: before it is finished
for the first time, and in a list that cannot be closed. -/
def leftBehind : List Operation :=
  let leaf (value : String) : Node := .leaf .identifier {} value
  [.emit (leaf "z"), .finish (leaf "y"), .openList, .emit (leaf "a"), .alloc (leaf "b"),
    .emit (leaf "c"), .take ⟨1⟩, .take ⟨1⟩, .openList, .emit (leaf "d"), .closeList,
    .emit (leaf "e"), .take ⟨2⟩, .take ⟨3⟩, .closeList]

theorem leftBehind_balances :
    Scopes.empty.Fits leftBehind ∧
      let history := leftBehind.zip (empty.run leftBehind).1
      let last := (empty.run leftBehind).2
      (Ledger.ofHistory history).moved = [⟨2⟩, ⟨3⟩, ⟨1⟩] ∧ last.pending = 2 ∧
        ((Account.ofHistory history).given.map Prod.snd).Perm
          ((Account.ofHistory history).out ++ last.arena.held) := by
  have hfit : Scopes.empty.Fits leftBehind := Scopes.fits_of_length (by decide)
  have hbalances := run_balances leftBehind hfit
  have hheld : (empty.run leftBehind).2.arena.held.length = 2 := by decide +kernel
  exact ⟨hfit, by decide +kernel, hbalances.pending_eq.trans hheld, hbalances.conserved⟩

end TreeBuilder

end SyntaxTree
