import SyntaxTree.Proofs.Build.Failures

/-! Lists that stay open. A list of which a child has been taken cannot be closed, so none of the
lists around it can be either, and the builder cannot be finished. Nothing that is done inside the
list changes this; what is opened inside it is as good as anywhere else. -/

set_option autoImplicit false

namespace SyntaxTree

namespace Levels

variable {α : Type} {levels : Levels α} {k : Nat} {scope : List α}

def scope? (levels : Levels α) (k : Nat) : Option (List α) := levels.scopes.reverse[k]?

theorem scope?_lt (h : levels.scope? k = some scope) : k < levels.scopes.length := by
  have hlt := (List.getElem?_eq_some_iff.1 h).1
  rwa [List.length_reverse] at hlt

theorem scope?_cons (inner : List α) (scopes : List (List α)) (bottom : List α) (k : Nat) :
    scope? ⟨inner :: scopes, bottom⟩ k =
      if k = scopes.length then some inner else scope? ⟨scopes, bottom⟩ k := by
  rw [scope?, scope?, List.reverse_cons, List.getElem?_append, List.length_reverse]
  split
  · next hlt => rw [if_neg (Nat.ne_of_lt hlt)]
  · next hge =>
    have hnone : scopes.reverse[k]? = none := List.getElem?_eq_none (by simpa using hge)
    rw [hnone, List.getElem?_singleton]
    by_cases hk : k = scopes.length
    · simp [hk]
    · rw [if_neg hk, if_neg (by omega)]

theorem scope?_push (h : levels.scope? k = some scope) : levels.push.scope? k = some scope := by
  have hlt := scope?_lt h
  rw [push, scope?_cons, if_neg (Nat.ne_of_lt hlt)]
  exact h

theorem mem_items_of_scope? (h : levels.scope? k = some scope) {item : α} (hitem : item ∈ scope) :
    item ∈ levels.items := by
  obtain ⟨scopes, bottom⟩ := levels
  induction scopes with
  | nil => exact absurd (scope?_lt h) (Nat.not_lt_zero k)
  | cons inner scopes ih =>
    rw [scope?_cons] at h
    rw [items_cons, List.mem_append]
    split at h
    · cases h
      exact .inr hitem
    · exact .inl (ih h)

theorem scope?_add (h : levels.scope? k = some scope) (item : α) :
    ∃ more, (levels.add item).scope? k = some (scope ++ more) := by
  obtain ⟨scopes, bottom⟩ := levels
  cases scopes with
  | nil => exact absurd (scope?_lt h) (Nat.not_lt_zero k)
  | cons inner scopes =>
    rw [scope?_cons] at h
    rw [add, scope?_cons]
    split at h
    · next hk =>
      cases h
      exact ⟨[item], by rw [if_pos hk]⟩
    · next hk => exact ⟨[], by rw [if_neg hk, List.append_nil, h]⟩

theorem scope?_innermost (h : levels.scope? k = some scope)
    (hk : levels.scopes.length = k + 1) : levels.innermost = scope := by
  obtain ⟨scopes, bottom⟩ := levels
  cases scopes with
  | nil => cases hk
  | cons inner scopes =>
    rw [scope?_cons, if_pos (Nat.succ.inj hk).symm] at h
    exact Option.some.inj h

theorem scope?_pop (h : levels.scope? k = some scope) (hk : levels.scopes.length ≠ k + 1) :
    levels.pop.scope? k = some scope := by
  obtain ⟨scopes, bottom⟩ := levels
  cases scopes with
  | nil => exact absurd (scope?_lt h) (Nat.not_lt_zero k)
  | cons inner scopes =>
    rwa [scope?_cons, if_neg fun he => hk (congrArg (· + 1) he.symm)] at h

theorem length_pop (levels : Levels α) : levels.pop.scopes.length = levels.scopes.length - 1 := by
  obtain ⟨scopes, bottom⟩ := levels
  cases scopes <;> rfl

end Levels

namespace Arena

/-- What an arena becomes as nodes are stored and taken: no slot is lost, and none that is empty is
filled again. -/
structure Precedes (arena after : Arena) : Prop where
  size_le : arena.slots.size ≤ after.slots.size
  empty : ∀ {i : Nat}, arena.slots[i]? = some none → after.slots[i]? = some none

namespace Precedes

variable {arena mid after : Arena}

theorem refl : arena.Precedes arena := ⟨Nat.le_refl _, fun h => h⟩

theorem trans (h : arena.Precedes mid) (ht : mid.Precedes after) : arena.Precedes after :=
  ⟨Nat.le_trans h.size_le ht.size_le, fun hslot => ht.empty (h.empty hslot)⟩

theorem alloc (arena : Arena) (node : Node) : arena.Precedes (arena.alloc node).2 := by
  refine ⟨by simp [Arena.alloc], fun {i} hslot => ?_⟩
  have hlt : i < arena.slots.size := (Array.getElem?_eq_some_iff.1 hslot).1
  rw [Arena.alloc, Array.getElem?_push, if_neg (Nat.ne_of_lt hlt), hslot]

theorem take (arena : Arena) (id : NodeId) : arena.Precedes (arena.take id).2 := by
  cases hslot : arena.slots[id.index]? with
  | none =>
    rw [take_unknown hslot]
    exact refl
  | some slot =>
    cases slot with
    | none =>
      rw [take_taken hslot]
      exact refl
    | some node =>
      rw [take_held hslot]
      refine ⟨Nat.le_of_eq (Array.size_setIfInBounds ..).symm, fun hempty => ?_⟩
      rw [getElem?_set_none arena.slots hslot]
      split
      · rfl
      · exact hempty

theorem takeAll (arena : Arena) (ids : List NodeId) :
    arena.Precedes (arena.takeAll ids).2 := by
  induction ids generalizing arena with
  | nil => exact refl
  | cons id ids ih =>
    have hfirst := take arena id
    rw [Arena.takeAll]
    cases htake : arena.take id with
    | mk result mid =>
      rw [htake] at hfirst
      cases result with
      | error error => exact hfirst
      | ok node =>
        have hrest := hfirst.trans (ih mid)
        simp only
        cases hids : mid.takeAll ids with
        | mk result last =>
          rw [hids] at hrest
          cases result <;> exact hrest

end Precedes

variable {arena : Arena}

/-- An id has a slot even if it is not the only one to stand for it. -/
theorem alloc_index_lt (arena : Arena) (node : Node) :
    (arena.alloc node).1.index < (arena.alloc node).2.slots.size := by
  rw [alloc, NodeId.index, UInt32.toNat_ofNat', Array.size_push]
  exact Nat.lt_succ_of_le (Nat.mod_le ..)

theorem forM_check_lost {ids : List NodeId} (hknown : ∀ id ∈ ids, id.index < arena.slots.size)
    (hlost : ∃ id ∈ ids, arena.slots[id.index]? = some none) :
    ∃ id, ids.forM arena.check = .error (.alreadyTaken id) := by
  induction ids with
  | nil =>
    obtain ⟨id, hid, -⟩ := hlost
    cases hid
  | cons first ids ih =>
    show ∃ id, (arena.check first >>= fun _ => ids.forM arena.check) = _
    cases hslot : arena.slots[first.index]? with
    | none =>
      have hlt := hknown first List.mem_cons_self
      exact absurd hlt (Nat.not_lt.2 (Array.getElem?_eq_none_iff.1 hslot))
    | some slot =>
      cases slot with
      | none =>
        rw [check_taken hslot]
        exact ⟨first, rfl⟩
      | some node =>
        obtain ⟨id, hid, hempty⟩ := hlost
        -- the check goes on behind an id that is held, so it comes to the one that is lost
        have hne : id ≠ first := fun he => by simp [← he, hempty] at hslot
        have hrest : id ∈ ids := (List.mem_cons.1 hid).resolve_left hne
        rw [check_held hslot]
        exact ih (fun other ho => hknown other (List.mem_cons_of_mem _ ho)) ⟨id, hrest, hempty⟩

end Arena

def Ledger.HasLost (ledger : Ledger) (k : Nat) : Prop :=
  ∃ list, ledger.lists.scope? k = some list ∧ ∃ id ∈ list, id ∈ ledger.moved

namespace TreeBuilder

variable {builder : TreeBuilder} {k : Nat} {levels : Levels NodeId}

/-- Every id in the lists of a builder has a slot, and that of an id in the list with `k` others
around it is empty. The slots tell this, and not what has been answered: it stays true when ids run
out and one stands for several nodes. -/
structure HasLost (builder : TreeBuilder) (k : Nat) (levels : Levels NodeId) : Prop where
  lists : builder.lists.Holds levels
  known : ∀ id ∈ levels.items, id.index < builder.arena.slots.size
  lost : ∃ list, levels.scope? k = some list ∧
    ∃ id ∈ list, builder.arena.slots[id.index]? = some none

namespace HasLost

theorem lt_depth (h : builder.HasLost k levels) : k < builder.depth := by
  obtain ⟨list, hlist, -⟩ := h.lost
  rw [depth, h.lists.depth]
  exact Levels.scope?_lt hlist

theorem closeList_fails (h : builder.HasLost k levels) (hdepth : builder.depth = k + 1) :
    ∃ id, builder.closeList = (.error (.alreadyTaken id), builder) := by
  obtain ⟨list, hlist, hempty⟩ := h.lost
  rw [depth, h.lists.depth] at hdepth
  have hcurrent : builder.lists.current = list :=
    h.lists.current.trans (Levels.scope?_innermost hlist hdepth)
  have hknown : ∀ id ∈ list, id.index < builder.arena.slots.size := fun id hid =>
    h.known id (Levels.mem_items_of_scope? hlist hid)
  obtain ⟨id, hcheck⟩ := Arena.forM_check_lost hknown hempty
  exact ⟨id, by simp only [closeList, hcurrent, hcheck]⟩

theorem later (h : builder.HasLost k levels) {arena : Arena}
    (harena : builder.arena.Precedes arena) : HasLost ⟨arena, builder.lists⟩ k levels := by
  obtain ⟨list, hlist, id, hid, hempty⟩ := h.lost
  exact ⟨h.lists, fun other ho => Nat.lt_of_lt_of_le (h.known other ho) harena.size_le,
    list, hlist, id, hid, harena.empty hempty⟩

theorem push (h : builder.HasLost k levels) : builder.openList.HasLost k levels.push := by
  obtain ⟨list, hlist, hempty⟩ := h.lost
  refine ⟨h.lists.push, ?_, list, Levels.scope?_push hlist, hempty⟩
  rw [Levels.items_push]
  exact h.known

theorem add (h : builder.HasLost k levels) {id : NodeId}
    (hid : id.index < builder.arena.slots.size) :
    HasLost ⟨builder.arena, builder.lists.add id⟩ k (levels.add id) := by
  obtain ⟨list, hlist, other, ho, hempty⟩ := h.lost
  obtain ⟨more, hmore⟩ := Levels.scope?_add hlist id
  refine ⟨h.lists.add id, ?_, list ++ more, hmore, other, List.mem_append_left _ ho, hempty⟩
  intro other ho
  rw [Levels.items_add, List.mem_append, List.mem_singleton] at ho
  rcases ho with ho | rfl
  · exact h.known other ho
  · exact hid

theorem pop (h : builder.HasLost k levels) (hdepth : builder.depth ≠ k + 1) :
    HasLost ⟨builder.arena, builder.lists.pop.2⟩ k levels.pop := by
  obtain ⟨list, hlist, hempty⟩ := h.lost
  rw [depth, h.lists.depth] at hdepth
  refine ⟨h.lists.pop_snd, fun id hid => h.known id ?_, list, Levels.scope?_pop hlist hdepth,
    hempty⟩
  rw [Levels.items_pop]
  exact List.mem_append_left _ hid

theorem closeList (h : builder.HasLost k levels) :
    ∃ next, builder.closeList.2.HasLost k next := by
  by_cases hdepth : builder.depth = k + 1
  · obtain ⟨id, hclose⟩ := h.closeList_fails hdepth
    rw [hclose]
    exact ⟨levels, h⟩
  · unfold TreeBuilder.closeList
    split
    · exact ⟨levels, h⟩
    -- another list is closed, and even if its nodes cannot all be taken no slot is filled
    · exact ⟨levels.pop, (h.pop hdepth).later (.takeAll ..)⟩

theorem finish_fails (h : builder.HasLost k levels) (root : Node) :
    builder.finish root = (.error (.unbalancedLists builder.depth), builder) := by
  rw [finish, if_pos (Nat.zero_lt_of_lt h.lt_depth)]

theorem step (h : builder.HasLost k levels) {operation : Operation} (hreset : operation ≠ .reset) :
    ∃ next, (builder.step operation).2.HasLost k next := by
  cases operation with
  | openList => exact ⟨_, h.push⟩
  | emit node => exact ⟨_, (h.later (.alloc _ node)).add (builder.arena.alloc_index_lt node)⟩
  | alloc node => exact ⟨_, h.later (.alloc _ node)⟩
  | take id => exact ⟨_, h.later (.take _ id)⟩
  | closeList => exact h.closeList
  | finish root =>
    refine ⟨levels, ?_⟩
    simp only [TreeBuilder.step, h.finish_fails root]
    exact h
  | reset => exact absurd rfl hreset

theorem run (h : builder.HasLost k levels) {operations : List Operation}
    (hreset : .reset ∉ operations) : ∃ last, (builder.run operations).2.HasLost k last := by
  induction operations generalizing builder levels with
  | nil => exact ⟨levels, h⟩
  | cons operation operations ih =>
    rw [List.mem_cons, not_or] at hreset
    obtain ⟨next, hnext⟩ := h.step fun he => hreset.1 he.symm
    exact ih hnext hreset.2

end HasLost

theorem run_append (builder : TreeBuilder) (before after : List Operation) :
    (builder.run (before ++ after)).2 = ((builder.run before).2.run after).2 := by
  induction before generalizing builder with
  | nil => rfl
  | cons operation before ih => exact ih _

/-- A builder in which the list with `k` others around it cannot be closed. -/
structure StuckAt (builder : TreeBuilder) (k : Nat) : Prop where
  open_still : k < builder.depth
  closeList_fails : builder.depth = k + 1 →
    ∃ id, builder.closeList = (.error (.alreadyTaken id), builder)
  finish_fails : ∀ root,
    builder.finish root = (.error (.unbalancedLists builder.depth), builder)

structure Collects (builder : TreeBuilder) (ledger : Ledger) (lists : Levels Node) : Prop where
  depth_eq : builder.depth = lists.scopes.length
  /-- A list that has lost no child is closed and hands back what was emitted into it. -/
  closeList_ok : 0 < builder.depth → (∀ id ∈ ledger.lists.innermost, id ∉ ledger.moved) →
    ∃ closed, builder.closeList = (.ok lists.innermost, closed) ∧ closed.depth + 1 = builder.depth

namespace Refines

variable {scopes : Scopes} {ledger : Ledger}

theorem hasLost (h : builder.Refines scopes) (hfit : scopes.stored < UInt32.size)
    (ht : ledger.Tells scopes) (hlost : ledger.HasLost k) : builder.HasLost k ledger.lists := by
  have hchild {id : NodeId} (hid : id ∈ ledger.lists.items) :
      ∃ child ∈ scopes.children, child.nodeId = id ∧ id.index = child.id := by
    rw [ht.lists, Levels.items_map] at hid
    obtain ⟨child, hc, rfl⟩ := List.mem_map.1 hid
    have hmem : child ∈ scopes.children := List.mem_append_left _ hc
    exact ⟨child, hmem, rfl, h.valid.index_eq hfit hmem⟩
  obtain ⟨list, hlist, id, hid, hmoved⟩ := hlost
  refine ⟨ht.lists ▸ h.lists, fun other ho => ?_, list, hlist, id, hid, ?_⟩
  · obtain ⟨child, hc, -, hindex⟩ := hchild ho
    rw [hindex, h.size]
    exact h.valid.lt child hc
  · obtain ⟨child, hc, rfl, hindex⟩ := hchild (Levels.mem_items_of_scope? hlist hid)
    have htaken := (ht.taken_iff h.valid hfit hc).2 hmoved
    rw [hindex, h.held child hc, Child.content, if_pos htaken]

theorem collects (h : builder.Refines scopes) (hfit : scopes.stored < UInt32.size)
    (ht : ledger.Tells scopes) : builder.Collects ledger (scopes.levels.map Child.node) := by
  have hdepth := h.depth_eq
  constructor
  · rw [hdepth]
    exact (List.length_map ..).symm
  · intro hpos hheld
    have hnone : ∀ child ∈ scopes.levels.innermost, child.taken = false := by
      intro child hc
      have hid : child.nodeId ∈ ledger.lists.innermost := by
        rw [ht.lists, Levels.innermost_map]
        exact List.mem_map_of_mem hc
      rw [← Bool.not_eq_true, ht.taken_iff h.valid hfit (mem_innermost hc)]
      exact hheld _ hid
    obtain ⟨closed, hclose, hclosed, -⟩ := h.closeList_eq hfit hnone
    refine ⟨closed, by rw [hclose, Levels.innermost_map], ?_⟩
    rw [hclosed.depth_eq, Levels.length_pop, hdepth]
    omega

end Refines

theorem run_collects (operations : List Operation) (hfit : Scopes.empty.Fits operations) :
    let history := operations.zip (empty.run operations).1
    (empty.run operations).2.Collects (.ofHistory history) (emitted history) := by
  obtain ⟨hreplies, h⟩ := refines_empty.run_eq hfit
  have ht := tells_run refines_empty Ledger.tells_empty hfit
  have hnodes := Scopes.empty.run_nodes operations
  have hcollects := h.collects hfit.stored_lt ht
  rw [hnodes, ← hreplies] at hcollects
  exact hcollects

/-- Once a list has lost a child, it stays open whatever is done short of starting anew. It cannot
be closed and the builder cannot be finished, even after ids have run out. Lists inside it are
opened, filled and closed as anywhere else, as long as they have not. -/
theorem run_stuckAt (before after : List Operation) (hfit : Scopes.empty.Fits before) {k : Nat}
    (hlost : (Ledger.ofHistory (before.zip (empty.run before).1)).HasLost k)
    (hreset : .reset ∉ after) :
    let operations := before ++ after
    let history := operations.zip (empty.run operations).1
    (empty.run operations).2.StuckAt k ∧
      (Scopes.empty.Fits operations →
        (empty.run operations).2.Collects (.ofHistory history) (emitted history)) := by
  intro operations history
  obtain ⟨hreplies, hstart⟩ := refines_empty.run_eq hfit
  have hknown := tells_run refines_empty Ledger.tells_empty hfit
  rw [← hreplies] at hknown
  obtain ⟨levels, hlast⟩ := (hstart.hasLost hfit.stored_lt hknown hlost).run hreset
  rw [← run_append] at hlast
  exact ⟨⟨hlast.lt_depth, hlast.closeList_fails, hlast.finish_fails⟩, run_collects operations⟩

def lostOutside : List Operation × List Operation :=
  let leaf (value : String) : Node := .leaf .identifier {} value
  ([.openList, .emit (leaf "a"), .openList, .emit (leaf "b"), .take ⟨0⟩],
    [.closeList, .closeList, .finish (leaf "c"), .openList, .emit (leaf "d"), .emit (leaf "e")])

theorem lostOutside_stuck :
    let operations := lostOutside.1 ++ lostOutside.2
    Scopes.empty.Fits lostOutside.1 ∧
    (Ledger.ofHistory (lostOutside.1.zip (empty.run lostOutside.1).1)).HasLost 0 ∧
    .reset ∉ lostOutside.2 ∧
    (empty.run operations).2.StuckAt 0 ∧
    Scopes.empty.Fits operations ∧
    ∃ closed, (empty.run operations).2.closeList =
      (.ok [.leaf .identifier {} "d", .leaf .identifier {} "e"], closed) ∧
        closed.depth + 1 = 2 := by
  intro operations
  have hfit : Scopes.empty.Fits lostOutside.1 := Scopes.fits_of_length (by decide)
  have hfits : Scopes.empty.Fits operations := Scopes.fits_of_length (by decide)
  have hlost : (Ledger.ofHistory (lostOutside.1.zip (empty.run lostOutside.1).1)).HasLost 0 :=
    ⟨[⟨0⟩], by decide +kernel, ⟨0⟩, by decide +kernel⟩
  have hreset : .reset ∉ lostOutside.2 := by simp [lostOutside]
  obtain ⟨hstuck, hcollects⟩ := run_stuckAt lostOutside.1 lostOutside.2 hfit hlost hreset
  obtain ⟨closed, hclose, hdepth⟩ :=
    (hcollects hfits).closeList_ok (by decide +kernel) (by decide +kernel)
  exact ⟨hfit, hlost, hreset, hstuck, hfits, closed, hclose, hdepth⟩

end TreeBuilder

end SyntaxTree
