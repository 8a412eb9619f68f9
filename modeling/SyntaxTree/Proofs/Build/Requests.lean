import Mathlib.Algebra.Group.Nat.Defs
import Mathlib.Data.List.Range
import SyntaxTree.Proofs.Build.Conservation

/-! Arenas, asked one thing after another. The count of an arena is right at every moment, and it
takes what it shows. An id is a count of the nodes stored so far, cut to 32 bits: it stays the id of
one node as long as no more than that have been stored. -/

set_option autoImplicit false

namespace SyntaxTree

namespace Arena

inductive Request where
  | alloc (node : Node)
  | take (id : NodeId)
  | check (id : NodeId)
  | get (id : NodeId)
  | clear
  deriving DecidableEq

inductive Answer where
  | stored (id : NodeId)
  | taken (result : Except BuildError Node)
  | checked (result : Except BuildError Unit)
  | shown (node : Option Node)
  | done

def Request.isAlloc : Request → Bool
  | .alloc _ => true
  | _ => false

def Answer.id? : Answer → Option NodeId
  | .stored id => some id
  | _ => none

def step (arena : Arena) : Request → Answer × Arena
  | .alloc node => (.stored (arena.alloc node).1, (arena.alloc node).2)
  | .take id => (.taken (arena.take id).1, (arena.take id).2)
  | .check id => (.checked (arena.check id), arena)
  | .get id => (.shown (arena.get? id), arena)
  | .clear => (.done, empty)

def run (arena : Arena) : List Request → List Answer × Arena
  | [] => ([], arena)
  | request :: requests =>
    let (answer, next) := arena.step request
    let (answers, last) := next.run requests
    (answer :: answers, last)

theorem run_append (arena : Arena) (before after : List Request) :
    arena.run (before ++ after) =
      ((arena.run before).1 ++ ((arena.run before).2.run after).1,
        ((arena.run before).2.run after).2) := by
  induction before generalizing arena with
  | nil => rfl
  | cons request before ih => simp [run, ih]

variable {arena : Arena} {id : NodeId}

/-- A node is shown, lets itself be checked and is taken, or none is and nothing is changed. -/
theorem take_cases (arena : Arena) (id : NodeId) :
    (∃ node, arena.slots[id.index]? = some (some node) ∧ arena.get? id = some node ∧
      arena.check id = .ok () ∧ (arena.take id).1 = .ok node) ∨
    ∃ error, arena.get? id = none ∧ arena.check id = .error error ∧
      arena.take id = (.error error, arena) := by
  cases hslot : arena.slots[id.index]? with
  | none => exact .inr ⟨_, by simp [get?, hslot], check_unknown hslot, take_unknown hslot⟩
  | some slot =>
    cases slot with
    | none => exact .inr ⟨_, by simp [get?, hslot], check_taken hslot, take_taken hslot⟩
    | some node =>
      exact .inl ⟨node, rfl, by simp [get?, hslot], check_held hslot, by rw [take_held hslot]⟩

theorem take_slots {node : Node} (h : (arena.take id).1 = .ok node) (i : Nat) :
    (arena.take id).2.slots[i]? = if i = id.index then some none else arena.slots[i]? := by
  have hslots := (take_yields (Prod.ext h rfl)).slots i
  simpa only [List.map_singleton, List.mem_singleton] using hslots

theorem IsCounted.step (h : arena.IsCounted) (request : Request) :
    (arena.step request).2.IsCounted := by
  cases request with
  | alloc node => exact h.alloc node
  | take id =>
    rcases arena.take_cases id with ⟨node, -, -, -, hnode⟩ | ⟨error, -, -, herror⟩
    · exact (take_yields (Prod.ext hnode rfl)).counted h
    · simp only [Arena.step, herror]
      exact h
  | check id => exact h
  | get id => exact h
  | clear => rfl

theorem IsCounted.run (h : arena.IsCounted) (requests : List Request) :
    (arena.run requests).2.IsCounted := by
  induction requests generalizing arena with
  | nil => exact h
  | cons request requests ih => exact ih (h.step request)

theorem IsCounted.live_eq (h : arena.IsCounted) :
    arena.live = arena.slots.toList.countP Option.isSome := by
  rw [h, held, List.length_filterMap_eq_countP]

structure Loses (arena : Arena) (id : NodeId) (after : Arena) : Prop where
  live : after.live + 1 = arena.live
  size : after.slots.size = arena.slots.size
  slots : ∀ i, after.slots[i]? = if i = id.index then some none else arena.slots[i]?

theorem IsCounted.take (h : arena.IsCounted) {node : Node} (ht : (arena.take id).1 = .ok node) :
    arena.Loses id (arena.take id).2 := by
  have hyields := take_yields (Prod.ext ht rfl)
  have hlength := hyields.held.length_eq
  have hcounted := hyields.counted h
  rw [IsCounted] at h hcounted
  rw [List.singleton_append, List.length_cons, ← h, ← hcounted] at hlength
  exact ⟨hlength.symm, hyields.size, take_slots ht⟩

/-- The books of an arena are right about an id: its count is that of its nodes and never falls
below zero, a node is taken if and only if it is shown, and the checks made before it is taken leave
nothing to fail after them. -/
structure Books (arena : Arena) (id : NodeId) : Prop where
  live : arena.live = arena.slots.toList.countP Option.isSome
  get_iff : (arena.get? id).isSome = true ↔ arena.check id = .ok ()
  take_iff : (∃ node, (arena.take id).1 = .ok node) ↔ arena.check id = .ok ()
  taken : ∀ node, (arena.take id).1 = .ok node →
    arena.get? id = some node ∧ arena.Loses id (arena.take id).2
  failed_iff : ∀ error, (arena.take id).1 = .error error ↔ arena.check id = .error error
  unchanged : ∀ error, (arena.take id).1 = .error error → (arena.take id).2 = arena
  retest : arena.check id = .ok () →
    ∃ hi : id.index < arena.slots.size, arena.slots[id.index].isSome = true

theorem IsCounted.books (h : arena.IsCounted) (id : NodeId) : arena.Books id := by
  rcases arena.take_cases id with ⟨node, hslot, hget, hcheck, htake⟩ | ⟨error, hget, hcheck, htake⟩
  · constructor
    · exact h.live_eq
    · simp [hget, hcheck]
    · simp [htake, hcheck]
    · intro other hother
      rw [htake] at hother
      cases hother
      exact ⟨hget, h.take htake⟩
    · simp [htake, hcheck]
    · simp [htake]
    · intro _
      obtain ⟨hi, hheld⟩ := Array.getElem?_eq_some_iff.1 hslot
      exact ⟨hi, by rw [hheld]; rfl⟩
  · constructor
    · exact h.live_eq
    · simp [hget, hcheck]
    · simp [htake, hcheck]
    · simp [htake]
    · simp [htake, hcheck]
    · simp [htake]
    · simp [hcheck]

/-- Whatever an arena has been asked, its books are right. -/
theorem books_kept (requests : List Request) (id : NodeId) : (empty.run requests).2.Books id := by
  have hempty : empty.IsCounted := rfl
  exact (hempty.run requests).books id

end Arena

def NodeId.ofCount (count : Nat) : NodeId := ⟨UInt32.ofNat count⟩

namespace NodeId

theorem index_ofCount (count : Nat) : (ofCount count).index = count % 2 ^ 32 :=
  UInt32.toNat_ofNat' ..

theorem ofCount_mod (count : Nat) : ofCount (count % 2 ^ 32) = ofCount count := by
  rw [← index_inj, index_ofCount, index_ofCount, Nat.mod_mod]

/-- Ids differ for as long as the count fits into 32 bits, and no longer. -/
theorem nodup_ofCount {count : Nat} :
    ((List.range count).map ofCount).Nodup ↔ count ≤ 2 ^ 32 := by
  constructor
  · intro hnodup
    by_contra hlt
    have hfirst : 0 ∈ List.range count := List.mem_range.2 (by omega)
    have hwrapped : 2 ^ 32 ∈ List.range count := List.mem_range.2 (by omega)
    have hsame : ofCount 0 = ofCount (2 ^ 32) := by
      rw [← ofCount_mod (2 ^ 32), Nat.mod_self]
    have hzero := List.inj_on_of_nodup_map hnodup hfirst hwrapped hsame
    omega
  · intro hle
    refine List.Nodup.map_on ?_ List.nodup_range
    intro a ha b hb hab
    rw [List.mem_range] at ha hb
    rw [← index_inj, index_ofCount, index_ofCount] at hab
    omega

end NodeId

namespace Arena

variable {arena : Arena} {request : Request} {requests : List Request}

def handed (requests : List Request) : List NodeId :=
  (empty.run requests).1.filterMap Answer.id?

theorem step_size (h : request ≠ .clear) : (arena.step request).2.slots.size =
    arena.slots.size + [request].countP Request.isAlloc := by
  cases request with
  | alloc node => exact Array.size_push _
  | take id =>
    rcases arena.take_cases id with ⟨node, -, -, -, hnode⟩ | ⟨error, -, -, herror⟩
    · exact (take_yields (Prod.ext hnode rfl)).size
    · simp [step, herror, Request.isAlloc]
  | check id => rfl
  | get id => rfl
  | clear => exact absurd rfl h

theorem run_size (h : .clear ∉ requests) : (arena.run requests).2.slots.size =
    arena.slots.size + requests.countP Request.isAlloc := by
  induction requests generalizing arena with
  | nil => rfl
  | cons request requests ih =>
    rw [List.mem_cons, not_or] at h
    have hlast : ((arena.step request).2.run requests).2.slots.size =
        (arena.step request).2.slots.size + requests.countP Request.isAlloc := ih h.2
    rw [step_size (Ne.symm h.1)] at hlast
    rw [← List.singleton_append, List.countP_append, ← Nat.add_assoc]
    exact hlast

theorem run_ids (h : .clear ∉ requests) : (arena.run requests).1.filterMap Answer.id? =
    (List.range' arena.slots.size (requests.countP Request.isAlloc)).map NodeId.ofCount := by
  induction requests generalizing arena with
  | nil => rfl
  | cons request requests ih =>
    rw [List.mem_cons, not_or] at h
    have hids : ((arena.step request).2.run requests).1.filterMap Answer.id? =
        (List.range' (arena.step request).2.slots.size (requests.countP Request.isAlloc)).map
          NodeId.ofCount := ih h.2
    rw [step_size (Ne.symm h.1)] at hids
    cases request with
    | alloc node =>
      rw [List.countP_cons_of_pos rfl, List.range'_succ, List.map_cons]
      exact congrArg (List.cons _) hids
    | take id => exact hids
    | check id => exact hids
    | get id => exact hids
    | clear => exact absurd rfl h.1

theorem handed_eq (h : .clear ∉ requests) : handed requests =
    (List.range (requests.countP Request.isAlloc)).map NodeId.ofCount := by
  rw [handed, run_ids h, List.range_eq_range']
  rfl

theorem step_slot {i : Nat} {slot : Option Node} (hslot : arena.slots[i]? = some slot)
    (hclear : request ≠ .clear) (htake : ∀ id : NodeId, id.index = i → request ≠ .take id) :
    (arena.step request).2.slots[i]? = some slot := by
  cases request with
  | alloc node =>
    have hi := (Array.getElem?_eq_some_iff.1 hslot).1
    exact (Array.getElem?_push_lt hi).trans (Array.getElem?_eq_getElem hi ▸ hslot)
  | take id =>
    rcases arena.take_cases id with ⟨node, -, -, -, hnode⟩ | ⟨error, -, -, herror⟩
    · have hother : i ≠ id.index := fun he => htake id he.symm rfl
      exact (take_slots hnode i).trans ((if_neg hother).trans hslot)
    · simp only [step, herror]
      exact hslot
  | check id => exact hslot
  | get id => exact hslot
  | clear => exact absurd rfl hclear

theorem run_slot {i : Nat} {slot : Option Node} (hslot : arena.slots[i]? = some slot)
    (hclear : .clear ∉ requests) (htake : ∀ id : NodeId, id.index = i → .take id ∉ requests) :
    (arena.run requests).2.slots[i]? = some slot := by
  induction requests generalizing arena with
  | nil => exact hslot
  | cons request requests ih =>
    rw [List.mem_cons, not_or] at hclear
    refine ih (step_slot hslot (Ne.symm hclear.1) fun id hi he => htake id hi ?_) hclear.2
      fun id hi hmem => htake id hi (List.mem_cons_of_mem _ hmem)
    rw [he]
    exact List.mem_cons_self

/-- A node that is stored in a slot of its own number is there until it is taken. -/
theorem take_stored {id : NodeId} {node : Node} (hid : (arena.alloc node).1 = id)
    (hfit : arena.slots.size < 2 ^ 32) (hclear : .clear ∉ requests)
    (htake : .take id ∉ requests) :
    ((arena.run (.alloc node :: requests)).2.take id).1 = .ok node := by
  subst hid
  -- only as long as nothing is cut off, the id leads to the slot that has just been filled
  have hindex : (arena.alloc node).1.index = arena.slots.size :=
    (NodeId.index_ofCount _).trans (Nat.mod_eq_of_lt hfit)
  have hslot : (arena.alloc node).2.slots[(arena.alloc node).1.index]? = some (some node) := by
    rw [hindex]
    exact Array.getElem?_push_size
  have hkept := run_slot hslot hclear fun other hother hmem =>
    htake (NodeId.index_inj.1 hother ▸ hmem)
  rw [run]
  exact congrArg Prod.fst (take_held hkept)

/-- Without a clearing, the ids handed out are counts cut to 32 bits. They all differ if and only if
no more than `2 ^ 32` nodes have been stored. Each of these nodes is taken under its id, unless that
has been taken; a node stored after them gets an id that has been handed out before. -/
theorem ids_in_order {requests : List Request} (hclear : .clear ∉ requests) :
    handed requests = (List.range (requests.countP Request.isAlloc)).map NodeId.ofCount ∧
    ((handed requests).Nodup ↔ requests.countP Request.isAlloc ≤ 2 ^ 32) ∧
    ∀ before node after, requests = before ++ .alloc node :: after →
      let id := ((empty.run before).2.alloc node).1
      (before.countP Request.isAlloc < 2 ^ 32 → .take id ∉ after →
        ((empty.run requests).2.take id).1 = .ok node) ∧
      (2 ^ 32 ≤ before.countP Request.isAlloc → id ∈ handed before) := by
  refine ⟨handed_eq hclear, ?_, ?_⟩
  · rw [handed_eq hclear]
    exact NodeId.nodup_ofCount
  · rintro before node after rfl id
    rw [List.mem_append, List.mem_cons, not_or, not_or] at hclear
    obtain ⟨hbefore, -, hafter⟩ := hclear
    have hsize : (empty.run before).2.slots.size = before.countP Request.isAlloc :=
      (run_size hbefore).trans (Nat.zero_add _)
    constructor
    · intro hfit htake
      rw [run_append]
      exact take_stored rfl (hsize ▸ hfit) hafter htake
    · intro hfull
      have hid : id = NodeId.ofCount (before.countP Request.isAlloc % 2 ^ 32) := by
        rw [NodeId.ofCount_mod, ← hsize]
        rfl
      have hlt : before.countP Request.isAlloc % 2 ^ 32 < before.countP Request.isAlloc :=
        (Nat.mod_lt _ (by decide)).trans_le hfull
      rw [handed_eq hbefore, hid]
      exact List.mem_map_of_mem (List.mem_range.2 hlt)

def oneTaken : List Request :=
  let leaf (value : String) : Node := .leaf .identifier {} value
  [.get ⟨0⟩, .alloc (leaf "a"), .take ⟨4⟩, .alloc (leaf "b"), .take ⟨1⟩]

theorem oneTaken_in_order : .clear ∉ oneTaken ∧ handed oneTaken = [⟨0⟩, ⟨1⟩] ∧
    ((empty.run oneTaken).2.take ⟨0⟩).1 = .ok (.leaf .identifier {} "a") := by
  have hclear : .clear ∉ oneTaken := by decide
  obtain ⟨hhanded, -, hown⟩ := ids_in_order hclear
  exact ⟨hclear, hhanded, (hown [.get ⟨0⟩] _ _ rfl).1 (by decide) (by decide)⟩

/-- When `2 ^ 32` nodes have been stored, the next one gets the id of the first, which is still
there: it is the first that is taken under this id. -/
theorem first_id_again :
    let first : Node := .leaf .identifier {} "a"
    let last : Node := .leaf .identifier {} "b"
    let before := List.replicate (2 ^ 32) (Request.alloc first)
    .clear ∉ before ++ [.alloc last] ∧
      ((empty.run before).2.alloc last).1 = (empty.alloc first).1 ∧
      ¬ (handed (before ++ [.alloc last])).Nodup ∧
      ((empty.run (before ++ [.alloc last])).2.take (empty.alloc first).1).1 = .ok first ∧
      first ≠ last := by
  intro first last before
  have hmem {request : Request} (h : request ∈ before ++ [.alloc last]) :
      request.isAlloc = true := by
    rw [List.mem_append, List.mem_singleton] at h
    rcases h with h | rfl
    · rw [List.eq_of_mem_replicate h]
      rfl
    · rfl
  have hclear : .clear ∉ before ++ [.alloc last] := fun h => Bool.false_ne_true (hmem h)
  have hbefore : .clear ∉ before := fun h => hclear (List.mem_append_left _ h)
  have hcount : before.countP Request.isAlloc = 2 ^ 32 := by
    rw [List.countP_replicate]
    rfl
  have hsize : (empty.run before).2.slots.size = 2 ^ 32 := by
    rw [run_size hbefore, hcount]
    rfl
  refine ⟨hclear, ?_, ?_, ?_, by decide⟩
  · show NodeId.ofCount (empty.run before).2.slots.size = NodeId.ofCount 0
    rw [hsize, ← NodeId.ofCount_mod, Nat.mod_self]
  · rw [handed_eq hclear, NodeId.nodup_ofCount, List.countP_append, hcount]
    decide
  · have hfirst : before = .alloc first :: List.replicate (2 ^ 32 - 1) (.alloc first) :=
      List.replicate_succ
    have htake (id : NodeId) : .take id ∉ before ++ [.alloc last] := fun h =>
      Bool.false_ne_true (hmem h)
    -- all the others are stored after the first, and none is taken
    rw [hfirst, List.cons_append] at hclear htake ⊢
    rw [List.mem_cons, not_or] at hclear
    exact take_stored rfl (Nat.two_pow_pos 32) hclear.2 fun h =>
      htake _ (List.mem_cons_of_mem _ h)

end Arena

end SyntaxTree
