import SyntaxTree.Build.Arena

set_option autoImplicit false

namespace SyntaxTree.Arena

variable {arena : Arena} {id : NodeId} {node : Node}

theorem check_unknown (h : arena.slots[id.index]? = none) :
    arena.check id = .error (.unknownNode id) := by simp [check, h]

theorem check_taken (h : arena.slots[id.index]? = some none) :
    arena.check id = .error (.alreadyTaken id) := by simp [check, h]

theorem check_held (h : arena.slots[id.index]? = some (some node)) : arena.check id = .ok () := by
  simp [check, h]

theorem take_unknown (h : arena.slots[id.index]? = none) :
    arena.take id = (.error (.unknownNode id), arena) := by simp [take, check_unknown h]

theorem take_taken (h : arena.slots[id.index]? = some none) :
    arena.take id = (.error (.alreadyTaken id), arena) := by simp [take, check_taken h]

theorem take_held (h : arena.slots[id.index]? = some (some node)) : arena.take id =
    (.ok node, ⟨arena.slots.setIfInBounds id.index none, arena.live - 1⟩) := by
  simp [take, check_held h, get?, h]

theorem getElem?_set_none (slots : Array (Option Node)) {i : Nat} {o : Option Node}
    (h : slots[i]? = some o) (j : Nat) : (slots.setIfInBounds i none)[j]? =
      if j = i then some none else slots[j]? := by
  have hi : i < slots.size := (Array.getElem?_eq_some_iff.1 h).1
  rw [Array.getElem?_setIfInBounds]
  by_cases hj : j = i
  · simp [hj, hi]
  · have hij : ¬ i = j := fun he => hj he.symm
    simp [hj, hij]

theorem takeAll_held {held : List (NodeId × Node)}
    (h : ∀ entry ∈ held, arena.slots[entry.1.index]? = some (some entry.2))
    (hids : (held.map fun entry => entry.1.index).Nodup) :
    ∃ after, arena.takeAll (held.map Prod.fst) = (.ok (held.map Prod.snd), after) ∧
      after.slots.size = arena.slots.size ∧
      ∀ i, after.slots[i]? =
        if i ∈ held.map (fun entry => entry.1.index) then some none else arena.slots[i]? := by
  induction held generalizing arena with
  | nil => exact ⟨arena, rfl, rfl, fun i => rfl⟩
  | cons entry held ih =>
    have hentry := h entry (by simp)
    have hset := getElem?_set_none arena.slots hentry
    rw [List.map_cons, List.nodup_cons] at hids
    have hrest : ∀ other ∈ held,
        (arena.slots.setIfInBounds entry.1.index none)[other.1.index]? =
          some (some other.2) := by
      intro other ho
      have hne : other.1.index ≠ entry.1.index := fun he =>
        hids.1 (List.mem_map.2 ⟨other, ho, he⟩)
      rw [hset, if_neg hne]
      exact h other (List.mem_cons_of_mem _ ho)
    obtain ⟨after, htake, hsize, hslots⟩ :=
      @ih ⟨arena.slots.setIfInBounds entry.1.index none, arena.live - 1⟩ hrest hids.2
    refine ⟨after, ?_, ?_, fun i => ?_⟩
    · simp [takeAll, take_held hentry, htake]
    · rw [hsize, Array.size_setIfInBounds]
    · rw [hslots, hset, List.map_cons]
      by_cases hi : i = entry.1.index
      · simp [hi]
      · simp only [List.mem_cons, hi, if_false, false_or]

end SyntaxTree.Arena
