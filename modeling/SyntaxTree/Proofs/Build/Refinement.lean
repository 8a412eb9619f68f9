import SyntaxTree.Proofs.Build.Arena
import SyntaxTree.Proofs.Build.Scopes

set_option autoImplicit false

namespace SyntaxTree

namespace TreeBuilder

def step (builder : TreeBuilder) : Operation → Reply × TreeBuilder
  | .openList => (.done, builder.openList)
  | .emit node => (.id (builder.emit node).1, (builder.emit node).2)
  | .alloc node => (.id (builder.alloc node).1, (builder.alloc node).2)
  | .take id => (.node (builder.take id).1, (builder.take id).2)
  | .closeList => (.nodes builder.closeList.1, builder.closeList.2)
  | .finish root => (.node (builder.finish root).1, (builder.finish root).2)
  | .reset => (.done, .empty)

def run (builder : TreeBuilder) : List Operation → List Reply × TreeBuilder
  | [] => ([], builder)
  | operation :: operations =>
    let (reply, next) := builder.step operation
    let (replies, last) := next.run operations
    (reply :: replies, last)

/-- A builder stores what the scopes own: the ids of the lists stand in the buffer, and every slot
holds the node of the child with its number, if there is one and it has not been taken. -/
structure Refines (builder : TreeBuilder) (scopes : Scopes) : Prop where
  lists : builder.lists.Holds (scopes.levels.map Child.nodeId)
  size : builder.arena.slots.size = scopes.stored
  held : ∀ child ∈ scopes.children, builder.arena.slots[child.id]? = some child.content
  moved : ∀ i < scopes.stored, (∀ child ∈ scopes.children, child.id ≠ i) →
    builder.arena.slots[i]? = some none
  valid : scopes.Valid

theorem refines_empty : empty.Refines .empty :=
  ⟨ScopedList.holds_empty, rfl, nofun, nofun, Scopes.valid_empty⟩

variable {builder : TreeBuilder} {scopes : Scopes}

namespace Refines

theorem depth_eq (h : builder.Refines scopes) : builder.depth = scopes.levels.scopes.length := by
  rw [depth, h.lists.depth, Levels.map, List.length_map]

theorem current_eq (h : builder.Refines scopes) :
    builder.lists.current = scopes.levels.innermost.map Child.nodeId := by
  rw [h.lists.current, Levels.innermost_map]

theorem mem_innermost {child : Child} (hc : child ∈ scopes.levels.innermost) :
    child ∈ scopes.children := by
  rw [Scopes.children, Levels.items_pop]
  exact List.mem_append_left _ (List.mem_append_right _ hc)

theorem store (h : builder.Refines scopes) {node : Node} {lists : ScopedList NodeId}
    {next : Scopes} (hlists : lists.Holds (next.levels.map Child.nodeId))
    (hc : next.children.Perm (⟨scopes.stored, node, false⟩ :: scopes.children))
    (hs : next.stored = scopes.stored + 1) :
    Refines ⟨(builder.arena.alloc node).2, lists⟩ next := by
  have hold {i : Nat} (hi : i < scopes.stored) :
      (builder.arena.slots.push (some node))[i]? = builder.arena.slots[i]? := by
    rw [Array.getElem?_push, h.size, if_neg (by omega)]
  constructor
  · exact hlists
  · simp [Arena.alloc, h.size, hs]
  · intro child hmem
    rcases List.mem_cons.1 (hc.mem_iff.1 hmem) with rfl | hmem
    · simp [Arena.alloc, Child.content, ← h.size]
    · exact (hold (h.valid.lt child hmem)).trans (h.held child hmem)
  · intro i hi hnone
    have hne : scopes.stored ≠ i := hnone ⟨scopes.stored, node, false⟩ (hc.mem_iff.2 (by simp))
    have hlt : i < scopes.stored := by omega
    have hmoved := h.moved i hlt fun child hmem =>
      hnone child (hc.mem_iff.2 (List.mem_cons_of_mem _ hmem))
    exact (hold hlt).trans hmoved
  · exact h.valid.store hc hs

theorem alloc_fst (h : builder.Refines scopes) (node : Node) :
    (builder.arena.alloc node).1 = Child.nodeId ⟨scopes.stored, node, false⟩ := by
  rw [Arena.alloc, h.size]
  rfl

theorem emit_step (h : builder.Refines scopes) (node : Node) :
    (builder.step (.emit node)).1 = (scopes.step (.emit node)).1 ∧
      (builder.step (.emit node)).2.Refines (scopes.step (.emit node)).2 := by
  constructor
  · exact congrArg Reply.id (h.alloc_fst node)
  · refine h.store ?_ (scopes.children_emit _) rfl
    have hlists := h.lists.add (Child.nodeId ⟨scopes.stored, node, false⟩)
    rw [← Levels.map_add, ← h.alloc_fst node] at hlists
    exact hlists

theorem alloc_step (h : builder.Refines scopes) (node : Node) :
    (builder.step (.alloc node)).1 = (scopes.step (.alloc node)).1 ∧
      (builder.step (.alloc node)).2.Refines (scopes.step (.alloc node)).2 := by
  exact ⟨congrArg Reply.id (h.alloc_fst node), h.store h.lists (scopes.children_alloc _) rfl⟩

theorem openList_step (h : builder.Refines scopes) :
    (builder.step .openList).2.Refines (scopes.step .openList).2 := by
  have hchildren : Scopes.children { scopes with levels := scopes.levels.push } =
      scopes.children := by
    rw [Scopes.children, Scopes.children, Levels.items_push]
  constructor
  · exact h.lists.push
  · exact h.size
  · intro child hc
    exact h.held child (hchildren ▸ hc)
  · intro i hi hnone
    exact h.moved i hi (hchildren ▸ hnone)
  · exact ⟨hchildren ▸ h.valid.nodup, fun child hc => h.valid.lt child (hchildren ▸ hc)⟩

theorem slot_eq (h : builder.Refines scopes) {i : Nat} (hi : i < scopes.stored) :
    builder.arena.slots[i]? = some (scopes.node? i) := by
  unfold Scopes.node?
  cases hf : scopes.children.find? (·.id = i) with
  | none =>
    refine h.moved i hi fun child hc he => ?_
    exact List.find?_eq_none.1 hf child hc (by simpa using he)
  | some child =>
    have hid : child.id = i := by simpa using List.find?_some hf
    rw [← hid]
    exact h.held child (List.mem_of_find?_eq_some hf)

theorem slot_ge (h : builder.Refines scopes) {i : Nat} (hi : scopes.stored ≤ i) :
    builder.arena.slots[i]? = none := by
  rw [← h.size] at hi
  exact Array.getElem?_eq_none hi

theorem release (h : builder.Refines scopes) {id : NodeId} {node : Node}
    (hslot : builder.arena.slots[id.index]? = some (some node)) (live : Nat) :
    Refines ⟨⟨builder.arena.slots.setIfInBounds id.index none, live⟩, builder.lists⟩
      (scopes.release id.index) := by
  have hset := Arena.getElem?_set_none builder.arena.slots hslot
  constructor
  · have hids : (Child.nodeId ∘ Child.release id.index) = Child.nodeId := by
      funext child
      exact child.release_nodeId id.index
    simp only [Scopes.release, Levels.map_map, hids]
    exact h.lists
  · simp [Scopes.release, h.size]
  · intro child hc
    rw [Scopes.children_release] at hc
    obtain ⟨old, hold, rfl⟩ := List.mem_map.1 hc
    rw [Child.release_id, hset]
    rw [Child.content_release]
    by_cases hid : old.id = id.index
    · rw [if_pos hid, if_pos hid]
    · rw [if_neg hid, if_neg hid, h.held old hold]
  · intro i hi hnone
    rw [hset]
    by_cases hid : i = id.index
    · rw [if_pos hid]
    · rw [if_neg hid]
      refine h.moved i hi fun child hc => ?_
      have hmem : child.release id.index ∈ (scopes.release id.index).children := by
        rw [Scopes.children_release]
        exact List.mem_map_of_mem hc
      have hne := hnone _ hmem
      rwa [Child.release_id] at hne
  · exact h.valid.release id.index

theorem take_step (h : builder.Refines scopes) (id : NodeId) :
    (builder.step (.take id)).1 = (scopes.step (.take id)).1 ∧
      (builder.step (.take id)).2.Refines (scopes.step (.take id)).2 := by
  by_cases hi : id.index < scopes.stored
  · have hslot := h.slot_eq hi
    cases hn : scopes.node? id.index with
    | none =>
      rw [hn] at hslot
      have ht := Arena.take_taken hslot
      simp only [step, take, ht, Scopes.step, hi, if_true, hn]
      exact ⟨trivial, h⟩
    | some node =>
      rw [hn] at hslot
      have ht := Arena.take_held hslot
      simp only [step, take, ht, Scopes.step, hi, if_true, hn]
      exact ⟨trivial, h.release hslot _⟩
  · have ht := Arena.take_unknown (h.slot_ge (Nat.le_of_not_lt hi))
    simp only [step, take, ht, Scopes.step, hi, if_false]
    exact ⟨trivial, h⟩

theorem forM_check {arena : Arena} {children : List Child}
    (h : ∀ child ∈ children, arena.slots[child.nodeId.index]? = some child.content) :
    (children.map Child.nodeId).forM arena.check =
      match children.find? Child.taken with
      | some child => .error (.alreadyTaken child.nodeId)
      | none => .ok () := by
  induction children with
  | nil => rfl
  | cons child children ih =>
    have hchild := h child (by simp)
    have hrest := ih fun other ho => h other (List.mem_cons_of_mem _ ho)
    show (arena.check child.nodeId >>= fun _ => (children.map Child.nodeId).forM arena.check) = _
    cases ht : child.taken with
    | true =>
      rw [Child.content, if_pos ht] at hchild
      rw [Arena.check_taken hchild, List.find?_cons_of_pos ht]
      rfl
    | false =>
      rw [Child.content, if_neg (by simp [ht])] at hchild
      rw [Arena.check_held hchild, List.find?_cons_of_neg (by simp [ht])]
      exact hrest

theorem index_eq (h : builder.Refines scopes) (hfit : scopes.stored < UInt32.size) {child : Child}
    (hc : child ∈ scopes.levels.innermost) : child.nodeId.index = child.id := by
  have hlt := h.valid.lt child (mem_innermost hc)
  exact Child.nodeId_index (by omega)

theorem slot_innermost (h : builder.Refines scopes) (hfit : scopes.stored < UInt32.size)
    {child : Child} (hc : child ∈ scopes.levels.innermost) :
    builder.arena.slots[child.nodeId.index]? = some child.content := by
  rw [h.index_eq hfit hc]
  exact h.held child (mem_innermost hc)

theorem closeList_taken (h : builder.Refines scopes) (hfit : scopes.stored < UInt32.size)
    {child : Child} (ht : scopes.levels.innermost.find? Child.taken = some child) :
    builder.closeList = (.error (.alreadyTaken child.nodeId), builder) := by
  have hcheck := forM_check fun child hc => h.slot_innermost hfit hc
  rw [ht] at hcheck
  simp only [closeList, h.current_eq, hcheck]

theorem closeList_held (h : builder.Refines scopes) (hfit : scopes.stored < UInt32.size)
    (ht : scopes.levels.innermost.find? Child.taken = none) :
    ∃ arena : Arena,
      builder.closeList =
        (.ok (scopes.levels.innermost.map Child.node), ⟨arena, builder.lists.pop.2⟩) ∧
      arena.slots.size = builder.arena.slots.size ∧
      ∀ i, arena.slots[i]? =
        if i ∈ scopes.levels.innermost.map Child.id then some none
        else builder.arena.slots[i]? := by
  have hcheck := forM_check fun child hc => h.slot_innermost hfit hc
  rw [ht] at hcheck
  let entries := scopes.levels.innermost.map fun child => (child.nodeId, child.node)
  have hfst : entries.map Prod.fst = scopes.levels.innermost.map Child.nodeId := by
    simp [entries, Function.comp_def]
  have hsnd : entries.map Prod.snd = scopes.levels.innermost.map Child.node := by
    simp [entries, Function.comp_def]
  have hids : entries.map (fun entry => entry.1.index) = scopes.levels.innermost.map Child.id := by
    rw [List.map_map]
    exact List.map_congr_left fun child hc => h.index_eq hfit hc
  have hnodup : (scopes.levels.innermost.map Child.id).Nodup := by
    have hall := h.valid.nodup
    rw [Scopes.children, Levels.items_pop] at hall
    have hsub := (List.sublist_append_right scopes.levels.pop.items scopes.levels.innermost).trans
      (List.sublist_append_left _ scopes.loose)
    exact hall.sublist (hsub.map Child.id)
  have hentries : ∀ entry ∈ entries,
      builder.arena.slots[entry.1.index]? = some (some entry.2) := by
    intro entry he
    obtain ⟨child, hc, rfl⟩ := List.mem_map.1 he
    have hslot := h.slot_innermost hfit hc
    rwa [Child.content, if_neg (List.find?_eq_none.1 ht child hc)] at hslot
  obtain ⟨arena, htake, hsize, hslots⟩ := Arena.takeAll_held hentries (hids ▸ hnodup)
  rw [hfst, hsnd] at htake
  rw [hids] at hslots
  refine ⟨arena, ?_, hsize, hslots⟩
  simp only [closeList, h.current_eq, hcheck, ScopedList.pop, htake]

theorem pop (h : builder.Refines scopes) {arena : Arena}
    (hsize : arena.slots.size = builder.arena.slots.size)
    (hslots : ∀ i, arena.slots[i]? =
      if i ∈ scopes.levels.innermost.map Child.id then some none else builder.arena.slots[i]?) :
    Refines ⟨arena, builder.lists.pop.2⟩ { scopes with levels := scopes.levels.pop } := by
  constructor
  · rw [Levels.map_pop]
    exact h.lists.pop_snd
  · exact hsize.trans h.size
  · intro child hc
    have hnone : child.id ∉ scopes.levels.innermost.map Child.id := by
      intro hmem
      obtain ⟨other, ho, he⟩ := List.mem_map.1 hmem
      exact h.valid.pop_disjoint hc ho he.symm
    rw [hslots, if_neg hnone]
    exact h.held child (scopes.children_pop.subset hc)
  · intro i hi hnone
    rw [hslots]
    by_cases hmem : i ∈ scopes.levels.innermost.map Child.id
    · rw [if_pos hmem]
    · rw [if_neg hmem]
      refine h.moved i hi fun child hc he => ?_
      rw [Scopes.children, Levels.items_pop, List.append_assoc, List.mem_append,
        List.mem_append] at hc
      rcases hc with hc | hc | hc
      · exact hnone child (List.mem_append_left _ hc) he
      · exact hmem (List.mem_map.2 ⟨child, hc, he⟩)
      · exact hnone child (List.mem_append_right _ hc) he
  · exact h.valid.pop

theorem closeList_step (h : builder.Refines scopes) (hfit : scopes.stored < UInt32.size) :
    (builder.step .closeList).1 = (scopes.step .closeList).1 ∧
      (builder.step .closeList).2.Refines (scopes.step .closeList).2 := by
  cases ht : scopes.levels.innermost.find? Child.taken with
  | some child =>
    simp only [step, h.closeList_taken hfit ht, Scopes.step, Scopes.close, ht]
    exact ⟨trivial, h⟩
  | none =>
    obtain ⟨arena, hclose, hsize, hslots⟩ := h.closeList_held hfit ht
    simp only [step, hclose, Scopes.step, Scopes.close, ht]
    exact ⟨trivial, h.pop hsize hslots⟩

theorem finish_step (h : builder.Refines scopes) (root : Node) :
    (builder.step (.finish root)).1 = (scopes.step (.finish root)).1 ∧
      (builder.step (.finish root)).2.Refines (scopes.step (.finish root)).2 := by
  have hdepth := h.depth_eq
  by_cases hopen : scopes.levels.scopes.length > 0
  · simp only [step, finish, hdepth, Scopes.step, hopen, if_true]
    exact ⟨trivial, h⟩
  · simp only [step, finish, hdepth, Scopes.step, hopen, if_false]
    exact ⟨trivial, refines_empty⟩

/-- Whatever a builder is asked, it answers as the scopes do and goes on to store what they own. -/
theorem step_eq (h : builder.Refines scopes) (hfit : scopes.stored < UInt32.size)
    (operation : Operation) :
    (builder.step operation).1 = (scopes.step operation).1 ∧
      (builder.step operation).2.Refines (scopes.step operation).2 := by
  cases operation with
  | openList => exact ⟨rfl, h.openList_step⟩
  | emit node => exact h.emit_step node
  | alloc node => exact h.alloc_step node
  | take id => exact h.take_step id
  | closeList => exact h.closeList_step hfit
  | finish root => exact h.finish_step root
  | reset => exact ⟨rfl, refines_empty⟩

end Refines

end TreeBuilder

end SyntaxTree
