import Mathlib.Data.List.Nodup
import SyntaxTree.Proofs.Build.History

set_option autoImplicit false

namespace SyntaxTree

namespace NodeId

theorem index_inj {id other : NodeId} : id.index = other.index ↔ id = other := by
  constructor
  · intro h
    have hnumber : id.number = other.number := UInt32.toNat_inj.1 h
    exact congrArg NodeId.mk hnumber
  · rintro rfl
    rfl

end NodeId

namespace Scopes

variable {scopes : Scopes}

theorem Valid.eq_of_id (h : scopes.Valid) {child other : Child} (hc : child ∈ scopes.children)
    (ho : other ∈ scopes.children) (hid : child.id = other.id) : child = other :=
  List.inj_on_of_nodup_map h.nodup hc ho hid

theorem Valid.index_eq (h : scopes.Valid) (hfit : scopes.stored < UInt32.size) {child : Child}
    (hc : child ∈ scopes.children) : child.nodeId.index = child.id := by
  have hlt := h.lt child hc
  exact Child.nodeId_index (by omega)

theorem node?_eq_some {i : Nat} {node : Node} (hn : scopes.node? i = some node) :
    ∃ child ∈ scopes.children, child.id = i ∧ child.taken = false := by
  obtain ⟨child, hfind, hcontent⟩ := Option.bind_eq_some_iff.1 hn
  have hid : child.id = i := by simpa using List.find?_some hfind
  refine ⟨child, List.mem_of_find?_eq_some hfind, hid, ?_⟩
  cases ht : child.taken with
  | false => rfl
  | true => simp [Child.content, ht] at hcontent

theorem Valid.node?_eq_none (h : scopes.Valid) {i : Nat} (hn : scopes.node? i = none)
    {child : Child} (hc : child ∈ scopes.children) (hid : child.id = i) : child.taken = true := by
  have hfind : scopes.children.find? (·.id = i) = some child := by
    cases hf : scopes.children.find? (·.id = i) with
    | none => exact absurd hid (by simpa using List.find?_eq_none.1 hf child hc)
    | some other =>
      have ho : other.id = i := by simpa using List.find?_some hf
      rw [h.eq_of_id (List.mem_of_find?_eq_some hf) hc (ho.trans hid.symm)]
  cases ht : child.taken with
  | true => rfl
  | false => simp [node?, hfind, Child.content, ht] at hn

end Scopes

/-- What is known of ids: those in the lists, those that have been handed out, and those whose nodes
have been moved out. -/
structure Ledger where
  lists : Levels NodeId
  handed : List NodeId
  moved : List NodeId

namespace Ledger

def empty : Ledger := ⟨.empty, [], []⟩

/-- What is known after one more operation. Only a list that was closed with success has its nodes
moved out. -/
def enter (ledger : Ledger) : Operation × Reply → Ledger
  | (.openList, _) => { ledger with lists := ledger.lists.push }
  | (.emit _, .id id) =>
    { ledger with lists := ledger.lists.add id, handed := id :: ledger.handed }
  | (.alloc _, .id id) => { ledger with handed := id :: ledger.handed }
  | (.take id, .node (.ok _)) => { ledger with moved := id :: ledger.moved }
  | (.closeList, .nodes (.ok _)) =>
    { ledger with lists := ledger.lists.pop, moved := ledger.lists.innermost ++ ledger.moved }
  | (.finish _, .node (.ok _)) => empty
  | (.reset, _) => empty
  | _ => ledger

def ofHistory (history : List (Operation × Reply)) : Ledger := history.foldl enter empty

structure Tells (ledger : Ledger) (scopes : Scopes) : Prop where
  lists : ledger.lists = scopes.levels.map Child.nodeId
  handed : ∀ id, id ∈ ledger.handed ↔ id.index < scopes.stored
  moved : ∀ id, id ∈ ledger.moved ↔ id.index < scopes.stored ∧
    ∀ child ∈ scopes.children, child.id = id.index → child.taken = true

theorem tells_empty : empty.Tells .empty := by
  constructor
  · rfl
  · intro id
    simp [empty, Scopes.empty]
  · intro id
    simp [empty, Scopes.empty]

namespace Tells

variable {ledger : Ledger} {scopes : Scopes}

theorem store (h : ledger.Tells scopes) (hfit : scopes.stored < UInt32.size) {node : Node}
    {lists : Levels NodeId} {next : Scopes} (hlists : lists = next.levels.map Child.nodeId)
    (hc : next.children.Perm (⟨scopes.stored, node, false⟩ :: scopes.children))
    (hs : next.stored = scopes.stored + 1) :
    Tells ⟨lists, Child.nodeId ⟨scopes.stored, node, false⟩ :: ledger.handed, ledger.moved⟩
      next := by
  have hindex : (Child.nodeId ⟨scopes.stored, node, false⟩).index = scopes.stored :=
    Child.nodeId_index hfit
  constructor
  · exact hlists
  · intro id
    rw [List.mem_cons, ← NodeId.index_inj, hindex, h.handed, hs]
    omega
  · intro id
    rw [h.moved, hs]
    constructor
    · rintro ⟨hlt, htaken⟩
      refine ⟨by omega, fun child hmem hid => ?_⟩
      rcases List.mem_cons.1 (hc.mem_iff.1 hmem) with rfl | hold
      · have hstored : scopes.stored = id.index := hid
        omega
      · exact htaken child hold hid
    · rintro ⟨hlt, htaken⟩
      have hold : ∀ child ∈ scopes.children, child.id = id.index → child.taken = true :=
        fun child hmem => htaken child (hc.mem_iff.2 (List.mem_cons_of_mem _ hmem))
      have hnew := htaken ⟨scopes.stored, node, false⟩ (hc.mem_iff.2 List.mem_cons_self)
      have hne : scopes.stored ≠ id.index := fun he => by simpa using hnew he
      exact ⟨by omega, hold⟩

theorem take (h : ledger.Tells scopes) {id : NodeId} (hid : id.index < scopes.stored) :
    Tells { ledger with moved := id :: ledger.moved } (scopes.release id.index) := by
  have hids : Child.nodeId ∘ Child.release id.index = Child.nodeId := by
    funext child
    exact child.release_nodeId id.index
  constructor
  · rw [Scopes.release, Levels.map_map, hids]
    exact h.lists
  · exact h.handed
  · intro other
    rw [List.mem_cons, h.moved, Scopes.children_release]
    constructor
    · rintro (rfl | ⟨hlt, htaken⟩)
      · refine ⟨hid, fun child hmem hchild => ?_⟩
        obtain ⟨old, -, rfl⟩ := List.mem_map.1 hmem
        rw [Child.release_id] at hchild
        simp [Child.release, hchild]
      · refine ⟨hlt, fun child hmem hchild => ?_⟩
        obtain ⟨old, hold, rfl⟩ := List.mem_map.1 hmem
        rw [Child.release_id] at hchild
        have ht := htaken old hold hchild
        unfold Child.release
        split
        · rfl
        · exact ht
    · rintro ⟨hlt, htaken⟩
      by_cases he : other = id
      · exact .inl he
      · refine .inr ⟨hlt, fun child hmem hchild => ?_⟩
        have ht := htaken _ (List.mem_map_of_mem hmem) (by rw [Child.release_id, hchild])
        have hne : ¬ child.id = id.index := fun hi => he (NodeId.index_inj.1 (hchild ▸ hi))
        simpa [Child.release, hne] using ht

theorem close (h : ledger.Tells scopes) (hvalid : scopes.Valid)
    (hfit : scopes.stored < UInt32.size) :
    Tells { ledger with lists := ledger.lists.pop, moved := ledger.lists.innermost ++ ledger.moved }
      { scopes with levels := scopes.levels.pop } := by
  have hchildren := scopes.children_pop
  have hinner {child : Child} (hc : child ∈ scopes.levels.innermost) : child ∈ scopes.children := by
    rw [Scopes.children, Levels.items_pop]
    exact List.mem_append_left _ (List.mem_append_right _ hc)
  constructor
  · rw [Levels.map_pop, ← h.lists]
  · exact h.handed
  · intro id
    rw [List.mem_append, h.moved, h.lists, Levels.innermost_map, List.mem_map]
    constructor
    · rintro (⟨child, hc, rfl⟩ | ⟨hlt, htaken⟩)
      · have hindex := hvalid.index_eq hfit (hinner hc)
        refine ⟨hindex ▸ hvalid.lt child (hinner hc), fun other ho hid => ?_⟩
        exact absurd (hid.trans hindex) (hvalid.pop_disjoint ho hc)
      · exact ⟨hlt, fun child hc => htaken child (hchildren.subset hc)⟩
    · rintro ⟨hlt, htaken⟩
      by_cases hmem : ∃ child ∈ scopes.levels.innermost, child.id = id.index
      · obtain ⟨child, hc, hid⟩ := hmem
        exact .inl ⟨child, hc, NodeId.index_inj.1 ((hvalid.index_eq hfit (hinner hc)).trans hid)⟩
      · refine .inr ⟨hlt, fun child hc hid => ?_⟩
        rw [Scopes.children, Levels.items_pop, List.append_assoc, List.mem_append,
          List.mem_append] at hc
        rcases hc with hc | hc | hc
        · exact htaken child (List.mem_append_left _ hc) hid
        · exact absurd ⟨child, hc, hid⟩ hmem
        · exact htaken child (List.mem_append_right _ hc) hid

theorem step (h : ledger.Tells scopes) (hvalid : scopes.Valid)
    (hfit : scopes.stored < UInt32.size) (operation : Operation) :
    (ledger.enter (operation, (scopes.step operation).1)).Tells (scopes.step operation).2 := by
  cases operation with
  | openList =>
    have hchildren : Scopes.children { scopes with levels := scopes.levels.push } =
        scopes.children := by
      rw [Scopes.children, Scopes.children, Levels.items_push]
    constructor
    · exact congrArg Levels.push h.lists
    · exact h.handed
    · intro id
      rw [Scopes.step, hchildren]
      exact h.moved id
  | emit node =>
    refine h.store hfit ?_ (scopes.children_emit _) rfl
    rw [h.lists]
    exact (Levels.map_add ..).symm
  | alloc node => exact h.store hfit h.lists (scopes.children_alloc _) rfl
  | take id =>
    by_cases hid : id.index < scopes.stored
    · cases hn : scopes.node? id.index with
      | none => simpa [Scopes.step, hid, hn, enter] using h
      | some node => simpa [Scopes.step, hid, hn, enter] using h.take hid
    · simpa [Scopes.step, hid, enter] using h
  | closeList =>
    cases ht : scopes.levels.innermost.find? Child.taken with
    | some child => simpa [Scopes.step, Scopes.close, ht, enter] using h
    | none => simpa [Scopes.step, Scopes.close, ht, enter] using h.close hvalid hfit
  | finish root =>
    by_cases hopen : scopes.levels.scopes.length > 0
    · simpa [Scopes.step, hopen, enter] using h
    · simpa [Scopes.step, hopen, enter] using tells_empty
  | reset => exact tells_empty

theorem taken_iff (h : ledger.Tells scopes) (hvalid : scopes.Valid)
    (hfit : scopes.stored < UInt32.size) {child : Child} (hc : child ∈ scopes.children) :
    child.taken = true ↔ child.nodeId ∈ ledger.moved := by
  have hindex := hvalid.index_eq hfit hc
  rw [h.moved, hindex]
  constructor
  · intro ht
    refine ⟨hvalid.lt child hc, fun other ho hid => ?_⟩
    rw [hvalid.eq_of_id ho hc hid]
    exact ht
  · rintro ⟨-, htaken⟩
    exact htaken child hc rfl

end Tells

end Ledger

end SyntaxTree
