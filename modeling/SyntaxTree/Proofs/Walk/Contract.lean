import SyntaxTree.Proofs.Walk.Nesting

/-! What every visitor can rely on. Its calls are properly nested; a node is entered, and later
left, unless a node above it has been skipped; the roles of a node stand around its children; and
the summary counts what has been passed. -/

set_option autoImplicit false

namespace SyntaxTree

/-- Does what a visitor does and writes down every call. -/
def Visitor.logged {σ : Type} (visitor : Visitor σ) : Visitor (σ × List Call) where
  enterNode node state :=
    let (answer, inner) := visitor.enterNode node state.1
    (answer, inner, state.2 ++ [.enterNode node answer])
  leaveNode node state := (visitor.leaveNode node state.1, state.2 ++ [.leaveNode node])
  enterRole role isList state :=
    (visitor.enterRole role isList state.1, state.2 ++ [.enterRole role isList])
  leaveRole role isList state :=
    (visitor.leaveRole role isList state.1, state.2 ++ [.leaveRole role isList])

@[simp] theorem Visitor.logged_leaveNode {σ : Type} (visitor : Visitor σ) (node : Node)
    (state : σ × List Call) : visitor.logged.leaveNode node state =
      (visitor.leaveNode node state.1, state.2 ++ [.leaveNode node]) := rfl

@[simp] theorem Visitor.logged_enterRole {σ : Type} (visitor : Visitor σ) (role : Role)
    (isList : Bool) (state : σ × List Call) : visitor.logged.enterRole role isList state =
      (visitor.enterRole role isList state.1, state.2 ++ [.enterRole role isList]) := rfl

@[simp] theorem Visitor.logged_leaveRole {σ : Type} (visitor : Visitor σ) (role : Role)
    (isList : Bool) (state : σ × List Call) : visitor.logged.leaveRole role isList state =
      (visitor.leaveRole role isList state.1, state.2 ++ [.leaveRole role isList]) := rfl

theorem Visitor.logged_extends {σ : Type} (visitor : Visitor σ) :
    visitor.logged.Extends Prod.fst visitor := by
  constructor <;> intros <;> rfl

def Visitor.log {σ : Type} (visitor : Visitor σ) (state : σ) (root : Node) : List Call :=
  (root.traverse visitor.logged (state, [])).state.2

namespace Summary

def pass (depth : Nat) (skips : Skips) (summary : Summary) (place : Place) : Summary :=
  if skips place.path then (summary.enter (depth + place.depth)).skip
  else summary.enter (depth + place.depth)

theorem pass_under (depth : Nat) (skips : Skips) (i : Nat) (summary : Summary) (place : Place) :
    summary.pass depth skips (place.under i) = summary.pass (depth + 1) (skips.below i) place := by
  have hdepth : depth + (place.under i).depth = depth + 1 + place.depth := by
    simp only [Place.depth, Place.under, List.length_cons]
    omega
  have hskips : skips (place.under i).path = skips.below i place.path := rfl
  rw [pass, pass, hdepth, hskips]

theorem foldl_pass_under (depth : Nat) (skips : Skips) (i : Nat) (places : List Place)
    (summary : Summary) : (places.map (Place.under i)).foldl (pass depth skips) summary =
      places.foldl (pass (depth + 1) (skips.below i)) summary := by
  simp only [List.foldl_map, pass_under]

end Summary

namespace Skips

def Agree (i n : Nat) (skips other : Skips) : Prop :=
  ∀ j, i ≤ j → j < i + n → skips.below j = other.below j

def split (n : Nat) (skips rest : Skips) : Skips
  | [] => false
  | i :: path => if i < n then skips (i :: path) else rest (i :: path)

theorem Agree.split_left {i n k : Nat} {skips first rest : Skips}
    (h : skips.Agree i (n + k) (split (i + n) first rest)) : skips.Agree i n first := by
  intro j hi hj
  rw [h j hi (by omega)]
  funext path
  exact if_pos hj

theorem Agree.split_right {i n k : Nat} {skips first rest : Skips}
    (h : skips.Agree i (n + k) (split (i + n) first rest)) : skips.Agree (i + n) k rest := by
  intro j hi hj
  rw [h j (by omega) (by omega)]
  funext path
  exact if_neg (by omega)

def atop (isSkipped : Bool) (skips : Skips) : Skips
  | [] => isSkipped
  | i :: path => skips (i :: path)

theorem atop_agree (isSkipped : Bool) (skips : Skips) (i n : Nat) :
    (atop isSkipped skips).Agree i n skips := fun _ _ _ => rfl

def ofChild (skips : Skips) : Skips := fun path => skips path.tail

end Skips

/-- A logged walk has gone on with some calls and passed some places. -/
structure Walk.Logs {σ : Type} (run after : Walk (σ × List Call)) (depth : Nat) (skips : Skips)
    (places : List Place) (calls : List Call) : Prop where
  calls : after.state.2 = run.state.2 ++ calls
  summary : after.summary = places.foldl (Summary.pass depth skips) run.summary

namespace Walk.Logs

variable {σ : Type} {run mid after : Walk (σ × List Call)} {depth : Nat} {skips : Skips}
  {places more : List Place} {calls others : List Call}

theorem refl : run.Logs run depth skips [] [] := ⟨(List.append_nil _).symm, rfl⟩

theorem trans (h : run.Logs mid depth skips places calls)
    (ht : mid.Logs after depth skips more others) :
    run.Logs after depth skips (places ++ more) (calls ++ others) := by
  constructor
  · rw [ht.calls, h.calls, List.append_assoc]
  · rw [ht.summary, h.summary, List.foldl_append]

theorem under {i : Nat} (h : run.Logs after (depth + 1) (skips.below i) places calls) :
    run.Logs after depth skips (places.map (Place.under i)) calls := by
  refine ⟨h.calls, ?_⟩
  rw [h.summary, Summary.foldl_pass_under]

theorem role {visitor : Visitor σ} {role : Role} {isList : Bool}
    {children : Walk (σ × List Call) → Walk (σ × List Call)}
    (h : (run.call (visitor.logged.enterRole role isList)).Logs
      (children (run.call (visitor.logged.enterRole role isList))) depth skips places calls) :
    run.Logs (Walk.role visitor.logged role isList children run) depth skips places
      (.enterRole role isList :: (calls ++ [.leaveRole role isList])) := by
  refine ⟨?_, h.summary⟩
  have hc := h.calls
  simp only [Walk.role, Walk.call, Visitor.logged_enterRole, Visitor.logged_leaveRole] at hc ⊢
  rw [hc]
  simp

end Walk.Logs

namespace Node

variable {σ : Type} {visitor : Visitor σ}

def IsLogged (visitor : Visitor σ) (node : Node) : Prop :=
  ∀ depth (run : Walk (σ × List Call)), ∃ skips : Skips,
    run.Logs (node.walk visitor.logged depth run) depth skips (skips.keep node.places)
      (node.calls skips)

theorem walkList_logs {nodes : List Node} (h : ∀ node ∈ nodes, node.IsLogged visitor)
    (depth i : Nat) (run : Walk (σ × List Call)) : ∃ found : Skips, ∀ skips : Skips,
      skips.Agree i nodes.length found → run.Logs (walkList visitor.logged nodes (depth + 1) run)
        depth skips (skips.keepFrom i (nodes.map places)) (listCalls skips i nodes) := by
  induction nodes generalizing i run with
  | nil => exact ⟨fun _ => false, fun skips _ => .refl⟩
  | cons node nodes ih =>
    obtain ⟨first, hfirst⟩ := h node (by simp) (depth + 1) run
    obtain ⟨rest, hrest⟩ := ih (fun n hn => h n (List.mem_cons_of_mem _ hn)) (i + 1)
      (node.walk visitor.logged (depth + 1) run)
    refine ⟨Skips.split (i + 1) first.ofChild rest, fun skips hs => ?_⟩
    rw [List.length_cons, Nat.add_comm] at hs
    have hbelow : skips.below i = first := hs.split_left i (Nat.le_refl i) (by omega)
    rw [← hbelow] at hfirst
    exact hfirst.under.trans (hrest skips hs.split_right)

theorem walkSlot_logs {slot : Role × Slot} (h : ∀ child ∈ slot.2.children, child.IsLogged visitor)
    (depth i : Nat) (run : Walk (σ × List Call)) : ∃ found : Skips, ∀ skips : Skips,
      skips.Agree i slot.2.children.length found →
      run.Logs (walkSlot visitor.logged slot (depth + 1) run) depth skips
        (skips.keepFrom i (slot.2.children.map places)) (roleCalls skips i slot) := by
  cases hw : slot.2.isWalked with
  | true =>
    obtain ⟨found, hfound⟩ := walkList_logs h depth i
      (run.call (visitor.logged.enterRole slot.1 slot.2.isList))
    refine ⟨found, fun skips hs => ?_⟩
    have hrole := (hfound skips hs).role
    simpa [walkSlot, roleCalls, hw] using hrole
  | false =>
    refine ⟨fun _ => false, fun skips _ => ?_⟩
    obtain ⟨role, slot⟩ := slot
    cases slot with
    | single o =>
      cases o with
      | none => exact .refl
      | some node => cases hw
    | list items => cases hw

theorem walkSlots_logs {slots : List (Role × Slot)}
    (h : ∀ slot ∈ slots, ∀ child ∈ slot.2.children, child.IsLogged visitor)
    (depth i : Nat) (run : Walk (σ × List Call)) : ∃ found : Skips, ∀ skips : Skips,
      skips.Agree i (slots.flatMap (·.2.children)).length found →
      run.Logs (walkSlots visitor.logged slots (depth + 1) run) depth skips
        (skips.keepFrom i ((slots.flatMap (·.2.children)).map places))
        (slotCalls skips i slots) := by
  induction slots generalizing i run with
  | nil => exact ⟨fun _ => false, fun skips _ => .refl⟩
  | cons slot slots ih =>
    obtain ⟨first, hfirst⟩ := walkSlot_logs (h slot (by simp)) depth i run
    obtain ⟨rest, hrest⟩ := ih (fun s hs => h s (List.mem_cons_of_mem _ hs))
      (i + slot.2.children.length) (walkSlot visitor.logged slot (depth + 1) run)
    refine ⟨Skips.split (i + slot.2.children.length) first rest, fun skips hs => ?_⟩
    rw [List.flatMap_cons, List.length_append] at hs
    have hboth := (hfirst skips hs.split_left).trans (hrest skips hs.split_right)
    rw [List.flatMap_cons, List.map_append, Skips.keepFrom_append, List.length_map, slotCalls_cons]
    exact hboth

theorem isLogged (visitor : Visitor σ) (node : Node) : node.IsLogged visitor := by
  induction node using Node.induction with
  | step node ih =>
    intro depth run
    cases henter : visitor.enterNode node run.state.1 with
    | mk answer state =>
      have hlogged : visitor.logged.enterNode node run.state =
          (answer, state, run.state.2 ++ [.enterNode node answer]) := by
        simp [Visitor.logged, henter]
      rw [walk_eq]
      cases answer with
      | skip =>
        refine ⟨fun _ => true, ?_⟩
        rw [Walk.node_skip hlogged]
        constructor
        · simp [calls_eq, callsInside, Skips.answer]
        · simp [Skips.keep_places, Summary.pass, Place.depth]
      | descend =>
        have hchildren : ∀ slot ∈ node.slots, ∀ child ∈ slot.2.children, child.IsLogged visitor :=
          fun slot hslot child hc => ih child (mem_children.2 ⟨slot, hslot, hc⟩)
        obtain ⟨found, hfound⟩ := walkSlots_logs hchildren depth 0
          ⟨(state, run.state.2 ++ [.enterNode node .descend]), run.summary.enter depth⟩
        have hslots := hfound (Skips.atop false found) (Skips.atop_agree false found 0 _)
        refine ⟨Skips.atop false found, ?_⟩
        rw [Walk.node_descend hlogged]
        constructor
        · have hc := hslots.calls
          simp [Walk.call, calls_eq, callsInside, Skips.answer, Skips.atop, hc]
        · have hs := hslots.summary
          simp [Walk.call, Skips.keep_places, Summary.pass, Place.depth, Skips.atop, hs, children]

end Node

namespace Summary

theorem foldl_pass_nodesEntered (depth : Nat) (skips : Skips) (places : List Place)
    (summary : Summary) : (places.foldl (pass depth skips) summary).nodesEntered =
      summary.nodesEntered + places.length := by
  induction places generalizing summary with
  | nil => rfl
  | cons place places ih =>
    have hone : (summary.pass depth skips place).nodesEntered = summary.nodesEntered + 1 := by
      unfold pass
      split <;> rfl
    rw [List.foldl_cons, ih, hone, List.length_cons]
    omega

theorem foldl_pass_nodesSkipped (depth : Nat) (skips : Skips) (places : List Place)
    (summary : Summary) : (places.foldl (pass depth skips) summary).nodesSkipped =
      summary.nodesSkipped + places.countP fun place => skips place.path := by
  induction places generalizing summary with
  | nil => rfl
  | cons place places ih =>
    have hone : (summary.pass depth skips place).nodesSkipped =
        summary.nodesSkipped + if skips place.path then 1 else 0 := by
      unfold pass
      split <;> rfl
    rw [List.foldl_cons, ih, hone, List.countP_cons]
    omega

theorem foldl_pass_maxDepth (depth : Nat) (skips : Skips) (places : List Place)
    (summary : Summary) : (places.foldl (pass depth skips) summary).maxDepth =
      (places.map fun place => depth + place.depth).foldl max summary.maxDepth := by
  induction places generalizing summary with
  | nil => rfl
  | cons place places ih =>
    have hone : (summary.pass depth skips place).maxDepth =
        max summary.maxDepth (depth + place.depth) := by
      unfold pass
      split <;> rfl
    rw [List.foldl_cons, ih, hone, List.map_cons, List.foldl_cons]

end Summary

theorem le_foldl_max (ns : List Nat) (k : Nat) :
    k ≤ ns.foldl max k ∧ ∀ n ∈ ns, n ≤ ns.foldl max k := by
  induction ns generalizing k with
  | nil => exact ⟨Nat.le_refl k, by simp⟩
  | cons m ns ih =>
    obtain ⟨hk, hns⟩ := ih (max k m)
    rw [List.foldl_cons]
    refine ⟨by omega, fun n hn => ?_⟩
    rcases List.mem_cons.1 hn with rfl | hn
    · omega
    · exact hns n hn

theorem foldl_max_mem (ns : List Nat) (k : Nat) : ns.foldl max k ∈ k :: ns := by
  induction ns generalizing k with
  | nil => simp
  | cons m ns ih =>
    have hm := ih (max k m)
    rw [List.foldl_cons]
    rcases List.mem_cons.1 hm with h | h
    · rw [h]
      rcases Nat.le_total k m with hle | hle
      · simp [Nat.max_eq_right hle]
      · simp [Nat.max_eq_left hle]
    · simp [h]

/-- What the calls of a walk through a tree and its summary are, if the children are skipped at the
given places. -/
structure Node.IsWalked (root : Node) (summary : Summary) (log : List Call) (skips : Skips) :
    Prop where
  /-- All that is entered is left, from the inside out. -/
  balanced : Call.Balanced log
  /-- Roles are entered in order, each around its children. -/
  roles : root.Follows log
  /-- A node is entered if no node above it is skipped, before its children. -/
  entered : log.filterMap Call.entered? =
    (skips.keep root.places).map fun place => (place.node, skips.answer place.path)
  /-- The same nodes are left, after their children. -/
  left : log.filterMap Call.left? = (skips.keep root.placesUpward).map Place.node
  nodesEntered : summary.nodesEntered = (log.filterMap Call.entered?).length
  nodesSkipped : summary.nodesSkipped = (log.filterMap Call.entered?).countP (·.2 = .skip)
  maxDepth_reached : ∃ place ∈ skips.keep root.places, place.depth = summary.maxDepth
  depth_le : ∀ place ∈ skips.keep root.places, place.depth ≤ summary.maxDepth

namespace Node

theorem root_kept (root : Node) (skips : Skips) : ⟨[], root⟩ ∈ skips.keep root.places := by
  rw [Skips.keep_places]
  exact List.mem_cons_self

theorem isWalked {σ : Type} {visitor : Visitor σ} {state : σ} {root : Node} {skips : Skips}
    (h : Walk.Logs ⟨(state, []), {}⟩ (root.traverse visitor.logged (state, [])) 0 skips
      (skips.keep root.places) (root.calls skips)) :
    root.IsWalked (root.traverse visitor.logged (state, [])).summary (visitor.log state root)
      skips := by
  have hlog : visitor.log state root = root.calls skips := h.calls
  have hentered := root.calls_entered skips
  have hdepth : (root.traverse visitor.logged (state, [])).summary.maxDepth =
      ((skips.keep root.places).map Place.depth).foldl max 0 := by
    rw [h.summary, Summary.foldl_pass_maxDepth]
    simp only [Nat.zero_add]
  constructor
  · rw [hlog]
    exact (root.calls_follow skips).balanced
  · rw [hlog]
    exact root.calls_follow skips
  · rw [hlog, hentered]
  · rw [hlog, root.calls_left skips]
  · rw [hlog, hentered, h.summary, Summary.foldl_pass_nodesEntered, List.length_map]
    exact Nat.zero_add _
  · rw [hlog, hentered, h.summary, Summary.foldl_pass_nodesSkipped, List.countP_map]
    have hanswer : ((fun answered : Node × Descent => decide (answered.2 = .skip)) ∘
        fun place : Place => (place.node, skips.answer place.path)) =
        fun place => skips place.path := by
      funext place
      cases hs : skips place.path <;> simp [Skips.answer, hs]
    rw [hanswer]
    exact Nat.zero_add _
  · rw [hdepth]
    have hmem := foldl_max_mem ((skips.keep root.places).map Place.depth) 0
    rcases List.mem_cons.1 hmem with hz | hmem
    · exact ⟨_, root.root_kept skips, hz.symm⟩
    · exact List.mem_map.1 hmem
  · intro place hp
    rw [hdepth]
    exact (le_foldl_max _ 0).2 _ (List.mem_map_of_mem hp)

/-- Whatever a visitor does, the walk through a tree keeps to the contract, at places listed once
each. Writing the calls down changes neither the state of the visitor nor the summary. -/
theorem traverse_contract {σ : Type} (visitor : Visitor σ) (state : σ) (root : Node) :
    (root.traverse visitor.logged (state, [])).state.1 = (root.traverse visitor state).state ∧
    (∃ skips : Skips,
      root.IsWalked (root.traverse visitor state).summary (visitor.log state root) skips) ∧
    (root.places.map Place.path).Nodup ∧ root.placesUpward.Perm root.places ∧
    ∀ place, place ∈ root.places ↔ root.at? place.path = some place.node := by
  have hmap := walk_map visitor.logged_extends root 0 ⟨(state, []), {}⟩
  have hstate := congrArg Walk.state hmap
  have hsummary : (root.traverse visitor state).summary =
      (root.traverse visitor.logged (state, [])).summary := congrArg Walk.summary hmap
  obtain ⟨skips, hlogs⟩ := root.isLogged visitor 0 ⟨(state, []), {}⟩
  refine ⟨hstate.symm, ⟨skips, ?_⟩, root.places_nodup, root.placesUpward_perm, fun place =>
    mem_places_iff⟩
  rw [hsummary]
  exact isWalked hlogs

end Node

end SyntaxTree
