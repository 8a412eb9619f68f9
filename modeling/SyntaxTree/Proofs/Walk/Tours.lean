import Mathlib.Data.List.Induction
import SyntaxTree.Proofs.Walk.Counts
import SyntaxTree.Proofs.Walk.Lines

/-! Walks through several trees with one visitor. What a recorder, a counter or a lister has found
in the end is what it finds in each tree by itself, put together, and it walks each tree as if it
had walked none before. -/

set_option autoImplicit false

namespace SyntaxTree

variable {σ : Type}

/-- Takes a visitor through trees, in the state that the walk before has left it in: the summaries
of the walks, and the state in the end. -/
def Visitor.tour (visitor : Visitor σ) (state : σ) : List Node → List Summary × σ
  | [] => ([], state)
  | tree :: trees =>
    let walk := tree.traverse visitor state
    let (summaries, last) := visitor.tour walk.state trees
    (walk.summary :: summaries, last)

def Traverser.tour (traverser : Traverser σ) : List Node → List Summary × Traverser σ
  | [] => ([], traverser)
  | tree :: trees =>
    let next := traverser.traverse tree
    let (summaries, last) := next.tour trees
    (next.summary :: summaries, last)

/-- Whether a visitor is taken through every one of the trees as from the start, whether one
traverser is used for all of them or a new one for each. -/
structure Visitor.WalksAfresh (visitor : Visitor σ) (start : σ) (trees : List Node) : Prop where
  summaries : (visitor.tour start trees).1 =
    trees.map fun tree => (tree.traverse visitor start).summary
  traverser : ∀ traverser : Traverser σ, traverser.visitor = visitor → traverser.state = start →
    (traverser.tour trees).1 = (visitor.tour start trees).1 ∧
      (traverser.tour trees).2.state = (visitor.tour start trees).2

namespace Visitor

variable {visitor : Visitor σ} {start : σ}

theorem tour_concat (visitor : Visitor σ) (state : σ) (trees : List Node) (tree : Node) :
    visitor.tour state (trees ++ [tree]) =
      ((visitor.tour state trees).1 ++
        [(tree.traverse visitor (visitor.tour state trees).2).summary],
      (tree.traverse visitor (visitor.tour state trees).2).state) := by
  induction trees generalizing state with
  | nil => rfl
  | cons first trees ih => simp [tour, ih]

theorem traverser_tour (traverser : Traverser σ) (trees : List Node) :
    (traverser.tour trees).1 = (traverser.visitor.tour traverser.state trees).1 ∧
      (traverser.tour trees).2.state = (traverser.visitor.tour traverser.state trees).2 := by
  induction trees generalizing traverser with
  | nil => exact ⟨rfl, rfl⟩
  | cons tree trees ih =>
    obtain ⟨hsummaries, hstate⟩ := ih (traverser.traverse tree)
    exact ⟨congrArg _ hsummaries, hstate⟩

/-- A visitor walks afresh if it walks every tree as from the start in all states that a walk can
leave it in. -/
theorem walksAfresh_of {P : σ → Prop} (hstart : P start)
    (hsummary : ∀ (tree : Node) state, P state →
      (tree.traverse visitor state).summary = (tree.traverse visitor start).summary)
    (hstate : ∀ (tree : Node) state, P state → P (tree.traverse visitor state).state)
    (trees : List Node) : visitor.WalksAfresh start trees := by
  constructor
  · have hall : P (visitor.tour start trees).2 ∧ (visitor.tour start trees).1 =
        trees.map fun tree => (tree.traverse visitor start).summary := by
      induction trees using List.reverseRecOn with
      | nil => exact ⟨hstart, rfl⟩
      | append_singleton trees tree ih =>
        rw [tour_concat, ih.2, hsummary tree _ ih.1, List.map_append]
        exact ⟨hstate tree _ ih.1, rfl⟩
    exact hall.2
  · rintro traverser rfl rfl
    exact traverser_tour traverser trees

theorem summary_of_descend (h : ∀ node state, (visitor.enterNode node state).1 = .descend)
    (tree : Node) (state : σ) :
    (tree.traverse visitor state).summary = (tree.traverse idle ()).summary := by
  have hextends : visitor.Extends (fun _ => ()) idle := by
    constructor
    · intro node state
      rw [h]
      rfl
    · exact fun _ _ => rfl
    · exact fun _ _ _ => rfl
    · exact fun _ _ _ => rfl
  have hwalk := Node.walk_map hextends tree 0 ⟨state, {}⟩
  exact (congrArg Walk.summary hwalk).symm

theorem walksAfresh_of_descend (h : ∀ node state, (visitor.enterNode node state).1 = .descend)
    (start : σ) (trees : List Node) : visitor.WalksAfresh start trees := by
  refine walksAfresh_of (P := fun _ => True) trivial (fun tree state _ => ?_)
    (fun _ _ _ => trivial) trees
  rw [summary_of_descend h, summary_of_descend h]

end Visitor

theorem Event.tour_recorder (trees : List Node) :
    (recorder.tour #[] trees).2.toList = trees.flatMap Node.events := by
  induction trees using List.reverseRecOn with
  | nil => rfl
  | append_singleton trees tree ih =>
    have hwalk := tree.walk_recorder 0 ⟨(recorder.tour #[] trees).2, {}⟩
    rw [Visitor.tour_concat, Node.traverse, hwalk, ih, ← tree.events_eq, List.flatMap_append]
    simp

namespace Tally

theorem tour_counter {m : Tally → Nat} {w : Node → Nat} (hempty : m empty = 0)
    (hadd : ∀ tally node, m (tally.add node.kind) = m tally + w node) (trees : List Node) :
    m (counter.tour empty trees).2 = (trees.map fun tree => (tree.nodes.map w).sum).sum := by
  induction trees using List.reverseRecOn with
  | nil => exact hempty
  | append_singleton trees tree ih =>
    have hwalk := Node.walk_counter hadd tree 0 ⟨(counter.tour empty trees).2, {}⟩
    rw [Visitor.tour_concat, Node.traverse, hwalk, ih, List.map_append, List.sum_append]
    simp

theorem get_tally (tree : Node) (kind : NodeKind) : tree.tally.get kind =
    (tree.nodes.map fun node => if node.kind = kind then 1 else 0).sum := by
  have hwalk := Node.walk_counter (m := (·.get kind))
    (fun tally node => tally.get_add node.kind kind) tree 0 ⟨empty, {}⟩
  rw [get_empty, Nat.zero_add] at hwalk
  exact hwalk

theorem get_tour (trees : List Node) (kind : NodeKind) :
    (counter.tour empty trees).2.get kind = (trees.map fun tree => tree.tally.get kind).sum := by
  have htour := tour_counter (m := (·.get kind)) (get_empty kind)
    (fun tally node => tally.get_add node.kind kind) trees
  simp only [get_tally]
  exact htour

theorem total_tour (trees : List Node) :
    (counter.tour empty trees).2.total = (trees.map fun tree => tree.nodes.length).sum := by
  have htour := tour_counter (w := fun _ => 1) total_empty
    (fun tally node => tally.total_add node.kind) trees
  simpa using htour

end Tally

namespace Listing

variable {options : ListingOptions}

/-- A lister that fails where one of its counters would fall below zero. -/
def checkedLister (options : ListingOptions) : Visitor (Option Listing) where
  enterNode node
    | some listing =>
      (((lister options).enterNode node listing).1, some ((lister options).enterNode node listing).2)
    | none => (.skip, none)
  leaveNode node state := state.bind fun listing =>
    if listing.level = 0 ∨ listing.depth = 0 then none
    else some ((lister options).leaveNode node listing)
  enterRole role isList state := state.map ((lister options).enterRole role isList)
  leaveRole role isList state := state.bind fun listing =>
    if options.showRoles ∧ listing.level = 0 then none
    else some ((lister options).leaveRole role isList listing)

theorem enterNode_counters (options : ListingOptions) (node : Node) (listing : Listing) :
    ((lister options).enterNode node listing).2.level = listing.level + 1 ∧
      ((lister options).enterNode node listing).2.depth = listing.depth + 1 := by
  simp [lister, accept_eq, writeIndent_eq, write]

theorem enterRole_counters (options : ListingOptions) (role : Role) (isList : Bool)
    (listing : Listing) : ((lister options).enterRole role isList listing).level =
        listing.level + (if options.showRoles then 1 else 0) ∧
      ((lister options).enterRole role isList listing).depth = listing.depth := by
  cases hroles : options.showRoles <;> simp [lister, hroles, writeIndent_eq, write]

/-- A part of a walk brings the counters of the lister back to where they were, and they do not fall
below zero on the way. -/
def Restores (plain : Walk Listing → Walk Listing)
    (checked : Walk (Option Listing) → Walk (Option Listing)) : Prop :=
  ∀ run, checked (run.map some) = (plain run).map some ∧
    (plain run).state.level = run.state.level ∧ (plain run).state.depth = run.state.depth

namespace Restores

variable {plain next : Walk Listing → Walk Listing}
  {checked nextChecked : Walk (Option Listing) → Walk (Option Listing)}

theorem refl : Restores id id := fun _ => ⟨rfl, rfl, rfl⟩

theorem trans (h : Restores plain checked) (ht : Restores next nextChecked) :
    Restores (fun run => next (plain run)) (fun run => nextChecked (checked run)) := by
  intro run
  obtain ⟨hrun, hlevel, hdepth⟩ := h run
  obtain ⟨hnext, hlevel', hdepth'⟩ := ht (plain run)
  refine ⟨?_, hlevel'.trans hlevel, hdepth'.trans hdepth⟩
  simp only
  rw [hrun, hnext]

theorem role (h : Restores plain checked) (role : Role) (isList : Bool) :
    Restores (Walk.role (lister options) role isList plain)
      (Walk.role (checkedLister options) role isList checked) := by
  intro run
  obtain ⟨hrun, hlevel, hdepth⟩ := h (run.call ((lister options).enterRole role isList))
  have hchecked : checked ((run.map some).call ((checkedLister options).enterRole role isList)) =
      (plain (run.call ((lister options).enterRole role isList))).map some := hrun
  rw [Walk.role, Walk.role, hchecked]
  have henter := enterRole_counters options role isList run.state
  generalize plain (run.call ((lister options).enterRole role isList)) = after at hlevel hdepth ⊢
  rw [Walk.call] at hlevel hdepth
  rw [henter.1] at hlevel
  rw [henter.2] at hdepth
  cases hroles : options.showRoles with
  | false =>
    rw [hroles] at hlevel
    simp [Walk.call, Walk.map, lister, checkedLister, hroles, hlevel, hdepth]
  | true =>
    rw [hroles] at hlevel
    simp [Walk.call, Walk.map, lister, checkedLister, hroles, hlevel, hdepth]

theorem node (h : Restores plain checked) (node : Node) (depth : Nat) :
    Restores (Walk.node (lister options) node depth plain)
      (Walk.node (checkedLister options) node depth checked) := by
  intro run
  have hcounters := enterNode_counters options node run.state
  cases henter : (lister options).enterNode node run.state with
  | mk descent listing =>
    have hchecked : (checkedLister options).enterNode node (run.map some).state =
        (descent, some listing) := by simp [checkedLister, Walk.map, henter]
    rw [henter] at hcounters
    obtain ⟨hlevelIn, hdepthIn⟩ : listing.level = run.state.level + 1 ∧
        listing.depth = run.state.depth + 1 := hcounters
    cases descent with
    | descend =>
      obtain ⟨hrun, hlevel, hdepth⟩ := h ⟨listing, run.summary.enter depth⟩
      have hbelow : checked ⟨some listing, (run.map some).summary.enter depth⟩ =
          (plain ⟨listing, run.summary.enter depth⟩).map some := hrun
      rw [Walk.node_descend henter, Walk.node_descend hchecked, hbelow]
      generalize plain ⟨listing, run.summary.enter depth⟩ = after at hlevel hdepth ⊢
      rw [hlevelIn] at hlevel
      rw [hdepthIn] at hdepth
      simp [Walk.call, Walk.map, lister, checkedLister, hlevel, hdepth]
    | skip =>
      rw [Walk.node_skip henter, Walk.node_skip hchecked]
      simp [Walk.map, lister, checkedLister, hlevelIn, hdepthIn]

end Restores

theorem restores_closed (options : ListingOptions) :
    Walk.Closed (lister options) (checkedLister options) fun _ _ => Restores where
  nil := .refl
  append := .trans
  role role isList h := h.role role isList
  node node h := h.node node _

/-- A walk through a whole node restores the counters, wherever they stand. -/
theorem walk_restores (options : ListingOptions) (node : Node) (depth : Nat) :
    Restores (node.walk (lister options) depth) (node.walk (checkedLister options) depth) :=
  (restores_closed options).walk node depth

theorem tour_checkedLister (options : ListingOptions) (listing : Listing) (trees : List Node) :
    (checkedLister options).tour (some listing) trees =
      (((lister options).tour listing trees).1, some ((lister options).tour listing trees).2) := by
  induction trees generalizing listing with
  | nil => rfl
  | cons tree trees ih =>
    have hwalk := (walk_restores options tree 0 ⟨listing, {}⟩).1
    have htree : tree.traverse (checkedLister options) (some listing) =
        (tree.traverse (lister options) listing).map some := hwalk
    simp [Visitor.tour, htree, Walk.map, ih]

def gauge (options : ListingOptions) : Visitor Nat where
  enterNode _ depth := (ListingOptions.descent options depth, depth + 1)
  leaveNode _ depth := depth - 1

theorem lister_extends (options : ListingOptions) :
    (lister options).Extends Listing.depth (gauge options) := by
  constructor
  · intro node listing
    simp [gauge, lister, accept_eq, writeIndent_eq, write]
  · exact fun _ _ => rfl
  · intro role isList listing
    exact (enterRole_counters options role isList listing).2.symm
  · intro role isList listing
    cases hroles : options.showRoles <;> simp [gauge, lister, hroles]

theorem walksAfresh_lister (options : ListingOptions) (trees : List Node) :
    (lister options).WalksAfresh {} trees := by
  have hsummary (tree : Node) (listing : Listing) :
      (tree.traverse (lister options) listing).summary =
        (tree.traverse (gauge options) listing.depth).summary := by
    have hwalk := Node.walk_map (lister_extends options) tree 0 ⟨listing, {}⟩
    exact (congrArg Walk.summary hwalk).symm
  refine Visitor.walksAfresh_of (P := fun listing => listing.depth = 0) rfl ?_ ?_ trees
  · intro tree listing hdepth
    rw [hsummary, hsummary, hdepth]
  · intro tree listing hdepth
    exact (walk_restores options tree 0 ⟨listing, {}⟩).2.2.trans hdepth

theorem tour_lister (options : ListingOptions) (trees : List Node) :
    ((lister options).tour {} trees).2.out = String.join (trees.map (·.listing options)) ∧
      ((lister options).tour {} trees).2.level = 0 ∧
      ((lister options).tour {} trees).2.depth = 0 := by
  have hshown : options.maxDepth.all (0 ≤ ·) = true := by cases options.maxDepth <;> simp
  induction trees using List.reverseRecOn with
  | nil => exact ⟨rfl, rfl, rfl⟩
  | append_singleton trees tree ih =>
    obtain ⟨hout, hlevel, hdepth⟩ := ih
    have hprints := walk_prints tree 0 hshown ⟨((lister options).tour {} trees).2, {}⟩
      ⟨hlevel, hdepth⟩
    rw [Visitor.tour_concat, List.map_append, String.join_append, ← hout]
    refine ⟨?_, hprints.level.trans hlevel, hprints.depth.trans hdepth⟩
    rw [Node.traverse, hprints.out, List.map_singleton, tree.listing_eq]
    simp [Node.lines]

end Listing

/-- Whatever trees a visitor of the three kinds is taken through, one after another: it ends with
the events, the counts or the listings of all of them together, and each tree is walked as if it
were the first, by the same traverser or by a new one. The counters of a lister never fall below
zero. -/
theorem Visitor.tours_add_up (trees : List Node) :
    (Event.recorder.WalksAfresh #[] trees ∧
      (Event.recorder.tour #[] trees).2.toList = trees.flatMap Node.events) ∧
    (Tally.counter.WalksAfresh .empty trees ∧
      (∀ kind, (Tally.counter.tour .empty trees).2.get kind =
        (trees.map fun tree => tree.tally.get kind).sum) ∧
      (Tally.counter.tour .empty trees).2.total =
        (trees.map fun tree => tree.nodes.length).sum) ∧
    ∀ options : ListingOptions, (Listing.lister options).WalksAfresh {} trees ∧
      ((Listing.lister options).tour {} trees).2.out =
        String.join (trees.map (·.listing options)) ∧
      (Listing.checkedLister options).tour (some {}) trees =
        (((Listing.lister options).tour {} trees).1,
          some ((Listing.lister options).tour {} trees).2) := by
  refine ⟨⟨walksAfresh_of_descend (fun _ _ => rfl) _ trees, Event.tour_recorder trees⟩,
    ⟨walksAfresh_of_descend (fun _ _ => rfl) _ trees, Tally.get_tour trees,
      Tally.total_tour trees⟩, fun options => ?_⟩
  exact ⟨Listing.walksAfresh_lister options trees, (Listing.tour_lister options trees).1,
    Listing.tour_checkedLister options {} trees⟩

end SyntaxTree
