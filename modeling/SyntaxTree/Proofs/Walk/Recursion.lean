import SyntaxTree.Proofs.Node.Reprint
import SyntaxTree.Proofs.Node.Standing
import SyntaxTree.Proofs.Walk.Tours

/-! How deep the recursions over a tree go. Every level of a tree that has been read takes an array
or an object of its document, whatever the form of the records, and a document nests no deeper than
its limit. Neither a walk through the tree nor its writing goes through more levels. -/

set_option autoImplicit false

namespace SyntaxTree

open Json

namespace Node

variable {node n : Node}

theorem height_lt_iff {limit : Nat} :
    node.height < limit ↔ ∀ place ∈ node.places, place.depth < limit := by
  constructor
  · intro h place hp
    exact Nat.lt_of_le_of_lt (depth_le_height hp) h
  · intro h
    have hmem := foldl_max_mem (node.places.map Place.depth) 0
    rcases List.mem_cons.1 hmem with hzero | hmem
    · have hroot := h ⟨[], node⟩ (by simp [places_eq])
      rw [height, hzero]
      exact hroot
    · obtain ⟨place, hp, hdepth⟩ := List.mem_map.1 hmem
      rw [height, ← hdepth]
      exact h place hp

theorem height_lt_succ_iff {limit : Nat} :
    node.height < limit + 1 ↔ ∀ child ∈ node.children, child.height < limit := by
  rw [height_lt_iff]
  constructor
  · intro h child hc
    refine height_lt_iff.2 fun place hp => ?_
    obtain ⟨i, hi⟩ := under_mem_places hc hp
    exact Nat.lt_of_succ_lt_succ (h _ hi)
  · intro h place hp
    rw [places_eq, List.mem_cons, mem_placesFrom] at hp
    rcases hp with rfl | ⟨j, places, q, hq, hj, rfl⟩
    · exact Nat.succ_pos limit
    · rw [List.getElem?_map, Option.map_eq_some_iff] at hj
      obtain ⟨child, hchild, rfl⟩ := hj
      have hlt := height_lt_iff.1 (h child (List.mem_of_getElem? hchild)) q hq
      exact Nat.succ_lt_succ hlt

theorem slot?_of_mem {role : Role} {slot : Slot} (h : (role, slot) ∈ node.slots) :
    node.slot? role = some slot := by
  cases node <;> simp only [slots, List.mem_cons, List.not_mem_nil, or_false, Prod.mk.injEq] at h
  case list => simp [slot?, slots, h]
  case wrapper => simp [slot?, slots, h]
  case parameter => rcases h with ⟨rfl, rfl⟩ | ⟨rfl, rfl⟩ | ⟨rfl, rfl⟩ <;> rfl
  case functionCall => rcases h with ⟨rfl, rfl⟩ | ⟨rfl, rfl⟩ <;> rfl
  case argument => simp [slot?, slots, h]

theorem exists_child {i : Nat} (h : node.children[i]? = some n) :
    ∃ role j, node.child? role j = some n := by
  obtain ⟨⟨role, slot⟩, hslot, hn⟩ := mem_children.1 (List.mem_of_getElem? h)
  obtain ⟨j, hj⟩ := List.getElem?_of_mem hn
  exact ⟨role, j, by rw [child?, slot?_of_mem hslot]; exact hj⟩

theorem exists_route {path : Path} (h : node.at? path = some n) :
    ∃ route : Route, route.length = path.length ∧ node.along? route = some n := by
  induction path generalizing node with
  | nil => exact ⟨[], rfl, h⟩
  | cons i path ih =>
    cases hchild : node.children[i]? with
    | none => simp [at?, hchild] at h
    | some child =>
      have hbelow : child.at? path = some n := by simpa [at?, hchild] using h
      obtain ⟨role, j, hj⟩ := exists_child hchild
      obtain ⟨route, hlength, halong⟩ := ih hbelow
      refine ⟨(role, j) :: route, congrArg Nat.succ hlength, ?_⟩
      rw [along?, hj]
      exact halong

end Node

theorem Context.LeadsTo.nesting_le {context : Context} {route : Route}
    (h : context.LeadsTo route) (v : Json) :
    v.nesting + route.length ≤ (context.fill v).nesting := by
  induction h with
  | here => exact Nat.le_refl _
  | @child layer context role i route hstep _ ih =>
    have hlayer : (context.fill v).nesting < (layer.fill (context.fill v)).nesting := by
      cases hstep with
      | @single gap => exact nesting_lt_fill gap _
      | @item gap before after =>
        have hitem := nesting_lt_fill (.item before after) (context.fill v)
        exact Nat.lt_trans hitem (nesting_lt_fill gap _)
    rw [fill_append, List.length_cons]
    omega

/-- Where a document holds the record of a node: at the end of the route to the node, inside at
least as many arrays and objects as there are nodes above it. -/
structure Json.HoldsAt (v : Json) (root : Node) (place : Place) (context : Context) (route : Route)
    (w : Json) : Prop where
  leads : context.LeadsTo route
  along : root.along? route = some place.node
  length : route.length = place.depth
  filled : v = context.fill w
  reads : w.Reads place.node
  nesting : w.nesting + place.depth ≤ v.nesting

namespace Json.Reads

variable {v : Json} {node : Node}

theorem exists_record (h : v.Reads node) {place : Place} (hp : place ∈ node.places) :
    ∃ context route w, v.HoldsAt node place context route w := by
  obtain ⟨route, hlength, halong⟩ := Node.exists_route (Node.mem_places_iff.1 hp)
  obtain ⟨context, w, hleads, rfl, hw⟩ := Context.exists_leadsTo h halong
  have hle := hleads.nesting_le w
  rw [hlength] at hle
  exact ⟨context, route, w, hleads, halong, hlength, rfl, hw, hle⟩

theorem height_lt (h : v.Reads node) : node.height < v.nesting := by
  refine Node.height_lt_iff.2 fun place hp => ?_
  obtain ⟨context, route, w, hrecord⟩ := h.exists_record hp
  obtain ⟨levels, hw⟩ := hrecord.reads
  have hpos := Node.nesting_pos_of_ofJson hw
  have hle := hrecord.nesting
  omega

end Json.Reads

namespace Node

section

variable {β : Type} (f : Node → List (Branch β) → β)

def Branch.find (search : Node → Option β) (slot : Role × Slot) : Option (Branch β) :=
  (slot.2.children.mapM search).map fun children => ⟨slot.1, slot.2.isList, children⟩

/-- A fold that gives up on a tree with more levels than the limit. -/
def foldWithin : Nat → Node → Option β
  | 0, _ => none
  | limit + 1, node => (node.slots.mapM (Branch.find (foldWithin limit))).map (f node)

theorem mapM_if {α γ : Type} {p : α → Prop} [DecidablePred p] (g : α → γ) (as : List α) :
    (as.mapM fun a => if p a then some (g a) else none) =
      if ∀ a ∈ as, p a then some (as.map g) else none := by
  induction as with
  | nil => simp
  | cons a as ih =>
    rw [List.mapM_cons, ih, List.map_cons]
    by_cases ha : p a
    · by_cases hall : ∀ a ∈ as, p a
      · rw [if_pos ha, if_pos hall, if_pos (List.forall_mem_cons.2 ⟨ha, hall⟩)]
        rfl
      · rw [if_pos ha, if_neg hall, if_neg fun h => hall (List.forall_mem_cons.1 h).2]
        rfl
    · rw [if_neg ha, if_neg fun h => ha (List.forall_mem_cons.1 h).1]
      rfl

/-- On a tree whose height is below the limit it finds what the fold finds, and else nothing. -/
theorem foldWithin_eq (limit : Nat) (node : Node) :
    node.foldWithin f limit = if node.height < limit then some (node.fold f) else none := by
  induction limit generalizing node with
  | zero => simp [foldWithin]
  | succ limit ih =>
    have hchild : foldWithin f limit =
        fun child => if child.height < limit then some (child.fold f) else none := funext ih
    have hslot : Branch.find (foldWithin f limit) = fun slot =>
        if ∀ child ∈ slot.2.children, child.height < limit then some (.of (fold f) slot)
        else none := by
      funext slot
      rw [Branch.find, hchild, mapM_if]
      split <;> rfl
    have hheight : (∀ slot ∈ node.slots, ∀ child ∈ slot.2.children, child.height < limit) ↔
        node.height < limit + 1 := by
      rw [height_lt_succ_iff]
      constructor
      · intro h child hc
        obtain ⟨slot, hslot, hc⟩ := mem_children.1 hc
        exact h slot hslot child hc
      · exact fun h slot hslot child hc => h child (mem_children.2 ⟨slot, hslot, hc⟩)
    rw [foldWithin, hslot, mapM_if, if_congr hheight rfl rfl, fold_eq]
    split <;> rfl

end

/-- What is found for every node by one rule from what is found for its children is a fold. -/
theorem eq_fold {β : Type} {f : Node → List (Branch β) → β} {g : Node → β}
    (h : ∀ node, g node = f node (node.slots.map (.of g))) (node : Node) :
    g node = node.fold f := by
  induction node using Node.induction with
  | step node ih =>
    rw [h, fold_eq]
    congr 1
    refine List.map_congr_left fun slot hslot => ?_
    have hchildren : slot.2.children.map g = slot.2.children.map (fold f) :=
      List.map_congr_left fun child hc => ih child (mem_children.2 ⟨slot, hslot, hc⟩)
    rw [Branch.of, Branch.of, hchildren]

def walkStep {σ : Type} (visitor : Visitor σ) (node : Node)
    (branches : List (Branch (Nat → Walk σ → Walk σ))) (depth : Nat) : Walk σ → Walk σ :=
  Walk.node visitor node depth fun run => branches.foldl (fun run branch =>
    if branch.isList || !branch.children.isEmpty then
      Walk.role visitor branch.role branch.isList
        (fun run => branch.children.foldl (fun run walk => walk (depth + 1) run) run) run
    else run) run

section

variable {σ : Type} (visitor : Visitor σ)

theorem walkList_foldl (nodes : List Node) (depth : Nat) (run : Walk σ) :
    walkList visitor nodes depth run =
      (nodes.map (walk visitor)).foldl (fun run walk => walk depth run) run := by
  induction nodes generalizing run with
  | nil => rfl
  | cons node nodes ih => exact ih (node.walk visitor depth run)

theorem walkSlots_foldl (slots : List (Role × Slot)) (depth : Nat) (run : Walk σ) :
    walkSlots visitor slots depth run =
      (slots.map (Branch.of (walk visitor))).foldl (fun run branch =>
        if branch.isList || !branch.children.isEmpty then
          Walk.role visitor branch.role branch.isList
            (fun run => branch.children.foldl (fun run walk => walk depth run) run) run
        else run) run := by
  induction slots generalizing run with
  | nil => rfl
  | cons slot slots ih =>
    have hlist : walkList visitor slot.2.children depth = fun run =>
        (slot.2.children.map (walk visitor)).foldl (fun run walk => walk depth run) run :=
      funext (walkList_foldl visitor slot.2.children depth)
    have hslot : walkSlot visitor slot depth run =
        if slot.2.isList || !(slot.2.children.map (walk visitor)).isEmpty then
          Walk.role visitor slot.1 slot.2.isList (fun run =>
            (slot.2.children.map (walk visitor)).foldl (fun run walk => walk depth run) run) run
        else run := by
      rw [walkSlot, isWalked_eq, hlist, List.isEmpty_map]
    rw [walkSlots, hslot, ih]
    rfl

theorem walk_fold (node : Node) : node.walk visitor = node.fold (walkStep visitor) := by
  refine eq_fold (fun node => ?_) node
  funext depth run
  have hslots : walkSlots visitor node.slots (depth + 1) = fun run => _ :=
    funext (walkSlots_foldl visitor node.slots (depth + 1))
  rw [walk_eq, hslots]
  rfl

end

def recordStep (tagged : Bool) (node : Node) (branches : List (Branch Json)) : Json :=
  .obj (head tagged node.kind node.info ++ (node.valueMembers ++ branches.map fun branch =>
    (branch.role.name,
      if branch.isList then .arr branch.children else branch.children.head?.getD .null)))

theorem record_fold (tagged : Bool) (node : Node) :
    node.record tagged = node.fold (recordStep tagged) := by
  refine eq_fold (fun node => ?_) node
  have hslot (slot : Role × Slot) : slot.2.record tagged =
      if slot.2.isList then .arr (slot.2.children.map (record tagged))
      else (slot.2.children.map (record tagged)).head?.getD .null := by
    obtain ⟨role, slot⟩ := slot
    cases slot with
    | single o => cases o <;> rfl
    | list items => rfl
  simp only [record_eq, recordStep, slotMembers, List.map_map, Function.comp_def, Branch.of, hslot]
  rfl

/-- Whether no recursion over a tree goes through more levels than the limit: neither a walk, as for
a listing, the events or the measures, nor the writing of records. -/
structure StaysWithin (limit : Nat) (root : Node) : Prop where
  walk : ∀ {σ : Type} (visitor : Visitor σ) (state : σ), ∃ walk,
    root.foldWithin (walkStep visitor) limit = some walk ∧
      walk 0 ⟨state, {}⟩ = root.traverse visitor state
  depth : ∀ {σ : Type} (visitor : Visitor σ) (state : σ),
    (root.traverse visitor state).summary.maxDepth < limit
  record : ∀ tagged, root.foldWithin (recordStep tagged) limit = some (root.record tagged)

theorem maxDepth_le_height {σ : Type} (visitor : Visitor σ) (state : σ) (root : Node) :
    (root.traverse visitor state).summary.maxDepth ≤ root.height := by
  obtain ⟨-, ⟨skips, hwalked⟩, -⟩ := root.traverse_contract visitor state
  obtain ⟨place, hp, hdepth⟩ := hwalked.maxDepth_reached
  rw [← hdepth]
  exact depth_le_height (List.mem_filter.1 hp).1

theorem staysWithin_iff {limit : Nat} {root : Node} :
    root.StaysWithin limit ↔ root.height < limit := by
  constructor
  · intro h
    by_contra hdeep
    have hrecord := h.record true
    rw [foldWithin_eq, if_neg hdeep] at hrecord
    cases hrecord
  · intro h
    constructor
    · intro σ visitor state
      refine ⟨root.walk visitor, ?_, rfl⟩
      rw [foldWithin_eq, if_pos h, walk_fold]
    · exact fun visitor state => Nat.lt_of_le_of_lt (maxDepth_le_height visitor state root) h
    · intro tagged
      rw [foldWithin_eq, if_pos h, record_fold]

theorem foldl_pass_placesFrom (depth i : Nat) (nodes : List Node) (summary : Summary) :
    (placesFrom i (nodes.map places)).foldl (Summary.pass depth fun _ => false) summary =
      nodes.foldl (fun summary node =>
        node.places.foldl (Summary.pass (depth + 1) fun _ => false) summary) summary := by
  induction nodes generalizing i summary with
  | nil => rfl
  | cons node nodes ih =>
    rw [List.map_cons, placesFrom, List.foldl_append, Summary.foldl_pass_under, ih]
    rfl

theorem idle_closed : Walk.Closed Visitor.idle Visitor.idle
    fun depth nodes walk _ => ∀ run : Walk Unit, (walk run).summary =
      nodes.foldl (fun summary node =>
        node.places.foldl (Summary.pass depth fun _ => false) summary) run.summary where
  nil _ := rfl
  append hwalk hnext run := by rw [hnext, hwalk, List.foldl_append]
  role _ _ hwalk run := hwalk _
  node := by
    intro depth walk _ node hwalk run
    have hbelow := hwalk ⟨run.state, run.summary.enter depth⟩
    rw [Walk.node_descend rfl, List.foldl_cons, List.foldl_nil, places_eq, List.foldl_cons,
      foldl_pass_placesFrom]
    exact hbelow

theorem passes_all {σ : Type} {visitor : Visitor σ}
    (h : ∀ node state, (visitor.enterNode node state).1 = .descend) (state : σ) (root : Node) :
    (root.traverse visitor state).summary =
      root.places.foldl (Summary.pass 0 fun _ => false) {} := by
  rw [Visitor.summary_of_descend h]
  exact idle_closed.walk root 0 ⟨(), {}⟩

theorem maxDepth_of_descend {σ : Type} {visitor : Visitor σ}
    (h : ∀ node state, (visitor.enterNode node state).1 = .descend) (state : σ) (root : Node) :
    (root.traverse visitor state).summary.maxDepth = root.height := by
  rw [passes_all h, Summary.foldl_pass_maxDepth, height]
  simp only [Nat.zero_add]

theorem nodesEntered_of_descend {σ : Type} {visitor : Visitor σ}
    (h : ∀ node state, (visitor.enterNode node state).1 = .descend) (state : σ) (root : Node) :
    (root.traverse visitor state).summary.nodesEntered = root.nodes.length := by
  rw [passes_all h, Summary.foldl_pass_nodesEntered, nodes, List.length_map, Nat.zero_add]

theorem tower_height (n : Nat) : (tower n).height = n := by
  induction n with
  | zero => rfl
  | succ n ih =>
    have hlt (limit : Nat) : (tower (n + 1)).height < limit + 1 ↔ n < limit := by
      rw [height_lt_succ_iff]
      simp [tower, ih]
    have hle := (hlt (n + 1)).2 (Nat.lt_succ_self n)
    have hge := mt (hlt n).1 (Nat.lt_irrefl n)
    omega

/-- Every level of a tree that is read takes an array or an object of its document, above every
node. So the tree has at most 126 levels below its root; its measures say how many, and no command
goes down in it further. There is a tree with as many. -/
theorem ofDocument_bounds {text : String} {root : Node} (h : ofDocument text = .ok root) :
    (∃ v : Json, v.Documents text ∧ v.Reads root ∧ v.nesting ≤ 127 ∧ root.height < v.nesting ∧
      ∀ place ∈ root.places, ∃ context route w, v.HoldsAt root place context route w) ∧
    root.stats.maxDepth = root.height ∧ root.height ≤ 126 ∧ root.StaysWithin 127 ∧
    ∃ other tallest, ofDocument other = .ok tallest ∧ tallest.stats.maxDepth = 126 := by
  obtain ⟨v, hv, hnesting, -, hread⟩ := ofText_iff_reads.1 (ofDocument_eq_ok_iff.1 h)
  have hstats (tree : Node) : tree.stats.maxDepth = tree.height :=
    maxDepth_of_descend (fun _ _ => rfl) _ tree
  have hheight := hread.height_lt
  have hlimit : root.height ≤ 126 := by omega
  refine ⟨⟨v, hv, hread, hnesting, hheight, fun place hp => hread.exists_record hp⟩, hstats root,
    hlimit, staysWithin_iff.2 (Nat.lt_succ_of_le hlimit), _, tower 126,
    ofDocument_tower (by decide), ?_⟩
  rw [hstats, tower_height]

theorem tower_bounds : ofDocument ((Json.tower 126).text false) = .ok (tower 126) ∧
    (tower 126).stats.maxDepth = 126 ∧ (tower 126).StaysWithin 127 ∧
    ¬ (tower 126).StaysWithin 126 := by
  have hread : ofDocument ((Json.tower 126).text false) = .ok (tower 126) :=
    ofDocument_tower (by decide)
  obtain ⟨-, hstats, -, hwithin, -⟩ := ofDocument_bounds hread
  have hheight := tower_height 126
  refine ⟨hread, hstats.trans hheight, hwithin, fun h => ?_⟩
  have hlt := staysWithin_iff.1 h
  omega

end Node

end SyntaxTree
