import SyntaxTree.Proofs.Walk.Contract
import SyntaxTree.Proofs.Walk.EventTexts
import SyntaxTree.Walk.Listing

set_option autoImplicit false

namespace SyntaxTree

/-- A line of a listing: a node at its depth, or a role at the depth of the node that owns it. -/
inductive Line where
  | node (target : Node) (depth : Nat)
  | role (target : Role) (isList : Bool) (owner : Nat)

/-- The units of indentation for a level of the tree. -/
def ListingOptions.stride (options : ListingOptions) : Nat := if options.showRoles then 2 else 1

def Node.detail : Node → Option String
  | .list .name _ parts => some (Text.quoted (joinedName parts))
  | .list .argumentList _ arguments => some ("(" ++ toString arguments.length ++ ")")
  | .list .. => none
  | .wrapper .. => none
  | .leaf .numberLiteral _ value => some value
  | .leaf .integerLiteral _ value => some value
  | .leaf _ _ value => some (Text.quoted value)
  | .parameter _ byRef variadic _ _ _ =>
    Listing.flags [(byRef, "by_ref"), (variadic, "variadic")]
  | .functionCall .. => none
  | .argument _ variadic isReference _ =>
    Listing.flags [(variadic, "variadic"), (isReference, "is_reference")]

namespace Line

def depth : Line → Nat
  | .node _ depth => depth
  | .role _ _ owner => owner

def node? : Line → Option (Node × Nat)
  | .node n depth => some (n, depth)
  | .role .. => none

def event : Line → Event
  | .node n _ => .enterNode n.kind
  | .role r isList _ => .enterRole r isList

def isShown (options : ListingOptions) : Line → Bool
  | .node _ depth => options.maxDepth.all (depth ≤ ·)
  | .role _ _ owner => options.showRoles && options.maxDepth.all (owner < ·)

def text (options : ListingOptions) : Line → String
  | .node n depth =>
    String.join (List.replicate (options.stride * depth) options.indent) ++ n.kind.name ++
      (if options.showValues then (n.detail.map (" " ++ ·)).getD "" else "") ++
      (if options.showPositions then (n.position.map (" @" ++ ·.text)).getD "" else "") ++ "\n"
  | .role r _ owner =>
    String.join (List.replicate (2 * owner + 1) options.indent) ++ r.name ++ ":\n"

/-- The texts of those lines that are shown. -/
def entries (options : ListingOptions) (lines : List Line) : List String :=
  (lines.filter (·.isShown options)).map (·.text options)

variable {options : ListingOptions}

@[simp] theorem entries_append (lines more : List Line) :
    entries options (lines ++ more) = entries options lines ++ entries options more := by
  simp [entries]

theorem entries_cons_shown {line : Line} (h : line.isShown options = true) (lines : List Line) :
    entries options (line :: lines) = line.text options :: entries options lines := by
  simp [entries, h]

theorem entries_hidden {lines : List Line} (h : ∀ line ∈ lines, line.isShown options = false) :
    entries options lines = [] := by
  simpa [entries] using h

end Line

namespace Node

def linesAt : Node → Nat → List Line :=
  fold fun node branches depth => .node node depth :: branches.flatMap fun branch =>
    if branch.isList || !branch.children.isEmpty then
      .role branch.role branch.isList depth :: branch.children.flatMap (· (depth + 1))
    else []

def lines (root : Node) : List Line := root.linesAt 0

def height (root : Node) : Nat := (root.places.map Place.depth).foldl max 0

theorem depth_le_height {root : Node} {place : Place} (h : place ∈ root.places) :
    place.depth ≤ root.height := (le_foldl_max _ 0).2 _ (List.mem_map_of_mem h)

def roleLines (depth : Nat) (slot : Role × Slot) : List Line :=
  if slot.2.isWalked then
    .role slot.1 slot.2.isList depth :: slot.2.children.flatMap (linesAt · (depth + 1))
  else []

theorem linesAt_eq (node : Node) (depth : Nat) :
    node.linesAt depth = .node node depth :: node.slots.flatMap (roleLines depth) := by
  rw [linesAt, fold_eq, List.flatMap_map]
  congr 2
  funext slot
  simp [Branch.of, roleLines, isWalked_eq, List.flatMap_map, linesAt]

theorem mem_roleLines {depth : Nat} {slot : Role × Slot} {line : Line}
    (h : line ∈ roleLines depth slot) : (∃ role isList, line = .role role isList depth) ∨
      ∃ child ∈ slot.2.children, line ∈ child.linesAt (depth + 1) := by
  unfold roleLines at h
  split at h
  · rcases List.mem_cons.1 h with rfl | h
    · exact .inl ⟨_, _, rfl⟩
    · exact .inr (List.mem_flatMap.1 h)
  · cases h

theorem under_mem_places {node child : Node} (h : child ∈ node.children) {place : Place}
    (hp : place ∈ child.places) : ∃ i, place.under i ∈ node.places := by
  obtain ⟨i, hi, rfl⟩ := List.getElem_of_mem h
  refine ⟨i, ?_⟩
  rw [places_eq]
  refine List.mem_cons_of_mem _ (mem_placesFrom.2 ⟨i, _, place, hp, ?_, by rw [Nat.zero_add]⟩)
  rw [List.getElem?_map, List.getElem?_eq_getElem hi]
  rfl

theorem exists_place_of_line {node : Node} {depth : Nat} {line : Line}
    (h : line ∈ node.linesAt depth) : ∃ place ∈ node.places, line.depth = depth + place.depth := by
  induction node using Node.induction generalizing depth with
  | step node ih =>
    have hroot : (⟨[], node⟩ : Place) ∈ node.places := by simp [places_eq]
    rw [linesAt_eq] at h
    rcases List.mem_cons.1 h with rfl | h
    · exact ⟨_, hroot, rfl⟩
    obtain ⟨slot, hslot, h⟩ := List.mem_flatMap.1 h
    rcases mem_roleLines h with ⟨role, isList, rfl⟩ | ⟨child, hchild, h⟩
    · exact ⟨_, hroot, rfl⟩
    · have hmem := mem_children.2 ⟨slot, hslot, hchild⟩
      obtain ⟨place, hplace, hdepth⟩ := ih child hmem h
      obtain ⟨i, hi⟩ := under_mem_places hmem hplace
      refine ⟨_, hi, ?_⟩
      rw [hdepth]
      simp [Place.depth, Place.under]
      omega

theorem map_event_linesAt (node : Node) (depth : Nat) :
    (node.linesAt depth).map Line.event = node.events.filter (!·.isLeave) := by
  induction node using Node.induction generalizing depth with
  | step node ih =>
    have hslot : ∀ slot ∈ node.slots, (roleLines depth slot).map Line.event =
        (slotEvents slot).filter (!·.isLeave) := by
      intro slot hslot
      have hchildren : (slot.2.children.flatMap (linesAt · (depth + 1))).map Line.event =
          (slot.2.children.flatMap events).filter (!·.isLeave) := by
        rw [List.map_flatMap, List.filter_flatMap]
        exact List.flatMap_congr fun child hc =>
          ih child (mem_children.2 ⟨slot, hslot, hc⟩) (depth + 1)
      unfold roleLines slotEvents
      split
      · simp [hchildren, Line.event, Event.isLeave]
      · rfl
    have hslots : (node.slots.flatMap (roleLines depth)).map Line.event =
        (node.slots.flatMap slotEvents).filter (!·.isLeave) := by
      rw [List.map_flatMap, List.filter_flatMap]
      exact List.flatMap_congr hslot
    rw [linesAt_eq, events_eq]
    simp [hslots, Line.event, Event.isLeave]

theorem filterMap_roleLines (depth : Nat) (slot : Role × Slot) :
    (roleLines depth slot).filterMap Line.node? =
      slot.2.children.flatMap fun child => (child.linesAt (depth + 1)).filterMap Line.node? := by
  unfold roleLines
  split
  · exact List.filterMap_flatMap
  · next hw => rw [children_of_skipped (by simpa using hw)]; rfl

theorem filterMap_linesAt (node : Node) (depth : Nat) :
    (node.linesAt depth).filterMap Line.node? =
      node.places.map fun place => (place.node, depth + place.depth) := by
  induction node using Node.induction generalizing depth with
  | step node ih =>
    have hchildren : (node.slots.flatMap (roleLines depth)).filterMap Line.node? =
        node.children.flatMap fun child =>
          child.places.map fun place => (place.node, depth + 1 + place.depth) := by
      rw [List.filterMap_flatMap, children, List.flatMap_assoc]
      refine List.flatMap_congr fun slot hslot => ?_
      rw [filterMap_roleLines]
      exact List.flatMap_congr fun child hc =>
        ih child (mem_children.2 ⟨slot, hslot, hc⟩) (depth + 1)
    have hunder (i : Nat) (place : Place) :
        ((place.under i).node, depth + (place.under i).depth) =
          (place.node, depth + 1 + place.depth) := by
      simp [Place.under, Place.depth, Nat.add_assoc, Nat.add_comm 1]
    have hplaces := map_placesFrom (f := fun place => (place.node, depth + place.depth)) hunder 0
      (node.children.map places)
    rw [linesAt_eq, places_eq, List.map_cons, hplaces, List.flatMap_map, ← hchildren]
    rfl

end Node

namespace Listing

variable {options : ListingOptions}

theorem writeIndent_eq (options : ListingOptions) (listing : Listing) :
    listing.writeIndent options = listing.write
      (String.join (List.replicate listing.level options.indent)) := by
  have hfold (n : Nat) (listing : Listing) :
      (List.replicate n options.indent).foldl (fun listing unit => listing.write unit) listing =
        listing.write (String.join (List.replicate n options.indent)) := by
    induction n generalizing listing with
    | zero => simp [write]
    | succ n ih =>
      rw [List.replicate_succ, List.foldl_cons, ih]
      simp [write, String.append_assoc]
  exact hfold listing.level listing

theorem accept_eq (options : ListingOptions) (node : Node) (listing : Listing) :
    node.accept (handlers options) listing = (listing.writeIndent options).write
      (node.kind.name ++ remarks options node.detail listing.position ++ "\n") := by
  cases node with
  | list kind => cases kind <;> rfl
  | wrapper kind => cases kind <;> rfl
  | leaf kind => cases kind <;> rfl
  | _ => rfl

theorem remarks_eq (options : ListingOptions) (detail : Option String)
    (position : Option Position) : remarks options detail position =
      (if options.showValues then (detail.map (" " ++ ·)).getD "" else "") ++
        (if options.showPositions then (position.map (" @" ++ ·.text)).getD "" else "") := by
  cases detail <;> cases position <;> simp [remarks]

/-- A walk of the lister has written the lines of nodes or roles and keeps its counters. -/
structure Prints (options : ListingOptions) (lines : List Line) (run after : Walk Listing) :
    Prop where
  out : after.state.out = run.state.out ++ String.join (Line.entries options lines)
  level : after.state.level = run.state.level
  depth : after.state.depth = run.state.depth

structure At (level depth : Nat) (run : Walk Listing) : Prop where
  level : run.state.level = level
  depth : run.state.depth = depth

namespace Prints

variable {lines more : List Line} {run mid after : Walk Listing}

theorem refl : Prints options [] run run := ⟨by simp [Line.entries], rfl, rfl⟩

theorem trans (h : Prints options lines run mid) (ht : Prints options more mid after) :
    Prints options (lines ++ more) run after := by
  refine ⟨?_, ht.level.trans h.level, ht.depth.trans h.depth⟩
  rw [ht.out, h.out, Line.entries_append, String.join_append, String.append_assoc]

theorem at_after {level depth : Nat} (h : Prints options lines run after)
    (hat : At level depth run) : At level depth after :=
  ⟨h.level.trans hat.level, h.depth.trans hat.depth⟩

end Prints

section

variable {depth : Nat} {run : Walk Listing} (hat : At (options.stride * depth + 1) (depth + 1) run)
  (hdeeper : options.maxDepth.all (depth < ·) = true) (role : Role) (isList : Bool)

include hat hdeeper

theorem role_prints {lines : List Line} {children : Walk Listing → Walk Listing}
    (h : ∀ run, At (options.stride * (depth + 1)) (depth + 1) run →
      Prints options lines run (children run)) :
    Prints options (.role role isList depth :: lines) run
      (Walk.role (lister options) role isList children run) := by
  cases hroles : options.showRoles with
  | false =>
    have hstride : options.stride = 1 := by simp [ListingOptions.stride, hroles]
    have hnext : At (options.stride * (depth + 1)) (depth + 1) run := by
      rw [hstride] at hat ⊢
      exact ⟨hat.level.trans (by omega), hat.depth⟩
    have hrole : Walk.role (lister options) role isList children run = children run := by
      simp [Walk.role, Walk.call, lister, hroles]
    have hentries : Line.entries options (.role role isList depth :: lines) =
        Line.entries options lines := by simp [Line.entries, Line.isShown, hroles]
    have hlines := h run hnext
    rw [hrole]
    exact ⟨by rw [hentries]; exact hlines.out, hlines.level, hlines.depth⟩
  | true =>
    have hstride : options.stride = 2 := by simp [ListingOptions.stride, hroles]
    rw [hstride] at hat h
    have henter : (run.call ((lister options).enterRole role isList)).state =
        { run.state with
          out := run.state.out ++ (Line.role role isList depth).text options
          level := run.state.level + 1 } := by
      simp [Walk.call, lister, hroles, writeIndent_eq, write, hat.level, Line.text,
        String.append_assoc]
    have hnext : At (2 * (depth + 1)) (depth + 1)
        (run.call ((lister options).enterRole role isList)) := by
      constructor
      · have hlevel := hat.level
        simp only [henter]
        omega
      · rw [henter]
        exact hat.depth
    have hlines := h _ hnext
    have hshown : (Line.role role isList depth).isShown options = true := by
      simpa [Line.isShown, hroles] using hdeeper
    constructor
    · have hout := hlines.out
      rw [henter] at hout
      rw [Line.entries_cons_shown hshown, String.join_cons, ← String.append_assoc, ← hout]
      simp [Walk.role, Walk.call, lister, hroles]
    · have hlevel := hlines.level
      rw [henter] at hlevel
      simp [Walk.role, Walk.call, lister, hroles] at hlevel ⊢
      omega
    · have hdepth := hlines.depth
      rw [henter] at hdepth
      simpa [Walk.role, Walk.call, lister, hroles] using hdepth

end

theorem list_prints {nodes : List Node} {level depth d : Nat}
    (h : ∀ node ∈ nodes, ∀ run, At level depth run →
      Prints options (node.linesAt depth) run (node.walk (lister options) d run))
    (run : Walk Listing) (hat : At level depth run) :
    Prints options (nodes.flatMap (Node.linesAt · depth)) run
      (Node.walkList (lister options) nodes d run) := by
  induction nodes generalizing run with
  | nil => exact .refl
  | cons node nodes ih =>
    have hfirst := h node (by simp) run hat
    have hrest := ih (fun n hn => h n (List.mem_cons_of_mem _ hn)) _ (hfirst.at_after hat)
    exact hfirst.trans hrest

theorem slots_prints {slots : List (Role × Node.Slot)} {depth d : Nat}
    (hdeeper : options.maxDepth.all (depth < ·) = true)
    (h : ∀ slot ∈ slots, ∀ child ∈ slot.2.children, ∀ run,
      At (options.stride * (depth + 1)) (depth + 1) run →
        Prints options (child.linesAt (depth + 1)) run (child.walk (lister options) d run))
    (run : Walk Listing) (hat : At (options.stride * depth + 1) (depth + 1) run) :
    Prints options (slots.flatMap (Node.roleLines depth)) run
      (Node.walkSlots (lister options) slots d run) := by
  induction slots generalizing run with
  | nil => exact .refl
  | cons slot slots ih =>
    have hslot : Prints options (Node.roleLines depth slot) run
        (Node.walkSlot (lister options) slot d run) := by
      unfold Node.roleLines Node.walkSlot
      split
      · exact role_prints hat hdeeper _ _ (list_prints (h slot (by simp)))
      · exact .refl
    have hrest := ih (fun s hs => h s (List.mem_cons_of_mem _ hs)) _ (hslot.at_after hat)
    exact hslot.trans hrest

theorem descent_eq (options : ListingOptions) (depth : Nat) :
    ListingOptions.descent options depth =
      if options.maxDepth.all (depth < ·) then .descend else .skip := by
  cases h : options.maxDepth with
  | none => simp [ListingOptions.descent, h]
  | some m =>
    by_cases hm : m ≤ depth
    · simp [ListingOptions.descent, h, hm]
    · simp [ListingOptions.descent, h, hm, Nat.lt_of_not_le hm]

theorem entries_skipped {depth : Nat} (hdeepest : options.maxDepth.all (depth < ·) = false)
    (slots : List (Role × Node.Slot)) :
    Line.entries options (slots.flatMap (Node.roleLines depth)) = [] := by
  obtain ⟨m, hmax, hm⟩ : ∃ m, options.maxDepth = some m ∧ m ≤ depth := by
    cases h : options.maxDepth <;> simp_all
  refine Line.entries_hidden fun line hline => ?_
  obtain ⟨slot, -, hline⟩ := List.mem_flatMap.1 hline
  rcases Node.mem_roleLines hline with ⟨role, isList, rfl⟩ | ⟨child, -, hline⟩
  · simp [Line.isShown, hmax, hm]
  · obtain ⟨place, -, hdepth⟩ := Node.exists_place_of_line hline
    cases line <;> simp only [Line.depth] at hdepth <;> simp [Line.isShown, hmax] <;> omega

@[simp] theorem leaveNode_eq (node : Node) (listing : Listing) :
    (lister options).leaveNode node listing =
      { listing with level := listing.level - 1, depth := listing.depth - 1 } := rfl

def entered (options : ListingOptions) (node : Node) (depth : Nat) (listing : Listing) :
    Listing where
  out := listing.out ++ (Line.node node depth).text options
  level := listing.level + 1
  depth := listing.depth + 1
  position := node.position

theorem enterNode_eq {depth : Nat} {run : Walk Listing}
    (hat : At (options.stride * depth) depth run) (node : Node) :
    (lister options).enterNode node run.state =
      (ListingOptions.descent options depth, entered options node depth run.state) := by
  simp [lister, accept_eq, writeIndent_eq, write, remarks_eq, hat.level, hat.depth, Line.text,
    String.append_assoc, entered]

/-- The walk through a node that is shown writes its lines, if the counters are those for its depth.
-/
theorem walk_prints (node : Node) {depth : Nat} (d : Nat)
    (hshown : options.maxDepth.all (depth ≤ ·) = true) (run : Walk Listing)
    (hat : At (options.stride * depth) depth run) :
    Prints options (node.linesAt depth) run (node.walk (lister options) d run) := by
  induction node using Node.induction generalizing depth d run with
  | step node ih =>
    have henter := enterNode_eq hat node
    have hline : (Line.node node depth).isShown options = true := hshown
    have hentries := Line.entries_cons_shown hline
    rw [Node.linesAt_eq, Node.walk_eq]
    rw [descent_eq] at henter
    cases hdeeper : options.maxDepth.all (depth < ·) with
    | true =>
      rw [hdeeper] at henter
      have hinside : At (options.stride * depth + 1) (depth + 1)
          ⟨entered options node depth run.state, run.summary.enter d⟩ :=
        ⟨congrArg (· + 1) hat.level, congrArg (· + 1) hat.depth⟩
      have hslots := slots_prints hdeeper (fun slot hslot child hc run hrun =>
        ih child (Node.mem_children.2 ⟨slot, hslot, hc⟩) (d + 1) hdeeper run hrun) _ hinside
      rw [Walk.node_descend henter]
      constructor
      · rw [hentries, String.join_cons, ← String.append_assoc]
        exact hslots.out
      · exact congrArg (· - 1) hslots.level
      · exact congrArg (· - 1) hslots.depth
    | false =>
      rw [hdeeper] at henter
      rw [Walk.node_skip henter]
      constructor
      · rw [hentries, entries_skipped hdeeper]
        simp [entered]
      · simp [entered]
      · simp [entered]

end Listing

namespace Node

variable {options : ListingOptions}

theorem listing_eq (root : Node) (options : ListingOptions) :
    root.listing options = String.join (Line.entries options root.lines) := by
  have hshown : options.maxDepth.all (0 ≤ ·) = true := by cases options.maxDepth <;> simp
  have hprints := Listing.walk_prints root 0 hshown ⟨{}, {}⟩ ⟨rfl, rfl⟩
  rw [listing, traverse, hprints.out]
  exact String.empty_append

theorem text_maxDepth (options : ListingOptions) (maxDepth : Option Nat) :
    Line.text { options with maxDepth } = Line.text options := by
  funext line
  cases line <;> rfl

theorem entries_sublist (options : ListingOptions) {m m' : Nat} (h : m ≤ m') (lines : List Line) :
    (Line.entries { options with maxDepth := some m } lines).Sublist
      (Line.entries { options with maxDepth := some m' } lines) := by
  unfold Line.entries
  rw [text_maxDepth, text_maxDepth]
  refine List.Sublist.map _ (List.monotone_filter_right lines fun line hline => ?_)
  cases line <;> simp [Line.isShown] at hline ⊢
  · omega
  · exact ⟨hline.1, by omega⟩

theorem entries_deep (options : ListingOptions) {root : Node} {m : Nat} (h : root.height < m) :
    Line.entries { options with maxDepth := some m } root.lines =
      Line.entries { options with maxDepth := none } root.lines := by
  unfold Line.entries
  rw [text_maxDepth, text_maxDepth]
  congr 1
  refine List.filter_congr fun line hline => ?_
  obtain ⟨place, hplace, hdepth⟩ := exists_place_of_line hline
  have hheight := depth_le_height hplace
  cases line <;> simp only [Line.depth] at hdepth <;> simp [Line.isShown]
  · omega
  · intro _
    omega

/-- A listing is made of the lines of the tree: one for everything that a whole walk enters, in
order, each node at its depth. The greatest depth only leaves lines out, fewer if it is greater, and
none if it is greater than the height. -/
theorem listing_lays_out (root : Node) (options : ListingOptions) :
    root.listing options = String.join (Line.entries options root.lines) ∧
    root.lines.map Line.event = root.events.filter (!·.isLeave) ∧
    root.lines.filterMap Line.node? = root.places.map (fun place => (place.node, place.depth)) ∧
    (∀ m m', m ≤ m' → (Line.entries { options with maxDepth := some m } root.lines).Sublist
      (Line.entries { options with maxDepth := some m' } root.lines)) ∧
    ∀ m, root.height < m →
      root.listing { options with maxDepth := some m } =
        root.listing { options with maxDepth := none } := by
  refine ⟨root.listing_eq options, root.map_event_linesAt 0, ?_, ?_, ?_⟩
  · have hnodes := root.filterMap_linesAt 0
    simp only [Nat.zero_add] at hnodes
    exact hnodes
  · intro m m' h
    exact entries_sublist options h root.lines
  · intro m h
    rw [listing_eq, listing_eq, entries_deep options h]

def nullableName : Node :=
  .wrapper .nullable {} (some (.list .name {} [.leaf .namePart {} "A", .leaf .namePart {} "B"]))

theorem nullableName_listing :
    1 ≤ 2 ∧ (Line.entries { maxDepth := some 1 } nullableName.lines).Sublist
      (Line.entries { maxDepth := some 2 } nullableName.lines) ∧
    nullableName.height < 3 ∧
      nullableName.listing { maxDepth := some 3 } = nullableName.listing { maxDepth := none } := by
  obtain ⟨-, -, -, hsublist, hdeep⟩ := nullableName.listing_lays_out {}
  have hheight : nullableName.height < 3 := by decide
  exact ⟨by decide, hsublist 1 2 (by decide), hheight, hdeep 3 hheight⟩

end Node

end SyntaxTree
