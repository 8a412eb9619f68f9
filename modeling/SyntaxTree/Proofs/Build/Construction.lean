import SyntaxTree.Proofs.Build.Refinement
import SyntaxTree.Proofs.Node.Places

/-! Building any tree. Children in lists are emitted into a scope of their own, and single children
wait in the arena until their parent is made. Wherever a builder stands, a tree can be built with
it, and nothing that it held before is touched. -/

set_option autoImplicit false

namespace SyntaxTree

abbrev Construction (α : Type) := ExceptT BuildError (StateM TreeBuilder) α

namespace Construction

def openList : Construction Unit := fun builder => (.ok (), builder.openList)

def emit (node : Node) : Construction NodeId := fun builder =>
  (.ok (builder.emit node).1, (builder.emit node).2)

def alloc (node : Node) : Construction NodeId := fun builder =>
  (.ok (builder.alloc node).1, (builder.alloc node).2)

def take (id : NodeId) : Construction Node := fun builder => builder.take id

def closeList : Construction (List Node) := TreeBuilder.closeList

def fetch : Option NodeId → Construction (Option Node)
  | none => return none
  | some id => do
    let child ← take id
    return some child

variable {α β : Type} {step : Construction α} {builder after : TreeBuilder}

theorem bind_eq {a : α} (h : step builder = (.ok a, after)) (next : α → Construction β) :
    (step >>= next) builder = next a after := by
  show (StateT.bind step (ExceptT.bindCont next)) builder = _
  rw [StateT.bind]
  simp only [h]
  rfl

end Construction

namespace Node

open Construction

mutual

/-- Builds a tree from the leaves up: a list of children in a scope of its own, and single children
one after another, each stored until all of them are there. -/
def construct : Node → Construction Node
  | .list kind info items => do
    openList
    constructItems items
    let items ← closeList
    return .list kind info items
  | .wrapper kind info child => do
    let child ← constructChild child
    let child ← fetch child
    return .wrapper kind info child
  | .leaf kind info value => return .leaf kind info value
  | .parameter info byRef variadic type var defaultValue => do
    let type ← constructChild type
    let var ← constructChild var
    let defaultValue ← constructChild defaultValue
    let type ← fetch type
    let var ← fetch var
    let defaultValue ← fetch defaultValue
    return .parameter info byRef variadic type var defaultValue
  | .functionCall info function argumentList => do
    let function ← constructChild function
    let argumentList ← constructChild argumentList
    let function ← fetch function
    let argumentList ← fetch argumentList
    return .functionCall info function argumentList
  | .argument info variadic isReference expr => do
    let expr ← constructChild expr
    let expr ← fetch expr
    return .argument info variadic isReference expr

def constructItems : List Node → Construction Unit
  | [] => return
  | node :: nodes => do
    let node ← construct node
    let _ ← emit node
    constructItems nodes

def constructChild : Option Node → Construction (Option NodeId)
  | none => return none
  | some node => do
    let node ← construct node
    let id ← alloc node
    return some id

end

end Node

namespace Arena

/-- After `n` nodes have been stored, those that are parked are held under their ids. What was there
before is as it was, and nothing else is there. -/
structure Parks (arena after : Arena) (n : Nat) (parked : List (NodeId × Node)) : Prop where
  size : after.slots.size = arena.slots.size + n
  live : after.live = arena.live + parked.length
  old : ∀ i < arena.slots.size, after.slots[i]? = arena.slots[i]?
  new : ∀ entry ∈ parked, arena.slots.size ≤ entry.1.index
  held : ∀ entry ∈ parked, after.slots[entry.1.index]? = some (some entry.2)
  nodup : (parked.map fun entry => entry.1.index).Nodup
  spent : ∀ i, arena.slots.size ≤ i → i < after.slots.size →
    i ∉ parked.map (fun entry => entry.1.index) → after.slots[i]? = some none

namespace Parks

variable {arena mid after : Arena} {m n : Nat} {first rest : List (NodeId × Node)}

theorem refl : arena.Parks arena 0 [] where
  size := rfl
  live := rfl
  old _ _ := rfl
  new := nofun
  held := nofun
  nodup := List.nodup_nil
  spent _ hle hlt _ := absurd hlt (Nat.not_lt.2 hle)

theorem lt_size (h : arena.Parks mid m first) {entry : NodeId × Node} (hentry : entry ∈ first) :
    entry.1.index < mid.slots.size :=
  (Array.getElem?_eq_some_iff.1 (h.held entry hentry)).1

theorem trans (h : arena.Parks mid m first) (ht : mid.Parks after n rest) :
    arena.Parks after (m + n) (first ++ rest) where
  size := by rw [ht.size, h.size, Nat.add_assoc]
  live := by rw [ht.live, h.live, List.length_append, Nat.add_assoc]
  old i hi := by
    have hmid : i < mid.slots.size := by
      have hsize := h.size
      omega
    rw [ht.old i hmid, h.old i hi]
  new entry hentry := by
    have hsize := h.size
    rcases List.mem_append.1 hentry with hentry | hentry
    · exact h.new entry hentry
    · have hnew := ht.new entry hentry
      omega
  held entry hentry := by
    rcases List.mem_append.1 hentry with hentry | hentry
    · rw [ht.old _ (h.lt_size hentry), h.held entry hentry]
    · exact ht.held entry hentry
  nodup := by
    rw [List.map_append, List.nodup_append]
    refine ⟨h.nodup, ht.nodup, fun i hi j hj => ?_⟩
    -- what is parked later has ids above all that there were
    obtain ⟨entry, hentry, rfl⟩ := List.mem_map.1 hi
    obtain ⟨other, hother, rfl⟩ := List.mem_map.1 hj
    exact Nat.ne_of_lt (Nat.lt_of_lt_of_le (h.lt_size hentry) (ht.new other hother))
  spent i hle hlt hnone := by
    rw [List.map_append, List.mem_append, not_or] at hnone
    by_cases hi : i < mid.slots.size
    · rw [ht.old i hi, h.spent i hle hi hnone.1]
    · exact ht.spent i (Nat.le_of_not_lt hi) hlt hnone.2

theorem alloc (hfit : arena.slots.size < UInt32.size) (node : Node) :
    arena.Parks (arena.alloc node).2 1 [((arena.alloc node).1, node)] := by
  have hindex : (arena.alloc node).1.index = arena.slots.size := by
    rw [Arena.alloc, NodeId.index, UInt32.toNat_ofNat']
    exact Nat.mod_eq_of_lt hfit
  have hslots (i : Nat) : (arena.alloc node).2.slots[i]? =
      if i = arena.slots.size then some (some node) else arena.slots[i]? := Array.getElem?_push
  have hsize : (arena.alloc node).2.slots.size = arena.slots.size + 1 := Array.size_push _
  constructor
  · exact hsize
  · rfl
  · intro i hi
    rw [hslots, if_neg (Nat.ne_of_lt hi)]
  · simp [hindex]
  · simp [hindex, hslots]
  · simp
  · intro i hle hlt hnone
    rw [List.map_cons, List.mem_cons, not_or, hindex] at hnone
    omega

theorem take {id : NodeId} {node : Node} (h : arena.Parks mid n ((id, node) :: rest)) :
    ∃ after, mid.take id = (.ok node, after) ∧ arena.Parks after n rest := by
  have hslot := h.held (id, node) (by simp)
  have hnew := h.new (id, node) (by simp)
  have hnodup := h.nodup
  rw [List.map_cons, List.nodup_cons] at hnodup
  have hset := getElem?_set_none mid.slots hslot
  refine ⟨_, take_held hslot, ?_⟩
  constructor
  · rw [Array.size_setIfInBounds, h.size]
  · have hlive := h.live
    rw [List.length_cons] at hlive
    simp only
    omega
  · intro i hi
    have hne : i ≠ id.index := Nat.ne_of_lt (Nat.lt_of_lt_of_le hi hnew)
    rw [hset, if_neg hne, h.old i hi]
  · exact fun entry hentry => h.new entry (List.mem_cons_of_mem _ hentry)
  · intro entry hentry
    have hne : entry.1.index ≠ id.index := fun he =>
      hnodup.1 (List.mem_map.2 ⟨entry, hentry, he⟩)
    rw [hset, if_neg hne]
    exact h.held entry (List.mem_cons_of_mem _ hentry)
  · exact hnodup.2
  · intro i hle hlt hnone
    rw [Array.size_setIfInBounds] at hlt
    rw [hset]
    by_cases hi : i = id.index
    · rw [if_pos hi]
    · rw [if_neg hi]
      refine h.spent i hle hlt ?_
      rw [List.map_cons, List.mem_cons, not_or]
      exact ⟨hi, hnone⟩

theorem takeAll (h : arena.Parks mid n rest) :
    ∃ after, mid.takeAll (rest.map Prod.fst) = (.ok (rest.map Prod.snd), after) ∧
      arena.Parks after n [] := by
  induction rest generalizing mid with
  | nil => exact ⟨mid, rfl, h⟩
  | cons entry rest ih =>
    obtain ⟨next, hfirst, hnext⟩ := h.take
    obtain ⟨after, hrest, hafter⟩ := ih hnext
    exact ⟨after, by simp [Arena.takeAll, hfirst, hrest], hafter⟩

theorem forM_check (h : arena.Parks mid n rest) :
    (rest.map Prod.fst).forM mid.check = .ok () := by
  have hheld := h.held
  clear h
  induction rest with
  | nil => rfl
  | cons entry rest ih =>
    have hfirst := check_held (hheld entry (by simp))
    have hrest := ih fun other ho => hheld other (List.mem_cons_of_mem _ ho)
    show (mid.check entry.1 >>= fun _ => (rest.map Prod.fst).forM mid.check) = _
    rw [hfirst]
    exact hrest

end Parks

end Arena

namespace ScopedList

theorem foldl_add {α : Type} (list : ScopedList α) (items : List α) :
    items.foldl add list = ⟨list.items ++ items.toArray, list.cuts⟩ := by
  induction items generalizing list with
  | nil => simp
  | cons item items ih =>
    rw [List.foldl_cons, ih]
    simp [add]

theorem pop_foldl_add {α : Type} (list : ScopedList α) (items : List α) :
    (items.foldl add list.push).pop = (items, list) := by
  rw [foldl_add]
  simp [pop, current, cut, push]

end ScopedList

namespace TreeBuilder

structure Parks (builder after : TreeBuilder) (n : Nat) (parked : List (NodeId × Node)) :
    Prop where
  lists : after.lists = builder.lists
  arena : builder.arena.Parks after.arena n parked

namespace Parks

variable {builder mid after : TreeBuilder} {m n : Nat} {parked rest : List (NodeId × Node)}

theorem refl : builder.Parks builder 0 [] := ⟨rfl, .refl⟩

theorem trans (h : builder.Parks mid m parked) (ht : mid.Parks after n rest) :
    builder.Parks after (m + n) (parked ++ rest) :=
  ⟨ht.lists.trans h.lists, h.arena.trans ht.arena⟩

theorem fetch (h : builder.Parks mid n parked) {child : Option (NodeId × Node)}
    (hparked : parked = child.toList ++ rest) :
    ∃ after, Construction.fetch (child.map Prod.fst) mid = (.ok (child.map Prod.snd), after) ∧
      builder.Parks after n rest := by
  subst hparked
  cases child with
  | none => exact ⟨mid, rfl, h⟩
  | some entry =>
    obtain ⟨after, htake, hafter⟩ := h.arena.take
    have hstep : Construction.take entry.1 mid = (.ok entry.2, { mid with arena := after }) := by
      simp [Construction.take, TreeBuilder.take, htake]
    exact ⟨_, Construction.bind_eq hstep _, h.lists, hafter⟩

end Parks

/-- Nodes that have been stored and taken again leave nothing but a higher number. -/
theorem Refines.parks {builder after : TreeBuilder} {scopes : Scopes} {n : Nat}
    (h : builder.Refines scopes) (hparks : builder.Parks after n []) :
    after.Refines { scopes with stored := scopes.stored + n } := by
  have hsize := h.size
  constructor
  · rw [hparks.lists]
    exact h.lists
  · rw [hparks.arena.size, hsize]
  · intro child hc
    have hlt := h.valid.lt child hc
    rw [hparks.arena.old _ (hsize ▸ hlt)]
    exact h.held child hc
  · intro i hi hnone
    by_cases hold : i < scopes.stored
    · rw [hparks.arena.old i (hsize ▸ hold)]
      exact h.moved i hold hnone
    · refine hparks.arena.spent i (hsize ▸ Nat.le_of_not_lt hold) ?_ List.not_mem_nil
      rw [hparks.arena.size, hsize]
      exact hi
  · exact ⟨h.valid.nodup, fun child hc => Nat.lt_add_right n (h.valid.lt child hc)⟩

theorem closeList_parks {builder mid : TreeBuilder} {n : Nat} {parked : List (NodeId × Node)}
    (hlists : mid.lists = (parked.map Prod.fst).foldl ScopedList.add builder.lists.push)
    (h : builder.arena.Parks mid.arena n parked) :
    ∃ after, mid.closeList = (.ok (parked.map Prod.snd), after) ∧ builder.Parks after n [] := by
  have hpop : mid.lists.pop = (parked.map Prod.fst, builder.lists) := by
    rw [hlists, ScopedList.pop_foldl_add]
  have hcurrent : mid.lists.current = parked.map Prod.fst := congrArg Prod.fst hpop
  obtain ⟨after, htake, hafter⟩ := h.takeAll
  refine ⟨⟨after, builder.lists⟩, ?_, rfl, hafter⟩
  simp only [closeList, hcurrent, h.forM_check, hpop, htake]

end TreeBuilder

namespace Node

open Construction

def descendants (node : Node) : Nat := (node.children.flatMap nodes).length

theorem length_nodes (node : Node) : node.nodes.length = node.descendants + 1 := by
  rw [nodes_eq, List.length_cons, descendants]

/-- Whether a tree can be built with every builder that has ids left for the nodes below its
root. -/
def IsBuilt (node : Node) : Prop := ∀ builder : TreeBuilder,
  builder.arena.slots.size + node.descendants < UInt32.size →
  ∃ after, node.construct builder = (.ok node, after) ∧ builder.Parks after node.descendants []

theorem constructChild_eq (builder : TreeBuilder) {o : Option Node}
    (h : ∀ child ∈ o.toList, child.IsBuilt)
    (hfit : builder.arena.slots.size + (o.toList.flatMap nodes).length < UInt32.size) :
    ∃ (child : Option (NodeId × Node)) (after : TreeBuilder), child.map Prod.snd = o ∧
      constructChild o builder = (.ok (child.map Prod.fst), after) ∧
      builder.Parks after (o.toList.flatMap nodes).length child.toList := by
  cases o with
  | none => exact ⟨none, builder, rfl, rfl, .refl⟩
  | some node =>
    have hcount : ((some node).toList.flatMap nodes).length = node.descendants + 1 := by
      simp [length_nodes]
    rw [hcount] at hfit ⊢
    obtain ⟨mid, hbuilt, hmid⟩ := h node (by simp) builder (by omega)
    have hsize := hmid.arena.size
    have hparks : mid.Parks (mid.alloc node).2 1 [((mid.alloc node).1, node)] :=
      ⟨rfl, .alloc (by omega) node⟩
    refine ⟨some ((mid.alloc node).1, node), _, rfl, ?_, hmid.trans hparks⟩
    rw [constructChild, bind_eq hbuilt]
    rfl

theorem constructItems_eq (builder : TreeBuilder) {items : List Node}
    (h : ∀ item ∈ items, item.IsBuilt)
    (hfit : builder.arena.slots.size + (items.flatMap nodes).length < UInt32.size) :
    ∃ (emitted : List (NodeId × Node)) (after : TreeBuilder), emitted.map Prod.snd = items ∧
      constructItems items builder = (.ok (), after) ∧
      after.lists = (emitted.map Prod.fst).foldl ScopedList.add builder.lists ∧
      builder.arena.Parks after.arena (items.flatMap nodes).length emitted := by
  induction items generalizing builder with
  | nil => exact ⟨[], builder, rfl, rfl, rfl, .refl⟩
  | cons node items ih =>
    have hcount : ((node :: items).flatMap nodes).length =
        node.descendants + (1 + (items.flatMap nodes).length) := by
      rw [List.flatMap_cons, List.length_append, length_nodes, Nat.add_assoc]
    rw [hcount] at hfit ⊢
    obtain ⟨mid, hbuilt, hmid⟩ := h node (by simp) builder (by omega)
    have hsize := hmid.arena.size
    have hnode : mid.arena.Parks (mid.emit node).2.arena 1 [((mid.emit node).1, node)] :=
      .alloc (by omega) node
    have hnext := hnode.size
    obtain ⟨rest, after, hrest, hitems, hlists, hparks⟩ :=
      ih (mid.emit node).2 (fun item hitem => h item (List.mem_cons_of_mem _ hitem)) (by omega)
    refine ⟨((mid.emit node).1, node) :: rest, after, by rw [List.map_cons, hrest], ?_, ?_,
      hmid.arena.trans (hnode.trans hparks)⟩
    · rw [constructItems, bind_eq hbuilt]
      exact (bind_eq rfl _).trans hitems
    · rw [hlists, List.map_cons, List.foldl_cons, ← hmid.lists]
      rfl

theorem list_isBuilt {kind : ListKind} {info : Metadata} {items : List Node}
    (h : ∀ item ∈ items, item.IsBuilt) : (Node.list kind info items).IsBuilt := by
  intro builder hfit
  rw [descendants, children_list] at hfit ⊢
  obtain ⟨emitted, mid, hemitted, hitems, hlists, hparks⟩ :=
    constructItems_eq builder.openList h hfit
  obtain ⟨after, hclose, hafter⟩ := TreeBuilder.closeList_parks hlists hparks
  have hopen : Construction.openList builder = (.ok (), builder.openList) := rfl
  have hstep : Construction.closeList mid = (.ok items, after) := hemitted ▸ hclose
  refine ⟨after, ?_, hafter⟩
  rw [construct, bind_eq hopen, bind_eq hitems, bind_eq hstep]
  rfl

theorem wrapper_isBuilt {kind : WrapperKind} {info : Metadata} {child : Option Node}
    (h : ∀ node ∈ child.toList, node.IsBuilt) : (Node.wrapper kind info child).IsBuilt := by
  intro builder hfit
  rw [descendants, children_wrapper] at hfit ⊢
  obtain ⟨parked, mid, rfl, hbuilt, hmid⟩ := constructChild_eq builder h hfit
  obtain ⟨after, hfetch, hafter⟩ := hmid.fetch (List.append_nil _).symm
  refine ⟨after, ?_, hafter⟩
  rw [construct, bind_eq hbuilt, bind_eq hfetch]
  rfl

theorem argument_isBuilt {info : Metadata} {variadic isReference : Bool} {expr : Option Node}
    (h : ∀ node ∈ expr.toList, node.IsBuilt) :
    (Node.argument info variadic isReference expr).IsBuilt := by
  intro builder hfit
  rw [descendants, children_argument] at hfit ⊢
  obtain ⟨parked, mid, rfl, hbuilt, hmid⟩ := constructChild_eq builder h hfit
  obtain ⟨after, hfetch, hafter⟩ := hmid.fetch (List.append_nil _).symm
  refine ⟨after, ?_, hafter⟩
  rw [construct, bind_eq hbuilt, bind_eq hfetch]
  rfl

theorem functionCall_isBuilt {info : Metadata} {function argumentList : Option Node}
    (h : ∀ node ∈ function.toList, node.IsBuilt)
    (h' : ∀ node ∈ argumentList.toList, node.IsBuilt) :
    (Node.functionCall info function argumentList).IsBuilt := by
  intro builder hfit
  rw [descendants, children_functionCall, List.flatMap_append, List.length_append] at hfit ⊢
  obtain ⟨function, first, rfl, hfunction, hfirst⟩ := constructChild_eq builder h (by omega)
  have hsize := hfirst.arena.size
  obtain ⟨argumentList, second, rfl, hargumentList, hsecond⟩ :=
    constructChild_eq first h' (by omega)
  -- both children are stored by now, and taken back in the order in which they were
  obtain ⟨third, hfetch, hthird⟩ := (hfirst.trans hsecond).fetch rfl
  obtain ⟨after, hfetch', hafter⟩ := hthird.fetch (List.append_nil _).symm
  refine ⟨after, ?_, hafter⟩
  rw [construct, bind_eq hfunction, bind_eq hargumentList, bind_eq hfetch, bind_eq hfetch']
  rfl

theorem parameter_isBuilt {info : Metadata} {byRef variadic : Bool}
    {type var defaultValue : Option Node} (ht : ∀ node ∈ type.toList, node.IsBuilt)
    (hv : ∀ node ∈ var.toList, node.IsBuilt) (hd : ∀ node ∈ defaultValue.toList, node.IsBuilt) :
    (Node.parameter info byRef variadic type var defaultValue).IsBuilt := by
  intro builder hfit
  rw [descendants, children_parameter, List.flatMap_append, List.length_append,
    List.flatMap_append, List.length_append] at hfit ⊢
  obtain ⟨type, first, rfl, htype, hfirst⟩ := constructChild_eq builder ht (by omega)
  have hsize := hfirst.arena.size
  obtain ⟨var, second, rfl, hvar, hsecond⟩ := constructChild_eq first hv (by omega)
  have hsize' := hsecond.arena.size
  obtain ⟨defaultValue, third, rfl, hdefault, hthird⟩ :=
    constructChild_eq second hd (by omega)
  obtain ⟨fourth, hfetch, hfourth⟩ := (hfirst.trans (hsecond.trans hthird)).fetch rfl
  obtain ⟨fifth, hfetch', hfifth⟩ := hfourth.fetch rfl
  obtain ⟨after, hfetch'', hafter⟩ := hfifth.fetch (List.append_nil _).symm
  refine ⟨after, ?_, hafter⟩
  rw [construct, bind_eq htype, bind_eq hvar, bind_eq hdefault, bind_eq hfetch, bind_eq hfetch',
    bind_eq hfetch'']
  rfl

theorem isBuilt (node : Node) : node.IsBuilt := by
  induction node using Node.induction with
  | step node ih =>
    cases node with
    | list kind info items => exact list_isBuilt (by simpa using ih)
    | wrapper kind info child => exact wrapper_isBuilt (by simpa using ih)
    | leaf kind info value => exact fun builder _ => ⟨builder, rfl, .refl⟩
    | parameter info byRef variadic type var defaultValue =>
      simp only [children_parameter, List.mem_append] at ih
      exact parameter_isBuilt (fun n hn => ih n (.inl hn)) (fun n hn => ih n (.inr (.inl hn)))
        fun n hn => ih n (.inr (.inr hn))
    | functionCall info function argumentList =>
      simp only [children_functionCall, List.mem_append] at ih
      exact functionCall_isBuilt (fun n hn => ih n (.inl hn)) fun n hn => ih n (.inr hn)
    | argument info variadic isReference expr => exact argument_isBuilt (by simpa using ih)

/-- A tree can be built with every builder, whatever lists are open and whatever is stored in it, as
long as ids are left. The builder then holds what it held before, list by list and id by id: of the
scopes that it stands for only the number of nodes stored has moved on. Where no list is open it can
be finished. -/
theorem construct_anywhere (tree : Node) (builder : TreeBuilder)
    (hfit : builder.arena.allocated + (tree.nodes.length - 1) < UInt32.size) :
    ∃ after, tree.construct builder = (.ok tree, after) ∧
      after.depth = builder.depth ∧ after.pending = builder.pending ∧
      after.lists = builder.lists ∧
      (∀ i < builder.arena.allocated, after.arena.slots[i]? = builder.arena.slots[i]?) ∧
      (∀ scopes, builder.Refines scopes →
        after.Refines { scopes with stored := scopes.stored + (tree.nodes.length - 1) }) ∧
      (builder.depth = 0 → after.finish tree = (.ok tree, .empty)) := by
  have hcount : tree.nodes.length - 1 = tree.descendants := by
    rw [length_nodes, Nat.add_sub_cancel]
  rw [hcount] at hfit ⊢
  obtain ⟨after, hbuilt, hparks⟩ := tree.isBuilt builder hfit
  have hdepth : after.depth = builder.depth := congrArg ScopedList.depth hparks.lists
  refine ⟨after, hbuilt, hdepth, hparks.arena.live, hparks.lists, hparks.arena.old,
    fun scopes h => h.parks hparks, fun hclosed => ?_⟩
  rw [TreeBuilder.finish, hdepth, hclosed, if_neg (Nat.lt_irrefl 0)]

def halfFilled : TreeBuilder :=
  let leaf (value : String) : Node := .leaf .identifier {} value
  (TreeBuilder.empty.run [.openList, .emit (leaf "a"), .alloc (leaf "b"), .openList,
    .emit (leaf "c")]).2

def call : Node :=
  .functionCall {} (some (.list .name {} [.leaf .namePart {} "f"]))
    (some (.list .argumentList {} [
      .argument {} true false (some (.leaf .numberLiteral {} "1.5")),
      .argument {} false true none]))

theorem call_constructed :
    halfFilled.arena.allocated + (call.nodes.length - 1) < UInt32.size ∧
    ∃ after, call.construct halfFilled = (.ok call, after) ∧
      after.depth = 2 ∧ after.pending = 3 ∧ after.lists = halfFilled.lists := by
  have hfit : halfFilled.arena.allocated + (call.nodes.length - 1) < UInt32.size := by
    decide +kernel
  obtain ⟨after, hbuilt, hdepth, hpending, hlists, -⟩ := construct_anywhere call halfFilled hfit
  exact ⟨hfit, after, hbuilt, hdepth, hpending, hlists⟩

end Node

end SyntaxTree
