import SyntaxTree.Proofs.Node.Places
import SyntaxTree.Proofs.Walk.Steps

set_option autoImplicit false

namespace SyntaxTree

inductive Call where
  | enterNode (node : Node) (answer : Descent)
  | leaveNode (node : Node)
  | enterRole (role : Role) (isList : Bool)
  | leaveRole (role : Role) (isList : Bool)
  deriving DecidableEq

namespace Call

def entered? : Call → Option (Node × Descent)
  | .enterNode node answer => some (node, answer)
  | _ => none

def left? : Call → Option Node
  | .leaveNode node => some node
  | _ => none

end Call

/-- Where the children of a node are skipped. -/
abbrev Skips := Path → Bool

namespace Skips

def below (skips : Skips) (i : Nat) : Skips := fun path => skips (i :: path)

/-- Whether no node above the end of a path is skipped. -/
def reaches (skips : Skips) (path : Path) : Bool :=
  (List.range path.length).all fun n => !skips (path.take n)

def answer (skips : Skips) (path : Path) : Descent := if skips path then .skip else .descend

def keep (skips : Skips) (places : List Place) : List Place :=
  places.filter fun place => skips.reaches place.path

def keepFrom (skips : Skips) : Nat → List (List Place) → List Place
  | _, [] => []
  | i, places :: children =>
    ((skips.below i).keep places).map (Place.under i) ++ skips.keepFrom (i + 1) children

theorem reaches_nil (skips : Skips) : skips.reaches [] = true := rfl

theorem reaches_cons (skips : Skips) (i : Nat) (path : Path) :
    skips.reaches (i :: path) = (!skips [] && (skips.below i).reaches path) := by
  simp [reaches, below, List.range_succ_eq_map, List.all_map, Function.comp_def]

theorem keep_under (skips : Skips) (i : Nat) (places : List Place) :
    skips.keep (places.map (Place.under i)) =
      if skips [] then [] else ((skips.below i).keep places).map (Place.under i) := by
  have hreaches (place : Place) : skips.reaches (place.under i).path =
      (!skips [] && (skips.below i).reaches place.path) := reaches_cons skips i place.path
  cases hs : skips [] with
  | true => simp [keep, List.filter_map, Function.comp_def, hreaches, hs]
  | false => simp [keep, List.filter_map, Function.comp_def, hreaches, hs]

theorem keep_placesFrom (skips : Skips) (i : Nat) (children : List (List Place)) :
    skips.keep (Node.placesFrom i children) =
      if skips [] then [] else skips.keepFrom i children := by
  induction children generalizing i with
  | nil => simp [Node.placesFrom, keep, keepFrom]
  | cons places children ih =>
    have happend : skips.keep (Node.placesFrom i (places :: children)) =
        skips.keep (places.map (Place.under i)) ++
          skips.keep (Node.placesFrom (i + 1) children) := List.filter_append ..
    rw [happend, keep_under, ih, keepFrom]
    cases skips [] <;> rfl

theorem keepFrom_append (skips : Skips) (i : Nat) (children more : List (List Place)) :
    skips.keepFrom i (children ++ more) =
      skips.keepFrom i children ++ skips.keepFrom (i + children.length) more := by
  induction children generalizing i with
  | nil => rfl
  | cons places children ih =>
    rw [List.cons_append, keepFrom, keepFrom, ih, List.append_assoc, List.length_cons,
      Nat.add_assoc, Nat.add_comm 1]

theorem keep_places (skips : Skips) (node : Node) : skips.keep node.places =
    ⟨[], node⟩ :: if skips [] then [] else skips.keepFrom 0 (node.children.map Node.places) := by
  rw [Node.places_eq, ← keep_placesFrom]
  exact List.filter_cons_of_pos (reaches_nil skips)

theorem keep_placesUpward (skips : Skips) (node : Node) : skips.keep node.placesUpward =
    (if skips [] then [] else skips.keepFrom 0 (node.children.map Node.placesUpward)) ++
      [⟨[], node⟩] := by
  rw [Node.placesUpward_eq, ← keep_placesFrom]
  exact List.filter_append ..

end Skips

namespace Node

def callsFrom (skips : Skips) : Nat → List (Skips → List Call) → List Call
  | _, [] => []
  | i, child :: children => child (skips.below i) ++ callsFrom skips (i + 1) children

def callsOfRoles (skips : Skips) : Nat → List (Branch (Skips → List Call)) → List Call
  | _, [] => []
  | i, branch :: branches =>
    (if branch.isList || !branch.children.isEmpty then
      .enterRole branch.role branch.isList ::
        (callsFrom skips i branch.children ++ [.leaveRole branch.role branch.isList])
    else []) ++ callsOfRoles skips (i + branch.children.length) branches

/-- The calls of a walk through a node and all below it. -/
def calls : Node → Skips → List Call :=
  fold fun node branches skips =>
    .enterNode node (skips.answer []) ::
      ((if skips [] then [] else callsOfRoles skips 0 branches) ++ [.leaveNode node])

def slotCalls (skips : Skips) (i : Nat) (slots : List (Role × Slot)) : List Call :=
  callsOfRoles skips i (slots.map (Branch.of calls))

def listCalls (skips : Skips) (i : Nat) (nodes : List Node) : List Call :=
  callsFrom skips i (nodes.map calls)

def callsInside (node : Node) (skips : Skips) : List Call :=
  (if skips [] then [] else slotCalls skips 0 node.slots) ++ [.leaveNode node]

theorem calls_eq (node : Node) (skips : Skips) :
    node.calls skips = .enterNode node (skips.answer []) :: node.callsInside skips := by
  rw [calls, fold_eq]
  rfl

def roleCalls (skips : Skips) (i : Nat) (slot : Role × Slot) : List Call :=
  if slot.2.isWalked then
    .enterRole slot.1 slot.2.isList ::
      (listCalls skips i slot.2.children ++ [.leaveRole slot.1 slot.2.isList])
  else []

theorem slotCalls_cons (skips : Skips) (i : Nat) (slot : Role × Slot)
    (slots : List (Role × Slot)) : slotCalls skips i (slot :: slots) =
      roleCalls skips i slot ++ slotCalls skips (i + slot.2.children.length) slots := by
  obtain ⟨role, slot⟩ := slot
  cases slot with
  | single o =>
    cases o <;> simp [slotCalls, callsOfRoles, Branch.of, roleCalls, listCalls, Slot.isWalked,
      Slot.isList, Slot.children]
  | list items =>
    simp [slotCalls, callsOfRoles, Branch.of, roleCalls, listCalls, Slot.isWalked, Slot.isList,
      Slot.children]

theorem listCalls_cons (skips : Skips) (i : Nat) (node : Node) (nodes : List Node) :
    listCalls skips i (node :: nodes) =
      node.calls (skips.below i) ++ listCalls skips (i + 1) nodes := rfl

theorem listCalls_append (skips : Skips) (i : Nat) (nodes more : List Node) :
    listCalls skips i (nodes ++ more) =
      listCalls skips i nodes ++ listCalls skips (i + nodes.length) more := by
  induction nodes generalizing i with
  | nil => rfl
  | cons node nodes ih =>
    rw [List.cons_append, listCalls_cons, listCalls_cons, ih, List.append_assoc, List.length_cons,
      Nat.add_assoc, Nat.add_comm 1]

theorem filterMap_slotCalls {γ : Type} {f : Call → Option γ}
    (henter : ∀ role isList, f (.enterRole role isList) = none)
    (hleave : ∀ role isList, f (.leaveRole role isList) = none) (skips : Skips) (i : Nat)
    (slots : List (Role × Slot)) : (slotCalls skips i slots).filterMap f =
      (listCalls skips i (slots.flatMap (·.2.children))).filterMap f := by
  induction slots generalizing i with
  | nil => rfl
  | cons slot slots ih =>
    rw [slotCalls_cons, List.flatMap_cons, listCalls_append, List.filterMap_append, ih,
      List.filterMap_append]
    congr 1
    by_cases hw : slot.2.isWalked = true
    · simp [roleCalls, hw, henter, hleave]
    · obtain ⟨role, slot⟩ := slot
      cases slot with
      | single o =>
        cases o with
        | none => rfl
        | some node => exact absurd rfl hw
      | list items => exact absurd rfl hw

theorem filterMap_listCalls {γ : Type} {f : Call → Option γ} {order : Node → List Place}
    {g : Skips → Place → γ}
    (hg : ∀ skips i place, g skips (place.under i) = g (skips.below i) place)
    {nodes : List Node} (h : ∀ node ∈ nodes, ∀ skips : Skips,
      (node.calls skips).filterMap f = (skips.keep (order node)).map (g skips))
    (skips : Skips) (i : Nat) : (listCalls skips i nodes).filterMap f =
      (skips.keepFrom i (nodes.map order)).map (g skips) := by
  induction nodes generalizing i with
  | nil => rfl
  | cons node nodes ih =>
    have hfirst := h node (by simp) (skips.below i)
    have hrest := ih (fun n hn => h n (List.mem_cons_of_mem _ hn)) (i + 1)
    have hunder (places : List Place) :
        (places.map (Place.under i)).map (g skips) = places.map (g (skips.below i)) := by
      rw [List.map_map]
      exact List.map_congr_left fun place _ => hg skips i place
    rw [listCalls_cons, List.filterMap_append, hfirst, hrest, List.map_cons, Skips.keepFrom,
      List.map_append, hunder]

theorem calls_entered (node : Node) (skips : Skips) :
    (node.calls skips).filterMap Call.entered? = (skips.keep node.places).map fun place =>
      (place.node, skips.answer place.path) := by
  induction node using Node.induction generalizing skips with
  | step node ih =>
    rw [calls_eq, callsInside, Skips.keep_places, List.filterMap_cons, List.filterMap_append]
    cases hs : skips [] with
    | true => rfl
    | false =>
      have hslots := filterMap_slotCalls (f := Call.entered?) (fun _ _ => rfl) (fun _ _ => rfl)
        skips 0 node.slots
      have hchildren := filterMap_listCalls (f := Call.entered?) (fun _ _ _ => rfl) ih skips 0
      rw [children] at hchildren
      simp [hslots, hchildren, children, Call.entered?]

theorem calls_left (node : Node) (skips : Skips) :
    (node.calls skips).filterMap Call.left? =
      (skips.keep node.placesUpward).map Place.node := by
  induction node using Node.induction generalizing skips with
  | step node ih =>
    rw [calls_eq, callsInside, Skips.keep_placesUpward, List.filterMap_cons, List.filterMap_append]
    cases hs : skips [] with
    | true => rfl
    | false =>
      have hslots := filterMap_slotCalls (f := Call.left?) (fun _ _ => rfl) (fun _ _ => rfl)
        skips 0 node.slots
      have hchildren := filterMap_listCalls (f := Call.left?) (g := fun _ => Place.node)
        (fun _ _ _ => rfl) ih skips 0
      rw [children] at hchildren
      simp [hslots, hchildren, children, Call.left?]

end Node

end SyntaxTree
