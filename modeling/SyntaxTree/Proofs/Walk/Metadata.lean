import Mathlib.Data.List.Forall2
import SyntaxTree.Command.Basic
import SyntaxTree.Proofs.Walk.Lines

/-! Metadata do not show. Two trees that are the same but for the metadata of their nodes are walked
in step: a visitor that takes no notice of metadata ends with the same state and the same summary.
-/

set_option autoImplicit false

namespace SyntaxTree

namespace Node

section

variable (R : Metadata → Metadata → Prop)

mutual

/-- Whether two trees are the same but for their metadata, which are related node by node. -/
def SameBut : Node → Node → Prop
  | .list kind info items, .list kind' info' items' =>
    kind = kind' ∧ R info info' ∧ SameButAll items items'
  | .wrapper kind info child, .wrapper kind' info' child' =>
    kind = kind' ∧ R info info' ∧ SameButIfAny child child'
  | .leaf kind info value, .leaf kind' info' value' =>
    kind = kind' ∧ R info info' ∧ value = value'
  | .parameter info byRef variadic type var defaultValue,
      .parameter info' byRef' variadic' type' var' defaultValue' =>
    R info info' ∧ byRef = byRef' ∧ variadic = variadic' ∧ SameButIfAny type type' ∧
      SameButIfAny var var' ∧ SameButIfAny defaultValue defaultValue'
  | .functionCall info function argumentList, .functionCall info' function' argumentList' =>
    R info info' ∧ SameButIfAny function function' ∧ SameButIfAny argumentList argumentList'
  | .argument info variadic isReference expr, .argument info' variadic' isReference' expr' =>
    R info info' ∧ variadic = variadic' ∧ isReference = isReference' ∧ SameButIfAny expr expr'
  | _, _ => False

def SameButAll : List Node → List Node → Prop
  | [], [] => True
  | node :: nodes, node' :: nodes' => SameBut node node' ∧ SameButAll nodes nodes'
  | _, _ => False

def SameButIfAny : Option Node → Option Node → Prop
  | none, none => True
  | some node, some node' => SameBut node node'
  | _, _ => False

end

end

def Slot.Paired (same : Node → Node → Prop) (slot slot' : Role × Slot) : Prop :=
  slot.1 = slot'.1 ∧ slot.2.isList = slot'.2.isList ∧
    List.Forall₂ same slot.2.children slot'.2.children

variable {R : Metadata → Metadata → Prop}

theorem sameButAll_iff {nodes nodes' : List Node} :
    SameButAll R nodes nodes' ↔ List.Forall₂ (SameBut R) nodes nodes' := by
  induction nodes generalizing nodes' with
  | nil => cases nodes' <;> simp [SameButAll]
  | cons node nodes ih => cases nodes' <;> simp [SameButAll, ih]

theorem sameButIfAny_iff {o o' : Option Node} :
    SameButIfAny R o o' ↔ List.Forall₂ (SameBut R) o.toList o'.toList := by
  cases o <;> cases o' <;> simp [SameButIfAny]

theorem Slot.Paired.isWalked_eq {same : Node → Node → Prop} {slot slot' : Role × Slot}
    (h : Paired same slot slot') : slot.2.isWalked = slot'.2.isWalked := by
  obtain ⟨-, hlist, hchildren⟩ := h
  have hlength := hchildren.length_eq
  have hempty : slot.2.children.isEmpty = slot'.2.children.isEmpty := by
    rw [Bool.eq_iff_iff, List.isEmpty_iff_length_eq_zero, hlength,
      List.isEmpty_iff_length_eq_zero]
  rw [Node.isWalked_eq, Node.isWalked_eq, hlist, hempty]

namespace SameBut

variable {a b : Node}

theorem kind_eq (h : a.SameBut R b) : a.kind = b.kind := by
  cases a <;> cases b <;> simp_all [SameBut, kind]

theorem info (h : a.SameBut R b) : R a.info b.info := by
  cases a <;> cases b <;> simp_all [SameBut, Node.info]

theorem slots (h : a.SameBut R b) :
    List.Forall₂ (Slot.Paired (SameBut R)) a.slots b.slots := by
  cases a <;> cases b <;>
    simp_all [SameBut, Node.slots, Slot.Paired, Slot.isList, Slot.children, sameButAll_iff,
      sameButIfAny_iff]

theorem namePart?_eq (h : a.SameBut R b) : a.namePart? = b.namePart? := by
  cases a <;> cases b <;> simp only [SameBut] at h
  case leaf.leaf kind _ _ _ _ _ =>
    obtain ⟨rfl, -, rfl⟩ := h
    cases kind <;> rfl
  all_goals rfl

theorem joinedName_eq {parts parts' : List Node} (h : List.Forall₂ (SameBut R) parts parts') :
    joinedName parts = joinedName parts' := by
  have hparts : parts.filterMap namePart? = parts'.filterMap namePart? := by
    induction h with
    | nil => rfl
    | cons hpart _ ih => rw [List.filterMap_cons, List.filterMap_cons, hpart.namePart?_eq, ih]
  rw [joinedName, joinedName, hparts]

theorem detail_eq (h : a.SameBut R b) : a.detail = b.detail := by
  cases a <;> cases b <;> simp only [SameBut] at h
  case list.list kind _ items _ _ items' =>
    obtain ⟨rfl, -, hitems⟩ := h
    have hsame := sameButAll_iff.1 hitems
    cases kind <;> simp [detail, joinedName_eq hsame, hsame.length_eq]
  case wrapper.wrapper => rfl
  case leaf.leaf kind _ _ _ _ _ =>
    obtain ⟨rfl, -, rfl⟩ := h
    cases kind <;> rfl
  case parameter.parameter =>
    obtain ⟨-, rfl, rfl, -⟩ := h
    rfl
  case functionCall.functionCall => rfl
  case argument.argument =>
    obtain ⟨-, rfl, rfl, -⟩ := h
    rfl

end SameBut

end Node

/-- Two walks under way that have passed as much, with states that are alike. -/
structure Walk.Alike {σ : Type} (alike : σ → σ → Prop) (run run' : Walk σ) : Prop where
  state : alike run.state run'.state
  summary : run.summary = run'.summary

/-- A visitor that cannot tell nodes that are the same to it: at every hook it answers likewise, and
states that are alike stay so. -/
structure Visitor.Blurs {σ : Type} (visitor : Visitor σ) (same : Node → Node → Prop)
    (alike : σ → σ → Prop) : Prop where
  answer : ∀ {a b s t}, same a b → alike s t →
    (visitor.enterNode a s).1 = (visitor.enterNode b t).1
  enterNode : ∀ {a b s t}, same a b → alike s t →
    alike (visitor.enterNode a s).2 (visitor.enterNode b t).2
  leaveNode : ∀ {a b s t}, same a b → alike s t →
    alike (visitor.leaveNode a s) (visitor.leaveNode b t)
  enterRole : ∀ role isList {s t}, alike s t →
    alike (visitor.enterRole role isList s) (visitor.enterRole role isList t)
  leaveRole : ∀ role isList {s t}, alike s t →
    alike (visitor.leaveRole role isList s) (visitor.leaveRole role isList t)

namespace Visitor.Blurs

variable {σ : Type} {visitor : Visitor σ} {same : Node → Node → Prop} {alike : σ → σ → Prop}
  {run run' : Walk σ}

theorem node (h : visitor.Blurs same alike) {a b : Node} (hab : same a b) (depth : Nat)
    {children children' : Walk σ → Walk σ}
    (hchildren : ∀ {run run'}, Walk.Alike alike run run' →
      Walk.Alike alike (children run) (children' run'))
    (hrun : run.Alike alike run') :
    Walk.Alike alike (Walk.node visitor a depth children run)
      (Walk.node visitor b depth children' run') := by
  have hanswer := h.answer hab hrun.state
  have hstate := h.enterNode hab hrun.state
  cases ha : visitor.enterNode a run.state with
  | mk descent s =>
    cases hb : visitor.enterNode b run'.state with
    | mk descent' t =>
      rw [ha, hb] at hanswer hstate
      cases hanswer
      cases descent with
      | descend =>
        have hbelow : Walk.Alike alike (children ⟨s, run.summary.enter depth⟩)
            (children' ⟨t, run'.summary.enter depth⟩) := hchildren ⟨hstate, by rw [hrun.summary]⟩
        rw [Walk.node_descend ha, Walk.node_descend hb]
        exact ⟨h.leaveNode hab hbelow.state, hbelow.summary⟩
      | skip =>
        rw [Walk.node_skip ha, Walk.node_skip hb]
        exact ⟨h.leaveNode hab hstate, by rw [hrun.summary]⟩

theorem role (h : visitor.Blurs same alike) (role : Role) (isList : Bool)
    {children children' : Walk σ → Walk σ}
    (hchildren : ∀ {run run'}, Walk.Alike alike run run' →
      Walk.Alike alike (children run) (children' run'))
    (hrun : run.Alike alike run') :
    Walk.Alike alike (Walk.role visitor role isList children run)
      (Walk.role visitor role isList children' run') := by
  have hinside : Walk.Alike alike (children (run.call (visitor.enterRole role isList)))
      (children' (run'.call (visitor.enterRole role isList))) :=
    hchildren ⟨h.enterRole role isList hrun.state, hrun.summary⟩
  exact ⟨h.leaveRole role isList hinside.state, hinside.summary⟩

end Visitor.Blurs

namespace Node

variable {σ : Type} {visitor : Visitor σ} {alike : σ → σ → Prop} {R : Metadata → Metadata → Prop}

def InStep (visitor : Visitor σ) (alike : σ → σ → Prop) (a b : Node) : Prop :=
  ∀ (depth : Nat) {run run' : Walk σ}, run.Alike alike run' →
    (a.walk visitor depth run).Alike alike (b.walk visitor depth run')

theorem walkList_inStep {nodes nodes' : List Node}
    (h : List.Forall₂ (InStep visitor alike) nodes nodes') (depth : Nat) {run run' : Walk σ}
    (hrun : run.Alike alike run') :
    (walkList visitor nodes depth run).Alike alike (walkList visitor nodes' depth run') := by
  induction h generalizing run run' with
  | nil => exact hrun
  | cons hnode _ ih => exact ih (hnode depth hrun)

theorem walkSlots_inStep {same : Node → Node → Prop} (h : visitor.Blurs same alike)
    {slots slots' : List (Role × Slot)}
    (hslots : List.Forall₂ (Slot.Paired (InStep visitor alike)) slots slots') (depth : Nat)
    {run run' : Walk σ} (hrun : run.Alike alike run') :
    (walkSlots visitor slots depth run).Alike alike (walkSlots visitor slots' depth run') := by
  induction hslots generalizing run run' with
  | nil => exact hrun
  | @cons slot slot' _ _ hslot _ ih =>
    refine ih ?_
    have hwalked := hslot.isWalked_eq
    obtain ⟨hrole, hlist, hchildren⟩ := hslot
    unfold walkSlot
    rw [hwalked, hrole, hlist]
    split
    · exact h.role _ _ (walkList_inStep hchildren depth) hrun
    · exact hrun

theorem forall₂_of_mem {α β : Type} {r s : α → β → Prop} {as : List α} {bs : List β}
    (h : List.Forall₂ r as bs) (hs : ∀ a ∈ as, ∀ b, r a b → s a b) : List.Forall₂ s as bs :=
  ((List.forall₂_and_left as bs).2 ⟨hs, h⟩).imp fun _ b hab => hab.1 b hab.2

/-- A visitor that takes no notice of metadata is taken through trees that differ in nothing else
in the same way. -/
theorem SameBut.inStep (h : visitor.Blurs (SameBut R) alike) {a b : Node} (hab : a.SameBut R b) :
    InStep visitor alike a b := by
  induction a using Node.induction generalizing b with
  | step a ih =>
    intro depth run run' hrun
    -- what holds of the children by induction holds of the slots that they stand in
    have hchildren {slot : Role × Slot} (hslot : slot ∈ a.slots) (slot' : Role × Slot)
        (hpaired : Slot.Paired (SameBut R) slot slot') :
        Slot.Paired (InStep visitor alike) slot slot' :=
      ⟨hpaired.1, hpaired.2.1, forall₂_of_mem hpaired.2.2 fun child hc _ hsame =>
        ih child (mem_children.2 ⟨slot, hslot, hc⟩) hsame⟩
    have hslots := forall₂_of_mem hab.slots fun slot hslot => hchildren hslot
    rw [walk_eq, walk_eq]
    exact h.node hab depth (walkSlots_inStep h hslots (depth + 1)) hrun

theorem SameBut.traverse (h : visitor.Blurs (SameBut R) alike) {a b : Node} (hab : a.SameBut R b)
    {start start' : σ} (hstart : alike start start') :
    (a.traverse visitor start).Alike alike (b.traverse visitor start') :=
  hab.inStep h 0 ⟨hstart, rfl⟩

end Node

section

variable {R : Metadata → Metadata → Prop}

theorem Event.recorder_blurs : recorder.Blurs (Node.SameBut R) (· = ·) where
  answer _ _ := rfl
  enterNode hab hst := by simp only [recorder, hab.kind_eq, hst]
  leaveNode hab hst := by simp only [recorder, hab.kind_eq, hst]
  enterRole _ _ _ _ hst := by rw [hst]
  leaveRole _ _ _ _ hst := by rw [hst]

theorem Tally.counter_blurs : counter.Blurs (Node.SameBut R) (· = ·) where
  answer _ _ := rfl
  enterNode hab hst := by simp only [counter, hab.kind_eq, hst]
  leaveNode _ hst := hst
  enterRole _ _ _ _ hst := hst
  leaveRole _ _ _ _ hst := hst

end

namespace Listing

structure SameText (s t : Listing) : Prop where
  out : s.out = t.out
  level : s.level = t.level
  depth : s.depth = t.depth

theorem remarks_hidden {options : ListingOptions} (h : options.showPositions = false)
    (detail : Option String) (position position' : Option Position) :
    remarks options detail position = remarks options detail position' := by
  simp [remarks_eq, h]

theorem lister_blurs {options : ListingOptions} (h : options.showPositions = false)
    {R : Metadata → Metadata → Prop} : (lister options).Blurs (Node.SameBut R) SameText where
  answer _ hst := by simp [lister, accept_eq, writeIndent_eq, write, hst.depth]
  enterNode {a b s t} hab hst := by
    have hremarks := remarks_hidden h b.detail a.position b.position
    constructor <;>
      simp [lister, accept_eq, writeIndent_eq, write, hab.kind_eq, hab.detail_eq, hremarks, hst.out,
        hst.level, hst.depth]
  leaveNode _ hst := ⟨hst.out, congrArg (· - 1) hst.level, congrArg (· - 1) hst.depth⟩
  enterRole _ _ _ _ hst := by
    constructor <;> simp only [lister] <;> split <;>
      simp [writeIndent_eq, write, hst.out, hst.level, hst.depth]
  leaveRole _ _ _ _ hst := by
    constructor <;> simp only [lister] <;> split <;> simp [hst.out, hst.level, hst.depth]

theorem lister_blurs_freeFloating (options : ListingOptions) :
    (lister options).Blurs (Node.SameBut fun info info' => info.position = info'.position)
      (· = ·) where
  answer _ hst := by simp [lister, accept_eq, writeIndent_eq, write, hst]
  enterNode {a b s t} hab hst := by
    have hposition : a.position = b.position := hab.info
    simp only [lister, accept_eq, hab.kind_eq, hab.detail_eq, hposition, hst]
  leaveNode _ hst := by simp only [lister, hst]
  enterRole _ _ _ _ hst := by rw [hst]
  leaveRole _ _ _ _ hst := by rw [hst]

end Listing

namespace Node

/-- Metadata do not show in the events of a tree, in its measures, and in its listing unless
positions are asked for. Then tokens still do not. -/
theorem metadata_inert {a b : Node} :
    (a.SameBut (fun _ _ => True) b →
      (∀ json, a.eventsText json = b.eventsText json) ∧ a.stats = b.stats ∧
      ∀ options, options.showPositions = false → a.listing options = b.listing options) ∧
    (a.SameBut (fun info info' => info.position = info'.position) b →
      ∀ options, a.listing options = b.listing options) := by
  refine ⟨fun hab => ⟨fun json => ?_, ?_, fun options hhidden => ?_⟩, fun hab options => ?_⟩
  · have hevents : a.events = b.events :=
      congrArg Array.toList (hab.traverse Event.recorder_blurs rfl).state
    rw [eventsText, eventsText, hevents]
  · have hwalk : (a.traverse Tally.counter .empty).Alike (· = ·)
        (b.traverse Tally.counter .empty) := hab.traverse Tally.counter_blurs rfl
    rw [stats, stats, hab.kind_eq, hwalk.state, hwalk.summary]
  · exact (hab.traverse (Listing.lister_blurs hhidden) ⟨rfl, rfl, rfl⟩).state.out
  · exact congrArg Listing.out (hab.traverse (Listing.lister_blurs_freeFloating options) rfl).state

def nullableWith (outer middle inner : Metadata) : Node :=
  .list .root outer [.wrapper .nullable middle (some (.leaf .identifier inner "int"))]

theorem nullableWith_inert :
    let comment : Option (List Token) := some [⟨.comment, "# a", none⟩]
    let place : Option Position := some ⟨1, 1, 4, 8⟩
    let full := nullableWith ⟨comment, place⟩ ⟨none, place⟩ ⟨some [], none⟩
    let placed := nullableWith ⟨none, place⟩ ⟨none, place⟩ {}
    let bare := nullableWith {} {} {}
    full.SameBut (fun _ _ => True) bare ∧ full.eventsText true = bare.eventsText true ∧
      full.stats = bare.stats ∧
      full.listing { showValues := true } = bare.listing { showValues := true } ∧
    full.SameBut (fun info info' => info.position = info'.position) placed ∧
      full.listing { showPositions := true } = placed.listing { showPositions := true } ∧
    full.listing { showPositions := true } ≠ bare.listing { showPositions := true } := by
  intro comment place full placed bare
  have hbare : full.SameBut (fun _ _ => True) bare := by
    simp [full, bare, nullableWith, SameBut, SameButAll, SameButIfAny]
  have hplaced : full.SameBut (fun info info' => info.position = info'.position) placed := by
    simp [full, placed, nullableWith, SameBut, SameButAll, SameButIfAny]
  obtain ⟨hevents, hstats, hlisting⟩ := metadata_inert.1 hbare
  exact ⟨hbare, hevents true, hstats, hlisting _ rfl, hplaced, metadata_inert.2 hplaced _,
    by decide +kernel⟩

end Node

end SyntaxTree
