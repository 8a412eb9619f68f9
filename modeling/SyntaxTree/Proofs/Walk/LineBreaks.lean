import Mathlib.Algebra.BigOperators.Group.List.Basic
import Mathlib.Algebra.GroupWithZero.Nat
import Mathlib.Data.List.Perm.Basic
import SyntaxTree.Proofs.Walk.Lines

/-! Where the lines of a listing break. Everything that is shown has one line, and most of what is
told on it cannot break it: names, flags, positions, and texts in quotation marks. But numerals are
written as they are, so one that is no numeral at all, and has line breaks of its own, breaks the
line of its node. -/

set_option autoImplicit false

namespace SyntaxTree

namespace Text

def breaks (text : String) : Nat := text.toList.count '\n'

@[simp] theorem breaks_append (a b : String) : breaks (a ++ b) = breaks a + breaks b := by
  simp [breaks]

theorem breaks_eq_zero_iff {text : String} : breaks text = 0 ↔ '\n' ∉ text.toList :=
  List.count_eq_zero

theorem breaks_join (texts : List String) :
    breaks (String.join texts) = (texts.map breaks).sum := by
  induction texts with
  | nil => rfl
  | cons text texts ih => simp [String.join_cons, ih]

theorem lineless_digits {base : Nat} (hbase : 1 < base) (hhex : base ≤ 16) (n : Nat) :
    '\n' ∉ Nat.toDigits base n := by
  have hdigit : ∀ n < 16, '\n' ≠ n.digitChar := by decide
  induction n using Nat.strongRecOn with
  | ind n ih =>
    by_cases hn : n < base
    · rw [Nat.toDigits_of_lt_base hn, List.mem_singleton]
      exact hdigit n (by omega)
    · have hlower := ih (n / base) (Nat.div_lt_self (by omega) (by omega))
      have hlast : n % base < base := Nat.mod_lt n (by omega)
      rw [Nat.toDigits_of_base_le hbase (Nat.le_of_not_lt hn), List.mem_append, not_or,
        List.mem_singleton]
      exact ⟨hlower, hdigit _ (by omega)⟩

theorem breaks_repr (n : Nat) : breaks n.repr = 0 := by
  rw [breaks_eq_zero_iff]
  simpa using lineless_digits (by decide) (by decide) n

theorem lineless_quotedChar (c : Char) : '\n' ∉ quotedChar c := by
  have hhex := lineless_digits (by decide) (Nat.le_refl 16) c.toNat
  unfold quotedChar
  split_ifs with _ _ _ hfeed
  case neg => simpa using Ne.symm hfeed
  all_goals simp [hexDigits, hhex]

theorem breaks_quoted (text : String) : breaks (quoted text) = 0 := by
  rw [breaks_eq_zero_iff]
  simp [quoted, quotedChars, lineless_quotedChar]

end Text

open Text

theorem NodeKind.breaks_name (kind : NodeKind) : breaks kind.name = 0 := by
  have hall : ∀ kind ∈ NodeKind.all, breaks kind.name = 0 := by decide
  exact hall kind kind.mem_all

theorem Role.breaks_name (role : Role) : breaks role.name = 0 := by cases role <;> decide

theorem Position.breaks_text (p : Position) : breaks p.text = 0 := by
  have hnumber (n : UInt32) : breaks (toString n) = 0 := breaks_repr n.toNat
  simp only [text, breaks_append, hnumber]
  decide

namespace Node

def numeralBreaks : Node → Nat
  | .leaf .numberLiteral _ value => breaks value
  | .leaf .integerLiteral _ value => breaks value
  | _ => 0

theorem breaks_flags (set set' : Bool) :
    ((Listing.flags [(set, "by_ref"), (set', "variadic")]).map breaks).getD 0 = 0 ∧
      ((Listing.flags [(set, "variadic"), (set', "is_reference")]).map breaks).getD 0 = 0 := by
  cases set <;> cases set' <;> decide

theorem breaks_detail (node : Node) : (node.detail.map breaks).getD 0 = node.numeralBreaks := by
  cases node with
  | list kind info items =>
    have hparens : breaks "(" = 0 ∧ breaks ")" = 0 := by decide
    cases kind <;> simp [detail, numeralBreaks, breaks_quoted, breaks_repr, hparens]
  | wrapper => rfl
  | leaf kind => cases kind <;> simp [detail, numeralBreaks, breaks_quoted]
  | parameter info byRef variadic => exact (breaks_flags byRef variadic).1
  | functionCall => rfl
  | argument info variadic isReference => exact (breaks_flags variadic isReference).2

end Node

namespace Line

/-- The line breaks on a line beside the one at its end. -/
def extraBreaks (options : ListingOptions) : Line → Nat
  | .node n _ => if options.showValues then n.numeralBreaks else 0
  | .role .. => 0

variable {options : ListingOptions}

theorem breaks_indent (h : '\n' ∉ options.indent.toList) (n : Nat) :
    breaks (String.join (List.replicate n options.indent)) = 0 := by
  simp [breaks_join, breaks_eq_zero_iff.2 h]

theorem breaks_text (h : '\n' ∉ options.indent.toList) (line : Line) :
    breaks (line.text options) = line.extraBreaks options + 1 := by
  have hfeed : breaks "\n" = 1 := by decide
  have hblank : breaks "" = 0 := by decide
  have hspace : breaks " " = 0 := by decide
  have hmark : breaks " @" = 0 := by decide
  cases line with
  | node n depth =>
    have hvalue : breaks (if options.showValues then (n.detail.map (" " ++ ·)).getD "" else "") =
        (Line.node n depth).extraBreaks options := by
      rw [extraBreaks, ← n.breaks_detail]
      cases options.showValues <;> cases n.detail <;> simp [hblank, hspace]
    have hposition : breaks (if options.showPositions then
        (n.position.map (" @" ++ ·.text)).getD "" else "") = 0 := by
      cases options.showPositions <;> cases n.position <;>
        simp [hblank, hmark, Position.breaks_text]
    simp only [text, breaks_append, breaks_indent h, n.kind.breaks_name, hvalue, hposition, hfeed]
    omega
  | role r _ owner =>
    have hend : breaks ":\n" = 1 := by decide
    simp only [text, breaks_append, breaks_indent h, r.breaks_name, hend, extraBreaks]

theorem exists_body (options : ListingOptions) (line : Line) :
    ∃ body, (line.text options).toList = body ++ ['\n'] := by
  have hrole : ":\n".toList = [':'] ++ ['\n'] := by decide
  have hfeed : "\n".toList = ['\n'] := by decide
  cases line with
  | node => exact ⟨_, by rw [text, String.toList_append, hfeed]⟩
  | role => exact ⟨_, by rw [text, String.toList_append, hrole, ← List.append_assoc]⟩

end Line

namespace Node

/-- The roles of a node under which a walk goes on. -/
def walkedRoles (node : Node) : List Role := (node.slots.filter (·.2.isWalked)).map (·.1)

def ownLines (depth : Nat) (place : Place) : List Line :=
  .node place.node (depth + place.depth) :: (place.node.slots.filter (·.2.isWalked)).map fun slot =>
    .role slot.1 slot.2.isList (depth + place.depth)

theorem roleLines_perm (depth : Nat) (slots : List (Role × Slot)) :
    (slots.flatMap (roleLines depth)).Perm
      (((slots.filter (·.2.isWalked)).map fun slot => Line.role slot.1 slot.2.isList depth) ++
        (slots.flatMap (·.2.children)).flatMap (linesAt · (depth + 1))) := by
  induction slots with
  | nil => exact .nil
  | cons slot slots ih =>
    rw [List.flatMap_cons, List.flatMap_cons, List.flatMap_append, List.filter_cons, roleLines]
    split
    · rw [List.map_cons, List.cons_append, List.cons_append]
      exact .cons _ ((ih.append_left _).trans (List.perm_append_comm_assoc ..))
    · next hskipped =>
      rw [children_of_skipped (by simpa using hskipped)]
      exact ih

/-- The lines of a tree are those of its nodes, in another order. -/
theorem linesAt_perm (node : Node) (depth : Nat) :
    (node.linesAt depth).Perm (node.places.flatMap (ownLines depth)) := by
  induction node using Node.induction generalizing depth with
  | step node ih =>
    have hunder (i : Nat) (place : Place) :
        ownLines depth (place.under i) = ownLines (depth + 1) place := by
      simp [ownLines, Place.under, Place.depth, Nat.add_assoc, Nat.add_comm 1]
    have hplaces : (placesFrom 0 (node.children.map places)).flatMap (ownLines depth) =
        node.children.flatMap fun child => child.places.flatMap (ownLines (depth + 1)) := by
      have hmap := map_placesFrom hunder 0 (node.children.map places)
      simp only [List.flatMap_def, hmap, List.flatten_flatten, List.map_map]
      rfl
    have hchildren : (node.children.flatMap (linesAt · (depth + 1))).Perm
        ((placesFrom 0 (node.children.map places)).flatMap (ownLines depth)) := by
      rw [hplaces]
      exact .flatMap_left _ fun child hc => ih child hc (depth + 1)
    rw [linesAt_eq, places_eq, List.flatMap_cons]
    exact .cons _ ((roleLines_perm depth node.slots).trans (hchildren.append_left _))

end Node

namespace ListingOptions

def nodesShown (options : ListingOptions) (places : List Place) : List Node :=
  (places.filter fun place => options.maxDepth.all (place.depth ≤ ·)).map Place.node

def rolesShown (options : ListingOptions) (places : List Place) : List Role :=
  (places.filter fun place =>
    options.showRoles && options.maxDepth.all (place.depth < ·)).flatMap (·.node.walkedRoles)

end ListingOptions

namespace Node

variable {options : ListingOptions}

theorem shown_ownLines (options : ListingOptions) (place : Place) :
    (ownLines 0 place).filter (·.isShown options) =
      (if options.maxDepth.all (place.depth ≤ ·) then [.node place.node place.depth] else []) ++
        if options.showRoles && options.maxDepth.all (place.depth < ·) then
          (place.node.slots.filter (·.2.isWalked)).map fun slot =>
            .role slot.1 slot.2.isList place.depth
        else [] := by
  have hroles : ((place.node.slots.filter (·.2.isWalked)).map fun slot =>
      Line.role slot.1 slot.2.isList place.depth).filter (·.isShown options) =
        if options.showRoles && options.maxDepth.all (place.depth < ·) then
          (place.node.slots.filter (·.2.isWalked)).map fun slot =>
            .role slot.1 slot.2.isList place.depth
        else [] := by
    rw [List.filter_map]
    split <;> next h => simp [Function.comp_def, Line.isShown, h]
  rw [ownLines, Nat.zero_add, List.filter_cons, hroles, Line.isShown]
  split <;> rfl

theorem sum_ownLines (options : ListingOptions) (places : List Place) :
    (((places.flatMap (ownLines 0)).filter (·.isShown options)).map
        (·.extraBreaks options + 1)).sum =
      (options.nodesShown places).length + (options.rolesShown places).length +
        (if options.showValues then ((options.nodesShown places).map numeralBreaks).sum
        else 0) := by
  induction places with
  | nil => simp [ListingOptions.nodesShown, ListingOptions.rolesShown]
  | cons place places ih =>
    unfold ListingOptions.nodesShown ListingOptions.rolesShown at ih ⊢
    rw [List.flatMap_cons, List.filter_append, List.map_append, List.sum_append, ih,
      shown_ownLines, List.filter_cons, List.filter_cons]
    cases options.maxDepth.all (place.depth ≤ ·) <;>
      cases options.showRoles && options.maxDepth.all (place.depth < ·) <;>
        cases hvalues : options.showValues <;>
          simp [walkedRoles, Line.extraBreaks, Function.comp_def, hvalues] <;> omega

/-- A listing whose indentation has no line breaks has one for each node and each role that it
shows, and besides, if it shows values, those in the numerals. All other lines end where they first
break. -/
theorem listing_breaks (root : Node) (h : '\n' ∉ options.indent.toList) :
    (root.listing options).toList.count '\n' =
      (options.nodesShown root.places).length + (options.rolesShown root.places).length +
        (if options.showValues then
          ((options.nodesShown root.places).map numeralBreaks).sum else 0) ∧
    ∀ line ∈ root.lines, line.extraBreaks options = 0 →
      ∃ body, (line.text options).toList = body ++ ['\n'] ∧ '\n' ∉ body := by
  constructor
  · calc
      (root.listing options).toList.count '\n'
      _ = ((Line.entries options root.lines).map breaks).sum := by
        rw [listing_eq, ← breaks_join, breaks]
      _ = ((root.lines.filter (·.isShown options)).map (·.extraBreaks options + 1)).sum := by
        simp only [Line.entries, List.map_map, Function.comp_def, Line.breaks_text h]
      _ = _ := by
        have hshown := (root.linesAt_perm 0).filter (·.isShown options)
        rw [lines, (hshown.map (·.extraBreaks options + 1)).sum_nat, sum_ownLines]
  · intro line _ hextra
    have hbreaks := Line.breaks_text h line
    obtain ⟨body, hbody⟩ := line.exists_body options
    rw [hextra, breaks, hbody] at hbreaks
    refine ⟨body, hbody, List.count_eq_zero.1 ?_⟩
    simpa using hbreaks

/-- A numeral with a line break, and with what looks like the line of another node behind it. -/
def forged : Node := .list .root {} [.leaf .numberLiteral {} "1\n  Root"]

def unforged : Node := .list .root {} [.leaf .numberLiteral {} "1", .list .root {} []]

def plainValues : ListingOptions := { showRoles := false, showValues := true }

theorem forged_breaks : '\n' ∉ plainValues.indent.toList ∧
    (forged.listing plainValues).toList.count '\n' =
      (plainValues.nodesShown forged.places).length +
        (plainValues.rolesShown forged.places).length + 1 := by
  have hindent : '\n' ∉ plainValues.indent.toList := by decide
  refine ⟨hindent, ?_⟩
  have hextra : (if plainValues.showValues then
      ((plainValues.nodesShown forged.places).map numeralBreaks).sum else 0) = 1 := by decide
  rw [(forged.listing_breaks hindent).1, hextra]

/-- Two nodes are listed on three lines, the same as three other nodes. -/
theorem forged_listing :
    '\n' ∉ plainValues.indent.toList ∧ forged.listing plainValues = unforged.listing plainValues ∧
    forged.listing plainValues = "Root\n  NumberLiteral 1\n  Root\n" ∧
    (forged.listing plainValues).toList.count '\n' = 3 ∧
    (plainValues.nodesShown forged.places).length +
      (plainValues.rolesShown forged.places).length = 2 := by
  decide

end Node

end SyntaxTree
