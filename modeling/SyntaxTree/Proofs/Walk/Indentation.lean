import SyntaxTree.Proofs.Node.Gaps
import SyntaxTree.Proofs.Walk.EventRecords
import SyntaxTree.Proofs.Walk.Lines

/-! What indentation tells. A listing has a line for everything that is entered and none for what is
left, but a line at some level says that all that was entered at that level or a deeper one has been
left before. So the events of a walk can be read off a listing. -/

set_option autoImplicit false

namespace SyntaxTree

def Role.holdsList : Role → Bool
  | .stmts => true
  | .parts => true
  | .arguments => true
  | _ => false

namespace Event

def closing : Event → Event
  | .enterNode kind => .leaveNode kind
  | .enterRole role isList => .leaveRole role isList
  | e => e

theorem closing_isLeave (e : Event) : e.closing.isLeave = true := by cases e <;> rfl

/-- Entered things at their levels, and the events of entering and leaving them. -/
inductive Indents : Nat → List (Nat × Event) → List Event → Prop
  | nil {level : Nat} : Indents level [] []
  | append {level : Nat} {lines lines' : List (Nat × Event)} {events events' : List Event} :
      Indents level lines events → Indents level lines' events' →
      Indents level (lines ++ lines') (events ++ events')
  | enclose {level : Nat} {e : Event} {lines : List (Nat × Event)} {events : List Event} :
      e.isLeave = false → Indents (level + 1) lines events →
      Indents level ((level, e) :: lines) (e :: (events ++ [e.closing]))

def indented : Nat → List Event → List (Nat × Event)
  | _, [] => []
  | level, e :: events =>
    if e.isLeave then indented (level - 1) events else (level, e) :: indented (level + 1) events

/-- The events that lines stand for. Those in which something is left wait for the next line that
does not stand deeper. -/
def outdented : List Event → List (Nat × Event) → List Event
  | waiting, [] => waiting
  | waiting, (level, e) :: lines =>
    waiting.take (waiting.length - level) ++
      e :: outdented (e.closing :: waiting.drop (waiting.length - level)) lines

namespace Indents

variable {level : Nat} {lines lines' : List (Nat × Event)} {events events' : List Event}

theorem flatMap {α : Type} {xs : List α} {f : α → List (Nat × Event)} {g : α → List Event}
    (h : ∀ x ∈ xs, Indents level (f x) (g x)) : Indents level (xs.flatMap f) (xs.flatMap g) := by
  induction xs with
  | nil => exact .nil
  | cons x xs ih =>
    have hrest := ih fun y hy => h y (List.mem_cons_of_mem _ hy)
    exact .append (h x (by simp)) hrest

theorem indented_eq (h : Indents level lines events) (rest : List Event) :
    indented level (events ++ rest) = lines ++ indented level rest := by
  induction h generalizing rest with
  | nil => rfl
  | append _ _ ih ih' => rw [List.append_assoc, ih, ih', List.append_assoc]
  | enclose he _ ih =>
    simp [indented, he, ih, closing_isLeave]

/-- Whatever waits at deeper levels is left before the first line, and what the lines have entered
may wait in turn. -/
theorem outdented_eq (h : Indents level lines events) {outer : List Event}
    (hlevel : outer.length = level) (waiting : List Event) (rest : List (Nat × Event)) :
    ∃ done after, waiting ++ events = done ++ after ∧
      outdented (waiting ++ outer) (lines ++ rest) = done ++ outdented (after ++ outer) rest := by
  -- `done` has been left when `rest` begins, and `after` waits then
  induction h generalizing outer waiting rest with
  | nil => exact ⟨[], waiting, by simp, by simp⟩
  | append _ _ ih ih' =>
    rename_i lines' _ events' _ _
    obtain ⟨done, after, heq, hout⟩ := ih hlevel waiting (lines' ++ rest)
    obtain ⟨done', after', heq', hout'⟩ := ih' hlevel after rest
    refine ⟨done ++ done', after', ?_, ?_⟩
    · rw [← List.append_assoc, heq, List.append_assoc, heq', List.append_assoc]
    · rw [List.append_assoc, hout, hout', List.append_assoc]
  | @enclose level e lines events he _ ih =>
    have hinner : (e.closing :: outer).length = level + 1 := by simp [hlevel]
    obtain ⟨done, after, heq, hout⟩ := ih hinner [] rest
    -- a line at this level ends all that waits above `outer`
    have hlength : (waiting ++ outer).length - level = waiting.length := by simp [hlevel]
    refine ⟨waiting ++ e :: done, after ++ [e.closing], ?_, ?_⟩
    · rw [List.nil_append] at heq
      simp [heq]
    · rw [List.nil_append] at hout
      rw [List.cons_append, outdented, hlength, List.take_left, List.drop_left, hout]
      simp

theorem lines_eq_iff (h : Indents 0 lines events) (h' : Indents 0 lines' events') :
    lines = lines' ↔ events = events' := by
  have hindented {lines : List (Nat × Event)} {events : List Event} (h : Indents 0 lines events) :
      indented 0 events = lines := by
    have heq := h.indented_eq []
    simpa [indented] using heq
  have houtdented {lines : List (Nat × Event)} {events : List Event} (h : Indents 0 lines events) :
      outdented [] lines = events := by
    have houter : ([] : List Event).length = 0 := rfl
    obtain ⟨done, after, heq, hout⟩ := h.outdented_eq houter [] []
    simpa [outdented, ← heq] using hout
  constructor
  · rintro rfl
    rw [← houtdented h, houtdented h']
  · rintro rfl
    rw [← hindented h, hindented h']

end Indents

end Event

namespace Event

def label : Event → List Char
  | .enterNode kind => kind.name.toList
  | .enterRole role _ => role.name.toList ++ [':']
  | _ => []

/-- Whether an event enters a node, or enters a role for what the role holds in all kinds. -/
def IsRegular : Event → Prop
  | .enterNode _ => True
  | .enterRole role isList => isList = role.holdsList
  | _ => False

theorem name_isAlpha (kind : NodeKind) : kind.name.toList.all Char.isAlpha = true := by
  have hall : ∀ kind ∈ NodeKind.all, kind.name.toList.all Char.isAlpha = true := by decide
  exact hall kind kind.mem_all

theorem role_isAlpha (role : Role) : role.name.toList.all Char.isAlpha = true := by
  cases role <;> decide

theorem label_lineless (e : Event) : '\n' ∉ e.label := by
  have hname {name : List Char} (h : name.all Char.isAlpha = true) : '\n' ∉ name :=
    fun hmem => absurd (List.all_eq_true.1 h _ hmem) (by decide)
  cases e <;> simp [label, hname, name_isAlpha, role_isAlpha]

theorem label_cons {e : Event} (h : e.IsRegular) :
    ∃ c rest, e.label = c :: rest ∧ c.isAlpha = true := by
  have hname {name : List Char} (hne : name ≠ []) (h : name.all Char.isAlpha = true) :
      ∃ c rest, name = c :: rest ∧ c.isAlpha = true := by
    obtain ⟨c, rest, rfl⟩ := List.exists_cons_of_ne_nil hne
    exact ⟨c, rest, rfl, List.all_eq_true.1 h c (by simp)⟩
  cases e with
  | enterNode kind =>
    have hne : kind.name.toList ≠ [] := by
      have hall : ∀ kind ∈ NodeKind.all, kind.name.toList ≠ [] := by decide
      exact hall kind kind.mem_all
    exact hname hne (name_isAlpha kind)
  | enterRole role isList =>
    have hne : role.name.toList ≠ [] := by cases role <;> decide
    obtain ⟨c, rest, heq, hc⟩ := hname hne (role_isAlpha role)
    exact ⟨c, rest ++ [':'], by simp [label, heq], hc⟩
  | leaveNode => cases h
  | leaveRole => cases h

/-- The colon after a role keeps it apart from a node of the same name. -/
theorem label_inj {e e' : Event} (h : e.IsRegular) (h' : e'.IsRegular)
    (heq : e.label = e'.label) : e = e' := by
  have hcolon (kind : NodeKind) (role : Role) :
      kind.name.toList ≠ role.name.toList ++ [':'] := by
    intro hname
    have hmem : ':' ∈ kind.name.toList := by simp [hname]
    exact absurd (List.all_eq_true.1 (name_isAlpha kind) _ hmem) (by decide)
  cases e with
  | enterNode kind =>
    cases e' with
    | enterNode kind' => rw [NodeKind.name_inj (String.toList_injective heq)]
    | enterRole role isList => exact absurd heq (hcolon kind role)
    | leaveNode => cases h'
    | leaveRole => cases h'
  | enterRole role isList =>
    cases e' with
    | enterNode kind => exact absurd heq.symm (hcolon kind role)
    | enterRole role' isList' =>
      have hrole := Role.name_inj (String.toList_injective (List.append_cancel_right heq))
      subst hrole
      exact congrArg (enterRole role) (Eq.trans h (Eq.symm h'))
    | leaveNode => cases h'
    | leaveRole => cases h'
  | leaveNode => cases h
  | leaveRole => cases h

end Event

namespace Line

def level : Line → Nat
  | .node _ depth => 2 * depth
  | .role _ _ owner => 2 * owner + 1

def leveled (line : Line) : Nat × Event := (line.level, line.event)

def written (n : Nat) (line : Line) : List Char :=
  List.replicate (line.level * n) ' ' ++ line.event.label

theorem written_lineless (n : Nat) (line : Line) : '\n' ∉ line.written n := by
  simp [written, List.mem_replicate, Event.label_lineless]

theorem leveled_of_written {n : Nat} (hn : 1 ≤ n) {line line' : Line} (h : line.event.IsRegular)
    (h' : line'.event.IsRegular) (heq : line.written n = line'.written n) :
    line.leveled = line'.leveled := by
  have hblank {m m' : Nat} {c c' : Char} {rest rest' : List Char} (hc : c ≠ ' ') (hc' : c' ≠ ' ')
      (heq : List.replicate m ' ' ++ c :: rest = List.replicate m' ' ' ++ c' :: rest') :
      m = m' := by
    have htake := congrArg (fun s => (s.takeWhile (· = ' ')).length) heq
    simpa [List.takeWhile_append_of_pos, hc, hc'] using htake
  have hletter {c : Char} (hc : c.isAlpha = true) : c ≠ ' ' := by
    rintro rfl
    exact absurd hc (by decide)
  obtain ⟨c, rest, hlabel, hc⟩ := Event.label_cons h
  obtain ⟨c', rest', hlabel', hc'⟩ := Event.label_cons h'
  have hlength : line.level * n = line'.level * n := by
    unfold written at heq
    rw [hlabel, hlabel'] at heq
    exact hblank (hletter hc) (hletter hc') heq
  have hlevel : line.level = line'.level := Nat.eq_of_mul_eq_mul_right hn hlength
  have hevent : line.event = line'.event := by
    unfold written at heq
    rw [hlength] at heq
    exact Event.label_inj h h' (List.append_cancel_left heq)
  rw [leveled, leveled, hlevel, hevent]

theorem map_leveled_of_written {n : Nat} (hn : 1 ≤ n) {lines lines' : List Line}
    (h : ∀ line ∈ lines, line.event.IsRegular) (h' : ∀ line ∈ lines', line.event.IsRegular)
    (heq : lines.flatMap (fun line => line.written n ++ ['\n']) =
      lines'.flatMap (fun line => line.written n ++ ['\n'])) :
    lines.map leveled = lines'.map leveled := by
  induction lines generalizing lines' with
  | nil =>
    cases lines' with
    | nil => rfl
    | cons line' lines' => simp at heq
  | cons line lines ih =>
    cases lines' with
    | nil => simp at heq
    | cons line' lines' =>
      simp only [List.flatMap_cons, List.append_assoc, List.singleton_append] at heq
      obtain ⟨hline, hrest⟩ :=
        Event.line_inj (line.written_lineless n) (line'.written_lineless n) heq
      have hhead := leveled_of_written hn (h line (by simp)) (h' line' (by simp)) hline
      have htail := ih (fun l hl => h l (List.mem_cons_of_mem _ hl))
        (fun l hl => h' l (List.mem_cons_of_mem _ hl)) hrest
      rw [List.map_cons, List.map_cons, hhead, htail]

end Line

def ListingOptions.outline (n : Nat) : ListingOptions where
  indent := String.ofList (List.replicate n ' ')
  showRoles := true
  showValues := false
  showPositions := false
  maxDepth := none

theorem Command.printer_outline {n : Nat} (h : n ≤ greatestIndent) :
    (Command.dump false false false none n).printer = .ok (·.listing (.outline n)) := by
  have hoptions : listingOptions false false false none n = .ok (.outline n) :=
    if_neg (Nat.not_lt.2 h)
  rw [printer, hoptions]
  rfl

theorem Line.entries_outline (n : Nat) (lines : List Line) :
    (String.join (Line.entries (.outline n) lines)).toList =
      lines.flatMap fun line => line.written n ++ ['\n'] := by
  have hindent (level : Nat) :
      (String.join (List.replicate level (ListingOptions.outline n).indent)).toList =
        List.replicate (level * n) ' ' := by
    induction level with
    | zero => simp
    | succ level ih =>
      rw [List.replicate_succ, String.join_cons, String.toList_append, ih]
      simp [ListingOptions.outline, Nat.succ_mul, Nat.add_comm]
  have htext (line : Line) : (line.text (.outline n)).toList = line.written n ++ ['\n'] := by
    have hroles : (ListingOptions.outline n).showRoles = true := rfl
    have hvalues : (ListingOptions.outline n).showValues = false := rfl
    have hpositions : (ListingOptions.outline n).showPositions = false := rfl
    cases line <;> simp [Line.text, Line.written, Line.level, Line.event, Event.label,
      ListingOptions.stride, hindent, hroles, hvalues, hpositions]
  induction lines with
  | nil => rfl
  | cons line lines ih =>
    have hshown : line.isShown (.outline n) = true := by cases line <;> rfl
    rw [Line.entries_cons_shown hshown, String.join_cons, String.toList_append, ih, htext]
    rfl

namespace Node

theorem isList_eq {node : Node} {slot : Role × Slot} (h : slot ∈ node.slots) :
    slot.2.isList = slot.1.holdsList := by
  cases node with
  | list kind => cases kind <;> simp [slots] at h <;> rw [h] <;> rfl
  | wrapper kind => cases kind <;> simp [slots] at h <;> rw [h] <;> rfl
  | leaf => cases h
  | parameter => simp [slots] at h; rcases h with rfl | rfl | rfl <;> rfl
  | functionCall => simp [slots] at h; rcases h with rfl | rfl <;> rfl
  | argument => simp [slots] at h; rw [h]; rfl

theorem linesAt_indents (node : Node) (depth : Nat) :
    Event.Indents (2 * depth) ((node.linesAt depth).map Line.leveled) node.events := by
  induction node using Node.induction generalizing depth with
  | step node ih =>
    have hslot : ∀ slot ∈ node.slots, Event.Indents (2 * depth + 1)
        ((roleLines depth slot).map Line.leveled) (slotEvents slot) := by
      intro slot hs
      have hchildren : Event.Indents (2 * (depth + 1))
          ((slot.2.children.flatMap (linesAt · (depth + 1))).map Line.leveled)
          (slot.2.children.flatMap events) := by
        rw [List.map_flatMap]
        exact .flatMap fun child hc => ih child (mem_children.2 ⟨slot, hs, hc⟩) (depth + 1)
      unfold roleLines slotEvents
      split
      · exact .enclose rfl hchildren
      · exact .nil
    have hslots : Event.Indents (2 * depth + 1)
        ((node.slots.flatMap (roleLines depth)).map Line.leveled)
        (node.slots.flatMap slotEvents) := by
      rw [List.map_flatMap]
      exact .flatMap hslot
    rw [linesAt_eq, events_eq]
    exact .enclose rfl hslots

theorem linesAt_regular {node : Node} {depth : Nat} {line : Line}
    (h : line ∈ node.linesAt depth) : line.event.IsRegular := by
  induction node using Node.induction generalizing depth with
  | step node ih =>
    rw [linesAt_eq] at h
    rcases List.mem_cons.1 h with rfl | h
    · trivial
    obtain ⟨slot, hs, h⟩ := List.mem_flatMap.1 h
    unfold roleLines at h
    split at h
    · rcases List.mem_cons.1 h with rfl | h
      · exact isList_eq hs
      · obtain ⟨child, hc, h⟩ := List.mem_flatMap.1 h
        exact ih child (mem_children.2 ⟨slot, hs, hc⟩) h
    · cases h

theorem listing_outline_iff (a b : Node) {n : Nat} (hn : 1 ≤ n) :
    a.listing (.outline n) = b.listing (.outline n) ↔
      a.lines.map Line.leveled = b.lines.map Line.leveled := by
  rw [listing_eq, listing_eq, ← String.toList_inj, Line.entries_outline, Line.entries_outline]
  constructor
  · exact Line.map_leveled_of_written hn (fun _ => linesAt_regular) (fun _ => linesAt_regular)
  · intro heq
    have hleveled (lines : List Line) : lines.flatMap (fun line => line.written n ++ ['\n']) =
        (lines.map Line.leveled).flatMap fun entry =>
          List.replicate (entry.1 * n) ' ' ++ entry.2.label ++ ['\n'] := by
      rw [List.flatMap_map]
      rfl
    rw [hleveled, hleveled, heq]

/-- A listing with roles tells the events of a walk, and so the shape of the tree, from what its
indentation says of where a node or a role ends, for any width but none. -/
theorem listing_tells_events (a b : Node) {n : Nat} (hn : 1 ≤ n) :
    (a.listing (.outline n) = b.listing (.outline n) ↔ a.events = b.events) ∧
    (a.listing (.outline n) = b.listing (.outline n) ↔ a.SameShape b) := by
  have hevents : a.listing (.outline n) = b.listing (.outline n) ↔ a.events = b.events :=
    (listing_outline_iff a b hn).trans
      (Event.Indents.lines_eq_iff (a.linesAt_indents 0) (b.linesAt_indents 0))
  exact ⟨hevents, hevents.trans events_eq_iff⟩

theorem nested_listing : 1 ≤ 4 ∧
    (Node.list .root {} [.list .stmtList {} [.list .stmtList {} []]]).listing (.outline 4) ≠
      (Node.list .root {} [.list .stmtList {} [], .list .stmtList {} []]).listing (.outline 4) := by
  have hevents : (Node.list .root {} [.list .stmtList {} [.list .stmtList {} []]]).events ≠
      (Node.list .root {} [.list .stmtList {} [], .list .stmtList {} []]).events := by decide
  exact ⟨by decide, fun heq => hevents ((listing_tells_events _ _ (by decide)).1.1 heq)⟩

-- without blanks, a list in a list and two lists have the same lines
example : (Node.list .root {} [.list .stmtList {} [.list .stmtList {} []]]).listing (.outline 0) =
    (Node.list .root {} [.list .stmtList {} [], .list .stmtList {} []]).listing (.outline 0) := by
  decide

end Node

end SyntaxTree
