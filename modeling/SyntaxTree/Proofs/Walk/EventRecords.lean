import SyntaxTree.Command.Basic
import SyntaxTree.Proofs.Decoder.Containers
import SyntaxTree.Proofs.Walk.EventTexts

set_option autoImplicit false

namespace SyntaxTree

open Json

namespace Event

theorem record_whole (e : Event) : e.record.Whole := by
  cases e <;> simp [record, Whole, WholeMembers]

theorem record_nesting (e : Event) : e.record.nesting = 1 := by cases e <;> rfl

theorem kind_ofJson (kind : NodeKind) : NodeKind.decoder.ofJson (.str kind.name) = .ok kind :=
  Alternatives.find_name id NodeKind.names_nodup kind.mem_all

theorem role_ofJson (role : Role) : Role.decoder.ofJson (.str role.name) = .ok role := by
  have hnames : (Role.all.map Role.name).Nodup := by decide
  exact Alternatives.find_name id hnames role.mem_all

theorem nodeForm_ofJson (name : String) (kind : NodeKind) :
    (nodeForm name).decoder.ofJson (.obj [("kind", .str kind.name)]) = .ok kind := by
  have hkeys : ((nodeForm name).fields.map Field.key).Nodup := List.nodup_singleton "kind"
  have hk := kind_ofJson kind
  exact Form.ofJson_obj hkeys (.field hk .nil)

theorem roleForm_ofJson (name : String) (role : Role) (isList : Bool) :
    (roleForm name).decoder.ofJson (.obj [("role", .str role.name), ("is_list", .bool isList)]) =
      .ok (role, isList) := by
  have hkeys : ((roleForm name).fields.map Field.key).Nodup :=
    show ["role", "is_list"].Nodup by decide
  have hr := role_ofJson role
  have hlist := Decoder.flag_ofJson isList
  exact Form.ofJson_obj hkeys (.field hr (.field hlist .nil))

theorem ofJson_named {name : String} {form : Json → Except Problem Event}
    (hname : tagged.forms.find name = .ok form) {members : List (String × Json)}
    (hkeys : "event" ∉ members.map Prod.fst) {e : Event} (h : form (.obj members) = .ok e) :
    decoder.ofJson (.obj (("event", .str name) :: members)) = .ok e := by
  have htag : tagged.tag ∉ members.map Prod.fst := hkeys
  exact (Tagged.ofJson_obj hname htag).trans h

theorem ofJson_record (e : Event) : decoder.ofJson e.record = .ok e := by
  cases e with
  | enterNode kind =>
    have hread := Decoder.map_ofJson (nodeForm_ofJson "EnterNode" kind) Event.enterNode
    exact ofJson_named rfl (by simp) hread
  | leaveNode kind =>
    have hread := Decoder.map_ofJson (nodeForm_ofJson "LeaveNode" kind) Event.leaveNode
    exact ofJson_named rfl (by simp) hread
  | enterRole role isList =>
    have hread := Decoder.map_ofJson (roleForm_ofJson "EnterRole" role isList)
      fun e => Event.enterRole e.1 e.2
    exact ofJson_named rfl (by simp) hread
  | leaveRole role isList =>
    have hread := Decoder.map_ofJson (roleForm_ofJson "LeaveRole" role isList)
      fun e => Event.leaveRole e.1 e.2
    exact ofJson_named rfl (by simp) hread

theorem namesForm_record (e : Event) : tagged.NamesForm e.record := by
  cases e <;> simp [record, Tagged.NamesForm, tagged]

theorem records_whole (events : List Event) : (Json.arr (events.map record)).Whole := by
  refine Whole.arr fun v hv => ?_
  obtain ⟨e, -, rfl⟩ := List.mem_map.1 hv
  exact e.record_whole

theorem records_nesting (events : List Event) :
    (Json.arr (events.map record)).nesting ≤ nestingLimit := by
  have hitems : nestingItems (events.map record) ≤ 1 := by
    induction events with
    | nil => exact Nat.zero_le 1
    | cons e events ih => exact Nat.max_le.2 ⟨Nat.le_of_eq e.record_nesting, ih⟩
  have hlimit : 1 + 1 ≤ nestingLimit := by decide
  exact Nat.le_trans (Nat.succ_le_succ hitems) hlimit

/-- A listing of events is read back as the events. -/
theorem read_records (events : List Event) (pretty : Bool) :
    decoder.list.read ((Json.arr (events.map record)).text pretty) = .ok events := by
  have hv := value_text (records_whole events) (records_nesting events) pretty
  have hitem (e : Event) (text rest : List Char) (he : value 126 text = .ok (e.record, rest)) :
      decoder.ofText 126 text = .ok (e, rest) :=
    Tagged.ofText_of_value he e.namesForm_record e.ofJson_record
  have hread := Decoder.list_ofText (tagged.shrinks 126) hv
    (List.forall₂_map_left_iff.2 (List.forall₂_same.2 fun e _ => hitem e))
  exact document_eq_ok_iff.2 ⟨[], hread, rfl⟩

end Event

namespace Node

theorem sameShape_of_eventLines {a b : Node} (h : a.eventLines = b.eventLines) :
    a.SameShape b := (a.legible b [] [] (by rw [h])).1

theorem events_eq_iff {a b : Node} : a.events = b.events ↔ a.SameShape b := by
  constructor
  · intro h
    exact sameShape_of_eventLines (congrArg (List.map Event.text) h)
  · exact SameShape.events_eq

/-- Each listing of the events of a walk tells the shape of the tree and nothing else, although a
line may stand for a node as well as for a role. The JSON listing is read back as the events. -/
theorem eventsText_tells_shape (a b : Node) :
    (a.events = b.events ↔ a.SameShape b) ∧
    (a.eventsText false = b.eventsText false ↔ a.SameShape b) ∧
    (a.eventsText true = b.eventsText true ↔ a.SameShape b) ∧
    Event.decoder.list.read (a.eventsText true) = .ok a.events ∧
    (Event.enterNode (.list .argumentList)).text = (Event.enterRole .argumentList false).text := by
  have hread (root : Node) : Event.decoder.list.read (root.eventsText true) = .ok root.events :=
    Event.read_records root.events true
  refine ⟨events_eq_iff, ⟨fun h => ?_, fun h => ?_⟩, ⟨fun h => ?_, fun h => ?_⟩, hread a, rfl⟩
  · exact sameShape_of_eventLines (Event.map_text_of_lines h)
  · rw [eventsText, eventsText, h.events_eq]
  · have hevents := hread a
    rw [h, hread b] at hevents
    exact events_eq_iff.1 (Except.ok.inj hevents).symm
  · rw [eventsText, eventsText, h.events_eq]

end Node

end SyntaxTree
