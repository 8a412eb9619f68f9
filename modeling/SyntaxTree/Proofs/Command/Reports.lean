import SyntaxTree.Proofs.Decoder.Streams
import SyntaxTree.Proofs.Json.Document
import SyntaxTree.Proofs.Node.Reprint

set_option autoImplicit false

namespace SyntaxTree

open Json

theorem Decoder.uint8_ofJson (n : UInt8) : uint8.ofJson (.ofNat n.toNat) = .ok n := by
  have hlt : n.toNat < 1 <<< 8 := n.toNat_lt
  have hu := unsigned_ofJson hlt
  rw [uint8, map_ofJson hu, UInt8.ofNat_toNat]

def Failure.Fits : Failure → Prop
  | .invalidInput _ line column => line ≤ collectable ∧ column ≤ collectable
  | _ => True

/-- Whether a value can be read back as the details of a report. -/
structure Json.IsDetails (v : Json) : Prop where
  given : v ≠ .null
  sorted : v.sorted = v
  whole : v.Whole
  nesting : v.nesting + 2 ≤ nestingLimit

namespace ErrorInfo

def IsPlain (info : ErrorInfo) : Prop := ∀ details ∈ info.details, details.IsDetails

theorem form_orderless : form.Orderless := ⟨by decide, by simp [form, Field.of_commutes]⟩

variable {info : ErrorInfo}

theorem ofJson_record (h : info.IsPlain) : decoder.ofJson info.record = .ok info := by
  obtain ⟨code, message, details⟩ := info
  have hcode := Decoder.uint8_ofJson code
  have hmessage := Decoder.string_ofJson message
  refine (Form.ofJson_obj_iff form_orderless).2 ⟨?_, ?_⟩
  · cases details with
    | none =>
      exact .given ⟨_, rfl, Decoder.map_ofJson hcode _⟩
        (.given ⟨_, rfl, Decoder.map_ofJson hmessage _⟩ (.missing rfl .nil))
    | some details =>
      have hdetails :
          (Decoder.json.map Json.sorted).option.ofJson details = .ok (some details) := by
        rw [Decoder.option_ofJson_some (h details rfl).given]
        simp [Decoder.map, Decoder.json, (h details rfl).sorted]
      exact .given ⟨_, rfl, Decoder.map_ofJson hcode _⟩
        (.given ⟨_, rfl, Decoder.map_ofJson hmessage _⟩
          (.given ⟨_, rfl, Decoder.map_ofJson hdetails _⟩ .nil))
  · have hoptional : Presence.optional ≠ .required := by decide
    exact List.forall_mem_cons.2 ⟨fun _ => List.cons_ne_nil _ _, List.forall_mem_cons.2
      ⟨fun _ => List.cons_ne_nil _ _, List.forall_mem_singleton.2 fun h => absurd h hoptional⟩⟩

theorem mem_record {member : String × Json}
    (h : member ∈ [("code", Json.ofNat info.code.toNat), ("message", .str info.message)] ++
      (info.details.map fun details => ("details", details)).toList) :
    member = ("code", .ofNat info.code.toNat) ∨ member = ("message", .str info.message) ∨
      ∃ details ∈ info.details, member = ("details", details) := by
  cases hdetails : info.details with
  | none => simpa [hdetails] using h
  | some details => simpa [hdetails] using h

theorem streams_record (info : ErrorInfo) : decoder.Streams info.record := by
  refine Form.streams_obj fun member hmember => .inl ?_
  rcases mem_record hmember with rfl | rfl | ⟨details, -, rfl⟩
  · exact ⟨_, rfl, .of (Decoder.streams_uint8 _)⟩
  · exact ⟨_, rfl, .of (Decoder.streams_string _)⟩
  · exact ⟨_, rfl, .of (.option fun _ => (Decoder.streams_json _).map _)⟩

theorem record_whole (h : info.IsPlain) : info.record.Whole := by
  have hcode : (Json.ofNat info.code.toNat).Whole :=
    whole_ofNat (Nat.le_trans (Nat.le_of_lt info.code.toNat_lt) (by decide))
  cases hdetails : info.details with
  | none => simpa [record, hdetails, Whole, WholeMembers] using hcode
  | some details =>
    simpa [record, hdetails, Whole, WholeMembers] using ⟨hcode, (h details hdetails).whole⟩

theorem record_nesting (h : info.IsPlain) : info.record.nesting + 1 ≤ nestingLimit := by
  have hmembers : info.record.nesting ≤ 125 + 1 := by
    refine Nat.succ_le_succ (nestingMembers_le_iff.2 fun member hmember => ?_)
    rcases mem_record hmember with rfl | rfl | ⟨details, hdetails, rfl⟩
    · exact Nat.zero_le _
    · exact Nat.zero_le _
    · exact Nat.le_of_add_le_add_right (h details hdetails).nesting
  exact Nat.succ_le_succ hmembers

theorem ofFailure_isPlain {failure : Failure} (h : failure.Fits) : (ofFailure failure).IsPlain := by
  intro details hdetails
  cases failure with
  | invalidInput message line column =>
    cases hdetails
    have hcolumn := whole_ofNat h.2
    have hline := whole_ofNat h.1
    exact ⟨nofun, rfl, ⟨hcolumn, hline, trivial⟩, (by decide : 1 + 2 ≤ nestingLimit)⟩
  | fileNotFound path =>
    cases hdetails
    exact ⟨nofun, rfl, ⟨trivial, trivial⟩, (by decide : 1 + 2 ≤ nestingLimit)⟩
  | _ => cases hdetails

end ErrorInfo

namespace ErrorReport

variable {report : ErrorReport}

theorem ofJson_record (h : report.error.IsPlain) : decoder.ofJson report.record = .ok report := by
  have hkeys : (form.fields.map Field.key).Nodup := by decide
  have herror := ErrorInfo.ofJson_record h
  exact Form.ofJson_obj hkeys (.field (Decoder.string_ofJson _)
    (.field (Decoder.string_ofJson _) (.field herror .nil)))

theorem streams_record (report : ErrorReport) : decoder.Streams report.record :=
  Form.streams_obj (Form.streamsMember_of_fields (by decide)
    (.cons (.of (Decoder.streams_string _)) (.cons (.of (Decoder.streams_string _))
      (.cons (.of report.error.streams_record) .nil))))

/-- A report that is printed is read back. -/
theorem read_text (h : report.error.IsPlain) :
    decoder.read (Report.text report.record) = .ok report := by
  have hwhole : report.record.Whole := ⟨trivial, trivial, ErrorInfo.record_whole h, trivial⟩
  have hnesting : report.record.nesting ≤ nestingLimit := by
    have herror := ErrorInfo.record_nesting h
    simpa [record, nesting, nestingMembers] using herror
  have hdocument : report.record.Documents (Report.text report.record) :=
    ⟨[], _, _, blank_nil, text_spells hwhole true, Invocation.newline_blank, by simp [Report.text]⟩
  obtain ⟨rest, hv, hrest⟩ := documents_iff.1 ⟨hdocument, hnesting⟩
  exact (report.streams_record.read_iff hv hrest).2 (ofJson_record h)

end ErrorReport

end SyntaxTree
