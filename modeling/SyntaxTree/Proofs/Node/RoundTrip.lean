import Mathlib.Data.List.Nodup
import SyntaxTree.Node.Decoder
import SyntaxTree.Proofs.Decoder.Tagged
import SyntaxTree.Proofs.Json.Document
import SyntaxTree.Proofs.Node.Record

set_option autoImplicit false

namespace SyntaxTree

open Json

theorem Position.ofJson_record (p : Position) : Position.decoder.ofJson p.record = .ok p := by
  have hkeys : (Position.form.fields.map Field.key).Nodup := by decide
  have hn (n : UInt32) := Decoder.uint32_ofJson n
  exact Form.ofJson_obj hkeys (.field (hn _) (.field (hn _) (.field (hn _) (.field (hn _) .nil))))

theorem Position.option_ofJson (o : Option Position) :
    Position.decoder.option.ofJson (.ofOption Position.record o) = .ok o :=
  Decoder.option_ofJson fun p _ => ⟨p.ofJson_record, nofun⟩

theorem TokenKind.mem_all (kind : TokenKind) : kind ∈ TokenKind.all := by
  cases kind <;> decide

theorem TokenKind.ofJson_name (kind : TokenKind) :
    TokenKind.decoder.ofJson (.str kind.name) = .ok kind := by
  have hnames : (TokenKind.all.map TokenKind.name).Nodup := by decide
  exact Alternatives.find_name id hnames kind.mem_all

theorem Token.ofJson_record (token : Token) : Token.decoder.ofJson token.record = .ok token := by
  have hkeys : (Token.form.fields.map Field.key).Nodup := by decide
  have hk := token.kind.ofJson_name
  have hp := Position.option_ofJson token.position
  exact Form.ofJson_obj hkeys (.field hk (.field (Decoder.string_ofJson _) (.field hp .nil)))

theorem Token.option_ofJson (o : Option (List Token)) :
    Token.decoder.list.option.ofJson (.ofOption Token.records o) = .ok o :=
  Decoder.option_ofJson fun _ _ => ⟨Decoder.list_ofJson fun token _ => token.ofJson_record, nofun⟩

theorem NodeKind.mem_all (kind : NodeKind) : kind ∈ NodeKind.all := by
  cases kind with
  | list kind => cases kind <;> decide
  | wrapper kind => cases kind <;> decide
  | leaf kind => cases kind <;> decide
  | parameter => decide
  | functionCall => decide
  | argument => decide

theorem NodeKind.names_nodup : (NodeKind.all.map NodeKind.name).Nodup := by decide

theorem NodeKind.name_inj {kind kind' : NodeKind} (h : kind.name = kind'.name) : kind = kind' :=
  List.inj_on_of_nodup_map names_nodup kind.mem_all kind'.mem_all h

namespace Node

theorem record_ne_null (tagged : Bool) (node : Node) : node.record tagged ≠ .null := by
  rw [record_eq]
  nofun

theorem gives_formOf {α : Type} {kind : NodeKind} {info : Metadata} {blank a : α}
    {fields : List (Field (Metadata × α))} {members : List (String × Json)}
    (h : Form.Gives fields members (info, blank) (info, a)) :
    Form.Gives (formOf kind blank fields).fields (head false kind info ++ members)
      (formOf kind blank fields).blank (info, a) := by
  have hf := Token.option_ofJson info.freeFloating
  have hp := Position.option_ofJson info.position
  exact .field hf (.field hp h)

variable {child : Decoder Node}

theorem option_ofJson {o : Option Node}
    (h : ∀ c ∈ o.toList, child.ofJson (c.record true) = .ok c) :
    child.option.ofJson (.ofOption (record true) o) = .ok o :=
  Decoder.option_ofJson fun c hc => ⟨h c (by simpa using hc), c.record_ne_null true⟩

theorem listForm_keys (kind : ListKind) :
    ((listForm child kind kind.role.name).fields.map Field.key).Nodup := by
  have h : ["FreeFloating", "Position", kind.role.name].Nodup := by cases kind <;> decide
  exact h

theorem wrapperForm_keys (kind : WrapperKind) :
    ((wrapperForm child kind kind.role.name).fields.map Field.key).Nodup := by
  have h : ["FreeFloating", "Position", kind.role.name].Nodup := by cases kind <;> decide
  exact h

theorem leafForm_keys (kind : LeafKind) :
    ((leafForm kind "Value").fields.map Field.key).Nodup := by
  have h : ["FreeFloating", "Position", "Value"].Nodup := by decide
  exact h

theorem parameterForm_keys : ((parameterForm child).fields.map Field.key).Nodup := by
  have h : ["FreeFloating", "Position", "ByRef", "Variadic", "Type", "Var",
    "DefaultValue"].Nodup := by decide
  exact h

theorem functionCallForm_keys : ((functionCallForm child).fields.map Field.key).Nodup := by
  have h : ["FreeFloating", "Position", "Function", "ArgumentList"].Nodup := by decide
  exact h

theorem argumentForm_keys : ((argumentForm child).fields.map Field.key).Nodup := by
  have h : ["FreeFloating", "Position", "Variadic", "IsReference", "Expr"].Nodup := by decide
  exact h

theorem fieldDecoder_list (kind : ListKind) :
    fieldDecoder child (.list kind) = listDecoder child kind kind.role.name := by cases kind <;> rfl

theorem fieldDecoder_wrapper (kind : WrapperKind) :
    fieldDecoder child (.wrapper kind) = wrapperDecoder child kind kind.role.name := by
  cases kind <;> rfl

theorem fieldDecoder_leaf (kind : LeafKind) :
    fieldDecoder child (.leaf kind) = leafDecoder kind "Value" := by cases kind <;> rfl

theorem fieldDecoder_ofJson (node : Node)
    (h : ∀ c ∈ node.children, child.ofJson (c.record true) = .ok c) :
    (fieldDecoder child node.kind).ofJson (.obj (head false node.kind node.info ++
      (node.valueMembers ++ node.slotMembers true))) = .ok node := by
  cases node with
  | list kind info items =>
    have hi : child.list.ofJson (.arr (items.map (record true))) = .ok items :=
      Decoder.list_ofJson (by simpa using h)
    have hread : (listForm child kind kind.role.name).decoder.ofJson _ = .ok (info, items) :=
      Form.ofJson_obj (listForm_keys kind) (gives_formOf (.field hi .nil))
    rw [Node.kind, fieldDecoder_list]
    exact Decoder.map_ofJson hread _
  | wrapper kind info c =>
    have hc := option_ofJson (o := c) (by simpa using h)
    have hread : (wrapperForm child kind kind.role.name).decoder.ofJson _ = .ok (info, c) :=
      Form.ofJson_obj (wrapperForm_keys kind) (gives_formOf (.field hc .nil))
    rw [Node.kind, fieldDecoder_wrapper]
    exact Decoder.map_ofJson hread _
  | leaf kind info value =>
    have hread : (leafForm kind "Value").decoder.ofJson _ = .ok (info, value) :=
      Form.ofJson_obj (leafForm_keys kind)
        (gives_formOf (.field (Decoder.string_ofJson value) .nil))
    rw [Node.kind, fieldDecoder_leaf]
    exact Decoder.map_ofJson hread _
  | parameter info byRef variadic type var defaultValue =>
    simp only [children_parameter, List.mem_append] at h
    have ht := option_ofJson (o := type) fun c hc => h c (.inl hc)
    have hv := option_ofJson (o := var) fun c hc => h c (.inr (.inl hc))
    have hd := option_ofJson (o := defaultValue) fun c hc => h c (.inr (.inr hc))
    have hb := Decoder.flag_ofJson
    have hread : (parameterForm child).decoder.ofJson _ =
        .ok (info, ⟨byRef, variadic, type, var, defaultValue⟩) :=
      Form.ofJson_obj parameterForm_keys (gives_formOf
        (.field (hb byRef) (.field (hb variadic) (.field ht (.field hv (.field hd .nil))))))
    exact Decoder.map_ofJson hread _
  | functionCall info function argumentList =>
    simp only [children_functionCall, List.mem_append] at h
    have hf := option_ofJson (o := function) fun c hc => h c (.inl hc)
    have ha := option_ofJson (o := argumentList) fun c hc => h c (.inr hc)
    have hread : (functionCallForm child).decoder.ofJson _ = .ok (info, function, argumentList) :=
      Form.ofJson_obj functionCallForm_keys (gives_formOf (.field hf (.field ha .nil)))
    exact Decoder.map_ofJson hread _
  | argument info variadic isReference expr =>
    have he := option_ofJson (o := expr) (by simpa using h)
    have hb := Decoder.flag_ofJson
    have hread : (argumentForm child).decoder.ofJson _ =
        .ok (info, ⟨variadic, isReference, expr⟩) :=
      Form.ofJson_obj argumentForm_keys (gives_formOf
        (.field (hb variadic) (.field (hb isReference) (.field he .nil))))
    exact Decoder.map_ofJson hread _

theorem tagged_find (fields : NodeKind → Json → Except Problem Node) (kind : NodeKind) :
    (tagged fields).forms.find kind.name = .ok (fields kind) :=
  Alternatives.find_name fields NodeKind.names_nodup kind.mem_all

theorem kind_not_mem_members (node : Node) :
    "Kind" ∉ (head false node.kind node.info ++
      (node.valueMembers ++ node.slotMembers true)).map Prod.fst := by
  cases node with
  | list kind _ _ =>
    cases kind <;> simp [head, valueMembers, slotMembers, slots, ListKind.role, Role.name]
  | wrapper kind _ _ =>
    cases kind <;> simp [head, valueMembers, slotMembers, slots, WrapperKind.role, Role.name]
  | _ => simp [head, valueMembers, slotMembers, slots, Role.name]

theorem decoderWithin_ofJson {levels : Nat} {node : Node}
    (h : (node.record true).nesting ≤ levels) :
    (decoderWithin levels).ofJson (node.record true) = .ok node := by
  induction levels generalizing node with
  | zero =>
    rw [record_eq] at h
    simp [nesting] at h
  | succ levels ih =>
    have hc : ∀ c ∈ node.children, (decoderWithin levels).ofJson (c.record true) = .ok c := by
      intro c hc
      have hlt := nesting_child_lt true hc
      exact ih (by omega)
    have hfields := fieldDecoder_ofJson node hc
    rw [record_eq]
    exact (Tagged.ofJson_obj (tagged_find _ node.kind) node.kind_not_mem_members).trans hfields

theorem namesForm_record (fields : NodeKind → Json → Except Problem Node) (node : Node) :
    (tagged fields).NamesForm (node.record true) := by
  rw [record_eq]
  intro member hm hkey
  rcases List.mem_cons.1 hm with rfl | hm
  · exact ⟨_, rfl⟩
  · have hkind : "Kind" = member.1 := hkey.symm
    exact absurd (hkind ▸ List.mem_map_of_mem hm) node.kind_not_mem_members

theorem ofText_eq_ok_iff {text : String} {node : Node} :
    ofText text = .ok node ↔ ∃ rest, decoder.ofText nestingLimit text.toList = .ok (node, rest) ∧
      skipSpace rest = [] := document_eq_ok_iff

theorem documents_printed (node : Node) (tagged pretty : Bool) {after : String}
    (hafter : Blank after.toList) :
    (node.record tagged).Documents (node.text tagged pretty ++ after) :=
  ⟨[], (node.text tagged pretty).toList, after.toList, blank_nil,
    text_spells (node.record_whole tagged) pretty, hafter, by simp⟩

theorem ofText_text_of_le {node : Node} (h : (node.record true).nesting ≤ nestingLimit)
    (pretty : Bool) : ofText (node.text true pretty) = .ok node := by
  have hv := node.value_text true pretty h
  have hread : decoder.ofText nestingLimit (node.text true pretty).toList = .ok (node, []) :=
    Tagged.ofText_eq_ok_iff.2 ⟨_, hv, namesForm_record _ node, decoderWithin_ofJson h⟩
  exact ofText_eq_ok_iff.2 ⟨[], hread, rfl⟩

theorem ofText_text_of_lt {node : Node} (h : nestingLimit < (node.record true).nesting)
    (pretty : Bool) (other : Node) : ofText (node.text true pretty) ≠ .ok other := by
  intro hread
  obtain ⟨rest, hread, hs⟩ := ofText_eq_ok_iff.1 hread
  obtain ⟨v, hv, -, -⟩ := Tagged.ofText_eq_ok_iff.1 hread
  obtain ⟨-, -, -, -, hle, -⟩ := value_sound nestingLimit _ _ _ hv
  have hblank : Blank rest := by
    obtain ⟨w, hw, rfl⟩ := exists_blank_of_skipSpace hs
    simpa using hw
  have hends : NumberEnds rest := by
    have hd : Delimits (rest ++ []) := hblank.delimits (by simp [Delimits])
    rw [List.append_nil] at hd
    exact hd.numberEnds
  -- Without the limit, the text is read as the record, so no other value can be read with it.
  have hdeep := value_of_value hv hends (Nat.le_trans hle (Nat.le_of_lt h))
  have hrecord := node.value_text true pretty (Nat.le_refl _)
  rw [hrecord] at hdeep
  cases hdeep
  omega

/-- A tree is read again from either of its tagged texts exactly if no more than 127 arrays and
objects stand inside one another, and is at fault otherwise. -/
theorem ofText_text (node : Node) (pretty : Bool) :
    (ofText (node.text true pretty) = .ok node ↔ (node.record true).nesting ≤ 127) ∧
    ((∃ defect, ofText (node.text true pretty) = .error defect) ↔
      127 < (node.record true).nesting) := by
  rcases Nat.lt_or_ge 127 (node.record true).nesting with h | h
  · have hne := ofText_text_of_lt h pretty
    refine ⟨⟨fun hread => absurd hread (hne node), fun hle => absurd hle (by omega)⟩, ?_⟩
    refine ⟨fun _ => h, fun _ => ?_⟩
    cases hread : ofText (node.text true pretty) with
    | error defect => exact ⟨defect, rfl⟩
    | ok other => exact absurd hread (hne other)
  · have hread := ofText_text_of_le h pretty
    refine ⟨⟨fun _ => h, fun _ => hread⟩, ?_⟩
    constructor
    · rintro ⟨defect, hd⟩
      rw [hread] at hd
      cases hd
    · intro hlt
      omega

end Node

end SyntaxTree
