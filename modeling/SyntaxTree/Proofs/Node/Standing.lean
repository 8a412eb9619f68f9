import SyntaxTree.Proofs.Node.Rewriting
import SyntaxTree.Proofs.Node.Routes

/-! Records in a document and by themselves. A record is read the same wherever it stands, but for
the tag: the outermost record names its kind, and all others may also give its number. -/

set_option autoImplicit false

namespace SyntaxTree

open Json

namespace Json

def kindName : Json → Json
  | .num (.integer (.ofNat n)) =>
    match NodeKind.all[n]? with
    | some kind => .str kind.name
    | none => .num (.integer (.ofNat n))
  | tag => tag

def nameKind (member : String × Json) : String × Json :=
  if member.1 = "Kind" then ("Kind", member.2.kindName) else member

/-- The same record, with the name of its kind in place of the number. -/
def named : Json → Json
  | .obj members => .obj (members.map nameKind)
  | .arr (tag :: items) => .arr (tag.kindName :: items)
  | v => v

variable {tag fields v : Json} {kind : NodeKind}

theorem kindName_eq_iff : tag.kindName = .str kind.name ↔ kind.TaggedBy tag := by
  constructor
  · intro h
    cases tag with
    | str name =>
      cases h
      exact .name
    | num n =>
      cases n with
      | integer n =>
        cases n with
        | ofNat n =>
          simp only [kindName] at h
          split at h
          · next kind' hkind' =>
            rw [Json.str.injEq] at h
            rw [← NodeKind.name_inj h, ← NodeKind.rank_of_getElem? hkind']
            exact .rank
          · cases h
        | negSucc => cases h
      | double => cases h
    | _ => cases h
  · intro h
    cases h with
    | name => rfl
    | rank => simp [kindName, kind.getElem?_rank]

theorem kindName_cases (tag : Json) :
    tag.kindName = tag ∨ ∃ kind : NodeKind, tag.kindName = .str kind.name := by
  unfold kindName
  split
  · split
    · next kind _ => exact .inr ⟨kind, rfl⟩
    · exact .inl rfl
  · exact .inl rfl

theorem taggedBy_kindName_iff : kind.TaggedBy tag.kindName ↔ kind.TaggedBy tag := by
  rcases kindName_cases tag with h | ⟨kind', h⟩
  · rw [h]
  · rw [← kindName_eq_iff, ← kindName_eq_iff, h]
    rfl

theorem kindName_nesting_le (tag : Json) : tag.kindName.nesting ≤ tag.nesting := by
  rcases kindName_cases tag with h | ⟨kind, h⟩
  · exact Nat.le_of_eq (congrArg nesting h)
  · rw [h]
    exact Nat.zero_le _

theorem under_nameKind (members : List (String × Json)) :
    under "Kind" (members.map nameKind) = (under "Kind" members).map kindName := by
  induction members with
  | nil => rfl
  | cons member members ih =>
    obtain ⟨key, v⟩ := member
    by_cases hkey : key = "Kind"
    · simp [nameKind, hkey, ih]
    · simp [nameKind, hkey, under_cons_ne hkey, ih]

theorem without_nameKind (members : List (String × Json)) :
    without "Kind" (members.map nameKind) = without "Kind" members := by
  induction members with
  | nil => rfl
  | cons member members ih =>
    obtain ⟨key, v⟩ := member
    by_cases hkey : key = "Kind"
    · simp [nameKind, hkey, ih]
    · simp [nameKind, hkey, without_cons_ne hkey, ih]

theorem carries_named_iff : Carries "Kind" v.named tag fields ↔
    ∃ tag', Carries "Kind" v tag' fields ∧ tag = tag'.kindName := by
  constructor
  · intro h
    cases v with
    | obj members =>
      cases h with
      | object hone =>
        rw [under_nameKind, List.map_eq_singleton_iff] at hone
        obtain ⟨tag', hone, rfl⟩ := hone
        rw [without_nameKind]
        exact ⟨tag', .object hone, rfl⟩
    | arr items =>
      cases items with
      | nil => cases h
      | cons tag' items =>
        cases h
        exact ⟨tag', .array, rfl⟩
    | _ => cases h
  · rintro ⟨tag', h, rfl⟩
    cases h with
    | @object _ members hone =>
      rw [← without_nameKind]
      exact .object (by rw [under_nameKind, hone]; rfl)
    | array => exact .array

theorem named_nesting_le (v : Json) : v.named.nesting ≤ v.nesting := by
  cases v with
  | obj members =>
    refine Nat.succ_le_succ (nestingMembers_le_iff.2 fun member hmember => ?_)
    obtain ⟨⟨key, w⟩, hw, rfl⟩ := List.mem_map.1 hmember
    have hle : (nameKind (key, w)).2.nesting ≤ w.nesting := by
      unfold nameKind
      split
      · exact kindName_nesting_le w
      · exact Nat.le_refl _
    exact Nat.le_trans hle (nesting_le_members hw)
  | arr items =>
    cases items with
    | nil => exact Nat.le_refl _
    | cons tag items =>
      have htag := kindName_nesting_le tag
      simp only [named, nesting, nestingItems]
      omega
  | _ => exact Nat.le_refl _

/-- A record is read with the name of its kind as with the number. -/
theorem reads_named_iff {node : Node} : v.named.Reads node ↔ v.Reads node := by
  refine exists_congr fun levels => ?_
  cases levels with
  | zero => exact iff_of_false (Node.ofJson_zero _ node) (Node.ofJson_zero v node)
  | succ levels =>
    rw [Node.ofJson_succ_iff, Node.ofJson_succ_iff]
    constructor
    · rintro ⟨kind, _, fields, htag, hnamed, hread⟩
      obtain ⟨tag, hcarries, rfl⟩ := carries_named_iff.1 hnamed
      exact ⟨kind, tag, fields, taggedBy_kindName_iff.1 htag, hcarries, hread⟩
    · rintro ⟨kind, tag, fields, htag, hcarries, hread⟩
      have hnamed := carries_named_iff.2 ⟨tag, hcarries, rfl⟩
      exact ⟨kind, _, fields, taggedBy_kindName_iff.2 htag, hnamed, hread⟩

/-- Whether a value is a record that names its kind. -/
def NamesKind (v : Json) : Prop := ∃ name fields, Carries "Kind" v (.str name) fields

theorem Reads.carries {node : Node} (h : v.Reads node) :
    ∃ tag fields, Carries "Kind" v tag fields ∧ node.kind.TaggedBy tag := by
  obtain ⟨levels, h⟩ := h
  cases levels with
  | zero => exact absurd h (Node.ofJson_zero v node)
  | succ levels =>
    obtain ⟨kind, tag, fields, htag, hcarries, hread⟩ := Node.ofJson_succ_iff.1 h
    exact ⟨tag, fields, hcarries, Node.kind_of_fieldDecoder hread ▸ htag⟩

theorem Reads.named_namesKind {node : Node} (h : v.Reads node) : v.named.NamesKind := by
  obtain ⟨tag, fields, hcarries, htag⟩ := h.carries
  have hname := kindName_eq_iff.2 htag
  exact ⟨node.kind.name, fields, carries_named_iff.2 ⟨tag, hcarries, hname.symm⟩⟩

theorem NamesKind.named_eq (h : v.NamesKind) : v.named = v := by
  obtain ⟨name, fields, hcarries⟩ := h
  cases hcarries with
  | @object _ members hone =>
    have hsame : ∀ member ∈ members, nameKind member = id member := by
      rintro ⟨key, w⟩ hmember
      by_cases hkey : key = "Kind"
      · have hw : w = .str name := List.mem_singleton.1 (hone ▸ mem_under.2 (hkey ▸ hmember))
        rw [nameKind, if_pos hkey, hkey, hw]
        rfl
      · exact if_neg hkey
    rw [named, List.map_congr_left hsame, List.map_id]
  | array => rfl

end Json

namespace Node

theorem ofText_iff_reads {text : String} {node : Node} : ofText text = .ok node ↔
    ∃ v : Json, v.Documents text ∧ v.nesting ≤ 127 ∧ v.NamesKind ∧ v.Reads node := by
  rw [ofText_iff_documents]
  constructor
  · rintro ⟨v, hdocument, hnesting, hnames, hread⟩
    refine ⟨v, hdocument, hnesting, ?_, ⟨_, hread⟩⟩
    obtain ⟨tag, fields, hcarries, -⟩ := Reads.carries ⟨_, hread⟩
    obtain ⟨name, rfl⟩ : ∃ name, tag = .str name := by
      cases hcarries with
      | object hone => exact hnames _ (mem_under.1 (hone ▸ List.mem_singleton_self tag)) rfl
      | array => exact hnames
    exact ⟨name, fields, hcarries⟩
  · rintro ⟨v, hdocument, hnesting, ⟨name, fields, hcarries⟩, hread⟩
    refine ⟨v, hdocument, hnesting, ?_, hread.ofJson hnesting⟩
    cases hcarries with
    | object hone =>
      rintro ⟨key, w⟩ hmember hkey
      have hkind : key = "Kind" := hkey
      exact ⟨name, List.mem_singleton.1 (hone ▸ mem_under.2 (hkind ▸ hmember))⟩
    | array => exact ⟨name, rfl⟩

end Node

namespace Context

open Node

variable {context : Context} {route : Route} {v w : Json}

theorem nesting_lt_fill (gap : Gap) (v : Json) : v.nesting < (gap.fill v).nesting := by
  cases gap with
  | member before key after =>
    have hmem : (key, v) ∈ before ++ (key, v) :: after := by simp
    exact nesting_member_lt hmem
  | item before after => exact nesting_item_lt (by simp)

theorem nesting_le (context : Context) (v : Json) : v.nesting ≤ (context.fill v).nesting := by
  induction context with
  | nil => exact Nat.le_refl _
  | cons gap context ih => exact Nat.le_trans ih (Nat.le_of_lt (nesting_lt_fill gap _))

theorem namesKind_of_holds {gap : Gap} {role : Role} {isList : Bool} (h : gap.Holds role isList)
    (hnames : (gap.fill v).NamesKind) (w : Json) : (gap.fill w).NamesKind := by
  obtain ⟨name, fields, hcarries⟩ := hnames
  cases h with
  | member =>
    cases hcarries with
    | object hone =>
      rw [under_append, under_cons_ne role.name_ne_kind] at hone
      refine ⟨name, _, .object ?_⟩
      rw [under_append, under_cons_ne role.name_ne_kind, hone]
  | item =>
    cases hcarries
    exact ⟨name, _, .array⟩

theorem LeadsTo.namesKind (h : context.LeadsTo route) (hchild : route ≠ [])
    (hnames : (context.fill v).NamesKind) (w : Json) : (context.fill w).NamesKind := by
  cases h with
  | here => exact absurd rfl hchild
  | child hstep =>
    rw [fill_append] at hnames ⊢
    cases hstep with
    | single hgap => exact namesKind_of_holds hgap hnames _
    | item hgap => exact namesKind_of_holds hgap hnames _

/-- Whether a document is read with some record in the place of the missing one, if it may nest as
deep as it does. -/
def Acceptable (context : Context) : Prop :=
  ∃ w node, w ≠ .null ∧ (context.fill w).NamesKind ∧ (context.fill w).Reads node

end Context

namespace Node

variable {context : Context} {route : Route} {v : Json}

theorem ofText_named_iff (hnesting : v.nesting ≤ 127) {text : String}
    (hdocument : v.named.Documents text) {node : Node} : ofText text = .ok node ↔ v.Reads node := by
  rw [ofText_iff_reads]
  constructor
  · rintro ⟨w, hw, -, -, hread⟩
    rw [hw.unique hdocument] at hread
    exact reads_named_iff.1 hread
  · intro hread
    have hle := Nat.le_trans (named_nesting_le v) hnesting
    exact ⟨v.named, hdocument, hle, hread.named_namesKind, reads_named_iff.2 hread⟩

/-- In the place of a child of any node of a document, a record is accepted exactly if it is
accepted by itself with the name of its kind, and is read as the same tree. Without the name it is
never accepted by itself. -/
theorem ofText_in_place (hleads : context.LeadsTo route) (hchild : route ≠ [])
    (hopen : context.Acceptable) (hv : v ≠ .null) (hnesting : (context.fill v).nesting ≤ 127)
    {document : String} (hdocument : (context.fill v).Documents document) :
    (∀ text, v.named.Documents text →
      (∀ tree, ofText document = .ok tree →
        ∃ node, ofText text = .ok node ∧ tree.along? route = some node) ∧
      (∀ node, ofText text = .ok node →
        ∃ tree, ofText document = .ok tree ∧ tree.along? route = some node)) ∧
    (v.NamesKind → v.named = v) ∧
    (¬ v.NamesKind → ∀ text node, v.Documents text → ofText text ≠ .ok node) := by
  obtain ⟨w, other, hw, hnames, hother⟩ := hopen
  have htree {tree : Node} : ofText document = .ok tree ↔ (context.fill v).Reads tree := by
    rw [ofText_iff_reads]
    constructor
    · rintro ⟨u, hu, -, -, hread⟩
      rwa [hu.unique hdocument] at hread
    · intro hread
      exact ⟨_, hdocument, hnesting, hleads.namesKind hchild hnames v, hread⟩
  have hle := Nat.le_trans (context.nesting_le v) hnesting
  refine ⟨fun text htext => ⟨fun tree h => ?_, fun node h => ?_⟩, NamesKind.named_eq, ?_⟩
  · obtain ⟨node, hnode, halong⟩ := hleads.reads hv (htree.1 h)
    exact ⟨node, (ofText_named_iff hle htext).2 hnode, halong⟩
  · have hnode := (ofText_named_iff hle htext).1 h
    obtain ⟨tree, hread⟩ := hleads.exchange hw hother hnode
    obtain ⟨node', hnode', halong⟩ := hleads.reads hv hread
    exact ⟨tree, htree.2 hread, hnode.unique hnode' ▸ halong⟩
  · intro hnumber text node htext h
    obtain ⟨u, hu, -, hnamed, -⟩ := ofText_iff_reads.1 h
    exact hnumber (hu.unique htext ▸ hnamed)

def numbered : Json := .obj [("Kind", .num (.integer 5))]

def expressionOf : Context := [.member [("Kind", .str "Expression")] "Expr" []]

theorem expressionOf_leadsTo : expressionOf.LeadsTo [(.expr, 0)] := by
  have htag : (NodeKind.wrapper .expression).TaggedBy (.str "Expression") := .name
  have hentry : Role.expr.entry false ∈ (NodeKind.wrapper .expression).fieldEntries := by
    simp [NodeKind.fieldEntries, NodeKind.ownEntries, WrapperKind.role, Role.entry]
  exact .child (.single (.member htag (by simp) hentry)) .here

theorem expressionOf_acceptable : expressionOf.Acceptable :=
  ⟨.obj [("Kind", .str "Identifier")], .wrapper .expression {} (some (.leaf .identifier {} "")),
    nofun, ⟨"Expression", _, .object rfl⟩, 2, rfl⟩

theorem numbered_documents : numbered.Documents "\x7b\"Kind\":5\x7d" := by
  have hread : value 1 "\x7b\"Kind\":5\x7d".toList = .ok (numbered, []) := rfl
  exact documents_of_value hread

theorem expressionOf_documents : (expressionOf.fill numbered).Documents
    "\x7b\"Kind\":\"Expression\",\"Expr\":\x7b\"Kind\":5\x7d\x7d" := by
  have hread : value 2
      "\x7b\"Kind\":\"Expression\",\"Expr\":\x7b\"Kind\":5\x7d\x7d".toList =
        .ok (expressionOf.fill numbered, []) := rfl
  exact documents_of_value hread

theorem numbered_in_place :
    ∃ tree, ofText "\x7b\"Kind\":\"Expression\",\"Expr\":\x7b\"Kind\":5\x7d\x7d" = .ok tree ∧
      tree.along? [(.expr, 0)] = some (.leaf .identifier {} "") := by
  have hread : ofText "\x7b\"Kind\":\"Identifier\"\x7d" = .ok (.leaf .identifier {} "") := rfl
  have hname : value 1 "\x7b\"Kind\":\"Identifier\"\x7d".toList = .ok (numbered.named, []) := rfl
  have hv : numbered ≠ .null := nofun
  have hplace := ofText_in_place expressionOf_leadsTo nofun expressionOf_acceptable hv (by decide)
    expressionOf_documents
  exact (hplace.1 _ (documents_of_value hname)).2 _ hread

theorem numbered_not_alone :
    expressionOf.LeadsTo [(.expr, 0)] ∧ expressionOf.Acceptable ∧ numbered ≠ .null ∧
    (expressionOf.fill numbered).nesting ≤ 127 ∧
    (expressionOf.fill numbered).Documents
      "\x7b\"Kind\":\"Expression\",\"Expr\":\x7b\"Kind\":5\x7d\x7d" ∧
    ofText "\x7b\"Kind\":\"Expression\",\"Expr\":\x7b\"Kind\":5\x7d\x7d" =
      .ok (.wrapper .expression {} (some (.leaf .identifier {} ""))) ∧
    numbered.Documents "\x7b\"Kind\":5\x7d" ∧ ∀ node, ofText "\x7b\"Kind\":5\x7d" ≠ .ok node := by
  refine ⟨expressionOf_leadsTo, expressionOf_acceptable, nofun, by decide, expressionOf_documents,
    rfl, numbered_documents, fun node h => ?_⟩
  obtain ⟨v, hv, -, ⟨name, fields, hcarries⟩, -⟩ := ofText_iff_reads.1 h
  rw [hv.unique numbered_documents] at hcarries
  cases hcarries with
  | object hone => cases hone

/-- In a text that a tree is read from, every node of the tree stands at the end of its route, and
whatever stands there is a record with one tag, the name or the number of the kind of the node. The
outermost tag is a name. -/
theorem ofText_only_records {text : String} {tree : Node} (h : ofText text = .ok tree) :
    ∃ v : Json, v.Documents text ∧
      (∃ fields, Carries "Kind" v (.str tree.kind.name) fields) ∧
      (∀ route node, tree.along? route = some node →
        ∃ context w, Context.LeadsTo context route ∧ v = context.fill w ∧ w ≠ .null) ∧
      (∀ context route w, Context.LeadsTo context route → v = context.fill w → w ≠ .null →
        ∃ node tag fields, tree.along? route = some node ∧ Carries "Kind" w tag fields ∧
          node.kind.TaggedBy tag) := by
  obtain ⟨v, hv, -, hnames, hread⟩ := ofText_iff_reads.1 h
  refine ⟨v, hv, ?_, fun route node halong => ?_, fun context route w hleads heq hw => ?_⟩
  · obtain ⟨tag, fields, hcarries, htag⟩ := hread.carries
    have hnamed := carries_named_iff.2 ⟨tag, hcarries, rfl⟩
    rw [hnames.named_eq, kindName_eq_iff.2 htag] at hnamed
    exact ⟨fields, hnamed⟩
  · obtain ⟨context, w, hleads, heq, hw⟩ := Context.exists_leadsTo hread halong
    exact ⟨context, w, hleads, heq, hw.ne_null⟩
  · rw [heq] at hread
    obtain ⟨node, hnode, halong⟩ := hleads.reads hw hread
    obtain ⟨tag, fields, hcarries, htag⟩ := hnode.carries
    exact ⟨node, tag, fields, halong, hcarries, htag⟩

theorem array_only_records :
    ofText "[\"Expression\",null,null,\x7b\"Kind\":5\x7d]" =
      .ok (.wrapper .expression {} (some (.leaf .identifier {} ""))) ∧
    ∃ v : Json, v.Documents "[\"Expression\",null,null,\x7b\"Kind\":5\x7d]" ∧
      ∃ fields, Carries "Kind" v (.str "Expression") fields := by
  have hread : ofText "[\"Expression\",null,null,\x7b\"Kind\":5\x7d]" =
      .ok (.wrapper .expression {} (some (.leaf .identifier {} ""))) := rfl
  obtain ⟨v, hdocument, hcarries, -⟩ := ofText_only_records hread
  exact ⟨hread, v, hdocument, hcarries⟩

/-- A record need not be an object, nor its tag a name. -/
theorem array_not_object :
    (Json.arr [.str "Expression", .null, .null, numbered]).Documents
      "[\"Expression\",null,null,\x7b\"Kind\":5\x7d]" ∧
    ofText "[\"Expression\",null,null,\x7b\"Kind\":5\x7d]" =
      .ok (.wrapper .expression {} (some (.leaf .identifier {} ""))) := by
  have hread : value 2 "[\"Expression\",null,null,\x7b\"Kind\":5\x7d]".toList =
      .ok (.arr [.str "Expression", .null, .null, numbered], []) := rfl
  exact ⟨documents_of_value hread, rfl⟩

end Node

end SyntaxTree
