import Mathlib.Data.List.Induction
import Mathlib.Data.List.Nodup
import Mathlib.Data.List.Pairwise
import SyntaxTree.Proofs.Decoder.Buffered

/-! What records are read as, without the order in which they are written. An object fills a form if
it gives each field at most once, and what each of its fields is given changes the record; an array
fills a form if its items do so one by one. -/

set_option autoImplicit false

namespace SyntaxTree

variable {α : Type}

namespace Json

def under (key : String) (members : List (String × Json)) : List Json :=
  (members.filter (·.1 = key)).map Prod.snd

variable {key other : String} {v : Json} {members members' : List (String × Json)}

@[simp] theorem under_nil (key : String) : under key [] = [] := rfl

@[simp] theorem under_append (key : String) (members members' : List (String × Json)) :
    under key (members ++ members') = under key members ++ under key members' := by simp [under]

@[simp] theorem under_cons_self (key : String) (v : Json) (members : List (String × Json)) :
    under key ((key, v) :: members) = v :: under key members := by simp [under]

theorem under_cons_ne (h : other ≠ key) (v : Json) (members : List (String × Json)) :
    under key ((other, v) :: members) = under key members := by simp [under, h]

theorem under_perm (key : String) (h : members.Perm members') :
    (under key members).Perm (under key members') := (h.filter _).map _

theorem mem_under : v ∈ under key members ↔ (key, v) ∈ members := by simp [under]

theorem under_eq_nil_iff : under key members = [] ↔ key ∉ members.map Prod.fst := by
  simp [List.eq_nil_iff_forall_not_mem, mem_under]

end Json

open Json

def Field.Commutes (field field' : Field α) : Prop :=
  ∀ v v' change change', field.decoder.ofJson v = .ok change →
    field'.decoder.ofJson v' = .ok change' → ∀ a, change (change' a) = change' (change a)

/-- What a field makes of the values under its key, if they are none or one. -/
def Field.Takes (field : Field α) (values : List Json) (change : α → α) : Prop :=
  ∃ v, values = [v] ∧ field.decoder.ofJson v = .ok change

/-- Whether a field makes the same of values as of others. -/
structure Field.Agrees (field : Field α) (values values' : List Json) : Prop where
  nil : values = [] ↔ values' = []
  takes : ∀ change, field.Takes values change ↔ field.Takes values' change

theorem Field.Agrees.of_eq {field : Field α} {values values' : List Json}
    (h : values = values') : field.Agrees values values' := by
  rw [h]
  exact ⟨Iff.rfl, fun _ => Iff.rfl⟩

theorem Field.Agrees.of_perm {field : Field α} {values values' : List Json}
    (h : values.Perm values') : field.Agrees values values' := by
  refine ⟨⟨?_, ?_⟩, fun change => ⟨?_, ?_⟩⟩
  · rintro rfl
    exact List.nil_perm.1 h
  · rintro rfl
    exact List.perm_nil.1 h
  · rintro ⟨v, rfl, hread⟩
    exact ⟨v, (List.singleton_perm.1 h).symm, hread⟩
  · rintro ⟨v, rfl, hread⟩
    exact ⟨v, List.perm_singleton.1 h, hread⟩

theorem Field.Agrees.of_value {field : Field α} {v w : Json}
    (h : ∀ change, field.decoder.ofJson v = .ok change ↔ field.decoder.ofJson w = .ok change)
    (before after : List Json) :
    field.Agrees (before ++ v :: after) (before ++ w :: after) := by
  refine ⟨by simp, fun change => ?_⟩
  cases before with
  | nil => cases after <;> simp [Takes, h]
  | cons => simp [Takes]

namespace Form

/-- A form with one field for a key, the fields of which may be read in any order. -/
structure Orderless (form : Form α) : Prop where
  keys : (form.fields.map Field.key).Nodup
  commute : form.fields.Pairwise Field.Commutes

theorem Orderless.commutes {form : Form α} (h : form.Orderless) {field field' : Field α}
    (hfield : field ∈ form.fields) (hfield' : field' ∈ form.fields) (hne : field ≠ field') :
    field.Commutes field' := by
  have hsymm : Std.Symm (Field.Commutes (α := α)) :=
    ⟨fun _ _ hcomm v v' change change' hv hv' a => (hcomm v' v change' change hv' hv a).symm⟩
  exact h.commute.forall hfield hfield' hne

/-- What members give to fields changes the one record to the other. -/
inductive Fills (members : List (String × Json)) : List (Field α) → α → α → Prop
  | nil {a : α} : Fills members [] a a
  | missing {field : Field α} {fields : List (Field α)} {a b : α} :
      under field.key members = [] → Fills members fields a b →
      Fills members (field :: fields) a b
  | given {field : Field α} {fields : List (Field α)} {change : α → α} {a b : α} :
      field.Takes (under field.key members) change →
      Fills members fields (change a) b → Fills members (field :: fields) a b

variable {form : Form α} {members members' : List (String × Json)} {fields : List (Field α)}

theorem Fills.congr {a b : α} (h : Fills members fields a b)
    (hagrees : ∀ field ∈ fields,
      field.Agrees (under field.key members) (under field.key members')) :
    Fills members' fields a b := by
  induction h with
  | nil => exact .nil
  | missing hnone _ ih =>
    have hrest := ih fun f hf => hagrees f (List.mem_cons_of_mem _ hf)
    exact .missing ((hagrees _ (by simp)).nil.1 hnone) hrest
  | given htakes _ ih =>
    have hrest := ih fun f hf => hagrees f (List.mem_cons_of_mem _ hf)
    exact .given (((hagrees _ (by simp)).takes _).1 htakes) hrest

theorem Fills.invariant (P : α → Prop) {a b : α} (h : Fills members fields a b)
    (hstep : ∀ field ∈ fields, ∀ change, field.Takes (under field.key members) change →
      ∀ a, P a → P (change a)) (ha : P a) : P b := by
  induction h with
  | nil => exact ha
  | missing _ _ ih => exact ih (fun f hf => hstep f (List.mem_cons_of_mem _ hf)) ha
  | given htakes _ ih =>
    have hfirst := hstep _ (by simp) _ htakes _ ha
    exact ih (fun f hf => hstep f (List.mem_cons_of_mem _ hf)) hfirst

/-- A change that commutes with all fields may be made before them or after. -/
theorem fills_change_iff {change : α → α} (hchange : ∀ field ∈ fields, ∀ v change',
      field.decoder.ofJson v = .ok change' → ∀ a, change (change' a) = change' (change a))
    {a b : α} :
    Fills members fields (change a) b ↔ ∃ c, Fills members fields a c ∧ b = change c := by
  induction fields generalizing a with
  | nil =>
    constructor
    · rintro ⟨⟩
      exact ⟨a, .nil, rfl⟩
    · rintro ⟨c, ⟨⟩, rfl⟩
      exact .nil
  | cons field fields ih =>
    have hrest := @ih fun f hf => hchange f (List.mem_cons_of_mem _ hf)
    have hfield := hchange field (by simp)
    constructor
    · intro h
      cases h with
      | missing hnone h =>
        obtain ⟨c, hc, rfl⟩ := hrest.1 h
        exact ⟨c, .missing hnone hc, rfl⟩
      | given htakes h =>
        obtain ⟨v, hone, hread⟩ := htakes
        rw [← hfield v _ hread] at h
        obtain ⟨c, hc, rfl⟩ := hrest.1 h
        exact ⟨c, .given ⟨v, hone, hread⟩ hc, rfl⟩
    · rintro ⟨c, h, rfl⟩
      cases h with
      | missing hnone h => exact .missing hnone (hrest.2 ⟨c, h, rfl⟩)
      | given htakes h =>
        obtain ⟨v, hone, hread⟩ := htakes
        have hafter := hrest.2 ⟨c, h, rfl⟩
        rw [hfield v _ hread] at hafter
        exact .given ⟨v, hone, hread⟩ hafter

theorem under_append_ne {field other : Field α} (hne : field.key ≠ other.key) (v : Json) :
    under other.key (members ++ [(field.key, v)]) = under other.key members := by
  rw [under_append, under_cons_ne hne, under_nil, List.append_nil]

theorem fills_append_first {field : Field α} (hnew : field.key ∉ fields.map Field.key)
    (hfirst : ∀ other ∈ fields, field.Commutes other) {v : Json} {a b : α} :
    Fills (members ++ [(field.key, v)]) (field :: fields) a b ↔
      ∃ change c, under field.key members = [] ∧ field.decoder.ofJson v = .ok change ∧
        Fills members (field :: fields) a c ∧ b = change c := by
  have hsame : ∀ other ∈ fields,
      under other.key (members ++ [(field.key, v)]) = under other.key members := by
    intro other hother
    have hne : field.key ≠ other.key := fun he => hnew (he ▸ List.mem_map_of_mem hother)
    exact under_append_ne hne v
  have hcommute {change : α → α} (hread : field.decoder.ofJson v = .ok change) :=
    fun other hother v' change' => hfirst other hother v v' change change' hread
  constructor
  · intro h
    cases h with
    | missing hnone h => simp at hnone
    | @given _ _ change _ _ htakes h =>
      obtain ⟨w, hone, hread⟩ := htakes
      obtain ⟨hnone, rfl⟩ : under field.key members = [] ∧ v = w := by
        simpa [List.append_eq_singleton_iff] using hone
      have hrest := h.congr fun other hother => .of_eq (hsame other hother)
      obtain ⟨c, hc, rfl⟩ := (fills_change_iff (hcommute hread)).1 hrest
      exact ⟨change, c, hnone, hread, .missing hnone hc, rfl⟩
  · rintro ⟨change, c, hnone, hread, h, rfl⟩
    cases h with
    | given htakes =>
      obtain ⟨w, hone, -⟩ := htakes
      rw [hnone] at hone
      cases hone
    | missing _ h =>
      have hrest := (fills_change_iff (hcommute hread)).2 ⟨c, h, rfl⟩
      have hone : under field.key (members ++ [(field.key, v)]) = [v] := by simp [hnone]
      have hfills := hrest.congr fun other hother => .of_eq (hsame other hother).symm
      exact .given ⟨v, hone, hread⟩ hfills

/-- One more member gives a field that has not been given, and changes the record last. -/
theorem fills_append_iff (hkeys : (fields.map Field.key).Nodup)
    (hcommute : fields.Pairwise Field.Commutes) {field : Field α} (hfield : field ∈ fields)
    {v : Json} {a b : α} :
    Fills (members ++ [(field.key, v)]) fields a b ↔
      ∃ change c, under field.key members = [] ∧ field.decoder.ofJson v = .ok change ∧
        Fills members fields a c ∧ b = change c := by
  induction fields generalizing a with
  | nil => simp at hfield
  | cons first fields ih =>
    obtain ⟨hnew, hkeys⟩ := List.nodup_cons.1 hkeys
    obtain ⟨hfirst, hcommute⟩ := List.pairwise_cons.1 hcommute
    rcases List.mem_cons.1 hfield with rfl | hfield
    · exact fills_append_first hnew hfirst
    · have hne : field.key ≠ first.key := fun he => hnew (he ▸ List.mem_map_of_mem hfield)
      have hsame : under first.key (members ++ [(field.key, v)]) = under first.key members :=
        under_append_ne hne v
      have hrest := @ih hkeys hcommute hfield
      constructor
      · intro h
        cases h with
        | missing hnone h =>
          obtain ⟨change, c, hnew, hread, hc, rfl⟩ := hrest.1 h
          rw [hsame] at hnone
          exact ⟨change, c, hnew, hread, .missing hnone hc, rfl⟩
        | given htakes h =>
          obtain ⟨change, c, hnew, hread, hc, rfl⟩ := hrest.1 h
          rw [hsame] at htakes
          exact ⟨change, c, hnew, hread, .given htakes hc, rfl⟩
      · rintro ⟨change, c, hnew, hread, h, rfl⟩
        cases h with
        | missing hnone h =>
          rw [← hsame] at hnone
          exact .missing hnone (hrest.2 ⟨change, c, hnew, hread, h, rfl⟩)
        | given htakes h =>
          rw [← hsame] at htakes
          exact .given htakes (hrest.2 ⟨change, c, hnew, hread, h, rfl⟩)

def keysSeen (form : Form α) (members : List (String × Json)) : List String :=
  ((members.map Prod.fst).filter fun key => (form.fields.find? (·.key = key)).isSome).reverse

theorem keysSeen_append (form : Form α) (members : List (String × Json)) (key : String)
    (v : Json) : form.keysSeen (members ++ [(key, v)]) =
      (if (form.fields.find? (·.key = key)).isSome then [key] else []) ++
        form.keysSeen members := by
  simp [keysSeen, List.filter_cons]
  split <;> simp

theorem mem_keysSeen {field : Field α} (hfield : field ∈ form.fields) :
    field.key ∈ form.keysSeen members ↔ under field.key members ≠ [] := by
  have hfind : (form.fields.find? (·.key = field.key)).isSome := by
    rw [List.find?_isSome]
    exact ⟨field, hfield, by simp⟩
  rw [ne_eq, under_eq_nil_iff, not_not]
  simp [keysSeen, List.mem_filter, hfind]

theorem mem_of_find {key : String} {field : Field α}
    (h : form.fields.find? (·.key = key) = some field) :
    field ∈ form.fields ∧ field.key = key :=
  ⟨List.mem_of_find?_eq_some h, by simpa using List.find?_some h⟩

theorem fills_nil_iff {a b : α} : Fills [] fields a b ↔ b = a := by
  constructor
  · intro h
    induction h with
    | nil => rfl
    | missing _ _ ih => exact ih
    | given htakes => obtain ⟨v, hone, -⟩ := htakes; cases hone
  · rintro rfl
    induction fields with
    | nil => exact .nil
    | cons field fields ih => exact .missing rfl ih

theorem takeMember_of_find {key : String} {field : Field α}
    (hfind : form.fields.find? (·.key = key) = some field) {v : Json}
    {filling filling' : Filling α} : form.takeMember filling (key, v) = .ok filling' ↔
      key ∉ filling.seen ∧ ∃ change, field.decoder.ofJson v = .ok change ∧
        filling' = put filling field change := by
  by_cases hseen : key ∈ filling.seen
  · simp [takeMember, fieldFor, hfind, hseen]
  · simp [takeMember, fieldFor, hfind, hseen, bind_eq_ok, @eq_comm _ filling']

/-- Members are taken one after another if they fill the form as far as they go. -/
theorem foldlM_takeMember_iff (hform : form.Orderless) {filling : Filling α} :
    members.foldlM form.takeMember ⟨form.blank, []⟩ = .ok filling ↔
      Fills members form.fields form.blank filling.record ∧
        filling.seen = form.keysSeen members := by
  -- From the end, since the last member taken changes the record last.
  induction members using List.reverseRecOn generalizing filling with
  | nil =>
    obtain ⟨record, seen⟩ := filling
    simp [fills_nil_iff, keysSeen, pure, Except.pure, eq_comm]
  | append_singleton members member ih =>
    obtain ⟨key, v⟩ := member
    rw [List.foldlM_append, bind_eq_ok, keysSeen_append]
    simp only [List.foldlM_cons, List.foldlM_nil, bind_pure]
    cases hfind : form.fields.find? (·.key = key) with
    | none =>
      have htake (filling : Filling α) : form.takeMember filling (key, v) = .ok filling := by
        simp [takeMember, fieldFor, hfind]
      have hsame : ∀ field ∈ form.fields,
          under field.key (members ++ [(key, v)]) = under field.key members := by
        intro field hfield
        have hne : key ≠ field.key := by simpa [eq_comm] using List.find?_eq_none.1 hfind _ hfield
        rw [under_append, under_cons_ne hne, under_nil, List.append_nil]
      simp only [htake, Except.ok.injEq, exists_eq_right, ih]
      constructor
      · rintro ⟨h, hseen⟩
        exact ⟨h.congr fun f hf => .of_eq (hsame f hf).symm, hseen⟩
      · rintro ⟨h, hseen⟩
        exact ⟨h.congr fun f hf => .of_eq (hsame f hf), hseen⟩
    | some field =>
      obtain ⟨hfield, rfl⟩ := mem_of_find hfind
      simp only [takeMember_of_find hfind, ih, fills_append_iff hform.keys hform.commute hfield]
      constructor
      · rintro ⟨filling, ⟨h, hseen⟩, hnew, change, hread, rfl⟩
        rw [hseen, mem_keysSeen hfield, not_not] at hnew
        exact ⟨⟨change, _, hnew, hread, h, rfl⟩, by simp [put, hseen]⟩
      · rintro ⟨⟨change, c, hnew, hread, h, hrecord⟩, hseen⟩
        have hunseen : field.key ∉ form.keysSeen members := by
          rw [mem_keysSeen hfield, not_not]
          exact hnew
        refine ⟨⟨c, form.keysSeen members⟩, ⟨h, rfl⟩, hunseen, change, hread, ?_⟩
        obtain ⟨record, seen⟩ := filling
        simp only at hrecord hseen
        simp [put, hrecord, hseen]

theorem complete_eq_ok_iff {filling : Filling α} {a : α} : form.complete filling = .ok a ↔
    filling.record = a ∧
      ∀ field ∈ form.fields, field.presence = .required → field.key ∈ filling.seen := by
  unfold complete
  split
  · next field hfind =>
    have hmissing := List.find?_some hfind
    simp only [decide_eq_true_eq] at hmissing
    have hfield := List.mem_of_find?_eq_some hfind
    simp only [reduceCtorEq, false_iff, not_and]
    intro _ hall
    exact hmissing.2 (hall field hfield hmissing.1)
  · next hfind =>
    have hall : ∀ field ∈ form.fields, field.presence = .required →
        field.key ∈ filling.seen := by simpa using hfind
    simp only [Except.ok.injEq, iff_self_and]
    exact fun _ => hall

/-- An object is read as the record that its members fill the form to, if no required field is
missing. -/
theorem ofJson_obj_iff (hform : form.Orderless) {a : α} :
    form.decoder.ofJson (.obj members) = .ok a ↔
      Fills members form.fields form.blank a ∧
        ∀ field ∈ form.fields, field.presence = .required → under field.key members ≠ [] := by
  have hread : form.decoder.ofJson (.obj members) =
      (members.foldlM form.takeMember ⟨form.blank, []⟩ >>= form.complete) := rfl
  rw [hread, bind_eq_ok]
  simp only [foldlM_takeMember_iff hform, complete_eq_ok_iff]
  constructor
  · rintro ⟨filling, ⟨h, hseen⟩, rfl, hall⟩
    refine ⟨h, fun field hfield hrequired => ?_⟩
    have hmem := hall field hfield hrequired
    rw [hseen] at hmem
    exact (mem_keysSeen hfield).1 hmem
  · rintro ⟨h, hall⟩
    refine ⟨⟨a, form.keysSeen members⟩, ⟨h, rfl⟩, rfl, fun field hfield hrequired => ?_⟩
    exact (mem_keysSeen hfield).2 (hall field hfield hrequired)

theorem ofJson_obj_congr (hform : form.Orderless) (h : ∀ field ∈ form.fields,
      field.Agrees (under field.key members) (under field.key members')) (a : α) :
    form.decoder.ofJson (.obj members) = .ok a ↔ form.decoder.ofJson (.obj members') = .ok a := by
  have hsymm : ∀ field ∈ form.fields,
      field.Agrees (under field.key members') (under field.key members) := fun field hfield =>
    ⟨(h field hfield).nil.symm, fun change => ((h field hfield).takes change).symm⟩
  rw [ofJson_obj_iff hform, ofJson_obj_iff hform]
  constructor
  · rintro ⟨hfills, hall⟩
    refine ⟨hfills.congr h, fun field hfield hrequired hnone => ?_⟩
    exact hall field hfield hrequired ((h field hfield).nil.2 hnone)
  · rintro ⟨hfills, hall⟩
    refine ⟨hfills.congr hsymm, fun field hfield hrequired hnone => ?_⟩
    exact hall field hfield hrequired ((h field hfield).nil.1 hnone)

structure LeavesOut (form : Form α) (field : Field α) (members : List (String × Json)) (a : α) :
    Prop where
  missing : under field.key members = []
  fills : Fills members form.fields form.blank a
  others : ∀ other ∈ form.fields, other ≠ field → other.presence = .required →
    under other.key members ≠ []

/-- A member takes part in what an object is read as by what its field makes of it. -/
theorem ofJson_obj_member_iff (hform : form.Orderless) {field : Field α}
    (hfield : field ∈ form.fields) (before after : List (String × Json)) {v : Json} {a : α} :
    form.decoder.ofJson (.obj (before ++ (field.key, v) :: after)) = .ok a ↔
      ∃ change b, form.LeavesOut field (before ++ after) b ∧ field.decoder.ofJson v = .ok change ∧
        a = change b := by
  have hperm : (before ++ (field.key, v) :: after).Perm ((before ++ after) ++ [(field.key, v)]) :=
    List.perm_middle.trans (List.perm_append_singleton _ _).symm
  have hlast := ofJson_obj_congr hform (fun f _ => .of_perm (under_perm f.key hperm)) a
  have hrequired : (∀ other ∈ form.fields, other.presence = .required →
      under other.key ((before ++ after) ++ [(field.key, v)]) ≠ []) ↔
        ∀ other ∈ form.fields, other ≠ field → other.presence = .required →
          under other.key (before ++ after) ≠ [] := by
    refine forall₂_congr fun other hother => ?_
    by_cases hsame : other = field
    · rw [hsame, under_append, under_cons_self]
      simp
    · have hne : field.key ≠ other.key := fun he =>
        hsame (List.inj_on_of_nodup_map hform.keys hother hfield he.symm)
      rw [under_append_ne hne]
      simp [hsame]
  rw [hlast, ofJson_obj_iff hform, fills_append_iff hform.keys hform.commute hfield, hrequired]
  constructor
  · rintro ⟨⟨change, b, hnew, hread, hfills, heq⟩, hothers⟩
    exact ⟨change, b, ⟨hnew, hfills, hothers⟩, hread, heq⟩
  · rintro ⟨change, b, hleaves, hread, heq⟩
    exact ⟨⟨change, b, hleaves.missing, hread, hleaves.fills, heq⟩, hleaves.others⟩

/-- It makes no difference whether a field is left out or given what leaves the blank as it is. -/
theorem ofJson_obj_fill (hform : form.Orderless) {field : Field α} (hfield : field ∈ form.fields)
    (hoptional : field.presence ≠ .required) {v : Json} {change : α → α}
    (hread : field.decoder.ofJson v = .ok change) (hblank : change form.blank = form.blank)
    (hnew : under field.key members = []) (a : α) :
    form.decoder.ofJson (.obj ((field.key, v) :: members)) = .ok a ↔
      form.decoder.ofJson (.obj members) = .ok a := by
  have hkept {c : α} (hc : Fills members form.fields form.blank c) : change c = c := by
    refine hc.invariant (fun c => change c = c) (fun other hother change' htakes c hc => ?_) hblank
    obtain ⟨v', hone, hread'⟩ := htakes
    have hne : field ≠ other := by
      rintro rfl
      rw [hnew] at hone
      cases hone
    rw [hform.commutes hfield hother hne v v' change change' hread hread' c, hc]
  have hfirst := ofJson_obj_member_iff hform hfield [] members (v := v) (a := a)
  rw [List.nil_append, List.nil_append] at hfirst
  rw [hfirst, ofJson_obj_iff hform]
  constructor
  · rintro ⟨change', c, hleaves, hread', rfl⟩
    rw [hread] at hread'
    cases hread'
    rw [hkept hleaves.fills]
    refine ⟨hleaves.fills, fun other hother hrequired => ?_⟩
    exact hleaves.others other hother (fun he => hoptional (he ▸ hrequired)) hrequired
  · rintro ⟨hfills, hrequired⟩
    refine ⟨change, a, ⟨hnew, hfills, fun other hother _ => hrequired other hother⟩, hread, ?_⟩
    exact (hkept hfills).symm

/-- Items change the one record to the other, each by the field at its place. -/
inductive FillsItems : List (Field α) → List Json → α → α → Prop
  | nil {a : α} : FillsItems [] [] a a
  | missing {field : Field α} {fields : List (Field α)} {a b : α} :
      field.presence = .defaulted → FillsItems fields [] a b → FillsItems (field :: fields) [] a b
  | given {field : Field α} {fields : List (Field α)} {v : Json} {vs : List Json}
      {change : α → α} {a b : α} : field.decoder.ofJson v = .ok change →
      FillsItems fields vs (change a) b → FillsItems (field :: fields) (v :: vs) a b

theorem takeItems_eq_ok_iff {index : Nat} {vs : List Json} {a b : α} :
    form.takeItems fields index a vs = .ok (b, []) ↔ FillsItems fields vs a b := by
  induction fields generalizing index vs a with
  | nil =>
    constructor
    · intro h
      cases h
      exact .nil
    · rintro ⟨⟩
      rfl
  | cons field fields ih =>
    cases vs with
    | nil =>
      by_cases hdefault : field.presence = .defaulted
      · rw [takeItems, if_pos hdefault, ih]
        constructor
        · exact .missing hdefault
        · rintro (_ | ⟨_, h⟩)
          exact h
      · rw [takeItems, if_neg hdefault]
        simp only [reduceCtorEq, false_iff]
        rintro (_ | ⟨hdefault', _⟩)
        exact hdefault hdefault'
    | cons v vs =>
      rw [takeItems, bind_eq_ok]
      constructor
      · rintro ⟨change, hread, h⟩
        exact .given hread (ih.1 h)
      · rintro (_ | _ | ⟨hread, h⟩)
        exact ⟨_, hread, ih.2 h⟩

theorem ofJson_arr_iff {vs : List Json} {a : α} :
    form.decoder.ofJson (.arr vs) = .ok a ↔ FillsItems form.fields vs form.blank a := by
  have htake : form.takeItems form.fields 0 form.blank vs = .ok (a, []) ↔
      FillsItems form.fields vs form.blank a := takeItems_eq_ok_iff
  rw [← htake]
  have hread : form.decoder.ofJson (.arr vs) =
      (form.takeItems form.fields 0 form.blank vs >>= fun taken =>
        if taken.2.isEmpty then .ok taken.1
        else .error (.invalidLength vs.length form.sequenceText)) := rfl
  rw [hread, bind_eq_ok]
  constructor
  · rintro ⟨⟨record, left⟩, htaken, h⟩
    cases left with
    | nil =>
      cases h
      exact htaken
    | cons => cases h
  · intro htaken
    exact ⟨(a, []), htaken, rfl⟩

theorem FillsItems.invariant (P : α → Prop) {vs : List Json} {a b : α}
    (h : FillsItems fields vs a b) (hstep : ∀ field ∈ fields, ∀ v ∈ vs, ∀ change,
      field.decoder.ofJson v = .ok change → ∀ a, P a → P (change a)) (ha : P a) : P b := by
  induction h with
  | nil => exact ha
  | missing _ _ ih => exact ih (fun f hf => hstep f (List.mem_cons_of_mem _ hf)) ha
  | given hread _ ih =>
    have hfirst := hstep _ (by simp) _ (by simp) _ hread _ ha
    exact ih (fun f hf v hv => hstep f (List.mem_cons_of_mem _ hf) v (List.mem_cons_of_mem _ hv))
      hfirst

theorem FillsItems.congr {before after : List Json} {v w : Json} {a b : α}
    (h : FillsItems fields (before ++ v :: after) a b)
    (hread : ∀ field, fields[before.length]? = some field → ∀ change,
      field.decoder.ofJson v = .ok change → field.decoder.ofJson w = .ok change) :
    FillsItems fields (before ++ w :: after) a b := by
  induction before generalizing fields a with
  | nil =>
    cases h with
    | given hv h => exact .given (hread _ rfl _ hv) h
  | cons u before ih =>
    cases h with
    | given hu h => exact .given hu (ih h fun field hfield => hread field (by simpa using hfield))

theorem ofJson_arr_congr {before after : List Json} {v w : Json}
    (h : ∀ field, form.fields[before.length]? = some field → ∀ change,
      field.decoder.ofJson v = .ok change ↔ field.decoder.ofJson w = .ok change) (a : α) :
    form.decoder.ofJson (.arr (before ++ v :: after)) = .ok a ↔
      form.decoder.ofJson (.arr (before ++ w :: after)) = .ok a := by
  rw [ofJson_arr_iff, ofJson_arr_iff]
  constructor
  · intro hfills
    exact hfills.congr fun field hfield change => (h field hfield change).1
  · intro hfills
    exact hfills.congr fun field hfield change => (h field hfield change).2

def Spans (fields : List (Field α)) (n : Nat) : Prop :=
  n ≤ fields.length ∧ ∀ field ∈ fields.drop n, field.presence = .defaulted

theorem fills_cons_first {field : Field α} (hnew : field.key ∉ fields.map Field.key)
    (hmembers : field.key ∉ members.map Prod.fst) {v : Json} {a b : α} :
    Fills ((field.key, v) :: members) (field :: fields) a b ↔
      ∃ change, field.decoder.ofJson v = .ok change ∧ Fills members fields (change a) b := by
  have hone : under field.key ((field.key, v) :: members) = [v] := by
    rw [under_cons_self, under_eq_nil_iff.2 hmembers]
  have hsame : ∀ other ∈ fields,
      under other.key ((field.key, v) :: members) = under other.key members := by
    intro other hother
    have hne : field.key ≠ other.key := fun he => hnew (he ▸ List.mem_map_of_mem hother)
    exact under_cons_ne hne v members
  constructor
  · intro h
    cases h with
    | missing hnone =>
      rw [hone] at hnone
      cases hnone
    | given htakes h =>
      obtain ⟨w, hw, hread⟩ := htakes
      rw [hone] at hw
      cases hw
      exact ⟨_, hread, h.congr fun other hother => .of_eq (hsame other hother)⟩
  · rintro ⟨change, hread, h⟩
    have hrest := h.congr fun other hother => .of_eq (hsame other hother).symm
    exact .given ⟨v, hone, hread⟩ hrest

theorem fillsItems_iff (hkeys : (fields.map Field.key).Nodup) {vs : List Json} {a b : α} :
    FillsItems fields vs a b ↔
      Spans fields vs.length ∧ Fills ((fields.map Field.key).zip vs) fields a b := by
  induction fields generalizing vs a with
  | nil =>
    cases vs with
    | nil =>
      rw [List.zip_nil_right, fills_nil_iff]
      constructor
      · rintro ⟨⟩
        exact ⟨by simp [Spans], rfl⟩
      · rintro ⟨-, rfl⟩
        exact .nil
    | cons v vs =>
      refine iff_of_false nofun fun h => ?_
      have hle := h.1.1
      simp at hle
  | cons field fields ih =>
    obtain ⟨hnew, hkeys⟩ := List.nodup_cons.1 hkeys
    cases vs with
    | nil =>
      have hrest := @ih hkeys [] a
      rw [List.zip_nil_right, fills_nil_iff] at hrest ⊢
      constructor
      · rintro (_ | ⟨hdefault, h⟩)
        obtain ⟨hspans, heq⟩ := hrest.1 h
        refine ⟨⟨Nat.zero_le _, ?_⟩, heq⟩
        exact List.forall_mem_cons.2 ⟨hdefault, hspans.2⟩
      · rintro ⟨hspans, heq⟩
        obtain ⟨hdefault, hothers⟩ := List.forall_mem_cons.1 hspans.2
        exact .missing hdefault (hrest.2 ⟨⟨Nat.zero_le _, hothers⟩, heq⟩)
    | cons v vs =>
      have hmembers : field.key ∉ ((fields.map Field.key).zip vs).map Prod.fst := fun hmem => by
        obtain ⟨member, hm, he⟩ := List.mem_map.1 hmem
        exact hnew (he ▸ (List.of_mem_zip hm).1)
      have hspans : Spans (field :: fields) (v :: vs).length ↔ Spans fields vs.length := by
        simp [Spans]
      rw [List.map_cons, List.zip_cons_cons, fills_cons_first hnew hmembers, hspans]
      constructor
      · rintro (_ | _ | ⟨hread, h⟩)
        obtain ⟨hrest, hfills⟩ := (ih hkeys).1 h
        exact ⟨hrest, _, hread, hfills⟩
      · rintro ⟨hrest, change, hread, hfills⟩
        exact .given hread ((ih hkeys).2 ⟨hrest, hfills⟩)

/-- An array is read as the object that has its items under the keys of the fields, in order. -/
theorem ofJson_arr_iff_obj (hform : form.Orderless) {vs : List Json} {a : α} :
    form.decoder.ofJson (.arr vs) = .ok a ↔ Spans form.fields vs.length ∧
      form.decoder.ofJson (.obj ((form.fields.map Field.key).zip vs)) = .ok a := by
  rw [ofJson_arr_iff, fillsItems_iff hform.keys, ofJson_obj_iff hform]
  refine and_congr_right fun hspans => ⟨fun h => ⟨h, ?_⟩, fun h => h.1⟩
  intro field hfield hrequired
  obtain ⟨i, hi, rfl⟩ := List.getElem_of_mem hfield
  by_cases hgiven : i < vs.length
  · have hmem : (form.fields[i].key, vs[i]) ∈ (form.fields.map Field.key).zip vs := by
      have hlt : i < ((form.fields.map Field.key).zip vs).length := by
        simpa using Nat.lt_min.2 ⟨hi, hgiven⟩
      simpa using List.getElem_mem hlt
    exact List.ne_nil_of_mem (mem_under.2 hmem)
  · have hdrop : form.fields[i] ∈ form.fields.drop vs.length := by
      rw [List.mem_drop_iff_getElem]
      exact ⟨i - vs.length, by omega, by congr 1; omega⟩
    rw [hspans.2 _ hdrop] at hrequired
    cases hrequired

theorem ofJson_cases {v : Json} {a : α} (h : form.decoder.ofJson v = .ok a) :
    (∃ members, v = .obj members) ∨ ∃ vs, v = .arr vs := by
  cases v with
  | obj members => exact .inl ⟨members, rfl⟩
  | arr vs => exact .inr ⟨vs, rfl⟩
  | _ => cases h

end Form

end SyntaxTree
