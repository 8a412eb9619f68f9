import SyntaxTree.Proofs.Decoder.Fields
import SyntaxTree.Proofs.Decoder.Tagged

set_option autoImplicit false

namespace SyntaxTree

open Json

def Json.without (key : String) (members : List (String × Json)) : List (String × Json) :=
  members.filter (·.1 ≠ key)

/-- Whether a value is a record that gives a tag once, under a key or as its first item, and else
has the given fields. -/
inductive Json.Carries (key : String) : Json → Json → Json → Prop
  | object {tag : Json} {members : List (String × Json)} : under key members = [tag] →
      Carries key (.obj members) tag (.obj (without key members))
  | array {tag : Json} {items : List Json} : Carries key (.arr (tag :: items)) tag (.arr items)

namespace Json

variable {key other : String} {members members' : List (String × Json)}

@[simp] theorem without_append (key : String) (members members' : List (String × Json)) :
    without key (members ++ members') = without key members ++ without key members' := by
  simp [without]

@[simp] theorem without_cons_self (key : String) (v : Json) (members : List (String × Json)) :
    without key ((key, v) :: members) = without key members := by simp [without]

theorem without_cons_ne (h : other ≠ key) (v : Json) (members : List (String × Json)) :
    without key ((other, v) :: members) = (other, v) :: without key members := by
  simp [without, h]

theorem without_of_not_mem (h : key ∉ members.map Prod.fst) : without key members = members := by
  refine List.filter_eq_self.2 fun member hm => ?_
  have hne : member.1 ≠ key := fun he => h (he ▸ List.mem_map_of_mem hm)
  simpa using hne

theorem under_without (h : other ≠ key) (members : List (String × Json)) :
    under other (without key members) = under other members := by
  unfold under without
  rw [List.filter_filter]
  congr 1
  refine List.filter_congr fun member _ => ?_
  by_cases he : member.1 = other <;> simp [he, h]

end Json

namespace Tagged

variable {α : Type} {tagged : Tagged α} {members : List (String × Json)}

theorem foldlM_takeMember_opened {form : Json → Except Problem α} {read : List (String × Json)}
    {opened : Opened α} :
    members.foldlM tagged.takeMember ⟨some form, read⟩ = .ok opened ↔
      tagged.tag ∉ members.map Prod.fst ∧ opened = ⟨some form, members.reverse ++ read⟩ := by
  constructor
  · intro h
    have hnone : tagged.tag ∉ members.map Prod.fst := by
      induction members generalizing read with
      | nil => simp
      | cons member members ih =>
        rw [List.foldlM_cons, bind_eq_ok] at h
        obtain ⟨next, htake, h⟩ := h
        by_cases hkey : member.1 = tagged.tag
        · simp [takeMember, hkey] at htake
        · simp only [takeMember, hkey, if_false, Except.ok.injEq] at htake
          rw [← htake] at h
          have hrest := ih h
          simp only [List.map_cons, List.mem_cons, not_or]
          exact ⟨fun he => hkey he.symm, hrest⟩
    rw [foldlM_takeMember hnone] at h
    exact ⟨hnone, (Except.ok.inj h).symm⟩
  · rintro ⟨hnone, rfl⟩
    exact foldlM_takeMember hnone _

theorem foldlM_takeMember_iff {read left : List (String × Json)}
    {form : Json → Except Problem α} :
    members.foldlM tagged.takeMember ⟨none, read⟩ = .ok ⟨some form, left⟩ ↔
      ∃ tag, under tagged.tag members = [tag] ∧ tagged.takeTag tag = .ok form ∧
        left = (without tagged.tag members).reverse ++ read := by
  induction members generalizing read with
  | nil => simp [pure, Except.pure]
  | cons member members ih =>
    obtain ⟨key, v⟩ := member
    rw [List.foldlM_cons, bind_eq_ok]
    by_cases hkey : key = tagged.tag
    · rw [hkey, under_cons_self, without_cons_self]
      constructor
      · rintro ⟨next, htake, h⟩
        simp only [takeMember, if_true, Option.isSome_none, Bool.false_eq_true, if_false,
          bind_eq_ok] at htake
        obtain ⟨form', hform, hnext⟩ := htake
        cases hnext
        obtain ⟨hnone, heq⟩ := foldlM_takeMember_opened.1 h
        cases heq
        refine ⟨v, ?_, hform, ?_⟩
        · rw [under_eq_nil_iff.2 hnone]
        · rw [without_of_not_mem hnone]
      · rintro ⟨tag, hone, hform, rfl⟩
        obtain ⟨rfl, hnone⟩ := List.cons.inj hone
        have hkeys := under_eq_nil_iff.1 hnone
        refine ⟨⟨some form, read⟩, by simp [takeMember, hform], ?_⟩
        rw [foldlM_takeMember_opened, without_of_not_mem hkeys]
        exact ⟨hkeys, rfl⟩
    · simp [takeMember, hkey, under_cons_ne hkey, without_cons_ne hkey, ih]

theorem ofJson_obj_iff {a : α} : tagged.decoder.ofJson (.obj members) = .ok a ↔
    ∃ tag form, under tagged.tag members = [tag] ∧ tagged.takeTag tag = .ok form ∧
      form (.obj (without tagged.tag members)) = .ok a := by
  have hread : tagged.decoder.ofJson (.obj members) =
      (members.foldlM tagged.takeMember ⟨none, []⟩ >>= _) := rfl
  rw [hread, bind_eq_ok]
  constructor
  · rintro ⟨⟨form, left⟩, htake, h⟩
    cases form with
    | none => cases h
    | some form =>
      obtain ⟨tag, hone, hform, rfl⟩ := foldlM_takeMember_iff.1 htake
      exact ⟨tag, form, hone, hform, by simpa using h⟩
  · rintro ⟨tag, form, hone, hform, h⟩
    exact ⟨⟨some form, _⟩, foldlM_takeMember_iff.2 ⟨tag, hone, hform, rfl⟩, by simpa using h⟩

theorem ofJson_arr_iff {vs : List Json} {a : α} : tagged.decoder.ofJson (.arr vs) = .ok a ↔
    ∃ tag items form, vs = tag :: items ∧ tagged.takeTag tag = .ok form ∧
      form (.arr items) = .ok a := by
  cases vs with
  | nil => simp [decoder]
  | cons tag items =>
    have hread : tagged.decoder.ofJson (.arr (tag :: items)) =
        (tagged.takeTag tag >>= fun form => form (.arr items)) := rfl
    rw [hread, bind_eq_ok]
    constructor
    · rintro ⟨form, hform, h⟩
      exact ⟨tag, items, form, rfl, hform, h⟩
    · rintro ⟨_, _, form, heq, hform, h⟩
      cases heq
      exact ⟨form, hform, h⟩

theorem ofJson_cases {v : Json} {a : α} (h : tagged.decoder.ofJson v = .ok a) :
    (∃ members, v = .obj members) ∨ ∃ vs, v = .arr vs := by
  cases v with
  | obj members => exact .inl ⟨members, rfl⟩
  | arr vs => exact .inr ⟨vs, rfl⟩
  | _ => cases h

/-- Only records that carry a tag are read, and the form that the tag names reads the rest. -/
theorem ofJson_iff {v : Json} {a : α} : tagged.decoder.ofJson v = .ok a ↔
    ∃ tag form fields, Carries tagged.tag v tag fields ∧ tagged.takeTag tag = .ok form ∧
      form fields = .ok a := by
  constructor
  · intro h
    rcases ofJson_cases h with ⟨members, rfl⟩ | ⟨vs, rfl⟩
    · obtain ⟨tag, form, hone, hform, h⟩ := ofJson_obj_iff.1 h
      exact ⟨tag, form, _, .object hone, hform, h⟩
    · obtain ⟨tag, items, form, rfl, hform, h⟩ := ofJson_arr_iff.1 h
      exact ⟨tag, form, _, .array, hform, h⟩
  · rintro ⟨tag, form, fields, hcarries, hform, h⟩
    cases hcarries with
    | object hone => exact ofJson_obj_iff.2 ⟨tag, form, hone, hform, h⟩
    | array => exact ofJson_arr_iff.2 ⟨tag, _, form, rfl, hform, h⟩

end Tagged

end SyntaxTree
