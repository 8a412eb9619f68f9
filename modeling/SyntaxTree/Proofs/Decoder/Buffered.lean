import SyntaxTree.Token
import SyntaxTree.Proofs.Json.Quote

set_option autoImplicit false

namespace SyntaxTree

open Json

variable {ι α β : Type}

theorem lookup_name {name : ι → String} (f : ι → α) {all : List ι} (hall : (all.map name).Nodup)
    {i : ι} (h : i ∈ all) : (all.map fun i => (name i, f i)).lookup (name i) = some (f i) := by
  induction all with
  | nil => simp at h
  | cons j all ih =>
    obtain ⟨hj, hall⟩ := List.nodup_cons.1 hall
    rcases List.mem_cons.1 h with rfl | h
    · simp
    · have hne : name i ≠ name j := fun he => hj (he ▸ List.mem_map_of_mem h)
      have hb : (name i == name j) = false := by simpa using hne
      simpa [List.lookup_cons, hb] using ih hall h

namespace Form

/-- Members that give every field in order, with the record before and after them. -/
inductive Gives : List (Field α) → List (String × Json) → α → α → Prop
  | nil {a : α} : Gives [] [] a a
  | cons {field : Field α} {value : Json} {change : α → α} {fields : List (Field α)}
      {members : List (String × Json)} {a b : α} : field.decoder.ofJson value = .ok change →
      Gives fields members (change a) b →
      Gives (field :: fields) ((field.key, value) :: members) a b

theorem Gives.field {key : String} {presence : Presence} {decoder : Decoder β} {put : β → α → α}
    {x : β} {value : Json} (hx : decoder.ofJson value = .ok x) {fields : List (Field α)}
    {members : List (String × Json)} {a b : α} (h : Gives fields members (put x a) b) :
    Gives (.of key presence decoder put :: fields) ((key, value) :: members) a b := by
  have hread : (Field.of key presence decoder put).decoder.ofJson value = .ok (put x) := by
    simp [Field.of, Decoder.map, hx]
  exact .cons hread h

theorem Gives.foldlM {form : Form α} (hkeys : (form.fields.map Field.key).Nodup)
    {fields : List (Field α)} {members : List (String × Json)} {a b : α}
    (h : Gives fields members a b) {before : List (Field α)}
    (hf : form.fields = before ++ fields) :
    members.foldlM form.takeMember ⟨a, (before.map Field.key).reverse⟩ =
      .ok ⟨b, (form.fields.map Field.key).reverse⟩ := by
  induction h generalizing before with
  | nil => simp [hf, pure, Except.pure]
  | @cons field value change fields members a b hc _ ih =>
    have hnew : field.key ∉ before.map Field.key := by
      rw [hf, List.map_append, List.nodup_append] at hkeys
      intro hmem
      exact hkeys.2.2 _ hmem field.key (by simp) rfl
    have hfind : form.fields.find? (·.key = field.key) = some field := by
      rw [hf, List.find?_append]
      have hnone : before.find? (·.key = field.key) = none := by
        simp only [List.find?_eq_none, decide_eq_true_eq]
        intro x hx he
        exact hnew (List.mem_map.2 ⟨x, hx, he⟩)
      simp [hnone]
    have hf' : form.fields = (before ++ [field]) ++ fields := by simp [hf]
    have ht := ih hf'
    have hnew' : field.key ∉ (before.map Field.key).reverse := by simpa using hnew
    rw [List.foldlM_cons]
    simpa [takeMember, fieldFor, hfind, hnew', hc, put] using ht

theorem ofJson_obj {form : Form α} (hkeys : (form.fields.map Field.key).Nodup)
    {members : List (String × Json)} {a : α} (h : Gives form.fields members form.blank a) :
    form.decoder.ofJson (.obj members) = .ok a := by
  have hf : members.foldlM form.takeMember ⟨form.blank, []⟩ =
      .ok ⟨a, (form.fields.map Field.key).reverse⟩ := h.foldlM hkeys (List.nil_append _).symm
  have hall : form.fields.find? (fun field => field.presence = .required ∧
      field.key ∉ (form.fields.map Field.key).reverse) = none := by
    rw [List.find?_eq_none]
    intro field hfield hmissing
    simp only [decide_eq_true_eq] at hmissing
    exact hmissing.2 (List.mem_reverse.2 (List.mem_map_of_mem hfield))
  have hc : form.complete ⟨a, (form.fields.map Field.key).reverse⟩ = .ok a := by
    unfold complete
    rw [hall]
  have hread : form.decoder.ofJson (.obj members) =
      (members.foldlM form.takeMember ⟨form.blank, []⟩ >>= form.complete) := rfl
  rw [hread, hf, ok_bind, hc]

end Form

namespace Decoder

theorem map_ofJson {decoder : Decoder α} {value : Json} {a : α}
    (h : decoder.ofJson value = .ok a) (f : α → β) : (decoder.map f).ofJson value = .ok (f a) := by
  simp [map, h]

@[simp] theorem string_ofJson (s : String) : string.ofJson (.str s) = .ok s := rfl

@[simp] theorem flag_ofJson (b : Bool) : flag.ofJson (.bool b) = .ok b := rfl

theorem unsigned_ofJson {bits n : Nat} (h : n < 1 <<< bits) :
    (unsigned bits).ofJson (.ofNat n) = .ok n := by
  simp only [unsigned, ofScalar, Json.ofNat, Int.toNat_natCast]
  have hn : 0 ≤ (n : Int) ∧ n < 1 <<< bits := ⟨Int.natCast_nonneg n, h⟩
  rw [if_pos hn]
  rfl

theorem uint32_ofJson (n : UInt32) : uint32.ofJson (.ofNat n.toNat) = .ok n := by
  have hlt : n.toNat < 1 <<< 32 := n.toNat_lt
  have hu := unsigned_ofJson hlt
  rw [uint32, map_ofJson hu, UInt32.ofNat_toNat]

theorem option_ofJson_some {decoder : Decoder α} {value : Json} (hne : value ≠ .null) :
    decoder.option.ofJson value = (do
      let a ← decoder.ofJson value
      .ok (some a)) := by
  cases value with
  | null => exact absurd rfl hne
  | _ => rfl

theorem option_ofJson {decoder : Decoder α} {write : α → Json} {o : Option α}
    (h : ∀ a ∈ o, decoder.ofJson (write a) = .ok a ∧ write a ≠ .null) :
    decoder.option.ofJson (.ofOption write o) = .ok o := by
  cases o with
  | none => rfl
  | some a =>
    obtain ⟨ha, hne⟩ := h a rfl
    rw [show Json.ofOption write (some a) = write a from rfl, option_ofJson_some hne, ha]
    rfl

theorem list_ofJson {decoder : Decoder α} {write : α → Json} {items : List α}
    (h : ∀ a ∈ items, decoder.ofJson (write a) = .ok a) :
    decoder.list.ofJson (.arr (items.map write)) = .ok items := by
  have hm : (items.map write).mapM decoder.ofJson = .ok items := by
    induction items with
    | nil => rfl
    | cons a items ih =>
      have ht := ih fun x hx => h x (by simp [hx])
      simp [List.mapM_cons, h a (by simp), ht, pure, Except.pure]
  exact hm

end Decoder

theorem Alternatives.find_name {name : ι → String} (f : ι → α) {all : List ι}
    (hall : (all.map name).Nodup) {i : ι} (h : i ∈ all) :
    Alternatives.find (all.map fun i => (name i, f i)) (name i) = .ok (f i) := by
  rw [find, lookup_name f hall h]

end SyntaxTree
