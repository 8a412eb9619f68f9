import Mathlib.Data.List.Forall2
import SyntaxTree.Proofs.Decoder.Buffered
import SyntaxTree.Proofs.Json.Reading

set_option autoImplicit false

namespace SyntaxTree

open Json

variable {α β : Type}

namespace Decoder

variable {decoder : Decoder β} {v : Json}

theorem option_ofJson_cases {o : Option β} (h : decoder.option.ofJson v = .ok o) :
    o = none ∨ ∃ b, o = some b ∧ decoder.ofJson v = .ok b := by
  by_cases hv : v = .null
  · rw [hv] at h
    cases h
    exact .inl rfl
  · rw [option_ofJson_some hv, bind_eq_ok] at h
    obtain ⟨b, hb, hsome⟩ := h
    cases hsome
    exact .inr ⟨b, rfl, hb⟩

theorem list_ofJson_arr_iff {vs : List Json} {bs : List β} :
    decoder.list.ofJson (.arr vs) = .ok bs ↔
      List.Forall₂ (fun v b => decoder.ofJson v = .ok b) vs bs := by
  have hread : decoder.list.ofJson (.arr vs) = vs.mapM decoder.ofJson := rfl
  rw [hread]
  induction vs generalizing bs with
  | nil =>
    rw [List.forall₂_nil_left_iff]
    exact ⟨fun h => (Except.ok.inj h).symm, fun h => h ▸ rfl⟩
  | cons v vs ih =>
    rw [List.mapM_cons, bind_eq_ok, List.forall₂_cons_left_iff]
    constructor
    · rintro ⟨first, hfirst, h⟩
      obtain ⟨others, hothers, h⟩ := bind_eq_ok.1 h
      cases h
      exact ⟨first, others, hfirst, (ih rfl).1 hothers, rfl⟩
    · rintro ⟨first, others, hfirst, hothers, rfl⟩
      exact ⟨first, hfirst, bind_eq_ok.2 ⟨others, (ih rfl).2 hothers, rfl⟩⟩

theorem list_ofJson_cases {bs : List β} (h : decoder.list.ofJson v = .ok bs) :
    ∃ vs, v = .arr vs ∧ ∀ b ∈ bs, ∃ w ∈ vs, decoder.ofJson w = .ok b := by
  cases v with
  | arr vs =>
    have hitems := list_ofJson_arr_iff.1 h
    refine ⟨vs, rfl, fun b hb => ?_⟩
    obtain ⟨i, hi, rfl⟩ := List.getElem_of_mem hb
    have hi' : i < vs.length := hitems.length_eq ▸ hi
    exact ⟨vs[i], List.getElem_mem hi', hitems.get hi' hi⟩
  | _ => cases h

theorem list_length {vs : List Json} {bs : List β} (h : decoder.list.ofJson (.arr vs) = .ok bs) :
    vs.length = bs.length := (list_ofJson_arr_iff.1 h).length_eq

theorem list_ofJson_middle_iff {before after : List Json} {bs : List β} :
    decoder.list.ofJson (.arr (before ++ v :: after)) = .ok bs ↔ ∃ first b others,
      decoder.list.ofJson (.arr before) = .ok first ∧ decoder.ofJson v = .ok b ∧
        decoder.list.ofJson (.arr after) = .ok others ∧ bs = first ++ b :: others := by
  have hread (vs : List Json) : decoder.list.ofJson (.arr vs) = vs.mapM decoder.ofJson := rfl
  simp only [hread, List.mapM_append, List.mapM_cons, bind_eq_ok]
  constructor
  · rintro ⟨first, hfirst, rest, ⟨b, hb, others, hothers, hrest⟩, hbs⟩
    cases hrest
    cases hbs
    exact ⟨first, b, others, hfirst, hb, hothers, rfl⟩
  · rintro ⟨first, b, others, hfirst, hb, hothers, rfl⟩
    exact ⟨first, hfirst, b :: others, ⟨b, hb, others, hothers, rfl⟩, rfl⟩

end Decoder

theorem Json.ItemList.reread {item : List Char → Except Fault (Read α)}
    {item' : List Char → Except Fault (Read β)} {isFirst : Bool} {text rest : List Char}
    {as : List α} {bs : List β} (hitems : ItemList item isFirst text as rest)
    (h : List.Forall₂ (fun a b => ∀ text rest, item text = .ok (a, rest) →
      item' text = .ok (b, rest)) as bs) : ItemList item' isFirst text bs rest := by
  induction hitems generalizing bs with
  | nil hn =>
    cases h
    exact .nil hn
  | cons hn hitem _ ih =>
    cases h with
    | cons hb h => exact .cons hn (hb _ _ hitem) (ih h)

/-- A list is read from a text as its items are, each where its value stands. -/
theorem Decoder.list_ofText {decoder : Decoder α} {depth : Nat}
    {text rest : List Char} {values : List Json} {items : List α}
    (hs : Shrinks (decoder.ofText depth))
    (hv : value (depth + 1) text = .ok (.arr values, rest))
    (h : List.Forall₂ (fun v a => ∀ text rest, value depth text = .ok (v, rest) →
      decoder.ofText depth text = .ok (a, rest)) values items) :
    decoder.list.ofText (depth + 1) text = .ok (items, rest) := by
  obtain ⟨d, t, r, hd, hspace, hvs, hl⟩ := value_eq_arr_iff.1 hv
  cases hd
  have hfold := (hvs.reread h).foldItems hs (Nat.le_refl _) []
  have hlist : decoder.list.ofText (depth + 1) text = finish leaveArray
      (foldItems (collect (decoder.ofText depth)) true t [] t >>= fun taken =>
        .ok (taken.1.reverse, taken.2)) := by
    simp only [list, hspace]
    rfl
  rw [hlist, hfold]
  exact finish_eq_ok_iff.2 ⟨r, by simp, hl⟩

end SyntaxTree
