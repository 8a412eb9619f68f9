import SyntaxTree.Proofs.Json.Quote

set_option autoImplicit false

namespace SyntaxTree.Json

variable {α β σ : Type}

theorem nextItem_length {isFirst : Bool} {text rest : List Char}
    (h : nextItem isFirst text = .ok (some rest)) : rest.length ≤ text.length := by
  obtain ⟨lead, -, rfl⟩ := nextItem_eq_some h
  simp

theorem nextKey_length {isFirst : Bool} {text rest : List Char}
    (h : nextKey isFirst text = .ok (some rest)) : rest.length < text.length := by
  obtain ⟨lead, -, rfl⟩ := nextKey_eq_some h
  simp; omega

theorem stringText_length {text rest : List Char} {s : String}
    (h : stringText text = .ok (s, rest)) : rest.length < text.length := by
  obtain ⟨body, -, rfl⟩ := stringText_eq_ok h
  simp; omega

theorem colon_length {text rest : List Char} (h : colon text = .ok rest) :
    rest.length < text.length := by
  obtain ⟨w, -, rfl⟩ := colon_eq_ok h
  simp; omega

def Shrinks (read : List Char → Except Fault (Read α)) : Prop :=
  ∀ text a rest, read text = .ok (a, rest) → rest.length < text.length

def collect (item : List Char → Except Fault (Read α)) (read : List α) (text : List Char) :
    Except Fault (Read (List α)) := do
  let (a, text) ← item text
  .ok (a :: read, text)

/-- The items up to a closing bracket, and the text from there on. -/
inductive ItemList (item : List Char → Except Fault (Read α)) :
    Bool → List Char → List α → List Char → Prop
  | nil {isFirst : Bool} {text : List Char} : nextItem isFirst text = .ok none →
      ItemList item isFirst text [] text
  | cons {isFirst : Bool} {text t₁ t₂ rest : List Char} {a : α} {as : List α} :
      nextItem isFirst text = .ok (some t₁) → item t₁ = .ok (a, t₂) →
      ItemList item false t₂ as rest → ItemList item isFirst text (a :: as) rest

theorem foldItems_none {step : σ → List Char → Except Fault (Read σ)} {isFirst : Bool}
    {text : List Char} (hn : nextItem isFirst text = .ok none) (bound : List Char) (s : σ) :
    foldItems step isFirst bound s text = .ok (s, text) := by
  unfold foldItems
  simp [hn]

theorem itemList_of_foldItems {item : List Char → Except Fault (Read α)} {isFirst : Bool}
    {bound text rest : List Char} {read read' : List α}
    (h : foldItems (collect item) isFirst bound read text = .ok (read', rest)) :
    ∃ as, read' = as.reverse ++ read ∧ ItemList item isFirst text as rest := by
  induction bound generalizing isFirst text read with
  | nil =>
    cases hn : nextItem isFirst text with
    | error fault => simp [foldItems, hn] at h
    | ok next =>
      cases next with
      | none =>
        rw [foldItems_none hn] at h
        cases h
        exact ⟨[], rfl, .nil hn⟩
      | some t₁ => simp [foldItems, hn] at h
  | cons _ bound ih =>
    cases hn : nextItem isFirst text with
    | error fault => simp [foldItems, hn] at h
    | ok next =>
      cases next with
      | none =>
        rw [foldItems_none hn] at h
        cases h
        exact ⟨[], rfl, .nil hn⟩
      | some t₁ =>
        unfold foldItems at h
        cases ha : item t₁ with
        | error fault => simp [hn, collect, ha] at h
        | ok a =>
          obtain ⟨a, t₂⟩ := a
          simp only [hn, collect, ha] at h
          obtain ⟨as, rfl, has⟩ := ih h
          exact ⟨a :: as, by simp, .cons hn ha has⟩

theorem ItemList.foldItems {item : List Char → Except Fault (Read α)} (hs : Shrinks item)
    {isFirst : Bool} {text rest : List Char} {as : List α}
    (h : ItemList item isFirst text as rest) {bound : List Char}
    (hb : text.length ≤ bound.length) (read : List α) :
    foldItems (collect item) isFirst bound read text = .ok (as.reverse ++ read, rest) := by
  induction h generalizing bound read with
  | nil hn => exact foldItems_none hn bound read
  | @cons isFirst text t₁ t₂ rest a as hn ha _ ih =>
    have h₁ := nextItem_length hn
    have h₂ := hs _ _ _ ha
    cases bound with
    | nil => simp at hb; simp [hb] at h₁; simp [h₁] at h₂
    | cons _ bound =>
      have hle : t₂.length ≤ bound.length := by simp at hb; omega
      have ht := ih hle (a :: read)
      unfold Json.foldItems
      simp [hn, collect, ha, ht]

inductive MemberList (item : List Char → Except Fault (Read β)) :
    Bool → List Char → List (String × β) → List Char → Prop
  | nil {isFirst : Bool} {text : List Char} : nextKey isFirst text = .ok none →
      MemberList item isFirst text [] text
  | cons {isFirst : Bool} {text t₁ t₂ t₃ t₄ rest : List Char} {key : String} {b : β}
      {members : List (String × β)} :
      nextKey isFirst text = .ok (some t₁) → stringText t₁ = .ok (key, t₂) →
      colon t₂ = .ok t₃ → item t₃ = .ok (b, t₄) → MemberList item false t₄ members rest →
      MemberList item isFirst text ((key, b) :: members) rest

def Factors (step : σ → String → List Char → Except Fault (Read σ))
    (item : List Char → Except Fault (Read β)) (take : σ → String × β → Except Problem σ) : Prop :=
  ∀ s key text s' rest, step s key text = .ok (s', rest) ↔
    ∃ t b, colon text = .ok t ∧ item t = .ok (b, rest) ∧ take s (key, b) = .ok s'

variable {step : σ → String → List Char → Except Fault (Read σ)}
  {item : List Char → Except Fault (Read β)} {take : σ → String × β → Except Problem σ}

theorem foldMembers_none {isFirst : Bool} {text : List Char} (hn : nextKey isFirst text = .ok none)
    (bound : List Char) (s : σ) : foldMembers step isFirst bound s text = .ok (s, text) := by
  unfold foldMembers
  simp [hn]

theorem memberList_of_foldMembers (hf : Factors step item take) {isFirst : Bool}
    {bound text rest : List Char} {s s' : σ}
    (h : foldMembers step isFirst bound s text = .ok (s', rest)) :
    ∃ members, MemberList item isFirst text members rest ∧ members.foldlM take s = .ok s' := by
  induction bound generalizing isFirst text s with
  | nil =>
    cases hn : nextKey isFirst text with
    | error fault => simp [foldMembers, hn] at h
    | ok next =>
      cases next with
      | none =>
        rw [foldMembers_none hn] at h
        cases h
        exact ⟨[], .nil hn, rfl⟩
      | some t₁ => simp [foldMembers, hn] at h
  | cons _ bound ih =>
    cases hn : nextKey isFirst text with
    | error fault => simp [foldMembers, hn] at h
    | ok next =>
      cases next with
      | none =>
        rw [foldMembers_none hn] at h
        cases h
        exact ⟨[], .nil hn, rfl⟩
      | some t₁ =>
        unfold foldMembers at h
        simp only [hn] at h
        split at h
        · cases h
        · next key t₂ hk =>
          split at h
          · cases h
          · next s₁ t₄ hstep =>
            obtain ⟨t₃, b, hc, hb, ht⟩ := (hf _ _ _ _ _).1 hstep
            obtain ⟨members, hm, hfold⟩ := ih h
            refine ⟨(key, b) :: members, .cons hn hk hc hb hm, ?_⟩
            rw [List.foldlM_cons, ht]
            exact hfold

theorem MemberList.foldMembers_of {isFirst : Bool} {text rest : List Char}
    {members : List (String × β)} (h : MemberList item isFirst text members rest)
    (hs : Shrinks item) (hstep : ∀ member ∈ members, ∀ s s' t t' u, colon t = .ok t' →
      item t' = .ok (member.2, u) → take s member = .ok s' → step s member.1 t = .ok (s', u))
    {bound : List Char} (hb : text.length ≤ bound.length) {s s' : σ}
    (ht : members.foldlM take s = .ok s') :
    foldMembers step isFirst bound s text = .ok (s', rest) := by
  induction h generalizing bound s with
  | nil hn =>
    cases ht
    exact foldMembers_none hn bound _
  | @cons isFirst text t₁ t₂ t₃ t₄ rest key b members hn hk hc hv _ ih =>
    have h₁ := nextKey_length hn
    have h₂ := stringText_length hk
    have h₃ := colon_length hc
    have h₄ := hs _ _ _ hv
    rw [List.foldlM_cons] at ht
    obtain ⟨s₁, ht₁, ht⟩ := bind_eq_ok.1 ht
    cases bound with
    | nil => simp at hb; simp [hb] at h₁
    | cons _ bound =>
      have hle : t₄.length ≤ bound.length := by simp at hb; omega
      have htail := ih (fun member hm => hstep member (List.mem_cons_of_mem _ hm)) hle ht
      have hfirst := hstep (key, b) (by simp) s s₁ t₂ t₃ t₄ hc hv ht₁
      unfold Json.foldMembers
      simp [hn, hk, hfirst, htail]

theorem MemberList.foldMembers (hf : Factors step item take) (hs : Shrinks item) {isFirst : Bool}
    {text rest : List Char} {members : List (String × β)}
    (h : MemberList item isFirst text members rest) {bound : List Char}
    (hb : text.length ≤ bound.length) {s s' : σ} (ht : members.foldlM take s = .ok s') :
    foldMembers step isFirst bound s text = .ok (s', rest) :=
  h.foldMembers_of hs (fun _ _ _ _ _ _ _ hc hv ht => (hf _ _ _ _ _).2 ⟨_, _, hc, hv, ht⟩) hb ht

end SyntaxTree.Json
