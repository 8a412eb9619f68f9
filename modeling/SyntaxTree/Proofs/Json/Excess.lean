import SyntaxTree.Proofs.Json.Reading

/-! Values that nest too deep. The reader takes all that stands before the first bracket that opens
one level too many, and stops there. -/

set_option autoImplicit false

namespace SyntaxTree.Json

variable {α : Type}

/-- Whether a reader has stopped at a bracket that opens one level too many. -/
def TooDeep (read : Except Fault α) : Prop :=
  ∃ left, read = .error (.located .nestingTooDeep left)

theorem TooDeep.bind {β : Type} {read : Except Fault α} (h : TooDeep read)
    (next : α → Except Fault β) : TooDeep (read >>= next) := by
  obtain ⟨left, rfl⟩ := h
  exact ⟨left, rfl⟩

theorem TooDeep.finish {read : Except Fault (Read α)} (h : TooDeep read)
    (leave : List Char → Option Fault × List Char) : TooDeep (finish leave read) := by
  obtain ⟨left, rfl⟩ := h
  exact ⟨left, rfl⟩

structure Relays {σ : Type} (depth : Nat) (step : σ → String → List Char → Except Fault (Read σ))
    (key : String) : Prop where
  reads : ∀ s text text' v rest, colon text = .ok text' → value depth text' = .ok (v, rest) →
    ∃ s', step s key text = .ok (s', rest)
  stops : ∀ s text text', colon text = .ok text' → TooDeep (value depth text') →
    TooDeep (step s key text)

theorem collectMember_relays (depth : Nat) (key : String) :
    Relays depth (collectMember (value depth)) key where
  reads read text text' v rest hc hv := ⟨(key, v) :: read, by simp [collectMember, hc, hv]⟩
  stops read text text' hc hv := by
    obtain ⟨left, hv⟩ := hv
    exact ⟨left, by simp [collectMember, hc, hv]⟩

mutual

/-- No spelling is read that nests deeper than the limit. -/
theorem value_tooDeep : ∀ (v : Json) {core : List Char}, v.Spells core → ∀ {depth : Nat},
    depth < v.nesting → ∀ {w : List Char}, Blank w → ∀ rest,
    TooDeep (value depth (w ++ (core ++ rest)))
  | .arr items, core, h, depth, hd, w, hw, rest => by
    obtain ⟨body, u, hbody, hu, rfl⟩ := h
    have hs := skipSpace_blank_cons hw (show isSpace '[' = false by decide)
      (body ++ (u ++ ']' :: rest))
    have htext : w ++ ('[' :: (body ++ (u ++ [']'])) ++ rest) =
        w ++ '[' :: (body ++ (u ++ ']' :: rest)) := by simp
    rw [htext]
    unfold value
    rw [hs]
    cases depth with
    | zero => exact ⟨_, rfl⟩
    | succ depth =>
      have hi := items_tooDeep items hbody (Nat.lt_of_succ_lt_succ hd) hu rest (Nat.le_refl _) []
      exact (hi.bind _).finish _
  | .obj members, core, h, depth, hd, w, hw, rest => by
    obtain ⟨body, u, hbody, hu, rfl⟩ := h
    have hs := skipSpace_blank_cons hw (show isSpace '{' = false by decide)
      (body ++ (u ++ '}' :: rest))
    have htext : w ++ ('{' :: (body ++ (u ++ ['}'])) ++ rest) =
        w ++ '{' :: (body ++ (u ++ '}' :: rest)) := by simp
    rw [htext]
    unfold value
    rw [hs]
    cases depth with
    | zero => exact ⟨_, rfl⟩
    | succ depth =>
      have hm := members_tooDeep members hbody (Nat.lt_of_succ_lt_succ hd) hu rest
        (fun member _ => collectMember_relays depth member.1) (Nat.le_refl _) []
      exact (hm.bind _).finish _
  | .null, _, _, _, hd, _, _, _ => absurd hd (Nat.not_lt_zero _)
  | .bool _, _, _, _, hd, _, _, _ => absurd hd (Nat.not_lt_zero _)
  | .num _, _, _, _, hd, _, _, _ => absurd hd (Nat.not_lt_zero _)
  | .str _, _, _, _, hd, _, _, _ => absurd hd (Nat.not_lt_zero _)

theorem items_tooDeep : ∀ (items : List Json) {isFirst : Bool} {body : List Char},
    SpellsItems isFirst items body → ∀ {depth : Nat}, depth < nestingItems items →
    ∀ {w : List Char}, Blank w → ∀ rest {bound : List Char},
    (body ++ (w ++ ']' :: rest)).length ≤ bound.length → ∀ read,
    TooDeep (foldItems (collect (value depth)) isFirst bound read (body ++ (w ++ ']' :: rest)))
  | [], _, _, _, _, hd, _, _, _, _, _, _ => absurd hd (Nat.not_lt_zero _)
  | item :: items, isFirst, body, h, depth, hd, w, hw, rest, bound, hb, read => by
    obtain ⟨lead, core, more, hl, hcore, hmore, rfl⟩ := h
    obtain ⟨c, t, hhead, hc, hclose⟩ := hcore.head
    have hn : nextItem isFirst (lead ++ (core ++ (more ++ (w ++ ']' :: rest)))) =
        .ok (some (core ++ (more ++ (w ++ ']' :: rest)))) := by
      have hnext : nextItem isFirst (lead ++ c :: (t ++ (more ++ (w ++ ']' :: rest)))) =
          .ok (some _) := nextItem_leads hl hc hclose
      simpa [hhead] using hnext
    have htext : lead ++ (core ++ more) ++ (w ++ ']' :: rest) =
        lead ++ (core ++ (more ++ (w ++ ']' :: rest))) := by simp
    rw [htext] at hb ⊢
    cases bound with
    | nil => simp at hb
    | cons _ bound =>
      unfold foldItems
      rw [hn]
      by_cases hitem : depth < item.nesting
      · obtain ⟨left, hv⟩ := value_tooDeep item hcore hitem blank_nil (more ++ (w ++ ']' :: rest))
        rw [List.nil_append] at hv
        exact ⟨left, by simp [collect, hv]⟩
      · have hdel := hmore.delimits (hw.delimits (show Delimits (']' :: rest) by simp [Delimits]))
        have hv := value_spells item hcore (Nat.le_of_not_lt hitem) blank_nil hdel.numberEnds
        rw [List.nil_append] at hv
        have hothers : depth < nestingItems items := Nat.lt_of_not_le fun hle =>
          Nat.not_le_of_lt hd (Nat.max_le.2 ⟨Nat.le_of_not_lt hitem, hle⟩)
        have hbound : (more ++ (w ++ ']' :: rest)).length ≤ bound.length := by
          simp [hhead] at hb ⊢
          omega
        obtain ⟨left, hi⟩ := items_tooDeep items hmore hothers hw rest hbound (item :: read)
        exact ⟨left, by simp [collect, hv, hi]⟩

theorem members_tooDeep : ∀ (members : List (String × Json)) {isFirst : Bool}
    {body : List Char}, SpellsMembers isFirst members body → ∀ {depth : Nat},
    depth < nestingMembers members → ∀ {w : List Char}, Blank w → ∀ rest {σ : Type}
    {step : σ → String → List Char → Except Fault (Read σ)},
    (∀ member ∈ members, Relays depth step member.1) → ∀ {bound : List Char},
    (body ++ (w ++ '}' :: rest)).length ≤ bound.length → ∀ s,
    TooDeep (foldMembers step isFirst bound s (body ++ (w ++ '}' :: rest)))
  | [], _, _, _, _, hd, _, _, _, _, _, _, _, _, _ => absurd hd (Nat.not_lt_zero _)
  | (key, v) :: members, isFirst, body, h, depth, hd, w, hw, rest, σ, step, hstep, bound, hb,
    s => by
    obtain ⟨lead, name, gap, core, more, hl, hname, ⟨x, y, hx, hy, rfl⟩, hcore, hmore, rfl⟩ := h
    obtain ⟨hreads, hstops⟩ := hstep (key, v) (by simp)
    have hn : nextKey isFirst (lead ++ '"' :: (name ++ '"' :: (x ++ ':' ::
        (y ++ (core ++ (more ++ (w ++ '}' :: rest))))))) = .ok (some _) := nextKey_leads hl
    have hk := hname.stringText_eq (x ++ ':' :: (y ++ (core ++ (more ++ (w ++ '}' :: rest)))))
    have hc := colon_blank hx (y ++ (core ++ (more ++ (w ++ '}' :: rest))))
    have htext : lead ++ '"' :: (name ++ '"' :: (x ++ ':' :: y ++ (core ++ more))) ++
        (w ++ '}' :: rest) = lead ++ '"' :: (name ++ '"' :: (x ++ ':' ::
          (y ++ (core ++ (more ++ (w ++ '}' :: rest)))))) := by simp
    rw [htext] at hb ⊢
    cases bound with
    | nil => simp at hb
    | cons _ bound =>
      unfold foldMembers
      rw [hn]
      simp only [hk]
      by_cases hv : depth < v.nesting
      · obtain ⟨left, hs⟩ := hstops s _ _ hc (value_tooDeep v hcore hv hy _)
        exact ⟨left, by rw [hs]⟩
      · have hdel := hmore.delimits (hw.delimits (show Delimits ('}' :: rest) by simp [Delimits]))
        have hread := value_spells v hcore (Nat.le_of_not_lt hv) hy hdel.numberEnds
        obtain ⟨s', hs⟩ := hreads s _ _ _ _ hc hread
        have hothers : depth < nestingMembers members := Nat.lt_of_not_le fun hle =>
          Nat.not_le_of_lt hd (Nat.max_le.2 ⟨Nat.le_of_not_lt hv, hle⟩)
        have hbound : (more ++ (w ++ '}' :: rest)).length ≤ bound.length := by
          simp at hb ⊢
          omega
        have hm := members_tooDeep members hmore hothers hw rest
          (fun member hmember => hstep member (List.mem_cons_of_mem _ hmember)) hbound s'
        simpa only [hs] using hm

end

end SyntaxTree.Json
