import SyntaxTree.Build.ScopedList

set_option autoImplicit false

namespace SyntaxTree

/-- A list for every open scope, the innermost first, and the one at the bottom. -/
structure Levels (α : Type) where
  scopes : List (List α)
  bottom : List α
  deriving DecidableEq, Repr

namespace Levels

variable {α β : Type}

def empty : Levels α := ⟨[], []⟩

def innermost (levels : Levels α) : List α := levels.scopes.headD levels.bottom

def add (item : α) : Levels α → Levels α
  | ⟨[], bottom⟩ => ⟨[], bottom ++ [item]⟩
  | ⟨scope :: scopes, bottom⟩ => ⟨(scope ++ [item]) :: scopes, bottom⟩

def push (levels : Levels α) : Levels α := { levels with scopes := [] :: levels.scopes }

def pop : Levels α → Levels α
  | ⟨[], _⟩ => ⟨[], []⟩
  | ⟨_ :: scopes, bottom⟩ => ⟨scopes, bottom⟩

def map (f : α → β) (levels : Levels α) : Levels β :=
  ⟨levels.scopes.map (List.map f), levels.bottom.map f⟩

def items (levels : Levels α) : List α := levels.scopes.foldr (fun scope below => below ++ scope)
  levels.bottom

def starts : List (List α) → List α → List Nat
  | [], _ => []
  | _ :: scopes, bottom => (items ⟨scopes, bottom⟩).length :: starts scopes bottom

@[simp] theorem items_nil (bottom : List α) : items ⟨[], bottom⟩ = bottom := rfl

@[simp] theorem items_cons (scope : List α) (scopes : List (List α)) (bottom : List α) :
    items ⟨scope :: scopes, bottom⟩ = items ⟨scopes, bottom⟩ ++ scope := rfl

theorem items_add (levels : Levels α) (item : α) :
    (levels.add item).items = levels.items ++ [item] := by
  obtain ⟨scopes, bottom⟩ := levels
  cases scopes with
  | nil => rfl
  | cons scope scopes => simp [add]

theorem items_push (levels : Levels α) : levels.push.items = levels.items :=
  List.append_nil _

theorem items_pop (levels : Levels α) :
    levels.items = levels.pop.items ++ levels.innermost := by
  obtain ⟨scopes, bottom⟩ := levels
  cases scopes with
  | nil => rfl
  | cons scope scopes => rfl

theorem items_map (f : α → β) (levels : Levels α) : (levels.map f).items = levels.items.map f := by
  obtain ⟨scopes, bottom⟩ := levels
  induction scopes with
  | nil => rfl
  | cons scope scopes ih =>
    rw [items_cons, List.map_append, ← ih]
    rfl

theorem innermost_map (f : α → β) (levels : Levels α) :
    (levels.map f).innermost = levels.innermost.map f := by
  obtain ⟨scopes, bottom⟩ := levels
  cases scopes <;> rfl

theorem map_add (f : α → β) (levels : Levels α) (item : α) :
    (levels.add item).map f = (levels.map f).add (f item) := by
  obtain ⟨scopes, bottom⟩ := levels
  cases scopes <;> simp [add, map]

theorem map_pop (f : α → β) (levels : Levels α) : levels.pop.map f = (levels.map f).pop := by
  obtain ⟨scopes, bottom⟩ := levels
  cases scopes <;> rfl

theorem map_map {γ : Type} (f : α → β) (g : β → γ) (levels : Levels α) :
    (levels.map f).map g = levels.map (g ∘ f) := by simp [map]

end Levels

namespace ScopedList

variable {α : Type} {list : ScopedList α} {levels : Levels α}

structure Holds (list : ScopedList α) (levels : Levels α) : Prop where
  items : list.items.toList = levels.items
  cuts : list.cuts = Levels.starts levels.scopes levels.bottom

theorem holds_empty : (empty : ScopedList α).Holds .empty := ⟨rfl, rfl⟩

theorem Holds.depth (h : list.Holds levels) : list.depth = levels.scopes.length := by
  have hlength (scopes : List (List α)) (bottom : List α) :
      (Levels.starts scopes bottom).length = scopes.length := by
    induction scopes with
    | nil => rfl
    | cons scope scopes ih => rw [Levels.starts, List.length_cons, ih, List.length_cons]
  rw [ScopedList.depth, h.cuts, hlength]

theorem Holds.cut (h : list.Holds levels) : list.cut = levels.pop.items.length := by
  obtain ⟨scopes, bottom⟩ := levels
  rw [ScopedList.cut, h.cuts]
  cases scopes <;> rfl

theorem Holds.current (h : list.Holds levels) : list.current = levels.innermost := by
  rw [ScopedList.current, h.cut, h.items, levels.items_pop, List.drop_left]

theorem Holds.add (h : list.Holds levels) (item : α) : (list.add item).Holds (levels.add item) := by
  constructor
  · rw [ScopedList.add, Array.toList_push, h.items, Levels.items_add]
  · rw [ScopedList.add, h.cuts]
    obtain ⟨scopes, bottom⟩ := levels
    cases scopes <;> rfl

theorem Holds.push (h : list.Holds levels) : list.push.Holds levels.push := by
  constructor
  · rw [Levels.items_push]
    exact h.items
  · have hsize : list.items.size = levels.items.length := by
      rw [← Array.length_toList, h.items]
    rw [ScopedList.push, hsize, h.cuts]
    rfl

theorem Holds.pop_snd (h : list.Holds levels) : list.pop.2.Holds levels.pop := by
  constructor
  · have hitems : list.pop.2.items.toList = list.items.toList.take list.cut := by
      simp [ScopedList.pop]
    rw [hitems, h.cut, h.items, levels.items_pop, List.take_left]
  · have hcuts : list.pop.2.cuts = list.cuts.tail := rfl
    rw [hcuts, h.cuts]
    obtain ⟨scopes, bottom⟩ := levels
    cases scopes <;> rfl

end ScopedList

end SyntaxTree
