import SpanRules.Order

/-! Finite sets kept as increasing lists, so that equal sets are equal values. -/
namespace SpanRules

/-- A finite set, held as the increasing list of its elements. -/
structure OrderedSet (α : Type) [LT α] where
  toList : List α
  sorted : toList.Pairwise (· < ·)
  deriving DecidableEq

namespace OrderedSet
variable {α : Type} [LT α]

@[ext] theorem ext_toList {s t : OrderedSet α} (h : s.toList = t.toList) : s = t := by
  cases s; cases t; simp_all

def empty : OrderedSet α := ⟨[], .nil⟩

instance : Inhabited (OrderedSet α) := ⟨empty⟩

instance : Membership α (OrderedSet α) := ⟨fun s a => a ∈ s.toList⟩

theorem mem_def {s : OrderedSet α} {a : α} : a ∈ s ↔ a ∈ s.toList := Iff.rfl

instance [DecidableEq α] (s : OrderedSet α) (a : α) : Decidable (a ∈ s) :=
  inferInstanceAs (Decidable (a ∈ s.toList))

instance (s : OrderedSet α) (p : α → Prop) [DecidablePred p] : Decidable (∀ a ∈ s, p a) :=
  inferInstanceAs (Decidable (∀ a ∈ s.toList, p a))

def contains [DecidableEq α] (s : OrderedSet α) (a : α) : Bool := decide (a ∈ s)

def size (s : OrderedSet α) : Nat := s.toList.length

def isEmpty (s : OrderedSet α) : Bool := s.toList.isEmpty

def filter (s : OrderedSet α) (p : α → Bool) : OrderedSet α :=
  ⟨s.toList.filter p, s.sorted.filter p⟩

variable [DecidableLT α]

/-- Puts an element at its place in an increasing list that may hold it already. -/
def insertSorted (a : α) : List α → List α
  | [] => [a]
  | b :: l => if a < b then a :: b :: l else if b < a then b :: insertSorted a l else b :: l

/-- Merges two increasing lists when the first begins with `a` and `rest` merges its tail. -/
def mergeInto (a : α) (l : List α) (rest : List α → List α) : List α → List α
  | [] => a :: l
  | b :: r =>
    if a < b then a :: rest (b :: r)
    else if b < a then b :: mergeInto a l rest r
    else a :: rest r

/-- Merges two increasing lists, with common elements taken once. -/
def merge : List α → List α → List α
  | [], r => r
  | a :: l, r => mergeInto a l (merge l) r

variable [StrictTotal α]

theorem mem_insertSorted {a x : α} {l : List α} :
    x ∈ insertSorted a l ↔ x = a ∨ x ∈ l := by
  induction l with
  | nil => simp [insertSorted]
  | cons b l ih =>
    unfold insertSorted
    split
    · simp
    · rename_i h
      split
      · simp [ih]; grind
      · rename_i h'
        have := StrictTotal.eq_of_not_lt h h'
        subst this; simp

theorem pairwise_insertSorted {a : α} {l : List α} (h : l.Pairwise (· < ·)) :
    (insertSorted a l).Pairwise (· < ·) := by
  induction l with
  | nil => simp [insertSorted]
  | cons b l ih =>
    rw [List.pairwise_cons] at h
    unfold insertSorted
    split
    · rename_i hab
      refine .cons ?_ (.cons h.1 h.2)
      intro x hx
      rcases List.mem_cons.1 hx with rfl | hx
      · exact hab
      · exact StrictTotal.trans hab (h.1 x hx)
    · split
      · rename_i hba
        refine .cons ?_ (ih h.2)
        intro x hx
        rcases mem_insertSorted.1 hx with rfl | hx
        · exact hba
        · exact h.1 x hx
      · exact .cons h.1 h.2

theorem mem_mergeInto {a x : α} {l r : List α} {rest : List α → List α}
    (hrest : ∀ t, x ∈ rest t ↔ x ∈ l ∨ x ∈ t) :
    x ∈ mergeInto a l rest r ↔ x ∈ a :: l ∨ x ∈ r := by
  induction r with
  | nil => simp [mergeInto]
  | cons b r ih =>
    unfold mergeInto
    split
    · simp [hrest]; grind
    · rename_i h
      split
      · simp [ih]; grind
      · rename_i h'
        have := StrictTotal.eq_of_not_lt h h'
        subst this; simp [hrest]; grind

theorem mem_merge {x : α} {l r : List α} : x ∈ merge l r ↔ x ∈ l ∨ x ∈ r := by
  induction l generalizing r with
  | nil => simp [merge]
  | cons a l ih => exact mem_mergeInto fun t => ih

theorem pairwise_mergeInto {a : α} {l r : List α} {rest : List α → List α}
    (hl : (a :: l).Pairwise (· < ·)) (hr : r.Pairwise (· < ·))
    (hmem : ∀ x t, x ∈ rest t ↔ x ∈ l ∨ x ∈ t)
    (hrest : ∀ t, t.Pairwise (· < ·) → (rest t).Pairwise (· < ·)) :
    (mergeInto a l rest r).Pairwise (· < ·) := by
  induction r with
  | nil => exact hl
  | cons b r ih =>
    have hr' := List.pairwise_cons.1 hr
    have hl' := List.pairwise_cons.1 hl
    unfold mergeInto
    split
    · rename_i hab
      refine .cons ?_ (hrest _ hr)
      intro x hx
      rcases (hmem x _).1 hx with hx | hx
      · exact hl'.1 x hx
      · rcases List.mem_cons.1 hx with rfl | hx
        · exact hab
        · exact StrictTotal.trans hab (hr'.1 x hx)
    · rename_i hab
      split
      · rename_i hba
        refine .cons ?_ (ih hr'.2)
        intro x hx
        rcases (mem_mergeInto (hmem x)).1 hx with hx | hx
        · rcases List.mem_cons.1 hx with rfl | hx
          · exact hba
          · exact StrictTotal.trans hba (hl'.1 x hx)
        · exact hr'.1 x hx
      · rename_i hba
        have := StrictTotal.eq_of_not_lt hab hba
        subst this
        refine .cons ?_ (hrest _ hr'.2)
        intro x hx
        rcases (hmem x _).1 hx with hx | hx
        · exact hl'.1 x hx
        · exact hr'.1 x hx

theorem pairwise_merge {l r : List α} (hl : l.Pairwise (· < ·)) (hr : r.Pairwise (· < ·)) :
    (merge l r).Pairwise (· < ·) := by
  induction l generalizing r with
  | nil => exact hr
  | cons a l ih =>
    exact pairwise_mergeInto hl hr (fun _ _ => mem_merge) fun _ ht => ih hl.of_cons ht

def insert (s : OrderedSet α) (a : α) : OrderedSet α :=
  ⟨insertSorted a s.toList, pairwise_insertSorted s.sorted⟩

def union (s t : OrderedSet α) : OrderedSet α :=
  ⟨merge s.toList t.toList, pairwise_merge s.sorted t.sorted⟩

def singleton (a : α) : OrderedSet α := ⟨[a], List.pairwise_singleton _ _⟩

def ofList (l : List α) : OrderedSet α := l.foldr (fun a s => s.insert a) empty

/-- The union of the sets that a function gives on the elements of a list. -/
def unionOf {β : Type} (l : List β) (f : β → OrderedSet α) : OrderedSet α :=
  l.foldr (fun b s => (f b).union s) empty

omit [DecidableLT α] [StrictTotal α] in
@[simp] theorem not_mem_empty {a : α} : ¬ a ∈ (empty : OrderedSet α) := List.not_mem_nil

@[simp] theorem mem_insert {s : OrderedSet α} {a x : α} : x ∈ s.insert a ↔ x = a ∨ x ∈ s :=
  mem_insertSorted

@[simp] theorem mem_union {s t : OrderedSet α} {x : α} : x ∈ s.union t ↔ x ∈ s ∨ x ∈ t :=
  mem_merge

omit [DecidableLT α] [StrictTotal α] in
@[simp] theorem mem_singleton {a x : α} : x ∈ singleton a ↔ x = a := List.mem_singleton

@[simp] theorem mem_ofList {l : List α} {x : α} : x ∈ ofList l ↔ x ∈ l := by
  induction l with
  | nil => simp [ofList]
  | cons a l ih => simpa [ofList] using or_congr_right ih

@[simp] theorem mem_unionOf {β : Type} {l : List β} {f : β → OrderedSet α} {x : α} :
    x ∈ unionOf l f ↔ ∃ b ∈ l, x ∈ f b := by
  induction l with
  | nil => simp [unionOf]
  | cons b l ih => simpa [unionOf] using or_congr_right ih

omit [DecidableLT α] [StrictTotal α] in
@[simp] theorem mem_filter {s : OrderedSet α} {p : α → Bool} {x : α} :
    x ∈ s.filter p ↔ x ∈ s ∧ p x = true := List.mem_filter

end OrderedSet

end SpanRules
