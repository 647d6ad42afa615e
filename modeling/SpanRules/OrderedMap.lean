import SpanRules.Order

/-! Finite maps kept as lists with increasing keys, so that equal maps are equal values. -/
namespace SpanRules

/-- A finite map, held as the list of its entries by increasing key. -/
structure OrderedMap (κ : Type) [LT κ] (β : Type) where
  toList : List (κ × β)
  sorted : toList.Pairwise (·.1 < ·.1)
  deriving DecidableEq

namespace OrderedMap
variable {κ : Type} [LT κ] {β : Type}

@[ext] theorem ext_toList {m n : OrderedMap κ β} (h : m.toList = n.toList) : m = n := by
  cases m; cases n; simp_all

def empty : OrderedMap κ β := ⟨[], .nil⟩

instance : Inhabited (OrderedMap κ β) := ⟨empty⟩

def keys (m : OrderedMap κ β) : List κ := m.toList.map (·.1)

def findIn [DecidableEq κ] (k : κ) : List (κ × β) → Option β
  | [] => none
  | (k', v) :: l => if k = k' then some v else findIn k l

def find? [DecidableEq κ] (m : OrderedMap κ β) (k : κ) : Option β := findIn k m.toList

def contains [DecidableEq κ] (m : OrderedMap κ β) (k : κ) : Bool := (m.find? k).isSome

variable [DecidableLT κ]

/-- Puts an entry at its place in a list with increasing keys; an entry of the same key is
replaced. -/
def insertSorted (k : κ) (v : β) : List (κ × β) → List (κ × β)
  | [] => [(k, v)]
  | e :: l =>
    if k < e.1 then (k, v) :: e :: l
    else if e.1 < k then e :: insertSorted k v l
    else (k, v) :: l

theorem mem_insertSorted {k : κ} {v : β} {l : List (κ × β)} {e : κ × β}
    (h : e ∈ insertSorted k v l) : e = (k, v) ∨ e ∈ l := by
  induction l with
  | nil => simpa [insertSorted] using h
  | cons a l ih =>
    unfold insertSorted at h
    split at h
    · simpa using h
    · split at h <;> simp at h ⊢ <;> grind

variable [StrictTotal κ]

theorem pairwise_insertSorted {k : κ} {v : β} {l : List (κ × β)}
    (h : l.Pairwise (·.1 < ·.1)) : (insertSorted k v l).Pairwise (·.1 < ·.1) := by
  induction l with
  | nil => simp [insertSorted]
  | cons a l ih =>
    rw [List.pairwise_cons] at h
    unfold insertSorted
    split
    · rename_i hka
      refine .cons ?_ (.cons h.1 h.2)
      intro x hx
      rcases List.mem_cons.1 hx with rfl | hx
      · exact hka
      · exact StrictTotal.trans hka (h.1 x hx)
    · rename_i hka
      split
      · rename_i hak
        refine .cons ?_ (ih h.2)
        intro x hx
        rcases mem_insertSorted hx with rfl | hx
        · exact hak
        · exact h.1 x hx
      · rename_i hak
        have heq := StrictTotal.eq_of_not_lt hka hak
        refine .cons ?_ h.2
        intro x hx
        exact heq ▸ h.1 x hx

def insert (m : OrderedMap κ β) (k : κ) (v : β) : OrderedMap κ β :=
  ⟨insertSorted k v m.toList, pairwise_insertSorted m.sorted⟩

/-- Changes the value of a key, which is `d` for a key without one. -/
def update [DecidableEq κ] (m : OrderedMap κ β) (k : κ) (d : β) (f : β → β) : OrderedMap κ β :=
  m.insert k (f ((m.find? k).getD d))

/-- The map of a list of entries, of which the last with a key counts. -/
def ofList (l : List (κ × β)) : OrderedMap κ β := l.foldl (fun m e => m.insert e.1 e.2) empty

theorem findIn_insertSorted [DecidableEq κ] {k k' : κ} {v : β} {l : List (κ × β)} :
    findIn k' (insertSorted k v l) = if k' = k then some v else findIn k' l := by
  induction l with
  | nil => simp [insertSorted, findIn]
  | cons a l ih =>
    unfold insertSorted
    split
    · simp [findIn]
    · rename_i hka
      split
      · rename_i hak
        obtain ⟨a1, a2⟩ := a
        simp only [findIn, ih]
        by_cases h : k' = a1
        · subst h
          have : k' ≠ k := fun h => StrictTotal.irrefl k (h ▸ hak)
          simp [this]
        · simp [h]
      · rename_i hak
        have heq := StrictTotal.eq_of_not_lt hka hak
        obtain ⟨a1, a2⟩ := a
        simp only at heq
        subst heq
        by_cases h : k' = k <;> simp [findIn, h]

@[simp] theorem find?_insert [DecidableEq κ] {m : OrderedMap κ β} {k k' : κ} {v : β} :
    (m.insert k v).find? k' = if k' = k then some v else m.find? k' :=
  findIn_insertSorted

omit [DecidableLT κ] [StrictTotal κ] in
@[simp] theorem find?_empty [DecidableEq κ] {k : κ} : (empty : OrderedMap κ β).find? k = none := rfl

@[simp] theorem find?_update [DecidableEq κ] {m : OrderedMap κ β} {k k' : κ} {d : β} {f : β → β} :
    (m.update k d f).find? k' = if k' = k then some (f ((m.find? k).getD d)) else m.find? k' :=
  find?_insert

end OrderedMap

end SpanRules
