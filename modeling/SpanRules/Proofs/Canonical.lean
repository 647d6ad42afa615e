import Mathlib.Data.List.Sort
import SpanRules.OrderedMap
import SpanRules.OrderedSet

/-! Sets with the same elements are the same value, and so are maps with the same entries. -/
namespace SpanRules

instance {α : Type} [LT α] [StrictTotal α] : Std.Asymm ((· < ·) : α → α → Prop) :=
  ⟨fun _ _ => StrictTotal.asymm⟩

namespace OrderedSet
variable {α : Type} [LT α] [StrictTotal α]

theorem ext_mem {s t : OrderedSet α} (h : ∀ x, x ∈ s ↔ x ∈ t) : s = t :=
  ext_toList (s.sorted.eq_of_mem_iff t.sorted h)

omit [StrictTotal α] in
theorem isEmpty_iff {s : OrderedSet α} : s.isEmpty = true ↔ s = empty := by
  rw [isEmpty, List.isEmpty_iff]
  constructor
  · intro h
    exact ext_toList h
  · intro h
    rw [h]
    rfl

omit [StrictTotal α] in
theorem isEmpty_eq_false_iff {s : OrderedSet α} : s.isEmpty = false ↔ ∃ x, x ∈ s :=
  List.isEmpty_eq_false_iff_exists_mem

omit [StrictTotal α] in
theorem ne_empty_iff {s : OrderedSet α} : s ≠ empty ↔ ∃ x, x ∈ s := by
  rw [← isEmpty_eq_false_iff, Bool.eq_false_iff, Ne, Ne, isEmpty_iff]

end OrderedSet

namespace OrderedMap
variable {κ : Type} [LT κ] [DecidableEq κ] [StrictTotal κ] {β : Type}

theorem findIn_eq_some_iff {l : List (κ × β)} (h : l.Pairwise (·.1 < ·.1)) {k : κ} {v : β} :
    findIn k l = some v ↔ (k, v) ∈ l := by
  induction l with
  | nil => simp [findIn]
  | cons e l ih =>
    obtain ⟨k', v'⟩ := e
    have hl := List.pairwise_cons.1 h
    by_cases hk : k = k'
    · subst hk
      have hout : (k, v) ∉ l := fun hmem => StrictTotal.irrefl k (hl.1 _ hmem)
      simp [findIn, hout, eq_comm]
    · simp [findIn, hk, ih hl.2]

theorem find?_eq_some_iff {m : OrderedMap κ β} {k : κ} {v : β} :
    m.find? k = some v ↔ (k, v) ∈ m.toList :=
  findIn_eq_some_iff m.sorted

theorem ext_find? {m n : OrderedMap κ β} (h : ∀ k, m.find? k = n.find? k) : m = n := by
  have : Std.Asymm fun e f : κ × β => e.1 < f.1 := ⟨fun _ _ => StrictTotal.asymm⟩
  refine ext_toList (m.sorted.eq_of_mem_iff n.sorted ?_)
  rintro ⟨k, v⟩
  rw [← find?_eq_some_iff, ← find?_eq_some_iff, h]

omit [StrictTotal κ] in
theorem contains_iff {m : OrderedMap κ β} {k : κ} :
    m.contains k = true ↔ ∃ v, m.find? k = some v := Option.isSome_iff_exists

end OrderedMap

end SpanRules
