import SpanRules.Layer.Basic

/-! Instances of a type by the place where they start. The scan over the ordered set finds what a
test of every instance would find. -/
namespace SpanRules

theorem dropWhile_lt_eq_filter {α : Type} [LT α] [DecidableLT α] [StrictTotal α] (a : α)
    {l : List α} (h : l.Pairwise (· < ·)) :
    l.dropWhile (fun x => decide (x < a)) = l.filter fun x => ! decide (x < a) := by
  induction l with
  | nil => rfl
  | cons b l ih =>
    have hb := List.pairwise_cons.1 h
    by_cases hba : b < a
    · simpa [hba] using ih hb.2
    · have hl : ∀ x ∈ l, ¬ x < a := fun x hx hxa => hba (StrictTotal.trans (hb.1 x hx) hxa)
      simp only [List.dropWhile_cons, List.filter_cons, hba, decide_false, Bool.not_false, if_true,
        Bool.false_eq_true, if_false, List.cons.injEq, true_and]
      exact (List.filter_eq_self.2 fun x hx => by simp [hl x hx]).symm

theorem takeWhile_eq_filter {α : Type} {r : α → α → Prop} {q : α → Bool} {l : List α}
    (h : l.Pairwise r) (hq : ∀ x ∈ l, ∀ y ∈ l, r x y → q y = true → q x = true) :
    l.takeWhile q = l.filter q := by
  induction l with
  | nil => rfl
  | cons b l ih =>
    have hb := List.pairwise_cons.1 h
    have ih := ih hb.2 fun x hx y hy =>
      hq x (List.mem_cons_of_mem _ hx) y (List.mem_cons_of_mem _ hy)
    cases hqb : q b with
    | true => simp [hqb, ih]
    | false =>
      -- Where the scan stops, no later element can pass.
      have hl : ∀ x ∈ l, q x = false := by
        intro x hx
        cases hqx : q x with
        | false => rfl
        | true =>
          have := hq b List.mem_cons_self x (List.mem_cons_of_mem _ hx) (hb.1 x hx) hqx
          simp [hqb] at this
      simpa [hqb] using hl

namespace Layer

theorem instancesAt_eq_filter (l : Layer) (type : Text) (d p : Nat) :
    l.instancesAt type d p = (l.instances type).toList.filter fun s =>
      s.document == d && s.start == p && decide (p ≤ s.stop) := by
  have hs := (l.instances type).sorted
  unfold instancesAt
  rw [dropWhile_lt_eq_filter _ hs, takeWhile_eq_filter (hs.filter _), List.filter_filter]
  · congr 1
    funext s
    rw [Bool.eq_iff_iff]
    simp only [Bool.and_eq_true, beq_iff_eq, Bool.not_eq_true', decide_eq_false_iff_not,
      Span.lt_def, decide_eq_true_eq]
    omega
  · intro x hx y hy hxy
    simp only [List.mem_filter, Bool.not_eq_true', decide_eq_false_iff_not, Span.lt_def,
      Bool.and_eq_true, beq_iff_eq] at *
    omega

/-- The scan finds the instances that start at a token and do not end before it. -/
theorem mem_instancesAt {l : Layer} {type : Text} {d p : Nat} {s : Span} :
    s ∈ l.instancesAt type d p ↔
      s ∈ l.instances type ∧ s.document = d ∧ s.start = p ∧ p ≤ s.stop := by
  rw [instancesAt_eq_filter, OrderedSet.mem_def]
  simp [and_assoc]

end Layer

end SpanRules
