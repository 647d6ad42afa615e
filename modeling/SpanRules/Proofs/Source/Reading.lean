import Mathlib.Data.List.Forall2
import SpanRules.Pattern.Reading

/-! Taking successful readings apart. -/
namespace SpanRules.Reading
variable {ε α β : Type}

theorem ok_bind (a : α) (f : α → Except ε β) : (.ok a >>= f) = f a := rfl

theorem bind_eq_ok_iff {r : Except ε α} {f : α → Except ε β} {b : β} :
    (r >>= f) = .ok b ↔ ∃ a, r = .ok a ∧ f a = .ok b := by
  cases r with
  | error e =>
    constructor
    · intro h
      cases h
    · rintro ⟨_, h, _⟩
      cases h
  | ok a =>
    constructor
    · intro h
      exact ⟨a, rfl, h⟩
    · rintro ⟨_, h, hb⟩
      cases h
      exact hb

theorem bind_pure_eq_ok_iff {r : Except ε α} {f : α → β} {b : β} :
    (r >>= fun a => pure (f a)) = .ok b ↔ ∃ a, r = .ok a ∧ f a = b := by
  rw [bind_eq_ok_iff]
  exact exists_congr fun a => and_congr_right fun _ => ⟨Except.ok.inj, congrArg Except.ok⟩

theorem mapM_eq_ok_iff {f : α → Except ε β} {xs : List α} {ys : List β} :
    xs.mapM f = .ok ys ↔ List.Forall₂ (fun x y => f x = .ok y) xs ys := by
  induction xs generalizing ys with
  | nil =>
    rw [List.mapM_nil, List.forall₂_nil_left_iff]
    constructor
    · intro h
      exact (Except.ok.inj h).symm
    · intro h
      exact congrArg Except.ok h.symm
  | cons x xs ih =>
    rw [List.mapM_cons, bind_eq_ok_iff, List.forall₂_cons_left_iff]
    apply exists_congr
    intro y
    simp only [bind_eq_ok_iff, ih]
    constructor
    · rintro ⟨h, zs, hzs, heq⟩
      exact ⟨zs, h, hzs, (Except.ok.inj heq).symm⟩
    · rintro ⟨zs, h, hzs, heq⟩
      exact ⟨h, zs, hzs, congrArg Except.ok heq.symm⟩

end SpanRules.Reading
