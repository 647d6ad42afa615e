/-! Strict total orders, and the byte order of texts. -/
namespace SpanRules

/-- Of two different elements exactly one is the smaller. -/
class StrictTotal (α : Type) [LT α] : Prop where
  irrefl (a : α) : ¬ a < a
  trans {a b c : α} : a < b → b < c → a < c
  connected (a b : α) : a < b ∨ a = b ∨ b < a

namespace StrictTotal
variable {α : Type} [LT α] [StrictTotal α]

theorem asymm {a b : α} (h : a < b) : ¬ b < a :=
  fun h' => irrefl a (trans h h')

theorem eq_of_not_lt {a b : α} (h : ¬ a < b) (h' : ¬ b < a) : a = b := by
  rcases connected a b with h1 | h1 | h1
  · exact absurd h1 h
  · exact h1
  · exact absurd h1 h'

end StrictTotal

instance : StrictTotal Nat where
  irrefl := Nat.lt_irrefl
  trans := Nat.lt_trans
  connected := Nat.lt_trichotomy

/-- Lists of bytes are compared byte by byte, a beginning before its extensions. -/
instance : StrictTotal (List UInt8) where
  irrefl := List.lt_irrefl
  trans := List.lt_trans
  connected a b := by
    by_cases h : a < b
    · exact .inl h
    · by_cases h' : b < a
      · exact .inr (.inr h')
      · exact .inr (.inl (List.le_antisymm (List.not_lt.1 h') (List.not_lt.1 h)))

end SpanRules
