import SpanRules.Order

/-! Spans of tokens and their order. -/
namespace SpanRules

/-- The tokens from `start` up to `stop` of a document, which is named by its place in a corpus. -/
structure Span where
  document : Nat
  start : Nat
  stop : Nat
  deriving DecidableEq, Inhabited

namespace Span

/-- Spans are ordered by document, then by first token, then by end. -/
instance : LT Span where
  lt s t := s.document < t.document ∨ (s.document = t.document ∧
    (s.start < t.start ∨ (s.start = t.start ∧ s.stop < t.stop)))

theorem lt_def {s t : Span} : s < t ↔ s.document < t.document ∨ (s.document = t.document ∧
    (s.start < t.start ∨ (s.start = t.start ∧ s.stop < t.stop))) := Iff.rfl

instance : DecidableLT Span := fun s t =>
  inferInstanceAs (Decidable (s.document < t.document ∨ (s.document = t.document ∧
    (s.start < t.start ∨ (s.start = t.start ∧ s.stop < t.stop)))))

instance : StrictTotal Span where
  irrefl s := by rw [lt_def]; omega
  trans {s t u} h h' := by rw [lt_def] at *; omega
  connected s t := by
    obtain ⟨d, b, e⟩ := s
    obtain ⟨d', b', e'⟩ := t
    simp only [lt_def, Span.mk.injEq]
    omega

def length (s : Span) : Nat := s.stop - s.start

def isEmpty (s : Span) : Bool := s.start == s.stop

/-- The span of the tokens from `b` up to `e`, counted from the start of a span. -/
def sub (s : Span) (b e : Nat) : Span := ⟨s.document, s.start + b, s.start + e⟩

def contains (s t : Span) : Bool :=
  s.document == t.document && s.start ≤ t.start && t.stop ≤ s.stop

def containsToken (s : Span) (i : Int) : Bool := s.start ≤ i && i < s.stop

/-- Whether one of two optional spans comes before the other; no span comes before every span. -/
def optionLt : Option Span → Option Span → Bool
  | none, some _ => true
  | some s, some t => s < t
  | _, none => false

/-- Whether a span contains another where both may be missing; a missing span contains only a
missing one. -/
def optionContains : Option Span → Option Span → Bool
  | none, none => true
  | some s, some t => s.contains t
  | _, _ => false

end Span

structure TokenRef where
  document : Nat
  index : Nat
  deriving DecidableEq, Inhabited

namespace TokenRef

instance : LT TokenRef where
  lt s t := s.document < t.document ∨ (s.document = t.document ∧ s.index < t.index)

theorem lt_def {s t : TokenRef} :
    s < t ↔ s.document < t.document ∨ (s.document = t.document ∧ s.index < t.index) := Iff.rfl

instance : DecidableLT TokenRef := fun s t =>
  inferInstanceAs (Decidable (s.document < t.document ∨
    (s.document = t.document ∧ s.index < t.index)))

instance : StrictTotal TokenRef where
  irrefl s := by rw [lt_def]; omega
  trans {s t u} h h' := by rw [lt_def] at *; omega
  connected s t := by
    obtain ⟨d, i⟩ := s
    obtain ⟨d', i'⟩ := t
    simp only [lt_def, TokenRef.mk.injEq]
    omega

end TokenRef

def Span.tokenRefs (s : Span) : List TokenRef :=
  (List.range' s.start s.length).map fun i => ⟨s.document, i⟩

end SpanRules
