import SpanRules.Layer.Basic

/-! An annotator for words with a capital letter. -/
namespace SpanRules.Layer

/-- The spans of the tokens whose first byte is a capital letter of ASCII. -/
def capitalSpans (l : Layer) : List Span :=
  (l.documents.mapIdx fun i d =>
    (d.tokens.zipIdx.filter fun e => e.1.word.head?.any fun b => 65 ≤ b && b ≤ 90).map
      fun e => (⟨i, e.2, e.2 + 1⟩ : Span)).flatten

/-- Adds every word with a capital letter at its start to the type `cap`. -/
def markCapitals (l : Layer) : Layer := l.addAllToType (ascii "cap") l.capitalSpans

/-- The name by which programs call for the annotator. -/
def capitalsName : Text := ascii "test-capitals"

end SpanRules.Layer
