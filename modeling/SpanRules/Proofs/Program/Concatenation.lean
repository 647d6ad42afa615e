import SpanRules.Proofs.Program.Acceptance
import SpanRules.Proofs.Source.Lines

/-! Sources that are put together. Main statement: with a semicolon on a line of its own between
them they are read as each of them is alone. -/
namespace SpanRules.Program
variable {lines : LineReader} {p : Program}

/-- A semicolon ends the statement before it. -/
theorem derives_append_iff {ls ms : List Lexeme} :
    Derives lines (ls ++ .mark ';' :: ms) p ↔
      ∃ q q', Derives lines ls q ∧ Derives lines ms q' ∧ p = q ++ q' := by
  unfold Derives
  rw [List.splitOn_append_cons_self, List.filter_append, forall₂_append_left_iff]

/-- Two sources with a semicolon on a line of its own between them are read exactly if each of them
is read alone, and give the statements of the first and then those of the second. -/
theorem parse?_append_iff (r : Resources) (a b : Text) (p : Program) :
    parse? r (a ++ ascii "\n;\n" ++ b) = .ok p ↔
      ∃ q q', parse? r a = .ok q ∧ parse? r b = .ok q' ∧ p = q ++ q' := by
  have hlexemes : (Text.stripComments (a ++ ascii "\n;\n" ++ b)).solidLexemes =
      a.stripComments.solidLexemes ++ .mark ';' :: b.stripComments.solidLexemes := by
    have hcut : a ++ ascii "\n;\n" ++ b =
        a ++ byte '\n' :: (ascii ";" ++ byte '\n' :: b) := by
      rw [List.append_assoc]
      rfl
    rw [hcut, Text.solidLexemes_stripComments_append, Text.solidLexemes_stripComments_append]
    rfl
  simp only [parse?_eq_ok_iff_derives]
  rw [hlexemes, derives_append_iff]

end SpanRules.Program
