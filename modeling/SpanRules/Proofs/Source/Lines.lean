import SpanRules.Proofs.Source.Scan
import SpanRules.Proofs.Text.Lines

/-! Scanning line by line. No lexeme but a blank goes beyond its line, and comments end with theirs,
so that the lexemes of a source are those of its lines. -/
namespace SpanRules.Text

theorem solidLexemes_append_feed (t u : Text) :
    (t ++ byte '\n' :: u).solidLexemes = t.solidLexemes ++ u.solidLexemes := by
  rw [solidLexemes, lexemes_append_feed, List.filter_append, List.filter_cons_of_neg (by decide)]
  rfl

theorem solidLexemes_stripComments (source : Text) :
    source.stripComments.solidLexemes =
      source.lines.flatMap fun line => (beforeComment line).solidLexemes := by
  unfold stripComments
  induction source.lines with
  | nil => rfl
  | cons line lines ih =>
    rw [List.flatMap_cons, List.append_assoc, List.singleton_append, solidLexemes_append_feed, ih,
      List.flatMap_cons]

/-- A line feed keeps two sources apart: what is scanned from one does not depend on the other. -/
theorem solidLexemes_stripComments_append (t u : Text) :
    (stripComments (t ++ byte '\n' :: u)).solidLexemes =
      t.stripComments.solidLexemes ++ u.stripComments.solidLexemes := by
  rw [solidLexemes_stripComments, solidLexemes_stripComments, solidLexemes_stripComments,
    lines_append_feed, List.flatMap_append]
  rcases map_dropReturn_splitOn t with h | h
  · rw [h]
  · rw [h, List.flatMap_append, List.flatMap_singleton, beforeComment]
    -- an empty line, which may come last, has no lexemes
    rw [show solidLexemes [] = [] from rfl, List.append_nil]

end SpanRules.Text
