import SpanRules.Proofs.Program.RoundTrip
import SpanRules.Proofs.Statement.Acceptance

/-! Reading programs accepts their grammar: statements, of which some may be empty, with semicolons
between them, and no text that is not terminated. -/
namespace SpanRules.Program
variable {r : Resources} {source : Text} {lines : LineReader} {ls : List Lexeme} {p : Program}

/-- The lexemes of a program. Between two semicolons there is a statement or nothing. -/
def Derives (lines : LineReader) (ls : List Lexeme) (p : Program) : Prop :=
  List.Forall₂ (Statement.Derives lines) ((ls.splitOn (.mark ';')).filter (· ≠ [])) p

theorem exists_forall₂_iff {α β : Type} {R : α → β → Prop} {xs : List α} :
    (∃ ys, List.Forall₂ R xs ys) ↔ ∀ x ∈ xs, ∃ y, R x y := by
  induction xs with
  | nil => exact ⟨fun _ => List.forall_mem_nil _, fun _ => ⟨[], .nil⟩⟩
  | cons x xs ih =>
    rw [List.forall_mem_cons, ← ih]
    constructor
    · rintro ⟨_, h⟩
      obtain ⟨y, ys, hy, hys, rfl⟩ := List.forall₂_cons_left_iff.1 h
      exact ⟨⟨y, hy⟩, ys, hys⟩
    · rintro ⟨⟨y, hy⟩, ys, hys⟩
      exact ⟨y :: ys, .cons hy hys⟩

theorem exists_derives_iff : (∃ p, Derives lines ls p) ↔
    ∀ part ∈ ls.splitOn (.mark ';'), part ≠ [] → ∃ st, Statement.Derives lines part st := by
  unfold Derives
  rw [exists_forall₂_iff]
  simp [List.mem_filter]

/-- No lexeme of a program is a text that is not terminated. -/
theorem Derives.finished (h : Derives lines ls p) : ∀ l ∈ ls, l.kind ≠ .unterminated := by
  have hparts : ∀ part ∈ ls.splitOn (.mark ';'), ∀ l ∈ part, l.kind ≠ .unterminated := by
    intro part hpart l hl
    have hne : part ≠ [] := List.ne_nil_of_mem hl
    obtain ⟨st, hst⟩ := exists_derives_iff.1 ⟨p, h⟩ part hpart hne
    exact hst.finished l hl
  have hjoin : [Lexeme.mark ';'].intercalate (ls.splitOn (.mark ';')) = ls :=
    List.intercalate_splitOn _
  rw [← hjoin]
  exact forall_mem_intercalate (by decide) hparts

/-- A program is read from a source exactly if it is derived from its lexemes. -/
theorem parse?_eq_ok_iff_derives : parse? r source = .ok p ↔
    Derives r.readLines source.stripComments.solidLexemes p := by
  have hsegments : ∀ s ∈ source.stripComments.segments.filter (! ·.tokens.isEmpty),
      s.tokens ≠ [] ∧ NoneEmpty s.tokens := by
    intro s hs
    obtain ⟨hs, hne⟩ := List.mem_filter.1 hs
    refine ⟨by simpa using hne, fun t ht => ?_⟩
    exact (Text.tidy_of_mem_segments hs ht).genuine.ne_nil
  have hparts : (source.stripComments.solidLexemes.splitOn (.mark ';')).filter (· ≠ []) =
      (source.stripComments.segments.filter (! ·.tokens.isEmpty)).map
        fun s => s.tokens.map SourceToken.lexeme := by
    rw [← Text.map_lexeme_segments, List.filter_map]
    congr 1
    apply List.filter_congr
    intro s _
    rw [Bool.eq_iff_iff]
    simp
  rw [parse?_eq_ok_iff, ofSegments?, Reading.mapM_eq_ok_iff, Derives, hparts,
    List.forall₂_map_left_iff]
  constructor
  · intro h
    refine ((List.forall₂_and_left _ _).2 ⟨hsegments, h⟩).imp ?_
    rintro s st ⟨⟨hne, htexts⟩, h⟩
    exact (Statement.ofSegment?_iff_derives hne htexts).1 h
  · intro h
    refine ((List.forall₂_and_left _ _).2 ⟨hsegments, h⟩).imp ?_
    rintro s st ⟨⟨hne, htexts⟩, h⟩
    exact (Statement.ofSegment?_iff_derives hne htexts).2 h

/-- A source is read as a program exactly if it has no text that is not terminated, outside
comments, and every statement between its semicolons is derived by the grammar. The program is then
the list of these statements. Where regular expressions are used, nothing is derived and nothing is
read. -/
theorem parse?_accepts_grammar (r : Resources) (source : Text) :
    let ls := source.stripComments.solidLexemes
    ((∃ p, parse? r source = .ok p) ↔ (∀ l ∈ ls, l.kind ≠ .unterminated) ∧
      ∀ part ∈ ls.splitOn (.mark ';'), part ≠ [] → ∃ st, Statement.Derives r.readLines part st) ∧
    (∀ p, parse? r source = .ok p ↔ Derives r.readLines ls p) ∧
    ((∃ l ∈ ls, l.kind = .unterminated) → ∃ e, parse? r source = .error e) := by
  intro ls
  have hexists : (∃ p, parse? r source = .ok p) ↔ (∀ l ∈ ls, l.kind ≠ .unterminated) ∧
      ∀ part ∈ ls.splitOn (.mark ';'), part ≠ [] →
        ∃ st, Statement.Derives r.readLines part st := by
    simp only [parse?_eq_ok_iff_derives, ← exists_derives_iff]
    constructor
    · rintro ⟨p, hp⟩
      exact ⟨hp.finished, p, hp⟩
    · rintro ⟨-, hp⟩
      exact hp
  refine ⟨hexists, fun p => parse?_eq_ok_iff_derives, ?_⟩
  rintro ⟨l, hl, hkind⟩
  cases hparse : parse? r source with
  | error e => exact ⟨e, rfl⟩
  | ok p => exact absurd hkind ((hexists.1 ⟨p, hparse⟩).1 l hl)

end SpanRules.Program
