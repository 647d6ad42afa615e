import SpanRules.Proofs.Source.Token
import SpanRules.Proofs.Text.Lines

/-! Where the tokens of a source stand. Main statement: scanning loses nothing but blanks, and every
token of a source without its comments is found in the source itself, in the line and column that
the token holds. -/
namespace SpanRules

/-- A text is some pieces in their order, none of them empty, with nothing but blanks before,
between and after them. -/
inductive Text.Interleaves : Text → List Text → Prop
  | nil : Interleaves [] []
  | blank {b t us} : isBlank b = true → Interleaves t us → Interleaves (b :: t) us
  | piece {u t us} : u ≠ [] → Interleaves t us → Interleaves (u ++ t) (u :: us)

/-- A token stands in a source where its place says. Lines end at line feeds, and lines and columns
count from one. -/
def SourceToken.StandsIn (t : SourceToken) (source : Text) : Prop :=
  ∃ l c line, t.start = ⟨l + 1, c + 1⟩ ∧ (source.splitOn 10)[l]? = some line ∧
    t.text <+: line.drop c

/-- A place is the one where `rest` is left of a source. -/
def Place.Leaves (p : Place) (source rest : Text) : Prop :=
  ∃ l c, p = ⟨l + 1, c + 1⟩ ∧
    ((source.splitOn 10).drop l).modifyHead (·.drop c) = rest.splitOn 10

namespace Text
variable {source t u line : Text} {l : Lexeme}

theorem interleaves_solidLexemes (t : Text) : t.Interleaves (t.solidLexemes.map (·.text)) := by
  induction t using lexeme_induction with
  | nil => exact .nil
  | cons b t rest hrest ih =>
    have hgenuine := Lexeme.genuine_first b t
    rw [solidLexemes, lexemes_of_first rfl hrest, hrest]
    generalize Lexeme.first b t = l at hgenuine
    by_cases hkind : l.kind = .blank
    · cases hgenuine with
      | blank hblank =>
        rw [List.filter_cons_of_neg (by simp)]
        exact .blank hblank ih
      | _ => cases hkind
    · rw [List.filter_cons_of_pos (by simpa using hkind)]
      exact .piece hgenuine.ne_nil ih

end Text

namespace Place
variable {p : Place} {source rest t : Text} {b : UInt8}

theorem leaves_start (h : source ≠ []) : (start source).Leaves source source := by
  refine ⟨0, 0, by simp [start, h], ?_⟩
  obtain ⟨v, vs, hvs⟩ := Text.exists_splitOn_eq_cons 10 source
  rw [hvs]
  rfl

/-- Reading a byte that is not the last moves on by a column, or to the next line after a line
feed. -/
theorem Leaves.next (h : p.Leaves source (b :: rest)) : (p.next b false).Leaves source rest := by
  obtain ⟨l, c, rfl, hleft⟩ := h
  obtain ⟨v, vs, hvs⟩ := Text.exists_splitOn_eq_cons 10 rest
  by_cases hb : b = byte '\n'
  · subst hb
    refine ⟨l + 1, 0, rfl, ?_⟩
    have htail := congrArg List.tail hleft
    rw [Text.splitOn_cons_self, List.tail_modifyHead, List.tail_drop, List.tail_cons] at htail
    rw [htail, hvs]
    rfl
  · refine ⟨l, c + 1, by simp [Place.next, hb], ?_⟩
    rw [Text.splitOn_cons_of_ne hb, hvs] at hleft
    rw [hvs]
    cases hlines : (source.splitOn 10).drop l with
    | nil => simp [hlines] at hleft
    | cons line lines =>
      rw [hlines, List.modifyHead_cons, List.modifyHead_cons] at hleft
      obtain ⟨hline, rfl⟩ := List.cons.inj hleft
      rw [List.modifyHead_cons, ← List.drop_drop, hline]
      rfl

theorem Leaves.advance (h : p.Leaves source (t ++ rest)) :
    (p.advance false t).Leaves source rest := by
  induction t generalizing p with
  | nil => exact h
  | cons b t ih => exact ih h.next

end Place

namespace SourceToken
variable {source rest : Text} {p : Place} {t : SourceToken}

/-- A piece that stays within its line stands at the place where it is left to read. -/
theorem standsIn_of_leaves (hp : t.start.Leaves source (t.text ++ rest))
    (hfeed : 10 ∉ t.text) : t.StandsIn source := by
  obtain ⟨l, c, hstart, hleft⟩ := hp
  obtain ⟨v, vs, hvs⟩ := Text.exists_splitOn_eq_cons 10 rest
  rw [Text.splitOn_append hfeed hvs] at hleft
  cases hlines : (source.splitOn 10).drop l with
  | nil => simp [hlines] at hleft
  | cons line lines =>
    rw [hlines, List.modifyHead_cons] at hleft
    refine ⟨l, c, line, hstart, ?_, (List.cons.inj hleft).1 ▸ List.prefix_append _ _⟩
    rw [← List.head?_drop, hlines, List.head?_cons]

theorem standsIn_of_mem_place (hp : p.Leaves source rest) (ht : t ∈ place p rest.lexemes)
    (hkind : t.kind ≠ .finish) : t.StandsIn source := by
  induction rest using Text.lexeme_induction generalizing p with
  | nil =>
    rw [List.mem_singleton.1 ht] at hkind
    exact absurd rfl hkind
  | cons b u rest hrest ih =>
    have hgenuine := Lexeme.genuine_first b u
    rw [Text.lexemes_of_first rfl hrest] at ht
    rw [hrest] at hp
    generalize Lexeme.first b u = l at hgenuine hp ht
    -- The place after the lexeme only counts if something follows it.
    have hlater : t ∈ place (p.advance (Text.lexemes rest).isEmpty l.text) (Text.lexemes rest) →
        t.StandsIn source := by
      intro hmem
      cases hlexemes : Text.lexemes rest with
      | nil =>
        rw [hlexemes] at hmem
        rw [List.mem_singleton.1 hmem] at hkind
        exact absurd rfl hkind
      | cons m ms =>
        rw [hlexemes, List.isEmpty_cons, ← hlexemes] at hmem
        exact ih hp.advance hmem
    simp only [place] at ht
    split at ht
    · exact hlater ht
    · rename_i hblank
      rcases List.mem_cons.1 ht with rfl | ht
      · exact standsIn_of_leaves hp (hgenuine.feed_not_mem hblank)
      · exact hlater ht

theorem standsIn_of_mem_sourceTokens (ht : t ∈ source.sourceTokens) (hkind : t.kind ≠ .finish) :
    t.StandsIn source := by
  cases source with
  | nil =>
    rw [List.mem_singleton.1 ht] at hkind
    exact absurd rfl hkind
  | cons b u => exact standsIn_of_mem_place (Place.leaves_start (List.cons_ne_nil b u)) ht hkind

end SourceToken

namespace Text
variable {source line : Text}

/-- The lines without comments, and the empty one after the last line feed. -/
theorem splitOn_stripComments (source : Text) :
    splitOn 10 source.stripComments = source.lines.map beforeComment ++ [[]] := by
  have hfeed : ∀ line ∈ source.lines, byte '\n' ∉ line := fun _ => feed_not_mem_of_mem_lines
  unfold stripComments
  generalize source.lines = lines at hfeed
  induction lines with
  | nil => rfl
  | cons line lines ih =>
    obtain ⟨hline, hlines⟩ := List.forall_mem_cons.1 hfeed
    have hbegin : beforeComment line <+: line := beforeComment_prefix line
    have hbefore : byte '\n' ∉ beforeComment line := fun h => hline (hbegin.subset h)
    rw [List.flatMap_cons, List.append_assoc, List.singleton_append]
    refine (splitOn_append_cons hbefore).trans ?_
    rw [List.map_cons, List.cons_append]
    exact congrArg _ (ih hlines)

/-- A line without its comment is the beginning of the line. -/
theorem exists_line_of_stripComments {l : Nat}
    (h : (splitOn 10 source.stripComments)[l]? = some line) (hne : line ≠ []) :
    ∃ whole, (splitOn 10 source)[l]? = some whole ∧ line <+: whole := by
  rw [splitOn_stripComments, List.getElem?_append] at h
  split at h
  · rw [List.getElem?_map, Option.map_eq_some_iff] at h
    obtain ⟨whole, hwhole, rfl⟩ := h
    obtain ⟨piece, hpiece, hbegin⟩ := exists_piece_of_lines hwhole
    have hbefore : beforeComment whole <+: whole := beforeComment_prefix whole
    exact ⟨piece, hpiece, hbefore.trans hbegin⟩
  · exact absurd (List.mem_singleton.1 (List.mem_of_getElem? h)) hne

end Text

namespace SourceToken
variable {source : Text} {t : SourceToken}

/-- What stands in a source without its comments stands in the source. -/
theorem StandsIn.of_stripComments (ht : t.StandsIn source.stripComments) (hne : t.text ≠ []) :
    t.StandsIn source := by
  obtain ⟨l, c, line, hstart, hline, hbegin⟩ := ht
  have hnonempty : line ≠ [] := by
    rintro rfl
    exact hne (List.prefix_nil.1 (List.drop_nil ▸ hbegin))
  obtain ⟨whole, hwhole, hrest⟩ := Text.exists_line_of_stripComments hline hnonempty
  refine ⟨l, c, whole, hstart, hwhole, hbegin.trans ?_⟩
  obtain ⟨rest, rfl⟩ := hrest
  rw [List.drop_append]
  exact List.prefix_append _ _

end SourceToken

/-- Scanning ends and loses nothing but blanks, and the places of the tokens of a source without
its comments are places in the source itself. -/
theorem Text.sourceTokens_faithful :
    (∀ source : Text, ∃ ts finish, source.sourceTokens = ts ++ [finish] ∧
      finish.kind = .finish ∧ (∀ t ∈ ts, t.kind ≠ .finish) ∧
      source.Interleaves (ts.map (·.text))) ∧
    (∀ source : Text, ∀ t ∈ source.stripComments.sourceTokens,
      t.kind ≠ .finish → t.StandsIn source) := by
  constructor
  · intro source
    obtain ⟨ts, finish, hsource, hfinish, hts⟩ := SourceToken.exists_finish source
    refine ⟨ts, finish, hsource, hfinish, ?_, ?_⟩
    · intro t ht
      exact SourceToken.kind_ne_finish_of_genuine (SourceToken.genuine_of_mem hts ht)
    · have htexts : ts.map (·.text) = source.solidLexemes.map (·.text) := by
        rw [← hts, List.map_map]
        rfl
      rw [htexts]
      exact interleaves_solidLexemes source
  · intro source t ht hkind
    obtain ⟨ts, finish, hsource, hfinish, hts⟩ := SourceToken.exists_finish source.stripComments
    refine (SourceToken.standsIn_of_mem_sourceTokens ht hkind).of_stripComments ?_
    rw [hsource, List.mem_append, List.mem_singleton] at ht
    rcases ht with ht | rfl
    · exact (SourceToken.genuine_of_mem hts ht).ne_nil
    · exact absurd hfinish hkind

end SpanRules
