import SpanRules.Proofs.Source.Scan
import SpanRules.Source.Token

/-! The tokens of a source as lexemes without places, and the segments of a list of printed
statements. -/
namespace SpanRules

def Lexeme.mark (c : Char) : Lexeme := ⟨.symbol, [byte c]⟩

def Lexeme.keyword (w : String) : Lexeme := ⟨.word, ascii w⟩

namespace SourceToken

def lexeme (t : SourceToken) : Lexeme := ⟨t.kind, t.text⟩

theorem isSymbol_iff {t : SourceToken} {c : Char} : t.isSymbol c = true ↔ t.lexeme = .mark c := by
  simp [isSymbol, lexeme, Lexeme.mark]

/-- What is known of the tokens of a statement in a source without comments. -/
structure Tidy (t : SourceToken) : Prop where
  genuine : t.lexeme.Genuine
  blank : t.kind ≠ .blank
  quiet : t.text.Uncommented
  semicolon : t.isSymbol ';' = false

/-- Where a token stands does not matter. -/
theorem Tidy.congr {t u : SourceToken} (h : t.Tidy) (heq : t.lexeme = u.lexeme) : u.Tidy := by
  obtain ⟨hkind, htext⟩ := Lexeme.mk.inj heq
  refine ⟨heq ▸ h.genuine, hkind ▸ h.blank, htext ▸ h.quiet, ?_⟩
  rw [isSymbol, ← hkind, ← htext]
  exact h.semicolon

theorem map_lexeme_place (p : Place) (ls : List Lexeme) :
    (place p ls).map lexeme = ls.filter (·.kind != .blank) ++ [⟨.finish, []⟩] := by
  induction ls generalizing p with
  | nil => rfl
  | cons l ls ih =>
    simp only [place]
    split
    · rename_i hl
      rw [ih, List.filter_cons_of_neg (by simp [hl])]
    · rename_i hl
      rw [List.map_cons, ih, List.filter_cons_of_pos (by simpa using hl)]
      rfl

/-- The end comes last and only there; the tokens before it are lexemes of the source. -/
theorem exists_finish (source : Text) :
    ∃ ts finish, source.sourceTokens = ts ++ [finish] ∧ finish.kind = .finish ∧
      ts.map lexeme = source.solidLexemes := by
  have hlexemes := map_lexeme_place (.start source) source.lexemes
  obtain ⟨ts, us, hts, hsolid, hus⟩ := List.map_eq_append_iff.1 hlexemes
  obtain ⟨finish, rfl, hfinish⟩ := List.map_eq_singleton_iff.1 hus
  exact ⟨ts, finish, hts, congrArg Lexeme.kind hfinish, hsolid⟩

section
variable {source : Text} {t : SourceToken} {ts : List SourceToken}

theorem kind_ne_finish_of_genuine (h : t.lexeme.Genuine) : t.kind ≠ .finish := by
  intro hkind
  generalize hl : t.lexeme = l at h
  have hfinish : l.kind = .finish := hl ▸ hkind
  cases h <;> cases hfinish

theorem genuine_of_mem (hts : ts.map lexeme = source.solidLexemes) (ht : t ∈ ts) :
    t.lexeme.Genuine :=
  Text.genuine_of_mem_lexemes (List.mem_of_mem_filter (hts ▸ List.mem_map_of_mem ht))

/-- Every token but the end is a lexeme of the source. -/
theorem genuine_of_mem_sourceTokens (ht : t ∈ source.sourceTokens) (hkind : t.kind ≠ .finish) :
    t.lexeme.Genuine := by
  obtain ⟨ts, finish, hsource, hfinish, hts⟩ := exists_finish source
  rw [hsource, List.mem_append, List.mem_singleton] at ht
  rcases ht with ht | rfl
  · exact genuine_of_mem hts ht
  · exact absurd hfinish hkind

end

end SourceToken

namespace Segment
variable {isStop : SourceToken → Bool} {stop t u : SourceToken} {ts us : List SourceToken}
  {s : Segment}

theorem exists_split_eq_cons (isStop : SourceToken → Bool) (stop : SourceToken)
    (ts : List SourceToken) : ∃ s ss, split isStop stop ts = s :: ss := by
  induction ts with
  | nil => exact ⟨_, _, rfl⟩
  | cons t ts ih =>
    obtain ⟨s, ss, hss⟩ := ih
    rw [split]
    split
    · exact ⟨_, _, rfl⟩
    · exact ⟨_, _, by rw [hss]; rfl⟩

theorem mem_of_mem_split (hs : s ∈ split isStop stop ts) (ht : t ∈ s.tokens) :
    t ∈ ts ∧ isStop t = false := by
  induction ts generalizing s with
  | nil =>
    rw [split, List.mem_singleton] at hs
    subst hs
    cases ht
  | cons u ts ih =>
    rw [split] at hs
    split at hs
    · rcases List.mem_cons.1 hs with rfl | hs
      · cases ht
      · exact (ih hs ht).imp_left (List.mem_cons_of_mem _)
    · rename_i hu
      obtain ⟨s', ss, hss⟩ := exists_split_eq_cons isStop stop ts
      rw [hss, pushFront] at hs
      rcases List.mem_cons.1 hs with rfl | hs
      · rcases List.mem_cons.1 ht with rfl | ht
        · exact ⟨List.mem_cons_self, by simpa using hu⟩
        · exact (ih (hss ▸ List.mem_cons_self) ht).imp_left (List.mem_cons_of_mem _)
      · exact (ih (hss ▸ List.mem_cons_of_mem _ hs) ht).imp_left (List.mem_cons_of_mem _)

theorem stop_of_mem_split (hs : s ∈ split isStop stop ts) : s.stop = stop ∨ isStop s.stop = true := by
  induction ts generalizing s with
  | nil =>
    rw [split, List.mem_singleton] at hs
    exact .inl (congrArg Segment.stop hs)
  | cons u ts ih =>
    rw [split] at hs
    split at hs
    · rename_i hu
      rcases List.mem_cons.1 hs with rfl | hs
      · exact .inr hu
      · exact ih hs
    · obtain ⟨s', ss, hss⟩ := exists_split_eq_cons isStop stop ts
      rw [hss, pushFront] at hs
      rcases List.mem_cons.1 hs with rfl | hs
      · exact ih (s := s') (hss ▸ List.mem_cons_self)
      · exact ih (hss ▸ List.mem_cons_of_mem _ hs)

/-- Dividing tokens divides their lexemes in the same places. -/
theorem map_lexeme_splitOnP (isStop : Lexeme → Bool) (stop : SourceToken) (ts : List SourceToken) :
    (split (fun t => isStop t.lexeme) stop ts).map (fun s => s.tokens.map SourceToken.lexeme) =
      (ts.map SourceToken.lexeme).splitOnP isStop := by
  induction ts with
  | nil => rfl
  | cons t ts ih =>
    rw [split, List.map_cons, List.splitOnP_cons_eq_if_modifyHead, ← ih]
    by_cases hstop : isStop t.lexeme = true
    · rw [if_pos hstop, if_pos hstop]
      rfl
    · obtain ⟨s, ss, hss⟩ := exists_split_eq_cons (fun t => isStop t.lexeme) stop ts
      rw [if_neg hstop, if_neg hstop, hss]
      rfl

theorem map_lexeme_split (c : Char) (stop : SourceToken) (ts : List SourceToken) :
    (split (·.isSymbol c) stop ts).map (fun s => s.tokens.map SourceToken.lexeme) =
      (ts.map SourceToken.lexeme).splitOn (.mark c) := by
  have hstop : (fun t : SourceToken => t.isSymbol c) = fun t => t.lexeme == .mark c := by
    funext t
    rw [Bool.eq_iff_iff, SourceToken.isSymbol_iff, beq_iff_eq]
  rw [hstop]
  exact map_lexeme_splitOnP (· == .mark c) stop ts

end Segment

namespace Text
variable {source : Text} {s : Segment} {t : SourceToken}

theorem map_lexeme_dropLast_sourceTokens (source : Text) :
    source.sourceTokens.dropLast.map SourceToken.lexeme = source.solidLexemes := by
  rw [List.map_dropLast, sourceTokens, SourceToken.map_lexeme_place, List.dropLast_concat,
    solidLexemes]

theorem lexeme_mem_of_mem_segments (hs : s ∈ source.segments) (ht : t ∈ s.tokens) :
    t.lexeme ∈ source.solidLexemes ∧ t.isSymbol ';' = false := by
  obtain ⟨hmem, hstop⟩ := Segment.mem_of_mem_split hs ht
  refine ⟨?_, hstop⟩
  rw [← map_lexeme_dropLast_sourceTokens]
  exact List.mem_map_of_mem hmem

/-- Segments stop at semicolons and at the end. -/
theorem stop_kind_of_mem_segments (hs : s ∈ source.segments) :
    s.stop.kind = .symbol ∨ s.stop.kind = .finish := by
  rcases Segment.stop_of_mem_split hs with hstop | hstop
  · obtain ⟨ts, finish, hsource, hfinish, -⟩ := SourceToken.exists_finish source
    rw [hstop, hsource, List.getLastD_concat]
    exact .inr hfinish
  · rw [SourceToken.isSymbol_iff] at hstop
    exact .inl (congrArg Lexeme.kind hstop)

theorem tidy_of_mem_segments (hs : s ∈ source.stripComments.segments) (ht : t ∈ s.tokens) :
    t.Tidy := by
  obtain ⟨hmem, hstop⟩ := lexeme_mem_of_mem_segments hs ht
  obtain ⟨hlexeme, hblank⟩ := List.mem_filter.1 hmem
  have hkind : t.kind ≠ .blank := by simpa [SourceToken.lexeme] using hblank
  have hquiet : t.text.Uncommented :=
    List.IsChain.infix (uncommented_stripComments source) (infix_of_mem_lexemes hlexeme)
  exact ⟨genuine_of_mem_lexemes hlexeme, hkind, hquiet, hstop⟩

theorem map_lexeme_segments (source : Text) :
    source.segments.map (fun s => s.tokens.map SourceToken.lexeme) =
      source.solidLexemes.splitOn (.mark ';') := by
  rw [← map_lexeme_dropLast_sourceTokens]
  exact Segment.map_lexeme_split ';' _ _

section
variable {α : Type} {xs : List α} {text : α → Text} {lexemes : α → List Lexeme}

/-- Printed statements, each with a semicolon and its line, have no comments. -/
theorem stripComments_statements (h : ∀ x ∈ xs, (text x).Prints (lexemes x)) (u : Text) :
    stripComments (xs.flatMap (fun x => text x ++ ascii ";\n") ++ u) =
      xs.flatMap (fun x => text x ++ ascii ";\n") ++ stripComments u := by
  have hlines : (xs.flatMap fun x => text x ++ ascii ";\n") =
      (xs.map fun x => text x ++ [byte ';']).flatMap fun t => t ++ [byte '\n'] := by
    rw [List.flatMap_map]
    apply List.flatMap_congr
    intro x _
    rw [List.append_assoc]
    rfl
  have hquiet : ∀ t ∈ xs.map fun x => text x ++ [byte ';'], t.Quiet := by
    intro t ht
    obtain ⟨x, hx, rfl⟩ := List.mem_map.1 ht
    exact (h x hx).quiet.append (by decide) (.inr (by decide))
  rw [hlines]
  apply stripComments_lines (fun t ht => (hquiet t ht).uncommented) fun t ht => (hquiet t ht).feed
  intro t ht
  obtain ⟨x, _, rfl⟩ := List.mem_map.1 ht
  rw [List.getLast?_concat]
  decide

/-- The segments of printed statements, before those of what follows. -/
theorem segments_statements (h : ∀ x ∈ xs, (text x).Prints (lexemes x))
    (hsemi : ∀ x ∈ xs, .mark ';' ∉ lexemes x) (u : Text) :
    (segments (xs.flatMap (fun x => text x ++ ascii ";\n") ++ u)).map
      (fun s => s.tokens.map SourceToken.lexeme) =
        xs.map lexemes ++ u.solidLexemes.splitOn (.mark ';') := by
  rw [map_lexeme_segments]
  induction xs with
  | nil => rfl
  | cons x xs ih =>
    obtain ⟨hx, h⟩ := List.forall_mem_cons.1 h
    obtain ⟨hsemi', hsemi⟩ := List.forall_mem_cons.1 hsemi
    have hend : ∀ v, solidLexemes (ascii ";\n" ++ v) = .mark ';' :: solidLexemes v := fun v => rfl
    rw [List.flatMap_cons, List.append_assoc, List.append_assoc,
      hx.spells _ (by rintro b hb; cases hb; decide), hend,
      List.splitOn_append_cons_self_of_not_mem hsemi', ih h hsemi]
    rfl

end

end Text

end SpanRules
