import SpanRules.Proofs.Program.Statements
import SpanRules.Proofs.Source.PlainWord

/-! Names that were read, declared again in source form. A name between double quotes joins tokens to
what no single token can be: it may hold the mark of a comment, which ends the declaration inside
the quotes. -/
namespace SpanRules

namespace Lexeme
variable {b : UInt8} {t u : Text} {s : Bool}

theorem quotedPart_open_cons (hquote : b = byte '\'' → s = true)
    (h : (quotedPart (b == byte '\\') t).2 = false) : (quotedPart s (b :: t)).2 = false := by
  unfold quotedPart
  split
  · rfl
  · split
    · rename_i hclose
      have hs := hquote hclose.1
      simp [hs] at hclose
    · exact h

/-- Where the inside of a quoted text is cut off, the quotes stay open: every quote that belongs to
it has a backslash before it. -/
theorem quotedPart_open_of_cut (h : u <+: t.escapeQuotes) : (quotedPart s u).2 = false := by
  induction t generalizing s u with
  | nil =>
    have hu : u = [] := List.prefix_nil.1 h
    rw [hu]
    rfl
  | cons b t ih =>
    unfold Text.escapeQuotes at h
    cases u with
    | nil => rfl
    | cons c u =>
      split at h
      · obtain ⟨hc, h⟩ := List.cons_prefix_cons.1 h
        apply quotedPart_open_cons (by rw [hc]; exact fun hquote => absurd hquote (by decide))
        cases u with
        | nil => rfl
        | cons d u =>
          apply quotedPart_open_cons (by rw [hc]; exact fun _ => rfl)
          exact ih (List.cons_prefix_cons.1 h).2
      · rename_i hb
        obtain ⟨hc, h⟩ := List.cons_prefix_cons.1 h
        apply quotedPart_open_cons (by rw [hc]; exact fun hquote => absurd hquote hb)
        exact ih h

theorem kind_first_of_open (h : (quotedPart false t).2 = false) :
    (first (byte '\'') t).kind = .unterminated := by
  rw [first, if_neg (by decide), if_pos rfl]
  split
  · rename_i hpart
    rw [hpart] at h
    cases h
  · rfl

end Lexeme

namespace Text
variable {n t : Text} {ls : List Lexeme}

theorem uncommented_of_escapeQuotes (h : n.escapeQuotes.Uncommented) : n.Uncommented := by
  have hunescape := uncommented_unescapeQuotes h
  rwa [unescapeQuotes_escapeQuotes] at hunescape

theorem quoteIfNeeded_of_not_uncommented (h : ¬ n.Uncommented) : n.quoteIfNeeded = n.quote := by
  unfold quoteIfNeeded
  apply if_neg
  intro hword
  obtain ⟨-, hbytes, -, -⟩ := isPlainWord_iff.1 hword
  have hslashes : ascii "//" <:+: n := Classical.not_not.1 (mt uncommented_iff.2 h)
  have hslash : byte '/' ∈ n := hslashes.subset (by decide)
  rcases hbytes _ hslash with hb | hb
  · exact absurd hb (by decide)
  · exact absurd hb (by decide)

/-- The lexemes of a statement that a semicolon ends, with nothing after it. -/
theorem Prints.solidLexemes_semicolon (h : t.Prints ls) :
    (t ++ ascii ";").stripComments.solidLexemes = ls ++ [.mark ';'] := by
  have hdelimited : Delimited (ascii ";") := delimited_cons (t := []) rfl
  have hquiet : (t ++ ascii ";").Quiet := h.quiet.append (by decide) (.inr (by decide))
  rw [solidLexemes_stripComments_of_line hquiet.feed, dropReturn_concat_semicolon,
    beforeComment_of_uncommented hquiet.uncommented, h.spells _ hdelimited]
  rfl

/-- A text in quotes that holds the mark of a comment is scanned up to it, and has no end. -/
theorem exists_unterminated_quote (ht : t.PrintsApart ls) (hfeed : byte '\n' ∉ n)
    (hn : ¬ n.Uncommented) :
    ∃ l ∈ (t ++ n.quote ++ ascii ";").stripComments.solidLexemes, l.kind = .unterminated := by
  have hline : t ++ n.quote ++ ascii ";" =
      (t ++ [byte '\'']) ++ (n.escapeQuotes ++ ascii "';") := by
    unfold quote
    simp only [List.append_assoc, List.cons_append, List.nil_append]
    rfl
  have hlast : (t ++ [byte '\'']).getLast? = some (byte '\'') := List.getLast?_concat
  have hquiet : (t ++ [byte '\'']).Quiet := ht.quiet.append (by decide) (.inl ht.last)
  have hfeed' : byte '\n' ∉ t ++ n.quote ++ ascii ";" := by
    rw [hline]
    intro hmem
    rcases List.mem_append.1 hmem with hmem | hmem
    · exact hquiet.feed hmem
    · rcases List.mem_append.1 hmem with hmem | hmem
      · exact feed_not_mem_escapeQuotes hfeed hmem
      · exact absurd hmem (by decide)
  have hescaped : ¬ n.escapeQuotes.Uncommented := mt uncommented_of_escapeQuotes hn
  have hcut : beforeComment (t ++ n.quote ++ ascii ";") =
      t ++ byte '\'' :: beforeComment n.escapeQuotes := by
    rw [hline, beforeComment_append hquiet.uncommented (by rw [hlast]; decide),
      beforeComment_append_of_comment hescaped, List.append_assoc, List.singleton_append]
  have hinside : beforeComment n.escapeQuotes <+: n.escapeQuotes := beforeComment_prefix _
  have hopen : (Lexeme.first (byte '\'') (beforeComment n.escapeQuotes)).kind = .unterminated :=
    Lexeme.kind_first_of_open (Lexeme.quotedPart_open_of_cut hinside)
  obtain ⟨rest, -, hlexemes⟩ := lexemes_cons (byte '\'') (beforeComment n.escapeQuotes)
  refine ⟨_, ?_, hopen⟩
  rw [solidLexemes_stripComments_of_line hfeed', dropReturn_concat_semicolon, hcut, ht.spells,
    List.mem_append, solidLexemes, hlexemes]
  right
  apply List.mem_filter.2
  exact ⟨List.mem_cons_self, by rw [hopen]; rfl⟩

end Text

namespace Program
variable {r : Resources} {n : Text}

def declaration (n : Text) : Text := ascii "declareSpanType " ++ n.quoteIfNeeded ++ ascii ";"

theorem printsApart_declareSpanType :
    (ascii "declareSpanType ").PrintsApart [.keyword "declareSpanType"] :=
  ⟨by decide, by decide, fun _ => rfl⟩

theorem parse?_declaration (h : n.Nameable) :
    parse? r (declaration n) = .ok [.declareType n] := by
  have hprints := printsApart_declareSpanType.append h.prints
  have hderives : Statement.Derives r.readLines [.keyword "declareSpanType", n.nameLexeme]
      (.declareType n) := .declareType (Name.derives_nameLexeme n)
  apply parse?_eq_ok_iff_derives.2
  unfold declaration
  rw [hprints.solidLexemes_semicolon]
  exact (derives_statement_append_iff hderives (by simp)).2 (derives_nil_iff.2 rfl)

theorem exists_parse?_declaration_error (hfeed : byte '\n' ∉ n) (h : ¬ n.Uncommented) :
    ∃ e, parse? r (declaration n) = .error e := by
  have hopen := Text.exists_unterminated_quote printsApart_declareSpanType hfeed h
  rw [← Text.quoteIfNeeded_of_not_uncommented h] at hopen
  obtain ⟨l, hl, hkind⟩ := hopen
  cases hparse : parse? r (declaration n) with
  | error e => exact ⟨e, rfl⟩
  | ok p =>
    have hfinished := (parse?_eq_ok_iff_derives.1 hparse).finished
    exact absurd hkind (hfinished l hl)

/-- A name that is a word or a quoted text is declared again by its source form. So is one between
double quotes that does not hold the mark of a comment, unless it ends in a backslash, of which
nothing is said; one that holds the mark is not, as comments go before quotes. -/
theorem parse?_declaration_of_name {source : Text} {s : Segment} {ts rest : Rest}
    {role : NameRole} (hs : s ∈ source.stripComments.segments) (hts : ts <:+ s.tokens)
    (hn : Statement.name? role ts = .ok (n, rest)) (r : Resources) :
    (nextIs '"' ts = false → parse? r (declaration n) = .ok [.declareType n]) ∧
      (¬ ascii "//" <:+: n → n.getLast? ≠ some (byte '\\') →
        parse? r (declaration n) = .ok [.declareType n]) ∧
      (ascii "//" <:+: n → ∃ e, parse? r (declaration n) = .error e) := by
  have htidy : ∀ t ∈ ts, t.Tidy := fun t ht => Text.tidy_of_mem_segments hs (hts.subset ht)
  obtain ⟨hname, -⟩ := Statement.name?_eq_ok hn htidy
  have hfeed : byte '\n' ∉ n := by
    cases hname with
    | inl hnameable => exact hnameable.quiet.feed
    | inr hspells => exact feed_not_mem_of_spellsQuoted htidy hspells
  refine ⟨?_, ?_, ?_⟩
  · intro hopen
    exact parse?_declaration (Statement.nameable_of_name? hn htidy hopen).1
  · intro hcomment hlast
    exact parse?_declaration ⟨⟨hfeed, Text.uncommented_iff.2 hcomment⟩, hlast⟩
  · intro hcomment
    apply exists_parse?_declaration_error hfeed
    intro hquiet
    exact Text.uncommented_iff.1 hquiet hcomment

/-- A slash, and the quotes and the backslash of a quoted text, in a name between double quotes. -/
theorem parse?_declaration_of_joined_name :
    let source := ascii "onLevel \"a / 'b\\'c'\";"
    let n := ascii "a/'b\\'c'"
    ∃ s ∈ source.stripComments.segments, ∃ ts rest, ts <:+ s.tokens ∧
      Statement.name? .level ts = .ok (n, rest) ∧ ¬ ascii "//" <:+: n ∧
        n.getLast? ≠ some (byte '\\') ∧
          parse? default (declaration n) = .ok [.declareType n] := by
  intro source n
  obtain ⟨s, hs, hn⟩ : ∃ s ∈ source.stripComments.segments,
      Statement.name? .level s.tokens.tail = .ok (n, []) := by decide +kernel
  have hts : s.tokens.tail <:+ s.tokens := List.tail_suffix _
  have hcomment : ¬ ascii "//" <:+: n := by decide +kernel
  have hlast : n.getLast? ≠ some (byte '\\') := by decide
  obtain ⟨-, hparse, -⟩ := parse?_declaration_of_name hs hts hn default
  exact ⟨s, hs, _, _, hts, hn, hcomment, hlast, hparse hcomment hlast⟩

/-- Two slashes between double quotes, with a blank between them, are the mark of a comment in the
name. -/
theorem parse?_declaration_of_slashes :
    let source := ascii "declareSpanType \"/ /\";"
    let n := ascii "//"
    (∃ s ∈ source.stripComments.segments, ∃ ts rest, ts <:+ s.tokens ∧
      Statement.name? .type ts = .ok (n, rest)) ∧
      parse? default source = .ok [.declareType n] ∧
        declaration n = ascii "declareSpanType '//';" ∧
          ∀ p, parse? default (declaration n) ≠ .ok p := by
  intro source n
  obtain ⟨s, hs, hn⟩ : ∃ s ∈ source.stripComments.segments,
      Statement.name? .type s.tokens.tail = .ok (n, []) := by decide +kernel
  have hparse : parse? default source = .ok [.declareType n] := by decide +kernel
  refine ⟨⟨s, hs, _, _, List.tail_suffix _, hn⟩, hparse, by decide +kernel, ?_⟩
  intro p hp
  have hfail : (parse? default (declaration n)).isOk = false := by decide +kernel
  rw [hp] at hfail
  cases hfail

end Program

end SpanRules
