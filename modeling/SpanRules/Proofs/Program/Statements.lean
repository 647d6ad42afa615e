import Mathlib.Data.List.DropRight
import SpanRules.Proofs.Program.Concatenation

/-! Programs whose statements are given one by one. Main statement: they hold the statements that
the texts hold when each is read alone, unless a text before the last one has its last line end in a
comment and has no semicolon of its own. The semicolon that is put after it belongs to the comment
then. -/
namespace SpanRules

namespace Text
variable {t u : Text}

def lastLine (t : Text) : Text := t.rtakeWhile (· != byte '\n')

/-- A semicolon after the text would belong to a comment, and the text has none of its own. -/
def LeavesOpen (t : Text) : Prop :=
  ascii "//" <:+: t.lastLine ∧ .mark ';' ∉ t.stripComments.solidLexemes

instance (t : Text) : Decidable t.LeavesOpen := inferInstanceAs (Decidable (_ ∧ _))

theorem feed_not_mem_lastLine (t : Text) : byte '\n' ∉ t.lastLine := by
  intro h
  simpa using List.mem_rtakeWhile_imp h

theorem eq_lastLine_or (t : Text) : t = t.lastLine ∨ ∃ u, t = u ++ byte '\n' :: t.lastLine := by
  induction t using List.reverseRecOn with
  | nil => exact .inl rfl
  | append_singleton t b ih =>
    by_cases hb : b = byte '\n'
    · refine .inr ⟨t, ?_⟩
      rw [lastLine, List.rtakeWhile_concat_neg _ _ _ (by simpa using hb), hb]
    · rw [lastLine, List.rtakeWhile_concat_pos _ _ _ (by simpa using hb), ← lastLine]
      rcases ih with ht | ⟨u, ht⟩
      · exact .inl (congrArg (· ++ [b]) ht)
      · exact .inr ⟨u, (congrArg (· ++ [b]) ht).trans (List.append_assoc _ _ _)⟩

/-- The end of a line does not matter to what is scanned from it. -/
theorem solidLexemes_stripComments_of_line (h : byte '\n' ∉ t) :
    t.stripComments.solidLexemes = (beforeComment (dropReturn t)).solidLexemes := by
  have hsplit : splitOn 10 t = [t] := by
    rw [splitOn_eq]
    exact List.splitOn_eq_singleton h
  rw [solidLexemes_stripComments]
  cases t with
  | nil => rfl
  | cons b t => simp [lines, hsplit]

theorem beforeComment_append_of_comment (h : ¬ t.Uncommented) :
    beforeComment (t ++ u) = beforeComment t := by
  induction t with
  | nil => exact absurd uncommented_nil h
  | cons b t ih =>
    by_cases hslashes : (ascii "//").isPrefixOf (b :: t) = true
    · have happend : (ascii "//").isPrefixOf (b :: t ++ u) = true := by
        rw [List.isPrefixOf_iff_prefix] at hslashes ⊢
        exact hslashes.trans (List.prefix_append _ _)
      rw [List.cons_append] at happend ⊢
      rw [beforeComment, beforeComment, if_pos hslashes, if_pos happend]
    · have htail : ¬ Uncommented t := by
        intro ht
        refine h (List.IsChain.cons ht fun c hc hbc => hslashes (slashes_prefix_iff.2 ⟨hbc.1, ?_⟩))
        rw [hc, hbc.2]
      -- What is no comment before the rest is none after it, as the rest is not at its end.
      have happend : ¬ (ascii "//").isPrefixOf (b :: (t ++ u)) = true := by
        intro hprefix
        obtain ⟨hb, hhead⟩ := slashes_prefix_iff.1 hprefix
        refine hslashes (slashes_prefix_iff.2 ⟨hb, ?_⟩)
        cases t with
        | nil => exact absurd uncommented_nil htail
        | cons c t => exact hhead
      rw [List.cons_append, beforeComment, beforeComment, if_neg hslashes, if_neg happend,
        ih htail]

theorem dropReturn_concat_semicolon (t : Text) : dropReturn (t ++ ascii ";") = t ++ ascii ";" :=
  if_neg (by rw [List.getLast?_append_of_ne_nil _ (by decide)]; decide)

/-- A semicolon after a line without a comment ends a statement. -/
theorem solidLexemes_line_append (hfeed : byte '\n' ∉ t) (hquiet : t.Uncommented)
    (hfinished : ∀ l ∈ t.stripComments.solidLexemes, l.kind ≠ .unterminated) :
    (t ++ ascii ";").stripComments.solidLexemes =
      t.stripComments.solidLexemes ++ [.mark ';'] := by
  have hfeed' : byte '\n' ∉ t ++ ascii ";" := fun h =>
    (List.mem_append.1 h).elim hfeed (by decide)
  have hquiet' : (t ++ ascii ";").Uncommented := hquiet.append (by decide) (.inr (by decide))
  have hdrop : (dropReturn t).Uncommented := hquiet.infix (isPrefix_dropReturn t).isInfix
  rw [solidLexemes_stripComments_of_line hfeed, beforeComment_of_uncommented hdrop] at hfinished ⊢
  rw [solidLexemes_stripComments_of_line hfeed', dropReturn_concat_semicolon,
    beforeComment_of_uncommented hquiet']
  have hall : ∀ l ∈ (dropReturn t).lexemes, l.kind ≠ .unterminated := by
    intro l hl hkind
    exact hfinished l (List.mem_filter.2 ⟨hl, by simp [hkind]⟩) hkind
  have happend : ∀ u, Delimited u → solidLexemes (dropReturn t ++ u) =
      (dropReturn t).solidLexemes ++ u.solidLexemes := by
    intro u hu
    rw [solidLexemes, lexemes_append hall hu, List.filter_append]
    rfl
  rcases dropReturn_eq_or t with ht | ht
  · have hsemicolon : Delimited (ascii ";") := delimited_cons (t := []) rfl
    rw [← ht] at happend ⊢
    exact happend _ hsemicolon
  · have hreturn : Delimited ([13] ++ ascii ";") := delimited_cons (t := ascii ";") rfl
    conv_lhs => rw [ht, List.append_assoc]
    exact happend _ hreturn

/-- A semicolon after a line with a comment belongs to the comment. -/
theorem solidLexemes_line_append_of_comment (hfeed : byte '\n' ∉ t) (hcomment : ¬ t.Uncommented) :
    (t ++ ascii ";").stripComments.solidLexemes = t.stripComments.solidLexemes := by
  have hfeed' : byte '\n' ∉ t ++ ascii ";" := fun h =>
    (List.mem_append.1 h).elim hfeed (by decide)
  rw [solidLexemes_stripComments_of_line hfeed', solidLexemes_stripComments_of_line hfeed,
    dropReturn_concat_semicolon, beforeComment_append_of_comment hcomment]
  rcases dropReturn_eq_or t with ht | ht
  · rw [← ht]
  · have hdrop : ¬ (dropReturn t).Uncommented := by
      intro hquiet
      refine hcomment ?_
      rw [ht]
      exact hquiet.append (uncommented_singleton 13) (.inr (by decide))
    conv_lhs => rw [ht, beforeComment_append_of_comment hdrop]

/-- What a semicolon adds to the last line it adds to the text. -/
theorem solidLexemes_append_of_lastLine {ls : List Lexeme}
    (h : (t.lastLine ++ ascii ";").stripComments.solidLexemes =
      t.lastLine.stripComments.solidLexemes ++ ls) :
    (t ++ ascii ";").stripComments.solidLexemes = t.stripComments.solidLexemes ++ ls := by
  rcases eq_lastLine_or t with ht | ⟨u, ht⟩
  · rwa [← ht] at h
  · generalize t.lastLine = line at h ht
    subst ht
    rw [List.append_assoc, List.cons_append, solidLexemes_stripComments_append, h,
      solidLexemes_stripComments_append, List.append_assoc]

/-- The last line has no text that is not terminated if the whole text has none. -/
theorem finished_lastLine
    (hfinished : ∀ l ∈ t.stripComments.solidLexemes, l.kind ≠ .unterminated) :
    ∀ l ∈ t.lastLine.stripComments.solidLexemes, l.kind ≠ .unterminated := by
  rcases eq_lastLine_or t with ht | ⟨u, ht⟩
  · rwa [← ht]
  · generalize t.lastLine = line at ht
    subst ht
    rw [solidLexemes_stripComments_append] at hfinished
    exact fun l hl => hfinished l (List.mem_append_right _ hl)

/-- A semicolon after a text ends its last statement, unless it belongs to a comment. -/
theorem solidLexemes_append_semicolon (hcomment : ¬ ascii "//" <:+: t.lastLine)
    (hfinished : ∀ l ∈ t.stripComments.solidLexemes, l.kind ≠ .unterminated) :
    (t ++ ascii ";").stripComments.solidLexemes =
      t.stripComments.solidLexemes ++ [.mark ';'] :=
  solidLexemes_append_of_lastLine <| solidLexemes_line_append (feed_not_mem_lastLine t)
    (uncommented_iff.2 hcomment) (finished_lastLine hfinished)

theorem solidLexemes_append_semicolon_of_comment (hcomment : ascii "//" <:+: t.lastLine) :
    (t ++ ascii ";").stripComments.solidLexemes = t.stripComments.solidLexemes := by
  have hline := solidLexemes_line_append_of_comment (feed_not_mem_lastLine t)
    fun hquiet => uncommented_iff.1 hquiet hcomment
  rw [← List.append_nil (Text.solidLexemes t.stripComments)]
  exact solidLexemes_append_of_lastLine (hline.trans (List.append_nil _).symm)

end Text

namespace Program
variable {lines : LineReader} {r : Resources} {t : Text} {st : Statement} {p : Program}
  {ls ms : List Lexeme}

def statementCount (ls : List Lexeme) : Nat :=
  ((ls.splitOn (.mark ';')).filter (· ≠ [])).length

theorem Derives.length_eq (h : Derives lines ls p) : p.length = statementCount ls :=
  (List.Forall₂.length_eq h).symm

theorem statementCount_append (ls ms : List Lexeme) :
    statementCount (ls ++ .mark ';' :: ms) = statementCount ls + statementCount ms := by
  unfold statementCount
  rw [List.splitOn_append_cons_self, List.filter_append, List.length_append]

theorem statementCount_le_one (h : .mark ';' ∉ ls) : statementCount ls ≤ 1 := by
  unfold statementCount
  rw [List.splitOn_eq_singleton h]
  exact List.length_filter_le _ _

theorem derives_nil_iff : Derives lines [] p ↔ p = [] := by
  unfold Derives
  rw [List.splitOn_nil]
  exact List.forall₂_nil_left_iff

theorem derives_of_statement (h : Statement.Derives lines ls st) (hsemi : .mark ';' ∉ ls) :
    Derives lines ls [st] := by
  obtain ⟨l, rest, rfl, -⟩ := h.head
  unfold Derives
  rw [List.splitOn_eq_singleton hsemi]
  exact .cons h .nil

/-- A semicolon in front of a source is no statement. -/
theorem derives_cons_semicolon_iff : Derives lines (.mark ';' :: ls) p ↔ Derives lines ls p := by
  rw [← List.nil_append (Lexeme.mark ';' :: ls), derives_append_iff]
  constructor
  · rintro ⟨q, q', hq, hq', rfl⟩
    rw [derives_nil_iff.1 hq]
    exact hq'
  · intro h
    exact ⟨[], p, derives_nil_iff.2 rfl, h, rfl⟩

/-- A statement that a semicolon ends comes first, whatever follows. -/
theorem derives_statement_append_iff (h : Statement.Derives lines ls st) (hsemi : .mark ';' ∉ ls) :
    Derives lines (ls ++ .mark ';' :: ms) (st :: p) ↔ Derives lines ms p := by
  have hfirst := derives_of_statement h hsemi
  rw [derives_append_iff]
  constructor
  · rintro ⟨q, q', hq, hq', heq⟩
    have hlength : q.length = 1 := hq.length_eq.trans hfirst.length_eq.symm
    obtain ⟨x, rfl⟩ := List.length_eq_one_iff.1 hlength
    rw [(List.cons.inj heq).2]
    exact hq'
  · intro hms
    exact ⟨[st], p, hfirst, hms, rfl⟩

/-- What is read as one statement are the lexemes of the statement, and perhaps one semicolon. -/
theorem exists_lexemes_of_statement? (h : statement? r t = .ok st) :
    ∃ ls, Statement.Derives r.readLines ls st ∧ .mark ';' ∉ ls ∧
      (t.stripComments.solidLexemes = ls ∨ t.stripComments.solidLexemes = ls ++ [.mark ';']) := by
  have hjoin : [Lexeme.mark ';'].intercalate
      (t.stripComments.segments.map fun s => s.tokens.map SourceToken.lexeme) =
        t.stripComments.solidLexemes := by
    rw [Text.map_lexeme_segments]
    exact List.intercalate_splitOn _
  unfold statement? at h
  obtain ⟨s, ss, hsegments⟩ : ∃ s ss, t.stripComments.segments = s :: ss :=
    Segment.exists_split_eq_cons _ _ _
  have hs : s ∈ t.stripComments.segments := hsegments ▸ List.mem_cons_self
  rw [hsegments] at h hjoin
  simp only [List.headD_cons] at h
  split at h
  · cases h
  · rename_i st' hst
    have hne : s.tokens ≠ [] := by
      intro hnil
      have hkind : s.stop.kind ≠ .word := by
        rcases Text.stop_kind_of_mem_segments hs with hkind | hkind <;> rw [hkind] <;> decide
      unfold Statement.ofSegment? at hst
      simp only [hnil, Segment.current, List.headD_nil] at hst
      rw [if_pos hkind] at hst
      split at hst <;> cases hst
    have htokens : NoneEmpty s.tokens := fun u hu =>
      (Text.tidy_of_mem_segments hs hu).genuine.ne_nil
    have hderives := (Statement.ofSegment?_iff_derives hne htokens).1 hst
    have hsemi : .mark ';' ∉ s.tokens.map SourceToken.lexeme := by
      intro hmem
      obtain ⟨u, hu, hlexeme⟩ := List.mem_map.1 hmem
      rw [← SourceToken.isSymbol_iff, (Text.lexeme_mem_of_mem_segments hs hu).2] at hlexeme
      cases hlexeme
    split at h
    · rename_i hsingle
      cases h
      refine ⟨_, hderives, hsemi, ?_⟩
      rw [← hjoin]
      cases ss with
      | nil => exact .inl (by simp)
      | cons s' ss =>
        cases ss with
        | nil =>
          have hnil : s'.tokens = [] := by simpa [isSingle] using hsingle
          rw [List.map_cons, List.map_singleton, hnil]
          exact .inr (by simp [List.intercalate])
        | cons => cases hsingle
    · cases h

/-- With a semicolon put after it, a text has its statement and the end of it, unless the text
leaves its statement open. -/
theorem exists_lexemes_append_semicolon (h : statement? r t = .ok st) :
    ∃ ls, Statement.Derives r.readLines ls st ∧ .mark ';' ∉ ls ∧
      (t.LeavesOpen ∧ (t ++ ascii ";").stripComments.solidLexemes = ls ∨
        ¬ t.LeavesOpen ∧ ∃ ms, (ms = [] ∨ ms = [.mark ';']) ∧
          (t ++ ascii ";").stripComments.solidLexemes = ls ++ .mark ';' :: ms) := by
  obtain ⟨ls, hderives, hsemi, hlexemes⟩ := exists_lexemes_of_statement? h
  have hfinished : ∀ l ∈ t.stripComments.solidLexemes, l.kind ≠ .unterminated := by
    intro l hl
    rcases hlexemes with heq | heq
    · exact hderives.finished l (heq ▸ hl)
    · rw [heq, List.mem_append, List.mem_singleton] at hl
      rcases hl with hl | rfl
      · exact hderives.finished l hl
      · decide
  refine ⟨ls, hderives, hsemi, ?_⟩
  by_cases hcomment : ascii "//" <:+: t.lastLine
  · rw [Text.solidLexemes_append_semicolon_of_comment hcomment]
    rcases hlexemes with heq | heq
    · exact .inl ⟨⟨hcomment, heq ▸ hsemi⟩, heq⟩
    · refine .inr ⟨fun hopen => hopen.2 ?_, [], .inl rfl, heq⟩
      rw [heq]
      exact List.mem_append_right _ (List.mem_singleton_self _)
  · rw [Text.solidLexemes_append_semicolon hcomment hfinished]
    refine .inr ⟨fun hopen => hcomment hopen.1, ?_⟩
    rcases hlexemes with heq | heq
    · exact ⟨[], .inl rfl, by rw [heq]⟩
    · exact ⟨[.mark ';'], .inr rfl, by rw [heq, List.append_assoc]; rfl⟩

theorem solidLexemes_statements (texts : List Text) :
    (Text.stripComments (texts.flatMap fun t => t ++ ascii ";\n")).solidLexemes =
      texts.flatMap fun t => (t ++ ascii ";").stripComments.solidLexemes := by
  induction texts with
  | nil => rfl
  | cons t texts ih =>
    have hcut : ∀ u : Text, t ++ ascii ";\n" ++ u = (t ++ ascii ";") ++ byte '\n' :: u := by
      intro u
      rw [List.append_assoc, List.append_assoc]
      rfl
    rw [List.flatMap_cons, List.flatMap_cons, hcut, Text.solidLexemes_stripComments_append, ih]

/-- There are at most as many statements as texts, also if the beginning of one stands before the
first. -/
theorem statementCount_le {texts : List Text} (hsemi : .mark ';' ∉ ls)
    (h : List.Forall₂ (fun t st => statement? r t = .ok st) (t :: texts) (st :: p)) :
    statementCount (ls ++ (t :: texts).flatMap
      fun t => (t ++ ascii ";").stripComments.solidLexemes) ≤ p.length + 1 := by
  induction texts generalizing t st p ls with
  | nil =>
    obtain ⟨ht, hrest⟩ := List.forall₂_cons.1 h
    obtain ⟨ks, -, hks, hopen | hclosed⟩ := exists_lexemes_append_semicolon ht
    · rw [List.flatMap_singleton, hopen.2]
      exact (statementCount_le_one (by simp [hsemi, hks])).trans (Nat.le_add_left 1 _)
    · obtain ⟨-, ms, hms, heq⟩ := hclosed
      have hend : statementCount ms = 0 := by rcases hms with rfl | rfl <;> rfl
      rw [List.flatMap_singleton, heq, ← List.append_assoc, statementCount_append, hend]
      exact (statementCount_le_one (by simp [hsemi, hks])).trans (Nat.le_add_left 1 _)
  | cons u us ih =>
    obtain ⟨ht, hrest⟩ := List.forall₂_cons.1 h
    cases p with
    | nil => cases hrest
    | cons st' p =>
      obtain ⟨ks, -, hks, hopen | hclosed⟩ := exists_lexemes_append_semicolon ht
      · rw [List.flatMap_cons, hopen.2, ← List.append_assoc]
        exact (ih (by simp [hsemi, hks]) hrest).trans (Nat.le_add_right _ 1)
      · obtain ⟨-, ms, hms, heq⟩ := hclosed
        have hfirst : statementCount (ls ++ ks) ≤ 1 := statementCount_le_one (by simp [hsemi, hks])
        have hlater := ih List.not_mem_nil hrest
        rw [List.flatMap_cons, heq]
        generalize (u :: us).flatMap (fun t => (t ++ ascii ";").stripComments.solidLexemes) = rest
          at hlater ⊢
        have hms : statementCount (ms ++ rest) = statementCount rest := by
          rcases hms with rfl | rfl
          · rfl
          · exact (statementCount_append [] rest).trans (Nat.zero_add _)
        have hcut : ls ++ (ks ++ .mark ';' :: ms ++ rest) =
            (ls ++ ks) ++ .mark ';' :: (ms ++ rest) := by simp
        rw [hcut, statementCount_append, hms, List.length_cons]
        rw [List.nil_append] at hlater
        omega

/-- Texts that are each accepted as one statement give the same statements when they are put
together, exactly if none but the last leaves its statement open. -/
theorem ofStatements?_eq_ok_iff {texts : List Text}
    (h : List.Forall₂ (fun t st => statement? r t = .ok st) texts p) :
    ofStatements? r texts = .ok p ↔ ∀ t ∈ texts.dropLast, ¬ t.LeavesOpen := by
  rw [ofStatements?, parse?_eq_ok_iff_derives, solidLexemes_statements]
  induction h with
  | nil => exact iff_of_true (derives_nil_iff.2 rfl) (by simp)
  | @cons t st texts p ht hrest ih =>
    obtain ⟨ls, hderives, hsemi, ⟨hopen, heq⟩ | ⟨hclosed, ms, hms, heq⟩⟩ :=
      exists_lexemes_append_semicolon ht
    · cases hrest with
      | nil =>
        rw [List.flatMap_singleton, heq]
        exact iff_of_true (derives_of_statement hderives hsemi) (by simp)
      | @cons u st' texts p hu hrest =>
        apply iff_of_false
        · intro hall
          have hlength := hall.length_eq
          rw [List.flatMap_cons, heq] at hlength
          have hcount := statementCount_le hsemi (.cons hu hrest)
          rw [← hlength, List.length_cons, List.length_cons] at hcount
          omega
        · intro hall
          exact hall t (by simp) hopen
    · have hdrop : (∀ t' ∈ (t :: texts).dropLast, ¬ t'.LeavesOpen) ↔
          ∀ t' ∈ texts.dropLast, ¬ t'.LeavesOpen := by
        cases texts with
        | nil => simp
        | cons u us => simp [List.dropLast_cons_cons, hclosed]
      rw [hdrop, ← ih, List.flatMap_cons, heq, List.append_assoc, List.cons_append,
        derives_statement_append_iff hderives hsemi]
      rcases hms with rfl | rfl
      · rfl
      · exact derives_cons_semicolon_iff

/-- A comment after a semicolon, a carriage return, and a comment at the end of the last text. -/
theorem ofStatements?_eq_ok_iff_of_endings :
    let texts := [ascii "declareSpanType a; // c", ascii "onLevel b\r", ascii "offLevel // d"]
    let p : Program := [.declareType (ascii "a"), .onLevel (ascii "b"), .offLevel]
    List.Forall₂ (fun t st => statement? default t = .ok st) texts p ∧
      ofStatements? default texts = .ok p := by
  intro texts p
  have h : List.Forall₂ (fun t st => statement? default t = .ok st) texts p := by
    refine .cons ?_ (.cons ?_ (.cons ?_ .nil)) <;> decide +kernel
  exact ⟨h, (ofStatements?_eq_ok_iff h).2 (by decide +kernel)⟩

/-- The semicolon after the first text belongs to its comment, so that the second statement is read
as a part of the first. -/
theorem ofStatements?_of_comment :
    let texts := [ascii "declareSpanType a // c", ascii "declareSpanType b"]
    (∀ t ∈ texts, (statement? default t).isOk = true) ∧
      ∀ p, ofStatements? default texts ≠ .ok p := by
  refine ⟨by decide +kernel, fun p hp => ?_⟩
  have hfail : (ofStatements? default
    [ascii "declareSpanType a // c", ascii "declareSpanType b"]).isOk = false := by decide +kernel
  rw [hp] at hfail
  cases hfail

end Program

end SpanRules
