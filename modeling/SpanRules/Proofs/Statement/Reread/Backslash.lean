import SpanRules.Proofs.Statement.Reread

/-! A phrase with a single backslash as a word. What is printed in its place begins with a quote,
and what is read from a quoted text is no single backslash, whatever follows. -/
namespace SpanRules

/-- A list up to the first member that passes a test. -/
theorem exists_first {α : Type} {p : α → Bool} {xs : List α} (h : ∃ x ∈ xs, p x = true) :
    ∃ as x bs, xs = as ++ x :: bs ∧ p x = true ∧ ∀ a ∈ as, p a = false := by
  obtain ⟨x, hx⟩ := Option.isSome_iff_exists.1 (List.find?_isSome.2 h)
  obtain ⟨hpx, as, bs, rfl, has⟩ := List.find?_eq_some_iff_append.1 hx
  exact ⟨as, x, bs, rfl, hpx, fun a ha => by simpa using has a ha⟩

namespace Text

theorem exists_join_append (sep : Text) (ts : List Text) (t : Text) (us : List Text) :
    ∃ v, join sep (ts ++ t :: us) = ts.flatMap (· ++ sep) ++ (t ++ v) := by
  induction ts with
  | nil =>
    cases us with
    | nil => exact ⟨[], (List.append_nil _).symm⟩
    | cons u us => exact ⟨_, List.append_assoc _ _ _⟩
  | cons t' ts ih =>
    obtain ⟨v, hv⟩ := ih
    refine ⟨v, ?_⟩
    rw [List.flatMap_cons, List.append_assoc, ← hv]
    cases ts <;> rfl

end Text

namespace PhraseEntry
variable {ws us : List Text} {w : Text}

theorem exists_foldl_addWord (ws : List Text) (r : Text × Text) :
    ∃ v, (ws.foldl addWord r).2 = r.2 ++ v := by
  induction ws generalizing r with
  | nil => exact ⟨[], (List.append_nil _).symm⟩
  | cons w ws ih =>
    obtain ⟨v, hv⟩ := ih (addWord r w)
    rw [List.foldl_cons, hv]
    obtain ⟨phrase, source⟩ := r
    by_cases hphrase : phrase = []
    · rw [hphrase, addWord_of_eq_nil]
      exact ⟨_, List.append_assoc _ _ _⟩
    · rw [addWord_of_ne_nil hphrase]
      exact ⟨_, List.append_assoc _ _ _⟩

/-- What is printed of a phrase before a word that is quoted. -/
theorem exists_source_before (number : Nat) (vs : List Text) (hus : ∀ u ∈ us, u.Nameable)
    (hw : w.isPlainWord = false) :
    ∃ a v, (words number (us ++ w :: vs)).source = a ++ byte '\'' :: v ∧
      a.PrintsApart (us.map Text.nameLexeme) := by
  obtain ⟨hapart, hprints⟩ := prints_words hus (fun _ => Text.printsApart_nil) Text.prints_nil
  rw [source, List.foldl_append, List.foldl_cons]
  generalize us.foldl addWord ([], []) = r at hapart hprints
  obtain ⟨phrase, source⟩ := r
  obtain ⟨v, hv⟩ := exists_foldl_addWord vs (addWord (phrase, source) w)
  rw [hv]
  have hquote : w.quoteIfNeeded = byte '\'' :: (w.escapeQuotes ++ [byte '\'']) := by
    rw [Text.quoteIfNeeded, hw]
    rfl
  by_cases hphrase : phrase = []
  · subst hphrase
    refine ⟨source, w.escapeQuotes ++ [byte '\''] ++ v, ?_, hapart rfl⟩
    rw [addWord_of_eq_nil, List.append_assoc, hquote]
    rfl
  · refine ⟨source ++ ascii " ", w.escapeQuotes ++ [byte '\''] ++ v, ?_, ?_⟩
    · rw [addWord_of_ne_nil hphrase, List.append_assoc, hquote, List.append_assoc]
      rfl
    · simpa using hprints.append_blank

end PhraseEntry

section
variable {α : Type} [DecidableEq α] {c : α} {as : List α}

theorem exists_splitOn_append (h : c ∉ as) (bs : List α) :
    ∃ xs xss, (as ++ bs).splitOn c = (as ++ xs) :: xss := by
  obtain ⟨xs, xss, hbs⟩ := List.exists_cons_of_ne_nil (List.splitOn_ne_nil c bs)
  exact ⟨xs, xss, by rw [Text.splitOn_append_of_not_mem h, hbs, List.modifyHead_cons]⟩

theorem splitOn_flatMap {β : Type} {xs : List β} {f : β → List α} (h : ∀ x ∈ xs, c ∉ f x)
    (bs : List α) :
    ((xs.flatMap fun x => f x ++ [c]) ++ bs).splitOn c = xs.map f ++ bs.splitOn c := by
  induction xs with
  | nil => rfl
  | cons x xs ih =>
    obtain ⟨hx, h⟩ := List.forall_mem_cons.1 h
    rw [List.flatMap_cons, List.append_assoc, List.append_assoc, List.singleton_append,
      List.splitOn_append_cons_self_of_not_mem hx, ih h]
    rfl

end

namespace Statement
variable {lines : LineReader} {ts : Rest} {t : SourceToken} {fs : List PhraseEntry}
  {us : List Text} {l : Lexeme} {ls ms : List Lexeme}

/-- What a quoted text stands for has a source form. -/
theorem unquote_ne_backslash (ht : t.Tidy) (hl : t.kind = .quoted) :
    t.text.unquote ≠ backslash := by
  intro hback
  have hname := ht.nameable_of_isWordOrQuoted (by simp [SourceToken.isWordOrQuoted, hl])
  exact hname.backslash (by rw [hback]; rfl)

theorem phrase?_of_quoted {number : Nat} {e : PhraseEntry}
    (hl : l.kind = .quoted ∨ l.kind = .unterminated) (htidy : ∀ t ∈ ts, t.Tidy)
    (hend : ∀ t ∈ ts, t.kind ≠ .unterminated)
    (h : ts.map SourceToken.lexeme = us.map Text.nameLexeme ++ l :: ms)
    (hread : phrase? lines number ts = .ok e) :
    ∃ w ws, w ≠ backslash ∧ e = .words number (us ++ w :: ws) := by
  have hmark : l ≠ .mark '"' := by
    rintro rfl
    rcases hl with hl | hl <;> cases hl
  have hquoted : areQuoted ts = false := by
    have hnext : nextIs '"' ts = false := by
      cases us with
      | nil => exact nextIs_of_ne h hmark
      | cons u us => exact nextIs_of_ne h Lexeme.nameLexeme_ne_mark
    rw [areQuoted, hnext, Bool.and_false, Bool.false_and]
  obtain ⟨qs, rs, rfl, hqs, hrs⟩ := List.map_eq_append_iff.1 h
  obtain ⟨t, rs, rfl, rfl, -⟩ := List.map_eq_cons_iff.1 hrs
  have ht : t ∈ qs ++ t :: rs := by simp
  have hkind : t.kind = .quoted := hl.resolve_right (hend t ht)
  have hwords : (qs ++ t :: rs).map (·.text.unquote) =
      us ++ t.text.unquote :: rs.map (·.text.unquote) := by
    rw [List.map_append, map_unquote_of_lexemes hqs, List.map_cons]
  rw [phrase?, hquoted] at hread
  refine ⟨t.text.unquote, rs.map (·.text.unquote), unquote_ne_backslash (htidy t ht) hkind, ?_⟩
  rw [← hwords]
  exact (Except.ok.inj hread).symm

/-- The lexemes of a list of phrases up to a word of one of them. -/
def lexemesBefore (fs : List PhraseEntry) (us : List Text) : List Lexeme :=
  (fs.flatMap fun e => e.lexemes ++ [.mark ',']) ++ us.map Text.nameLexeme

theorem semicolon_not_mem_lexemesBefore (hfs : ∀ e ∈ fs, e.Listable lines) :
    .mark ';' ∉ lexemesBefore fs us := by
  have hcomma : Lexeme.mark ';' ≠ .mark ',' := by decide
  have hphrases : ∀ e ∈ fs, .mark ';' ∉ e.lexemes := fun e he =>
    not_mem_of_solid (by decide) (hfs e he).solid
  simpa [lexemesBefore, hcomma] using hphrases

/-- Where a quoted text stands in a phrase, the phrase that is read has another word than a single
backslash, and the phrases before it are read as they were. -/
theorem phrases?_of_quoted {g : Generator} (hfs : ∀ e ∈ fs, e.Listable lines)
    (hl : l.kind = .quoted ∨ l.kind = .unterminated) (htidy : ∀ t ∈ ts, t.Tidy)
    (h : ts.map SourceToken.lexeme = lexemesBefore fs us ++ l :: ms)
    (hread : phrases? lines ts = .ok g) :
    ∃ w ws es, w ≠ backslash ∧
      g = .phrases ((fs.zipIdx.map fun e => e.1.renumber e.2) ++
        .words fs.length (us ++ w :: ws) :: es) := by
  obtain ⟨hend, es, hes, rfl⟩ := phrases?_eq_ok_iff.1 hread
  have hcomma : .mark ',' ∉ us.map Text.nameLexeme ++ [l] := by
    have hl' : Lexeme.mark ',' ≠ l := by
      rintro rfl
      rcases hl with hl | hl <;> cases hl
    simp [hl']
  obtain ⟨xs, xss, hxs⟩ := exists_splitOn_append hcomma ms
  have hparts := map_lexeme_phraseTokens ts
  rw [h, lexemesBefore, List.append_assoc,
    splitOn_flatMap fun e he => not_mem_of_solid (by decide) (hfs e he).solid, List.append_cons,
    hxs] at hparts
  obtain ⟨ps, rest, htokens, hps, hrest⟩ := List.map_eq_append_iff.1 hparts
  obtain ⟨part, rest, rfl, hpart, -⟩ := List.map_eq_cons_iff.1 hrest
  have hmem : ∀ t ∈ part, t ∈ ts := by
    have hpartMem : part ∈ phraseTokens ts := htokens ▸ List.mem_append_right _ List.mem_cons_self
    obtain ⟨s, hs, rfl⟩ := List.mem_map.1 hpartMem
    exact fun t ht => (Segment.mem_of_mem_split hs ht).1
  have hlength : ps.length = fs.length := by simpa using congrArg List.length hps
  rw [htokens, List.zipIdx_append, List.zipIdx_cons, List.mapM_append,
    mapM_phrase?_of_lexemes hfs hps] at hes
  obtain ⟨_, hfirst, hes⟩ := Reading.bind_eq_ok_iff.1 hes
  cases hfirst
  obtain ⟨_, hlast, hes⟩ := Reading.bind_eq_ok_iff.1 hes
  cases hes
  rw [List.mapM_cons] at hlast
  obtain ⟨e, he, hlast⟩ := Reading.bind_eq_ok_iff.1 hlast
  obtain ⟨es, -, hlast⟩ := Reading.bind_eq_ok_iff.1 hlast
  cases hlast
  rw [List.append_assoc] at hpart
  obtain ⟨w, ws, hw, rfl⟩ := phrase?_of_quoted hl (fun t ht => htidy t (hmem t ht))
    (fun t ht => hend t (hmem t ht)) hpart he
  exact ⟨w, ws, es, hw, by rw [Nat.zero_add, hlength]⟩

/-- Phrases of which one has a single backslash, and phrases of which the same one has another word
in its place, are not alike. -/
theorem not_alike_of_word {number number' : Nat} {gs hs es : List PhraseEntry} {vs ws : List Text}
    {w : Text} (hw : w ≠ backslash) :
    ¬ (Generator.phrases (gs ++ .words number (us ++ backslash :: vs) :: hs)).Alike
      (.phrases (PhraseEntry.listed gs ++ .words number' (us ++ w :: ws) :: es)) := by
  rintro ⟨h, -⟩
  have hcontents : ∀ n x xs, (PhraseEntry.words n (us ++ x :: xs)).contents? =
      some (.words 0 (us ++ x :: xs)) := by
    intro n x xs
    cases us <;> rfl
  rw [List.filterMap_append, List.filterMap_append, PhraseEntry.filterMap_contents?_listed,
    List.append_cancel_left_eq, List.filterMap_cons_some (hcontents _ _ _),
    List.filterMap_cons_some (hcontents _ _ _)] at h
  obtain ⟨-, hwords⟩ := PhraseEntry.words.inj (List.cons.inj h).1
  rw [List.append_cancel_left_eq] at hwords
  exact hw (List.cons.inj hwords).1.symm

end Statement

namespace Generator
variable {lines : LineReader} {us : List Text} {es : List PhraseEntry}
open Statement (lexemesBefore)

/-- What is printed of a list of phrases before a word that is quoted. -/
theorem exists_toText_before {number : Nat} {gs hs : List PhraseEntry} {vs : List Text} {w : Text}
    (hgs : ∀ e ∈ gs.filter (!·.isEmpty), e.Listable lines) (hus : ∀ u ∈ us, u.Nameable)
    (hw : w.isPlainWord = false) :
    ∃ a v, (phrases (gs ++ .words number (us ++ w :: vs) :: hs)).toText =
        a ++ byte '\'' :: v ∧
      a.PrintsApart (.mark '~' :: .keyword "trie" ::
        lexemesBefore (gs.filter (!·.isEmpty)) us) := by
  have hmark : (ascii "~ trie ").PrintsApart [.mark '~', .keyword "trie"] :=
    ⟨by decide, by decide, fun _ => rfl⟩
  have hempty : (PhraseEntry.words number (us ++ w :: vs)).isEmpty = false := by cases us <;> rfl
  have hfilter : (gs ++ .words number (us ++ w :: vs) :: hs).filter (!·.isEmpty) =
      gs.filter (!·.isEmpty) ++ .words number (us ++ w :: vs) :: hs.filter (!·.isEmpty) := by
    rw [List.filter_append, List.filter_cons_of_pos (by rw [hempty]; rfl)]
  obtain ⟨a, v, ha, hbefore⟩ := PhraseEntry.exists_source_before number vs hus hw
  obtain ⟨v', hv'⟩ := Text.exists_join_append (ascii ", ")
    ((gs.filter (!·.isEmpty)).map PhraseEntry.source)
    (PhraseEntry.words number (us ++ w :: vs)).source
    ((hs.filter (!·.isEmpty)).map PhraseEntry.source)
  have hlisted := Text.printsApart_flatMap printsApart_comma (Text.delimited_cons rfl) (by decide)
    fun e he => (hgs e he).prints
  refine ⟨_, v ++ v', ?_, (hmark.append_apart hlisted).append_apart hbefore⟩
  rw [toText_phrases (by rw [hfilter]; simp), hfilter, List.map_append, List.map_cons, hv',
    ha, List.flatMap_map]
  simp only [List.append_assoc, List.cons_append]

/-- The first phrase with a single backslash, and its words before this. -/
theorem exists_first_backslash (h : (phrases es).Regular lines)
    (hfiles : ∀ name ∈ (phrases es).files, name.Uncommented)
    (hwords : backslash ∈ (phrases es).phraseWords) :
    ∃ gs number us vs hs, es = gs ++ .words number (us ++ backslash :: vs) :: hs ∧
      (∀ e ∈ gs.filter (!·.isEmpty), e.Listable lines) ∧ ∀ u ∈ us, u.Nameable := by
  obtain ⟨e, he, hback⟩ := List.mem_flatMap.1 hwords
  obtain ⟨gs, e, hs, rfl, hback, hgs⟩ := exists_first (p := (·.wordList.contains backslash))
    ⟨e, he, List.contains_iff_mem.2 hback⟩
  cases e with
  | file => cases hback
  | words number ws =>
    obtain ⟨us, vs, rfl, hus⟩ := List.eq_append_cons_of_mem (List.contains_iff_mem.1 hback)
    refine ⟨gs, number, us, vs, hs, rfl, fun e he => ?_, fun u hu => ?_⟩
    · obtain ⟨he, hempty⟩ := List.mem_filter.1 he
      have hname : ∀ name ∈ e.file?, name.Uncommented := by
        intro name hname
        exact hfiles name (List.mem_filterMap.2 ⟨e, List.mem_append_left _ he, hname⟩)
      exact Statement.listable_of_regular (h e (List.mem_append_left _ he)) hname
        (by simpa using hgs e he) (by simpa using hempty)
    · have hregular := h _ (List.mem_append_right gs List.mem_cons_self) u
        (List.mem_append_left _ hu)
      exact hregular.resolve_right fun hback => hus (hback ▸ hu)

/-- The source form of phrases of which one has a single backslash. Before this word, the phrases
are read as they were; then a quote follows, and what is read there is another word. -/
theorem exists_not_alike (h : (phrases es).Regular lines)
    (hfiles : ∀ name ∈ (phrases es).files, name.Uncommented)
    (hwords : backslash ∈ (phrases es).phraseWords) :
    ∃ a v ls, (phrases es).toText = a ++ byte '\'' :: v ∧ a.PrintsApart (.mark '~' :: ls) ∧
      .mark ';' ∉ ls ∧
      ∀ stop (ts : Rest) l ms g, (l.kind = .quoted ∨ l.kind = .unterminated) →
        (∀ t ∈ ts, t.Tidy) → ts.map SourceToken.lexeme = .mark '~' :: (ls ++ l :: ms) →
        Statement.generator? lines stop ts = .ok g → ¬ (phrases es).Alike g := by
  obtain ⟨gs, number, us, vs, hs, rfl, hgs, hus⟩ := exists_first_backslash h hfiles hwords
  obtain ⟨a, v, htext, hbefore⟩ := exists_toText_before (w := backslash) hgs hus (by decide)
  refine ⟨a, v, _, htext, hbefore, ?_, fun stop ts l ms g hl htidy hts hread => ?_⟩
  · exact fun hmem => (List.mem_cons.1 hmem).elim Lexeme.mark_ne_keyword
      (Statement.semicolon_not_mem_lexemesBefore hgs)
  · have hrest := map_tail_of_cons (map_tail_of_cons hts)
    rw [Statement.generator?_of_trie hts] at hread
    obtain ⟨w, ws, es, hw, rfl⟩ := Statement.phrases?_of_quoted hgs hl
      (tidy_of_suffix htidy (suffix_tail.trans suffix_tail)) hrest hread
    exact Statement.not_alike_of_word hw

end Generator

namespace Statement
variable {lines : LineReader}

/-- The source form of a statement with a single backslash among the words of its phrases. Before
the word, it is read as it was; then a quote follows and the statement is another one. -/
theorem Listable.exists_not_alike {st : Statement} (h : st.Listable lines)
    (hwords : backslash ∈ st.phraseWords) :
    ∃ a v ls, st.toText = a ++ byte '\'' :: v ∧ a.PrintsApart ls ∧ ls ≠ [] ∧ .mark ';' ∉ ls ∧
      ∀ (s : Segment) l ms st', (l.kind = .quoted ∨ l.kind = .unterminated) →
        (∀ t ∈ s.tokens, t.Tidy) → s.tokens.map SourceToken.lexeme = ls ++ l :: ms →
        ofSegment? lines s = .ok st' → ¬ st.Alike st' := by
  obtain ⟨hnames, hfiles, hregular⟩ := h
  cases st with
  | label la =>
    obtain ⟨effect, scope, g⟩ := la
    obtain ⟨heffect, hscope⟩ := List.forall_mem_append.1 hnames
    cases g with
    | extractions | rejections => cases hwords
    | phrases es =>
      have hhead := Labeling.printsApart_head heffect (List.forall_mem_singleton.1 hscope)
      obtain ⟨a, v, ls, htext, hbefore, hsemi, hread⟩ :=
        Generator.exists_not_alike hregular hfiles hwords
      refine ⟨_, v, _, ?_, hhead.append_apart hbefore, by simp, ?_, ?_⟩
      · rw [List.append_assoc, ← htext]
        rfl
      · have hmark : Lexeme.mark ';' ≠ .mark '~' := by decide
        simp [Labeling.semicolon_not_mem_headLexemes, hmark, hsemi]
      · intro s l ms st' hl htidy hs hst
        rw [List.append_assoc] at hs
        obtain ⟨ts, hts, hlabel⟩ := ofSegment?_label_iff lines st' (.inr (.inr rfl)) hs
        obtain ⟨g, hg, rfl⟩ := hlabel.1 hst
        rintro ⟨-, -, halike⟩
        refine hread s.stop ts l ms g hl (fun t ht => ?_) hts hg halike
        have hmem : t.lexeme ∈ s.tokens.map SourceToken.lexeme := by
          have ht' := List.mem_map_of_mem (f := SourceToken.lexeme) ht
          rw [hts] at ht'
          rw [hs]
          exact List.mem_append_right _ ht'
        obtain ⟨t', ht', heq⟩ := List.mem_map.1 hmem
        exact (htidy t' ht').congr heq
  | _ => cases hwords

end Statement

end SpanRules
