import SpanRules.Proofs.Statement.Reread.Phrases

/-! Reading the source form of a labeling statement: its effect, its scope and its generator. -/
namespace SpanRules

namespace Text

theorem intercalate_nil_singletons {α : Type} (xs : List α) :
    ([] : List α).intercalate (xs.map fun x => [x]) = xs := by
  induction xs with
  | nil => rfl
  | cons x xs ih =>
    cases xs with
    | nil => rfl
    | cons y xs =>
      rw [List.map_cons, List.map_cons, List.intercalate_cons_cons]
      exact congrArg (x :: ·) ih

/-- Tokens with blanks between them are scanned as what they are. -/
theorem prints_tokens {ts : List SourceToken} (htidy : ∀ t ∈ ts, t.Tidy)
    (hend : ∀ t ∈ ts, t.kind ≠ .unterminated) :
    (join (ascii " ") (ts.map (·.text))).Prints (ts.map SourceToken.lexeme) := by
  have hjoin : (join (ascii " ") (ts.map (·.text))).Prints
      (List.intercalate [] (ts.map fun t => [t.lexeme])) :=
    prints_join printsApart_blank (delimited_cons rfl) (by decide) fun t ht =>
      (htidy t ht).genuine.prints (htidy t ht).blank (hend t ht) (htidy t ht).quiet
  have hlexemes : ts.map (fun t => [t.lexeme]) = (ts.map SourceToken.lexeme).map fun l => [l] := by
    rw [List.map_map]
    rfl
  rwa [hlexemes, intercalate_nil_singletons] at hjoin

end Text

namespace Generator
variable {lines : LineReader} {g : Generator} {p : Pattern} {es : List PhraseEntry}

/-- Whether the source form of a generator begins with one of its marks and is read as the generator
that is listed in its place. -/
def Rereads (lines : LineReader) (g : Generator) : Prop :=
  ∃ c ls, (c = ':' ∨ c = '-' ∨ c = '~') ∧ g.toText.Prints (.mark c :: ls) ∧ .mark ';' ∉ ls ∧
    ∀ stop ts, ts.map SourceToken.lexeme = .mark c :: ls →
      Statement.generator? lines stop ts = .ok g.relisted

theorem rereads_of_derives {c : Char} {ls : List Lexeme} (hc : c = ':' ∨ c = '-' ∨ c = '~')
    (hprints : g.toText.Prints (.mark c :: ls)) (hsemi : .mark ';' ∉ ls)
    (h : Derives lines (.mark c :: ls) g.relisted) : g.Rereads lines := by
  refine ⟨c, ls, hc, hprints, hsemi, fun stop ts hts => ?_⟩
  have hstarts : Statement.startsGenerator ts = true :=
    Statement.startsGenerator_iff.2 (hts ▸ h.head)
  rw [Statement.generator?_eq_ok_iff hstarts, hts]
  exact h

/-- The lexemes of a pattern are those of the tokens that it was read from. -/
theorem prints_pattern {ts : List SourceToken}
    (hp : Pattern.Derives (ts.map SourceToken.lexeme) (p.alternatives.map (·.elements)))
    (hsource : p.source = (ts.map SourceToken.lexeme).map (·.text)) (htidy : ∀ t ∈ ts, t.Tidy) :
    p.toText.Prints (ts.map SourceToken.lexeme) ∧ .mark ';' ∉ ts.map SourceToken.lexeme := by
  refine ⟨?_, fun hmem => ?_⟩
  · rw [Pattern.toText, hsource, List.map_map]
    exact Text.prints_tokens htidy fun t ht =>
      Pattern.finished_of_derives hp t.lexeme (List.mem_map_of_mem ht)
  · obtain ⟨t, ht, hsemi⟩ := List.mem_map.1 hmem
    have hmark := SourceToken.isSymbol_iff.2 hsemi
    rw [(htidy t ht).semicolon] at hmark
    cases hmark

/-- A generator with a pattern is read behind its mark, whichever of the two marks this is. -/
theorem rereads_of_pattern {c : Char} {mark : Text} (hc : c = ':' ∨ c = '-' ∨ c = '~')
    (hmark : mark.PrintsApart [.mark c]) (htext : g.toText = mark ++ p.toText)
    (hread : ∃ s, Pattern.ofSegment? s = .ok p ∧ ∀ t ∈ s.tokens, t.Tidy)
    (hderives : ∀ {ls : List Lexeme}, Pattern.Derives ls (p.alternatives.map (·.elements)) →
      p.source = ls.map (·.text) → Derives lines (.mark c :: ls) g.relisted) : g.Rereads lines := by
  obtain ⟨s, hp, htidy⟩ := hread
  obtain ⟨hpattern, hsource⟩ := Statement.ofSegment?_pattern_eq_ok_iff.1 hp
  obtain ⟨hprints, hsemi⟩ := prints_pattern hpattern hsource htidy
  exact rereads_of_derives hc (htext ▸ hmark.append hprints) hsemi (hderives hpattern hsource)

theorem rereads_extractions (h : (extractions p).Regular lines) :
    (extractions p).Rereads lines :=
  rereads_of_pattern (.inl rfl) ⟨by decide, by decide, fun _ => rfl⟩ rfl h .extractions

theorem rereads_rejections (h : (rejections p).Regular lines) :
    (rejections p).Rereads lines :=
  rereads_of_pattern (.inr (.inl rfl)) ⟨by decide, by decide, fun _ => rfl⟩ rfl h .rejections

theorem toText_phrases (h : es.filter (!·.isEmpty) ≠ []) :
    (phrases es).toText = ascii "~ trie " ++
      Text.join (ascii ", ") ((es.filter (!·.isEmpty)).map PhraseEntry.source) := by
  obtain ⟨e, listed, heq⟩ := List.exists_cons_of_ne_nil h
  rw [toText, PhraseEntry.filterMap_toText?, heq]
  rfl

theorem rereads_phrases (hes : ∀ e ∈ es, e.isEmpty = false → e.Listable lines) :
    (phrases es).Rereads lines := by
  by_cases hnil : es.filter (!·.isEmpty) = []
  · have hprints : (phrases es).toText.Prints [.mark '~', .keyword "trie"] := by
      have hword : (ascii "trie").Prints [.keyword "trie"] :=
        prints_keyword (by decide) (by decide)
      have hmark : (ascii "~ ").PrintsApart [.mark '~'] := ⟨by decide, by decide, fun _ => rfl⟩
      rw [toText, PhraseEntry.filterMap_toText?, hnil]
      exact hmark.append hword
    have hderives : Derives lines [.mark '~', .keyword "trie"] (phrases es).relisted := by
      rw [relisted, PhraseEntry.relist, if_pos hnil]
      exact .phrases (List.forall_mem_nil _)
        (.cons (.words fun _ h => List.cons_ne_nil _ _ h.1.symm) .nil)
    exact rereads_of_derives (.inr (.inr rfl)) hprints (by simp) hderives
  · have hlisted : ∀ e ∈ es.filter (!·.isEmpty), e.Listable lines := by
      intro e he
      obtain ⟨he, hempty⟩ := List.mem_filter.1 he
      exact hes e he (by simpa using hempty)
    have hmark : (ascii "~ trie ").PrintsApart [.mark '~', .keyword "trie"] :=
      ⟨by decide, by decide, fun _ => rfl⟩
    have hprints := Text.prints_join printsApart_comma (Text.delimited_cons rfl) (by decide)
      fun e he => (hlisted e he).prints
    have hsemi : ∀ l ∈ [Lexeme.mark ','].intercalate
        ((es.filter (!·.isEmpty)).map PhraseEntry.lexemes), l ≠ .mark ';' :=
      forall_mem_intercalate (List.forall_mem_singleton.2 (by decide)) (List.forall_mem_map.2
        fun e he l hl => ((hlisted e he).solid l hl).ne_mark (by decide))
    have hderives := PhraseEntry.derives_phrases hnil hlisted
    refine rereads_of_derives (.inr (.inr rfl)) (toText_phrases hnil ▸ hmark.append hprints)
      ?_ ?_
    · simpa using fun hmem => hsemi _ hmem rfl
    · rw [relisted, PhraseEntry.relist, if_neg hnil]
      exact hderives

end Generator

namespace Effect
variable {e : Effect}

def lexemes : Effect → List Lexeme
  | spanType type => [.keyword "defSpanType", type.nameLexeme]
  | spanProperty key value =>
    [.keyword "defSpanProp", key.nameLexeme, .mark ':', value.nameLexeme]
  | tokenProperty key value =>
    [.keyword "defTokenProp", key.nameLexeme, .mark ':', value.nameLexeme]

theorem prints_property {w : String} {word key value : Text}
    (hword : word.PrintsApart [.keyword w]) (hkey : key.Nameable) (hvalue : value.Nameable) :
    (word ++ key.quoteIfNeeded ++ ascii ":" ++ value.quoteIfNeeded).Prints
      [.keyword w, key.nameLexeme, .mark ':', value.nameLexeme] := by
  have hcolon : (ascii ":").PrintsApart [.mark ':'] := ⟨by decide, by decide, fun _ => rfl⟩
  have hleft := (hword.append hkey.prints).append_apart hcolon (Text.delimited_cons rfl) (by decide)
  exact hleft.append hvalue.prints

theorem prints (h : ∀ n ∈ e.names, n.Nameable) : e.toText.Prints e.lexemes := by
  cases e with
  | spanType type =>
    have hword : (ascii "defSpanType ").PrintsApart [.keyword "defSpanType"] :=
      ⟨by decide, by decide, fun _ => rfl⟩
    exact hword.append (List.forall_mem_singleton.1 h).prints
  | spanProperty key value =>
    have hword : (ascii "defSpanProp ").PrintsApart [.keyword "defSpanProp"] :=
      ⟨by decide, by decide, fun _ => rfl⟩
    obtain ⟨hkey, hvalue⟩ := List.forall_mem_cons.1 h
    exact prints_property hword hkey (List.forall_mem_singleton.1 hvalue)
  | tokenProperty key value =>
    have hword : (ascii "defTokenProp ").PrintsApart [.keyword "defTokenProp"] :=
      ⟨by decide, by decide, fun _ => rfl⟩
    obtain ⟨hkey, hvalue⟩ := List.forall_mem_cons.1 h
    exact prints_property hword hkey (List.forall_mem_singleton.1 hvalue)

theorem semicolon_not_mem_lexemes : .mark ';' ∉ e.lexemes := by
  have hcolon : Lexeme.mark ';' ≠ .mark ':' := by decide
  cases e <;> simp [lexemes, hcolon]

end Effect

namespace Labeling
variable {l : Labeling}

def head (l : Labeling) : Text :=
  l.effect.toText ++ ascii " = " ++
    (if l.scope = [] then [] else l.scope.quoteIfNeeded ++ ascii " ")

def headLexemes (l : Labeling) : List Lexeme :=
  l.effect.lexemes ++ .mark '=' :: (if l.scope = [] then [] else [l.scope.nameLexeme])

theorem printsApart_head (heffect : ∀ n ∈ l.effect.names, n.Nameable) (hscope : l.scope.Nameable) :
    l.head.PrintsApart l.headLexemes := by
  have hleft := (Effect.prints heffect).append_equals
  by_cases hnil : l.scope = []
  · rw [head, headLexemes, if_pos hnil, if_pos hnil, List.append_nil]
    exact hleft
  · have hname := (hleft.append hscope.prints).append_blank
    rw [head, headLexemes, if_neg hnil, if_neg hnil, List.append_cons, ← List.append_assoc]
    exact hname

theorem semicolon_not_mem_headLexemes : .mark ';' ∉ l.headLexemes := by
  have heq : Lexeme.mark ';' ≠ .mark '=' := by decide
  unfold headLexemes
  split <;> simp [Effect.semicolon_not_mem_lexemes, heq]

end Labeling

namespace Statement
variable {lines : LineReader} {l : Labeling} {ls : List Lexeme} {ts : Rest} {s : Segment}
  {c : Char} {stop : SourceToken}
open Text (names_nameLexeme)

theorem labeling?_of_lexemes (lines : LineReader) (stop : SourceToken) (effect : Effect)
    {scope : Text} (hc : c = ':' ∨ c = '-' ∨ c = '~')
    (h : ts.map SourceToken.lexeme = .mark '=' ::
      ((if scope = [] then [] else [scope.nameLexeme]) ++ .mark c :: ls)) :
    ∃ us : Rest, us.map SourceToken.lexeme = .mark c :: ls ∧
      labeling? lines stop effect ts =
        (generator? lines stop us >>= fun g => .ok (.label ⟨effect, scope, g⟩)) := by
  have hstarts : ∀ {us : Rest}, us.map SourceToken.lexeme = .mark c :: ls →
      startsGenerator us = true := by
    intro us hus
    have hmark := nextIs_of_mark hus
    rcases hc with rfl | rfl | rfl <;> simp [startsGenerator, hmark]
  have htail := map_tail_of_cons h
  rw [labeling?, expect_of_mark h]
  by_cases hscope : scope = []
  · rw [if_pos hscope, List.nil_append] at htail
    refine ⟨ts.tail, htail, ?_⟩
    show (if startsGenerator ts.tail = true then _ else _) = _
    rw [if_pos (hstarts htail), hscope]
    rfl
  · rw [if_neg hscope] at htail
    have hrest := map_tail_of_cons htail
    have hname : startsGenerator ts.tail = false := by
      simp [startsGenerator, nextIs_of_ne htail Lexeme.nameLexeme_ne_mark]
    refine ⟨ts.tail.tail, hrest, ?_⟩
    show (if startsGenerator ts.tail = true then _ else _) = _
    rw [if_neg (by rw [hname]; decide), name?_of_names htail (names_nameLexeme scope)]
    show (if startsGenerator ts.tail.tail = true then _ else _) = _
    rw [if_pos (hstarts hrest)]
    rfl

theorem property?_of_lexemes {effect : Text → Text → Effect} {key value : Text}
    (h : ts.map SourceToken.lexeme = key.nameLexeme :: .mark ':' :: value.nameLexeme :: ls) :
    property? lines stop effect ts = labeling? lines stop (effect key value) ts.tail.tail.tail := by
  have hrest := map_tail_of_cons h
  rw [property?, name?_of_names h (names_nameLexeme key)]
  show (if nextIs ':' ts.tail = true then _ else _) = _
  rw [if_pos (nextIs_of_mark hrest),
    name?_of_names (map_tail_of_cons hrest) (names_nameLexeme value)]
  rfl

theorem spanType?_of_lexemes {type : Text}
    (h : ts.map SourceToken.lexeme = type.nameLexeme :: .mark '=' :: ls) :
    spanType? lines stop ts = labeling? lines stop (.spanType type) ts.tail := by
  rw [spanType?, name?_of_names h (names_nameLexeme type)]
  show (if nextIs ':' ts.tail = true then _ else _) = _
  rw [if_neg (by rw [nextIs_of_ne (map_tail_of_cons h) (by decide)]; decide)]

/-- The effect of a labeling statement, as it is read. -/
theorem ofSegment?_effect (lines : LineReader) (st : Statement) {effect : Effect}
    (h : s.tokens.map SourceToken.lexeme = effect.lexemes ++ .mark '=' :: ls) :
    ∃ us : Rest, us.map SourceToken.lexeme = .mark '=' :: ls ∧
      (ofSegment? lines s = .ok st ↔ labeling? lines s.stop effect us = .ok st) := by
  cases effect with
  | spanType type =>
    have hts := map_tail_of_cons h
    refine ⟨_, map_tail_of_cons hts, ?_⟩
    rw [ofSegment?_eq_ok_iff h, ← spanType?_of_lexemes hts]
    rfl
  | spanProperty key value =>
    have hts := map_tail_of_cons h
    refine ⟨_, map_tail_of_cons (map_tail_of_cons (map_tail_of_cons hts)), ?_⟩
    rw [ofSegment?_eq_ok_iff h, ← property?_of_lexemes hts]
    rfl
  | tokenProperty key value =>
    have hts := map_tail_of_cons h
    refine ⟨_, map_tail_of_cons (map_tail_of_cons (map_tail_of_cons hts)), ?_⟩
    rw [ofSegment?_eq_ok_iff h, ← property?_of_lexemes hts]
    rfl

/-- A labeling statement is read up to its generator, whatever this is. -/
theorem ofSegment?_label_iff (lines : LineReader) (st : Statement)
    (hc : c = ':' ∨ c = '-' ∨ c = '~')
    (h : s.tokens.map SourceToken.lexeme = l.headLexemes ++ .mark c :: ls) :
    ∃ us : Rest, us.map SourceToken.lexeme = .mark c :: ls ∧
      (ofSegment? lines s = .ok st ↔
        ∃ g, generator? lines s.stop us = .ok g ∧ label { l with generator := g } = st) := by
  rw [Labeling.headLexemes, List.append_assoc] at h
  obtain ⟨ts, hts, hbody⟩ := ofSegment?_effect lines st h
  obtain ⟨us, hus, hread⟩ := labeling?_of_lexemes lines s.stop l.effect hc hts
  refine ⟨us, hus, ?_⟩
  rw [hbody, hread, Reading.bind_eq_ok_iff]
  exact exists_congr fun g => and_congr_right fun _ => ⟨Except.ok.inj, congrArg Except.ok⟩

theorem rereads_label (heffect : ∀ n ∈ l.effect.names, n.Nameable) (hscope : l.scope.Nameable)
    (hg : l.generator.Rereads lines) : Rereads lines (label l) := by
  obtain ⟨c, ls, hc, hprints, hsemi, hread⟩ := hg
  have hmark : Lexeme.mark ';' ≠ .mark c := by rcases hc with rfl | rfl | rfl <;> decide
  refine ⟨l.headLexemes ++ .mark c :: ls, (Labeling.printsApart_head heffect hscope).append hprints,
    by simp, ?_, fun s hs => ?_⟩
  · simp [Labeling.semicolon_not_mem_headLexemes, hmark, hsemi]
  · obtain ⟨us, hus, hlabel⟩ := ofSegment?_label_iff lines _ hc hs
    exact hlabel.2 ⟨_, hread s.stop us hus, rfl⟩

end Statement

end SpanRules
