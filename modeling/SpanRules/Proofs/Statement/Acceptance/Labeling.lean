import SpanRules.Proofs.Pattern.Acceptance
import SpanRules.Proofs.Statement.Acceptance.Dictionary

/-! Reading accepts the grammar of labeling statements: their phrases and patterns, their scopes and
their effects. -/
namespace SpanRules.Statement
variable {lines : LineReader} {ts : Rest} {st : Statement} {stop : SourceToken}

theorem areQuoted_iff : areQuoted ts = true ↔
    ∃ o inner c, ts = o :: (inner ++ [c]) ∧ o.lexeme = .mark '"' ∧ c.lexeme = .mark '"' ∧
      inner ≠ [] := by
  constructor
  · intro h
    simp only [areQuoted, Bool.and_eq_true, decide_eq_true_eq] at h
    obtain ⟨⟨hlength, hopen⟩, hclose⟩ := h
    cases ts with
    | nil => cases hopen
    | cons o us =>
      rcases List.eq_nil_or_concat us with rfl | ⟨inner, c, rfl⟩
      · exact absurd hlength (Nat.not_lt.2 (Nat.le_succ 1))
      · rw [List.concat_eq_append] at hlength hclose ⊢
        rw [← List.cons_append, List.getLast?_concat] at hclose
        refine ⟨o, inner, c, rfl, SourceToken.isSymbol_iff.1 hopen,
          SourceToken.isSymbol_iff.1 hclose, ?_⟩
        rintro rfl
        exact absurd hlength (Nat.lt_irrefl 2)
  · rintro ⟨o, inner, c, rfl, ho, hc, hne⟩
    have hlength : 2 < (o :: (inner ++ [c])).length := by
      have hpos := List.length_pos_iff.2 hne
      simp only [List.length_cons, List.length_append, List.length_nil]
      omega
    have hlast : (o :: (inner ++ [c])).getLast? = some c := by
      rw [← List.cons_append, List.getLast?_concat]
    have hopen : nextIs '"' (o :: (inner ++ [c])) = true := SourceToken.isSymbol_iff.2 ho
    rw [areQuoted, decide_eq_true hlength, hopen, hlast]
    exact SourceToken.isSymbol_iff.2 hc

theorem encloses_iff {inner : List Lexeme} : Lexeme.Encloses (ts.map SourceToken.lexeme) inner ↔
    areQuoted ts = true ∧ ts.tail.dropLast.map SourceToken.lexeme = inner := by
  rw [areQuoted_iff]
  constructor
  · rintro ⟨hts, hne⟩
    obtain ⟨o, us, rfl, ho, hus⟩ := List.map_eq_cons_iff.1 hts
    obtain ⟨vs, cs, rfl, rfl, hcs⟩ := List.map_eq_append_iff.1 hus
    obtain ⟨c, rfl, hc⟩ := List.map_eq_singleton_iff.1 hcs
    refine ⟨⟨o, vs, c, rfl, ho, hc, mt List.map_eq_nil_iff.2 hne⟩, ?_⟩
    rw [List.tail_cons, List.dropLast_concat]
  · rintro ⟨⟨o, vs, c, rfl, ho, hc, hne⟩, rfl⟩
    rw [List.tail_cons, List.dropLast_concat]
    refine ⟨?_, mt List.map_eq_nil_iff.1 hne⟩
    simp [ho, hc]

theorem phrase?_eq_ok_iff {number : Nat} {e : PhraseEntry} : phrase? lines number ts = .ok e ↔
    PhraseEntry.Derives lines number (ts.map SourceToken.lexeme) e := by
  have hname : quotedName ts = (ts.tail.dropLast.map SourceToken.lexeme).flatMap (·.text) := by
    rw [List.flatMap_map]
    rfl
  unfold phrase?
  split
  · rename_i hquoted
    have hencloses := encloses_iff.2 ⟨hquoted, rfl⟩
    simp only [Reading.bind_eq_ok_iff, readLines_eq_ok_iff, hname]
    constructor
    · rintro ⟨ws, hws, h⟩
      cases h
      exact .file hencloses hws
    · intro h
      cases h with
      | words hnot => exact absurd hencloses (hnot _)
      | file hinner hws =>
        obtain ⟨-, rfl⟩ := encloses_iff.1 hinner
        exact ⟨_, hws, rfl⟩
  · rename_i hquoted
    constructor
    · intro h
      cases h
      have hwords : ts.map (·.text.unquote) =
          (ts.map SourceToken.lexeme).map (·.text.unquote) := by
        rw [List.map_map]
        rfl
      rw [hwords]
      exact .words fun inner hinner => hquoted (encloses_iff.1 hinner).1
    · intro h
      cases h with
      | words =>
        rw [List.map_map]
        rfl
      | file hinner => exact absurd (encloses_iff.1 hinner).1 hquoted

theorem map_lexeme_phraseTokens (ts : Rest) :
    (phraseTokens ts).map (·.map SourceToken.lexeme) =
      (ts.map SourceToken.lexeme).splitOn (.mark ',') := by
  rw [phraseTokens, List.map_map]
  exact Segment.map_lexeme_split ',' default ts

theorem phrases?_iff_derives {g : Generator} : phrases? lines ts = .ok g ↔
    (∀ l ∈ ts.map SourceToken.lexeme, l.kind ≠ .unterminated) ∧ ∃ es,
      List.Forall₂ (fun part e => PhraseEntry.Derives lines part.2 part.1 e)
        ((ts.map SourceToken.lexeme).splitOn (.mark ',')).zipIdx es ∧ .phrases es = g := by
  rw [phrases?_eq_ok_iff, ← map_lexeme_phraseTokens, List.zipIdx_map]
  simp only [Reading.mapM_eq_ok_iff, phrase?_eq_ok_iff, List.forall₂_map_left_iff,
    List.forall_mem_map]
  rfl

theorem startsGenerator_iff : startsGenerator ts = true ↔
    ∃ l ls, ts.map SourceToken.lexeme = l :: ls ∧
      (l = .mark ':' ∨ l = .mark '-' ∨ l = .mark '~') := by
  cases ts with
  | nil => simp [startsGenerator, nextIs]
  | cons t ts => simp [startsGenerator, nextIs, SourceToken.isSymbol_iff, or_assoc]

/-- What follows the equals sign is a name or a generator, and never both. -/
theorem startsGenerator_of_name {ls ms : List Lexeme} {n : Text} (h : Name.Derives ls n)
    (hts : ts.map SourceToken.lexeme = ls ++ ms) : startsGenerator ts = false := by
  have hnext : ∀ c, byte c ≠ byte '"' → nextIs c ts = false := fun _ => nextIs_of_name h hts
  rw [startsGenerator, hnext ':' (by decide), hnext '-' (by decide), hnext '~' (by decide)]
  rfl

theorem ofSegment?_pattern_eq_ok_iff {us : Rest} {p : Pattern} :
    Pattern.ofSegment? ⟨us, stop⟩ = .ok p ↔
      Pattern.Derives (us.map SourceToken.lexeme) (p.alternatives.map (·.elements)) ∧
        p.source = (us.map SourceToken.lexeme).map (·.text) := by
  rw [Pattern.ofSegment?_eq_ok_iff, List.map_map]
  rfl

theorem generator?_of_trie {ls : List Lexeme}
    (hts : ts.map SourceToken.lexeme = .mark '~' :: .keyword "trie" :: ls) :
    generator? lines stop ts = phrases? lines ts.tail.tail := by
  have htail := map_tail_of_cons hts
  rw [generator?, if_pos (nextIs_of_mark hts)]
  obtain ⟨t, us, hus, ht, -⟩ := List.map_eq_cons_iff.1 htail
  have hre : ts.tail.head?.any (·.isWord "re") = false := by
    have htext : t.text = ascii "trie" := congrArg Lexeme.text ht
    rw [hus]
    simp only [List.head?_cons, Option.any_some, SourceToken.isWord, htext]
    exact Bool.and_false _
  rw [hre, head?_isWord_of_keyword htail]
  rfl

theorem generator?_eq_ok_iff {g : Generator} (hstarts : startsGenerator ts = true) :
    generator? lines stop ts = .ok g ↔
      Generator.Derives lines (ts.map SourceToken.lexeme) g := by
  constructor
  · intro h
    unfold generator? at h
    split at h
    · rename_i htilde
      split at h
      · exact absurd h regex?_ne_ok
      · split at h
        · rename_i htrie
          obtain ⟨hend, es, hes, rfl⟩ := phrases?_iff_derives.1 h
          rw [(Takes.mark htilde).trans (Takes.word htrie)]
          exact .phrases hend hes
        · cases h
    · rename_i htilde
      split at h
      · cases h
      · rename_i p hp
        obtain ⟨hderives, hsource⟩ := ofSegment?_pattern_eq_ok_iff.1 hp
        cases h
        split
        · rename_i hcolon
          rw [nextIs_iff.1 hcolon]
          exact .extractions hderives hsource
        · rename_i hcolon
          have hminus : nextIs '-' ts = true := by
            simpa [startsGenerator, hcolon, htilde] using hstarts
          rw [nextIs_iff.1 hminus]
          exact .rejections hderives hsource
  · intro h
    generalize hls : ts.map SourceToken.lexeme = ls at h
    cases h with
    | extractions hderives hsource =>
      obtain rfl := map_tail_of_cons hls
      rw [generator?, nextIs_of_ne hls (by decide), nextIs_of_mark hls,
        ofSegment?_pattern_eq_ok_iff.2 ⟨hderives, hsource⟩]
      rfl
    | rejections hderives hsource =>
      obtain rfl := map_tail_of_cons hls
      rw [generator?, nextIs_of_ne hls (by decide), nextIs_of_ne hls (by decide),
        ofSegment?_pattern_eq_ok_iff.2 ⟨hderives, hsource⟩]
      rfl
    | phrases hend hes =>
      obtain rfl := map_tail_of_cons (map_tail_of_cons hls)
      rw [generator?_of_trie hls]
      exact phrases?_iff_derives.2 ⟨hend, _, hes, rfl⟩

theorem ite_startsGenerator_eq_ok_iff {effect : Effect} {scope : Text} :
    (if startsGenerator ts = true then
        generator? lines stop ts >>= fun g => pure (label ⟨effect, scope, g⟩)
      else stopAt ts .generatorExpected) = .ok st ↔
      ∃ g, Generator.Derives lines (ts.map SourceToken.lexeme) g ∧
        label ⟨effect, scope, g⟩ = st := by
  split
  · rename_i hstarts
    rw [Reading.bind_pure_eq_ok_iff]
    simp only [generator?_eq_ok_iff hstarts]
  · rename_i hstarts
    refine ⟨nofun, ?_⟩
    rintro ⟨g, hg, -⟩
    exact absurd (startsGenerator_iff.2 hg.head) hstarts

theorem labeling?_eq_ok_iff {effect : Effect} (hts : NoneEmpty ts) :
    labeling? lines stop effect ts = .ok st ↔
      ∃ l, Labeling.Derives lines effect (ts.map SourceToken.lexeme) l ∧ label l = st := by
  have hread : labeling? lines stop effect ts = .ok st ↔
      ∃ ls, ts.map SourceToken.lexeme = .mark '=' :: ls ∧
        ∃ ms os scope, ls = ms ++ os ∧ Name.DerivesOptional ms scope ∧
          ∃ g, Generator.Derives lines os g ∧ label ⟨effect, scope, g⟩ = st := by
    apply expect_bind_eq_ok_iff
    have hus := hts.tail
    generalize ts.tail = us at hus
    simp only
    split
    · rename_i hstarts
      have hgenerator : (generator? lines stop us >>= fun g => pure (label ⟨effect, [], g⟩)) =
          .ok st ↔ ∃ g, Generator.Derives lines (us.map SourceToken.lexeme) g ∧
            label ⟨effect, [], g⟩ = st := by
        rw [← ite_startsGenerator_eq_ok_iff, if_pos hstarts]
      refine hgenerator.trans ⟨?_, ?_⟩
      · rintro ⟨g, hg, rfl⟩
        exact ⟨[], _, [], rfl, .none, g, hg, rfl⟩
      · rintro ⟨ms, os, scope, hus, hscope, h⟩
        cases hscope with
        | none =>
          rw [hus]
          exact h
        | some hname =>
          rw [startsGenerator_of_name hname hus] at hstarts
          cases hstarts
    · rename_i hstarts
      have hscope : (name? .scope us >>= fun x => if startsGenerator x.2 = true then
            generator? lines stop x.2 >>= fun g => pure (label ⟨effect, x.1, g⟩)
          else stopAt x.2 .generatorExpected) = .ok st ↔
          ∃ ms os scope, us.map SourceToken.lexeme = ms ++ os ∧ Name.Derives ms scope ∧
            ∃ g, Generator.Derives lines os g ∧ label ⟨effect, scope, g⟩ = st :=
        (name?_readsFrom hus).bind_eq_ok_iff fun scope vs _ => ite_startsGenerator_eq_ok_iff
      refine hscope.trans ⟨?_, ?_⟩
      · rintro ⟨ms, os, scope, hus, hname, h⟩
        exact ⟨ms, os, scope, hus, .some hname, h⟩
      · rintro ⟨ms, os, scope, hus, hscope, g, hg, h⟩
        cases hscope with
        | none => exact absurd (startsGenerator_iff.2 (hus ▸ hg.head)) hstarts
        | some hname => exact ⟨ms, os, scope, hus, hname, g, hg, h⟩
  rw [hread]
  generalize ts.map SourceToken.lexeme = ls
  constructor
  · rintro ⟨ls, rfl, ms, os, scope, rfl, hscope, g, hg, rfl⟩
    exact ⟨_, .mk hscope hg, rfl⟩
  · rintro ⟨l, ⟨hscope, hg⟩, rfl⟩
    exact ⟨_, rfl, _, _, _, rfl, hscope, _, hg, rfl⟩

theorem spanType?_eq_ok_iff (hts : NoneEmpty ts) : spanType? lines stop ts = .ok st ↔
    ∃ ls ms type, ts.map SourceToken.lexeme = ls ++ ms ∧ Name.Derives ls type ∧
      ∃ l, Labeling.Derives lines (.spanType type) ms l ∧ label l = st := by
  refine (name?_readsFrom hts).bind_eq_ok_iff fun type us hus => ?_
  have hlabeling : labeling? lines stop (.spanType type) us = .ok st ↔ _ :=
    labeling?_eq_ok_iff (hts.suffix hus)
  simp only
  split
  · -- a colon is refused at once, and would not be the equals sign either
    rename_i hcolon
    refine ⟨nofun, ?_⟩
    rintro ⟨l, hl, -⟩
    rw [nextIs_iff.1 hcolon] at hl
    generalize hls : Lexeme.mark ':' :: _ = ls at hl
    cases hl
    exact absurd (List.cons.inj hls).1 (by decide)
  · exact hlabeling

theorem property?_eq_ok_iff {effect : Text → Text → Effect} (hts : NoneEmpty ts) :
    property? lines stop effect ts = .ok st ↔
      ∃ ls ms key, ts.map SourceToken.lexeme = ls ++ ms ∧ Name.Derives ls key ∧
        ∃ os, ms = .mark ':' :: os ∧
          ∃ ls' ms' value, os = ls' ++ ms' ∧ Name.Derives ls' value ∧
            ∃ l, Labeling.Derives lines (effect key value) ms' l ∧ label l = st := by
  refine (name?_readsFrom hts).bind_eq_ok_iff fun key us hus => ?_
  have hus := (hts.suffix hus).tail
  refine ite_nextIs_eq_ok_iff ?_
  refine (name?_readsFrom hus).bind_eq_ok_iff fun value vs hvs => ?_
  exact labeling?_eq_ok_iff (hus.suffix hvs)

end SpanRules.Statement
