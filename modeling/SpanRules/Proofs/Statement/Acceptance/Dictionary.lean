import SpanRules.Proofs.Statement.Acceptance.Names

/-! Reading accepts the grammar of dictionaries. -/
namespace SpanRules.Statement
variable {lines : LineReader} {ts rest : Rest} {st : Statement}

theorem readLines_eq_ok_iff {file : Text} {ws : List Text} :
    readLines lines file rest = .ok ws ↔ lines file = .ok ws := by
  refine ⟨readLines_eq_ok, fun h => ?_⟩
  rw [readLines, h]

theorem entry?_readsFrom (hts : NoneEmpty ts) :
    ReadsFrom ts (DictionaryEntry.Derives lines) <| entry? lines ts := by
  intro e rest
  constructor
  · intro h
    cases ts with
    | nil => cases h
    | cons t ts =>
      unfold entry? at h
      simp only at h
      split at h
      · rename_i ht
        obtain ⟨⟨file, us⟩, hfile, h⟩ := Reading.bind_eq_ok_iff.1 h
        obtain ⟨ws, hws, h⟩ := Reading.bind_eq_ok_iff.1 h
        cases h
        obtain ⟨us, rfl, hus⟩ :=
          (fileName?_eq_ok_iff (SourceToken.isSymbol_iff.1 ht) hts.tail).1 hfile
        exact ⟨t :: us, rfl, .file hus (readLines_eq_ok hws)⟩
      · split at h
        · rename_i hname
          cases h
          exact ⟨[t], rfl, .word (SourceToken.isWordOrQuoted_iff.1 hname)⟩
        · cases h
  · rintro ⟨us, rfl, h⟩
    generalize hus : us.map SourceToken.lexeme = ls at h
    cases h with
    | word hname =>
      obtain ⟨t, rfl, rfl⟩ := List.map_eq_singleton_iff.1 hus
      rw [List.singleton_append, entry?, if_neg (mt SourceToken.isSymbol_iff.1 (hname.ne_mark _)),
        if_pos (SourceToken.isWordOrQuoted_iff.2 hname)]
      rfl
    | @file _ name ws hspells hws =>
      obtain ⟨inner, ⟨hls, hne⟩, hinner⟩ := hspells
      obtain ⟨o, vs, rfl, ho, -⟩ := List.map_eq_cons_iff.1 (hus.trans hls)
      have hfile : fileName? (vs ++ rest) = .ok (name, rest) :=
        (fileName?_eq_ok_iff ho hts.tail).2 ⟨vs, rfl, inner, ⟨hus ▸ hls, hne⟩, hinner⟩
      rw [List.cons_append, entry?, if_pos (SourceToken.isSymbol_iff.2 ho), hfile,
        Reading.ok_bind]
      simp only [readLines, hws]
      rfl

/-- Each entry takes a token at least, so that the number of tokens is fuel enough. -/
theorem entries?_eq_ok_iff {fuel : Nat} {es : List DictionaryEntry} (hts : NoneEmpty ts)
    (hfuel : ts.length < fuel) : entries? lines fuel ts = .ok es ↔
      DictionaryEntry.DerivesList lines (ts.map SourceToken.lexeme) es := by
  induction fuel generalizing ts es with
  | zero => exact absurd hfuel (Nat.not_lt_zero _)
  | succ fuel ih =>
    have hread : entries? lines (fuel + 1) ts = .ok es ↔
        ∃ ls ms e, ts.map SourceToken.lexeme = ls ++ ms ∧ DictionaryEntry.Derives lines ls e ∧
          ((ms = [] ∧ [e] = es) ∨ ∃ os, ms = .mark ',' :: os ∧
            ∃ es', DictionaryEntry.DerivesList lines os es' ∧ e :: es' = es) := by
      refine (entry?_readsFrom hts).bind_eq_ok_iff fun e rest hrest => ?_
      cases rest with
      | nil => simp [pure, Except.pure]
      | cons t rest =>
        have hlength : rest.length < fuel := by
          have hle := hrest.length_le
          rw [List.length_cons] at hle
          omega
        have hothers : ∀ {es'}, entries? lines fuel rest = .ok es' ↔
            DictionaryEntry.DerivesList lines (rest.map SourceToken.lexeme) es' :=
          ih (hts.suffix hrest).tail hlength
        have hmore : (if nextIs ',' (t :: rest) = true then
              entries? lines fuel rest >>= fun es => pure (e :: es)
            else stopAt (t :: rest) .commaExpected) = .ok es ↔
            ∃ os, (t :: rest).map SourceToken.lexeme = .mark ',' :: os ∧
              ∃ es', DictionaryEntry.DerivesList lines os es' ∧ e :: es' = es := by
          apply ite_nextIs_eq_ok_iff
          rw [Reading.bind_pure_eq_ok_iff]
          simp only [hothers]
          rfl
        refine Iff.trans hmore ⟨.inr, ?_⟩
        rintro (⟨h, -⟩ | h)
        · cases h
        · exact h
    rw [hread]
    generalize ts.map SourceToken.lexeme = ls
    constructor
    · rintro ⟨ls, ms, e, rfl, he, ⟨rfl, rfl⟩ | ⟨os, rfl, es', hes, rfl⟩⟩
      · rw [List.append_nil]
        exact .last he
      · exact .more he hes
    · intro h
      cases h with
      | last he => exact ⟨_, [], _, (List.append_nil _).symm, he, .inl ⟨rfl, rfl⟩⟩
      | more he hes => exact ⟨_, _, _, rfl, he, .inr ⟨_, rfl, _, hes, rfl⟩⟩

/-- What is read of the definition of a dictionary after the mark of its case. -/
theorem named_entries?_eq_ok_iff {ignoreCase : Bool} (hts : NoneEmpty ts) :
    (name? .dictionary ts >>= fun x => expect '=' x.2 >>= fun rest =>
      entries? lines (rest.length + 1) rest >>= fun es =>
        pure (defineDictionary ⟨x.1, ignoreCase, es⟩)) = .ok st ↔
      ∃ d, DictionaryDefinition.Derives lines (ts.map SourceToken.lexeme) d ∧
        d.ignoreCase = ignoreCase ∧ defineDictionary d = st := by
  have hread : (name? .dictionary ts >>= fun x => expect '=' x.2 >>= fun rest =>
      entries? lines (rest.length + 1) rest >>= fun es =>
        pure (defineDictionary ⟨x.1, ignoreCase, es⟩)) = .ok st ↔
      ∃ ls ms name, ts.map SourceToken.lexeme = ls ++ ms ∧ Name.Derives ls name ∧
        ∃ os, ms = .mark '=' :: os ∧ ∃ es, DictionaryEntry.DerivesList lines os es ∧
          defineDictionary ⟨name, ignoreCase, es⟩ = st := by
    refine (name?_readsFrom hts).bind_eq_ok_iff fun name us hus => ?_
    apply expect_bind_eq_ok_iff
    rw [Reading.bind_pure_eq_ok_iff]
    simp only [entries?_eq_ok_iff (hts.suffix hus).tail (Nat.lt_succ_self _)]
  rw [hread]
  generalize ts.map SourceToken.lexeme = ls
  constructor
  · rintro ⟨ls, ms, name, rfl, hname, os, rfl, es, hes, rfl⟩
    exact ⟨_, .mk hname hes, rfl, rfl⟩
  · rintro ⟨d, ⟨hname, hes⟩, rfl, rfl⟩
    exact ⟨_, _, _, rfl, hname, _, rfl, _, hes, rfl⟩

theorem dictionary?_eq_ok_iff (hts : NoneEmpty ts) : dictionary? lines ts = .ok st ↔
    ∃ ms d, ts.map SourceToken.lexeme = DictionaryDefinition.caseMark d.ignoreCase ++ ms ∧
      DictionaryDefinition.Derives lines ms d ∧ defineDictionary d = st := by
  constructor
  · intro h
    unfold dictionary? at h
    simp only at h
    split at h
    · rename_i hplus
      split at h
      · rename_i hcase
        obtain ⟨d, hd, hignore, rfl⟩ := (named_entries?_eq_ok_iff hts.tail.tail).1 h
        refine ⟨_, d, ?_, hd, rfl⟩
        rw [hignore, hplus]
        exact (Takes.mark hplus).trans (Takes.word hcase)
      · cases h
    · rename_i hplus
      obtain ⟨d, hd, hignore, rfl⟩ := (named_entries?_eq_ok_iff hts).1 h
      refine ⟨_, d, ?_, hd, rfl⟩
      rw [hignore, Bool.eq_false_of_not_eq_true hplus]
      exact Takes.refl ts
  · rintro ⟨ms, d, hms, hd, rfl⟩
    cases hignore : d.ignoreCase with
    | true =>
      obtain rfl : ts.map SourceToken.lexeme = ms := by rw [hms, hignore]; rfl
      have hread := (named_entries?_eq_ok_iff hts).2 ⟨d, hd, hignore, rfl⟩
      have hplus : nextIs '+' ts = false := by
        generalize hls : ts.map SourceToken.lexeme = ls at hd
        obtain ⟨hname, -⟩ := hd
        exact nextIs_of_name hname hls (by decide)
      rw [dictionary?, hplus]
      exact hread
    | false =>
      have hplus : ts.map SourceToken.lexeme = .mark '+' :: .keyword "case" :: ms := by
        rw [hms, hignore]
        rfl
      have hcase := map_tail_of_cons hplus
      obtain rfl := map_tail_of_cons hcase
      have hread := (named_entries?_eq_ok_iff hts.tail.tail).2 ⟨d, hd, hignore, rfl⟩
      rw [dictionary?, nextIs_of_mark hplus]
      simp only [head?_isWord_of_keyword hcase]
      exact hread

end SpanRules.Statement
