import SpanRules.Proofs.Statement.Acceptance.Labeling

/-! Reading statements accepts their grammar: a statement is read from tokens exactly if it is
derived from their lexemes. -/
namespace SpanRules.Statement
variable {lines : LineReader} {role : NameRole} {ts : Rest} {st : Statement} {stop : SourceToken}

theorem map_lastName?_eq_ok_iff {f : Text → Statement} (hts : NoneEmpty ts) :
    (f <$> lastName? role ts) = .ok st ↔
      ∃ n, Name.Derives (ts.map SourceToken.lexeme) n ∧ f n = st := by
  rw [map_eq_pure_bind]
  exact lastName?_bind_eq_ok_iff hts

theorem derives_of_body? {keyword : Text} (hts : NoneEmpty ts)
    (h : body? lines stop keyword ts = .ok st) :
    Derives lines (⟨.word, keyword⟩ :: ts.map SourceToken.lexeme) st := by
  -- one case for each keyword, in the order in which they are tried
  rw [body?] at h
  rcases ite_eq_iff.1 h with ⟨rfl, h⟩ | ⟨-, h⟩
  · obtain ⟨n, hn, rfl⟩ := (map_lastName?_eq_ok_iff hts).1 h
    exact .declareType hn
  rcases ite_eq_iff.1 h with ⟨rfl, h⟩ | ⟨-, h⟩
  · obtain ⟨n, hn, rfl⟩ := (map_lastName?_eq_ok_iff hts).1 h
    exact .provide hn
  rcases ite_eq_iff.1 h with ⟨rfl, h⟩ | ⟨-, h⟩
  · obtain ⟨ls, ms, type, hls, htype, h⟩ := (require?_eq_ok_iff hts).1 h
    rw [hls]
    rcases h with ⟨rfl, rfl⟩ | ⟨os, rfl, file, hfile, rfl⟩
    · rw [List.append_nil]
      exact .require htype
    · exact .requireFrom htype hfile
  rcases ite_eq_iff.1 h with ⟨rfl, h⟩ | ⟨-, h⟩
  · obtain ⟨n, hn, rfl⟩ := (map_lastName?_eq_ok_iff hts).1 h
    exact .annotateWith hn
  rcases ite_eq_iff.1 h with ⟨rfl, h⟩ | ⟨-, h⟩
  · obtain ⟨n, hn, rfl⟩ := (map_lastName?_eq_ok_iff hts).1 h
    exact .onLevel hn
  rcases ite_eq_iff.1 h with ⟨rfl, h⟩ | ⟨-, h⟩
  · obtain ⟨level, hlevel, rfl⟩ := (offLevel?_eq_ok_iff hts).1 h
    exact .offLevel hlevel
  rcases ite_eq_iff.1 h with ⟨rfl, h⟩ | ⟨-, h⟩
  · obtain ⟨ls, ms, level, hls, hlevel, ls', ms', newType, rfl, hnew, os, rfl, oldType, hold,
      rfl⟩ := (import?_eq_ok_iff hts).1 h
    rw [hls]
    exact .importFromLevel hlevel hnew hold
  rcases ite_eq_iff.1 h with ⟨rfl, h⟩ | ⟨-, h⟩
  · obtain ⟨ms, d, hms, hd, rfl⟩ := (dictionary?_eq_ok_iff hts).1 h
    rw [hms]
    exact .defineDictionary hd
  rcases ite_eq_iff.1 h with ⟨rfl, h⟩ | ⟨-, h⟩
  · obtain ⟨ls, ms, level, hls, hlevel, os, rfl, os', rfl, pattern, hpattern, rfl⟩ :=
      (level?_eq_ok_iff hts).1 h
    rw [hls]
    exact .defineLevel hlevel hpattern
  rcases ite_eq_iff.1 h with ⟨rfl, h⟩ | ⟨-, h⟩
  · obtain ⟨ls, ms, type, hls, htype, l, hl, rfl⟩ := (spanType?_eq_ok_iff hts).1 h
    rw [hls]
    exact .label (.spanType htype) hl
  rcases ite_eq_iff.1 h with ⟨rfl, h⟩ | ⟨-, h⟩
  · obtain ⟨ls, ms, key, hls, hkey, os, rfl, ls', ms', value, rfl, hvalue, l, hl, rfl⟩ :=
      (property?_eq_ok_iff hts).1 h
    rw [hls]
    have hderives := Derives.label (.spanProperty hkey hvalue) hl
    simp only [List.cons_append, List.append_assoc] at hderives
    exact hderives
  rcases ite_eq_iff.1 h with ⟨rfl, h⟩ | ⟨-, h⟩
  · obtain ⟨ls, ms, key, hls, hkey, os, rfl, ls', ms', value, rfl, hvalue, l, hl, rfl⟩ :=
      (property?_eq_ok_iff hts).1 h
    rw [hls]
    have hderives := Derives.label (.tokenProperty hkey hvalue) hl
    simp only [List.cons_append, List.append_assoc] at hderives
    exact hderives
  · cases h

theorem body?_of_derives {keyword : Text} (hts : NoneEmpty ts)
    (h : Derives lines (⟨.word, keyword⟩ :: ts.map SourceToken.lexeme) st) :
    body? lines stop keyword ts = .ok st := by
  generalize hls : (⟨.word, keyword⟩ : Lexeme) :: ts.map SourceToken.lexeme = ls at h
  have hcons : ∀ {w ms}, (⟨.word, keyword⟩ : Lexeme) :: ts.map SourceToken.lexeme =
      .keyword w :: ms → keyword = ascii w ∧ ts.map SourceToken.lexeme = ms := by
    intro w ms heq
    obtain ⟨hkeyword, hms⟩ := List.cons.inj heq
    exact ⟨(Lexeme.mk.inj hkeyword).2, hms⟩
  cases h with
  | declareType h =>
    obtain ⟨rfl, rfl⟩ := hcons hls
    exact (map_lastName?_eq_ok_iff hts).2 ⟨_, h, rfl⟩
  | provide h =>
    obtain ⟨rfl, rfl⟩ := hcons hls
    exact (map_lastName?_eq_ok_iff hts).2 ⟨_, h, rfl⟩
  | require h =>
    obtain ⟨rfl, rfl⟩ := hcons hls
    exact (require?_eq_ok_iff hts).2
      ⟨_, [], _, (List.append_nil _).symm, h, .inl ⟨rfl, rfl⟩⟩
  | requireFrom h h' =>
    obtain ⟨rfl, hts'⟩ := hcons hls
    exact (require?_eq_ok_iff hts).2 ⟨_, _, _, hts', h, .inr ⟨_, rfl, _, h', rfl⟩⟩
  | annotateWith h =>
    obtain ⟨rfl, rfl⟩ := hcons hls
    exact (map_lastName?_eq_ok_iff hts).2 ⟨_, h, rfl⟩
  | onLevel h =>
    obtain ⟨rfl, rfl⟩ := hcons hls
    exact (map_lastName?_eq_ok_iff hts).2 ⟨_, h, rfl⟩
  | offLevel h =>
    obtain ⟨rfl, rfl⟩ := hcons hls
    exact (offLevel?_eq_ok_iff hts).2 ⟨_, h, rfl⟩
  | importFromLevel h h' h'' =>
    obtain ⟨rfl, hts'⟩ := hcons hls
    exact (import?_eq_ok_iff hts).2
      ⟨_, _, _, hts', h, _, _, _, rfl, h', _, rfl, _, h'', rfl⟩
  | defineDictionary h =>
    obtain ⟨rfl, hts'⟩ := hcons hls
    exact (dictionary?_eq_ok_iff hts).2 ⟨_, _, hts', h, rfl⟩
  | defineLevel h h' =>
    obtain ⟨rfl, hts'⟩ := hcons hls
    exact (level?_eq_ok_iff hts).2 ⟨_, _, _, hts', h, _, rfl, _, rfl, _, h', rfl⟩
  | label heffect hl =>
    cases heffect with
    | spanType h =>
      obtain ⟨rfl, hts'⟩ := hcons hls
      exact (spanType?_eq_ok_iff hts).2 ⟨_, _, _, hts', h, _, hl, rfl⟩
    | spanProperty h h' =>
      obtain ⟨rfl, hts'⟩ := hcons hls
      exact (property?_eq_ok_iff hts).2 ⟨_, _, _, hts'.trans (List.append_assoc _ _ _), h, _, rfl,
        _, _, _, rfl, h', _, hl, rfl⟩
    | tokenProperty h h' =>
      obtain ⟨rfl, hts'⟩ := hcons hls
      exact (property?_eq_ok_iff hts).2 ⟨_, _, _, hts'.trans (List.append_assoc _ _ _), h, _, rfl,
        _, _, _, rfl, h', _, hl, rfl⟩

/-- A statement is read from tokens exactly if it is derived from their lexemes. -/
theorem ofSegment?_iff_derives {s : Segment} (hne : s.tokens ≠ []) (hts : NoneEmpty s.tokens) :
    ofSegment? lines s = .ok st ↔ Derives lines (s.tokens.map SourceToken.lexeme) st := by
  obtain ⟨tokens, stop⟩ := s
  obtain ⟨t, ts, rfl⟩ := List.exists_cons_of_ne_nil hne
  constructor
  · intro h
    unfold ofSegment? at h
    extract_lets first at h
    split at h
    · cases h
    · split at h
      · cases h
      · rename_i hkind
        have hlexeme : t.lexeme = ⟨.word, t.text⟩ := by
          rw [SourceToken.lexeme, show t.kind = .word from not_not.1 hkind]
        split at h
        · rename_i hbody
          cases h
          have hderives := derives_of_body? hts.tail hbody
          rwa [List.map_cons, hlexeme]
        · cases h
  · intro h
    obtain ⟨l, ls, hls, hkind⟩ := h.head
    obtain ⟨rfl, -⟩ := List.cons.inj hls
    have hkind : t.kind = .word := hkind
    have hlexeme : t.lexeme = ⟨.word, t.text⟩ := by rw [SourceToken.lexeme, hkind]
    rw [List.map_cons, hlexeme] at h
    have hbody : body? lines stop t.text ts = .ok st := body?_of_derives hts.tail h
    simp [ofSegment?, Segment.current, hkind, hbody]

end SpanRules.Statement
