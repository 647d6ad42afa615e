import SpanRules.Proofs.Pattern.Derivation
import SpanRules.Proofs.Statement.Grammar
import SpanRules.Proofs.Statement.Sourced

/-! Reading accepts the grammar of names, and of the statements that hold nothing else. Each reader
has a law that tells in terms of the grammar what it takes. -/
namespace SpanRules

section
variable {ts us rest : Rest} {c : Char} {l : Lexeme} {ls : List Lexeme}

theorem nextIs_of_mark (h : ts.map SourceToken.lexeme = .mark c :: ls) : nextIs c ts = true := by
  obtain ⟨t, rest, rfl, ht, -⟩ := List.map_eq_cons_iff.1 h
  exact SourceToken.isSymbol_iff.2 ht

theorem nextIs_of_ne (h : ts.map SourceToken.lexeme = l :: ls) (hl : l ≠ .mark c) :
    nextIs c ts = false := by
  obtain ⟨t, rest, rfl, ht, -⟩ := List.map_eq_cons_iff.1 h
  rw [Bool.eq_false_iff]
  exact fun hc => hl (ht ▸ SourceToken.isSymbol_iff.1 hc)

theorem head?_isWord_of_keyword {w : String} (h : ts.map SourceToken.lexeme = .keyword w :: ls) :
    ts.head?.any (·.isWord w) = true := by
  obtain ⟨t, rest, rfl, ht, -⟩ := List.map_eq_cons_iff.1 h
  simpa [SourceToken.isWord] using Lexeme.mk.inj ht

theorem map_tail_of_cons (h : ts.map SourceToken.lexeme = l :: ls) :
    ts.tail.map SourceToken.lexeme = ls := by
  rw [List.map_tail, h, List.tail_cons]

theorem nextIs_iff : nextIs c ts = true ↔
    ts.map SourceToken.lexeme = .mark c :: ts.tail.map SourceToken.lexeme :=
  ⟨Takes.mark, nextIs_of_mark⟩

/-- Whether no token is empty, which is what a source gives. -/
def NoneEmpty (ts : Rest) : Prop := ∀ t ∈ ts, t.text ≠ []

theorem NoneEmpty.suffix (h : NoneEmpty ts) (hsuffix : us <:+ ts) : NoneEmpty us :=
  fun t ht => h t (hsuffix.subset ht)

theorem NoneEmpty.tail (h : NoneEmpty ts) : NoneEmpty ts.tail := h.suffix suffix_tail

variable {ε α β : Type} {b : β} {derives : List Lexeme → α → Prop}

/-- Whether a reader takes tokens from the front whose lexemes derive what it gives, and whether it
takes all that do. -/
def ReadsFrom (ts : Rest) (derives : List Lexeme → α → Prop) (read : Reading ε (α × Rest)) : Prop :=
  ∀ a rest, read = .ok (a, rest) ↔ ∃ us, ts = us ++ rest ∧ derives (us.map SourceToken.lexeme) a

theorem ReadsFrom.bind_eq_ok_iff {read : Reading ε (α × Rest)} {next : α × Rest → Reading ε β}
    {after : α → List Lexeme → Prop} (h : ReadsFrom ts derives read)
    (hnext : ∀ a rest, rest <:+ ts →
      (next (a, rest) = .ok b ↔ after a (rest.map SourceToken.lexeme))) :
    (read >>= next) = .ok b ↔
      ∃ ls ms a, ts.map SourceToken.lexeme = ls ++ ms ∧ derives ls a ∧ after a ms := by
  rw [Reading.bind_eq_ok_iff]
  constructor
  · rintro ⟨⟨a, rest⟩, hread, hb⟩
    obtain ⟨us, rfl, hus⟩ := (h a rest).1 hread
    exact ⟨_, _, a, List.map_append, hus, (hnext a rest (List.suffix_append _ _)).1 hb⟩
  · rintro ⟨ls, ms, a, hts, hls, hms⟩
    obtain ⟨us, rest, rfl, rfl, rfl⟩ := List.map_eq_append_iff.1 hts
    have hread := (h a rest).2 ⟨us, rfl, hls⟩
    exact ⟨(a, rest), hread, (hnext a rest (List.suffix_append _ _)).2 hms⟩

/-- What is read after a mark, and not without it. -/
theorem ite_nextIs_eq_ok_iff {next : Reading ε β} {cause : ε} {after : List Lexeme → Prop}
    (hnext : next = .ok b ↔ after (ts.tail.map SourceToken.lexeme)) :
    (if nextIs c ts = true then next else stopAt us cause) = .ok b ↔
      ∃ ms, ts.map SourceToken.lexeme = .mark c :: ms ∧ after ms := by
  split
  · rename_i hc
    rw [hnext]
    constructor
    · intro h
      exact ⟨_, nextIs_iff.1 hc, h⟩
    · rintro ⟨ms, hms, h⟩
      rwa [map_tail_of_cons hms]
  · rename_i hc
    constructor
    · intro h
      cases h
    · rintro ⟨ms, hms, -⟩
      exact absurd (nextIs_of_mark hms) hc

end

namespace Statement
variable {lines : LineReader} {role : NameRole} {ts rest : Rest} {n name : Text} {c : Char}
  {st : Statement}

theorem expect_bind_eq_ok_iff {next : Rest → Reading StatementFault Statement}
    {after : List Lexeme → Prop}
    (hnext : next ts.tail = .ok st ↔ after (ts.tail.map SourceToken.lexeme)) :
    (expect c ts >>= next) = .ok st ↔
      ∃ ms, ts.map SourceToken.lexeme = .mark c :: ms ∧ after ms := by
  have hexpect : (expect c ts >>= next) =
      if nextIs c ts = true then next ts.tail else stopAt ts (.symbolExpected c) := by
    unfold expect
    split <;> rfl
  rw [hexpect]
  exact ite_nextIs_eq_ok_iff hnext

theorem fileName?_eq_ok_iff {o : SourceToken} (ho : o.lexeme = .mark '"') (hts : NoneEmpty ts) :
    fileName? ts = .ok (name, rest) ↔
      ∃ us, ts = us ++ rest ∧ Name.Spells ((o :: us).map SourceToken.lexeme) name := by
  constructor
  · intro h
    obtain ⟨hname, hne⟩ := fileName?_eq_ok h
    obtain ⟨inner, close, rfl, hclose, hinner, rfl⟩ := quotedTokens?_eq_ok hname
    refine ⟨inner ++ [close], by simp, inner.map SourceToken.lexeme, ⟨?_, ?_⟩, ?_, ?_⟩
    · simp [ho, SourceToken.isSymbol_iff.1 hclose]
    · intro hnil
      rw [List.map_eq_nil_iff.1 hnil] at hne
      exact hne rfl
    · rw [List.forall_mem_map]
      intro t ht
      obtain ⟨hquote, hend⟩ := hinner t ht
      exact ⟨by rw [Ne, ← SourceToken.isSymbol_iff, hquote]; decide, hend⟩
    · rw [List.flatMap_map]
      rfl
  · rintro ⟨us, rfl, inner, ⟨hus, hne⟩, hinner, rfl⟩
    rw [List.map_cons, List.cons.injEq] at hus
    obtain ⟨vs, cs, rfl, rfl, hcs⟩ := List.map_eq_append_iff.1 hus.2
    obtain ⟨close, rfl, hclose⟩ := List.map_eq_singleton_iff.1 hcs
    rw [List.forall_mem_map] at hinner
    rw [List.flatMap_map]
    -- a name of one token or more is not empty, as no token is
    have hname : vs.flatMap (·.text) ≠ [] := by
      obtain ⟨t, vs, rfl⟩ := List.exists_cons_of_ne_nil (mt List.map_eq_nil_iff.2 hne)
      have ht := hts t (by simp)
      simp [ht]
    rw [fileName?, List.append_assoc, List.singleton_append,
      quotedTokens?_append rest hinner hclose]
    exact if_neg hname

theorem name?_readsFrom (hts : NoneEmpty ts) : ReadsFrom ts Name.Derives (name? role ts) := by
  intro n rest
  constructor
  · intro h
    cases ts with
    | nil => cases h
    | cons t ts =>
      simp only [name?] at h
      split at h
      · rename_i hkind
        cases h
        refine ⟨[t], rfl, ?_⟩
        rw [List.map_singleton, SourceToken.lexeme, hkind]
        exact .word
      · split at h
        · rename_i hkind
          cases h
          refine ⟨[t], rfl, ?_⟩
          rw [List.map_singleton, SourceToken.lexeme, hkind]
          exact .quoted
        · split at h
          · rename_i ht
            obtain ⟨us, rfl, hus⟩ :=
              (fileName?_eq_ok_iff (SourceToken.isSymbol_iff.1 ht) hts.tail).1 h
            exact ⟨t :: us, rfl, .spelled hus⟩
          · cases h
  · rintro ⟨us, rfl, h⟩
    generalize hus : us.map SourceToken.lexeme = ls at h
    cases h with
    | word =>
      obtain ⟨t, rfl, ht⟩ := List.map_eq_singleton_iff.1 hus
      obtain ⟨hkind, rfl⟩ := Lexeme.mk.inj ht
      exact if_pos hkind
    | quoted =>
      obtain ⟨t, rfl, ht⟩ := List.map_eq_singleton_iff.1 hus
      obtain ⟨hkind, rfl⟩ := Lexeme.mk.inj ht
      rw [List.singleton_append, name?, if_neg (by rw [hkind]; decide), if_pos hkind]
    | spelled hspells =>
      obtain ⟨inner, ⟨hls, hne⟩, hinner⟩ := hspells
      obtain ⟨o, vs, rfl, ho, hvs⟩ := List.map_eq_cons_iff.1 (hus.trans hls)
      have hkind : o.kind = .symbol := congrArg Lexeme.kind ho
      rw [List.cons_append, name?, if_neg (by rw [hkind]; decide), if_neg (by rw [hkind]; decide),
        if_pos (SourceToken.isSymbol_iff.2 ho)]
      exact (fileName?_eq_ok_iff ho hts.tail).2 ⟨vs, rfl, inner, ⟨hus ▸ hls, hne⟩, hinner⟩

/-- No mark but the double quote begins a name. -/
theorem nextIs_of_name {ls ms : List Lexeme} (h : Name.Derives ls n)
    (hts : ts.map SourceToken.lexeme = ls ++ ms) (hc : byte c ≠ byte '"') :
    nextIs c ts = false := by
  obtain ⟨l, rest, rfl, hl⟩ := h.head
  apply nextIs_of_ne hts
  rcases hl with hl | rfl
  · exact hl.ne_mark c
  · exact fun heq => hc (Lexeme.mark_inj.1 heq).symm

/-- A name that ends the statement, and what is made of it. -/
theorem name?_expectEnd_eq_ok_iff {α : Type} {f : Text → α} {a : α} (hts : NoneEmpty ts) :
    (name? role ts >>= fun x => expectEnd x.2 >>= fun _ => pure (f x.1)) = .ok a ↔
      ∃ n, Name.Derives (ts.map SourceToken.lexeme) n ∧ f n = a := by
  have hend : ∀ (n : Text) (rest : Rest), (expectEnd rest >>= fun _ => pure (f n)) = .ok a ↔
      rest.map SourceToken.lexeme = [] ∧ f n = a := by
    intro n rest
    cases rest with
    | nil => exact ⟨fun h => ⟨rfl, Except.ok.inj h⟩, fun h => congrArg Except.ok h.2⟩
    | cons t rest => exact ⟨nofun, nofun⟩
  have hread : (name? role ts >>= fun x => expectEnd x.2 >>= fun _ => pure (f x.1)) = .ok a ↔
      ∃ ls ms n, ts.map SourceToken.lexeme = ls ++ ms ∧ Name.Derives ls n ∧ ms = [] ∧ f n = a :=
    (name?_readsFrom hts).bind_eq_ok_iff fun n rest _ => hend n rest
  rw [hread]
  constructor
  · rintro ⟨ls, ms, n, hls, h, rfl, hn⟩
    rw [hls, List.append_nil]
    exact ⟨n, h, hn⟩
  · rintro ⟨n, h, hn⟩
    exact ⟨_, [], n, (List.append_nil _).symm, h, rfl, hn⟩

theorem lastName?_eq_ok_iff (hts : NoneEmpty ts) :
    lastName? role ts = .ok n ↔ Name.Derives (ts.map SourceToken.lexeme) n := by
  have hname : lastName? role ts = .ok n ↔
      ∃ m, Name.Derives (ts.map SourceToken.lexeme) m ∧ id m = n :=
    name?_expectEnd_eq_ok_iff (f := id) hts
  simpa using hname

/-- What is made of a name that ends a statement. -/
theorem lastName?_bind_eq_ok_iff {f : Text → Statement} (hts : NoneEmpty ts) :
    (lastName? role ts >>= fun n => pure (f n)) = .ok st ↔
      ∃ n, Name.Derives (ts.map SourceToken.lexeme) n ∧ f n = st := by
  rw [Reading.bind_pure_eq_ok_iff]
  simp only [lastName?_eq_ok_iff hts]

theorem require?_eq_ok_iff (hts : NoneEmpty ts) : require? ts = .ok st ↔
    ∃ ls ms type, ts.map SourceToken.lexeme = ls ++ ms ∧ Name.Derives ls type ∧
      ((ms = [] ∧ require type [] = st) ∨
        ∃ os, ms = .mark ',' :: os ∧ ∃ file, Name.Derives os file ∧ require type file = st) := by
  refine (name?_readsFrom hts).bind_eq_ok_iff fun type rest hrest => ?_
  have hnext := hts.suffix hrest
  cases rest with
  | nil =>
    constructor
    · intro h
      exact .inl ⟨rfl, Except.ok.inj h⟩
    · rintro (⟨-, h⟩ | ⟨os, hos, -⟩)
      · exact congrArg Except.ok h
      · cases hos
  | cons t rest =>
    have hfile : (if nextIs ',' (t :: rest) = true then
          lastName? .file rest >>= fun file => pure (require type file)
        else stopAt (t :: rest) (.symbolExpected ';')) = .ok st ↔
        ∃ os, (t :: rest).map SourceToken.lexeme = .mark ',' :: os ∧
          ∃ file, Name.Derives os file ∧ require type file = st :=
      ite_nextIs_eq_ok_iff (lastName?_bind_eq_ok_iff hnext.tail)
    -- with a token left, the statement does not end after the type
    refine Iff.trans hfile ⟨.inr, ?_⟩
    rintro (⟨h, -⟩ | h)
    · cases h
    · exact h

theorem startsName_iff : ts.head?.any startsName = true ↔
    ∃ l ls, ts.map SourceToken.lexeme = l :: ls ∧ (l.IsName ∨ l = .mark '"') := by
  cases ts with
  | nil => simp
  | cons t ts =>
    simp [startsName, SourceToken.isWordOrQuoted_iff, SourceToken.isSymbol_iff]

theorem offLevel?_eq_ok_iff (hts : NoneEmpty ts) : offLevel? ts = .ok st ↔
    ∃ level, Name.DerivesOptional (ts.map SourceToken.lexeme) level ∧ offLevel = st := by
  unfold offLevel?
  split
  · rename_i hstarts
    obtain ⟨l, ls, hls, -⟩ := startsName_iff.1 hstarts
    apply (lastName?_bind_eq_ok_iff hts).trans
    apply exists_congr
    refine fun level => and_congr_left fun _ => ⟨.some, fun h => ?_⟩
    generalize ts.map SourceToken.lexeme = ms at h hls
    cases h with
    | none => cases hls
    | some h => exact h
  · rename_i hstarts
    cases ts with
    | nil => exact ⟨fun h => ⟨[], .none, Except.ok.inj h⟩, fun ⟨_, _, h⟩ => congrArg Except.ok h⟩
    | cons t ts =>
      refine ⟨nofun, ?_⟩
      rintro ⟨level, h, -⟩
      generalize hls : (t :: ts).map SourceToken.lexeme = ls at h
      cases h with
      | none => cases hls
      | some h =>
        obtain ⟨l, rest, rfl, hl⟩ := h.head
        exact absurd (startsName_iff.2 ⟨l, rest, hls, hl⟩) hstarts

theorem import?_eq_ok_iff (hts : NoneEmpty ts) : import? ts = .ok st ↔
    ∃ ls ms level, ts.map SourceToken.lexeme = ls ++ ms ∧ Name.Derives ls level ∧
      ∃ ls' ms' newType, ms = ls' ++ ms' ∧ Name.Derives ls' newType ∧
        ∃ os, ms' = .mark '=' :: os ∧
          ∃ oldType, Name.Derives os oldType ∧ importFromLevel level newType oldType = st := by
  refine (name?_readsFrom hts).bind_eq_ok_iff fun level us hus => ?_
  have hus := hts.suffix hus
  refine (name?_readsFrom hus).bind_eq_ok_iff fun newType vs hvs => ?_
  have hvs := hus.suffix hvs
  exact expect_bind_eq_ok_iff (lastName?_bind_eq_ok_iff hvs.tail)

theorem ofName?_eq_some_iff {strategy : Strategy} :
    Strategy.ofName? n = some strategy ↔ strategy.name = n := by
  constructor
  · intro h
    have hname := List.find?_some h
    exact eq_of_beq hname
  · rintro rfl
    cases strategy <;> rfl

theorem level?_eq_ok_iff (hts : NoneEmpty ts) : level? ts = .ok st ↔
    ∃ ls ms level, ts.map SourceToken.lexeme = ls ++ ms ∧ Name.Derives ls level ∧
      ∃ os, ms = .mark '=' :: os ∧ ∃ os', os = .keyword "pseudotoken" :: os' ∧
        ∃ pattern, Name.Derives os' pattern ∧ defineLevel level .pseudotoken pattern = st := by
  refine (name?_readsFrom hts).bind_eq_ok_iff fun level us hus => ?_
  have hvs := (hts.suffix hus).tail
  apply expect_bind_eq_ok_iff
  generalize us.tail = vs at hvs
  cases vs with
  | nil =>
    exact ⟨nofun, nofun⟩
  | cons t vs =>
    have hstrategy : ∀ strategy : Strategy,
        (if t.kind = .word then Strategy.ofName? t.text else none) = some strategy ↔
          t.lexeme = ⟨.word, strategy.name⟩ := by
      intro strategy
      rw [Option.ite_none_right_eq_some, ofName?_eq_some_iff, SourceToken.lexeme, Lexeme.mk.injEq,
        eq_comm (a := strategy.name)]
    simp only
    generalize (if t.kind = .word then Strategy.ofName? t.text else none) = found at hstrategy
    constructor
    · intro h
      split at h
      · cases h
      · rename_i strategy
        obtain ⟨x, hx, h⟩ := Reading.bind_eq_ok_iff.1 h
        by_cases hpseudo : strategy = .pseudotoken
        · subst hpseudo
          have hpattern := (name?_expectEnd_eq_ok_iff hvs.tail).1
            (Reading.bind_eq_ok_iff.2 ⟨x, hx, h⟩)
          exact ⟨_, congrArg (· :: _) ((hstrategy _).1 rfl), hpattern⟩
        · -- the other strategies need regular expressions
          rw [if_pos hpseudo] at h
          cases h
    · rintro ⟨os, hos, hpattern⟩
      obtain ⟨ht, rfl⟩ := List.cons.inj hos
      rw [(hstrategy .pseudotoken).2 ht]
      exact (name?_expectEnd_eq_ok_iff hvs.tail).2 hpattern

end Statement

end SpanRules
