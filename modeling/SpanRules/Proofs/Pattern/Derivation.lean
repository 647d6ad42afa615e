import SpanRules.Proofs.Pattern.Grammar
import SpanRules.Proofs.Source.Reading

/-! Reading follows the grammar: what is read is derived from the lexemes of the tokens that were
taken for it. -/
namespace SpanRules

namespace SourceToken
variable {t : SourceToken}

theorem isWord_iff {w : String} : t.isWord w = true ↔ t.lexeme = .keyword w := by
  simp [isWord, lexeme, Lexeme.keyword]

theorem isWordOrQuoted_iff : t.isWordOrQuoted = true ↔ t.lexeme.IsName := by
  simp [isWordOrQuoted, Lexeme.IsName, lexeme]

theorem startsTest_iff : t.startsTest = true ↔ t.lexeme.StartsTest := by
  simp only [startsTest, Bool.or_eq_true, isWordOrQuoted_iff, isSymbol_iff, or_assoc,
    Lexeme.StartsTest]

theorem count?_eq_some_iff {n : Nat} : t.count? = some n ↔ t.lexeme.Counts n := by
  rw [count?, Lexeme.Counts]
  by_cases hword : t.kind = .word
  · rw [if_pos hword]
    simp only [lexeme, hword, true_and]
    split
    · rename_i m hm
      rw [hm, Option.some.injEq, Option.some.injEq]
      exact (Int.ofNat_inj (m := m) (n := n)).symm
    · rename_i hno
      constructor
      · intro h
        cases h
      · intro h
        exact absurd h (hno n)
  · rw [if_neg hword]
    constructor
    · intro h
      cases h
    · exact fun h => absurd h.1 hword

end SourceToken

theorem head?_isWord_iff {ts : Rest} {w : String} : (ts.head?.any fun t => t.isWord w) = true ↔
    (ts.map SourceToken.lexeme).head? = some (.keyword w) := by
  cases ts <;> simp [SourceToken.isWord_iff]

/-- Whether tokens with the given lexemes stand before what is left. -/
def Takes (ts : Rest) (ls : List Lexeme) (rest : Rest) : Prop :=
  ts.map SourceToken.lexeme = ls ++ rest.map SourceToken.lexeme

namespace Takes
variable {ts us vs : Rest} {t : SourceToken} {ls ms : List Lexeme} {c : Char}

theorem refl (ts : Rest) : Takes ts [] ts := rfl

theorem trans (h : Takes ts ls us) (h' : Takes us ms vs) : Takes ts (ls ++ ms) vs := by
  rw [Takes, h, h', List.append_assoc]

theorem cons (h : Takes ts ls us) : Takes (t :: ts) (t.lexeme :: ls) us := by
  rw [Takes, List.map_cons, h, List.cons_append]

theorem head (h : t.lexeme = l) (h' : Takes ts ls us) : Takes (t :: ts) (l :: ls) us :=
  h ▸ h'.cons

theorem mark (h : nextIs c ts = true) : Takes ts [.mark c] ts.tail := by
  cases ts with
  | nil => cases h
  | cons t ts => exact head (SourceToken.isSymbol_iff.1 h) (.refl ts)

theorem word {w : String} (h : (ts.head?.any fun t => t.isWord w) = true) :
    Takes ts [.keyword w] ts.tail := by
  cases ts with
  | nil => cases h
  | cons t ts => exact head (SourceToken.isWord_iff.1 h) (.refl ts)

end Takes

namespace Test
variable {key name arg : Text} {ts rest : Rest} {t : Test}

theorem derives_of_property? (hkey : key ≠ ascii "any") (h : property? key ts = .ok (t, rest)) :
    ∃ ls, Takes ts ls rest ∧ Derives (⟨.word, key⟩ :: ls) t := by
  unfold property? at h
  split at h
  · rename_i hcolon
    split at h
    · rename_i v us hts
      split at h
      · rename_i hv
        cases h
        refine ⟨[.mark ':', v.lexeme], ?_, .propertyIs hkey (SourceToken.isWordOrQuoted_iff.1 hv)⟩
        exact (Takes.mark hcolon).trans (hts ▸ (Takes.refl rest).cons)
      · cases h
    · cases h
  · cases h
    exact ⟨[], .refl _, .hasProperty hkey⟩

theorem takes_of_argument? {mayBeWord : Bool} (h : argument? mayBeWord ts = .ok (arg, rest)) :
    ∃ n : Lexeme, Takes ts [n, .mark ')'] rest ∧
      (n.kind = .quoted ∨ (mayBeWord ∧ n.kind = .word)) ∧ arg = Text.unquote n.text := by
  unfold argument? at h
  split at h
  · rename_i v us
    split at h
    · rename_i hv
      split at h
      · rename_i hclose
        cases h
        exact ⟨v.lexeme, (Takes.mark hclose).cons, hv, rfl⟩
      · cases h
    · cases h
  · cases h

theorem derives_of_function? (h : function? name ts = .ok (t, rest)) :
    ∃ n, Takes ts.tail [n, .mark ')'] rest ∧
      Derives [⟨.word, name⟩, .mark '(', n, .mark ')'] t := by
  unfold function? at h
  -- each function is its argument, and what is made of it
  have harg : ∀ {mayBeWord} {f : Text → Test},
      (argument? mayBeWord ts.tail >>= fun x => pure (f x.1, x.2)) =
        (.ok (t, rest) : Reading PatternFault _) →
      (∀ n : Lexeme, (n.kind = .quoted ∨ (mayBeWord ∧ n.kind = .word)) →
        Derives [⟨.word, name⟩, .mark '(', n, .mark ')'] (f (Text.unquote n.text))) →
      ∃ n, Takes ts.tail [n, .mark ')'] rest ∧
        Derives [⟨.word, name⟩, .mark '(', n, .mark ')'] t := by
    intro mayBeWord f h hf
    obtain ⟨⟨arg, us⟩, harg, h⟩ := Reading.bind_eq_ok_iff.1 h
    cases h
    obtain ⟨n, htakes, hn, rfl⟩ := takes_of_argument? harg
    exact ⟨n, htakes, hf n hn⟩
  have hquoted : ∀ {n : Lexeme}, (n.kind = .quoted ∨ (false ∧ n.kind = .word)) →
      n = ⟨.quoted, n.text⟩ := by
    rintro ⟨kind, text⟩ hn
    obtain rfl : kind = .quoted := by simpa using hn
    rfl
  have hname : ∀ {n : Lexeme}, (n.kind = .quoted ∨ (true ∧ n.kind = .word)) → n.IsName :=
    fun hn => hn.symm.imp_left And.right
  split at h
  · rename_i heq
    subst heq
    refine harg h fun n hn => ?_
    rw [hquoted hn]
    exact .equals
  · split at h
    · rename_i heq
      subst heq
      refine harg (f := fun word => .equalsLower word.lower) h fun n hn => ?_
      rw [hquoted hn]
      exact .equalsLower
    · split at h
      · obtain ⟨_, _, h⟩ := Reading.bind_eq_ok_iff.1 h
        cases h
      · split at h
        · rename_i heq
          subst heq
          exact harg h fun n hn => .inDictionary (hname hn)
        · split at h
          · rename_i heq
            subst heq
            exact harg h fun n hn => .lowerInDictionary (hname hn)
          · cases h

theorem derives_of_read? (fuel : Nat) (ts : Rest) :
    (∀ {t rest}, read? fuel ts = .ok (t, rest) → ∃ ls, Takes ts ls rest ∧ Derives ls t) ∧
      ∀ {t rest}, conjunction? fuel ts = .ok (t, rest) →
        ∃ ls, Takes ts ls rest ∧ DerivesList ls t := by
  induction fuel generalizing ts with
  | zero =>
    refine ⟨fun h => ?_, fun h => nomatch h⟩
    cases ts <;> cases h
  | succ fuel ih =>
    constructor
    · intro t rest h
      cases ts with
      | nil => cases h
      | cons u us =>
        simp only [read?] at h
        split at h
        · rename_i hu
          cases h
          refine ⟨_, (Takes.refl _).cons, ?_⟩
          rw [SourceToken.lexeme, hu]
          exact .literal
        · split at h
          · rename_i hu
            obtain ⟨⟨x, vs⟩, hx, h⟩ := Reading.bind_eq_ok_iff.1 h
            cases h
            obtain ⟨ls, htakes, hls⟩ := (ih us).1 hx
            exact ⟨_, htakes.head (SourceToken.isSymbol_iff.1 hu), .not hls⟩
          · split at h
            · rename_i hu
              obtain ⟨ls, htakes, hls⟩ := (ih us).2 h
              exact ⟨_, htakes.head (SourceToken.isSymbol_iff.1 hu), .conjunction hls⟩
            · split at h
              · cases h
              · rename_i hu
                have hword : u.lexeme = ⟨.word, u.text⟩ := by
                  rw [SourceToken.lexeme, not_not.1 hu]
                split at h
                · rename_i hany
                  cases h
                  rw [hany] at hword
                  exact ⟨_, (Takes.refl _).head hword, .any⟩
                · rename_i hany
                  split at h
                  · rename_i hopen
                    obtain ⟨n, htakes, hls⟩ := derives_of_function? h
                    exact ⟨_, ((Takes.mark hopen).trans htakes).head hword, hls⟩
                  · obtain ⟨ls, htakes, hls⟩ := derives_of_property? hany h
                    exact ⟨_, htakes.head hword, hls⟩
    · intro t rest h
      obtain ⟨⟨x, us⟩, hx, h⟩ := Reading.bind_eq_ok_iff.1 h
      obtain ⟨ls, htakes, hls⟩ := (ih ts).1 hx
      simp only at h
      split at h
      · rename_i hclose
        cases h
        exact ⟨_, htakes.trans (.mark hclose), .last hls⟩
      · split at h
        · rename_i hcomma
          obtain ⟨⟨y, vs⟩, hy, h⟩ := Reading.bind_eq_ok_iff.1 h
          cases h
          obtain ⟨ms, htakes', hms⟩ := (ih _).2 hy
          exact ⟨_, htakes.trans ((Takes.mark hcomma).trans htakes'), .more hls hms⟩
        · cases h

end Test

namespace Run
variable {ts rest : Rest} {r : Run}

theorem derives_of_bounds? {min : Nat} {max : Option Nat}
    (h : bounds? ts = .ok ((min, max), rest)) :
    ∃ ls, Takes ts ls rest ∧ DerivesBounds ls min max := by
  unfold bounds? at h
  split at h
  · rename_i hs
    cases h
    exact ⟨_, .mark hs, .star⟩
  · split at h
    · rename_i hs
      cases h
      exact ⟨_, .mark hs, .plus⟩
    · split at h
      · rename_i hs
        cases h
        exact ⟨_, .mark hs, .optional⟩
      · split at h
        · rename_i hs
          split at h
          · cases h
          · rename_i n us hts
            split at h
            · cases h
            · rename_i lower hn
              rw [SourceToken.count?_eq_some_iff] at hn
              have htakes : Takes ts [.mark '\x7b', n.lexeme] us :=
                (Takes.mark hs).trans (hts ▸ (Takes.refl us).cons)
              split at h
              · rename_i hclose
                cases h
                exact ⟨_, htakes.trans (.mark hclose), .exactly hn⟩
              · split at h
                · rename_i hcomma
                  have htakes := htakes.trans (.mark hcomma)
                  split at h
                  · rename_i hclose
                    cases h
                    exact ⟨_, htakes.trans (.mark hclose), .atLeast hn⟩
                  · split at h
                    · cases h
                    · rename_i m vs hus
                      split at h
                      · cases h
                      · rename_i upper hm
                        rw [SourceToken.count?_eq_some_iff] at hm
                        have htakes := htakes.trans (hus ▸ (Takes.refl vs).cons)
                        split at h
                        · cases h
                        · rename_i hle
                          split at h
                          · rename_i hclose
                            cases h
                            exact ⟨_, htakes.trans (.mark hclose),
                              .between hn hm (Nat.le_of_not_lt hle)⟩
                          · cases h
                · cases h
        · cases h
          exact ⟨[], .refl _, .none⟩

theorem startsWithFlag_iff : StartsWithFlag (ts.map SourceToken.lexeme) ↔
    ts.head?.any (·.isWord "L") = true ∧ ts.tail.head?.any (·.startsTest) = true := by
  cases ts with
  | nil => simp [StartsWithFlag]
  | cons t ts =>
    cases ts with
    | nil => simp [StartsWithFlag]
    | cons u ts => simp [StartsWithFlag, SourceToken.isWord_iff, SourceToken.startsTest_iff]

theorem derives_of_test? {left : Bool} {t : Test} (h : test? ts = .ok ((left, t), rest)) :
    ∃ ls, Takes ts (flag "L" left ++ ls) rest ∧ t.Derives ls ∧
      (left = true ↔ StartsWithFlag (ts.map SourceToken.lexeme)) := by
  rw [startsWithFlag_iff]
  simp only [test?] at h
  split at h
  · rename_i hword
    split at h
    · rename_i hstarts
      obtain ⟨⟨t, us⟩, ht, h⟩ := Reading.bind_eq_ok_iff.1 h
      cases h
      obtain ⟨ls, htakes, hls⟩ := (Test.derives_of_read? _ _).1 ht
      exact ⟨ls, (Takes.word hword).trans htakes, hls, iff_of_true rfl ⟨hword, hstarts⟩⟩
    · rename_i hstarts
      obtain ⟨⟨t, us⟩, ht, h⟩ := Reading.bind_eq_ok_iff.1 h
      cases h
      obtain ⟨ls, htakes, hls⟩ := Test.derives_of_property? (by decide) ht
      exact ⟨_, (Takes.word hword).trans htakes, hls,
        iff_of_false Bool.false_ne_true fun h => hstarts h.2⟩
  · rename_i hword
    obtain ⟨⟨t, us⟩, ht, h⟩ := Reading.bind_eq_ok_iff.1 h
    cases h
    obtain ⟨ls, htakes, hls⟩ := (Test.derives_of_read? _ _).1 ht
    exact ⟨ls, htakes, hls, iff_of_false Bool.false_ne_true fun h => hword h.1⟩

theorem derives_of_read? (h : read? ts = .ok (r, rest)) :
    ∃ ls, Takes ts ls rest ∧
      Element.Derives (rest.map SourceToken.lexeme) ls (.item (.run r)) := by
  obtain ⟨⟨⟨left, t⟩, us⟩, ht, h⟩ := Reading.bind_eq_ok_iff.1 h
  obtain ⟨⟨⟨min, max⟩, vs⟩, hb, h⟩ := Reading.bind_eq_ok_iff.1 h
  obtain ⟨ls, htakes, hls, hleft⟩ := derives_of_test? ht
  obtain ⟨ms, htakes', hms⟩ := derives_of_bounds? hb
  simp only [pure, Except.pure, Except.ok.injEq, Prod.mk.injEq] at h
  obtain ⟨rfl, rfl⟩ := h
  have hright : Takes vs (flag "R" (vs.head?.any (·.isWord "R")))
      (if vs.head?.any (·.isWord "R") then vs.tail else vs) := by
    cases hword : vs.head?.any (·.isWord "R") with
    | true => exact .word hword
    | false => exact .refl vs
  have hhead := @head?_isWord_iff vs "R"
  rw [hright] at hhead
  have htakes := (htakes.trans htakes').trans hright
  generalize vs.head?.any (·.isWord "R") = right at hhead htakes ⊢
  refine ⟨_, htakes, .run (r := ⟨t, min, max, left, right⟩) hls hms ?_ hhead⟩
  rw [hleft, htakes]

end Run

namespace Draft
variable {d d' : Draft} {e : Element} {es : List Element} {a : Alternative}

def add? (d : Draft) : Element → Except PatternFault Draft
  | .item i => .ok (d.push i)
  | .opening => d.openBracket
  | .closing => d.closeBracket

def elements : Draft → List Element
  | plain items => items.map .item
  | opened before inside => before.map .item ++ .opening :: inside.map .item
  | closed before inside after =>
    before.map .item ++ (.opening :: (inside.map .item ++ (.closing :: after.map .item)))

theorem elements_of_add? (h : d.add? e = .ok d') : d'.elements = d.elements ++ [e] := by
  cases e with
  | item i =>
    cases h
    cases d <;> simp [push, elements]
  | opening =>
    cases d with
    | plain items =>
      cases h
      simp [elements]
    | opened | closed => cases h
  | closing =>
    cases d with
    | opened before inside =>
      cases h
      simp [elements]
    | plain | closed => cases h

theorem elements_of_foldlM_add? (h : es.foldlM add? d = .ok d') :
    d'.elements = d.elements ++ es := by
  induction es generalizing d with
  | nil =>
    cases h
    rw [List.append_nil]
  | cons e es ih =>
    rw [List.foldlM_cons, Reading.bind_eq_ok_iff] at h
    obtain ⟨d₁, hadd, h⟩ := h
    rw [ih h, elements_of_add? hadd, List.append_assoc, List.singleton_append]

theorem elements_of_finish (h : d.finish = .ok a) : a.elements = d.elements ∧ d.elements ≠ [] := by
  cases d with
  | plain items =>
    cases items with
    | nil => cases h
    | cons i items =>
      cases h
      exact ⟨rfl, List.cons_ne_nil _ _⟩
  | opened => cases h
  | closed =>
    cases h
    exact ⟨rfl, by simp [elements]⟩

theorem derives_of_extend? {fuel : Nat} {ts : Rest} (h : extend? fuel d ts = .ok d') :
    ∃ es, Element.DerivesAll (ts.map SourceToken.lexeme) es ∧ es.foldlM add? d = .ok d' := by
  induction fuel generalizing d ts with
  | zero =>
    cases ts with
    | nil =>
      cases h
      exact ⟨[], .nil, rfl⟩
    | cons => cases h
  | succ fuel ih =>
    cases ts with
    | nil =>
      cases h
      exact ⟨[], .nil, rfl⟩
    | cons t rest =>
      -- one element, and the others by induction
      have hcons : ∀ {ls us e d₁}, Takes (t :: rest) ls us →
          Element.Derives (us.map SourceToken.lexeme) ls e → d.add? e = .ok d₁ →
          extend? fuel d₁ us = .ok d' →
          ∃ es, Element.DerivesAll ((t :: rest).map SourceToken.lexeme) es ∧
            es.foldlM add? d = .ok d' := by
        intro ls us e d₁ htakes he hadd h
        obtain ⟨es, hes, hfold⟩ := ih h
        refine ⟨e :: es, htakes ▸ .cons he hes, ?_⟩
        rw [List.foldlM_cons, hadd]
        exact hfold
      have hone : ∀ {l}, t.lexeme = l → Takes (t :: rest) [l] rest :=
        fun hl => (Takes.refl rest).head hl
      simp only [extend?] at h
      split at h
      · cases h
      · split at h
        · rename_i ht
          exact hcons (hone (by rw [SourceToken.lexeme, ht])) .gap rfl h
        · split at h
          · rename_i ht
            split at h
            · exact hcons (hone (SourceToken.isSymbol_iff.1 ht)) .opening ‹_› h
            · cases h
          · split at h
            · rename_i ht
              split at h
              · exact hcons (hone (SourceToken.isSymbol_iff.1 ht)) .closing ‹_› h
              · cases h
            · split at h
              · rename_i ht
                rw [SourceToken.isSymbol_iff] at ht
                split at h
                · cases h
                · rename_i n us
                  split at h
                  · rename_i hn
                    rw [SourceToken.isWordOrQuoted_iff] at hn
                    cases hopt : nextIs '?' us with
                    | true =>
                      rw [hopt] at h
                      exact hcons ((Takes.mark hopt).cons.head ht) (.optional hn) rfl h
                    | false =>
                      rw [hopt] at h
                      exact hcons ((Takes.refl us).cons.head ht) (.labeled hn) rfl h
                  · cases h
              · obtain ⟨⟨r, us⟩, hr, h⟩ := Reading.bind_eq_ok_iff.1 h
                obtain ⟨ls, htakes, hls⟩ := Run.derives_of_read? hr
                exact hcons htakes hls rfl h

end Draft

theorem Alternative.derives_of_ofSegment? {s : Segment} {a : Alternative}
    (h : ofSegment? s = .ok a) :
    Element.DerivesSequence (s.tokens.map SourceToken.lexeme) a.elements := by
  unfold ofSegment? at h
  split at h
  · cases h
  · rename_i d hd
    split at h
    · cases h
    · rename_i hfinish
      cases h
      obtain ⟨es, hes, hfold⟩ := Draft.derives_of_extend? hd
      obtain ⟨helements, hne⟩ := Draft.elements_of_finish hfinish
      rw [Draft.elements_of_foldlM_add? hfold] at helements hne
      rw [helements]
      exact ⟨hne, hes, Element.bracketed_iff.2 ⟨a, helements⟩⟩

end SpanRules
