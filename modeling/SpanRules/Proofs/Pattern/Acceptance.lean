import SpanRules.Proofs.Pattern.Derivation
import SpanRules.Proofs.Pattern.Places

/-! What the grammar derives is read, and nothing is read but what it derives. -/
namespace SpanRules

namespace Lexeme
variable {l : Lexeme} {c d : Char}

def token (l : Lexeme) : SourceToken := ⟨l.kind, l.text, default, default⟩

@[simp] theorem kind_token : l.token.kind = l.kind := rfl

@[simp] theorem text_token : l.token.text = l.text := rfl

@[simp] theorem lexeme_token : l.token.lexeme = l := rfl

theorem map_bare_eq_map_token (ts : List SourceToken) :
    ts.map SourceToken.bare = (ts.map SourceToken.lexeme).map token := by
  rw [List.map_map]
  rfl

end Lexeme

variable {c : Char} {l : Lexeme} {rest : Rest}

theorem isSymbol_token : l.token.isSymbol c = true ↔ l = .mark c := SourceToken.isSymbol_iff

theorem nextIs_token : nextIs c (l.token :: rest) = true ↔ l = .mark c := SourceToken.isSymbol_iff

namespace Test

theorem argument?_of_kind {mayBeWord : Bool} {n : Lexeme} (rest : Rest)
    (hn : n.kind = .quoted ∨ (mayBeWord ∧ n.kind = .word)) :
    argument? mayBeWord (n.token :: (Lexeme.mark ')').token :: rest) =
      .ok (Text.unquote n.text, rest) := by
  rw [argument?, Lexeme.kind_token, if_pos hn, if_pos (nextIs_token.2 rfl)]
  rfl

theorem argument?_of_name {n : Lexeme} (rest : Rest) (hn : n.IsName) :
    argument? true (n.token :: (Lexeme.mark ')').token :: rest) =
      .ok (Text.unquote n.text, rest) :=
  argument?_of_kind rest (hn.symm.imp_right fun h => ⟨rfl, h⟩)

theorem property?_of_name {key : Text} {n : Lexeme} (rest : Rest) (hn : n.IsName) :
    property? key ((Lexeme.mark ':').token :: n.token :: rest) =
      .ok (.propertyIs key (Text.unquote n.text), rest) := by
  rw [property?, if_pos (nextIs_token.2 rfl), List.tail_cons]
  exact if_pos (SourceToken.isWordOrQuoted_iff (t := n.token).2 hn)

/-- Reading a test that begins with a word. -/
theorem read?_word {w : Text} (hany : w ≠ ascii "any") (fuel : Nat) (rest : Rest) :
    read? (fuel + 1) (Lexeme.token ⟨.word, w⟩ :: rest) =
      if nextIs '(' rest then function? w rest else property? w rest := by
  simp [read?, SourceToken.isSymbol, hany]

theorem read?_of_function? {w : Text} {n : Lexeme} {t : Test} {fuel : Nat} {rest : Rest}
    (hany : w ≠ ascii "any")
    (h : function? w ([Lexeme.mark '(', n, .mark ')'].map Lexeme.token ++ rest) = .ok (t, rest)) :
    read? (fuel + 1) ([⟨.word, w⟩, .mark '(', n, .mark ')'].map Lexeme.token ++ rest) =
      .ok (t, rest) := by
  refine (read?_word hany fuel _).trans (Eq.trans ?_ h)
  exact if_pos (nextIs_token.2 rfl)

mutual

theorem read?_of_derives {ls : List Lexeme} {t : Test} (h : Derives ls t) {fuel : Nat} {rest : Rest}
    (hfuel : 2 * ls.length ≤ fuel) (hcolon : nextIs ':' rest = false)
    (hparen : nextIs '(' rest = false) :
    read? fuel (ls.map Lexeme.token ++ rest) = .ok (t, rest) := by
  cases fuel with
  | zero =>
    obtain ⟨l, ms, rfl, -⟩ := h.head
    simp at hfuel
  | succ fuel =>
    cases h with
    | any => simp [read?, SourceToken.isSymbol, Lexeme.keyword]
    | literal => simp [read?]
    | equals =>
      apply read?_of_function? (by decide)
      rw [function?, if_pos rfl]
      exact Reading.bind_eq_ok_iff.2 ⟨_, argument?_of_kind rest (.inl rfl), rfl⟩
    | equalsLower =>
      apply read?_of_function? (by decide)
      rw [function?, if_neg (by decide), if_pos rfl]
      exact Reading.bind_eq_ok_iff.2 ⟨_, argument?_of_kind rest (.inl rfl), rfl⟩
    | inDictionary hn =>
      apply read?_of_function? (by decide)
      rw [function?, if_neg (by decide), if_neg (by decide), if_neg (by decide), if_pos rfl]
      exact Reading.bind_eq_ok_iff.2 ⟨_, argument?_of_name rest hn, rfl⟩
    | lowerInDictionary hn =>
      apply read?_of_function? (by decide)
      rw [function?, if_neg (by decide), if_neg (by decide), if_neg (by decide), if_neg (by decide),
        if_pos rfl]
      exact Reading.bind_eq_ok_iff.2 ⟨_, argument?_of_name rest hn, rfl⟩
    | propertyIs hkey hn =>
      refine (read?_word hkey fuel _).trans (Eq.trans ?_ (property?_of_name rest hn))
      exact if_neg fun h => absurd (nextIs_token.1 h) (by decide)
    | hasProperty hkey =>
      apply (read?_word hkey fuel _).trans
      rw [if_neg (by simp [hparen]), property?, if_neg (by simp [hcolon])]
      rfl
    | @not ls t h =>
      have hfuel' : 2 * ls.length ≤ fuel := by
        rw [List.length_cons] at hfuel
        omega
      rw [List.map_cons, List.cons_append, read?, if_neg (by simp),
        if_pos (SourceToken.isSymbol_iff.2 rfl), read?_of_derives h hfuel' hcolon hparen]
      rfl
    | @conjunction ls t h =>
      have hfuel' : 2 * ls.length ≤ fuel := by
        rw [List.length_cons] at hfuel
        omega
      rw [List.map_cons, List.cons_append, read?, if_neg (by simp),
        if_neg fun h => absurd (SourceToken.isSymbol_iff.1 h) (by decide),
        if_pos (SourceToken.isSymbol_iff.2 rfl), conjunction?_of_derivesList h hfuel']

theorem conjunction?_of_derivesList {ls : List Lexeme} {t : Test} (h : DerivesList ls t)
    {fuel : Nat} {rest : Rest} (hfuel : 2 * ls.length ≤ fuel) :
    conjunction? fuel (ls.map Lexeme.token ++ rest) = .ok (t, rest) := by
  cases fuel with
  | zero => cases h <;> simp at hfuel
  | succ fuel =>
    cases h with
    | @last ls t h =>
      have hfuel' : 2 * ls.length ≤ fuel := by
        rw [List.length_append, List.length_singleton] at hfuel
        omega
      rw [List.map_append, List.append_assoc]
      refine Reading.bind_eq_ok_iff.2 ⟨_, read?_of_derives h hfuel' rfl rfl, ?_⟩
      exact if_pos (nextIs_token.2 rfl)
    | @more ls ms t u h h' =>
      have hfuel' : 2 * ls.length ≤ fuel ∧ 2 * ms.length ≤ fuel := by
        rw [List.length_append, List.length_cons] at hfuel
        omega
      rw [List.map_append, List.append_assoc]
      refine Reading.bind_eq_ok_iff.2 ⟨_, read?_of_derives h hfuel'.1 rfl rfl, ?_⟩
      have hnext : conjunction? fuel (ms.map Lexeme.token ++ rest) = .ok (u, rest) :=
        conjunction?_of_derivesList h' hfuel'.2
      apply (if_neg fun h => absurd (nextIs_token.1 h) (by decide)).trans
      apply (if_pos (nextIs_token.2 rfl)).trans
      exact Reading.bind_eq_ok_iff.2 ⟨_, hnext, rfl⟩

end

end Test

namespace Run
variable {ls : List Lexeme} {rest : Rest}

theorem bounds?_of_derives {min : Nat} {max : Option Nat} (h : DerivesBounds ls min max)
    (hrest : ∀ c ∈ ['*', '+', '?', '\x7b'], nextIs c rest = false) :
    bounds? (ls.map Lexeme.token ++ rest) = .ok ((min, max), rest) := by
  have hcount : ∀ {c : Lexeme} {n : Nat}, c.Counts n → c.token.count? = some n :=
    fun hc => SourceToken.count?_eq_some_iff.2 hc
  cases h with
  | none =>
    simp only [List.forall_mem_cons] at hrest
    simp [bounds?, hrest]
  | star => simp [bounds?, nextIs_token]
  | plus => simp +decide [bounds?, nextIs_token]
  | optional => simp +decide [bounds?, nextIs_token]
  | exactly hc => simp +decide [bounds?, nextIs_token, hcount hc]
  | atLeast hc => simp +decide [bounds?, nextIs_token, hcount hc]
  | between hc hd hle =>
    simp +decide [bounds?, nextIs_token, hcount hc, hcount hd, hd.ne_mark, Nat.not_lt.2 hle]

/-- The word `L` before no test is read as the name of a property, by whichever reader. -/
theorem property?_of_read? {l : Lexeme} {us : Rest} {t : Test} {fuel : Nat} (hl : l = .keyword "L")
    (h : Test.read? fuel (l.token :: us) = .ok (t, rest)) :
    Test.property? (ascii "L") us = .ok (t, rest) := by
  subst hl
  cases fuel with
  | zero => cases h
  | succ fuel =>
    rw [Lexeme.keyword, Test.read?_word (by decide)] at h
    split at h
    · have hnone : Test.function? (ascii "L") us =
          stopAt us (.unknownFunction (ascii "L")) := by
        simp +decide [Test.function?]
      rw [hnone] at h
      cases h
    · exact h

theorem test?_of_derives {left : Bool} {t : Test} (h : t.Derives ls)
    (hleft : left = true ↔
      StartsWithFlag (flag "L" left ++ ls ++ rest.map SourceToken.lexeme))
    (hcolon : nextIs ':' rest = false) (hparen : nextIs '(' rest = false) :
    test? ((flag "L" left ++ ls).map Lexeme.token ++ rest) = .ok ((left, t), rest) := by
  have hread : ∀ {fuel}, 2 * (ls.map Lexeme.token ++ rest).length ≤ fuel →
      Test.read? fuel (ls.map Lexeme.token ++ rest) = .ok (t, rest) := by
    intro fuel hfuel
    rw [List.length_append, List.length_map] at hfuel
    exact Test.read?_of_derives h (by omega) hcolon hparen
  have hmap : (ls.map Lexeme.token ++ rest).map SourceToken.lexeme =
      ls ++ rest.map SourceToken.lexeme := by
    simp [Function.comp_def]
  obtain ⟨l, ms, rfl, hl⟩ := h.head
  cases left with
  | true =>
    have hstarts : l.token.startsTest = true := SourceToken.startsTest_iff.2 hl
    simp only [test?]
    apply (if_pos rfl).trans
    apply (if_pos hstarts).trans
    exact Reading.bind_eq_ok_iff.2 ⟨_, hread (by simp; omega), rfl⟩
  | false =>
    have hnot := mt hleft.2 Bool.false_ne_true
    rw [flag, if_neg Bool.false_ne_true, List.nil_append, ← hmap, startsWithFlag_iff,
      not_and] at hnot
    simp only [test?, flag, if_neg Bool.false_ne_true, List.nil_append]
    split
    · rename_i hword
      rw [if_neg (hnot hword)]
      have hL : l = .keyword "L" := SourceToken.isWord_iff.1 hword
      exact Reading.bind_eq_ok_iff.2 ⟨_, property?_of_read? hL (hread le_rfl), rfl⟩
    · exact Reading.bind_eq_ok_iff.2 ⟨_, hread (Nat.le_succ _), rfl⟩

theorem read?_of_derives {r : Run}
    (h : Element.Derives (rest.map SourceToken.lexeme) ls (.item (.run r)))
    (hrest : ∀ c ∈ [':', '(', '*', '+', '?', '\x7b'], nextIs c rest = false) :
    read? (ls.map Lexeme.token ++ rest) = .ok (r, rest) := by
  cases h with
  | @run ls ms _ ht hb hleft hright =>
    obtain ⟨t, min, max, left, right⟩ := r
    simp only at ht hb hleft hright ⊢
    -- what is left after the bounds and after the test
    generalize hus : (flag "R" right).map Lexeme.token ++ rest = us
    generalize hvs : ms.map Lexeme.token ++ us = vs
    have hus' : us.map SourceToken.lexeme = flag "R" right ++ rest.map SourceToken.lexeme := by
      simp [← hus, Function.comp_def]
    have hvs' : vs.map SourceToken.lexeme = ms ++ us.map SourceToken.lexeme := by
      simp [← hvs, Function.comp_def]
    have hnext : ∀ c ∈ [':', '(', '*', '+', '?', '\x7b'], nextIs c us = false := by
      cases right with
      | true =>
        intro c _
        rw [← hus]
        rfl
      | false => exact hus ▸ hrest
    have hnext' : ∀ c ∈ [':', '('], nextIs c vs = false := by
      cases hb with
      | none => exact hvs ▸ fun c hc => hnext c (List.mem_append_left ['*', '+', '?', '\x7b'] hc)
      | _ =>
        rw [← hvs]
        exact List.forall_mem_cons.2 ⟨rfl, List.forall_mem_singleton.2 rfl⟩
    have htest : test? ((flag "L" left ++ ls).map Lexeme.token ++ vs) = .ok ((left, t), vs) := by
      apply test?_of_derives ht _ (hnext' _ (by simp)) (hnext' _ (by simp))
      rw [hvs', hus', hleft]
      simp only [List.append_assoc]
    have hbounds : bounds? vs = .ok ((min, max), us) :=
      hvs ▸ bounds?_of_derives hb fun c hc => hnext c (List.mem_append_right [':', '('] hc)
    have hword : us.head?.any (·.isWord "R") = right := by
      rw [Bool.eq_iff_iff, hright, head?_isWord_iff, hus']
    have hall : (flag "L" left ++ ls ++ ms ++ flag "R" right).map Lexeme.token ++ rest =
        (flag "L" left ++ ls).map Lexeme.token ++ vs := by
      simp only [← hvs, ← hus, List.map_append, List.append_assoc]
    rw [hall]
    refine Reading.bind_eq_ok_iff.2 ⟨_, htest, Reading.bind_eq_ok_iff.2 ⟨_, hbounds, ?_⟩⟩
    simp only [hword]
    cases right <;> exact hus ▸ rfl

end Run

/-- What comes after an element begins with none of the marks that go on with one. -/
theorem Element.DerivesAll.nextIs_eq_false {ls : List Lexeme} {es : List Element}
    (h : DerivesAll ls es) : ∀ c ∈ [':', '(', '*', '+', '?', '\x7b'],
      nextIs c (ls.map Lexeme.token) = false := by
  have hne : ∀ c ∈ [':', '(', '*', '+', '?', '\x7b'], ∀ d ∈ ['[', ']', '@', '!', '<'],
      byte c ≠ byte d := Lexeme.byte_ne_of_all (by decide)
  intro c hc
  have hstarts := h.startsElement
  cases ls with
  | nil => rfl
  | cons l ls =>
    rw [Bool.eq_false_iff]
    exact fun hnext => (hstarts l rfl).ne_mark (hne c hc) (nextIs_token.1 hnext)

namespace Draft
variable {d d' : Draft} {a : Alternative}

theorem extend?_of_startsTest {t : SourceToken} (h : t.startsTest = true) (fuel : Nat)
    (d : Draft) (rest : Rest) : extend? (fuel + 1) d (t :: rest) =
      Run.read? (t :: rest) >>= fun x => extend? fuel (d.push (.run x.1)) x.2 := by
  have hkind : t.kind ≠ .unterminated ∧ t.kind ≠ .ellipsis := by
    rcases SourceToken.startsTest_iff.1 h with (h | h) | h | h <;>
      simp_all [SourceToken.lexeme, Lexeme.mark]
  have hsymbol : ∀ c ∈ ['[', ']', '@'], t.isSymbol c = false := by
    have hne : ∀ c ∈ ['[', ']', '@'], ∀ d ∈ ['!', '<'], byte c ≠ byte d :=
      Lexeme.byte_ne_of_all (by decide)
    intro c hc
    rw [Bool.eq_false_iff]
    intro ht
    exact (SourceToken.startsTest_iff.1 h).ne_mark (hne c hc) (SourceToken.isSymbol_iff.1 ht)
  simp [extend?, hkind, hsymbol]

theorem extend?_of_derivesAll {ls : List Lexeme} {es : List Element} {fuel : Nat}
    (h : Element.DerivesAll ls es) (hfold : es.foldlM add? d = .ok d') (hfuel : ls.length ≤ fuel) :
    extend? fuel d (ls.map Lexeme.token) = .ok d' := by
  induction h generalizing d fuel with
  | nil =>
    cases hfold
    cases fuel <;> rfl
  | @cons ls ms e es he hes ih =>
    rw [List.foldlM_cons, Reading.bind_eq_ok_iff] at hfold
    obtain ⟨d₁, hadd, hfold⟩ := hfold
    have hpos : 0 < ls.length := by
      obtain ⟨l, rest, rfl, -⟩ := he.head
      exact Nat.succ_pos _
    rw [List.length_append] at hfuel
    obtain ⟨fuel, rfl⟩ := Nat.exists_eq_succ_of_ne_zero (n := fuel) (by omega)
    have hrest : extend? fuel d₁ (ms.map Lexeme.token) = .ok d' := ih hfold (by omega)
    have hnext := hes.nextIs_eq_false
    rw [List.map_append]
    cases he with
    | gap =>
      cases hadd
      simpa [extend?] using hrest
    | opening =>
      change d.openBracket = .ok d₁ at hadd
      simpa [extend?, isSymbol_token, hadd] using hrest
    | closing =>
      change d.closeBracket = .ok d₁ at hadd
      simpa +decide [extend?, isSymbol_token, hadd] using hrest
    | labeled hn =>
      cases hadd
      have hname := SourceToken.isWordOrQuoted_iff (t := Lexeme.token _).2 hn
      simpa +decide [extend?, isSymbol_token, hname, hnext] using hrest
    | optional hn =>
      cases hadd
      have hname := SourceToken.isWordOrQuoted_iff (t := Lexeme.token _).2 hn
      have hmark : nextIs '?' ((Lexeme.mark '?').token :: ms.map Lexeme.token) = true :=
        nextIs_token.2 rfl
      simpa +decide [extend?, isSymbol_token, hname, hmark] using hrest
    | @run ls ms' r ht hb hleft hright =>
      cases hadd
      have hmap : (ms.map Lexeme.token).map SourceToken.lexeme = ms := by simp [Function.comp_def]
      have hrun : Element.Derives ((ms.map Lexeme.token).map SourceToken.lexeme) _
          (.item (.run r)) := .run ht hb (by rwa [hmap]) (by rwa [hmap])
      have hread := Run.read?_of_derives hrun hnext
      obtain ⟨l, rest, heq, hl⟩ := Run.exists_head ht r.maximalLeft
      rw [heq] at hread ⊢
      apply (extend?_of_startsTest (SourceToken.startsTest_iff (t := l.token).2 hl) fuel d _).trans
      exact Reading.bind_eq_ok_iff.2 ⟨_, hread, hrest⟩

def append (items : List Item) : Draft → Draft
  | plain xs => plain (xs ++ items)
  | opened before inside => opened before (inside ++ items)
  | closed before inside after => closed before inside (after ++ items)

theorem foldlM_add?_items (items : List Item) (es : List Element) (d : Draft) :
    (items.map Element.item ++ es).foldlM add? d = es.foldlM add? (d.append items) := by
  induction items generalizing d with
  | nil => cases d <;> simp [append]
  | cons i items ih =>
    have hpush : (d.push i).append items = d.append (i :: items) := by
      cases d <;> simp [push, append]
    rw [← hpush, ← ih]
    rfl

/-- The elements of an alternative make it up again. -/
theorem exists_finish_elements (h : a.elements ≠ []) :
    ∃ d, a.elements.foldlM add? (.plain []) = .ok d ∧ d.finish = .ok a := by
  cases a with
  | whole items =>
    refine ⟨.plain items, ?_, ?_⟩
    · have hfold := foldlM_add?_items items [] (.plain [])
      rw [List.append_nil] at hfold
      exact hfold
    · cases items with
      | nil => exact absurd rfl h
      | cons => rfl
  | bracketed before inside after =>
    refine ⟨.closed before inside after, ?_, rfl⟩
    rw [Alternative.elements, foldlM_add?_items]
    apply (foldlM_add?_items inside _ (.opened before [])).trans
    have hfold := foldlM_add?_items after [] (.closed before inside [])
    rw [List.append_nil] at hfold
    exact hfold

end Draft

theorem Alternative.ofSegment?_iff_derives {s : Segment} {a : Alternative} :
    ofSegment? s = .ok a ↔
      Element.DerivesSequence (s.tokens.map SourceToken.lexeme) a.elements := by
  refine ⟨derives_of_ofSegment?, fun h => ?_⟩
  obtain ⟨d, hfold, hfinish⟩ := Draft.exists_finish_elements h.nonempty
  -- reading takes no notice of places, so tokens without places will do
  have hbare : ofSegment? ⟨s.tokens.map SourceToken.bare, s.stop⟩ = .ok a := by
    rw [ofSegment?, Lexeme.map_bare_eq_map_token,
      Draft.extend?_of_derivesAll h.elements hfold (by simp)]
    simp only [hfinish]
  exact ofSegment?_congr (by simp [Function.comp_def, SourceToken.bare]) hbare

namespace Pattern
variable {s : Segment} {p : Pattern}

/-- A pattern is read exactly if the grammar derives its alternatives from the lexemes. -/
theorem ofSegment?_eq_ok_iff : ofSegment? s = .ok p ↔
    Derives (s.tokens.map SourceToken.lexeme) (p.alternatives.map (·.elements)) ∧
      p.source = s.tokens.map (·.text) := by
  obtain ⟨as, source⟩ := p
  have hparts := Segment.map_lexeme_splitOnP (·.kind == .bars) s.stop s.tokens
  rw [derives_iff, ← hparts, List.forall₂_map_left_iff, List.forall₂_map_right_iff]
  simp only [← Alternative.ofSegment?_iff_derives, ← Reading.mapM_eq_ok_iff]
  rw [ofSegment?, Reading.bind_eq_ok_iff]
  constructor
  · rintro ⟨as', has, h⟩
    cases h
    exact ⟨has, rfl⟩
  · rintro ⟨has, rfl⟩
    exact ⟨as, has, rfl⟩

theorem exists_ofSegment?_of_derives {ess : List (List Element)}
    (h : Derives (s.tokens.map SourceToken.lexeme) ess) :
    ∃ p, ofSegment? s = .ok p ∧ p.alternatives.map (·.elements) = ess := by
  obtain ⟨as, rfl⟩ := exists_alternatives_of_derives h
  exact ⟨⟨as, s.tokens.map (·.text)⟩, ofSegment?_eq_ok_iff.2 ⟨h, rfl⟩, rfl⟩

/-- The source form of a pattern is scanned as the lexemes that it was read from. -/
theorem exists_segments_toText {source : Text} {statement : Segment}
    (hstatement : statement ∈ source.segments) (hs : s.tokens <:+ statement.tokens)
    (hp : ofSegment? s = .ok p) : ∃ s', p.toText.segments = [s'] ∧
      s'.tokens.map SourceToken.lexeme = s.tokens.map SourceToken.lexeme := by
  obtain ⟨hderives, hsource⟩ := ofSegment?_eq_ok_iff.1 hp
  have htokens : ∀ t ∈ s.tokens, t.lexeme ∈ source.solidLexemes ∧ t.isSymbol ';' = false :=
    fun t ht => Text.lexeme_mem_of_mem_segments hstatement (hs.subset ht)
  have hlexemes : p.toText.solidLexemes = s.tokens.map SourceToken.lexeme := by
    have htexts : s.tokens.map (·.text) = (s.tokens.map SourceToken.lexeme).map (·.text) := by
      rw [List.map_map]
      rfl
    rw [toText, hsource, htexts]
    refine Text.solidLexemes_join fun l hl => ?_
    obtain ⟨t, ht, rfl⟩ := List.mem_map.1 hl
    obtain ⟨hmem, hblank⟩ := List.mem_filter.1 (htokens t ht).1
    exact ⟨Text.genuine_of_mem_lexemes hmem, by simpa using hblank,
      finished_of_derives hderives _ hl⟩
  have hsemi : ∀ l ∈ s.tokens.map SourceToken.lexeme, (l == .mark ';') = false := by
    intro l hl
    obtain ⟨t, ht, rfl⟩ := List.mem_map.1 hl
    rw [beq_eq_false_iff_ne]
    intro heq
    have hnot := (htokens t ht).2
    rw [SourceToken.isSymbol_iff.2 heq] at hnot
    cases hnot
  have hsegments := Text.map_lexeme_segments p.toText
  rw [hlexemes, List.splitOn, List.splitOnP_eq_singleton hsemi] at hsegments
  exact List.map_eq_singleton_iff.1 hsegments

/-- The tokens up to the end of a statement are read as a pattern exactly if the grammar derives their
lexemes. The alternatives are then all that it derives, and the source form of the pattern, these
tokens with a blank between each two, is read as the same pattern. -/
theorem ofSegment?_accepts_grammar {source : Text} {statement : Segment}
    (hstatement : statement ∈ source.segments) (hs : s.tokens <:+ statement.tokens) :
    ((∃ p, ofSegment? s = .ok p) ↔ ∃ ess, Derives (s.tokens.map SourceToken.lexeme) ess) ∧
      ∀ p, ofSegment? s = .ok p →
        (∀ ess, Derives (s.tokens.map SourceToken.lexeme) ess ↔
          ess = p.alternatives.map (·.elements)) ∧
        p.toText = Text.join (ascii " ") (s.tokens.map (·.text)) ∧
        ∃ s', p.toText.segments = [s'] ∧
          s'.tokens.map SourceToken.lexeme = s.tokens.map SourceToken.lexeme ∧
          ofSegment? s' = .ok p := by
  refine ⟨⟨?_, ?_⟩, fun p hp => ?_⟩
  · rintro ⟨p, hp⟩
    exact ⟨_, (ofSegment?_eq_ok_iff.1 hp).1⟩
  · rintro ⟨ess, h⟩
    obtain ⟨p, hp, -⟩ := exists_ofSegment?_of_derives h
    exact ⟨p, hp⟩
  · obtain ⟨hderives, hsource⟩ := ofSegment?_eq_ok_iff.1 hp
    refine ⟨fun ess => ⟨fun h => ?_, fun h => h ▸ hderives⟩, by rw [toText, hsource], ?_⟩
    · obtain ⟨p', hp', rfl⟩ := exists_ofSegment?_of_derives h
      rw [hp] at hp'
      rw [Except.ok.inj hp']
    · obtain ⟨s', hsegments, hmap⟩ := exists_segments_toText hstatement hs hp
      exact ⟨s', hsegments, hmap, ofSegment?_congr hmap.symm hp⟩

/-- The word `L` is a flag before a test and a property elsewhere. -/
theorem ofSegment?_accepts_grammar_of_flags :
    let source := ascii ": L L\x7b1,2\x7d R || [ L ] ...;"
    let statement := (Text.segments source).headD default
    let s : Segment := ⟨statement.tokens.tail, statement.stop⟩
    (statement ∈ Text.segments source ∧ s.tokens <:+ statement.tokens) ∧
    s.tokens.map (·.text) = ["L", "L", "\x7b", "1", ",", "2", "\x7d", "R", "||", "[", "L", "]",
      "..."].map ascii ∧
    ∀ ess, Derives (s.tokens.map SourceToken.lexeme) ess ↔
      ess = [[.item (.run ⟨.hasProperty (ascii "L"), 1, some 2, true, true⟩)],
        [.opening, .item (.run ⟨.hasProperty (ascii "L"), 1, some 1, false, false⟩), .closing,
          .item .gap]] := by
  intro source statement s
  let p : Pattern := ⟨[.whole [.run ⟨.hasProperty (ascii "L"), 1, some 2, true, true⟩],
    .bracketed [] [.run ⟨.hasProperty (ascii "L"), 1, some 1, false, false⟩] [.gap]],
    s.tokens.map (·.text)⟩
  have hmem : statement ∈ Text.segments source := by decide +kernel
  have hsuffix : s.tokens <:+ statement.tokens := List.tail_suffix statement.tokens
  have hp : ofSegment? s = .ok p := by decide +kernel
  exact ⟨⟨hmem, hsuffix⟩, by decide +kernel,
    ((ofSegment?_accepts_grammar hmem hsuffix).2 p hp).1⟩

end Pattern

end SpanRules
