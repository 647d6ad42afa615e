import Mathlib.Data.Set.List
import SpanRules.Pattern.Reading
import SpanRules.Proofs.Pattern.Meaning
import SpanRules.Proofs.Source.Token

/-! The grammar of patterns, as a relation between lexemes and what they stand for.

    pattern  := sequence ('||' sequence)*
    sequence := element+
    element  := '...' | '[' | ']' | '@' name ['?'] | ['L'] test [bounds] ['R']
    bounds   := '*' | '+' | '?' | '{' n '}' | '{' n ',' '}' | '{' n ',' m '}'
    test     := any | quoted | eq(quoted) | eqi(quoted) | a(name) | ai(name) |
                key ':' name | key | '!' test | '<' test (',' test)* '>'

A name is a word or a quoted text, a key is any word but `any`, and `n` is at most `m`. A sequence
has no brackets or one that opens and later one that closes. Where a run may begin with the flag `L`,
that word is the flag if a test can start after it; where a run may end with the flag `R`, that word
is the flag. Tests by regular expressions are left out. -/
namespace SpanRules

namespace Lexeme

def IsName (l : Lexeme) : Prop := l.kind = .word ∨ l.kind = .quoted

def StartsTest (l : Lexeme) : Prop := l.IsName ∨ l = .mark '!' ∨ l = .mark '<'

def StartsElement (l : Lexeme) : Prop :=
  l.kind = .ellipsis ∨ l = .mark '[' ∨ l = .mark ']' ∨ l = .mark '@' ∨ l.StartsTest

def Counts (l : Lexeme) (n : Nat) : Prop := l.kind = .word ∧ l.text.int32? = some (n : Int)

def InSequence (l : Lexeme) : Prop :=
  l.kind = .word ∨ l.kind = .quoted ∨ l.kind = .ellipsis ∨ l.kind = .symbol

variable {l : Lexeme}

@[simp] theorem kind_mark (c : Char) : (mark c).kind = .symbol := rfl

@[simp] theorem kind_keyword (w : String) : (keyword w).kind = .word := rfl

@[simp] theorem inSequence_mark (c : Char) : (mark c).InSequence := by simp [InSequence]

@[simp] theorem inSequence_word (w : Text) : InSequence ⟨.word, w⟩ := by simp [InSequence]

@[simp] theorem inSequence_quoted (w : Text) : InSequence ⟨.quoted, w⟩ := by simp [InSequence]

@[simp] theorem inSequence_keyword (w : String) : (keyword w).InSequence := inSequence_word _

theorem IsName.inSequence (h : l.IsName) : l.InSequence := h.imp_right .inl

theorem Counts.inSequence {n : Nat} (h : l.Counts n) : l.InSequence := .inl h.1

theorem Counts.ne_mark {n : Nat} (h : l.Counts n) (c : Char) : l ≠ .mark c := by
  rintro rfl
  cases h.1

theorem InSequence.finished (h : l.InSequence) : l.kind ≠ .unterminated := by
  rintro hl
  simp [InSequence, hl] at h

theorem InSequence.not_bars (h : l.InSequence) : l.kind ≠ .bars := by
  rintro hl
  simp [InSequence, hl] at h

theorem startsTest_word (w : Text) : StartsTest ⟨.word, w⟩ := .inl (.inl rfl)

theorem startsTest_quoted (w : Text) : StartsTest ⟨.quoted, w⟩ := .inl (.inr rfl)

theorem StartsTest.startsElement (h : l.StartsTest) : l.StartsElement := .inr (.inr (.inr (.inr h)))

theorem byte_ne_of_all {cs ds : List Char}
    (h : (cs.all fun c => ds.all fun d => byte c != byte d) = true) :
    ∀ c ∈ cs, ∀ d ∈ ds, byte c ≠ byte d := by
  intro c hc d hd
  exact bne_iff_ne.1 (List.all_eq_true.1 (List.all_eq_true.1 h c hc) d hd)

theorem mark_inj {c d : Char} : mark c = mark d ↔ byte c = byte d := by simp [mark]

theorem IsName.ne_mark (h : l.IsName) (c : Char) : l ≠ .mark c := by
  rintro rfl
  simp [IsName] at h

theorem StartsTest.ne_mark (h : l.StartsTest) {c : Char}
    (hc : ∀ d ∈ ['!', '<'], byte c ≠ byte d) : l ≠ .mark c := by
  rintro rfl
  rcases h with h | h | h
  · exact h.ne_mark c rfl
  · exact hc _ (by simp) (mark_inj.1 h)
  · exact hc _ (by simp) (mark_inj.1 h)

theorem StartsElement.ne_mark (h : l.StartsElement) {c : Char}
    (hc : ∀ d ∈ ['[', ']', '@', '!', '<'], byte c ≠ byte d) : l ≠ .mark c := by
  rintro rfl
  rcases h with h | h | h | h | h
  · cases h
  · exact hc _ (by simp) (mark_inj.1 h)
  · exact hc _ (by simp) (mark_inj.1 h)
  · exact hc _ (by simp) (mark_inj.1 h)
  · exact h.ne_mark (fun d hd => hc d (List.mem_append_right ['[', ']', '@'] hd)) rfl

end Lexeme

namespace Test

mutual

inductive Derives : List Lexeme → Test → Prop
  | any : Derives [.keyword "any"] .any
  | literal {w} : Derives [⟨.quoted, w⟩] (.equals w.unquote)
  | equals {w} : Derives [.keyword "eq", .mark '(', ⟨.quoted, w⟩, .mark ')'] (.equals w.unquote)
  | equalsLower {w} : Derives [.keyword "eqi", .mark '(', ⟨.quoted, w⟩, .mark ')']
      (.equalsLower w.unquote.lower)
  | inDictionary {n} : n.IsName → Derives [.keyword "a", .mark '(', n, .mark ')']
      (.inDictionary n.text.unquote)
  | lowerInDictionary {n} : n.IsName → Derives [.keyword "ai", .mark '(', n, .mark ')']
      (.lowerInDictionary n.text.unquote)
  | propertyIs {key n} : key ≠ ascii "any" → n.IsName →
      Derives [⟨.word, key⟩, .mark ':', n] (.propertyIs key n.text.unquote)
  | hasProperty {key} : key ≠ ascii "any" → Derives [⟨.word, key⟩] (.hasProperty key)
  | not {ls t} : Derives ls t → Derives (.mark '!' :: ls) (.not t)
  | conjunction {ls t} : DerivesList ls t → Derives (.mark '<' :: ls) t

/-- The lexemes of the tests of a conjunction, up to the mark that closes it. -/
inductive DerivesList : List Lexeme → Test → Prop
  | last {ls t} : Derives ls t → DerivesList (ls ++ [.mark '>']) t
  | more {ls ms t u} : Derives ls t → DerivesList ms u →
      DerivesList (ls ++ .mark ',' :: ms) (.both t u)

end

theorem Derives.head {ls : List Lexeme} {t : Test} (h : Derives ls t) :
    ∃ l rest, ls = l :: rest ∧ l.StartsTest := by
  cases h with
  | any | equals | equalsLower | inDictionary | lowerInDictionary | propertyIs | hasProperty =>
    exact ⟨_, _, rfl, Lexeme.startsTest_word _⟩
  | literal => exact ⟨_, _, rfl, Lexeme.startsTest_quoted _⟩
  | not => exact ⟨_, _, rfl, .inr (.inl rfl)⟩
  | conjunction => exact ⟨_, _, rfl, .inr (.inr rfl)⟩

mutual

theorem Derives.inSequence {ls : List Lexeme} {t : Test} : Derives ls t → ∀ l ∈ ls, l.InSequence
  | .any | .literal | .equals | .equalsLower | .hasProperty _ => by simp
  | .inDictionary hn | .lowerInDictionary hn | .propertyIs _ hn => by simp [hn.inSequence]
  | .not h => List.forall_mem_cons.2 ⟨Lexeme.inSequence_mark _, h.inSequence⟩
  | .conjunction h => List.forall_mem_cons.2 ⟨Lexeme.inSequence_mark _, h.inSequence⟩

theorem DerivesList.inSequence {ls : List Lexeme} {t : Test} :
    DerivesList ls t → ∀ l ∈ ls, l.InSequence
  | .last h => List.forall_mem_append.2 ⟨h.inSequence, by simp⟩
  | .more h h' => List.forall_mem_append.2
      ⟨h.inSequence, List.forall_mem_cons.2 ⟨Lexeme.inSequence_mark _, h'.inSequence⟩⟩

end

end Test

/-- The lexemes of the bounds of a run; a run without them is that of one token. -/
inductive Run.DerivesBounds : List Lexeme → (min : Nat) → (max : Option Nat) → Prop
  | none : DerivesBounds [] 1 (some 1)
  | star : DerivesBounds [.mark '*'] 0 .none
  | plus : DerivesBounds [.mark '+'] 1 .none
  | optional : DerivesBounds [.mark '?'] 0 (some 1)
  | exactly {c n} : c.Counts n → DerivesBounds [.mark '\x7b', c, .mark '\x7d'] n (some n)
  | atLeast {c n} : c.Counts n →
      DerivesBounds [.mark '\x7b', c, .mark ',', .mark '\x7d'] n .none
  | between {c d n m} : c.Counts n → d.Counts m → n ≤ m →
      DerivesBounds [.mark '\x7b', c, .mark ',', d, .mark '\x7d'] n (some m)

theorem Run.DerivesBounds.inSequence {ls : List Lexeme} {min : Nat} {max : Option Nat}
    (h : Run.DerivesBounds ls min max) : ∀ l ∈ ls, l.InSequence := by
  cases h with
  | none | star | plus | optional => simp
  | exactly hc | atLeast hc => simp [hc.inSequence]
  | between hc hd => simp [hc.inSequence, hd.inSequence]

def Run.flag (w : String) (isSet : Bool) : List Lexeme := if isSet then [.keyword w] else []

/-- Whether lexemes at which a run starts begin with the flag `L`. -/
def Run.StartsWithFlag (ls : List Lexeme) : Prop :=
  ∃ l rest, ls = .keyword "L" :: l :: rest ∧ l.StartsTest

theorem Run.exists_head {ls : List Lexeme} {t : Test} (h : t.Derives ls) (left : Bool) :
    ∃ l rest, Run.flag "L" left ++ ls = l :: rest ∧ l.StartsTest := by
  obtain ⟨l, rest, rfl, hl⟩ := h.head
  cases left with
  | false => exact ⟨l, rest, rfl, hl⟩
  | true => exact ⟨_, _, rfl, Lexeme.startsTest_word _⟩

namespace Element

/-- The lexemes of an element. What comes after them tells which words are flags. -/
inductive Derives (after : List Lexeme) : List Lexeme → Element → Prop
  | gap {w} : Derives after [⟨.ellipsis, w⟩] (.item .gap)
  | opening : Derives after [.mark '['] .opening
  | closing : Derives after [.mark ']'] .closing
  | labeled {n} : n.IsName → Derives after [.mark '@', n] (.item (.labeled n.text.unquote false))
  | optional {n} : n.IsName →
      Derives after [.mark '@', n, .mark '?'] (.item (.labeled n.text.unquote true))
  | run {ls ms} {r : Run} : r.test.Derives ls → Run.DerivesBounds ms r.min r.max →
      (r.maximalLeft = true ↔ Run.StartsWithFlag
        (Run.flag "L" r.maximalLeft ++ ls ++ ms ++ Run.flag "R" r.maximalRight ++ after)) →
      (r.maximalRight = true ↔
        (Run.flag "R" r.maximalRight ++ after).head? = some (.keyword "R")) →
      Derives after (Run.flag "L" r.maximalLeft ++ ls ++ ms ++ Run.flag "R" r.maximalRight)
        (.item (.run r))

/-- The lexemes of some elements, to the end of a sequence. -/
inductive DerivesAll : List Lexeme → List Element → Prop
  | nil : DerivesAll [] []
  | cons {ls ms e es} : Derives ms ls e → DerivesAll ms es → DerivesAll (ls ++ ms) (e :: es)

theorem inSequence_flag (w : String) (isSet : Bool) : ∀ l ∈ Run.flag w isSet, l.InSequence := by
  cases isSet <;> simp [Run.flag]

variable {ls ms after : List Lexeme} {e : Element} {es : List Element}

theorem Derives.head (h : Derives after ls e) :
    ∃ l rest, ls = l :: rest ∧ l.StartsElement := by
  cases h with
  | gap => exact ⟨_, _, rfl, .inl rfl⟩
  | opening => exact ⟨_, _, rfl, .inr (.inl rfl)⟩
  | closing => exact ⟨_, _, rfl, .inr (.inr (.inl rfl))⟩
  | labeled | optional => exact ⟨_, _, rfl, .inr (.inr (.inr (.inl rfl)))⟩
  | @run ls ms r ht =>
    obtain ⟨l, rest, heq, hl⟩ := Run.exists_head ht r.maximalLeft
    rw [heq]
    exact ⟨l, _, rfl, hl.startsElement⟩

theorem Derives.inSequence (h : Derives after ls e) : ∀ l ∈ ls, l.InSequence := by
  cases h with
  | gap => simp [Lexeme.InSequence]
  | opening | closing => simp
  | labeled hn | optional hn => simp [hn.inSequence]
  | run ht hb =>
    simp only [List.forall_mem_append]
    exact ⟨⟨⟨inSequence_flag _ _, ht.inSequence⟩, hb.inSequence⟩, inSequence_flag _ _⟩

/-- What comes after an element does not go on with it. -/
theorem DerivesAll.startsElement (h : DerivesAll ls es) : ∀ l ∈ ls.head?, l.StartsElement := by
  cases h with
  | nil => simp
  | cons he =>
    obtain ⟨l, rest, rfl, hl⟩ := he.head
    rintro _ ⟨⟩
    exact hl

theorem DerivesAll.inSequence (h : DerivesAll ls es) : ∀ l ∈ ls, l.InSequence := by
  induction h with
  | nil => simp
  | cons he _ ih => exact List.forall_mem_append.2 ⟨he.inSequence, ih⟩

/-- Brackets are missing, or there is one that opens and later one that closes. -/
def Bracketed (es : List Element) : Prop :=
  (∀ e ∈ es, e ≠ .opening ∧ e ≠ .closing) ∨
    ∃ before inside after : List Element,
      es = before ++ .opening :: (inside ++ .closing :: after) ∧
        ∀ e ∈ before ++ inside ++ after, e ≠ .opening ∧ e ≠ .closing

/-- Sequences whose brackets are in order are those that an alternative stands for. -/
theorem bracketed_iff : Bracketed es ↔ ∃ a : Alternative, a.elements = es := by
  have hitems : ∀ {es : List Element}, (∀ e ∈ es, e ≠ .opening ∧ e ≠ .closing) →
      ∃ items : List Item, items.map .item = es := by
    intro es hes
    rw [← Set.mem_range, Set.range_list_map]
    rintro e he
    cases e with
    | item i => exact ⟨i, rfl⟩
    | opening => exact absurd rfl (hes _ he).1
    | closing => exact absurd rfl (hes _ he).2
  constructor
  · rintro (hes | ⟨before, inside, after, rfl, hes⟩)
    · obtain ⟨items, rfl⟩ := hitems hes
      exact ⟨.whole items, rfl⟩
    · simp only [List.forall_mem_append] at hes
      obtain ⟨before, rfl⟩ := hitems hes.1.1
      obtain ⟨inside, rfl⟩ := hitems hes.1.2
      obtain ⟨after, rfl⟩ := hitems hes.2
      exact ⟨.bracketed before inside after, rfl⟩
  · rintro ⟨a, rfl⟩
    cases a with
    | whole items => exact .inl (by simp [Alternative.elements])
    | bracketed before inside after =>
      exact .inr ⟨_, _, _, rfl, by simp [or_imp, forall_and]⟩

structure DerivesSequence (ls : List Lexeme) (es : List Element) : Prop where
  nonempty : es ≠ []
  elements : DerivesAll ls es
  brackets : Bracketed es

end Element

/-- The lexemes of a pattern, whose sequences are divided by bars. -/
inductive Pattern.Derives : List Lexeme → List (List Element) → Prop
  | last {ls es} : Element.DerivesSequence ls es → Derives ls [es]
  | more {ls ms w es ess} : Element.DerivesSequence ls es → Derives ms ess →
      Derives (ls ++ ⟨.bars, w⟩ :: ms) (es :: ess)

namespace Pattern
variable {ls : List Lexeme} {es : List Element} {ess : List (List Element)}

/-- A pattern divided at its bars. -/
theorem derives_iff : Derives ls ess ↔
    List.Forall₂ Element.DerivesSequence (ls.splitOnP (·.kind == .bars)) ess := by
  have hbars : ∀ {ls es}, Element.DerivesSequence ls es → ∀ l ∈ ls, (l.kind == .bars) = false := by
    intro ls es h l hl
    simpa using (h.elements.inSequence l hl).not_bars
  constructor
  · intro h
    induction h with
    | last h =>
      rw [List.splitOnP_eq_singleton (hbars h)]
      exact .cons h .nil
    | more h _ ih =>
      rw [List.splitOnP_append_cons_of_forall_mem (hbars h) _ rfl]
      exact .cons h ih
  · intro h
    induction ess generalizing ls with
    | nil => exact absurd (List.forall₂_nil_right_iff.1 h) (List.splitOnP_ne_nil _ _)
    | cons es ess ih =>
      cases hfind : ls.find? (·.kind == .bars) with
      | none =>
        rw [List.splitOnP_eq_singleton (by simpa using hfind)] at h
        obtain ⟨hes, hess⟩ := List.forall₂_cons.1 h
        rw [List.forall₂_nil_left_iff.1 hess]
        exact .last hes
      | some b =>
        obtain ⟨hb, before, rest, rfl, hbefore⟩ := List.find?_eq_some_iff_append.1 hfind
        obtain ⟨kind, text⟩ := b
        obtain rfl : kind = .bars := by simpa using hb
        rw [List.splitOnP_append_cons_of_forall_mem (by simpa using hbefore) _ rfl] at h
        obtain ⟨hes, hess⟩ := List.forall₂_cons.1 h
        exact .more hes (ih hess)

/-- Every sequence of a pattern stands for an alternative. -/
theorem exists_alternatives_of_derives (h : Derives ls ess) :
    ∃ as : List Alternative, as.map (·.elements) = ess := by
  induction h with
  | last h =>
    obtain ⟨a, rfl⟩ := Element.bracketed_iff.1 h.brackets
    exact ⟨[a], rfl⟩
  | more h _ ih =>
    obtain ⟨a, rfl⟩ := Element.bracketed_iff.1 h.brackets
    obtain ⟨as, rfl⟩ := ih
    exact ⟨a :: as, rfl⟩

theorem finished_of_derives (h : Derives ls ess) : ∀ l ∈ ls, l.kind ≠ .unterminated := by
  have hsequence : ∀ {ls es}, Element.DerivesSequence ls es → ∀ l ∈ ls, l.kind ≠ .unterminated :=
    fun h l hl => (h.elements.inSequence l hl).finished
  induction h with
  | last h => exact hsequence h
  | more h _ ih =>
    exact List.forall_mem_append.2 ⟨hsequence h, List.forall_mem_cons.2 ⟨by simp, ih⟩⟩

end Pattern

end SpanRules
