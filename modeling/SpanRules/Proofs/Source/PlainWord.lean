import SpanRules.Proofs.Source.Quoted
import SpanRules.Proofs.Source.Token

/-! Plain words, and names that are printed as one token. Main statement: which names need no
quotes, and which of all names are scanned as one token that stands for them. -/
namespace SpanRules

namespace Lexeme
variable {b : UInt8} {t : Text}

/-- Whether a word byte stands directly after each period of a text. -/
def PeriodsInside (t : Text) : Prop :=
  ∀ i : Nat, t[i]? = some (byte '.') → ∃ b, t[i + 1]? = some b ∧ isWordByte b = true

theorem periodsInside_cons : PeriodsInside (b :: t) ↔
    (b = byte '.' → ∃ c, t.head? = some c ∧ isWordByte c = true) ∧ PeriodsInside t := by
  constructor
  · intro h
    constructor
    · intro hb
      have hfirst := h 0 (by rw [hb]; rfl)
      simpa [List.head?_eq_getElem?] using hfirst
    · intro i hi
      have hnext := h (i + 1) (by simpa using hi)
      simpa using hnext
  · intro hboth i hi
    obtain ⟨hfirst, hrest⟩ := hboth
    cases i with
    | zero =>
      have hb : b = byte '.' := by simpa using hi
      simpa [List.head?_eq_getElem?] using hfirst hb
    | succ i => simpa using hrest i (by simpa using hi)

/-- A text is all of a word if it holds nothing but word bytes, and periods before these. -/
theorem wordPart_eq_self_iff : wordPart t = t ↔
    (∀ b ∈ t, isWordByte b = true ∨ b = byte '.') ∧ PeriodsInside t := by
  induction t with
  | nil => simp [wordPart, PeriodsInside]
  | cons b t ih =>
    have hcond : (isWordByte b || (b == byte '.' && t.head?.any isWordByte)) = true ↔
        (isWordByte b = true ∨ b = byte '.') ∧
          (b = byte '.' → ∃ c, t.head? = some c ∧ isWordByte c = true) := by
      have hperiod : isWordByte (byte '.') = false := by decide
      by_cases hb : b = byte '.'
      · simp [hb, hperiod, Option.any_eq_true]
      · simp [hb]
    rw [periodsInside_cons, List.forall_mem_cons]
    by_cases h : (isWordByte b || (b == byte '.' && t.head?.any isWordByte)) = true
    · obtain ⟨hbyte, hfirst⟩ := hcond.1 h
      rw [wordPart, if_pos h, List.cons_inj_right, ih]
      constructor
      · intro hrest
        obtain ⟨hbytes, hperiods⟩ := hrest
        exact ⟨⟨hbyte, hbytes⟩, hfirst, hperiods⟩
      · intro hword
        obtain ⟨⟨_, hbytes⟩, _, hperiods⟩ := hword
        exact ⟨hbytes, hperiods⟩
    · rw [wordPart, if_neg h]
      refine iff_of_false (List.cons_ne_nil b t).symm ?_
      intro hword
      obtain ⟨⟨hbyte, _⟩, hfirst, _⟩ := hword
      exact h (hcond.2 ⟨hbyte, hfirst⟩)

end Lexeme

namespace Text
variable {n u : Text}

theorem isPlainWord_iff_wordPart : n.isPlainWord = true ↔
    (∃ b ∈ n.head?, isWordByte b = true) ∧ Lexeme.wordPart n = n := by
  constructor
  · intro h
    have hgenuine := genuine_of_isPlainWord h
    generalize hl : (⟨.word, n⟩ : Lexeme) = l at hgenuine
    cases hgenuine with
    | @word b t hb =>
      obtain ⟨-, rfl⟩ := Lexeme.mk.inj hl
      refine ⟨⟨b, ?_, hb⟩, Lexeme.wordPart_wordPart _⟩
      simp [Lexeme.wordPart, hb]
    | _ => cases hl
  · intro hword
    obtain ⟨⟨b, hhead, hb⟩, hself⟩ := hword
    obtain ⟨t, rfl⟩ := List.head?_eq_some_iff.1 hhead
    have hgenuine : Lexeme.Genuine ⟨.word, b :: t⟩ := hself ▸ .word hb
    have hkind : LexemeKind.word ≠ .unterminated := by decide
    have hlexemes : lexemes (b :: t) = [⟨.word, b :: t⟩] := hgenuine.lexemes_text hkind
    rw [isPlainWord, hlexemes]
    rfl

theorem isPlainWord_iff : n.isPlainWord = true ↔
    n ≠ [] ∧ (∀ b ∈ n, isWordByte b = true ∨ b = byte '.') ∧
      (∀ b ∈ n.head?, isWordByte b = true) ∧ Lexeme.PeriodsInside n := by
  rw [isPlainWord_iff_wordPart, Lexeme.wordPart_eq_self_iff]
  cases n with
  | nil => simp
  | cons b t =>
    have hhead : (∃ c ∈ (b :: t).head?, isWordByte c = true) ↔
        ∀ c ∈ (b :: t).head?, isWordByte c = true := by simp
    rw [hhead]
    constructor
    · intro hword
      obtain ⟨hfirst, hbytes, hperiods⟩ := hword
      exact ⟨List.cons_ne_nil b t, hbytes, hfirst, hperiods⟩
    · intro hword
      obtain ⟨_, hbytes, hfirst, hperiods⟩ := hword
      exact ⟨hfirst, hbytes, hperiods⟩

@[simp] theorem text_nameLexeme (n : Text) : n.nameLexeme.text = n.quoteIfNeeded := by
  unfold nameLexeme quoteIfNeeded
  split <;> rfl

theorem Scannable.lexemes_quoteIfNeeded_append (h : n.Scannable) (hu : u.Delimited) :
    (n.quoteIfNeeded ++ u).lexemes = n.nameLexeme :: u.lexemes := by
  unfold quoteIfNeeded nameLexeme
  split
  · rename_i hword
    have hkind : LexemeKind.word ≠ .unterminated := by decide
    exact (genuine_of_isPlainWord hword).lexemes_append hkind hu
  · exact h.lexemes_quote_append u

theorem exists_head?_sourceTokens {l : Lexeme} {ls : List Lexeme} {source : Text}
    (h : source.lexemes = l :: ls) (hblank : l.kind ≠ .blank) :
    ∃ t, source.sourceTokens.head? = some t ∧ t.lexeme = l := by
  rw [sourceTokens, h, SourceToken.place, if_neg hblank]
  exact ⟨_, rfl, rfl⟩

end Text

/-- A token that stands for a name: a word or a quoted text from which the name is read. -/
structure SourceToken.StandsFor (t : SourceToken) (n : Text) : Prop where
  kind : t.kind = .word ∨ t.kind = .quoted
  text : t.text = n.quoteIfNeeded
  unquote : t.text.unquote = n

namespace Text
variable {n source u : Text} {t : SourceToken}

theorem Scannable.exists_standsFor (h : n.Scannable) (hu : u.Delimited) :
    ∃ t, (n.quoteIfNeeded ++ u).sourceTokens.head? = some t ∧ t.StandsFor n := by
  have hname := names_nameLexeme n
  have hblank : n.nameLexeme.kind ≠ .blank := by
    rcases hname.kind with hkind | hkind <;> rw [hkind] <;> decide
  obtain ⟨t, ht, hlexeme⟩ :=
    exists_head?_sourceTokens (h.lexemes_quoteIfNeeded_append hu) hblank
  have hkind : t.kind = n.nameLexeme.kind := congrArg Lexeme.kind hlexeme
  have htext : t.text = n.nameLexeme.text := congrArg Lexeme.text hlexeme
  exact ⟨t, ht, hkind ▸ hname.kind, htext.trans (text_nameLexeme n), htext ▸ hname.unquote⟩

/-- In whatever source a token stands for a name, the name is scannable. -/
theorem scannable_of_standsFor (ht : t ∈ source.sourceTokens) (h : t.StandsFor n) :
    n.Scannable := by
  have hkinds : t.kind ≠ .finish ∧ t.kind ≠ .blank ∧ t.kind ≠ .unterminated ∧
      t.kind ≠ .symbol := by
    rcases h.kind with hkind | hkind <;> rw [hkind] <;> decide
  obtain ⟨hfinish, hblank, hend, hsymbol⟩ := hkinds
  have hgenuine := SourceToken.genuine_of_mem_sourceTokens ht hfinish
  have hscannable : t.text.unquote.Scannable ∨ t.lexeme = ⟨.symbol, [byte '\\']⟩ :=
    hgenuine.scannable hblank hend
  rw [h.unquote] at hscannable
  apply hscannable.resolve_right
  intro hbackslash
  exact hsymbol (congrArg Lexeme.kind hbackslash)

/-- Quoting loses nothing, plain words are words with inner periods, and a name in source form is
scanned as one token that stands for it unless it holds a line feed or ends in a backslash. -/
theorem quoteIfNeeded_scanned_iff (n : Text) :
    n.quote.unquote = n ∧
    (n.isPlainWord = true ↔ n ≠ [] ∧ (∀ b ∈ n, isWordByte b = true ∨ b = byte '.') ∧
      (∀ b ∈ n.head?, isWordByte b = true) ∧ Lexeme.PeriodsInside n) ∧
    ∀ u : Text, (∀ b ∈ u.head?, b ∈ ascii " ,:;") →
      ((∃ t, (n.quoteIfNeeded ++ u).sourceTokens.head? = some t ∧ t.StandsFor n) ↔
        byte '\n' ∉ n ∧ n.getLast? ≠ some (byte '\\')) := by
  refine ⟨unquote_quote n, isPlainWord_iff, fun u hu => ?_⟩
  have hdelimits : (ascii " ,:;").all delimits = true := by decide
  have hdelimited : u.Delimited := fun b hb => List.all_eq_true.1 hdelimits b (hu b hb)
  constructor
  · intro hscanned
    obtain ⟨t, hfirst, ht⟩ := hscanned
    have hscannable := scannable_of_standsFor (List.mem_of_head? hfirst) ht
    exact ⟨hscannable.feed, hscannable.backslash⟩
  · intro hclosed
    obtain ⟨hfeed, hbackslash⟩ := hclosed
    have hscannable : n.Scannable := ⟨hfeed, hbackslash⟩
    exact hscannable.exists_standsFor hdelimited

/-- A name of backslashes, quotes and periods before a comma, and one that ends in a backslash. -/
theorem quoteIfNeeded_scanned_backslashes :
    (∃ t, ((ascii ".\\\\'a.b'").quoteIfNeeded ++ ascii ", x").sourceTokens.head? = some t ∧
      t.StandsFor (ascii ".\\\\'a.b'")) ∧
    ¬ ∃ t, ((ascii "a.b'\\").quoteIfNeeded ++ ascii " 'x").sourceTokens.head? = some t ∧
      t.StandsFor (ascii "a.b'\\") := by
  have hcomma : ∀ b ∈ (ascii ", x").head?, b ∈ ascii " ,:;" := by
    intro b hb
    have hb : byte ',' = b := Option.some.inj hb
    rw [← hb]
    decide
  have hblank : ∀ b ∈ (ascii " 'x").head?, b ∈ ascii " ,:;" := by
    intro b hb
    have hb : byte ' ' = b := Option.some.inj hb
    rw [← hb]
    decide
  constructor
  · exact ((quoteIfNeeded_scanned_iff (ascii ".\\\\'a.b'")).2.2 (ascii ", x") hcomma).2 (by decide)
  · intro h
    have hlast := (((quoteIfNeeded_scanned_iff (ascii "a.b'\\")).2.2 (ascii " 'x") hblank).1 h).2
    exact hlast (by decide)

end Text

end SpanRules
