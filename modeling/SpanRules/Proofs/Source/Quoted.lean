import SpanRules.Proofs.Source.Scan
import SpanRules.Source.Quoted

/-! Names in source form. A name that is printed, quoted or not, is read back as itself unless it
ends with a backslash, which would take the meaning of the closing quote. -/
namespace SpanRules

namespace Text
variable {n t u : Text}

/-- Whether the source form of a name is scanned as one token: a line feed or a backslash at its end
would leave the quotes open. -/
structure Scannable (n : Text) : Prop where
  feed : byte '\n' ∉ n
  backslash : n.getLast? ≠ some (byte '\\')

/-- Whether the source form of a name is read back as the name. -/
structure Nameable (n : Text) : Prop where
  quiet : n.Quiet
  backslash : n.getLast? ≠ some (byte '\\')

theorem Nameable.scannable (h : n.Nameable) : n.Scannable := ⟨h.quiet.feed, h.backslash⟩

theorem unescapeQuotes_escapeQuotes (t : Text) : unescapeQuotes (escapeQuotes t) = t := by
  induction t with
  | nil => rfl
  | cons b t ih =>
    rw [escapeQuotes]
    split
    · rename_i hb
      rw [hb, unescapeQuotes, if_pos ⟨rfl, rfl⟩, unescapeQuotes,
        if_neg fun h => absurd h.1 (by decide), ih]
    · rename_i hb
      rw [unescapeQuotes, if_neg, ih]
      -- what follows a backslash of the text itself is never a bare quote
      rintro ⟨_, hhead⟩
      cases t with
      | nil => cases hhead
      | cons c t =>
        rw [escapeQuotes] at hhead
        split at hhead
        · exact absurd (Option.some.inj hhead) (by decide)
        · rename_i hc
          exact hc (Option.some.inj hhead)

theorem unquote_quote (t : Text) : unquote (quote t) = t := by
  have htail : (quote t).tail.dropLast = escapeQuotes t := by
    rw [quote, List.cons_append, List.tail_cons, List.dropLast_concat]
  have hquoted : isQuoted (quote t) = true := by
    have hlast : (quote t).getLast? = some (byte '\'') := by
      rw [quote, List.getLast?_concat]
    simp [isQuoted, hlast]
    simp [quote]
  rw [unquote, if_pos hquoted, htail, unescapeQuotes_escapeQuotes]

theorem quotedPart_escapeQuotes (hfeed : byte '\n' ∉ t) (hlast : t.getLast? ≠ some (byte '\\'))
    {s : Bool} (hs : t = [] → s = false) :
    Lexeme.quotedPart s (escapeQuotes t ++ byte '\'' :: u) =
      (escapeQuotes t ++ [byte '\''], true) := by
  induction t generalizing s with
  | nil =>
    rw [hs rfl]
    rfl
  | cons b t ih =>
    obtain ⟨hb, hfeed⟩ := not_or.1 fun h => hfeed (List.mem_cons.2 h)
    have hlast' : t.getLast? ≠ some (byte '\\') := by
      cases t with
      | nil => exact nofun
      | cons c t => rwa [List.getLast?_cons_cons] at hlast
    rw [escapeQuotes]
    split
    · rename_i hquote
      rw [List.cons_append, List.cons_append, Lexeme.quotedPart, if_neg (by decide),
        if_neg fun h => absurd h.1 (by decide), Lexeme.quotedPart, if_neg (Ne.symm hb),
        if_neg (by simp), ih hfeed hlast' (by rw [hquote]; exact fun _ => rfl)]
      rfl
    · rename_i hquote
      rw [List.cons_append, Lexeme.quotedPart, if_neg (Ne.symm hb), if_neg (fun h => hquote h.1),
        ih hfeed hlast' ?_]
      · rfl
      · rintro rfl
        simpa using hlast

theorem head?_escapeQuotes (t : Text) :
    (escapeQuotes t).head? = some (byte '/') ↔ t.head? = some (byte '/') := by
  cases t with
  | nil => rfl
  | cons b t =>
    rw [escapeQuotes]
    split
    · rename_i hb
      rw [hb, List.head?_cons, List.head?_cons]
      decide
    · rfl

theorem uncommented_escapeQuotes (h : t.Uncommented) : (escapeQuotes t).Uncommented := by
  induction t with
  | nil => exact .nil
  | cons b t ih =>
    have hrest : ∀ c ∈ (escapeQuotes t).head?, ¬ (b = byte '/' ∧ c = byte '/') := by
      rintro c hc ⟨hb, rfl⟩
      exact h.rel_head? ((head?_escapeQuotes t).1 hc) ⟨hb, rfl⟩
    rw [escapeQuotes]
    split
    · exact Uncommented.cons (by decide) (List.IsChain.cons (ih h.tail) hrest)
    · exact List.IsChain.cons (ih h.tail) hrest

theorem feed_not_mem_escapeQuotes (h : byte '\n' ∉ t) : byte '\n' ∉ escapeQuotes t := by
  induction t with
  | nil => exact List.not_mem_nil
  | cons b t ih =>
    obtain ⟨hb, ht⟩ := not_or.1 fun hmem => h (List.mem_cons.2 hmem)
    rw [escapeQuotes]
    split
    · simp only [List.mem_cons, not_or]
      exact ⟨by decide, hb, ih ht⟩
    · simp only [List.mem_cons, not_or]
      exact ⟨hb, ih ht⟩

theorem quiet_quote (h : n.Quiet) : (quote n).Quiet := by
  have hchain := (uncommented_escapeQuotes h.uncommented).append (uncommented_singleton (byte '\''))
    (.inr (by decide))
  constructor
  · rw [quote, List.mem_append, List.mem_cons]
    rintro ((h' | h') | h')
    · exact absurd h' (by decide)
    · exact feed_not_mem_escapeQuotes h.feed h'
    · exact absurd h' (by decide)
  · exact Uncommented.cons (by decide) hchain

theorem Scannable.lexemes_quote_append (h : n.Scannable) (u : Text) :
    (quote n ++ u).lexemes = ⟨.quoted, quote n⟩ :: u.lexemes := by
  have hpart := quotedPart_escapeQuotes (s := false) (u := u) h.feed h.backslash fun _ => rfl
  have hcons : quote n ++ u = byte '\'' :: (escapeQuotes n ++ byte '\'' :: u) := by simp [quote]
  rw [hcons]
  exact lexemes_of_first (Lexeme.first_quoted hpart) (by simp [quote])

theorem Nameable.printsApart_quote (h : n.Nameable) :
    (quote n).PrintsApart [⟨.quoted, quote n⟩] := by
  refine ⟨quiet_quote h.quiet, ?_, fun u => ?_⟩
  · rw [quote, List.getLast?_concat]
    decide
  · rw [solidLexemes, h.scannable.lexemes_quote_append u]
    rfl

def nameLexeme (n : Text) : Lexeme :=
  if n.isPlainWord then ⟨.word, n⟩ else ⟨.quoted, n.quote⟩

theorem lexemes_of_isPlainWord (h : n.isPlainWord = true) : n.lexemes = [⟨.word, n⟩] := by
  have hkinds : n.lexemes.map (·.kind) = [.word] := by simpa [isPlainWord] using h
  obtain ⟨l, hl, hkind⟩ := List.map_eq_singleton_iff.1 hkinds
  have htext := flatMap_text_lexemes n
  rw [hl, List.flatMap_singleton] at htext
  rw [hl, ← htext, ← hkind]

theorem genuine_of_isPlainWord (h : n.isPlainWord = true) : Lexeme.Genuine ⟨.word, n⟩ :=
  genuine_of_mem_lexemes (t := n) (by rw [lexemes_of_isPlainWord h]; exact List.mem_singleton.2 rfl)

theorem Nameable.prints (h : n.Nameable) : n.quoteIfNeeded.Prints [n.nameLexeme] := by
  unfold quoteIfNeeded nameLexeme
  split
  · rename_i hword
    exact (genuine_of_isPlainWord hword).prints nofun nofun h.quiet.uncommented
  · exact h.printsApart_quote.prints

end Text

structure Lexeme.Names (l : Lexeme) (n : Text) : Prop where
  kind : l.kind = .word ∨ l.kind = .quoted
  word : l.kind = .word → l.text = n
  unquote : l.text.unquote = n

namespace Lexeme

/-- Only quoted texts begin with a quote. -/
theorem Genuine.unquote_eq {l : Lexeme} (h : l.Genuine) (hkind : l.kind ≠ .quoted)
    (hend : l.kind ≠ .unterminated) : l.text.unquote = l.text := by
  have hhead : ∀ {b : UInt8} {t : Text}, b ≠ byte '\'' → Text.unquote (b :: t) = b :: t := by
    intro b t hb
    simp [Text.unquote, Text.isQuoted, hb]
  cases h with
  | quoted => exact absurd rfl hkind
  | unterminated => exact absurd rfl hend
  | blank hb => exact hhead fun h => absurd (h ▸ hb) (by decide)
  | ellipsis | bars => rfl
  | word hb =>
    simp only [wordPart, hb, Bool.true_or, if_true]
    exact hhead (isWordByte_ne hb (by decide))
  | symbol _ hquote => exact hhead hquote

end Lexeme

theorem Text.names_nameLexeme (n : Text) : n.nameLexeme.Names n := by
  unfold nameLexeme
  split
  · rename_i hword
    exact ⟨.inl rfl, fun _ => rfl, (genuine_of_isPlainWord hword).unquote_eq nofun nofun⟩
  · exact ⟨.inr rfl, nofun, unquote_quote n⟩

namespace Text
variable {t : Text}

theorem mem_of_mem_unescapeQuotes {b : UInt8} (h : b ∈ unescapeQuotes t) : b ∈ t := by
  induction t with
  | nil => exact h
  | cons c t ih =>
    rw [unescapeQuotes] at h
    split at h
    · exact List.mem_cons_of_mem _ (ih h)
    · exact List.mem_cons.2 ((List.mem_cons.1 h).imp_right ih)

/-- A backslash is dropped before a quote only, which is then the first byte. -/
theorem unescapeQuotes_cons (b : UInt8) (t : Text) :
    (unescapeQuotes (b :: t)).head? = some b ∨
      (b = byte '\\' ∧ (unescapeQuotes (b :: t)).head? = some (byte '\'')) := by
  rw [unescapeQuotes]
  split
  · rename_i h
    obtain ⟨u, rfl⟩ := List.head?_eq_some_iff.1 h.2
    refine .inr ⟨h.1, ?_⟩
    rw [unescapeQuotes, if_neg fun h => absurd h.1 (by decide)]
    rfl
  · exact .inl rfl

theorem uncommented_unescapeQuotes (h : t.Uncommented) : (unescapeQuotes t).Uncommented := by
  induction t with
  | nil => exact .nil
  | cons b t ih =>
    rw [unescapeQuotes]
    split
    · exact ih h.tail
    · apply List.IsChain.cons (ih h.tail)
      intro c hc hbc
      cases t with
      | nil => cases hc
      | cons d t =>
        rcases unescapeQuotes_cons d t with hd | ⟨_, hd⟩
        · obtain rfl := Option.some.inj (hd.symm.trans hc)
          exact h.rel_head? rfl hbc
        · obtain rfl := Option.some.inj (hd.symm.trans hc)
          exact absurd hbc.2 (by decide)

theorem uncommented_unquote (h : t.Uncommented) : t.unquote.Uncommented := by
  unfold unquote
  split
  · have hinner : t.tail.dropLast <:+: t :=
      (List.dropLast_prefix _).isInfix.trans (List.tail_suffix t).isInfix
    have hchain : Uncommented t.tail.dropLast := List.IsChain.infix h hinner
    exact uncommented_unescapeQuotes hchain
  · exact h

theorem getLast?_unescapeQuotes (h : t.getLast? ≠ some (byte '\\')) :
    (unescapeQuotes t).getLast? ≠ some (byte '\\') := by
  induction t with
  | nil => exact h
  | cons b t ih =>
    rw [unescapeQuotes]
    cases t with
    | nil =>
      rw [if_neg fun h => nomatch h.2]
      exact h
    | cons c t =>
      rw [List.getLast?_cons_cons] at h
      have ih := ih h
      split
      · exact ih
      · have hne : unescapeQuotes (c :: t) ≠ [] := by
          intro hnil
          rcases unescapeQuotes_cons c t with hc | ⟨_, hc⟩ <;> rw [hnil] at hc <;> cases hc
        obtain ⟨d, u, hu⟩ := List.exists_cons_of_ne_nil hne
        rw [hu] at ih ⊢
        rwa [List.getLast?_cons_cons]

end Text

namespace Lexeme
variable {l : Lexeme} {s : Bool} {t part : Text}

/-- The quote that closes a text does not come after a backslash. -/
theorem quotedPart_closed (h : quotedPart s t = (part, true)) :
    ∃ u, part = u ++ [byte '\''] ∧ u.getLast? ≠ some (byte '\\') ∧ (u = [] → s = false) := by
  induction t generalizing s part with
  | nil => simp [quotedPart] at h
  | cons b t ih =>
    simp only [quotedPart] at h
    split at h
    · simp at h
    · split at h
      · rename_i hclose
        cases h
        exact ⟨[], by rw [hclose.1]; rfl, by simp, fun _ => by simpa using hclose.2⟩
      · cases hrest : quotedPart (b == byte '\\') t with
        | mk rest closed =>
          rw [hrest] at h
          cases h
          obtain ⟨u, hu, hlast, hnil⟩ := ih hrest
          refine ⟨b :: u, by rw [hu]; rfl, ?_, fun h => absurd h (List.cons_ne_nil _ _)⟩
          cases u with
          | nil =>
            have hb : b ≠ byte '\\' := by simpa using hnil rfl
            simpa using hb
          | cons => rwa [List.getLast?_cons_cons]

/-- What a lexeme of a source stands for is scannable, but for a single backslash. -/
theorem Genuine.scannable (hl : l.Genuine) (hblank : l.kind ≠ .blank)
    (hend : l.kind ≠ .unterminated) :
    l.text.unquote.Scannable ∨ l = ⟨.symbol, [byte '\\']⟩ := by
  have hfeed := hl.feed_not_mem hblank
  by_cases hquoted : l.kind = .quoted
  · cases hl with
    | @quoted t part h =>
      obtain ⟨u, rfl, hlast, _⟩ := quotedPart_closed h
      have hunquote : Text.unquote (byte '\'' :: (u ++ [byte '\''])) = Text.unescapeQuotes u := by
        rw [Text.unquote, if_pos, List.tail_cons, List.dropLast_concat]
        have hclose : (byte '\'' :: (u ++ [byte '\''])).getLast? = some (byte '\'') := by
          rw [← List.cons_append, List.getLast?_concat]
        simp [Text.isQuoted, hclose]
      simp only [List.mem_cons, List.mem_append, not_or] at hfeed
      rw [hunquote]
      have hpart : byte '\n' ∉ u.unescapeQuotes :=
        fun hmem => hfeed.2.1 (Text.mem_of_mem_unescapeQuotes hmem)
      exact .inl ⟨hpart, Text.getLast?_unescapeQuotes hlast⟩
    | _ => cases hquoted
  · rw [hl.unquote_eq hquoted hend]
    by_cases hback : l = ⟨.symbol, [byte '\\']⟩
    · exact .inr hback
    · refine .inl ⟨hfeed, fun hlast => ?_⟩
      cases hl with
      | blank => exact hblank rfl
      | quoted => exact hquoted rfl
      | unterminated => exact hend rfl
      | ellipsis | bars => exact absurd hlast (by decide)
      | word => exact (of_mem_wordPart (List.mem_of_getLast? hlast)).elim (by decide) (by decide)
      | symbol =>
        simp only [List.getLast?_singleton, Option.some.injEq] at hlast
        exact hback (by rw [hlast])

/-- What a lexeme of a source stands for has a source form, but for a single backslash. -/
theorem Genuine.nameable (hl : l.Genuine) (hblank : l.kind ≠ .blank)
    (hend : l.kind ≠ .unterminated) (hquiet : l.text.Uncommented) :
    l.text.unquote.Nameable ∨ l = ⟨.symbol, [byte '\\']⟩ := by
  apply (hl.scannable hblank hend).imp_left
  intro h
  exact ⟨⟨h.feed, Text.uncommented_unquote hquiet⟩, h.backslash⟩

end Lexeme

end SpanRules
