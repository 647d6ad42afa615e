import SpanRules.Source.Lexeme

/-! Scanning piece by piece: a lexeme is scanned as itself wherever something follows that cannot
belong to it, and a text made of such lexemes gives them back. -/
namespace SpanRules

/-- Whether a byte goes on with no lexeme and makes no comment with a byte before it. -/
def delimits (b : UInt8) : Bool :=
  !isWordByte b && b != byte '.' && b != byte '|' && b != byte '/'

/-- Whether a text begins with such a byte, or is empty. -/
def Text.Delimited (t : Text) : Prop := ∀ b ∈ t.head?, delimits b = true

theorem Text.delimited_nil : Delimited [] := fun _ h => nomatch h

namespace Lexeme
variable {l : Lexeme} {b c : UInt8} {t u part : Text}

/-- The lexemes that scanning can give. -/
inductive Genuine : Lexeme → Prop
  | blank {b : UInt8} : isBlank b = true → Genuine ⟨.blank, [b]⟩
  | quoted {t part : Text} : quotedPart false t = (part, true) →
      Genuine ⟨.quoted, byte '\'' :: part⟩
  | unterminated {t part : Text} : quotedPart false t = (part, false) →
      Genuine ⟨.unterminated, byte '\'' :: part⟩
  | ellipsis : Genuine ⟨.ellipsis, ascii "..."⟩
  | bars : Genuine ⟨.bars, ascii "||"⟩
  | word {b : UInt8} {t : Text} : isWordByte b = true → Genuine ⟨.word, wordPart (b :: t)⟩
  | symbol {b : UInt8} : isBlank b = false → b ≠ byte '\'' → isWordByte b = false →
      Genuine ⟨.symbol, [b]⟩

theorem isWordByte_ne (h : isWordByte b = true) {c : UInt8} (hc : isWordByte c = false) :
    b ≠ c := by
  rintro rfl
  rw [h] at hc
  cases hc

theorem not_isBlank_of_isWordByte (h : isWordByte b = true) : isBlank b = false := by
  grind [isWordByte, isDigit, isBlank]

theorem quotedPart_prefix (s : Bool) (t : Text) : (quotedPart s t).1 <+: t := by
  induction t generalizing s with
  | nil => exact List.prefix_rfl
  | cons b t ih =>
    simp only [quotedPart]
    split
    · exact List.nil_prefix
    · split
      · exact List.cons_prefix_cons.2 ⟨rfl, List.nil_prefix⟩
      · exact List.cons_prefix_cons.2 ⟨rfl, ih _⟩

theorem wordPart_prefix (t : Text) : wordPart t <+: t := by
  induction t with
  | nil => exact List.prefix_rfl
  | cons b t ih =>
    simp only [wordPart]
    split
    · exact List.cons_prefix_cons.2 ⟨rfl, ih⟩
    · exact List.nil_prefix

theorem first_blank (h : isBlank b = true) : first b t = ⟨.blank, [b]⟩ := by
  rw [first, if_pos h]

theorem first_quoted (h : quotedPart false t = (part, true)) :
    first (byte '\'') t = ⟨.quoted, byte '\'' :: part⟩ := by
  rw [first, if_neg (by decide), if_pos rfl, h]

theorem first_word (h : isWordByte b = true) : first b t = ⟨.word, wordPart (b :: t)⟩ := by
  have hdot : ¬ (ascii "...").isPrefixOf (b :: t) = true := by
    rw [List.isPrefixOf_iff_prefix, show ascii "..." = byte '.' :: ascii ".." from rfl,
      List.cons_prefix_cons]
    exact fun hp => isWordByte_ne h (by decide) hp.1.symm
  have hbar : ¬ (ascii "||").isPrefixOf (b :: t) = true := by
    rw [List.isPrefixOf_iff_prefix, show ascii "||" = byte '|' :: ascii "|" from rfl,
      List.cons_prefix_cons]
    exact fun hp => isWordByte_ne h (by decide) hp.1.symm
  rw [first, if_neg (by rw [not_isBlank_of_isWordByte h]; decide),
    if_neg (isWordByte_ne h (by decide)), if_neg hdot, if_neg hbar, if_pos h]

/-- Only a period and a bar may be the beginning of a longer mark. -/
theorem first_symbol (hblank : isBlank b = false) (hquote : b ≠ byte '\'')
    (hword : isWordByte b = false) (h : (b ≠ byte '.' ∧ b ≠ byte '|') ∨ t.Delimited) :
    first b t = ⟨.symbol, [b]⟩ := by
  have hmark : ∀ c u, delimits c = false → c :: u <+: t → b = c → ¬ (b ≠ c ∨ t.Delimited) := by
    rintro c u hc ⟨rest, rfl⟩ rfl
    simp [Text.Delimited, hc]
  have hdot : ¬ (ascii "...").isPrefixOf (b :: t) = true := by
    rw [List.isPrefixOf_iff_prefix, show ascii "..." = byte '.' :: byte '.' :: [byte '.'] from rfl,
      List.cons_prefix_cons]
    exact fun hp => hmark _ _ (by decide) hp.2 hp.1.symm (h.imp_left And.left)
  have hbar : ¬ (ascii "||").isPrefixOf (b :: t) = true := by
    rw [List.isPrefixOf_iff_prefix, show ascii "||" = byte '|' :: byte '|' :: [] from rfl,
      List.cons_prefix_cons]
    exact fun hp => hmark _ _ (by decide) hp.2 hp.1.symm (h.imp_left And.right)
  rw [first, if_neg (by rw [hblank]; decide), if_neg hquote, if_neg hdot, if_neg hbar,
    if_neg (by rw [hword]; decide)]

theorem genuine_first (b : UInt8) (t : Text) : (first b t).Genuine := by
  unfold first
  split
  · exact .blank ‹_›
  · rename_i hblank
    split
    · rename_i hquote
      subst hquote
      split
      · exact .quoted ‹_›
      · exact .unterminated ‹_›
    · rename_i hquote
      split
      · exact .ellipsis
      · split
        · exact .bars
        · split
          · exact .word ‹_›
          · rename_i hword
            exact .symbol (by simpa using hblank) hquote (by simpa using hword)

theorem first_prefix (b : UInt8) (t : Text) : (first b t).text <+: b :: t := by
  have hone : [b] <+: b :: t := List.cons_prefix_cons.2 ⟨rfl, List.nil_prefix⟩
  unfold first
  split
  · exact hone
  · split
    · have hq := quotedPart_prefix false t
      split <;> rename_i heq <;> rw [heq] at hq <;> exact List.cons_prefix_cons.2 ⟨rfl, hq⟩
    · split
      · rename_i h
        exact List.isPrefixOf_iff_prefix.1 h
      · split
        · rename_i h
          exact List.isPrefixOf_iff_prefix.1 h
        · split
          · exact wordPart_prefix _
          · exact hone

theorem Genuine.ne_nil (h : l.Genuine) : l.text ≠ [] := by
  cases h with
  | ellipsis | bars => decide
  | word h => simp [wordPart, h]
  | _ => simp

theorem first_ne_nil (b : UInt8) (t : Text) : (first b t).text ≠ [] := (genuine_first b t).ne_nil

theorem listAfter_eq (skip : Nat) (t : Text) : listAfter skip t = Text.lexemes (t.drop skip) := by
  induction t generalizing skip with
  | nil => cases skip <;> rfl
  | cons b t ih =>
    cases skip with
    | zero => rfl
    | succ skip => rw [listAfter, ih, List.drop_succ_cons]

end Lexeme

namespace Text
open Lexeme

@[simp] theorem lexemes_nil : lexemes [] = [] := rfl

/-- A text that begins with its first lexeme goes on with the others. -/
theorem lexemes_of_first {l : Lexeme} {b : UInt8} {t rest : Text} (h : first b t = l)
    (ht : b :: t = l.text ++ rest) : lexemes (b :: t) = l :: lexemes rest := by
  have hne : l.text ≠ [] := h ▸ first_ne_nil b t
  rw [lexemes, listAfter, h, listAfter_eq]
  congr 2
  have hdrop : (b :: t).drop l.text.length = rest := by rw [ht, List.drop_left]
  obtain ⟨n, hn⟩ := Nat.exists_eq_succ_of_ne_zero (Nat.ne_of_gt (List.length_pos_iff.2 hne))
  rw [hn] at hdrop ⊢
  exact hdrop

theorem lexemes_cons (b : UInt8) (t : Text) :
    ∃ rest, b :: t = (first b t).text ++ rest ∧
      lexemes (b :: t) = first b t :: lexemes rest := by
  obtain ⟨rest, hrest⟩ := first_prefix b t
  exact ⟨rest, hrest.symm, lexemes_of_first rfl hrest.symm⟩

/-- Induction on a text lexeme by lexeme. -/
theorem lexeme_induction {P : Text → Prop} (nil : P [])
    (cons : ∀ b t rest, b :: t = (first b t).text ++ rest → P rest → P (b :: t)) (t : Text) :
    P t := by
  generalize hn : t.length = n
  induction n using Nat.strongRecOn generalizing t with
  | ind n ih =>
    cases t with
    | nil => exact nil
    | cons b t =>
      obtain ⟨rest, hrest⟩ := first_prefix b t
      refine cons b t rest hrest.symm (ih rest.length ?_ rest rfl)
      have hlen := congrArg List.length hrest
      have hpos := List.length_pos_iff.2 (first_ne_nil b t)
      rw [List.length_append] at hlen
      omega

/-- Lexemes lose no byte. -/
theorem flatMap_text_lexemes (t : Text) : t.lexemes.flatMap (·.text) = t := by
  induction t using lexeme_induction with
  | nil => rfl
  | cons b t rest hrest ih =>
    rw [lexemes_of_first rfl hrest, List.flatMap_cons, ih, ← hrest]

theorem genuine_of_mem_lexemes {l : Lexeme} {t : Text} (h : l ∈ t.lexemes) : l.Genuine := by
  induction t using lexeme_induction with
  | nil => simp at h
  | cons b t rest hrest ih =>
    rw [lexemes_of_first rfl hrest] at h
    rcases List.mem_cons.1 h with rfl | h
    · exact genuine_first b t
    · exact ih h

theorem infix_of_mem_lexemes {l : Lexeme} {t : Text} (h : l ∈ t.lexemes) : l.text <:+: t := by
  induction t using lexeme_induction with
  | nil => simp at h
  | cons b t rest hrest ih =>
    rw [lexemes_of_first rfl hrest] at h
    rw [hrest]
    rcases List.mem_cons.1 h with rfl | h
    · exact (List.prefix_append _ _).isInfix
    · exact (ih h).trans (List.suffix_append _ _).isInfix

end Text

namespace Lexeme
variable {l : Lexeme} {b : UInt8} {s : Bool} {t u part : Text}

theorem quotedPart_append (h : quotedPart s t = (part, true)) :
    quotedPart s (part ++ u) = (part, true) := by
  induction t generalizing s part with
  | nil => simp [quotedPart] at h
  | cons b t ih =>
    simp only [quotedPart] at h
    split at h
    · simp at h
    · rename_i hfeed
      split at h
      · rename_i hclose
        cases h
        rw [List.singleton_append, quotedPart, if_neg hfeed, if_pos hclose]
      · rename_i hclose
        cases hrest : quotedPart (b == byte '\\') t with
        | mk rest closed =>
          rw [hrest] at h
          cases h
          rw [List.cons_append, quotedPart, if_neg hfeed, if_neg hclose, ih hrest]

theorem wordPart_of_delimited (h : u.Delimited) : wordPart u = [] := by
  cases u with
  | nil => rfl
  | cons b u =>
    have hb := h b rfl
    simp only [delimits, Bool.and_eq_true, bne_iff_ne, Bool.not_eq_true'] at hb
    simp [wordPart, hb]

theorem wordPart_append (hu : u.Delimited) : wordPart (t ++ u) = wordPart t := by
  induction t with
  | nil => exact wordPart_of_delimited hu
  | cons b t ih =>
    have hhead : (t ++ u).head?.any isWordByte = t.head?.any isWordByte := by
      cases t with
      | cons => rfl
      | nil =>
        cases u with
        | nil => rfl
        | cons c u =>
          have hc := hu c rfl
          simp only [delimits, Bool.and_eq_true, Bool.not_eq_true'] at hc
          simp [hc]
    rw [List.cons_append, wordPart, wordPart, hhead, ih]

theorem wordPart_wordPart (t : Text) : wordPart (wordPart t) = wordPart t := by
  induction t with
  | nil => rfl
  | cons b t ih =>
    rw [wordPart]
    split
    · rename_i hb
      rw [wordPart, if_pos, ih]
      -- the byte after a period is a word byte, so it belongs to the word as well
      rcases Bool.or_eq_true_iff.1 hb with hb | hb
      · simp [hb]
      · cases t with
        | nil => simp at hb
        | cons c t =>
          simp only [List.head?_cons, Option.any_some, Bool.and_eq_true] at hb
          simp [hb, wordPart]
    · rfl

theorem mark_prefix_append {m : Text} (hm : m.any delimits = false) (hu : u.Delimited) :
    m <+: t ++ u ↔ m <+: t := by
  constructor
  · intro h
    rcases List.prefix_or_prefix_of_prefix h (List.prefix_append t u) with h' | ⟨v, rfl⟩
    · exact h'
    · rw [List.prefix_append_right_inj] at h
      cases v with
      | nil => simp
      | cons c v =>
        obtain ⟨rest, rfl⟩ := h
        exact absurd (hu c rfl) (List.any_eq_false.1 hm c (by simp))
  · intro h
    exact h.trans (List.prefix_append t u)

theorem first_append_of_quotedPart (hu : u.Delimited)
    (hquoted : b = byte '\'' → quotedPart false (t ++ u) = quotedPart false t) :
    first b (t ++ u) = first b t := by
  have hmark : ∀ m : Text, m.any delimits = false →
      m.isPrefixOf (b :: (t ++ u)) = m.isPrefixOf (b :: t) := by
    intro m hm
    rw [Bool.eq_iff_iff, List.isPrefixOf_iff_prefix, List.isPrefixOf_iff_prefix, ← List.cons_append,
      mark_prefix_append hm hu]
  have hword := wordPart_append (t := b :: t) hu
  rw [List.cons_append] at hword
  unfold first
  rw [hmark _ (by decide), hmark _ (by decide), hword]
  split
  · rfl
  · split
    · rename_i hquote
      rw [hquoted hquote]
    · rfl

/-- What begins with a delimiter does not change the lexeme before it. -/
theorem first_append (hu : u.Delimited) (h : (first b t).kind ≠ .unterminated) :
    first b (t ++ u) = first b t := by
  apply first_append_of_quotedPart hu
  rintro rfl
  cases hpart : quotedPart false t with
  | mk part closed =>
    cases closed with
    | true =>
      obtain ⟨rest, hrest⟩ := quotedPart_prefix false t
      rw [hpart] at hrest
      rw [← hrest, List.append_assoc, quotedPart_append hpart]
    | false =>
      rw [first, if_neg (by decide), if_pos rfl, hpart] at h
      exact absurd rfl h

theorem quotedPart_append_feed (s : Bool) (t u : Text) :
    quotedPart s (t ++ byte '\n' :: u) = quotedPart s t := by
  induction t generalizing s with
  | nil => simp [quotedPart]
  | cons b t ih => simp only [List.cons_append, quotedPart, ih]

/-- No lexeme but a blank goes beyond the end of its line, not even a text that is not terminated. -/
theorem first_append_feed (b : UInt8) (t u : Text) :
    first b (t ++ byte '\n' :: u) = first b t := by
  apply first_append_of_quotedPart
  · rintro _ ⟨⟩
    decide
  · intro _
    exact quotedPart_append_feed false t u

end Lexeme

theorem Text.lexemes_append {t u : Text} (ht : ∀ l ∈ t.lexemes, l.kind ≠ .unterminated)
    (hu : u.Delimited) : (t ++ u).lexemes = t.lexemes ++ u.lexemes := by
  induction t using lexeme_induction with
  | nil => rfl
  | cons b t rest hrest ih =>
    rw [lexemes_of_first rfl hrest] at ht ⊢
    have happ : b :: (t ++ u) = (Lexeme.first b t).text ++ (rest ++ u) := by
      rw [← List.cons_append, hrest, List.append_assoc]
    rw [List.cons_append, lexemes_of_first (Lexeme.first_append hu (ht _ List.mem_cons_self)) happ,
      ih fun l hl => ht l (List.mem_cons_of_mem _ hl), List.cons_append]

theorem Text.lexemes_append_feed (t u : Text) :
    (t ++ byte '\n' :: u).lexemes = t.lexemes ++ ⟨.blank, [byte '\n']⟩ :: u.lexemes := by
  induction t using lexeme_induction with
  | nil => exact lexemes_of_first (Lexeme.first_blank (by decide)) rfl
  | cons b t rest hrest ih =>
    have happ : b :: (t ++ byte '\n' :: u) =
        (Lexeme.first b t).text ++ (rest ++ byte '\n' :: u) := by
      rw [← List.cons_append, hrest, List.append_assoc]
    rw [List.cons_append, lexemes_of_first (Lexeme.first_append_feed b t u) happ, ih,
      lexemes_of_first rfl hrest, List.cons_append]

namespace Lexeme
variable {l : Lexeme} {b : UInt8} {s : Bool} {t u part : Text}

theorem Genuine.lexemes_text (hl : l.Genuine) (hkind : l.kind ≠ .unterminated) :
    Text.lexemes l.text = [l] := by
  cases hl with
  | blank h => exact Text.lexemes_of_first (first_blank h) rfl
  | @quoted t part h =>
    have hpart := quotedPart_append (u := []) h
    rw [List.append_nil] at hpart
    exact Text.lexemes_of_first (first_quoted hpart) (List.append_nil _).symm
  | unterminated h => exact absurd rfl hkind
  | ellipsis | bars => rfl
  | @word b t h =>
    have hself := wordPart_wordPart (b :: t)
    obtain ⟨rest, hrest⟩ : ∃ rest, wordPart (b :: t) = b :: rest :=
      ⟨wordPart t, by simp [wordPart, h]⟩
    simp only [hrest] at hself ⊢
    exact Text.lexemes_of_first ((first_word h).trans (by rw [hself])) (List.append_nil _).symm
  | symbol hblank hquote hword =>
    exact Text.lexemes_of_first (first_symbol hblank hquote hword (.inr Text.delimited_nil)) rfl

/-- A lexeme is scanned as itself before anything that it does not go on with. -/
theorem Genuine.lexemes_append (hl : l.Genuine) (hkind : l.kind ≠ .unterminated)
    (hu : u.Delimited) : Text.lexemes (l.text ++ u) = l :: u.lexemes := by
  have hself := hl.lexemes_text hkind
  rw [Text.lexemes_append (by rw [hself]; simpa using hkind) hu, hself, List.singleton_append]

theorem feed_not_mem_quotedPart (s : Bool) (t : Text) : byte '\n' ∉ (quotedPart s t).1 := by
  induction t generalizing s with
  | nil => exact List.not_mem_nil
  | cons b t ih =>
    simp only [quotedPart]
    split
    · exact List.not_mem_nil
    · rename_i hfeed
      split
      · exact fun h => hfeed (List.mem_singleton.1 h).symm
      · exact fun h => (List.mem_cons.1 h).elim (fun h => hfeed h.symm) (ih _)

theorem of_mem_wordPart (h : b ∈ wordPart t) : isWordByte b = true ∨ b = byte '.' := by
  induction t with
  | nil => simp [wordPart] at h
  | cons c t ih =>
    rw [wordPart] at h
    split at h
    · rename_i hc
      rcases List.mem_cons.1 h with rfl | h
      · rcases Bool.or_eq_true_iff.1 hc with hc | hc
        · exact .inl hc
        · exact .inr (by simpa using (Bool.and_eq_true_iff.1 hc).1)
      · exact ih h
    · simp at h

/-- Only blanks hold line feeds. -/
theorem Genuine.feed_not_mem (hl : l.Genuine) (hkind : l.kind ≠ .blank) :
    byte '\n' ∉ l.text := by
  have hquote : ∀ {t part b}, quotedPart false t = (part, b) →
      byte '\n' ∉ byte '\'' :: part := by
    rintro t part b h hmem
    have hpart := feed_not_mem_quotedPart false t
    rw [h] at hpart
    exact (List.mem_cons.1 hmem).elim (by decide) hpart
  cases hl with
  | blank => exact absurd rfl hkind
  | quoted h => exact hquote h
  | unterminated h => exact hquote h
  | ellipsis | bars => decide
  | word => exact fun h => (of_mem_wordPart h).elim (by decide) (by decide)
  | symbol hblank =>
    rintro h
    rw [← List.mem_singleton.1 h] at hblank
    exact absurd hblank (by decide)

end Lexeme

end SpanRules
