import SpanRules.Proofs.Source.Scan

/-! Texts joined from lexemes without the blanks between them. They are divided anew when they are
scanned, but quoted texts stay together and other bytes stay outside of quotes. -/
namespace SpanRules

/-- Whether a lexeme is no blank, is finished, and is no symbol but one that passes a test. -/
structure Lexeme.Solid (ok : UInt8 → Bool) (l : Lexeme) : Prop where
  blank : l.kind ≠ .blank
  finished : l.kind ≠ .unterminated
  symbol : ∀ b, l = ⟨.symbol, [b]⟩ → ok b = true

theorem Lexeme.Solid.of_kind {ok : UInt8 → Bool} {l : Lexeme} (hblank : l.kind ≠ .blank)
    (hend : l.kind ≠ .unterminated) (hsymbol : l.kind ≠ .symbol) : l.Solid ok :=
  ⟨hblank, hend, fun b hb => absurd (by rw [hb]) hsymbol⟩

namespace Text

/-- Quoted texts and, between them, bytes that are neither blanks nor quotes and pass a test. -/
inductive Joined (ok : UInt8 → Bool) : Text → Prop
  | nil : Joined ok []
  | byte {b : UInt8} {t : Text} : isBlank b = false → b ≠ byte '\'' → ok b = true →
      Joined ok t → Joined ok (b :: t)
  | quoted {t part u : Text} : Lexeme.quotedPart false t = (part, true) → Joined ok u →
      Joined ok (SpanRules.byte '\'' :: (part ++ u))

variable {ok : UInt8 → Bool} {t u : Text}

theorem Joined.append_left (ht : ∀ b ∈ t, isBlank b = false ∧ b ≠ SpanRules.byte '\'' ∧ ok b = true)
    (hu : Joined ok u) : Joined ok (t ++ u) := by
  induction t with
  | nil => exact hu
  | cons b t ih =>
    obtain ⟨hblank, hquote, hok⟩ := ht b List.mem_cons_self
    exact .byte hblank hquote hok (ih fun c hc => ht c (List.mem_cons_of_mem _ hc))

theorem Joined.of_append (h : Joined ok (t ++ u)) (ht : SpanRules.byte '\'' ∉ t) :
    Joined ok u := by
  induction t with
  | nil => exact h
  | cons b t ih =>
    obtain ⟨hb, ht⟩ := not_or.1 fun hmem => ht (List.mem_cons.2 hmem)
    rw [List.cons_append] at h
    generalize htail : t ++ u = v at h
    cases h with
    | byte _ _ _ h => exact ih (htail ▸ h) ht
    | quoted => exact absurd rfl hb

/-- The lexemes of a joined text, and how they are scanned before a delimiter. -/
theorem Joined.solid (h : Joined ok t) : ∀ l ∈ t.lexemes, l.Solid ok := by
  induction t using lexeme_induction with
  | nil => simp
  | cons b t rest hrest ih =>
    rw [lexemes_of_first rfl hrest]
    suffices hfirst : (Lexeme.first b t).Solid ok ∧ Joined ok rest from
      List.forall_mem_cons.2 ⟨hfirst.1, ih hfirst.2⟩
    cases h with
    | @quoted _ part u hpart hu =>
      have heq := Lexeme.first_quoted (Lexeme.quotedPart_append (u := u) hpart)
      rw [heq, List.cons_append, List.cons_inj_right, List.append_cancel_left_eq] at hrest
      rw [heq, ← hrest]
      exact ⟨.of_kind (by simp) (by simp) (by simp), hu⟩
    | byte hblank hquote hok h =>
      have hj : Joined ok (b :: t) := .byte hblank hquote hok h
      rw [hrest] at hj
      have hsolid : (Lexeme.first b t).Solid ok ∧
          SpanRules.byte '\'' ∉ (Lexeme.first b t).text := by
        rw [Lexeme.first, if_neg (by simp [hblank]), if_neg hquote]
        split
        · exact ⟨.of_kind (by simp) (by simp) (by simp), by decide⟩
        · split
          · exact ⟨.of_kind (by simp) (by simp) (by simp), by decide⟩
          · split
            · exact ⟨.of_kind (by simp) (by simp) (by simp),
                fun hmem => (Lexeme.of_mem_wordPart hmem).elim (by decide) (by decide)⟩
            · refine ⟨⟨by simp, by simp, fun c hc => ?_⟩, fun hmem => ?_⟩
              · cases hc
                exact hok
              · exact hquote (List.mem_singleton.1 hmem).symm
      exact ⟨hsolid.1, hj.of_append hsolid.2⟩

theorem Joined.prints (h : Joined ok t) (ht : t.Uncommented) : t.Prints t.lexemes := by
  have hsolid := h.solid
  have hfilter : t.solidLexemes = t.lexemes :=
    List.filter_eq_self.2 fun l hl => by simpa using (hsolid l hl).blank
  have hfeed : SpanRules.byte '\n' ∉ t := by
    intro hfeed
    rw [← flatMap_text_lexemes t] at hfeed
    obtain ⟨l, hl, hmem⟩ := List.mem_flatMap.1 hfeed
    exact (genuine_of_mem_lexemes hl).feed_not_mem (hsolid l hl).blank hmem
  constructor
  · exact ⟨hfeed, ht⟩
  · intro u hu
    have happend := lexemes_append (fun l hl => (hsolid l hl).finished) hu
    rw [solidLexemes, happend, List.filter_append]
    exact congrArg (· ++ _) hfilter

/-- The texts of lexemes, put together without blanks. -/
theorem joined_flatMap (hok : ∀ b, delimits b = false → ok b = true) {ls : List Lexeme}
    (hls : ∀ l ∈ ls, l.Genuine) (hsolid : ∀ l ∈ ls, l.Solid ok) :
    Joined ok (ls.flatMap (·.text)) := by
  induction ls with
  | nil => exact .nil
  | cons l ls ih =>
    have ih := ih (fun m hm => hls m (List.mem_cons_of_mem _ hm))
      fun m hm => hsolid m (List.mem_cons_of_mem _ hm)
    have hl := hsolid l List.mem_cons_self
    rw [List.flatMap_cons]
    cases hls l List.mem_cons_self with
    | blank => exact absurd rfl hl.blank
    | unterminated => exact absurd rfl hl.finished
    | quoted h => exact .quoted h ih
    | ellipsis | bars =>
      apply Joined.append_left _ ih
      intro b hb
      have hmark := (List.all_eq_true
        (p := fun b => !isBlank b && b != SpanRules.byte '\'' && !delimits b)).1 (by decide) b hb
      simp only [Bool.and_eq_true, Bool.not_eq_true', bne_iff_ne] at hmark
      exact ⟨hmark.1.1, hmark.1.2, hok b hmark.2⟩
    | word =>
      apply Joined.append_left _ ih
      intro b hb
      rcases Lexeme.of_mem_wordPart hb with hb | rfl
      · have hquote : b ≠ SpanRules.byte '\'' := Lexeme.isWordByte_ne hb (by decide)
        have hdelimits : delimits b = false := by simp [delimits, hb]
        exact ⟨Lexeme.not_isBlank_of_isWordByte hb, hquote, hok b hdelimits⟩
      · exact ⟨by decide, by decide, hok _ (by decide)⟩
    | symbol hblank hquote => exact .byte hblank hquote (hl.symbol _ rfl) ih

end Text

end SpanRules
