import SpanRules.Proofs.Statement.Acceptance
import SpanRules.Proofs.Statement.Relisted

/-! Reading the source form of a statement: the lexemes that are scanned from it, and the statement
that the grammar derives from them. -/
namespace SpanRules

section
variable {ts rest : Rest} {t : SourceToken} {c d : Char} {n : Text} {l : Lexeme} {ls : List Lexeme}

theorem Lexeme.Names.ne_mark (h : l.Names n) : l ≠ .mark c := by
  rintro rfl
  rcases h.kind with h | h <;> cases h

theorem Lexeme.Names.derives (h : l.Names n) : Name.Derives [l] n := by
  obtain ⟨kind, text⟩ := l
  rcases h.kind with hkind | hkind
  · obtain rfl : kind = .word := hkind
    obtain rfl : text = n := h.word rfl
    exact .word
  · obtain rfl : kind = .quoted := hkind
    obtain rfl : text.unquote = n := h.unquote
    exact .quoted

theorem Name.derives_nameLexeme (n : Text) : Name.Derives [n.nameLexeme] n :=
  n.names_nameLexeme.derives

@[simp] theorem Lexeme.mark_ne_keyword {w : String} : mark c ≠ keyword w := nofun

@[simp] theorem Lexeme.mark_ne_nameLexeme : mark c ≠ n.nameLexeme :=
  n.names_nameLexeme.ne_mark.symm

@[simp] theorem Lexeme.nameLexeme_ne_mark : n.nameLexeme ≠ mark c :=
  n.names_nameLexeme.ne_mark

theorem prints_keyword {w : String} (h : (ascii w).isPlainWord = true)
    (hquiet : (ascii w).Uncommented) : (ascii w).Prints [.keyword w] :=
  (Text.genuine_of_isPlainWord h).prints (by simp) (by simp) hquiet

theorem printsApart_blank : (ascii " ").PrintsApart [] := ⟨by decide, by decide, fun _ => rfl⟩

theorem printsApart_comma : (ascii ", ").PrintsApart [.mark ','] :=
  ⟨by decide, by decide, fun _ => rfl⟩

/-- Lexemes that are scanned from a text are not empty. -/
theorem Text.Prints.ne_nil {t : Text} (h : t.Prints ls) : ∀ l ∈ ls, l.text ≠ [] := by
  intro l hl
  have hspells := h.spells [] Text.delimited_nil
  rw [List.append_nil] at hspells
  have hmem : l ∈ t.solidLexemes := hspells ▸ List.mem_append_left _ hl
  exact (Text.genuine_of_mem_lexemes (List.mem_of_mem_filter hmem)).ne_nil

theorem Text.Prints.append_blank {t : Text} (h : t.Prints ls) :
    (t ++ ascii " ").PrintsApart ls := by
  have hblank := h.append_apart printsApart_blank (delimited_cons rfl) (by decide)
  rwa [List.append_nil] at hblank

theorem Text.Prints.append_equals {t : Text} (h : t.Prints ls) :
    (t ++ ascii " = ").PrintsApart (ls ++ [.mark '=']) := by
  have hequals : (ascii " = ").PrintsApart [.mark '='] := ⟨by decide, by decide, fun _ => rfl⟩
  exact h.append_apart hequals (delimited_cons rfl) (by decide)

namespace Statement
variable {role : NameRole}

theorem expect_of_mark (h : ts.map SourceToken.lexeme = .mark c :: ls) :
    expect c ts = .ok ts.tail := by
  rw [expect, if_pos (nextIs_of_mark h)]

theorem name?_of_names (h : ts.map SourceToken.lexeme = l :: ls) (hl : l.Names n) :
    name? role ts = .ok (n, ts.tail) := by
  obtain ⟨t, rest, rfl, ht, -⟩ := List.map_eq_cons_iff.1 h
  subst ht
  have htext : t.kind = .word → t.text = n := hl.word
  have hunquote : t.text.unquote = n := hl.unquote
  have hkind : t.kind = .word ∨ t.kind = .quoted := hl.kind
  rcases hkind with hkind | hkind
  · rw [name?, if_pos hkind, htext hkind, List.tail_cons]
  · rw [name?, if_neg (by rw [hkind]; decide), if_pos hkind, hunquote, List.tail_cons]

end Statement

end

namespace Statement
variable {lines : LineReader} {s : Segment} {st : Statement} {ls : List Lexeme}

theorem ofSegment?_eq_ok_iff {w : String} (h : s.tokens.map SourceToken.lexeme = .keyword w :: ls) :
    ofSegment? lines s = .ok st ↔ body? lines s.stop (ascii w) s.tokens.tail = .ok st := by
  obtain ⟨t, rest, hts, ht, -⟩ := List.map_eq_cons_iff.1 h
  have hkind : t.kind = .word := congrArg Lexeme.kind ht
  have htext : t.text = ascii w := congrArg Lexeme.text ht
  have hcurrent : s.current s.tokens = t := by rw [Segment.current, hts]; rfl
  rw [ofSegment?, hcurrent, hkind, htext, if_neg (by decide), if_neg (by decide)]
  cases body? lines s.stop (ascii w) s.tokens.tail <;> simp

/-- Whether the source form of a statement prints without comments and is read as the statement
that is listed in its place. -/
def Rereads (lines : LineReader) (st : Statement) : Prop :=
  ∃ ls, st.toText.Prints ls ∧ ls ≠ [] ∧ .mark ';' ∉ ls ∧
    ∀ s : Segment, s.tokens.map SourceToken.lexeme = ls →
      ofSegment? lines s = .ok st.relisted

/-- A statement is read again if the grammar derives it from what its source form is scanned as. -/
theorem rereads_of_derives (hprints : st.toText.Prints ls) (hsemi : .mark ';' ∉ ls)
    (h : Derives lines ls st.relisted) : Rereads lines st := by
  obtain ⟨l, rest, hls, -⟩ := h.head
  have hne : ls ≠ [] := hls ▸ List.cons_ne_nil l rest
  refine ⟨ls, hprints, hne, hsemi, fun s hs => ?_⟩
  have htokens : s.tokens ≠ [] := by
    intro hnil
    rw [hnil] at hs
    exact hne hs.symm
  have hnone : NoneEmpty s.tokens :=
    fun t ht => hprints.ne_nil t.lexeme (hs ▸ List.mem_map_of_mem ht)
  rw [ofSegment?_iff_derives htokens hnone, hs]
  exact h

open Name (derives_nameLexeme)

/-- A statement that consists of a keyword and a name. -/
theorem rereads_of_name {w : String} {f : Text → Statement} {n : Text}
    (hn : n.Nameable) (hword : (ascii w ++ ascii " ").PrintsApart [.keyword w])
    (htext : (f n).toText = ascii w ++ ascii " " ++ n.quoteIfNeeded)
    (hrelisted : (f n).relisted = f n)
    (hderives : ∀ {ls}, Name.Derives ls n → Derives lines (.keyword w :: ls) (f n)) :
    Rereads lines (f n) := by
  have hprints : (f n).toText.Prints [.keyword w, n.nameLexeme] :=
    htext ▸ hword.append hn.prints
  refine rereads_of_derives hprints (by simp) ?_
  rw [hrelisted]
  exact hderives (derives_nameLexeme n)

theorem rereads_require {type file : Text} (htype : type.Nameable) (hfile : file.Nameable) :
    Rereads lines (require type file) := by
  have hword : (ascii "require ").PrintsApart [.keyword "require"] :=
    ⟨by decide, by decide, fun _ => rfl⟩
  by_cases hnil : file = []
  · subst hnil
    have hprints : (require type []).toText.Prints [.keyword "require", type.nameLexeme] := by
      rw [toText, if_pos rfl, List.append_nil]
      exact hword.append htype.prints
    exact rereads_of_derives hprints (by simp) (.require (derives_nameLexeme type))
  · have hprints : (require type file).toText.Prints
        [.keyword "require", type.nameLexeme, .mark ',', file.nameLexeme] := by
      rw [toText, if_neg hnil]
      exact (hword.append htype.prints).append (printsApart_comma.append hfile.prints)
        (Text.delimited_cons rfl)
    refine rereads_of_derives hprints ?_
      (.requireFrom (derives_nameLexeme type) (derives_nameLexeme file))
    simp
    decide

theorem rereads_offLevel : Rereads lines offLevel :=
  rereads_of_derives (prints_keyword (by decide) (by decide)) (by simp) (.offLevel .none)

theorem rereads_importFromLevel {level newType oldType : Text} (hlevel : level.Nameable)
    (hnew : newType.Nameable) (hold : oldType.Nameable) :
    Rereads lines (importFromLevel level newType oldType) := by
  have hword : (ascii "importFromLevel ").PrintsApart [.keyword "importFromLevel"] :=
    ⟨by decide, by decide, fun _ => rfl⟩
  have hprints : (importFromLevel level newType oldType).toText.Prints
      [.keyword "importFromLevel", level.nameLexeme, newType.nameLexeme, .mark '=',
        oldType.nameLexeme] := by
    have hnames := (hword.append hlevel.prints).append_blank.append hnew.prints
    exact hnames.append_equals.append hold.prints
  refine rereads_of_derives hprints ?_ (.importFromLevel (derives_nameLexeme level)
    (derives_nameLexeme newType) (derives_nameLexeme oldType))
  simp
  decide

theorem rereads_defineLevel {level pattern : Text} (hlevel : level.Nameable)
    (hpattern : pattern.Nameable) : Rereads lines (defineLevel level .pseudotoken pattern) := by
  have hword : (ascii "defLevel ").PrintsApart [.keyword "defLevel"] :=
    ⟨by decide, by decide, fun _ => rfl⟩
  have hstrategy : (ascii "pseudotoken").Prints [.keyword "pseudotoken"] :=
    prints_keyword (by decide) (by decide)
  have hnames : Lexeme.Names ⟨.quoted, pattern.quote⟩ pattern :=
    ⟨.inr rfl, by simp, Text.unquote_quote pattern⟩
  have hprints : (defineLevel level .pseudotoken pattern).toText.Prints
      [.keyword "defLevel", level.nameLexeme, .mark '=', .keyword "pseudotoken",
        ⟨.quoted, pattern.quote⟩] := by
    have hleft := (hword.append hlevel.prints).append_equals
    have hright := (hleft.append hstrategy).append_blank
    exact hright.append hpattern.printsApart_quote.prints
  refine rereads_of_derives hprints ?_ (.defineLevel (derives_nameLexeme level) hnames.derives)
  have hquoted : Lexeme.mark ';' ≠ ⟨.quoted, pattern.quote⟩ := by
    simp [Lexeme.mark]
  simp [hquoted]
  decide

end Statement

end SpanRules
