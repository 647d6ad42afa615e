import SpanRules.Proofs.Source.Lexeme
import SpanRules.Proofs.Text.Comment

/-! Printed pieces of a program, with the lexemes that are scanned from them when they are put
together. -/
namespace SpanRules

namespace Text

/-- The lexemes of a text, but for the blanks. -/
def solidLexemes (t : Text) : List Lexeme := t.lexemes.filter (·.kind != .blank)

/-- No line feed and no comment. -/
structure Quiet (t : Text) : Prop where
  feed : byte '\n' ∉ t
  uncommented : t.Uncommented

/-- A piece from which the given lexemes are scanned, whatever begins after it with a delimiter. -/
structure Prints (t : Text) (ls : List Lexeme) : Prop where
  quiet : t.Quiet
  spells : ∀ u, u.Delimited → (t ++ u).solidLexemes = ls ++ u.solidLexemes

/-- A piece from which the given lexemes are scanned, whatever follows. -/
structure PrintsApart (t : Text) (ls : List Lexeme) : Prop where
  quiet : t.Quiet
  last : t.getLast? ≠ some (byte '/')
  spells : ∀ u, (t ++ u).solidLexemes = ls ++ u.solidLexemes

variable {t u : Text} {ls ms : List Lexeme}

instance : Decidable t.Uncommented := inferInstanceAs (Decidable (t.IsChain _))

instance : Decidable t.Quiet :=
  decidable_of_iff (byte '\n' ∉ t ∧ t.Uncommented) ⟨fun h => ⟨h.1, h.2⟩, fun h => ⟨h.1, h.2⟩⟩

theorem delimited_cons {b : UInt8} (h : delimits b = true) : Delimited (b :: t) := by
  rintro _ ⟨⟩
  exact h

theorem Delimited.append (h : t.Delimited) (hne : t ≠ []) : (t ++ u).Delimited := by
  cases t with
  | nil => exact absurd rfl hne
  | cons b t => exact h

theorem Delimited.slash (h : t.Delimited) : t.head? ≠ some (byte '/') :=
  fun ht => absurd (h _ ht) (by decide)

theorem Quiet.append (ht : t.Quiet) (hu : u.Quiet)
    (h : t.getLast? ≠ some (byte '/') ∨ u.head? ≠ some (byte '/')) : (t ++ u).Quiet :=
  ⟨fun hmem => (List.mem_append.1 hmem).elim ht.feed hu.feed,
    ht.uncommented.append hu.uncommented h⟩

theorem prints_nil : Prints [] [] :=
  ⟨⟨List.not_mem_nil, uncommented_nil⟩, fun _ _ => rfl⟩

theorem printsApart_nil : PrintsApart [] [] :=
  ⟨⟨List.not_mem_nil, uncommented_nil⟩, nofun, fun _ => rfl⟩

theorem PrintsApart.prints (h : t.PrintsApart ls) : t.Prints ls := ⟨h.quiet, fun u _ => h.spells u⟩

theorem Prints.append (ht : t.Prints ls) (hu : u.Prints ms) (hd : u.Delimited) :
    (t ++ u).Prints (ls ++ ms) := by
  refine ⟨ht.quiet.append hu.quiet (.inr hd.slash), fun v hv => ?_⟩
  have huv : (u ++ v).Delimited := by
    cases u with
    | nil => exact hv
    | cons => exact hd
  rw [List.append_assoc, ht.spells _ huv, hu.spells v hv, List.append_assoc]

theorem PrintsApart.append (ht : t.PrintsApart ls) (hu : u.Prints ms) :
    (t ++ u).Prints (ls ++ ms) := by
  refine ⟨ht.quiet.append hu.quiet (.inl ht.last), fun v hv => ?_⟩
  rw [List.append_assoc, ht.spells, hu.spells v hv, List.append_assoc]

theorem Prints.append_apart (ht : t.Prints ls) (hu : u.PrintsApart ms) (hd : u.Delimited)
    (hne : u ≠ []) : (t ++ u).PrintsApart (ls ++ ms) := by
  refine ⟨ht.quiet.append hu.quiet (.inr hd.slash), ?_, fun v => ?_⟩
  · rw [List.getLast?_append_of_ne_nil _ hne]
    exact hu.last
  · rw [List.append_assoc, ht.spells _ (hd.append hne), hu.spells, List.append_assoc]

theorem PrintsApart.append_apart (ht : t.PrintsApart ls) (hu : u.PrintsApart ms) :
    (t ++ u).PrintsApart (ls ++ ms) := by
  refine ⟨ht.quiet.append hu.quiet (.inl ht.last), ?_, fun v => ?_⟩
  · by_cases hnil : u = []
    · rw [hnil, List.append_nil]
      exact ht.last
    · rw [List.getLast?_append_of_ne_nil _ hnil]
      exact hu.last
  · rw [List.append_assoc, ht.spells, hu.spells, List.append_assoc]

/-- A quoted text begins where a quote is, whether or not it ends. -/
theorem exists_solidLexemes_quote (t : Text) : ∃ l ls, solidLexemes (byte '\'' :: t) = l :: ls ∧
    (l.kind = .quoted ∨ l.kind = .unterminated) := by
  obtain ⟨rest, -, hlexemes⟩ := lexemes_cons (byte '\'') t
  have hkind : (Lexeme.first (byte '\'') t).kind = .quoted ∨
      (Lexeme.first (byte '\'') t).kind = .unterminated := by
    rw [Lexeme.first, if_neg (by decide), if_pos rfl]
    split
    · exact .inl rfl
    · exact .inr rfl
  refine ⟨_, solidLexemes rest, ?_, hkind⟩
  rw [solidLexemes, hlexemes, List.filter_cons_of_pos]
  · rfl
  · rcases hkind with hkind | hkind <;> rw [hkind] <;> rfl

/-- Pieces with a separator between each two. -/
theorem prints_join {α : Type} {sep : Text} {xs : List α} {text : α → Text}
    {lexemes : α → List Lexeme} (hsep : sep.PrintsApart ms) (hd : sep.Delimited) (hne : sep ≠ [])
    (h : ∀ x ∈ xs, (text x).Prints (lexemes x)) :
    (join sep (xs.map text)).Prints (ms.intercalate (xs.map lexemes)) := by
  induction xs with
  | nil => exact prints_nil
  | cons x xs ih =>
    cases xs with
    | nil => simpa [join] using h x List.mem_cons_self
    | cons y xs =>
      have hrest := hsep.append (ih fun z hz => h z (List.mem_cons_of_mem _ hz))
      have hall := (h x List.mem_cons_self).append hrest (hd.append hne)
      simpa [join, List.intercalate, List.intersperse] using hall

/-- Pieces with a separator after each. -/
theorem printsApart_flatMap {α : Type} {sep : Text} {xs : List α} {text : α → Text}
    {lexemes : α → List Lexeme} (hsep : sep.PrintsApart ms) (hd : sep.Delimited) (hne : sep ≠ [])
    (h : ∀ x ∈ xs, (text x).Prints (lexemes x)) :
    PrintsApart (xs.flatMap fun x => text x ++ sep) (xs.flatMap fun x => lexemes x ++ ms) := by
  induction xs with
  | nil => exact printsApart_nil
  | cons x xs ih =>
    obtain ⟨hx, h⟩ := List.forall_mem_cons.1 h
    exact (hx.append_apart hsep hd hne).append_apart (ih h)

end Text

theorem Lexeme.Genuine.solidLexemes_append {l : Lexeme} (hl : l.Genuine) (hblank : l.kind ≠ .blank)
    (hend : l.kind ≠ .unterminated) {u : Text} (hu : u.Delimited) :
    (l.text ++ u).solidLexemes = l :: u.solidLexemes := by
  rw [Text.solidLexemes, hl.lexemes_append hend hu, List.filter_cons_of_pos (by simpa using hblank)]
  rfl

theorem Lexeme.Genuine.prints {l : Lexeme} (hl : l.Genuine) (hblank : l.kind ≠ .blank)
    (hend : l.kind ≠ .unterminated) (hquiet : l.text.Uncommented) : l.text.Prints [l] :=
  ⟨⟨hl.feed_not_mem hblank, hquiet⟩, fun _ hu => hl.solidLexemes_append hblank hend hu⟩

/-- Lexemes with blanks between them are scanned as they are, comments or not. -/
theorem Text.solidLexemes_join {ls : List Lexeme}
    (h : ∀ l ∈ ls, l.Genuine ∧ l.kind ≠ .blank ∧ l.kind ≠ .unterminated) :
    (join (ascii " ") (ls.map (·.text))).solidLexemes = ls := by
  induction ls with
  | nil => rfl
  | cons l ls ih =>
    obtain ⟨⟨hl, hblank, hend⟩, h⟩ := List.forall_mem_cons.1 h
    have hstep : ∀ {u : Text}, u.Delimited → (l.text ++ u).solidLexemes = l :: u.solidLexemes :=
      hl.solidLexemes_append hblank hend
    cases ls with
    | nil =>
      have hone := hstep delimited_nil
      rwa [List.append_nil] at hone
    | cons m ls =>
      have hspace : ∀ u, Delimited (ascii " " ++ u) ∧
          solidLexemes (ascii " " ++ u) = u.solidLexemes := fun u => ⟨delimited_cons rfl, rfl⟩
      rw [List.map_cons, List.map_cons, join, List.append_assoc, hstep (hspace _).1, (hspace _).2,
        ← List.map_cons, ih h]

end SpanRules
