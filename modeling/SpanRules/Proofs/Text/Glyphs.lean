import SpanRules.Text.Utf8

/-! The characters of a text: none is empty, and together they are the text. -/
namespace SpanRules.Utf8

theorem one_le_charLen (b : UInt8) : 1 ≤ charLen b := by
  unfold charLen
  split
  · exact Nat.le_refl 1
  · split
    · omega
    · split <;> omega

/-- The first character of a text is a beginning of it. -/
theorem firstGlyph_bytes_eq (b : UInt8) (t : Text) :
    ∃ n, (firstGlyph b t).bytes = b :: t.take n := by
  unfold firstGlyph
  split
  · obtain ⟨n, hn⟩ := Nat.exists_eq_add_of_le' (one_le_charLen b)
    exact ⟨n, by rw [hn, List.take_succ_cons]⟩
  · exact ⟨0, by simp⟩

theorem flatMap_bytes_glyphsAfter (skip : Nat) (t : Text) :
    (glyphsAfter skip t).flatMap (·.bytes) = t.drop skip := by
  induction t generalizing skip with
  | nil => cases skip <;> rfl
  | cons b t ih =>
    cases skip with
    | succ skip => rw [glyphsAfter, ih, List.drop_succ_cons]
    | zero =>
      obtain ⟨n, hn⟩ := firstGlyph_bytes_eq b t
      simp only [glyphsAfter, List.flatMap_cons, ih, hn, List.length_cons, Nat.add_sub_cancel,
        List.cons_append, List.drop_zero, List.length_take]
      rcases Nat.le_total n t.length with hle | hle
      · rw [Nat.min_eq_left hle, List.take_append_drop]
      · rw [Nat.min_eq_right hle, List.take_of_length_le hle, List.drop_length, List.append_nil]

theorem flatMap_bytes_glyphs (t : Text) : (glyphs t).flatMap (·.bytes) = t :=
  flatMap_bytes_glyphsAfter 0 t

theorem bytes_ne_nil_of_mem_glyphsAfter {skip : Nat} {t : Text} {g : Glyph}
    (h : g ∈ glyphsAfter skip t) : g.bytes ≠ [] := by
  induction t generalizing skip with
  | nil => cases skip <;> simp [glyphsAfter] at h
  | cons b t ih =>
    cases skip with
    | succ skip => exact ih h
    | zero =>
      rcases List.mem_cons.1 h with rfl | h
      · obtain ⟨n, hn⟩ := firstGlyph_bytes_eq b t
        simp [hn]
      · exact ih h

theorem bytes_ne_nil_of_mem_glyphs {t : Text} {g : Glyph} (h : g ∈ glyphs t) : g.bytes ≠ [] :=
  bytes_ne_nil_of_mem_glyphsAfter h

end SpanRules.Utf8
