import SpanRules.Proofs.Text.Comment

/-! The lines of texts that are put together with line feeds. -/
namespace SpanRules.Text

/-- A line feed ends a line, whatever follows. -/
theorem lines_append_feed (t u : Text) :
    lines (t ++ byte '\n' :: u) = (splitOn 10 t).map dropReturn ++ lines u := by
  have hsplit : splitOn 10 (t ++ byte '\n' :: u) = splitOn 10 t ++ splitOn 10 u := by
    rw [splitOn_eq, splitOn_eq, splitOn_eq]
    exact List.splitOn_append_cons_self t u
  have hne : splitOn 10 u ≠ [] := splitOn_eq 10 u ▸ List.splitOn_ne_nil 10 u
  simp only [lines]
  rw [hsplit, List.getLast?_append_of_ne_nil _ hne]
  split
  · rw [List.dropLast_append_of_ne_nil hne, List.map_append]
  · rw [List.map_append]

theorem map_dropReturn_splitOn (t : Text) :
    (splitOn 10 t).map dropReturn = lines t ∨ (splitOn 10 t).map dropReturn = lines t ++ [[]] := by
  simp only [lines]
  split
  · rename_i hlast
    obtain ⟨pieces, hpieces⟩ := List.getLast?_eq_some_iff.1 hlast
    rw [hpieces, List.dropLast_concat, List.map_append]
    exact .inr rfl
  · exact .inl rfl

section
variable {t line : Text}

theorem splitOn_cons_self (t : Text) : splitOn 10 (byte '\n' :: t) = [] :: splitOn 10 t :=
  if_pos rfl

theorem splitOn_cons_of_ne {b : UInt8} (h : b ≠ 10) (t : Text) :
    splitOn 10 (b :: t) = (splitOn 10 t).modifyHead (b :: ·) := by
  obtain ⟨v, vs, hvs⟩ := exists_splitOn_eq_cons 10 t
  rw [splitOn, if_neg h, hvs]
  rfl

theorem feed_not_mem_of_mem_splitOn (h : line ∈ splitOn 10 t) : byte '\n' ∉ line := by
  induction t generalizing line with
  | nil =>
    rw [List.mem_singleton.1 h]
    exact List.not_mem_nil
  | cons b t ih =>
    obtain ⟨v, vs, hvs⟩ := exists_splitOn_eq_cons 10 t
    by_cases hb : b = byte '\n'
    · rw [hb, splitOn_cons_self] at h
      rcases List.mem_cons.1 h with rfl | h
      · exact List.not_mem_nil
      · exact ih h
    · rw [splitOn_cons_of_ne hb, hvs, List.modifyHead_cons] at h
      rcases List.mem_cons.1 h with rfl | h
      · exact fun hmem => (List.mem_cons.1 hmem).elim (Ne.symm hb) (ih (hvs ▸ List.mem_cons_self))
      · exact ih (hvs ▸ List.mem_cons_of_mem v h)

theorem dropReturn_eq_or (t : Text) : t = dropReturn t ∨ t = dropReturn t ++ [13] := by
  unfold dropReturn
  split
  · rename_i hlast
    obtain ⟨u, rfl⟩ := List.getLast?_eq_some_iff.1 hlast
    rw [List.dropLast_concat]
    exact .inr rfl
  · exact .inl rfl

theorem isPrefix_dropReturn (t : Text) : dropReturn t <+: t := by
  rcases dropReturn_eq_or t with ht | ht
  · exact ⟨[], by rw [← ht, List.append_nil]⟩
  · exact ⟨_, ht.symm⟩

/-- Each line is the beginning of the piece that the line feeds leave at its index. -/
theorem exists_piece_of_lines {l : Nat} (h : t.lines[l]? = some line) :
    ∃ piece, (splitOn 10 t)[l]? = some piece ∧ line <+: piece := by
  rw [lines, List.getElem?_map, Option.map_eq_some_iff] at h
  obtain ⟨piece, hpiece, rfl⟩ := h
  refine ⟨piece, ?_, isPrefix_dropReturn piece⟩
  split at hpiece
  · rw [List.getElem?_dropLast] at hpiece
    exact (Option.ite_none_right_eq_some.1 hpiece).2
  · exact hpiece

theorem feed_not_mem_of_mem_lines (h : line ∈ t.lines) : byte '\n' ∉ line := by
  obtain ⟨l, hl⟩ := List.mem_iff_getElem?.1 h
  obtain ⟨piece, hpiece, hbegin⟩ := exists_piece_of_lines hl
  exact fun hmem => feed_not_mem_of_mem_splitOn (List.mem_of_getElem? hpiece) (hbegin.subset hmem)

end

end SpanRules.Text
