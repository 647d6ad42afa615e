import SpanRules.Layer.Pseudotoken
import SpanRules.Proofs.Document.Alignment
import SpanRules.Proofs.Layer.WellFormed

/-! Grouping tokens gives tokens again: the groups are non-empty, lie in the text and follow each
other as the grouped tokens do. -/
namespace SpanRules

namespace Document
variable {d : Document} {stopOf : Nat → Nat} {i j k skip : Nat} {t : Token}

/-- A group begins with its first token. -/
theorem coveringToken_start : (d.coveringToken i j).start = d.tokenStart i := rfl

theorem coveringToken_stop (hij : i < j) (hj : j ≤ d.tokens.length) :
    (d.coveringToken i j).stop = d.tokens[j - 1].stop :=
  charStop_eq (s := ⟨0, i, j⟩) hij hj

theorem coveringToken_stop_of_gt (hij : i < j) (hj : d.tokens.length < j) :
    (d.coveringToken i j).stop = d.text.length := by
  have hne : i ≠ j := by omega
  simp [coveringToken, tokenAt, charStop, Span.isEmpty, hne,
    show d.tokens[j - 1]? = none from List.getElem?_eq_none (by omega)]

theorem Spaced.start_lt_stop_coveringToken (hd : d.Spaced) (hij : i < j)
    (hj : j ≤ d.tokens.length) : (d.coveringToken i j).start < (d.coveringToken i j).stop := by
  rw [coveringToken_start, tokenStart_eq (by omega), coveringToken_stop hij hj]
  have hle := hd.bounds_mono (show i ≤ j - 1 by omega) (by omega)
  have hlt := hd.start_lt_stop (show j - 1 < d.tokens.length by omega)
  omega

/-- A group ends before the tokens after it. -/
theorem Spaced.stop_coveringToken_le (hd : d.Spaced) (hij : i < j) (hjk : j ≤ k)
    (hk : k < d.tokens.length) : (d.coveringToken i j).stop ≤ d.tokenStart k := by
  rw [tokenStart_eq hk, coveringToken_stop hij (by omega)]
  exact hd.stop_le_start (by omega) hk

theorem WellFormed.bounds_coveringToken (hd : d.WellFormed) (hij : i < j)
    (hi : i < d.tokens.length) :
    (d.coveringToken i j).start < (d.coveringToken i j).stop ∧
      (d.coveringToken i j).stop ≤ d.text.length := by
  rcases Nat.lt_or_ge d.tokens.length j with hj | hj
  · have hne := hd.nonempty _ (List.getElem_mem hi)
    have hin := hd.inside _ (List.getElem_mem hi)
    rw [coveringToken_start, tokenStart_eq hi, coveringToken_stop_of_gt hij hj]
    omega
  · refine ⟨hd.spaced.start_lt_stop_coveringToken hij hj, ?_⟩
    rw [coveringToken_stop hij hj]
    exact hd.inside _ (List.getElem_mem _)

/-- The groups after the first `i + skip` tokens are those of later tokens. -/
theorem mem_grouped (h : t ∈ d.grouped stopOf i skip (d.tokens.drop i)) :
    ∃ k j, i + skip ≤ k ∧ k < j ∧ k < d.tokens.length ∧ t = d.coveringToken k j := by
  generalize hts : d.tokens.drop i = ts at h
  induction ts generalizing i skip with
  | nil => simp [grouped] at h
  | cons u ts ih =>
    have hi : i < d.tokens.length := by
      have := congrArg List.length hts
      simp at this
      omega
    have hts' : d.tokens.drop (i + 1) = ts := by
      rw [← List.drop_drop, hts, List.drop_one, List.tail_cons]
    cases skip with
    | succ skip =>
      obtain ⟨k, j, hk, hrest⟩ := ih hts' h
      exact ⟨k, j, by omega, hrest⟩
    | zero =>
      rcases List.mem_cons.1 h with rfl | h
      · exact ⟨i, max (stopOf i) (i + 1), by omega, by omega, hi, rfl⟩
      · obtain ⟨k, j, hk, hrest⟩ := ih hts' h
        exact ⟨k, j, by omega, hrest⟩

theorem WellFormed.ordered_grouped (hd : d.WellFormed) :
    (d.grouped stopOf i skip (d.tokens.drop i)).Pairwise fun t u => t.stop ≤ u.start := by
  generalize hts : d.tokens.drop i = ts
  induction ts generalizing i skip with
  | nil => exact .nil
  | cons u ts ih =>
    have hts' : d.tokens.drop (i + 1) = ts := by
      rw [← List.drop_drop, hts, List.drop_one, List.tail_cons]
    cases skip with
    | succ skip => exact ih hts'
    | zero =>
      refine .cons (fun t ht => ?_) (ih hts')
      rw [← hts'] at ht
      obtain ⟨k, j, hk, -, hlen, rfl⟩ := mem_grouped ht
      exact hd.spaced.stop_coveringToken_le (by omega) (by omega) hlen

theorem WellFormed.grouped (hd : d.WellFormed) :
    { d with tokens := d.grouped stopOf 0 0 d.tokens }.WellFormed := by
  have hmem : ∀ t ∈ d.grouped stopOf 0 0 d.tokens, t.start < t.stop ∧ t.stop ≤ d.text.length := by
    intro t ht
    obtain ⟨k, j, -, hkj, hk, rfl⟩ := mem_grouped (i := 0) ht
    exact hd.bounds_coveringToken hkj hk
  exact ⟨fun t ht => (hmem t ht).1, fun t ht => (hmem t ht).2, hd.ordered_grouped (i := 0)⟩

end Document

namespace Layer
variable {l : Layer}

theorem WellFormed.pseudotokens (hl : l.WellFormed) (type : Text) :
    ∀ d ∈ l.pseudotokens type, d.WellFormed := by
  intro d hd
  obtain ⟨i, hi, rfl⟩ := List.mem_mapIdx.1 hd
  exact (hl.documents _ (List.getElem_mem hi)).grouped

theorem texts_pseudotokens (l : Layer) (type : Text) :
    (l.pseudotokens type).texts = l.documents.texts := by
  apply List.ext_getElem (by simp [Corpus.texts, Layer.pseudotokens])
  intro i hi hi'
  simp [Corpus.texts, Layer.pseudotokens]

end Layer

end SpanRules
