import SpanRules.Labeling
import SpanRules.Proofs.Layer.WellFormed

/-! Labeling statements find spans within those in which they look. What each of their labels keeps
there, the statements keep; in particular, they keep a layer well formed. -/
namespace SpanRules

theorem Trie.bounds_of_mem_lengths {t : Trie} {depth n : Nat} {ws : List Text}
    (h : n ∈ t.lengths depth ws) : depth < n ∧ n ≤ depth + ws.length := by
  induction ws generalizing t depth with
  | nil => simp [lengths] at h
  | cons v vs ih =>
    simp only [lengths] at h
    simp only [List.length_cons]
    split at h
    · simp at h
    · split at h
      · have := ih h
        omega
      · rcases List.mem_cons.1 h with rfl | h
        · omega
        · have := ih h
          omega

namespace PhraseSet

theorem bounds_of_mem_occurrences {t : Trie} {pos : Nat} {ws : List Text} {r : Nat × Nat}
    (h : r ∈ occurrences t pos ws) : pos ≤ r.1 ∧ r.1 < r.2 ∧ r.2 ≤ pos + ws.length := by
  induction ws generalizing pos with
  | nil => simp [occurrences] at h
  | cons w ws ih =>
    rcases List.mem_append.1 h with h | h
    · obtain ⟨n, hn, rfl⟩ := List.mem_map.1 h
      have := Trie.bounds_of_mem_lengths hn
      simp only [Nat.zero_add] at this
      exact ⟨Nat.le_refl _, by simp only; omega, by simp only; omega⟩
    · have := ih h
      simp only [List.length_cons]
      omega

theorem bounds_of_mem_lookup {p : PhraseSet} {d : Document} {s t : Span} (h : t ∈ p.lookup d s) :
    s.contains t = true ∧ t.start ≤ t.stop := by
  obtain ⟨r, hr, rfl⟩ := List.mem_map.1 h
  have hbounds := bounds_of_mem_occurrences hr
  have hlen := d.length_spanTokens_le s
  simp only [Document.spanWords, List.length_map, Span.length] at hbounds hlen
  constructor
  · simp only [Span.contains, Span.sub, beq_self_eq_true, Bool.true_and, Bool.and_eq_true]
    exact ⟨decide_eq_true (by omega), decide_eq_true (by omega)⟩
  · exact Nat.add_le_add_left (Nat.le_of_lt hbounds.2.1) _

end PhraseSet

/-- The labels of an effect keep a condition on layers as long as they are given to spans of some
kind. The parts of such spans are of that kind, too. -/
structure Effect.Keeps (e : Effect) (P : Layer → Prop) (Q : Span → Prop) : Prop where
  apply : ∀ {l s}, P l → Q s → P (e.apply l s)
  declare : ∀ {l}, P l → P (e.declare l)
  part : ∀ {s t : Span}, Q s → s.contains t = true → t.start ≤ t.stop → Q t

namespace Labeling
variable {ds : Dictionaries} {p : Pattern} {l : Layer} {spans : List Span}

theorem mem_of_mem_rejected? {found set : OrderedSet Span} {t : Span}
    (h : rejected? ds p l found spans = .ok set) (ht : t ∈ set) : t ∈ found ∨ t ∈ spans := by
  induction spans generalizing found with
  | nil =>
    cases h
    exact .inl ht
  | cons s spans ih =>
    simp only [rejected?] at h
    split at h
    · cases h
    · rcases ih h with hmem | hmem
      · split at hmem
        · rcases OrderedSet.mem_insert.1 hmem with rfl | hmem
          · exact .inr List.mem_cons_self
          · exact .inl hmem
        · exact .inl hmem
      · exact .inr (List.mem_cons_of_mem _ hmem)

section
variable {P : Layer → Prop} {Q : Span → Prop} {e : Effect} {st : Labeling}

theorem keeps_applyAll (he : e.Keeps P Q) (h : P l) (hspans : ∀ s ∈ spans, Q s) :
    P (e.applyAll l spans) :=
  List.foldrRecOn spans _ h fun _ hl s hs => he.apply hl (hspans s hs)

theorem keeps_labelExtractions (he : e.Keeps P Q) (h : P l) (hspans : ∀ s ∈ spans, Q s) :
    P (labelExtractions ds p e l spans).layer := by
  induction spans generalizing l with
  | nil => exact h
  | cons s spans ih =>
    obtain ⟨hs, hspans⟩ := List.forall_mem_cons.1 hspans
    simp only [labelExtractions]
    split
    · exact h
    · rename_i found hfound
      refine ih (keeps_applyAll he h fun t ht => ?_) hspans
      simp only [Pattern.extract] at hfound
      split at hfound
      · cases hfound
      · cases hfound
        obtain ⟨hst, hle⟩ := Pattern.bounds_of_mem_extraction ht
        exact he.part hs hst hle

theorem keeps_labelRejections (he : e.Keeps P Q) (h : P l) (hspans : ∀ s ∈ spans, Q s) :
    P (labelRejections ds p e l spans).layer := by
  unfold labelRejections
  split
  · exact h
  · rename_i found hfound
    refine keeps_applyAll he h fun t ht => hspans t ?_
    exact (mem_of_mem_rejected? hfound ht).resolve_left OrderedSet.not_mem_empty

theorem keeps_labelPhrases (phrases : PhraseSet) (he : e.Keeps P Q) (h : P l)
    (hspans : ∀ s ∈ spans, Q s) : P (labelPhrases phrases e l spans).layer := by
  refine keeps_applyAll he h fun t ht => ?_
  obtain ⟨s, hs, ht⟩ := List.mem_flatMap.1 ht
  obtain ⟨hst, hle⟩ := PhraseSet.bounds_of_mem_lookup ht
  exact he.part (hspans s hs) hst hle

/-- What every label of a statement keeps is kept by the statement, whatever it finds and whether or
not it fails. -/
theorem keeps_execute (he : st.effect.Keeps P Q) (h : P l)
    (hinput : ∀ spans, input? l st.scope = .ok spans → ∀ s ∈ spans, Q s) :
    P (execute ds st l).layer := by
  unfold execute
  split
  · exact h
  · rename_i spans hspans
    have hrun : P (run ds st l spans).layer := by
      unfold run
      cases st.generator with
      | extractions p => exact keeps_labelExtractions he h (hinput spans hspans)
      | rejections p => exact keeps_labelRejections he h (hinput spans hspans)
      | phrases entries => exact keeps_labelPhrases _ he h (hinput spans hspans)
    simp only
    split
    · exact hrun
    · exact he.declare hrun

end

theorem hasSpan_of_input? {scope : Text} (hl : l.WellFormed) (h : input? l scope = .ok spans) :
    ∀ s ∈ spans, l.documents.HasSpan s := by
  intro s hs
  unfold input? at h
  split at h
  · cases h
    exact Corpus.hasSpan_of_mem_spans hs
  · split at h
    · rename_i set hset
      cases h
      exact hl.instances scope s (by rwa [Layer.instances, hset])
    · cases h

theorem sound_execute (st : Labeling) (hl : l.WellFormed) :
    l.Sound (execute ds st l).layer := by
  have hkeeps : st.effect.Keeps l.Sound l.documents.HasSpan :=
    ⟨fun h hs => h.trans (Layer.sound_apply _ (h.documents ▸ hs)),
      fun h => h.trans (Layer.sound_declare _), Corpus.HasSpan.of_contains⟩
  exact keeps_execute hkeeps (.refl l) fun _ => hasSpan_of_input? hl

end Labeling

end SpanRules
