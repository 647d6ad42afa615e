import SpanRules.Proofs.Layer.Import
import SpanRules.Proofs.Source.Reading

/-! Types that are imported from one level into another. Main statement: between a level and one of
pseudotokens that was made from it, no span of pseudotokens is lost on the way there and back. -/
namespace SpanRules

namespace Store
variable {s s' : Store} {source target level oldType newType type : Text} {l m : Layer}
  {spans : OrderedSet Span}

/-- A type can be imported under a new name. It has then what takes the place of the spans. -/
theorem exists_importFromLevel (hl : s.layer? source = some l) (hm : s.layer? target = some m)
    (hspans : l.instances? oldType = some spans) (hnew : m.isDeclared newType = false) :
    ∃ m' found, s.importFromLevel source oldType target newType = .ok (s.setLayer target m') ∧
      m'.documents = m.documents ∧ m'.instances? newType = some found ∧
      ∀ t, t ∈ found ↔ ∃ u ∈ spans, m.align? l u = some t := by
  have hnone : m.instances? newType = none := Layer.instances?_eq_none hnew
  have hother : ¬ (source = target ∧ oldType = newType) := by
    rintro ⟨rfl, rfl⟩
    rw [hl, Option.some.injEq] at hm
    rw [← hm, hspans] at hnone
    cases hnone
  obtain ⟨found, hfound, hmem⟩ := m.exists_instances?_importSpans l newType spans
  refine ⟨_, found, ?_, (m.edited_importSpans l newType spans).grows.documents, hfound, ?_⟩
  · simp only [importFromLevel, hl, hspans]
    rw [if_neg hother, layer_of_layer? hm]
  · intro t
    rw [hmem, Layer.instances, hnone]
    exact or_iff_left OrderedSet.not_mem_empty

theorem createLevel_pseudotoken (h : s.createLevel level (ascii "pseudotoken") type l = .ok s') :
    s.layer? level = none ∧ (s'.layer level).documents = l.pseudotokens type := by
  have hstrategy : Strategy.ofName? (ascii "pseudotoken").beforeNul = some .pseudotoken := rfl
  unfold createLevel at h
  split at h
  · cases h
  · rename_i hnew
    simp only [hstrategy, retokenize] at h
    split at h
    · cases h
      refine ⟨by simpa [OrderedMap.contains, layer?] using hnew, ?_⟩
      rw [layer_of_layer? (layer?_setLayer.trans (if_pos rfl))]
      rfl
    · cases h

theorem eq_filter_isEmpty {found : OrderedSet Span}
    (h : ∀ t, t ∈ found ↔ ∃ u ∈ spans, u.isEmpty = false ∧ t = u) :
    found = spans.filter (! ·.isEmpty) := by
  apply OrderedSet.ext_mem
  intro t
  rw [h, OrderedSet.mem_filter, Bool.not_eq_true']
  constructor
  · rintro ⟨u, hu, hempty, rfl⟩
    exact ⟨hu, hempty⟩
  · rintro ⟨ht, hempty⟩
    exact ⟨t, ht, hempty, rfl⟩

/-- Importing a type, and under another new name importing what came of it back. -/
theorem exists_importFromLevel_importFromLevel {A B D : Text} (hne : source ≠ target)
    (hl : s.layer? source = some l) (hm : s.layer? target = some m)
    (hspans : l.instances? A = some spans) (hB : m.isDeclared B = false)
    (hD : l.isDeclared D = false) :
    ∃ s' s'' found, s.importFromLevel source A target B = .ok s' ∧
      s'.importFromLevel target B source D = .ok s'' ∧
      (s''.layer source).instances? D = some found ∧
      ∀ t, t ∈ found ↔ ∃ u ∈ spans, ∃ v, m.align? l u = some v ∧ l.align? m v = some t := by
  obtain ⟨m', there, hfirst, hdocuments, hthere, hmem⟩ := exists_importFromLevel hl hm hspans hB
  have hl' : (s.setLayer target m').layer? source = some l := by
    rw [layer?_setLayer, if_neg hne, hl]
  have hm' : (s.setLayer target m').layer? target = some m' := by
    rw [layer?_setLayer, if_pos rfl]
  obtain ⟨l', back, hsecond, -, hback, hmem'⟩ := exists_importFromLevel hm' hl' hthere hD
  refine ⟨_, _, back, hfirst, hsecond, ?_, fun t => ?_⟩
  · rw [layer_of_layer? (layer?_setLayer.trans (if_pos rfl)), hback]
  · simp only [hmem', hmem, Layer.align?_congr hdocuments]
    constructor
    · rintro ⟨v, ⟨u, hu, huv⟩, hvt⟩
      exact ⟨u, hu, v, huv, hvt⟩
    · rintro ⟨u, hu, v, huv, hvt⟩
      exact ⟨v, ⟨u, hu, huv⟩, hvt⟩

/-- Of a level and a level of pseudotokens that was made from it, whatever labels they have got
since: a type of the pseudotokens that is imported into the other level and then back under new
names has its non-empty instances again, and no others. A type of the other level that is imported
into the pseudotokens and back has only spans that lie in its instances. A type that is imported
under a new name into its own level has its non-empty instances there. -/
theorem importFromLevel_importFromLevel {s₀ s₁ s : Store} {fine coarse type : Text}
    {F₀ F C : Layer} (hfine₀ : s₀.layer? fine = some F₀)
    (hcreate : s₀.createLevel coarse (ascii "pseudotoken") type F₀ = .ok s₁)
    (hdocuments : ∀ d ∈ F₀.documents, d.Spaced)
    (hinstances : ∀ t ∈ F₀.instances type, F₀.documents.HasSpan t)
    (hfine : s.layer? fine = some F) (hF : F.documents = F₀.documents)
    (hcoarse : s.layer? coarse = some C) (hC : C.documents = (s₁.layer coarse).documents) :
    (∀ A B D as, C.instances? A = some as → (∀ t ∈ as, C.documents.HasSpan t) →
      F.isDeclared B = false → C.isDeclared D = false →
      ∃ s' s'', s.importFromLevel coarse A fine B = .ok s' ∧
        s'.importFromLevel fine B coarse D = .ok s'' ∧
        (s''.layer coarse).instances? D = some (as.filter (! ·.isEmpty))) ∧
    (∀ A B D as, F.instances? A = some as → (∀ t ∈ as, F.documents.HasSpan t) →
      C.isDeclared B = false → F.isDeclared D = false →
      ∃ s' s'' found, s.importFromLevel fine A coarse B = .ok s' ∧
        s'.importFromLevel coarse B fine D = .ok s'' ∧
        (s''.layer fine).instances? D = some found ∧
        ∀ t ∈ found, ∃ u ∈ as, u.contains t = true) ∧
    (∀ level l A D as, s.layer? level = some l → (∀ d ∈ l.documents, d.Spaced) →
      l.instances? A = some as → (∀ t ∈ as, l.documents.HasSpan t) → l.isDeclared D = false →
      ∃ s', s.importFromLevel level A level D = .ok s' ∧
        (s'.layer level).instances? D = some (as.filter (! ·.isEmpty))) := by
  obtain ⟨hnew, hlevel⟩ := createLevel_pseudotoken hcreate
  have hcoarsens : C.documents.Coarsens F.documents := by
    rw [hC, hF, hlevel]
    exact Corpus.coarsens_pseudotokens hdocuments hinstances
  have hne : coarse ≠ fine := by
    rintro rfl
    rw [hnew] at hfine₀
    cases hfine₀
  have hspaced : ∀ d ∈ F.documents, d.Spaced := by
    rw [hF]
    exact hdocuments
  refine ⟨fun A B D as hA has hB hD => ?_, fun A B D as hA has hB hD => ?_,
    fun level l A D as hl hspaced hA has hD => ?_⟩
  · obtain ⟨s', s'', found, hfirst, hsecond, hfound, hmem⟩ :=
      exists_importFromLevel_importFromLevel hne hcoarse hfine hA hB hD
    have hall : found = as.filter (! ·.isEmpty) := eq_filter_isEmpty fun t => by
      rw [hmem]
      exact exists_congr fun u => and_congr_right fun hu => Layer.align?_align? hcoarsens (has u hu)
    exact ⟨s', s'', hfirst, hsecond, hall ▸ hfound⟩
  · obtain ⟨s', s'', found, hfirst, hsecond, hfound, hmem⟩ :=
      exists_importFromLevel_importFromLevel hne.symm hfine hcoarse hA hB hD
    refine ⟨s', s'', found, hfirst, hsecond, hfound, fun t ht => ?_⟩
    obtain ⟨u, hu, v, huv, hvt⟩ := (hmem t).1 ht
    exact ⟨u, hu, Layer.contains_of_align? (has u hu) hspaced hcoarsens.spaced huv hvt⟩
  · obtain ⟨l', found, himport, -, hfound, hmem⟩ := exists_importFromLevel hl hl hA hD
    have hall : found = as.filter (! ·.isEmpty) := eq_filter_isEmpty fun t => by
      rw [hmem]
      exact exists_congr fun u => and_congr_right fun hu => Layer.align?_self (has u hu) hspaced
    refine ⟨_, himport, ?_⟩
    rw [layer_of_layer? (layer?_setLayer.trans (if_pos rfl)), hfound, hall]

/-- The tokens of `" a b c d"` and pseudotokens of which one takes `b` and `c` together. -/
theorem importFromLevel_importFromLevel_crossing :
    let d : Document := .ofText (ascii "d") (ascii " a b c d")
    let A := ascii "A"
    let B := ascii "B"
    let D := ascii "D"
    let T := ascii "T"
    let fine := ascii "fine"
    let coarse := ascii "coarse"
    let F₀ := (Layer.ofCorpus [d]).addAllToType T [⟨0, 1, 3⟩]
    let s₀ := (ofCorpus [d]).setLayer fine F₀
    let s₁ := s₀.setLayer coarse (.ofCorpus (F₀.pseudotokens T))
    let F := F₀.addAllToType A [⟨0, 0, 2⟩, ⟨0, 3, 3⟩]
    let C := (s₁.layer coarse).addAllToType A [⟨0, 1, 1⟩, ⟨0, 1, 3⟩]
    let s := (s₁.setLayer fine F).setLayer coarse C
    (s₀.layer? fine = some F₀ ∧
      s₀.createLevel coarse (ascii "pseudotoken") T F₀ = .ok s₁ ∧
      (∀ d ∈ F₀.documents, d.Spaced) ∧ (∀ t ∈ F₀.instances T, F₀.documents.HasSpan t) ∧
      s.layer? fine = some F ∧ F.documents = F₀.documents ∧
      s.layer? coarse = some C ∧ C.documents = (s₁.layer coarse).documents) ∧
    (∃ as, C.instances? A = some as ∧ (∀ t ∈ as, C.documents.HasSpan t) ∧
      F.isDeclared B = false ∧ C.isDeclared D = false ∧
      ∃ s' s'', s.importFromLevel coarse A fine B = .ok s' ∧
        s'.importFromLevel fine B coarse D = .ok s'' ∧
        (s''.layer coarse).instances? D = some (as.filter (! ·.isEmpty))) ∧
    (∃ as, F.instances? A = some as ∧ (∀ t ∈ as, F.documents.HasSpan t) ∧
      C.isDeclared B = false ∧ F.isDeclared D = false ∧
      (∃ s' s'' found, s.importFromLevel fine A coarse B = .ok s' ∧
        s'.importFromLevel coarse B fine D = .ok s'' ∧
        (s''.layer fine).instances? D = some found ∧
        ∀ t ∈ found, ∃ u ∈ as, u.contains t = true) ∧
      ∃ s', s.importFromLevel fine A fine D = .ok s' ∧
        (s'.layer fine).instances? D = some (as.filter (! ·.isEmpty))) := by
  intro d A B D T fine coarse F₀ s₀ s₁ F C s
  have hfine₀ : s₀.layer? fine = some F₀ := by decide
  have hcreate : s₀.createLevel coarse (ascii "pseudotoken") T F₀ = .ok s₁ := rfl
  have hdocuments : ∀ d ∈ F₀.documents, d.Spaced :=
    List.forall_mem_singleton.2 (Document.ofText_wellFormed _ _).spaced
  have hinstances : ∀ t ∈ F₀.instances T, F₀.documents.HasSpan t := by decide
  have hfine : s.layer? fine = some F := by decide
  have hF : F.documents = F₀.documents := rfl
  have hcoarse : s.layer? coarse = some C := by decide
  have hC : C.documents = (s₁.layer coarse).documents := rfl
  have hAC : ∀ t ∈ C.instances A, C.documents.HasSpan t := by decide
  have hAF : ∀ t ∈ F.instances A, F.documents.HasSpan t := by decide
  have hA : C.instances? A = some (C.instances A) := by decide
  have hA' : F.instances? A = some (F.instances A) := by decide
  have hBF : F.isDeclared B = false := by decide
  have hDC : C.isDeclared D = false := by decide
  have hBC : C.isDeclared B = false := by decide
  have hDF : F.isDeclared D = false := by decide
  obtain ⟨hthere, hback, hself⟩ := importFromLevel_importFromLevel hfine₀ hcreate hdocuments
    hinstances hfine hF hcoarse hC
  exact ⟨⟨hfine₀, hcreate, hdocuments, hinstances, hfine, hF, hcoarse, hC⟩,
    ⟨_, hA, hAC, hBF, hDC, hthere A B D _ hA hAC hBF hDC⟩,
    ⟨_, hA', hAF, hBC, hDF, hback A B D _ hA' hAF hBC hDF,
      hself fine F A D _ hfine hdocuments hA' hAF hDF⟩⟩

end Store

end SpanRules
