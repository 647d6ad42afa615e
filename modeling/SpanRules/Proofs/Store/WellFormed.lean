import SpanRules.Evaluation
import SpanRules.Proofs.Labeling.WellFormed
import SpanRules.Proofs.Layer.Pseudotoken

/-! Stores whose levels divide the same texts and are well formed. Statements keep a store such and
remove no level, if the annotators that they run do so. -/
namespace SpanRules

namespace Layer
variable {l target source : Layer} {type : Text} {s t : Span}

theorem hasSpan_of_align? (h : target.align? source s = some t) : target.documents.HasSpan t := by
  unfold align? at h
  split at h
  · cases h
  · rename_i d hd
    split at h
    · cases h
    · exact Corpus.hasSpan_of_properSubspan? hd h

theorem hasSpan_of_mem_alignments {fuel : Nat} (h : t ∈ l.alignments fuel s) :
    l.documents.HasSpan t := by
  induction fuel generalizing s with
  | zero => simp [alignments] at h
  | succ fuel ih =>
    unfold alignments at h
    split at h
    · simp at h
    · rename_i u hu
      have hspan := hasSpan_of_align? hu
      split at h
      · rcases List.mem_cons.1 h with rfl | h
        · exact hspan
        · exact ih h
      · exact List.mem_singleton.1 h ▸ hspan

theorem sound_importSpans (target source : Layer) (type : Text) (spans : OrderedSet Span) :
    target.Sound (target.importSpans source type spans) := by
  refine (sound_declareType target type).trans (sound_addAllToType type fun t ht => ?_)
  obtain ⟨s, _, hs⟩ := List.mem_filterMap.1 ht
  exact hasSpan_of_align? hs

theorem sound_importToSelf (l : Layer) (type : Text) (spans : OrderedSet Span) :
    l.Sound (l.importToSelf type spans) := by
  apply sound_addAllToType type
  intro t ht
  obtain ⟨s, _, hs⟩ := List.mem_flatMap.1 ht
  exact hasSpan_of_mem_alignments hs

end Layer

namespace Store

/-- The base level divides the texts into their usual tokens, and every level is a well-formed
layer over the same texts. -/
structure WellFormed (texts : List (Text × Text)) (s : Store) : Prop where
  base : ∃ l, s.layer? baseLevel = some l ∧ l.documents = Corpus.ofTexts texts
  texts : ∀ level l, s.layer? level = some l → l.documents.texts = texts
  layers : ∀ level l, s.layer? level = some l → l.WellFormed

def HasLevel (s : Store) (level : Text) : Prop := ∃ l, s.layer? level = some l

/-- What a step makes of a store: a well-formed one that has all the levels of the old one. -/
structure Sound (texts : List (Text × Text)) (s s' : Store) : Prop where
  wellFormed : s'.WellFormed texts
  levels : ∀ level, s.HasLevel level → s'.HasLevel level

variable {texts : List (Text × Text)} {s s' s'' : Store} {level : Text} {l l' : Layer}

theorem WellFormed.refl (h : s.WellFormed texts) : s.Sound texts s := ⟨h, fun _ => id⟩

theorem Sound.trans (h : s.Sound texts s') (h' : s'.Sound texts s'') : s.Sound texts s'' :=
  ⟨h'.wellFormed, fun level hl => h'.levels level (h.levels level hl)⟩

theorem WellFormed.hasLevel_base (h : s.WellFormed texts) : s.HasLevel baseLevel :=
  let ⟨l, hl, _⟩ := h.base
  ⟨l, hl⟩

theorem ofCorpus_wellFormed (texts : List (Text × Text)) :
    (ofCorpus (Corpus.ofTexts texts)).WellFormed texts := by
  have hlayer : ∀ level l, (ofCorpus (Corpus.ofTexts texts)).layer? level = some l →
      l = .ofCorpus (Corpus.ofTexts texts) := by
    intro level l hl
    rw [layer?, ofCorpus, OrderedMap.find?_insert] at hl
    split at hl
    · exact (Option.some.inj hl).symm
    · cases hl
  refine ⟨⟨_, OrderedMap.find?_insert.trans (if_pos rfl), rfl⟩, fun level l hl => ?_,
    fun level l hl => ?_⟩
  · rw [hlayer level l hl]
    exact Corpus.texts_ofTexts texts
  · rw [hlayer level l hl]
    exact Layer.ofCorpus_wellFormed fun d hd => Document.ofTexts_wellFormed hd

theorem hasLevel_setLayer {k : Text} (h : s.HasLevel k) : (s.setLayer level l).HasLevel k := by
  by_cases hk : k = level
  · exact ⟨l, by simp [hk]⟩
  · obtain ⟨l', hl'⟩ := h
    exact ⟨l', by simp [hk, hl']⟩

theorem hasLevel_setLayer_iff {k : Text} (h : s.HasLevel level) :
    (s.setLayer level l).HasLevel k ↔ s.HasLevel k := by
  refine ⟨fun hk => ?_, hasLevel_setLayer⟩
  by_cases heq : k = level
  · exact heq ▸ h
  · obtain ⟨m, hm⟩ := hk
    exact ⟨m, by simpa [heq] using hm⟩

theorem WellFormed.setLayer (hs : s.WellFormed texts) (hl : s.layer? level = some l)
    (h : l.Sound l') : s.Sound texts (s.setLayer level l') := by
  refine ⟨⟨?_, fun k m hm => ?_, fun k m hm => ?_⟩, fun k => hasLevel_setLayer⟩
  · obtain ⟨b, hb, hdocs⟩ := hs.base
    by_cases hk : baseLevel = level
    · subst hk
      obtain rfl := Option.some.inj (hb.symm.trans hl)
      exact ⟨l', by simp, h.documents.trans hdocs⟩
    · exact ⟨b, by simp [hk, hb], hdocs⟩
  · rw [layer?_setLayer] at hm
    split at hm
    · cases hm
      rw [h.documents]
      exact hs.texts level l hl
    · exact hs.texts k m hm
  · rw [layer?_setLayer] at hm
    split at hm
    · cases hm
      exact h.wellFormed (hs.layers level l hl)
    · exact hs.layers k m hm

theorem WellFormed.createLevel {new strategy pattern : Text} (hs : s.WellFormed texts)
    (hl : s.layer? level = some l) (h : s.createLevel new strategy pattern l = .ok s') :
    s.Sound texts s' := by
  unfold Store.createLevel at h
  split at h
  · cases h
  · rename_i hnew
    split at h
    · cases h
    · rename_i st _
      unfold retokenize at h
      split at h
      · split at h
        · cases h
          refine ⟨⟨?_, fun k m hm => ?_, fun k m hm => ?_⟩, fun k => hasLevel_setLayer⟩
          · obtain ⟨b, hb, hdocs⟩ := hs.base
            have hne : baseLevel ≠ new := by
              rintro rfl
              exact hnew (OrderedMap.contains_iff.2 ⟨b, hb⟩)
            exact ⟨b, by simp [hne, hb], hdocs⟩
          · rw [layer?_setLayer] at hm
            split at hm
            · cases hm
              exact (Layer.texts_pseudotokens l pattern).trans (hs.texts level l hl)
            · exact hs.texts k m hm
          · rw [layer?_setLayer] at hm
            split at hm
            · cases hm
              exact Layer.ofCorpus_wellFormed ((hs.layers level l hl).pseudotokens pattern)
            · exact hs.layers k m hm
        · cases h
      · cases h

theorem WellFormed.importFromLevel {source oldType newType : Text} (hs : s.WellFormed texts)
    (hl : s.layer? level = some l) (h : s.importFromLevel source oldType level newType = .ok s') :
    s.Sound texts s' := by
  unfold Store.importFromLevel at h
  split at h
  · cases h
  · rename_i m hm
    split at h
    · cases h
    · rename_i spans _
      cases h
      apply hs.setLayer hl
      split
      · rename_i heq
        rw [heq.1] at hm
        obtain rfl := Option.some.inj (hl.symm.trans hm)
        exact Layer.sound_importToSelf l newType spans
      · rw [layer_of_layer? hl]
        exact Layer.sound_importSpans l m newType spans

end Store

def AnnotatorRunner.Sound (texts : List (Text × Text)) (annotate : AnnotatorRunner) : Prop :=
  ∀ name level (s : Store), s.WellFormed texts → s.HasLevel level →
    s.Sound texts (annotate name level s).store

section
variable {texts : List (Text × Text)} {annotate : AnnotatorRunner} {s : Store} {level : Text}

theorem Outcome.sound_ofExcept {r : Except Failure Store} (hs : s.WellFormed texts)
    (h : ∀ s', r = .ok s' → s.Sound texts s') : s.Sound texts (ofExcept s r).store := by
  cases r with
  | ok s' => exact h s' rfl
  | error f => exact hs.refl

theorem Store.sound_require (ha : annotate.Sound texts) (hs : s.WellFormed texts)
    (hl : s.HasLevel level) (type file : Text) :
    s.Sound texts (s.require annotate type file level).store := by
  unfold Store.require
  split
  · exact hs.refl
  · have hrun := ha (if file = [] then type else file) level s hs hl
    simp only
    split
    · exact hrun
    · exact ⟨⟨hrun.wellFormed.base, hrun.wellFormed.texts, hrun.wellFormed.layers⟩, hrun.levels⟩

/-- A statement keeps the store well formed, and its level is there afterwards. -/
theorem Statement.sound_execute (ha : annotate.Sound texts) (hs : s.WellFormed texts)
    (hl : s.HasLevel level) (st : Statement) :
    s.Sound texts (st.execute annotate s level).1.store ∧
      (st.execute annotate s level).1.store.HasLevel (st.execute annotate s level).2 := by
  obtain ⟨l, hlayer⟩ := hl
  have here : ∀ {s' : Store}, s.Sound texts s' → s.Sound texts s' ∧ s'.HasLevel level :=
    fun h => ⟨h, h.levels level ⟨l, hlayer⟩⟩
  cases st with
  | declareType type =>
    refine here (hs.setLayer hlayer ?_)
    rw [Store.layer_of_layer? hlayer]
    exact Layer.sound_declareType l type
  | provide type => exact here ⟨⟨hs.base, hs.texts, hs.layers⟩, fun _ => id⟩
  | require type file => exact here (Store.sound_require ha hs ⟨l, hlayer⟩ type file)
  | annotateWith file => exact here (ha file level s hs ⟨l, hlayer⟩)
  | onLevel new =>
    simp only [execute]
    split
    · rename_i m hm
      exact ⟨hs.refl, m, hm⟩
    · exact here hs.refl
  | offLevel => exact ⟨hs.refl, hs.hasLevel_base⟩
  | importFromLevel source newType oldType =>
    exact here (Outcome.sound_ofExcept hs fun _ h => hs.importFromLevel hlayer h)
  | defineDictionary d => exact here ⟨⟨hs.base, hs.texts, hs.layers⟩, fun _ => id⟩
  | defineLevel new strategy pattern =>
    refine here (Outcome.sound_ofExcept hs fun _ h => ?_)
    rw [Store.layer_of_layer? hlayer] at h
    exact hs.createLevel hlayer h
  | label st =>
    refine here (hs.setLayer hlayer ?_)
    rw [Store.layer_of_layer? hlayer]
    exact Labeling.sound_execute st (hs.layers level l hlayer)

theorem Program.sound_run (ha : annotate.Sound texts) (p : Program) (hs : s.WellFormed texts)
    (hl : s.HasLevel level) : s.Sound texts (p.run annotate s level).store := by
  induction p generalizing s level with
  | nil => exact hs.refl
  | cons st p ih =>
    obtain ⟨hstep, hlevel⟩ := st.sound_execute ha hs hl
    simp only [run]
    split
    · exact hstep
    · exact hstep.trans (ih hstep.wellFormed hlevel)

end

end SpanRules
