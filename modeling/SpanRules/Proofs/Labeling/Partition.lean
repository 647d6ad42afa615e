import SpanRules.Proofs.Labeling.Extraction
import SpanRules.Proofs.Labeling.Rejection

/-! What one pattern extracts and what it rejects. A pattern without brackets extracts a span as a
whole or not at all. Main statement: a statement that labels what such a pattern extracts and a
later one that labels what it rejects divide the spans of their scope into two types. -/
namespace SpanRules

def Alternative.isWhole : Alternative → Bool
  | .whole _ => true
  | .bracketed .. => false

def Pattern.Unbracketed (p : Pattern) : Prop := ∀ a ∈ p.alternatives, a.isWhole = true

instance (p : Pattern) : Decidable p.Unbracketed := inferInstanceAs (Decidable (∀ _ ∈ _, _))

/-- A type without instances that is neither the scope of a statement nor seen by its pattern. -/
structure Layer.FreshFor (l : Layer) (scope : Text) (p : Pattern) (type : Text) : Prop where
  empty : l.instances type = .empty
  scope : scope ≠ [] → type ≠ scope
  pattern : type ∉ p.types

/-- Whether each of some spans is an instance of exactly one of two types, and no other span is an
instance of any of them. -/
structure Layer.Divides (l : Layer) (a b : Text) (whole : Span → Prop) : Prop where
  disjoint : ∀ t, t ∈ l.instances a → t ∉ l.instances b
  union : ∀ t, (t ∈ l.instances a ∨ t ∈ l.instances b) ↔ whole t

section
variable {p : Pattern} {ds : Dictionaries} {l : Layer} {s t : Span} {type scope : Text}

/-- Without brackets a pattern extracts nothing but the span in which it is looked for. -/
theorem Pattern.Unbracketed.eq_of_mem_extraction (h : p.Unbracketed)
    (ht : t ∈ p.extraction ds l s) : t = s := by
  obtain ⟨a, ha, ht⟩ := OrderedSet.mem_unionOf.1 ht
  have hwhole := h a ha
  cases a with
  | whole items => exact (Alternative.mem_extract_whole.1 ht).2
  | bracketed before inside after => cases hwhole

theorem Pattern.Unbracketed.mem_extraction_iff (h : p.Unbracketed) :
    t ∈ p.extraction ds l s ↔ t = s ∧ p.extraction ds l s ≠ .empty := by
  rw [OrderedSet.ne_empty_iff]
  constructor
  · intro ht
    exact ⟨h.eq_of_mem_extraction ht, t, ht⟩
  · intro hfound
    obtain ⟨hts, u, hu⟩ := hfound
    have hus : u = s := h.eq_of_mem_extraction hu
    rw [hts, ← hus]
    exact hus ▸ hu

theorem Layer.AgreeBut.inScope_iff {l' : Layer} (h : l.AgreeBut type l')
    (hscope : scope ≠ [] → type ≠ scope) : l'.InScope scope t ↔ l.InScope scope t := by
  unfold Layer.InScope
  split
  · rw [h.documents]
  · rename_i hne
    rw [h.instances_eq (hscope hne).symm]

namespace Labeling

theorem execute_extractions_spanType (hp : p.Defined ds)
    (hscope : scope = [] ∨ l.isDeclared scope = true) (htype : type ∉ p.types) :
    ∃ l', execute ds ⟨.spanType type, scope, .extractions p⟩ l = ⟨l', .ok ()⟩ ∧
      l.AgreeBut type l' ∧ ∀ t, t ∈ l'.instances type ↔
        t ∈ l.instances type ∨ ∃ s, l.InScope scope s ∧ t ∈ p.extraction ds l s := by
  obtain ⟨spans, hinput, hspans⟩ := input?_of_declared hscope
  have hrun := labelExtractions_of_unseenBy (e := .spanType type) hp htype l spans
  refine ⟨_, by simp only [execute, hinput, run, hrun]; rfl,
    Effect.agreeBut_applyAll_spanType.trans (.declareType type _), fun t => ?_⟩
  rw [Layer.instances_declareType, Effect.mem_instances_applyAll_spanType, ← OrderedSet.mem_def,
    Pattern.mem_extractionFrom, or_comm]
  simp only [hspans]

theorem execute_rejections_spanType (hp : p.Defined ds)
    (hscope : scope = [] ∨ l.isDeclared scope = true) (type : Text) :
    ∃ l', execute ds ⟨.spanType type, scope, .rejections p⟩ l = ⟨l', .ok ()⟩ ∧
      l.AgreeBut type l' ∧ ∀ t, t ∈ l'.instances type ↔
        t ∈ l.instances type ∨ l.InScope scope t ∧ p.extraction ds l t = .empty := by
  obtain ⟨spans, hinput, hspans⟩ := input?_of_declared hscope
  obtain ⟨l', hrun, hagree, hmem⟩ := labelRejections_spanType hp type l spans
  refine ⟨l'.declareType type, by simp only [execute, hinput, run, hrun]; rfl,
    hagree.trans (.declareType type l'), fun t => ?_⟩
  rw [Layer.instances_declareType, hmem, hspans, Pattern.extract_of_defined hp, Except.ok.injEq]

/-- The second statement looks at the layer that the first has made, where the scope has the same
spans and the pattern extracts the same from them. -/
theorem exists_divides {a b : Text} (hscope : scope = [] ∨ l.isDeclared scope = true)
    (hp : p.Defined ds) (hwhole : p.Unbracketed) (hne : a ≠ b) (ha : l.FreshFor scope p a)
    (hb : l.FreshFor scope p b) :
    ∃ m l', execute ds ⟨.spanType a, scope, .extractions p⟩ l = ⟨m, .ok ()⟩ ∧
      execute ds ⟨.spanType b, scope, .rejections p⟩ m = ⟨l', .ok ()⟩ ∧
      (∀ t, l'.InScope scope t ↔ l.InScope scope t) ∧ l'.Divides a b (l.InScope scope) := by
  obtain ⟨m, hfirst, hagree, hextracted⟩ := execute_extractions_spanType hp hscope ha.pattern
  have hsame : ∀ t, m.InScope scope t ↔ l.InScope scope t := fun t => hagree.inScope_iff ha.scope
  have hscope' : scope = [] ∨ m.isDeclared scope = true := by
    by_cases hdocuments : scope = []
    · exact .inl hdocuments
    · rw [hagree.isDeclared_eq (ha.scope hdocuments).symm]
      exact hscope
  obtain ⟨l', hsecond, hagree', hrejected⟩ := execute_rejections_spanType hp hscope' b
  have hmatched : ∀ t, t ∈ l'.instances a ↔
      l.InScope scope t ∧ p.extraction ds l t ≠ .empty := by
    intro t
    rw [hagree'.instances_eq hne, hextracted, ha.empty]
    constructor
    · intro h
      obtain ⟨u, hu, ht⟩ := h.resolve_left OrderedSet.not_mem_empty
      obtain ⟨rfl, hsome⟩ := hwhole.mem_extraction_iff.1 ht
      exact ⟨hu, hsome⟩
    · intro hmatch
      obtain ⟨ht, hsome⟩ := hmatch
      exact .inr ⟨t, ht, hwhole.mem_extraction_iff.2 ⟨rfl, hsome⟩⟩
  have hfiltered : ∀ t, t ∈ l'.instances b ↔
      l.InScope scope t ∧ p.extraction ds l t = .empty := by
    intro t
    rw [hrejected, hagree.instances_eq hne.symm, hb.empty, hsame, hagree.extraction_eq ha.pattern]
    exact or_iff_right OrderedSet.not_mem_empty
  refine ⟨m, l', hfirst, hsecond, fun t => ?_, ?_, ?_⟩
  · rw [hagree'.inScope_iff hb.scope, hsame]
  · intro t hmatch hreject
    exact ((hmatched t).1 hmatch).2 ((hfiltered t).1 hreject).2
  · intro t
    rw [hmatched, hfiltered, ← and_or_left]
    exact and_iff_left (ne_or_eq _ _)

end Labeling

end

namespace Program

/-- Without brackets, what a pattern extracts and what it rejects complement each other: labeling
the one and then the other succeeds if the scope and the dictionaries are there, and divides the
spans of the scope into two types that were fresh before. The scope keeps its spans, and no other
level changes. -/
theorem run_extractions_rejections (annotate : AnnotatorRunner) (s : Store) (level : Text)
    (l : Layer) (scope a b : Text) (p : Pattern) (hl : s.layer? level = some l)
    (hscope : scope = [] ∨ l.isDeclared scope = true) (hp : p.Defined s.dictionaries)
    (hwhole : p.Unbracketed) (hne : a ≠ b) (ha : l.FreshFor scope p a) (hb : l.FreshFor scope p b) :
    ∃ s' l', run annotate [.label ⟨.spanType a, scope, .extractions p⟩,
        .label ⟨.spanType b, scope, .rejections p⟩] s level = .success s' ∧
      s'.layer? level = some l' ∧ s.AgreeBut level s' ∧
      (∀ t, l'.InScope scope t ↔ l.InScope scope t) ∧ l'.Divides a b (l.InScope scope) := by
  obtain ⟨m, l', hfirst, hsecond, hsame, hdivides⟩ :=
    Labeling.exists_divides hscope hp hwhole hne ha hb
  have hm : (s.setLayer level m).layer level = m := Store.layer_of_layer? (by simp)
  have hdictionaries : (s.setLayer level m).dictionaries = s.dictionaries := rfl
  have hagree : s.AgreeBut level ((s.setLayer level m).setLayer level l') :=
    ⟨fun k hk => by simp [hk], rfl, rfl⟩
  refine ⟨(s.setLayer level m).setLayer level l', l', ?_, by simp, hagree, hsame, hdivides⟩
  simp only [run, Statement.execute, Store.layer_of_layer? hl, hfirst, hm, hdictionaries, hsecond]
  rfl

/-- The pattern reads a type and negates a dictionary; of three spans it extracts one. -/
theorem run_extractions_rejections_of_instances :
    let c : Corpus := [.ofText (ascii "d") (ascii "a b c")]
    let l := ((((Layer.ofCorpus c).addToType (ascii "S") ⟨0, 0, 1⟩).addToType (ascii "S")
      ⟨0, 0, 2⟩).addToType (ascii "S") ⟨0, 2, 3⟩).addToType (ascii "T") ⟨0, 1, 2⟩
    let s := ((Store.ofCorpus c).setLayer Store.baseLevel l).defineDictionary (ascii "w")
      ⟨.singleton (ascii "a"), false⟩
    let p : Pattern := ⟨[.whole [.run ⟨.not (.inDictionary (ascii "w")), 2, none, true, true⟩],
      .whole [.gap, .labeled (ascii "T") false]], []⟩
    (s.layer? Store.baseLevel = some l ∧ l.isDeclared (ascii "S") = true ∧
      p.Defined s.dictionaries ∧ p.Unbracketed ∧ l.FreshFor (ascii "S") p (ascii "A") ∧
      l.FreshFor (ascii "S") p (ascii "B")) ∧
    ∃ s' l', run (Environment.annotate default 0)
        [.label ⟨.spanType (ascii "A"), ascii "S", .extractions p⟩,
          .label ⟨.spanType (ascii "B"), ascii "S", .rejections p⟩] s Store.baseLevel =
        .success s' ∧
      s'.layer? Store.baseLevel = some l' ∧ s.AgreeBut Store.baseLevel s' ∧
      (∀ t, l'.InScope (ascii "S") t ↔ l.InScope (ascii "S") t) ∧
      l'.Divides (ascii "A") (ascii "B") (l.InScope (ascii "S")) := by
  intro c l s p
  have hl : s.layer? Store.baseLevel = some l := by decide
  have hscope : l.isDeclared (ascii "S") = true := by decide
  have hp : p.Defined s.dictionaries := by decide
  have hwhole : p.Unbracketed := by decide
  have ha : l.FreshFor (ascii "S") p (ascii "A") := ⟨by decide, fun _ => by decide, by decide⟩
  have hb : l.FreshFor (ascii "S") p (ascii "B") := ⟨by decide, fun _ => by decide, by decide⟩
  exact ⟨⟨hl, hscope, hp, hwhole, ha, hb⟩, run_extractions_rejections _ s _ l _ _ _ p hl
    (.inr hscope) hp hwhole (by decide) ha hb⟩

end Program

end SpanRules
