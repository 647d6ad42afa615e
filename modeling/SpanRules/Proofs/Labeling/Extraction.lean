import SpanRules.Evaluation
import SpanRules.Proofs.Labeling.Effect
import SpanRules.Proofs.Pattern.Visibility

/-! Statements that label what a pattern extracts. The labels of one span are there when the next is
looked at. Main statement: no extraction from the layer as it was is lost by that, and none is added
unless the pattern looks at the labels that the statement makes. -/
namespace SpanRules

/-- Whether a pattern cannot see the labels that an effect makes. No pattern sees the properties of
spans. -/
def Effect.UnseenBy (p : Pattern) : Effect → Prop
  | .spanType type => type ∉ p.types
  | .spanProperty _ _ => True
  | .tokenProperty key _ => key ∉ p.keys

/-- What a pattern extracts from some spans while the layer stays as it is. -/
def Pattern.extractionFrom (p : Pattern) (ds : Dictionaries) (l : Layer) (spans : List Span) :
    OrderedSet Span :=
  .unionOf spans (p.extraction ds l)

variable {p : Pattern} {ds : Dictionaries} {l : Layer} {e : Effect} {type : Text}

theorem Pattern.mem_extractionFrom {spans : List Span} {t : Span} :
    t ∈ p.extractionFrom ds l spans ↔ ∃ s ∈ spans, t ∈ p.extraction ds l s :=
  OrderedSet.mem_unionOf

/-- Instances of a type that no item of a pattern stands for change nothing of what it extracts. -/
theorem Layer.AgreeBut.extraction_eq {l' : Layer} (h : l.AgreeBut type l') (htype : type ∉ p.types)
    (s : Span) : p.extraction ds l' s = p.extraction ds l s := by
  have hkeys : ∀ t key, l'.tokenProperty? t key = l.tokenProperty? t key := by
    intro t key
    rw [Layer.tokenProperty?, h.tokenProperties, Layer.tokenProperty?]
  have htypes : ∀ u ∈ p.types, l'.instances u = l.instances u :=
    fun u hu => h.instances_eq fun heq => htype (heq ▸ hu)
  exact p.extraction_congr
    (.of_documents h.documents (fun key _ t => hkeys t key) fun u hu t ht => htypes u hu ▸ ht)
    (.of_documents h.documents.symm (fun key _ t => (hkeys t key).symm)
      fun u hu t ht => htypes u hu ▸ ht)

/-- Labels that a pattern cannot see change nothing of what it extracts. -/
theorem Effect.UnseenBy.extraction_applyAll (h : e.UnseenBy p) (found : List Span) (s : Span) :
    p.extraction ds (e.applyAll l found) s = p.extraction ds l s := by
  cases e with
  | spanType type => exact Effect.agreeBut_applyAll_spanType.extraction_eq h s
  | spanProperty key value =>
    obtain ⟨ps, hps⟩ := Effect.exists_applyAll_spanProperty key value l found
    rw [hps]
    exact p.extraction_congr (.of_documents rfl (fun _ _ _ => rfl) fun _ _ _ => id)
      (.of_documents rfl (fun _ _ _ => rfl) fun _ _ _ => id)
  | tokenProperty key value =>
    obtain ⟨ps, hps⟩ := Effect.exists_applyAll_tokenProperty key value l found
    have hkeys : ∀ k ∈ p.keys, ∀ t,
        ((Effect.tokenProperty key value).applyAll l found).tokenProperty? t k =
          l.tokenProperty? t k := by
      intro k hk t
      have hne : k ≠ key := fun heq => h (heq ▸ hk)
      rw [Effect.tokenProperty?_applyAll_tokenProperty, if_neg fun hmem => hne hmem.2]
    rw [hps] at hkeys ⊢
    exact p.extraction_congr (.of_documents rfl hkeys fun _ _ _ => id)
      (.of_documents rfl (fun k hk t => (hkeys k hk t).symm) fun _ _ _ => id)

namespace Labeling
variable {spans : List Span}

/-- If the pattern cannot see the labels, the result is that of finding all spans first and labeling
them then. -/
theorem labelExtractions_of_unseenBy (hp : p.Defined ds) (he : e.UnseenBy p) (l : Layer)
    (spans : List Span) :
    labelExtractions ds p e l spans =
      ⟨e.applyAll l (p.extractionFrom ds l spans).toList, .ok ()⟩ := by
  induction spans generalizing l with
  | nil => rfl
  | cons s spans ih =>
    simp only [labelExtractions, Pattern.extract_of_defined hp]
    have hsame : p.extraction ds (e.applyAll l (p.extraction ds l s).toList) =
        p.extraction ds l := funext fun u => he.extraction_applyAll _ u
    rw [ih, Pattern.extractionFrom, hsame, ← Effect.applyAll_append]
    congr 1
    apply Effect.applyAll_congr
    intro t
    rw [List.mem_append, ← OrderedSet.mem_def, ← OrderedSet.mem_def, ← OrderedSet.mem_def,
      Pattern.mem_extractionFrom, OrderedSet.mem_unionOf]
    simp [or_comm]

/-- Whether or not the pattern looks at the type, its instances only grow, and so does what is
extracted. -/
theorem labelExtractions_spanType (hp : p.Defined ds) (type : Text) (l : Layer)
    (spans : List Span) :
    ∃ l', labelExtractions ds p (.spanType type) l spans = ⟨l', .ok ()⟩ ∧ l.AgreeBut type l' ∧
      ∀ t, t ∈ l.instances type ∨ t ∈ p.extractionFrom ds l spans → t ∈ l'.instances type := by
  induction spans generalizing l with
  | nil => exact ⟨l, rfl, .refl type l, fun t ht => by simpa [Pattern.extractionFrom,
      OrderedSet.unionOf] using ht⟩
  | cons s spans ih =>
    simp only [labelExtractions, Pattern.extract_of_defined hp]
    generalize hnext : (Effect.spanType type).applyAll l (p.extraction ds l s).toList = next
    have hagree : l.AgreeBut type next := hnext ▸ Effect.agreeBut_applyAll_spanType
    have hmem : ∀ t, t ∈ next.instances type ↔ t ∈ p.extraction ds l s ∨ t ∈ l.instances type :=
      fun t => hnext ▸ Effect.mem_instances_applyAll_spanType
    have hshown : ∀ u, l.ShownIn p.keys p.types u next := by
      intro u
      refine .of_documents hagree.documents (fun key _ t => ?_) fun v _ t ht => ?_
      · rw [Layer.tokenProperty?, hagree.tokenProperties, Layer.tokenProperty?]
      · by_cases hv : v = type
        · subst hv
          exact (hmem t).2 (.inr ht)
        · rwa [hagree.instances_eq hv]
    obtain ⟨l', hl', hagree', hmem'⟩ := ih next
    refine ⟨l', hl', hagree.trans hagree', fun t ht => hmem' t ?_⟩
    rcases ht with ht | ht
    · exact .inl ((hmem t).2 (.inr ht))
    · obtain ⟨u, hu, htu⟩ := Pattern.mem_extractionFrom.1 ht
      rcases List.mem_cons.1 hu with rfl | hu
      · exact .inl ((hmem t).2 (.inl htu))
      · exact .inr (Pattern.mem_extractionFrom.2 ⟨u, hu, p.mem_extraction_mono (hshown u) htu⟩)

def executeOn (st : Labeling) (s : Store) (level : Text) (spans : List Span) : Outcome :=
  let done := run s.dictionaries st (s.layer level) spans
  match done.result with
  | .error f => ⟨s.setLayer level done.layer, [], .error f⟩
  | .ok () => .success (s.setLayer level (st.effect.declare done.layer))

theorem execute_eq_executeOn {st : Labeling} {s : Store} {level : Text}
    (h : input? (s.layer level) st.scope = .ok spans) (annotate : AnnotatorRunner) :
    (Statement.label st).execute annotate s level = (st.executeOn s level spans, level) := by
  simp only [Statement.execute, execute, h, executeOn]
  cases hdone : (run s.dictionaries st (s.layer level) spans).result <;> rfl

section
variable {s : Store} {level scope : Text}

/-- The store after a statement whose labels its pattern cannot see. -/
theorem executeOn_of_unseenBy (hl : s.layer? level = some l) (hp : p.Defined s.dictionaries)
    (he : e.UnseenBy p) : executeOn ⟨e, scope, .extractions p⟩ s level spans =
      .success (s.setLayer level
        (e.declare (e.applyAll l (p.extractionFrom s.dictionaries l spans).toList))) := by
  simp only [executeOn, run, Store.layer_of_layer? hl, labelExtractions_of_unseenBy hp he]

theorem executeOn_congr (hl : s.layer? level = some l) (hp : p.Defined s.dictionaries)
    (he : e.UnseenBy p) {spans' : List Span} (h : ∀ t, t ∈ spans ↔ t ∈ spans') :
    executeOn ⟨e, scope, .extractions p⟩ s level spans =
      executeOn ⟨e, scope, .extractions p⟩ s level spans' := by
  have hfound : p.extractionFrom s.dictionaries l spans =
      p.extractionFrom s.dictionaries l spans' :=
    OrderedSet.ext_mem fun t => by simp only [Pattern.mem_extractionFrom, h]
  rw [executeOn_of_unseenBy hl hp he, executeOn_of_unseenBy hl hp he, hfound]

theorem executeOn_spanType (hl : s.layer? level = some l) (hp : p.Defined s.dictionaries)
    (type : Text) : ∃ l', executeOn ⟨.spanType type, scope, .extractions p⟩ s level spans =
        .success (s.setLayer level l') ∧ l.AgreeBut type l' ∧ l'.isDeclared type = true ∧
      (∀ t, t ∈ l.instances type ∨ t ∈ p.extractionFrom s.dictionaries l spans →
        t ∈ l'.instances type) ∧
      (type ∉ p.types → ∀ t, t ∈ l'.instances type ↔
        t ∈ l.instances type ∨ t ∈ p.extractionFrom s.dictionaries l spans) := by
  obtain ⟨l', hl', hagree, hmem⟩ := labelExtractions_spanType hp type l spans
  refine ⟨l'.declareType type, ?_, hagree.trans (.declareType type l'), ?_, fun t ht => ?_,
    fun htype t => ?_⟩
  · simp only [executeOn, run, Store.layer_of_layer? hl, hl']
    rfl
  · exact Layer.isDeclared_iff.2 ⟨_, by rw [Layer.instances?_declareType, if_pos rfl]⟩
  · rw [Layer.instances_declareType]
    exact hmem t ht
  · have heq := labelExtractions_of_unseenBy (e := .spanType type) hp htype l spans
    rw [hl'] at heq
    rw [Layer.instances_declareType, (Labeled.mk.inj heq).1,
      Effect.mem_instances_applyAll_spanType, ← OrderedSet.mem_def, or_comm]

theorem executeOn_spanProperty (hl : s.layer? level = some l) (hp : p.Defined s.dictionaries)
    (key value : Text) :
    ∃ ps, executeOn ⟨.spanProperty key value, scope, .extractions p⟩ s level spans =
        .success (s.setLayer level { l with spanProperties := ps }) ∧
      ∀ t k, Layer.property? { l with spanProperties := ps } t k =
        if t ∈ p.extractionFrom s.dictionaries l spans ∧ k = key then some value
        else l.property? t k := by
  obtain ⟨ps, hps⟩ := Effect.exists_applyAll_spanProperty key value l
    (p.extractionFrom s.dictionaries l spans).toList
  refine ⟨ps, hps ▸ executeOn_of_unseenBy hl hp (e := .spanProperty key value) trivial,
    fun t k => ?_⟩
  rw [← hps, Effect.property?_applyAll_spanProperty]
  rfl

theorem executeOn_tokenProperty (hl : s.layer? level = some l) (hp : p.Defined s.dictionaries)
    {key : Text} (hkey : key ∉ p.keys) (value : Text) :
    ∃ ps, executeOn ⟨.tokenProperty key value, scope, .extractions p⟩ s level spans =
        .success (s.setLayer level { l with tokenProperties := ps }) ∧
      ∀ u k, Layer.tokenProperty? { l with tokenProperties := ps } u k =
        if (∃ t ∈ (p.extractionFrom s.dictionaries l spans).toList, u ∈ t.tokenRefs) ∧ k = key then
          some value
        else l.tokenProperty? u k := by
  obtain ⟨ps, hps⟩ := Effect.exists_applyAll_tokenProperty key value l
    (p.extractionFrom s.dictionaries l spans).toList
  refine ⟨ps, hps ▸ executeOn_of_unseenBy hl hp (e := .tokenProperty key value) hkey,
    fun u k => ?_⟩
  rw [← hps, Effect.tokenProperty?_applyAll_tokenProperty]

end

end Labeling

namespace Statement

/-- A statement that labels what a pattern extracts, carried out on any list of input spans, of
which that of its scope is one. It adds to a type all that the pattern extracts from the old layer,
and nothing else if no item of the pattern stands for the type. It sets a property on exactly the
spans that are extracted from the old layer, or on exactly their tokens if no test names the
property. Order and repetition of the input do not matter then. -/
theorem execute_label_extractions (annotate : AnnotatorRunner) (s : Store) (level : Text) (l : Layer)
    (scope : Text) (p : Pattern) (spans : List Span) (hl : s.layer? level = some l)
    (hp : p.Defined s.dictionaries) :
    let st : Effect → Labeling := fun e => ⟨e, scope, .extractions p⟩
    (Labeling.input? l scope = .ok spans → ∀ e,
      (label (st e)).execute annotate s level = ((st e).executeOn s level spans, level)) ∧
    ∃ found : OrderedSet Span,
      (∀ t, t ∈ found ↔ ∃ u ∈ spans, ∃ set, p.extract s.dictionaries l u = .ok set ∧ t ∈ set) ∧
      (∀ type, ∃ l', (st (.spanType type)).executeOn s level spans =
          .success (s.setLayer level l') ∧ l.AgreeBut type l' ∧ l'.isDeclared type = true ∧
        (∀ t, t ∈ l.instances type ∨ t ∈ found → t ∈ l'.instances type) ∧
        (type ∉ p.types → ∀ t, t ∈ l'.instances type ↔ t ∈ l.instances type ∨ t ∈ found)) ∧
      (∀ key value, ∃ ps, (st (.spanProperty key value)).executeOn s level spans =
          .success (s.setLayer level { l with spanProperties := ps }) ∧
        ∀ t k, Layer.property? { l with spanProperties := ps } t k =
          if t ∈ found ∧ k = key then some value else l.property? t k) ∧
      (∀ key value, key ∉ p.keys → ∃ ps, (st (.tokenProperty key value)).executeOn s level spans =
          .success (s.setLayer level { l with tokenProperties := ps }) ∧
        ∀ u k, Layer.tokenProperty? { l with tokenProperties := ps } u k =
          if (∃ t ∈ found.toList, u ∈ t.tokenRefs) ∧ k = key then some value
          else l.tokenProperty? u k) ∧
      ∀ e : Effect, e.UnseenBy p → ∀ spans', (∀ t, t ∈ spans ↔ t ∈ spans') →
        (st e).executeOn s level spans = (st e).executeOn s level spans' := by
  intro st
  refine ⟨fun hinput e => Labeling.execute_eq_executeOn (Store.layer_of_layer? hl ▸ hinput) annotate,
    p.extractionFrom s.dictionaries l spans, fun t => ?_, Labeling.executeOn_spanType hl hp,
    Labeling.executeOn_spanProperty hl hp,
    fun key value hkey => Labeling.executeOn_tokenProperty hl hp hkey value,
    fun e he spans' hspans => Labeling.executeOn_congr hl hp he hspans⟩
  simp [Pattern.mem_extractionFrom, Pattern.extract_of_defined hp]

/-- The second span is found because the first was labeled before, so that the statement adds more
than the pattern extracts from the old layer; the third is a repetition. -/
theorem execute_label_extractions_of_own_type :
    let l := Layer.ofCorpus [.ofText (ascii "d") (ascii "Paris is")]
    let s := Store.ofCorpus l.documents
    let p : Pattern := ⟨[.bracketed [] [.run ⟨.equals (ascii "Paris"), 1, some 1, false, false⟩] [],
      .bracketed [] [.labeled (ascii "s") false, .run ⟨.any, 1, some 1, false, false⟩] []], []⟩
    let spans : List Span := [⟨0, 0, 1⟩, ⟨0, 0, 2⟩, ⟨0, 0, 1⟩]
    let st : Effect → Labeling := fun e => ⟨e, ascii "pre", .extractions p⟩
    s.layer? Store.baseLevel = some l ∧ p.Defined s.dictionaries ∧
    ∃ found : OrderedSet Span, found.toList = [⟨0, 0, 1⟩] ∧
      (∀ t, t ∈ found ↔ ∃ u ∈ spans, ∃ set, p.extract s.dictionaries l u = .ok set ∧ t ∈ set) ∧
      (∃ l', (st (.spanType (ascii "s"))).executeOn s Store.baseLevel spans =
          .success (s.setLayer Store.baseLevel l') ∧
        (l'.instances (ascii "s")).toList = [⟨0, 0, 1⟩, ⟨0, 0, 2⟩] ∧
        ∀ t, t ∈ l.instances (ascii "s") ∨ t ∈ found → t ∈ l'.instances (ascii "s")) ∧
      ∀ e : Effect, e.UnseenBy p → (st e).executeOn s Store.baseLevel spans =
        (st e).executeOn s Store.baseLevel [⟨0, 0, 2⟩, ⟨0, 0, 1⟩] := by
  intro l s p spans st
  have hl : s.layer? Store.baseLevel = some l := by decide
  have hp : p.Defined s.dictionaries := by decide
  obtain ⟨-, found, hfound, htype, -, -, horder⟩ :=
    execute_label_extractions (Environment.annotate default 0) s _ l (ascii "pre") p spans hl hp
  obtain ⟨l', hl', -, -, hmem, -⟩ := htype (ascii "s")
  have hset : found = .singleton ⟨0, 0, 1⟩ := by
    apply OrderedSet.ext_mem
    intro t
    have hextract : ∀ u, p.extract s.dictionaries l u = .ok (p.extraction s.dictionaries l u) :=
      fun u => Pattern.extract_of_defined hp
    have h1 : p.extraction s.dictionaries l ⟨0, 0, 1⟩ = .singleton ⟨0, 0, 1⟩ := by decide
    have h2 : p.extraction s.dictionaries l ⟨0, 0, 2⟩ = .empty := by decide
    rw [hfound]
    simp [spans, hextract, h1, h2]
  have hown : ((((st (.spanType (ascii "s"))).executeOn s Store.baseLevel spans).store.layer
      Store.baseLevel).instances (ascii "s")).toList = [⟨0, 0, 1⟩, ⟨0, 0, 2⟩] := by decide +kernel
  have hlayer : (s.setLayer Store.baseLevel l').layer Store.baseLevel = l' :=
    Store.layer_of_layer? (by simp)
  rw [hl', Outcome.success, hlayer] at hown
  refine ⟨hl, hp, found, by rw [hset]; rfl, hfound, ⟨l', hl', hown, hmem⟩, fun e he =>
    horder e he _ fun t => ?_⟩
  simp only [spans, List.mem_cons, List.not_mem_nil, or_false]
  tauto

end Statement

end SpanRules
