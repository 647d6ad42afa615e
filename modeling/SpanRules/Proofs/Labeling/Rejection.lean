import SpanRules.Evaluation
import SpanRules.Proofs.Layer.Labels
import SpanRules.Proofs.Pattern.Meaning

/-! Statements that label what a pattern rejects. The rejected spans are found before the first is
labeled. Main statement: such a statement adds to its type the spans of its scope from which the
pattern extracts nothing in the layer that was there before, and changes nothing else. -/
namespace SpanRules

/-- Whether a span belongs to a scope: all documents if its name is empty, or the instances of a
type. -/
def Layer.InScope (l : Layer) (scope : Text) (t : Span) : Prop :=
  if scope = [] then t ∈ l.documents.spans else t ∈ l.instances scope

namespace Labeling
variable {ds : Dictionaries} {p : Pattern} {l : Layer} {spans : List Span}

theorem input?_of_declared {scope : Text} (h : scope = [] ∨ l.isDeclared scope = true) :
    ∃ spans, input? l scope = .ok spans ∧ ∀ t, t ∈ spans ↔ l.InScope scope t := by
  unfold input? Layer.InScope
  by_cases hscope : scope = []
  · exact ⟨l.documents.spans, by simp [hscope], by simp [hscope]⟩
  · obtain ⟨set, hset⟩ := Layer.isDeclared_iff.1 (h.resolve_left hscope)
    exact ⟨set.toList, by simp [hscope, hset], by simp [hscope, Layer.instances, hset,
      OrderedSet.mem_def]⟩

theorem rejected?_cons {found : OrderedSet Span} {s : Span} :
    rejected? ds p l found (s :: spans) =
      match p.hasExtraction ds l s with
      | .error f => .error f
      | .ok has => rejected? ds p l (if has then found else found.insert s) spans := by
  simp only [rejected?, Pattern.hasExtraction]
  cases p.extract ds l s with
  | error f => rfl
  | ok set => cases hset : set.isEmpty <;> simp [Except.map, hset]

theorem rejected?_of_defined (h : p.Defined ds) (l : Layer) (spans : List Span)
    (found : OrderedSet Span) :
    ∃ set, rejected? ds p l found spans = .ok set ∧
      ∀ t, t ∈ set ↔ t ∈ found ∨ t ∈ spans ∧ p.extract ds l t = .ok .empty := by
  induction spans generalizing found with
  | nil => exact ⟨found, rfl, by simp⟩
  | cons s spans ih =>
    simp only [Pattern.extract_of_defined h] at ih ⊢
    rw [rejected?_cons, Pattern.hasExtraction_of_defined h]
    by_cases hs : p.extraction ds l s = .empty
    · rw [OrderedSet.isEmpty_iff.2 hs]
      obtain ⟨set, hset, hmem⟩ := ih (found.insert s)
      refine ⟨set, hset, fun t => ?_⟩
      rw [hmem, OrderedSet.mem_insert, List.mem_cons]
      by_cases ht : t = s
      · simp [ht, hs]
      · simp [ht]
    · rw [Bool.eq_false_iff.2 fun hempty => hs (OrderedSet.isEmpty_iff.1 hempty)]
      obtain ⟨set, hset, hmem⟩ := ih found
      refine ⟨set, hset, fun t => ?_⟩
      rw [hmem, List.mem_cons]
      by_cases ht : t = s
      · simp [ht, hs]
      · simp [ht]

/-- Order and repetition of the input do not matter, whatever the label is. -/
theorem labelRejections_congr (h : p.Defined ds) (e : Effect) {spans' : List Span}
    (hspans : ∀ t, t ∈ spans ↔ t ∈ spans') :
    labelRejections ds p e l spans = labelRejections ds p e l spans' := by
  obtain ⟨set, hset, hmem⟩ := rejected?_of_defined h l spans .empty
  obtain ⟨set', hset', hmem'⟩ := rejected?_of_defined h l spans' .empty
  have heq : set = set' := OrderedSet.ext_mem fun t => by rw [hmem, hmem', hspans]
  rw [labelRejections, labelRejections, hset, hset', heq]

theorem labelRejections_spanType (h : p.Defined ds) (type : Text) (l : Layer) (spans : List Span) :
    ∃ l', labelRejections ds p (.spanType type) l spans = ⟨l', .ok ()⟩ ∧ l.AgreeBut type l' ∧
      ∀ t, t ∈ l'.instances type ↔
        t ∈ l.instances type ∨ t ∈ spans ∧ p.extract ds l t = .ok .empty := by
  obtain ⟨set, hset, hmem⟩ := rejected?_of_defined h l spans .empty
  refine ⟨_, by rw [labelRejections, hset], Effect.agreeBut_applyAll_spanType, fun t => ?_⟩
  rw [Effect.mem_instances_applyAll_spanType, ← OrderedSet.mem_def, hmem]
  simp [or_comm]

end Labeling

namespace Statement

/-- A statement that labels rejected spans with a type succeeds if its scope and its dictionaries
are there. The type is declared then, and its instances are the old ones and the spans of the scope
from which the pattern extracts nothing in the old layer; all else stays, and neither the order of
the input nor repetitions in it matter. -/
theorem execute_label_rejections (annotate : AnnotatorRunner) (s : Store) (level : Text) (l : Layer)
    (type scope : Text) (p : Pattern) (hl : s.layer? level = some l)
    (hscope : scope = [] ∨ l.isDeclared scope = true) (hp : p.Defined s.dictionaries) :
    let st : Labeling := ⟨.spanType type, scope, .rejections p⟩
    ∃ s' l', (label st).execute annotate s level = (.success s', level) ∧
      s'.layer? level = some l' ∧ s.AgreeBut level s' ∧
      l.AgreeBut type l' ∧ l'.isDeclared type = true ∧
      (∀ t, t ∈ l'.instances type ↔ t ∈ l.instances type ∨
        l.InScope scope t ∧ p.extract s.dictionaries l t = .ok .empty) ∧
      ∀ spans spans', (∀ t, t ∈ spans ↔ t ∈ spans') →
        Labeling.run s.dictionaries st l spans = Labeling.run s.dictionaries st l spans' := by
  intro st
  obtain ⟨spans, hinput, hspans⟩ := Labeling.input?_of_declared hscope
  obtain ⟨l', hl', hagree, hmem⟩ := Labeling.labelRejections_spanType hp type l spans
  have hexec : st.execute s.dictionaries l = ⟨l'.declareType type, .ok ()⟩ := by
    simp only [Labeling.execute, st, hinput, Labeling.run, hl', Effect.declare]
  refine ⟨s.setLayer level (l'.declareType type), l'.declareType type, ?_, by simp,
    Store.agreeBut_setLayer, hagree.trans (.declareType type l'), ?_, fun t => ?_,
    fun _ _ h => Labeling.labelRejections_congr hp _ h⟩
  · simp only [execute, Store.layer_of_layer? hl, hexec, Outcome.success]
  · exact Layer.isDeclared_iff.2 ⟨_, by rw [Layer.instances?_declareType, if_pos rfl]⟩
  · rw [Layer.instances_declareType, hmem, hspans]

/-- The pattern reads the type that the statement extends. -/
theorem execute_label_rejections_of_own_type :
    let l := (((Layer.ofCorpus [.ofText (ascii "d") (ascii "a b")]).addToType (ascii "S")
      ⟨0, 0, 1⟩).addToType (ascii "S") ⟨0, 0, 2⟩).addToType (ascii "T") ⟨0, 0, 1⟩
    let s := (Store.ofCorpus l.documents).setLayer Store.baseLevel l
    let p : Pattern := ⟨[.whole [.labeled (ascii "T") false]], []⟩
    let st : Labeling := ⟨.spanType (ascii "T"), ascii "S", .rejections p⟩
    s.layer? Store.baseLevel = some l ∧ l.isDeclared (ascii "S") = true ∧ p.Defined s.dictionaries ∧
    ∃ s' l', (label st).execute (Environment.annotate default 0) s Store.baseLevel =
        (.success s', Store.baseLevel) ∧
      s'.layer? Store.baseLevel = some l' ∧ s.AgreeBut Store.baseLevel s' ∧
      l.AgreeBut (ascii "T") l' ∧ l'.isDeclared (ascii "T") = true ∧
      (∀ t, t ∈ l'.instances (ascii "T") ↔ t ∈ l.instances (ascii "T") ∨
        l.InScope (ascii "S") t ∧ p.extract s.dictionaries l t = .ok .empty) ∧
      ∀ spans spans', (∀ t, t ∈ spans ↔ t ∈ spans') →
        Labeling.run s.dictionaries st l spans = Labeling.run s.dictionaries st l spans' := by
  intro l s p st
  have hl : s.layer? Store.baseLevel = some l := by decide
  have hscope : l.isDeclared (ascii "S") = true := by decide
  have hp : p.Defined s.dictionaries := by decide
  exact ⟨hl, hscope, hp, execute_label_rejections _ s _ l _ _ p hl (.inr hscope) hp⟩

end Statement

end SpanRules
