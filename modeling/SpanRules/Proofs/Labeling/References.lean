import SpanRules.Proofs.Labeling.Rejection

/-! References of labeling statements that lead nowhere: to a type that is not declared, or to a
dictionary that is not defined. The dictionaries of a pattern are looked up before it is looked for
in a span, and whether one is missing does not depend on the span. Main statement: a labeling
statement fails exactly if its scope is not declared, or if there is a span to look at and some test
of its pattern, however deeply nested, uses a dictionary that is not defined. -/
namespace SpanRules

/-- Whether a test uses a dictionary, itself or in the tests that it is made of. -/
inductive Test.Uses (name : Text) : Test → Prop
  | word : Uses name (.inDictionary name)
  | lower : Uses name (.lowerInDictionary name)
  | not {t : Test} : Uses name t → Uses name (.not t)
  | left {t u : Test} : Uses name t → Uses name (.both t u)
  | right {t u : Test} : Uses name u → Uses name (.both t u)

theorem Test.mem_dictionaries_iff {name : Text} {t : Test} :
    name ∈ t.dictionaries ↔ t.Uses name := by
  constructor
  · intro h
    induction t with
    | inDictionary n =>
      rw [List.mem_singleton.1 h]
      exact .word
    | lowerInDictionary n =>
      rw [List.mem_singleton.1 h]
      exact .lower
    | not t ih => exact .not (ih h)
    | both t u iht ihu =>
      rcases List.mem_append.1 h with ht | hu
      · exact .left (iht ht)
      · exact .right (ihu hu)
    | any | equals | equalsLower | propertyIs | hasProperty => cases h
  · intro h
    induction h with
    | word | lower => exact List.mem_singleton_self name
    | not _ ih => exact ih
    | left _ ih => exact List.mem_append_left _ ih
    | right _ ih => exact List.mem_append_right _ ih

namespace Pattern
variable {p : Pattern} {ds : Dictionaries} {l : Layer} {s : Span} {name : Text} {f : Failure}

def Uses (p : Pattern) (name : Text) : Prop :=
  ∃ a ∈ p.alternatives, ∃ r, .run r ∈ a.items ∧ r.test.Uses name

def Dangles (p : Pattern) (ds : Dictionaries) : Prop :=
  ∃ name, p.Uses name ∧ OrderedMap.contains ds name = false

/-- What it fails with to look for a pattern, whatever the layer and the span are. -/
def failure? (p : Pattern) (ds : Dictionaries) : Option Failure :=
  (p.undefinedDictionary? ds).map .undefinedDictionary

theorem mem_dictionaries_iff : name ∈ p.dictionaries ↔ p.Uses name := by
  constructor
  · intro h
    obtain ⟨i, hi, hname⟩ := List.mem_flatMap.1 h
    obtain ⟨a, ha, hi⟩ := List.mem_flatMap.1 hi
    cases i with
    | run r => exact ⟨a, ha, r, hi, Test.mem_dictionaries_iff.1 hname⟩
    | gap | labeled => cases hname
  · intro huses
    obtain ⟨a, ha, r, hr, hname⟩ := huses
    have hi : Item.run r ∈ p.items := List.mem_flatMap.2 ⟨a, ha, hr⟩
    exact List.mem_flatMap.2 ⟨.run r, hi, Test.mem_dictionaries_iff.2 hname⟩

theorem undefined_of_failure? (h : p.failure? ds = some f) :
    ∃ name, f = .undefinedDictionary name ∧ p.Uses name ∧
      OrderedMap.contains ds name = false := by
  obtain ⟨name, hname, rfl⟩ := Option.map_eq_some_iff.1 h
  have hmem : name ∈ p.dictionaries := List.mem_of_find?_eq_some hname
  have hundefined : OrderedMap.contains ds name = false := by simpa using List.find?_some hname
  exact ⟨name, rfl, mem_dictionaries_iff.1 hmem, hundefined⟩

/-- A pattern that dangles fails, wherever in it the dictionary is used. -/
theorem dangles_iff : p.Dangles ds ↔ ∃ f, p.failure? ds = some f := by
  constructor
  · intro hdangles
    obtain ⟨name, hname, hundefined⟩ := hdangles
    have hsome : (p.undefinedDictionary? ds).isSome = true :=
      List.find?_isSome.2 ⟨name, mem_dictionaries_iff.2 hname, by simp [hundefined]⟩
    obtain ⟨first, hfirst⟩ := Option.isSome_iff_exists.1 hsome
    exact ⟨.undefinedDictionary first, by rw [failure?, hfirst, Option.map_some]⟩
  · intro hfails
    obtain ⟨f, hf⟩ := hfails
    obtain ⟨name, -, hname, hundefined⟩ := undefined_of_failure? hf
    exact ⟨name, hname, hundefined⟩

theorem extract_eq_error_iff : p.extract ds l s = .error f ↔ p.failure? ds = some f := by
  unfold extract failure?
  cases p.undefinedDictionary? ds <;> simp

theorem failure?_of_extract {found : OrderedSet Span} (h : p.extract ds l s = .ok found) :
    p.failure? ds = none := by
  unfold extract at h
  cases hname : p.undefinedDictionary? ds with
  | none => rw [failure?, hname, Option.map_none]
  | some name =>
    rw [hname] at h
    cases h

end Pattern

def Generator.pattern? : Generator → Option Pattern
  | .extractions p | .rejections p => some p
  | .phrases _ => none

theorem Generator.pattern?_eq_some_iff {g : Generator} {p : Pattern} :
    g.pattern? = some p ↔ g = .extractions p ∨ g = .rejections p := by
  unfold pattern?
  cases g <;> simp

namespace Labeling
variable {ds : Dictionaries} {p : Pattern} {l : Layer} {spans : List Span} {f : Failure}

/-- What a labeling statement refers to and does not find. -/
inductive Dangles (ds : Dictionaries) (l : Layer) (st : Labeling) : Failure → Prop
  | scope : st.scope ≠ [] → l.isDeclared st.scope = false → Dangles ds l st (.noScopeType st.scope)
  | dictionary {p : Pattern} {t : Span} {f : Failure} : st.generator.pattern? = some p →
      l.InScope st.scope t → p.failure? ds = some f → Dangles ds l st f

/-- A dictionary that is missing is missing at the first span and at every other one. -/
theorem result_labelExtractions_eq_error_iff {e : Effect} :
    (labelExtractions ds p e l spans).result = .error f ↔
      spans ≠ [] ∧ p.failure? ds = some f := by
  induction spans generalizing l with
  | nil => simp [labelExtractions]
  | cons s spans ih =>
    simp only [labelExtractions]
    cases hextract : p.extract ds l s with
    | error g => simp [Pattern.extract_eq_error_iff.1 hextract]
    | ok found => simp [ih, Pattern.failure?_of_extract hextract]

theorem rejected?_eq_error_iff {found : OrderedSet Span} :
    rejected? ds p l found spans = .error f ↔ spans ≠ [] ∧ p.failure? ds = some f := by
  induction spans generalizing found with
  | nil => simp [rejected?]
  | cons s spans ih =>
    simp only [rejected?]
    cases hextract : p.extract ds l s with
    | error g => simp [Pattern.extract_eq_error_iff.1 hextract]
    | ok found => simp [ih, Pattern.failure?_of_extract hextract]

theorem result_run_eq_error_iff {st : Labeling} : (run ds st l spans).result = .error f ↔
    spans ≠ [] ∧ ∃ p, st.generator.pattern? = some p ∧ p.failure? ds = some f := by
  unfold run Generator.pattern?
  cases st.generator with
  | extractions p => simp [result_labelExtractions_eq_error_iff]
  | rejections p =>
    have hrejected : rejected? ds p l .empty spans = .error f ↔
        spans ≠ [] ∧ p.failure? ds = some f := rejected?_eq_error_iff
    simp only [labelRejections]
    cases h : rejected? ds p l .empty spans with
    | error g => simpa [h] using hrejected
    | ok found => simpa [h] using hrejected
  | phrases entries => simp [labelPhrases]

theorem input?_eq_error_iff {scope : Text} : input? l scope = .error f ↔
    scope ≠ [] ∧ l.isDeclared scope = false ∧ f = .noScopeType scope := by
  unfold input?
  split
  · rename_i hdocuments
    simp [hdocuments]
  · rename_i hscope
    split
    · rename_i spans hspans
      have hdeclared : l.isDeclared scope = true := Layer.isDeclared_iff.2 ⟨spans, hspans⟩
      simp [hdeclared]
    · rename_i hnone
      have hundeclared : l.isDeclared scope = false := by
        rw [Bool.eq_false_iff, Ne, Layer.isDeclared_iff, hnone]
        simp
      simp [hscope, hundeclared, eq_comm]

theorem declared_of_input? {scope : Text} (h : input? l scope = .ok spans) :
    scope = [] ∨ l.isDeclared scope = true := by
  by_cases hne : scope = []
  · exact .inl hne
  · cases hdeclared : l.isDeclared scope with
    | true => exact .inr rfl
    | false =>
      have hfails := input?_eq_error_iff.2 ⟨hne, hdeclared, rfl⟩
      rw [h] at hfails
      cases hfails

theorem ne_nil_iff_of_input? {scope : Text} (h : input? l scope = .ok spans) :
    spans ≠ [] ↔ ∃ t, l.InScope scope t := by
  obtain ⟨spans', hspans', hmem⟩ := input?_of_declared (declared_of_input? h)
  obtain rfl : spans = spans' := Except.ok.inj (h.symm.trans hspans')
  simp only [← hmem]
  constructor
  · intro hne
    exact List.exists_mem_of_ne_nil spans hne
  · intro hsome
    obtain ⟨t, ht⟩ := hsome
    exact List.ne_nil_of_mem ht

theorem result_execute_eq_error_iff {st : Labeling} :
    (execute ds st l).result = .error f ↔ st.Dangles ds l f := by
  unfold execute
  cases hinput : input? l st.scope with
  | error g =>
    obtain ⟨hne, hundeclared, rfl⟩ := input?_eq_error_iff.1 hinput
    constructor
    · intro h
      cases h
      exact .scope hne hundeclared
    · intro h
      cases h with
      | scope => rfl
      | dictionary _ ht _ =>
        rw [Layer.InScope, if_neg hne] at ht
        rw [Layer.isDeclared_of_mem_instances ht] at hundeclared
        cases hundeclared
  | ok spans =>
    have hdangles : st.Dangles ds l f ↔
        spans ≠ [] ∧ ∃ p, st.generator.pattern? = some p ∧ p.failure? ds = some f := by
      rw [ne_nil_iff_of_input? hinput]
      constructor
      · intro h
        cases h with
        | scope hne hundeclared =>
          have hdeclared := (declared_of_input? hinput).resolve_left hne
          rw [hundeclared] at hdeclared
          cases hdeclared
        | dictionary hp ht hf => exact ⟨⟨_, ht⟩, _, hp, hf⟩
      · intro h
        obtain ⟨⟨t, ht⟩, p, hp, hf⟩ := h
        exact .dictionary hp ht hf
    rw [hdangles, ← result_run_eq_error_iff]
    cases hdone : (run ds st l spans).result <;> simp [hdone]

end Labeling

namespace Statement

/-- A labeling statement fails exactly if it names a scope that the current layer does not declare,
or if it looks for a pattern, there is a span to look at, and some test in some alternative of the
pattern uses a dictionary that is not defined. Its failure is one of references then, and tells of
such a type or dictionary. -/
theorem execute_label_fails_iff (annotate : AnnotatorRunner) (s : Store) (level : Text)
    (st : Labeling) :
    let result := ((label st).execute annotate s level).1.result
    let l := s.layer level
    ((∃ f, result = .error f) ↔
      (st.scope ≠ [] ∧ l.isDeclared st.scope = false) ∨
      ∃ p, (st.generator = .extractions p ∨ st.generator = .rejections p) ∧
        (∃ t, l.InScope st.scope t) ∧ p.Dangles s.dictionaries) ∧
    ∀ f, result = .error f → f.status.code = Failure.referenceCode ∧
      (f = .noScopeType st.scope ∨ ∃ p name, st.generator.pattern? = some p ∧ p.Uses name ∧
        OrderedMap.contains s.dictionaries name = false ∧ f = .undefinedDictionary name) := by
  intro result l
  have hresult : ∀ f, result = .error f ↔ st.Dangles s.dictionaries l f :=
    fun f => Labeling.result_execute_eq_error_iff
  simp only [hresult]
  constructor
  · constructor
    · intro hfails
      obtain ⟨f, hf⟩ := hfails
      cases hf with
      | scope hne hundeclared => exact .inl ⟨hne, hundeclared⟩
      | dictionary hp ht hf =>
        exact .inr ⟨_, Generator.pattern?_eq_some_iff.1 hp, ⟨_, ht⟩, Pattern.dangles_iff.2 ⟨f, hf⟩⟩
    · intro h
      rcases h with ⟨hne, hundeclared⟩ | ⟨p, hp, ⟨t, ht⟩, hdangles⟩
      · exact ⟨_, .scope hne hundeclared⟩
      · obtain ⟨f, hf⟩ := Pattern.dangles_iff.1 hdangles
        exact ⟨f, .dictionary (Generator.pattern?_eq_some_iff.2 hp) ht hf⟩
  · intro f hf
    cases hf with
    | scope => exact ⟨rfl, .inl rfl⟩
    | dictionary hp _ hf =>
      obtain ⟨name, rfl, hname, hundefined⟩ := Pattern.undefined_of_failure? hf
      exact ⟨rfl, .inr ⟨_, name, hp, hname, hundefined, rfl⟩⟩

/-- A dictionary that only the second alternative uses, in a negated part of a test of two parts.
The statement fails on the type with an instance, and succeeds on the one without. -/
theorem execute_label_fails_iff_nested :
    let l := ((Layer.ofCorpus [.ofText (ascii "d") (ascii "a b")]).addToType (ascii "S")
      ⟨0, 0, 1⟩).declareType (ascii "E")
    let s := (Store.ofCorpus l.documents).setLayer Store.baseLevel l
    let test : Test := .both (.equals (ascii "a")) (.not (.lowerInDictionary (ascii "w")))
    let p : Pattern := ⟨[.whole [.gap], .bracketed [.gap] [.run ⟨test, 1, none, false, false⟩] []],
      []⟩
    let st : Text → Labeling := fun scope => ⟨.spanType (ascii "T"), scope, .rejections p⟩
    let execute : Text → Outcome := fun scope =>
      ((label (st scope)).execute (Environment.annotate default 0) s Store.baseLevel).1
    (∃ f, (execute (ascii "S")).result = .error f ∧ f.status.code = Failure.referenceCode) ∧
      (∃ f, (execute (ascii "U")).result = .error f ∧ f.status.code = Failure.referenceCode) ∧
      ¬ ∃ f, (execute (ascii "E")).result = .error f := by
  intro l s test p st execute
  have hlayer : s.layer Store.baseLevel = l := by decide
  have hdangles : p.Dangles s.dictionaries :=
    ⟨ascii "w", ⟨_, List.mem_cons_of_mem _ List.mem_cons_self, _,
      List.mem_cons_of_mem _ List.mem_cons_self, .right (.not .lower)⟩, rfl⟩
  have hspec := fun scope => execute_label_fails_iff (Environment.annotate default 0) s
    Store.baseLevel (st scope)
  refine ⟨?_, ?_, ?_⟩
  · obtain ⟨hfails, hcode⟩ := hspec (ascii "S")
    have hscope : l.InScope (ascii "S") ⟨0, 0, 1⟩ := by
      rw [Layer.InScope, if_neg (by decide)]
      decide
    obtain ⟨f, hf⟩ := hfails.2 (.inr ⟨p, .inr rfl, ⟨_, hlayer ▸ hscope⟩, hdangles⟩)
    exact ⟨f, hf, (hcode f hf).1⟩
  · obtain ⟨hfails, hcode⟩ := hspec (ascii "U")
    obtain ⟨f, hf⟩ := hfails.2 (.inl ⟨by decide, by decide⟩)
    exact ⟨f, hf, (hcode f hf).1⟩
  · intro hfails
    have hscope : l.instances (ascii "E") = .empty := by decide
    rcases (hspec (ascii "E")).1.1 hfails with ⟨-, hundeclared⟩ | ⟨-, -, ⟨t, ht⟩, -⟩
    · exact absurd hundeclared (by decide)
    · rw [hlayer, Layer.InScope, if_neg (by decide)] at ht
      exact OrderedSet.not_mem_empty (hscope ▸ ht)

end Statement

end SpanRules
