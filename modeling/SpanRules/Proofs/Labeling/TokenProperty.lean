import SpanRules.Proofs.Labeling.Extraction
import SpanRules.Proofs.Labeling.References
import SpanRules.Proofs.Phrase.Search

/-! Statements that set a property of tokens. What their generator gives is a relation between its
input and a list of spans: a pattern sees the tokens that were labeled for the spans before, and a
search for phrases sees the words only. Main statement: where such a statement succeeds, a token has
the value exactly if one of these spans covers it or it had the value before, and nothing else is
different. -/
namespace SpanRules

def Span.Covers (t : Span) (u : TokenRef) : Prop :=
  t.document = u.document ∧ t.start ≤ u.index ∧ u.index < t.stop

instance (t : Span) (u : TokenRef) : Decidable (t.Covers u) := inferInstanceAs (Decidable (_ ∧ _))

theorem Span.mem_tokenRefs_iff {t : Span} {u : TokenRef} : u ∈ t.tokenRefs ↔ t.Covers u := by
  obtain ⟨d, i⟩ := u
  simp only [tokenRefs, List.mem_map, List.mem_range'_1, TokenRef.mk.injEq, Covers, length]
  constructor
  · rintro ⟨j, hj, hd, rfl⟩
    exact ⟨hd, by omega⟩
  · intro h
    obtain ⟨hd, hstart, hstop⟩ := h
    exact ⟨i, by omega, hd, rfl⟩

namespace Layer

/-- The tokens of some spans get a value, and nothing else becomes different. -/
structure SetsTokens (key value : Text) (spans : List Span) (l l' : Layer) : Prop where
  documents : l'.documents = l.documents
  types : l'.types = l.types
  spanProperties : l'.spanProperties = l.spanProperties
  tokenProperty?_eq : ∀ u k, l'.tokenProperty? u k =
    if k = key ∧ ∃ t ∈ spans, t.Covers u then some value else l.tokenProperty? u k

/-- Two layers in which a pattern sees the same. -/
structure Alike (l l' : Layer) : Prop where
  documents : l'.documents = l.documents
  types : l'.types = l.types
  tokenProperty?_eq : ∀ u k, l'.tokenProperty? u k = l.tokenProperty? u k

variable {key value : Text} {spans spans' : List Span} {l l' m m' : Layer}

theorem Alike.refl (l : Layer) : l.Alike l := ⟨rfl, rfl, fun _ _ => rfl⟩

theorem Alike.extract_eq (h : l.Alike l') (p : Pattern) (ds : Dictionaries) (s : Span) :
    p.extract ds l' s = p.extract ds l s := by
  have hinstances : ∀ type, l'.instances type = l.instances type := by
    intro type
    rw [instances, instances?, h.types, instances, instances?]
  have hsame : p.extraction ds l' s = p.extraction ds l s := p.extraction_congr
    (.of_documents h.documents (fun k _ u => h.tokenProperty?_eq u k)
      fun type _ _ ht => hinstances type ▸ ht)
    (.of_documents h.documents.symm (fun k _ u => (h.tokenProperty?_eq u k).symm)
      fun type _ _ ht => hinstances type ▸ ht)
  unfold Pattern.extract
  rw [hsame]

/-- Layers stay alike where the same tokens get the same value. -/
theorem Alike.of_setsTokens (h : l.Alike l') (hm : l.SetsTokens key value spans m)
    (hm' : l'.SetsTokens key value spans m') : m.Alike m' := by
  refine ⟨?_, ?_, fun u k => ?_⟩
  · rw [hm'.documents, h.documents, hm.documents]
  · rw [hm'.types, h.types, hm.types]
  · rw [hm'.tokenProperty?_eq, h.tokenProperty?_eq, hm.tokenProperty?_eq]

theorem setsTokens_nil (key value : Text) (l : Layer) : l.SetsTokens key value [] l :=
  ⟨rfl, rfl, rfl, fun u k => by simp⟩

theorem SetsTokens.append (h : l.SetsTokens key value spans m)
    (h' : m.SetsTokens key value spans' l') : l.SetsTokens key value (spans ++ spans') l' := by
  refine ⟨h'.documents.trans h.documents, h'.types.trans h.types,
    h'.spanProperties.trans h.spanProperties, fun u k => ?_⟩
  rw [h'.tokenProperty?_eq, h.tokenProperty?_eq]
  by_cases hk : k = key
  · by_cases hlast : ∃ t ∈ spans', t.Covers u <;> simp [hk, hlast, or_and_right, exists_or]
  · simp [hk]

theorem setsTokens_applyAll (key value : Text) (l : Layer) (spans : List Span) :
    l.SetsTokens key value spans ((Effect.tokenProperty key value).applyAll l spans) := by
  have hvalue : ∀ u k, ((Effect.tokenProperty key value).applyAll l spans).tokenProperty? u k =
      if k = key ∧ ∃ t ∈ spans, t.Covers u then some value else l.tokenProperty? u k := by
    intro u k
    rw [Effect.tokenProperty?_applyAll_tokenProperty]
    simp only [Span.mem_tokenRefs_iff, and_comm]
  obtain ⟨ps, hps⟩ := Effect.exists_applyAll_tokenProperty key value l spans
  rw [hps] at hvalue ⊢
  exact ⟨rfl, rfl, rfl, hvalue⟩

end Layer

/-- What a generator gives for some input to a statement that sets a property of tokens, one span
after the other. What a pattern extracts from a span counts before the next is looked at. What it
rejects is found before anything is set, and comes in the order of spans. -/
inductive Generator.Emits (ds : Dictionaries) (key value : Text) :
    Generator → Layer → List Span → List Span → Prop
  | finished {p l} : Emits ds key value (.extractions p) l [] []
  | extracted {p l m s ss found emitted} (extracts : p.extract ds l s = .ok found)
      (sets : l.SetsTokens key value found.toList m)
      (rest : Emits ds key value (.extractions p) m ss emitted) :
      Emits ds key value (.extractions p) l (s :: ss) (found.toList ++ emitted)
  | rejected {p l spans emitted} (sorted : emitted.Pairwise (· < ·))
      (mem : ∀ t, t ∈ emitted ↔ t ∈ spans ∧ p.extract ds l t = .ok .empty) :
      Emits ds key value (.rejections p) l spans emitted
  | occurring {entries l} (spans : List Span) : Emits ds key value (.phrases entries) l spans
      (spans.flatMap fun s => (PhraseEntry.collect entries).lookup (l.document s.document) s)

section
variable {ds : Dictionaries} {key value : Text} {g : Generator} {p : Pattern} {l l' : Layer}
  {spans emitted emitted' : List Span}

/-- A generator gives the same for layers that are alike, and one list of spans only. -/
theorem Generator.Emits.unique (h : g.Emits ds key value l spans emitted)
    (h' : g.Emits ds key value l' spans emitted') (halike : l.Alike l') : emitted' = emitted := by
  induction h generalizing l' emitted' with
  | finished =>
    cases h'
    rfl
  | extracted extracts sets rest ih =>
    cases h' with
    | extracted extracts' sets' rest' =>
      obtain rfl := Except.ok.inj
        (extracts'.symm.trans ((halike.extract_eq _ _ _).trans extracts))
      rw [ih rest' (halike.of_setsTokens sets sets')]
  | @rejected p l spans emitted sorted mem =>
    cases h' with
    | rejected sorted' mem' =>
      have hset : (⟨emitted', sorted'⟩ : OrderedSet Span) = ⟨emitted, sorted⟩ := by
        apply OrderedSet.ext_mem
        intro t
        simp only [OrderedSet.mem_def, mem, mem', halike.extract_eq]
      exact congrArg OrderedSet.toList hset
  | @occurring entries l spans =>
    cases h' with
    | occurring =>
      unfold Layer.document
      rw [halike.documents]

theorem Pattern.defined_of_failure? (h : p.failure? ds = none) : p.Defined ds := by
  intro name hname
  have hnone := List.find?_eq_none.1 (Option.map_eq_none_iff.1 h) name hname
  simpa using hnone

namespace Labeling

/-- The layer in the end is the old one with the tokens of the extracted spans set, although each
span is looked at in another layer. -/
theorem exists_emits_of_labelExtractions
    (h : (labelExtractions ds p (.tokenProperty key value) l spans).result = .ok ()) :
    ∃ emitted, (Generator.extractions p).Emits ds key value l spans emitted ∧
      l.SetsTokens key value emitted
        (labelExtractions ds p (.tokenProperty key value) l spans).layer := by
  induction spans generalizing l with
  | nil => exact ⟨[], .finished, l.setsTokens_nil key value⟩
  | cons s spans ih =>
    simp only [labelExtractions] at h ⊢
    cases hextract : p.extract ds l s with
    | error f =>
      rw [hextract] at h
      cases h
    | ok found =>
      simp only [hextract] at h ⊢
      obtain ⟨emitted, hemits, hsets⟩ := ih h
      have hfirst := l.setsTokens_applyAll key value found.toList
      exact ⟨found.toList ++ emitted, .extracted hextract hfirst hemits, hfirst.append hsets⟩

theorem mem_rejected?_iff {set : OrderedSet Span}
    (h : rejected? ds p l .empty spans = .ok set) (t : Span) :
    t ∈ set ↔ t ∈ spans ∧ p.extract ds l t = .ok .empty := by
  cases spans with
  | nil =>
    cases h
    simp
  | cons s ss =>
    have hnone : p.failure? ds = none := by
      rw [Option.eq_none_iff_forall_ne_some]
      intro f hf
      have hfails : rejected? ds p l .empty (s :: ss) = .error f :=
        rejected?_eq_error_iff.2 ⟨List.cons_ne_nil s ss, hf⟩
      rw [h] at hfails
      cases hfails
    obtain ⟨set', hset', hmem⟩ :=
      rejected?_of_defined (Pattern.defined_of_failure? hnone) l (s :: ss) .empty
    obtain rfl := Except.ok.inj (h.symm.trans hset')
    rw [hmem]
    exact or_iff_right OrderedSet.not_mem_empty

theorem exists_emits_of_labelRejections
    (h : (labelRejections ds p (.tokenProperty key value) l spans).result = .ok ()) :
    ∃ emitted, (Generator.rejections p).Emits ds key value l spans emitted ∧
      l.SetsTokens key value emitted
        (labelRejections ds p (.tokenProperty key value) l spans).layer := by
  unfold labelRejections at h ⊢
  cases hset : rejected? ds p l .empty spans with
  | error f =>
    rw [hset] at h
    cases h
  | ok set =>
    exact ⟨set.toList, .rejected set.sorted (mem_rejected?_iff hset),
      l.setsTokens_applyAll key value set.toList⟩

/-- Where a run succeeds, exactly the tokens of the spans that the generator gave are set. -/
theorem exists_emits_of_run {scope : Text}
    (h : (run ds ⟨.tokenProperty key value, scope, g⟩ l spans).result = .ok ()) :
    ∃ emitted, g.Emits ds key value l spans emitted ∧
      l.SetsTokens key value emitted
        (run ds ⟨.tokenProperty key value, scope, g⟩ l spans).layer := by
  unfold run at h ⊢
  cases g with
  | extractions p => exact exists_emits_of_labelExtractions h
  | rejections p => exact exists_emits_of_labelRejections h
  | phrases entries => exact ⟨_, .occurring spans, l.setsTokens_applyAll key value _⟩

theorem execute_tokenProperty {scope : Text}
    (h : (execute ds ⟨.tokenProperty key value, scope, g⟩ l).result = .ok ()) :
    ∃ input emitted l', input? l scope = .ok input ∧ g.Emits ds key value l input emitted ∧
      l.SetsTokens key value emitted l' ∧
      execute ds ⟨.tokenProperty key value, scope, g⟩ l = ⟨l', .ok ()⟩ := by
  unfold execute at h ⊢
  cases hinput : input? l scope with
  | error f =>
    simp only [hinput] at h
    cases h
  | ok input =>
    simp only [hinput] at h ⊢
    cases hdone : (run ds ⟨.tokenProperty key value, scope, g⟩ l input).result with
    | error f =>
      rw [hdone] at h
      cases h
    | ok u =>
      obtain ⟨emitted, hemits, hsets⟩ := exists_emits_of_run hdone
      exact ⟨input, emitted, _, rfl, hemits, hsets, rfl⟩

end Labeling

/-- The spans that are given for phrases are those within the input that have the words of one. -/
theorem Generator.Emits.mem_iff_occurs {entries : List PhraseEntry} {t : Span}
    (h : (Generator.phrases entries).Emits ds key value l spans emitted) :
    t ∈ emitted ↔ ∃ s ∈ spans, s.contains t = true ∧ t.start < t.stop ∧
      t.stop ≤ (l.document t.document).tokens.length ∧
        ∃ e ∈ entries.flatMap PhraseEntry.phrases,
          PhraseSet.wordsOf e.2 = ((l.document t.document).spanWords t).map Text.lower := by
  cases h with
  | occurring =>
    rw [List.mem_flatMap]
    refine exists_congr fun s => and_congr_right fun _ => ?_
    rw [PhraseEntry.collect, PhraseSet.mem_lookup_ofList_iff]
    refine and_congr_right fun hcontains => ?_
    have hdocument : s.document = t.document := by
      simp only [Span.contains, Bool.and_eq_true, beq_iff_eq] at hcontains
      exact hcontains.1.1
    rw [hdocument]

end

namespace Statement

/-- A statement that sets a property of tokens and succeeds. Its generator gives one list of spans
for the input, which are those of the scope. The tokens that these spans cover have the value
afterwards, and nothing else is different: no other token or key, no span, type or level. For
phrases the spans are those within the input that have the words of some phrase, up to case. -/
theorem execute_label_tokenProperty (annotate : AnnotatorRunner) (s : Store)
    (level scope key value : Text) (g : Generator)
    (hok : ((label ⟨.tokenProperty key value, scope, g⟩).execute annotate s level).1.result =
      .ok ()) :
    let l := s.layer level
    ∃ input emitted s' l', Labeling.input? l scope = .ok input ∧
      (∀ t, t ∈ input ↔ l.InScope scope t) ∧
      (∀ spans, g.Emits s.dictionaries key value l input spans ↔ spans = emitted) ∧
      (label ⟨.tokenProperty key value, scope, g⟩).execute annotate s level =
        (.success s', level) ∧
      s'.layer? level = some l' ∧ s.AgreeBut level s' ∧ l.SetsTokens key value emitted l' ∧
      ∀ entries, g = .phrases entries → ∀ t, t ∈ emitted ↔
        ∃ u, l.InScope scope u ∧ u.contains t = true ∧ t.start < t.stop ∧
          t.stop ≤ (l.document t.document).tokens.length ∧
            ∃ e ∈ entries.flatMap PhraseEntry.phrases,
              PhraseSet.wordsOf e.2 = ((l.document t.document).spanWords t).map Text.lower := by
  intro l
  obtain ⟨input, emitted, l', hinput, hemits, hsets, hdone⟩ := Labeling.execute_tokenProperty hok
  have hscope : ∀ t, t ∈ input ↔ l.InScope scope t := by
    obtain ⟨spans, hspans, hmem⟩ := Labeling.input?_of_declared (Labeling.declared_of_input? hinput)
    obtain rfl := Except.ok.inj (hinput.symm.trans hspans)
    exact hmem
  refine ⟨input, emitted, s.setLayer level l', l', hinput, hscope, fun spans => ?_, ?_, by simp,
    Store.agreeBut_setLayer, hsets, ?_⟩
  · constructor
    · intro hspans
      exact hemits.unique hspans (.refl l)
    · intro heq
      exact heq ▸ hemits
  · simp only [execute, hdone, Outcome.success]
  · intro entries hg t
    subst hg
    rw [hemits.mem_iff_occurs]
    simp only [hscope]
    rfl

/-- The pattern looks for the property that the statement sets, so that one token after the other is
found. The second token had another value before, and a token of another document keeps it. A search
for phrases finds two words of the three. -/
theorem execute_label_tokenProperty_of_own_key :
    let k := ascii "k"
    let v := ascii "v"
    let c : Corpus := [.ofText (ascii "d") (ascii "a b c"), .ofText (ascii "e") (ascii "a")]
    let l := (((((Layer.ofCorpus c).addToType (ascii "S") ⟨0, 0, 1⟩).addToType (ascii "S")
      ⟨0, 0, 2⟩).addToType (ascii "S") ⟨0, 1, 3⟩).setTokenProperty ⟨0, 1⟩ k (ascii "w")
      ).setTokenProperty ⟨1, 0⟩ k (ascii "w")
    let s := (Store.ofCorpus c).setLayer Store.baseLevel l
    let p : Pattern := ⟨[.bracketed [] [.run ⟨.equals (ascii "a"), 1, some 1, false, false⟩] [],
      .bracketed [.run ⟨.propertyIs k v, 1, some 1, false, false⟩]
        [.run ⟨.any, 1, some 1, false, false⟩] []], []⟩
    let entries : List PhraseEntry := [.words 0 [ascii "B", ascii "c"]]
    let o := (label ⟨.tokenProperty k v, ascii "S", .extractions p⟩).execute
      (Environment.annotate default 0) s Store.baseLevel
    o.1.result = .ok () ∧ ∃ s' l', o = (.success s', Store.baseLevel) ∧
      s'.layer? Store.baseLevel = some l' ∧ s.AgreeBut Store.baseLevel s' ∧
      l.SetsTokens k v [⟨0, 0, 1⟩, ⟨0, 1, 2⟩, ⟨0, 2, 3⟩] l' ∧
      l'.tokenProperty? ⟨0, 1⟩ k = some v ∧ l'.tokenProperty? ⟨1, 0⟩ k = some (ascii "w") ∧
      ∃ spans, ⟨0, 1, 3⟩ ∈ spans ∧ ∀ found, (Generator.phrases entries).Emits s.dictionaries k v l
        l.documents.spans found ↔ found = spans := by
  intro k v c l s p entries o
  have hok : o.1.result = .ok () := by decide +kernel
  have hlayer : s.layer Store.baseLevel = l := by decide
  obtain ⟨input, emitted, s', l', hinput, -, hspans, hexec, hl', hagree, hsets, -⟩ :=
    execute_label_tokenProperty (Environment.annotate default 0) s Store.baseLevel (ascii "S") k v
      (.extractions p) hok
  rw [hlayer] at hinput hspans hsets
  obtain rfl : [⟨0, 0, 1⟩, ⟨0, 0, 2⟩, ⟨0, 1, 3⟩] = input := Except.ok.inj hinput
  have hemits : (Generator.extractions p).Emits s.dictionaries k v l
      [⟨0, 0, 1⟩, ⟨0, 0, 2⟩, ⟨0, 1, 3⟩] [⟨0, 0, 1⟩, ⟨0, 1, 2⟩, ⟨0, 2, 3⟩] := by
    let m := (Effect.tokenProperty k v).applyAll l [⟨0, 0, 1⟩]
    let n := (Effect.tokenProperty k v).applyAll m [⟨0, 1, 2⟩]
    have hl : p.extract s.dictionaries l ⟨0, 0, 1⟩ = .ok (.singleton ⟨0, 0, 1⟩) := by decide +kernel
    have hm : p.extract s.dictionaries m ⟨0, 0, 2⟩ = .ok (.singleton ⟨0, 1, 2⟩) := by decide +kernel
    have hn : p.extract s.dictionaries n ⟨0, 1, 3⟩ = .ok (.singleton ⟨0, 2, 3⟩) := by decide +kernel
    exact .extracted hl (l.setsTokens_applyAll k v _) (.extracted hm (m.setsTokens_applyAll k v _)
      (.extracted hn (n.setsTokens_applyAll k v _) .finished))
  obtain rfl := (hspans _).1 hemits
  obtain ⟨input, spans, -, -, hall, -, hunique, -, -, -, -, hoccurs⟩ :=
    execute_label_tokenProperty (Environment.annotate default 0) s Store.baseLevel [] k v
      (.phrases entries) rfl
  obtain rfl : l.documents.spans = input := Except.ok.inj hall
  have hscope : l.InScope [] ⟨0, 0, 3⟩ := by
    rw [Layer.InScope, if_pos rfl]
    decide
  refine ⟨hok, s', l', hexec, hl', hagree, hsets, ?_, ?_, spans, ?_, hunique⟩
  · rw [hsets.tokenProperty?_eq]
    decide
  · rw [hsets.tokenProperty?_eq]
    decide
  · exact (hoccurs entries rfl _).2 ⟨_, hscope, by decide, by decide, by decide, _,
      List.mem_cons_self, by decide +kernel⟩

end Statement

end SpanRules
