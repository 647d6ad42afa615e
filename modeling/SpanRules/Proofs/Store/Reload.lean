import SpanRules.Proofs.Layer.Operation
import SpanRules.Proofs.Store.TypeNames

/-! Saving and loading types of any name. The name stands last in the line of an operation, as it
is, and the line is read in fields. Main statement: what was saved of a store that programs have
made is loaded without a fault exactly if the names of its types, up to the blanks at their ends,
are each one part between spaces. -/
namespace SpanRules

/-- Whether a name at the end of a line is read as one field. -/
def Text.IsOneField (t : Text) : Prop := (t.dropTrailingBlanks.fields (byte ' ')).length = 1

instance (t : Text) : Decidable t.IsOneField := inferInstanceAs (Decidable (_ = _))

namespace Layer
variable {l m : Layer} {s : Span} {type : Text} {es : List (Text × Span)} {file : Text}
  {number : Nat}

/-- A line that is loaded may add an instance but leaves the documents as they are. -/
theorem documents_loadLine (m : Layer) (file : Text) (number : Nat) (line : Text) :
    (m.loadLine file number line).layer.documents = m.documents := by
  unfold loadLine
  split
  · rfl
  · split
    · rfl
    · simp only
      split
      · rfl
      · split <;> rfl

/-- The operation of an instance is carried out if its type is one field. -/
theorem result_loadLine_of_isOneField (hdocs : l.documents.Addressable)
    (hm : m.documents = l.documents) (hs : l.documents.HasSpan s) (htype : type.IsOneField) :
    (m.loadLine file number (l.operationLine type s).strip).result = .ok () := by
  obtain ⟨ts, hts⟩ := exists_heads hdocs hs
  obtain ⟨u, hu⟩ := List.length_eq_one_iff.1 htype
  obtain ⟨d, hd, -⟩ := hs
  have hfind : m.documents.find? d.id = some s.document := hm ▸ hdocs.find? hd
  rw [loadLine, hts.line, Text.fields_strip_join_concat hts.ne_nil hts.isField, hu, hts.reads,
    document_of_getElem? hd]
  simp only [Operation.ofSpan, hfind]
  split
  · rfl
  · split <;> rfl

/-- The operation of an instance is malformed if its type is not one field. -/
theorem loadLine_of_not_isOneField (hdocs : l.documents.Addressable)
    (hs : l.documents.HasSpan s) (htype : ¬ type.IsOneField) :
    m.loadLine file number (l.operationLine type s).strip =
      ⟨m, [], .error (.malformedOperation file number)⟩ := by
  obtain ⟨ts, hts⟩ := exists_heads hdocs hs
  rw [loadLine, hts.line, Text.fields_strip_join_concat hts.ne_nil hts.isField,
    hts.rejects _ htype]

theorem strip_operationLine_ne_nil (hdocs : l.documents.Addressable)
    (hs : l.documents.HasSpan s) : (l.operationLine type s).strip ≠ [] := by
  obtain ⟨ts, hts⟩ := exists_heads hdocs hs
  intro hnil
  have hfields := Text.fields_strip_join_concat hts.ne_nil hts.isField type
  rw [← hts.line, hnil] at hfields
  exact hts.ne_nil (List.append_eq_nil_iff.1 hfields.symm).1

/-- The operations of instances are carried out one by one, up to the first whose type is not one
field. -/
theorem result_loadLines_operationLine (hdocs : l.documents.Addressable)
    (hm : m.documents = l.documents) (hes : ∀ e ∈ es, l.documents.HasSpan e.2) :
    let loaded := loadLines file m number
      ((es.map fun e => l.operationLine e.1 e.2).map Text.dropReturn)
    (loaded.result = .ok () ↔ ∀ e ∈ es, e.1.IsOneField) ∧
      (loaded.result = .ok () ∨ ∃ n, loaded.result = .error (.malformedOperation file n)) := by
  induction es generalizing m number with
  | nil => exact ⟨iff_of_true rfl (List.forall_mem_nil _), .inl rfl⟩
  | cons e es ih =>
    obtain ⟨hs, hes⟩ := List.forall_mem_cons.1 hes
    have hne : (l.operationLine e.1 e.2).strip ≠ [] := strip_operationLine_ne_nil hdocs hs
    simp only [List.map_cons, loadLines, Text.strip_dropReturn, if_neg hne]
    by_cases htype : e.1.IsOneField
    · have hresult : (m.loadLine file number (l.operationLine e.1 e.2).strip).result = .ok () :=
        result_loadLine_of_isOneField hdocs hm hs htype
      have hdocuments : (m.loadLine file number (l.operationLine e.1 e.2).strip).layer.documents =
          l.documents := (documents_loadLine m _ _ _).trans hm
      simp only [hresult, List.forall_mem_cons, htype, true_and]
      exact ih hdocuments hes
    · simp only [loadLine_of_not_isOneField hdocs hs htype]
      refine ⟨iff_of_false ?_ fun hall => ?_, .inr ⟨number, rfl⟩⟩
      · rintro ⟨⟩
      · exact htype (hall e List.mem_cons_self)

/-- A file with the operations of a layer is read without a fault exactly if the types of all
instances are one field; otherwise an operation is malformed. -/
theorem result_loadOperations_operationText {files : FileSystem} (hdocs : l.documents.Addressable)
    (htypes : ∀ type, l.isDeclared type = true → byte '\n' ∉ type)
    (hinstances : ∀ type, ∀ s ∈ l.instances type, l.documents.HasSpan s)
    (hread : files.contentsOf file = .ok l.operationText) :
    let result := ((ofCorpus l.documents).loadOperations files file).result
    (result = .ok () ↔ ∀ type, ∀ s ∈ l.instances type, type.IsOneField) ∧
      (result = .ok () ∨ ∃ n, result = .error (.malformedOperation file n)) := by
  have hes : ∀ e ∈ l.typedSpans, l.documents.HasSpan e.2 := fun e he =>
    hinstances e.1 e.2 (mem_typedSpans.1 he)
  have hfeed : ∀ line ∈ l.typedSpans.map fun e => l.operationLine e.1 e.2, byte '\n' ∉ line := by
    intro line hline
    obtain ⟨e, he, rfl⟩ := List.mem_map.1 hline
    obtain ⟨ts, hts⟩ := exists_heads hdocs (hes e he)
    rw [hts.line, Text.join_concat hts.ne_nil, List.mem_append, List.mem_cons]
    rintro (hmem | hmem | hmem)
    · exact absurd ((Text.blanks_join hts.isField).2.2 _ hmem rfl) (by decide)
    · exact absurd hmem (by decide)
    · exact htypes e.1 (isDeclared_of_mem_instances (mem_typedSpans.1 he)) hmem
  have hlines : l.operationText.lines =
      (l.typedSpans.map fun e => l.operationLine e.1 e.2).map Text.dropReturn := by
    rw [operationText, operationLines_eq, Text.lines_flatMap_feed_of_not_mem hfeed]
  have hall : (∀ e ∈ l.typedSpans, e.1.IsOneField) ↔
      ∀ type, ∀ s ∈ l.instances type, type.IsOneField :=
    ⟨fun h type s hs => h (type, s) (mem_typedSpans.2 hs),
      fun h e he => h e.1 e.2 (mem_typedSpans.1 he)⟩
  simp only [loadOperations, hread, hlines]
  rw [← hall]
  exact result_loadLines_operationLine hdocs rfl hes

end Layer

theorem Corpus.addressable_ofTexts {texts : List (Text × Text)}
    (hids : ∀ t ∈ texts, t.1.IsField) (hnodup : (texts.map (·.1)).Nodup)
    (hlength : ∀ t ∈ texts, t.2.length < 2147483648) : (ofTexts texts).Addressable := by
  have hmem : ∀ d ∈ ofTexts texts, (d.id, d.text) ∈ texts := by
    intro d hd
    obtain ⟨t, ht, rfl⟩ := List.mem_map.1 hd
    exact ht
  have hnames : (ofTexts texts).map (·.id) = texts.map (·.1) := by
    rw [ofTexts, List.map_map]
    rfl
  exact ⟨fun d hd => Document.ofTexts_wellFormed hd, fun d hd => hlength _ (hmem d hd),
    fun d hd => hids _ (hmem d hd), hnames ▸ hnodup⟩

namespace Store
variable {texts : List (Text × Text)} {s : Store} {files files' : FileSystem} {file : Text}

/-- The stores to which programs lead that were read from sources. At first there are only
documents. -/
inductive Evaluated (texts : List (Text × Text)) : Store → Prop
  | start : Evaluated texts (ofCorpus (Corpus.ofTexts texts))
  | evaluate {s level source p} {env : Environment} (bound : Nat) :
      Evaluated texts s → env.KnowsOnlyCapitals → s.HasLevel level →
      Program.parse? env.resources source = .ok p →
      Evaluated texts (env.evaluate bound p s level).store

theorem Evaluated.wellFormed (h : s.Evaluated texts) : s.WellFormed texts := by
  induction h with
  | start => exact ofCorpus_wellFormed texts
  | evaluate bound _ henv hl _ ih =>
    exact (Program.sound_run (Environment.sound_annotate henv bound) _ ih hl).wellFormed

/-- No type of a store that programs have made has a line feed in its name. -/
theorem Evaluated.feed_not_mem (h : s.Evaluated texts) :
    s.TypesAre fun type => byte '\n' ∉ type := by
  induction h with
  | start =>
    intro level l hl
    rw [layer?, ofCorpus, OrderedMap.find?_insert] at hl
    split at hl
    · cases hl
      exact .ofCorpus _
    · cases hl
  | evaluate bound _ henv _ hparse ih =>
    have hannotate := Environment.keepsTypes_annotate henv (by decide)
      (fun _ _ => Program.feed_not_mem_of_parse?) bound
    exact Program.typesAre_run hannotate (Program.feed_not_mem_of_parse? hparse) ih

/-- What was saved of a store that programs have made is loaded, unless an instance has a type whose
name, up to the blanks at its end, is not one part between spaces. Its operation is malformed. -/
theorem loadOperations_of_evaluated (h : s.Evaluated texts) (hids : ∀ t ∈ texts, t.1.IsField)
    (hnodup : (texts.map (·.1)).Nodup) (hlength : ∀ t ∈ texts, t.2.length < 2147483648)
    (hsave : (s.layer baseLevel).saveOperations files file = .ok files') :
    let result := ((Layer.ofCorpus (Corpus.ofTexts texts)).loadOperations files' file).result
    (result = .ok () ↔
      ∀ type, ∀ span ∈ (s.layer baseLevel).instances type, type.IsOneField) ∧
      (result = .ok () ∨ ∃ n, result = .error (.malformedOperation file n)) := by
  obtain ⟨l, hl, hdocs⟩ := h.wellFormed.base
  have hinstances := (h.wellFormed.layers _ _ hl).instances
  have htypes := h.feed_not_mem _ _ hl
  rw [layer_of_layer? hl] at hsave ⊢
  rw [← hdocs]
  have haddressable : l.documents.Addressable :=
    hdocs ▸ Corpus.addressable_ofTexts hids hnodup hlength
  apply Layer.result_loadOperations_operationText haddressable htypes hinstances
  unfold Layer.saveOperations at hsave
  split at hsave
  · cases hsave
  · rename_i hwritten
    cases hsave
    exact FileSystem.contentsOf_replaceContents hwritten

/-- A name with a blank before it is read without the blank, and one without instances is not
written. -/
theorem loadOperations_of_evaluated_blank_name :
    let texts := [(ascii "d1", ascii "x y")]
    let p : Program :=
      [.label ⟨.spanType (ascii " a"), [], .extractions ⟨[.whole [.gap]], [ascii "..."]⟩⟩,
        .declareType (ascii "b c")]
    let s := (Environment.evaluate default 0 p (.ofCorpus (Corpus.ofTexts texts)) baseLevel).store
    let file := ascii "labels.ops"
    ∃ files', (Program.parse? default (ascii "defSpanType ' a' = : ...; declareSpanType 'b c'") =
        .ok p ∧ s.Evaluated texts ∧ (∀ t ∈ texts, t.1.IsField) ∧ (texts.map (·.1)).Nodup ∧
        (∀ t ∈ texts, t.2.length < 2147483648) ∧
        (s.layer baseLevel).saveOperations .empty file = .ok files') ∧
      ((Layer.ofCorpus (Corpus.ofTexts texts)).loadOperations files' file).result = .ok () := by
  intro texts p s file
  have hparse : Program.parse? default (ascii "defSpanType ' a' = : ...; declareSpanType 'b c'") =
      .ok p := by decide +kernel
  have hs : s.Evaluated texts :=
    .evaluate 0 .start (fun _ he => nomatch he) ⟨_, OrderedMap.find?_insert⟩ hparse
  have hids : ∀ t ∈ texts, t.1.IsField := by decide
  have hnodup : (texts.map (·.1)).Nodup := by decide
  have hlength : ∀ t ∈ texts, t.2.length < 2147483648 := by decide
  have htypes : ∀ e ∈ (s.layer baseLevel).typedSpans, e.1.IsOneField := by decide +kernel
  have hsave : (s.layer baseLevel).saveOperations .empty file =
      .ok ((FileSystem.empty.put [ascii "tmp", ascii "work", file] (.file [])).put
        [ascii "tmp", ascii "work", file] (.file (s.layer baseLevel).operationText)) := rfl
  obtain ⟨hresult, -⟩ := loadOperations_of_evaluated hs hids hnodup hlength hsave
  exact ⟨_, ⟨hparse, hs, hids, hnodup, hlength, hsave⟩,
    hresult.2 fun type span hspan => htypes _ (Layer.mem_typedSpans.2 hspan)⟩

/-- A name with a blank in it, which has to be quoted in the program, is not quoted in the file. -/
theorem loadOperations_of_two_words :
    let texts := [(ascii "d1", ascii "x")]
    let p : Program :=
      [.label ⟨.spanType (ascii "a b"), [], .extractions ⟨[.whole [.gap]], [ascii "..."]⟩⟩]
    let s := (Environment.evaluate default 0 p (.ofCorpus (Corpus.ofTexts texts)) baseLevel).store
    let file := ascii "f"
    Program.parse? default (ascii "defSpanType 'a b' = : ...;") = .ok p ∧ s.Evaluated texts ∧
      ∃ files', (s.layer baseLevel).saveOperations .empty file = .ok files' ∧
        files'.contentsOf file = .ok (ascii "addToType d1 0 1 a b\n") ∧
        ((Layer.ofCorpus (Corpus.ofTexts texts)).loadOperations files' file).result =
          .error (.malformedOperation file 1) := by
  intro texts p s file
  have hparse : Program.parse? default (ascii "defSpanType 'a b' = : ...;") = .ok p := by
    decide +kernel
  have hs : s.Evaluated texts :=
    .evaluate 0 .start (fun _ he => nomatch he) ⟨_, OrderedMap.find?_insert⟩ hparse
  exact ⟨hparse, hs, _, rfl, by decide +kernel, by decide +kernel⟩

end Store

end SpanRules
