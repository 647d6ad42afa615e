import SpanRules.Layer.Operation
import SpanRules.Proofs.Document.Alignment
import SpanRules.Proofs.Files.Writing
import SpanRules.Proofs.Layer.WellFormed
import SpanRules.Proofs.Text.Fields

/-! Labels that are saved and loaded again. The operation of a span names its document and its
bytes, and from these the span is found again unless it is empty. Main statement: of all types the
non-empty instances come back, and no others. -/
namespace SpanRules

/-- Whether operations can tell the documents apart and name the bytes in them. -/
structure Corpus.Addressable (docs : Corpus) : Prop where
  wellFormed : ∀ d ∈ docs, d.WellFormed
  length_lt : ∀ d ∈ docs, d.text.length < 2147483648
  isField : ∀ d ∈ docs, d.id.IsField
  nodup : (docs.map (·.id)).Nodup

theorem Corpus.Addressable.find? {docs : Corpus} {d : Document} {i : Nat} (h : docs.Addressable)
    (hd : docs[i]? = some d) : docs.find? d.id = some i := by
  obtain ⟨hi, rfl⟩ := List.getElem?_eq_some_iff.1 hd
  refine List.findIdx?_eq_some_iff_getElem.2 ⟨hi, beq_self_eq_true _, fun j hj heq => ?_⟩
  have hne := List.pairwise_iff_getElem.1 h.nodup j i (by simp; omega) (by simpa) hj
  simp only [List.getElem_map] at hne
  exact hne (beq_iff_eq.1 heq)

namespace Operation
variable {d : Document} {s : Span} {type : Text}

def ofSpan (d : Document) (type : Text) (s : Span) : Operation :=
  ⟨d.id, d.charStart s, d.charStop s - d.charStart s, type⟩

/-- A span is found from its operation unless it is empty. -/
theorem span?_ofSpan (hd : d.WellFormed) (hlength : d.text.length < 2147483648)
    (hle : s.start ≤ s.stop) (hstop : s.stop ≤ d.tokens.length) :
    (ofSpan d type s).span? d s.document = if s.isEmpty then none else some s := by
  have hbounds := hd.bounds hle hstop
  have hwhole := hd.bounds (s := d.whole s.document) (Nat.zero_le _) (Nat.le_refl _)
  have hsum : (d.charStart s : Int) + (d.charStop s - d.charStart s) = d.charStop s := by omega
  simp only [span?, ofSpan, hsum]
  rw [Text.wrap32_eq_self (n := d.charStop s) (by omega) (by omega),
    Text.wrap32_eq_self (by omega) (by omega), Text.wrap32_eq_self (by omega) (by omega)]
  split
  · rename_i hempty
    rw [Option.eq_none_iff_forall_ne_some]
    intro t ht
    have hfills := (hd.spaced.properSubspan?_eq_some_iff.1 ht).2
    have hlt := hd.spaced.lt_of_fills hfills
    rw [Document.charStop_of_isEmpty hempty] at hlt
    exact absurd hlt (Int.lt_irrefl _)
  · rename_i hempty
    have hne := Span.start_lt_stop hle (Bool.not_eq_true _ ▸ hempty)
    exact hd.spaced.properSubspan?_eq_some_iff.2 ⟨rfl, hd.spaced.fills_self hne hstop⟩

end Operation

namespace Layer
variable {l m : Layer} {s : Span} {type : Text} {es : List (Text × Span)}

/-- The fields of an operation before its type. -/
structure Heads (l : Layer) (s : Span) (ts : List Text) : Prop where
  isField : ∀ t ∈ ts, t.IsField
  ne_nil : ts ≠ []
  line : ∀ type, l.operationLine type s = Text.join (ascii " ") (ts ++ [type])
  reads : ∀ type, Operation.ofFields? (ts ++ [type]) =
    some (.ofSpan (l.document s.document) type s)
  rejects : ∀ us : List Text, us.length ≠ 1 → Operation.ofFields? (ts ++ us) = none

theorem exists_heads (hdocs : l.documents.Addressable) (hs : l.documents.HasSpan s) :
    ∃ ts, l.Heads s ts := by
  obtain ⟨d, hd, hle, hstop⟩ := hs
  have hmem := List.mem_of_getElem? hd
  have hbounds := (hdocs.wellFormed d hmem).bounds hle hstop
  have hlength := hdocs.length_lt d hmem
  have hint : Text.ofInt ((d.charStop s : Int) - d.charStart s) =
      Text.ofNat (d.charStop s - d.charStart s) := by
    have habs : ((d.charStop s : Int) - d.charStart s).natAbs = d.charStop s - d.charStart s := by
      omega
    rw [Text.ofInt, if_neg (by omega), habs]
  refine ⟨[ascii "addToType", d.id, Text.ofNat (d.charStart s),
    Text.ofNat (d.charStop s - d.charStart s)], ?_, List.cons_ne_nil _ _, ?_, ?_, ?_⟩
  · simp only [List.forall_mem_cons, List.not_mem_nil, false_implies, implies_true, and_true]
    exact ⟨by decide, hdocs.isField d hmem, Text.isField_ofNat _, Text.isField_ofNat _⟩
  · intro type
    rw [operationLine, document_of_getElem? hd]
    simp only [hint]
    rfl
  · intro type
    rw [document_of_getElem? hd, List.cons_append, List.cons_append, List.cons_append,
      List.cons_append, List.nil_append, Operation.ofFields?, if_pos rfl,
      Text.int32?_ofNat (by omega), Text.int32?_ofNat (by omega), Operation.ofSpan,
      Int.ofNat_sub hbounds.1]
    rfl
  · intro us hus
    cases us with
    | nil => rfl
    | cons u us =>
      cases us with
      | nil => exact absurd rfl hus
      | cons => rfl

/-- An operation is written as fields from which it is read. -/
theorem exists_fields_operationLine (hdocs : l.documents.Addressable) (htype : type.IsField)
    (hs : l.documents.HasSpan s) :
    ∃ ts : List Text, (∀ t ∈ ts, t.IsField) ∧ l.operationLine type s = Text.join (ascii " ") ts ∧
      Operation.ofFields? ts = some (.ofSpan (l.document s.document) type s) := by
  obtain ⟨ts, hts⟩ := exists_heads hdocs hs
  refine ⟨ts ++ [type], ?_, hts.line type, hts.reads type⟩
  exact List.forall_mem_append.2 ⟨hts.isField, List.forall_mem_singleton.2 htype⟩

/-- The operation of an instance adds it again, unless it is empty. -/
theorem loadLine_operationLine (file : Text) (number : Nat) (hdocs : l.documents.Addressable)
    (hm : m.documents = l.documents) (htype : type.IsField) (hs : l.documents.HasSpan s) :
    (m.loadLine file number (l.operationLine type s)).result = .ok () ∧
      (m.loadLine file number (l.operationLine type s)).layer =
        if s.isEmpty then m else m.addToType type s := by
  obtain ⟨ts, hts, hline, hfields⟩ := exists_fields_operationLine hdocs htype hs
  obtain ⟨d, hd, hle, hstop⟩ := hs
  have hmem := List.mem_of_getElem? hd
  rw [document_of_getElem? hd] at hfields
  have hfind : m.documents.find? d.id = some s.document := hm ▸ hdocs.find? hd
  have hdocument : m.document s.document = d := document_of_getElem? (hm ▸ hd)
  simp only [loadLine, hline, Text.fields_join hts, hfields]
  rw [show (Operation.ofSpan d type s).id = d.id from rfl, hfind]
  simp only [hdocument]
  rw [Operation.span?_ofSpan (hdocs.wellFormed d hmem) (hdocs.length_lt d hmem) hle hstop]
  split
  · rename_i htokens
    have hempty : s.isEmpty = true := by
      rw [htokens, List.length_nil] at hstop
      simp only [Span.isEmpty, beq_iff_eq]
      omega
    rw [if_pos hempty]
    exact ⟨rfl, rfl⟩
  · cases s.isEmpty <;> exact ⟨rfl, rfl⟩

/-- The operations of instances add those that are not empty. -/
theorem loadLines_operationLine (file : Text) (number : Nat) (hdocs : l.documents.Addressable)
    (hm : m.documents = l.documents) (hes : ∀ e ∈ es, e.1.IsField ∧ l.documents.HasSpan e.2) :
    (loadLines file m number (es.map fun e => l.operationLine e.1 e.2)).result = .ok () ∧
      (loadLines file m number (es.map fun e => l.operationLine e.1 e.2)).layer =
        (es.filter (! ·.2.isEmpty)).foldl (fun m e => m.addToType e.1 e.2) m := by
  induction es generalizing m number with
  | nil => exact ⟨rfl, rfl⟩
  | cons e es ih =>
    obtain ⟨⟨htype, hs⟩, hes⟩ := List.forall_mem_cons.1 hes
    obtain ⟨ts, hts, hline, hfields⟩ := exists_fields_operationLine hdocs htype hs
    have hstrip : (l.operationLine e.1 e.2).strip = l.operationLine e.1 e.2 := by
      rw [hline, Text.strip_join hts]
    obtain ⟨hresult, hlayer⟩ := loadLine_operationLine file number hdocs hm htype hs
    have hne : l.operationLine e.1 e.2 ≠ [] := by
      intro hnil
      have hempty := Text.fields_join hts
      rw [← hline, hnil] at hempty
      rw [← hempty] at hfields
      cases hfields
    simp only [List.map_cons, loadLines, hstrip, if_neg hne, hresult]
    rw [hlayer]
    cases hempty : e.2.isEmpty with
    | true =>
      rw [List.filter_cons_of_neg (by simp [hempty])]
      exact ih _ hm hes
    | false =>
      rw [List.filter_cons_of_pos (by simp [hempty])]
      exact ih _ hm hes

def typedSpans (l : Layer) : List (Text × Span) :=
  l.types.toList.flatMap fun e => e.2.toList.map (e.1, ·)

theorem operationLines_eq (l : Layer) :
    l.operationLines = l.typedSpans.map fun e => l.operationLine e.1 e.2 := by
  simp [operationLines, typedSpans, List.map_flatMap, Function.comp_def]

theorem mem_typedSpans : (type, s) ∈ l.typedSpans ↔ s ∈ l.instances type := by
  rw [typedSpans, List.mem_flatMap]
  constructor
  · rintro ⟨⟨u, spans⟩, he, hs⟩
    simp only [List.mem_map, Prod.mk.injEq, exists_eq_right_right] at hs
    obtain ⟨hs, rfl⟩ := hs
    rw [instances, instances?, OrderedMap.find?_eq_some_iff.2 he]
    exact hs
  · intro hs
    have hspans := instances?_of_isDeclared (isDeclared_of_mem_instances hs)
    exact ⟨(type, _), OrderedMap.find?_eq_some_iff.1 hspans, List.mem_map_of_mem hs⟩

/-- What a layer is after some instances were added. -/
theorem foldl_addToType (m : Layer) (es : List (Text × Span)) :
    let m' := es.foldl (fun m e => m.addToType e.1 e.2) m
    (m'.documents = m.documents ∧ m'.spanProperties = m.spanProperties ∧
      m'.tokenProperties = m.tokenProperties) ∧
    ∀ type, (m'.isDeclared type = true ↔ m.isDeclared type = true ∨ ∃ s, (type, s) ∈ es) ∧
      ∀ s, s ∈ m'.instances type ↔ s ∈ m.instances type ∨ (type, s) ∈ es := by
  induction es generalizing m with
  | nil => simp
  | cons e es ih =>
    obtain ⟨hkept, htypes⟩ := ih (m.addToType e.1 e.2)
    refine ⟨hkept, fun type => ⟨?_, fun s => ?_⟩⟩
    · rw [List.foldl_cons, (htypes type).1, isDeclared_addToType]
      simp only [List.mem_cons, exists_or, Prod.ext_iff, exists_and_left, exists_eq, and_true]
      rw [or_comm (a := type = e.1), or_assoc]
    · rw [List.foldl_cons, (htypes type).2, mem_instances_addToType, List.mem_cons, Prod.ext_iff,
        or_comm (b := s ∈ _), or_assoc]

theorem instances?_of_mem_iff {found : OrderedSet Span}
    (hdeclared : l.isDeclared type = true ↔ ∃ s, s ∈ found)
    (hmem : ∀ s, s ∈ l.instances type ↔ s ∈ found) :
    l.instances? type = if found.isEmpty then none else some found := by
  split
  · rename_i hempty
    apply instances?_eq_none
    rw [← Bool.not_eq_true, hdeclared, OrderedSet.isEmpty_iff.1 hempty]
    rintro ⟨s, hs⟩
    exact OrderedSet.not_mem_empty hs
  · rename_i hempty
    obtain ⟨s, hs⟩ := List.exists_mem_of_ne_nil found.toList fun hnil =>
      hempty (OrderedSet.isEmpty_iff.2 (OrderedSet.ext_toList hnil))
    rw [instances?_of_isDeclared (hdeclared.2 ⟨s, hs⟩), OrderedSet.ext_mem hmem]

/-- A file with the operations of a layer gives its non-empty instances and nothing else. -/
theorem loadOperations_operationText {files : FileSystem} {file : Text}
    (hdocs : l.documents.Addressable)
    (htypes : ∀ type, l.isDeclared type = true → type.IsField)
    (hinstances : ∀ type, ∀ s ∈ l.instances type, l.documents.HasSpan s)
    (hread : files.contentsOf file = .ok l.operationText) :
    let loaded := (ofCorpus l.documents).loadOperations files file
    loaded.result = .ok () ∧ (loaded.layer.documents = l.documents ∧
      loaded.layer.spanProperties = .empty ∧ loaded.layer.tokenProperties = .empty) ∧
    ∀ type, let found := (l.instances type).filter (! ·.isEmpty)
      loaded.layer.instances? type = if found.isEmpty then none else some found := by
  have hes : ∀ e ∈ l.typedSpans, e.1.IsField ∧ l.documents.HasSpan e.2 := by
    rintro ⟨type, s⟩ he
    have hs := mem_typedSpans.1 he
    exact ⟨htypes type (isDeclared_of_mem_instances hs), hinstances type s hs⟩
  have hlines : l.operationText.lines = l.typedSpans.map fun e => l.operationLine e.1 e.2 := by
    rw [operationText, operationLines_eq]
    apply Text.lines_flatMap_feed
    intro line hline
    obtain ⟨e, he, rfl⟩ := List.mem_map.1 hline
    obtain ⟨ts, hts, hjoin, -⟩ := exists_fields_operationLine hdocs (hes e he).1 (hes e he).2
    exact ⟨ts, hts, hjoin⟩
  obtain ⟨hresult, hlayer⟩ :=
    loadLines_operationLine (m := ofCorpus l.documents) file 1 hdocs rfl hes
  obtain ⟨hkept, hlabels⟩ := foldl_addToType (ofCorpus l.documents)
    (l.typedSpans.filter (! ·.2.isEmpty))
  simp only [loadOperations, hread, hlines]
  rw [hresult, hlayer]
  refine ⟨rfl, hkept, fun type => ?_⟩
  have hfound : ∀ s, (type, s) ∈ l.typedSpans.filter (! ·.2.isEmpty) ↔
      s ∈ (l.instances type).filter (! ·.isEmpty) := by
    intro s
    rw [List.mem_filter, mem_typedSpans, OrderedSet.mem_filter]
  obtain ⟨hdeclared, hmem⟩ := hlabels type
  simp only [hfound] at hdeclared hmem
  exact instances?_of_mem_iff (hdeclared.trans (or_iff_right nofun))
    fun s => (hmem s).trans (or_iff_right OrderedSet.not_mem_empty)

/-- What was saved of a layer is loaded again: the non-empty instances of all types, and nothing
else. -/
theorem loadOperations_saveOperations {files files' : FileSystem} {file : Text}
    (hdocs : l.documents.Addressable)
    (htypes : ∀ type, l.isDeclared type = true → type.IsField)
    (hinstances : ∀ type, ∀ s ∈ l.instances type, l.documents.HasSpan s)
    (hsave : l.saveOperations files file = .ok files') :
    let loaded := (ofCorpus l.documents).loadOperations files' file
    loaded.result = .ok () ∧ (loaded.layer.documents = l.documents ∧
      loaded.layer.spanProperties = .empty ∧ loaded.layer.tokenProperties = .empty) ∧
    ∀ type, let found := (l.instances type).filter (! ·.isEmpty)
      loaded.layer.instances? type = if found.isEmpty then none else some found := by
  apply loadOperations_operationText hdocs htypes hinstances
  unfold saveOperations at hsave
  split at hsave
  · cases hsave
  · rename_i hwritten
    cases hsave
    exact FileSystem.contentsOf_replaceContents hwritten

/-- Of three types the one that has only an empty instance is not loaded. -/
theorem loadOperations_saveOperations_city :
    let docs := Corpus.ofTexts
      [(ascii "d1", ascii "  in Old Paris"), (ascii "d2", ascii "Paris")]
    let city := ascii "city"
    let gap := ascii "gap"
    let name := ascii "name"
    let l := (((Layer.ofCorpus docs).addAllToType city [⟨0, 2, 3⟩, ⟨1, 0, 1⟩]).addAllToType gap
      [⟨0, 1, 1⟩]).addAllToType name [⟨0, 0, 0⟩, ⟨0, 1, 3⟩]
    let file := ascii "labels.ops"
    ∃ files', (l.documents.Addressable ∧ (∀ type, l.isDeclared type = true → type.IsField) ∧
        (∀ type, ∀ s ∈ l.instances type, l.documents.HasSpan s) ∧
        l.saveOperations .empty file = .ok files') ∧
      let loaded := (ofCorpus l.documents).loadOperations files' file
      loaded.result = .ok () ∧ loaded.layer.documents = l.documents ∧
        loaded.layer.instances? city = l.instances? city ∧
        loaded.layer.instances? gap = none ∧
        loaded.layer.instances? name = some (.singleton ⟨0, 1, 3⟩) := by
  intro docs city gap name l file
  have hall : ∀ d ∈ docs, d.text.length < 2147483648 ∧ d.id.IsField := by decide
  have hdocs : l.documents.Addressable :=
    ⟨fun d hd => Document.ofTexts_wellFormed hd, fun d hd => (hall d hd).1,
      fun d hd => (hall d hd).2, by decide⟩
  have hfields : ∀ e ∈ l.types.toList, e.1.IsField := by decide
  have htypes : ∀ type, l.isDeclared type = true → type.IsField := fun type h =>
    hfields _ (OrderedMap.find?_eq_some_iff.1 (instances?_of_isDeclared h))
  have hspans : ∀ e ∈ l.typedSpans, l.documents.HasSpan e.2 := by decide
  have hinstances : ∀ type, ∀ s ∈ l.instances type, l.documents.HasSpan s := fun _ _ hs =>
    hspans _ (mem_typedSpans.2 hs)
  have hsave : l.saveOperations .empty file =
      .ok ((FileSystem.empty.put [ascii "tmp", ascii "work", file] (.file [])).put
        [ascii "tmp", ascii "work", file] (.file l.operationText)) := rfl
  obtain ⟨hresult, hkept, hloaded⟩ :=
    loadOperations_saveOperations hdocs htypes hinstances hsave
  exact ⟨_, ⟨hdocs, htypes, hinstances, hsave⟩, hresult, hkept.1,
    (hloaded city).trans (by decide), (hloaded gap).trans (by decide),
    (hloaded name).trans (by decide)⟩

end Layer

end SpanRules
