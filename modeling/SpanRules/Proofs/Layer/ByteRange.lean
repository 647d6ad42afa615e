import SpanRules.Proofs.Layer.Operation
import SpanRules.Proofs.Text.Numeral

/-! The byte ranges of operations, whose bounds are computed with 32 bits. Main statement: each line
that is carried out adds the tokens within its bytes, unless the end of the range, counted from the
first token, leaves the 32 bits and the end that is computed instead takes in other tokens. -/
namespace SpanRules

namespace Text
variable {m n : Int}

/-- What is computed differs by a multiple of the range of 32 bits that brings it into the range. -/
theorem wrap32_eq_add (k : Int) (h : -2147483648 ≤ n + k * 4294967296)
    (h' : n + k * 4294967296 < 2147483648) : wrap32 n = n + k * 4294967296 := by
  rw [← wrap32_eq_self h h']
  exact (Int.add_mul_bmod_self_right n k 4294967296).symm

theorem wrap32_of_over (h : 2147483647 < n) (h' : n < 6442450944) : wrap32 n = n - 4294967296 :=
  (wrap32_eq_add (-1) (by omega) (by omega)).trans (by omega)

theorem wrap32_of_under (h : n < -2147483648) (h' : -6442450944 ≤ n) :
    wrap32 n = n + 4294967296 :=
  (wrap32_eq_add 1 (by omega) (by omega)).trans (by omega)

theorem wrap32_sub_wrap32 (m n : Int) : wrap32 (wrap32 m - n) = wrap32 (m - n) :=
  Int.bmod_sub_bmod

end Text

/-- The same tokens of a span lie within two ranges exactly if the same spans fill them. -/
theorem Document.Spaced.forall_fillsIn_iff {d : Document} {s : Span} {lo hi lo' hi' : Int}
    (hd : d.Spaced) (hs : s.stop ≤ d.tokens.length) :
    (∀ t, d.FillsIn s lo hi t ↔ d.FillsIn s lo' hi' t) ↔
      ∀ k, s.start ≤ k → k < s.stop → (d.LiesWithin s lo hi k ↔ d.LiesWithin s lo' hi' k) := by
  have hforward : ∀ lo hi lo' hi' : Int, (∀ t, d.FillsIn s lo hi t → d.FillsIn s lo' hi' t) →
      ∀ k, s.start ≤ k → k < s.stop → d.LiesWithin s lo hi k → d.LiesWithin s lo' hi' k := by
    intro lo hi lo' hi' h k hk hk' hwithin
    obtain ⟨t, ht⟩ := Option.isSome_iff_exists.1
      ((hd.isSome_properSubspan?_iff hs).2 ⟨k, hk, hk', hwithin⟩)
    have hfills := (hd.properSubspan?_eq_some_iff_fillsIn hs).1 ht
    exact ((h t hfills).within k hk hk').2 ((hfills.within k hk hk').1 hwithin)
  constructor
  · intro h k hk hk'
    exact ⟨hforward lo hi lo' hi' (fun t => (h t).1) k hk hk',
      hforward lo' hi' lo hi (fun t => (h t).2) k hk hk'⟩
  · intro h t
    constructor
    · rintro ⟨hdocument, hstart, hne, hstop, hwithin⟩
      exact ⟨hdocument, hstart, hne, hstop,
        fun k hk hk' => (h k hk hk').symm.trans (hwithin k hk hk')⟩
    · rintro ⟨hdocument, hstart, hne, hstop, hwithin⟩
      exact ⟨hdocument, hstart, hne, hstop,
        fun k hk hk' => (h k hk hk').trans (hwithin k hk hk')⟩

namespace Operation
variable {o : Operation} {d : Document} {docs : Corpus} {s : Span} {i : Nat}

/-- Whether the end that is computed for an operation takes in the same tokens as its bytes. If the
end is out of 32 bits above, the one that is computed lies before all tokens, and if it is out of
them below, the one that is computed may lie after some. -/
structure Faithful (o : Operation) (d : Document) : Prop where
  above : 2147483647 < o.start + o.length - d.tokenStart 0 →
    ∀ t ∈ d.tokens, (t.start : Int) < o.start
  below : o.start + o.length - d.tokenStart 0 < -2147483648 →
    -2147483648 ≤ o.start - d.tokenStart 0 →
    ∀ t ∈ d.tokens, o.start ≤ t.start → o.start + o.length + 4294967296 < t.stop

theorem span?_eq_some_iff (hd : d.Spaced) : o.span? d i = some s ↔
    d.FillsIn (d.whole i) (Text.wrap32 (o.start - d.tokenStart 0))
      (Text.wrap32 (o.start + o.length - d.tokenStart 0)) s := by
  rw [← hd.properSubspan?_eq_some_iff_fillsIn (Nat.le_refl _),
    ← Text.wrap32_sub_wrap32 (o.start + o.length)]
  rfl

theorem isInt32_of_ofFields? {fields : List Text} (h : ofFields? fields = some o) :
    Text.IsInt32 o.start ∧ Text.IsInt32 o.length := by
  unfold ofFields? at h
  split at h
  · split at h
    · obtain ⟨start, hstart, h⟩ := Option.bind_eq_some_iff.1 h
      obtain ⟨length, hlength, h⟩ := Option.bind_eq_some_iff.1 h
      cases h
      exact ⟨(Text.int32?_eq_some_iff.1 hstart).1, (Text.int32?_eq_some_iff.1 hlength).1⟩
    · cases h
  · cases h

/-- Tokens lie within a range of all tokens one by one. -/
theorem forall_liesWithin_iff {lo hi lo' hi' : Int} :
    (∀ k, (d.whole i).start ≤ k → k < (d.whole i).stop →
      (d.LiesWithin (d.whole i) lo hi k ↔ d.LiesWithin (d.whole i) lo' hi' k)) ↔
    ∀ t ∈ d.tokens,
      (lo ≤ (t.start : Int) - d.tokenStart 0 ∧ (t.stop : Int) - d.tokenStart 0 ≤ hi ↔
        lo' ≤ (t.start : Int) - d.tokenStart 0 ∧ (t.stop : Int) - d.tokenStart 0 ≤ hi') := by
  constructor
  · intro h t ht
    obtain ⟨k, hk, rfl⟩ := List.getElem_of_mem ht
    have hiff := h k (Nat.zero_le k) hk
    rwa [Document.liesWithin_iff hk, Document.liesWithin_iff hk] at hiff
  · intro h k _ hk
    rw [Document.liesWithin_iff hk, Document.liesWithin_iff hk]
    exact h _ (List.getElem_mem hk)

theorem tokenStart_zero_le (hd : d.Spaced) {t : Token} (ht : t ∈ d.tokens) :
    d.tokenStart 0 ≤ t.start := by
  obtain ⟨k, hk, rfl⟩ := List.getElem_of_mem ht
  rw [Document.tokenStart_eq (by omega)]
  exact (hd.bounds_mono (Nat.zero_le k) hk).1

theorem bounds_of_mem_tokens (hd : d.WellFormed) (hlength : d.text.length < 2147483648) {t : Token}
    (ht : t ∈ d.tokens) : d.tokenStart 0 ≤ t.start ∧ t.start < t.stop ∧ t.stop < 2147483648 :=
  ⟨tokenStart_zero_le hd.spaced ht, hd.nonempty t ht,
    Nat.lt_of_le_of_lt (hd.inside t ht) hlength⟩

/-- If the end that is computed takes in the same tokens as the bytes, the operation is faithful. -/
theorem faithful_of_forall_tokens (hd : d.WellFormed) (hlength : d.text.length < 2147483648)
    (hstart : Text.IsInt32 o.start) (hbytes : Text.IsInt32 o.length)
    (h : ∀ t ∈ d.tokens,
      (Text.wrap32 (o.start - d.tokenStart 0) ≤ (t.start : Int) - d.tokenStart 0 ∧
        (t.stop : Int) - d.tokenStart 0 ≤ Text.wrap32 (o.start + o.length - d.tokenStart 0) ↔
      o.start - d.tokenStart 0 ≤ (t.start : Int) - d.tokenStart 0 ∧
        (t.stop : Int) - d.tokenStart 0 ≤ o.start + o.length - d.tokenStart 0)) :
    o.Faithful d := by
  obtain ⟨hstart, hstart'⟩ := hstart
  obtain ⟨hbytes, hbytes'⟩ := hbytes
  refine ⟨fun habove t ht => ?_, fun hbelow hfits t ht hle => ?_⟩
  · have hend := Text.wrap32_of_over habove (by omega)
    have hwithin := h t ht
    have hbounds := bounds_of_mem_tokens hd hlength ht
    rw [hend] at hwithin
    omega
  · have hbounds := bounds_of_mem_tokens hd hlength ht
    have hend := Text.wrap32_of_under hbelow (by omega)
    have hfirst := Text.wrap32_eq_self hfits (by omega)
    have hwithin := h t ht
    rw [hend, hfirst] at hwithin
    omega

/-- The end that is computed for a faithful operation takes in a token exactly if its bytes do. -/
theorem Faithful.wrapped_iff (h : o.Faithful d) (hd : d.WellFormed)
    (hlength : d.text.length < 2147483648) (hstart : Text.IsInt32 o.start)
    (hbytes : Text.IsInt32 o.length) {t : Token} (ht : t ∈ d.tokens) :
    Text.wrap32 (o.start - d.tokenStart 0) ≤ (t.start : Int) - d.tokenStart 0 ∧
        (t.stop : Int) - d.tokenStart 0 ≤ Text.wrap32 (o.start + o.length - d.tokenStart 0) ↔
      o.start - d.tokenStart 0 ≤ (t.start : Int) - d.tokenStart 0 ∧
        (t.stop : Int) - d.tokenStart 0 ≤ o.start + o.length - d.tokenStart 0 := by
  obtain ⟨habove, hbelow⟩ := h
  obtain ⟨hstart, hstart'⟩ := hstart
  obtain ⟨hbytes, hbytes'⟩ := hbytes
  have hbounds := bounds_of_mem_tokens hd hlength ht
  by_cases hover : 2147483647 < o.start + o.length - d.tokenStart 0
  · have hend := Text.wrap32_of_over hover (by omega)
    have hbefore := habove hover t ht
    rw [hend]
    omega
  · by_cases hfits : -2147483648 ≤ o.start - d.tokenStart 0
    · have hfirst := Text.wrap32_eq_self hfits (by omega)
      by_cases hunder : o.start + o.length - d.tokenStart 0 < -2147483648
      · have hend := Text.wrap32_of_under hunder (by omega)
        have hafter := hbelow hunder hfits t ht
        rw [hend, hfirst]
        omega
      · rw [Text.wrap32_eq_self (n := o.start + o.length - d.tokenStart 0) (by omega) (by omega),
          hfirst]
    -- The start that is computed lies after all tokens, and the end of the bytes before them.
    · have hfirst := Text.wrap32_of_under (n := o.start - d.tokenStart 0) (by omega) (by omega)
      rw [hfirst]
      omega

/-- What is computed for an operation is the range of its bytes exactly if it is faithful. -/
theorem forall_span?_iff (hd : d.WellFormed) (hlength : d.text.length < 2147483648)
    (hstart : Text.IsInt32 o.start) (hbytes : Text.IsInt32 o.length) :
    (∀ s, o.span? d i = some s ↔ s.document = i ∧ d.Fills o.start (o.start + o.length) s) ↔
      o.Faithful d := by
  have hexact : ∀ s, s.document = i ∧ d.Fills o.start (o.start + o.length) s ↔
      d.FillsIn (d.whole i) (o.start - d.tokenStart 0)
        (o.start + o.length - d.tokenStart 0) s :=
    fun s => Document.fillsIn_whole_iff.symm
  simp only [span?_eq_some_iff hd.spaced, hexact]
  rw [hd.spaced.forall_fillsIn_iff (Nat.le_refl _), forall_liesWithin_iff]
  constructor
  · exact faithful_of_forall_tokens hd hlength hstart hbytes
  · exact fun h t ht => h.wrapped_iff hd hlength hstart hbytes ht

/-- The operations in the lines that are carried out: those before the first line that is no
operation or names no document. Blank lines are passed over. -/
def accepted (docs : Corpus) : List Text → List Operation
  | [] => []
  | line :: lines =>
    if line.strip = [] then accepted docs lines
    else match ofFields? (line.strip.fields (byte ' ')) with
      | none => []
      | some o => if (docs.find? o.id).isSome then o :: accepted docs lines else []

def found? (o : Operation) (docs : Corpus) : Option Span := do
  let i ← docs.find? o.id
  let d ← docs[i]?
  o.span? d i

/-- What is accepted are numbers of 32 bits, for a document that there is. -/
theorem of_mem_accepted {lines : List Text} (h : o ∈ accepted docs lines) :
    (Text.IsInt32 o.start ∧ Text.IsInt32 o.length) ∧
      ∃ i d, docs.find? o.id = some i ∧ docs[i]? = some d := by
  induction lines with
  | nil => cases h
  | cons line lines ih =>
    simp only [accepted] at h
    split at h
    · exact ih h
    · split at h
      · cases h
      · rename_i p hp
        split at h
        · rename_i hfind
          rcases List.mem_cons.1 h with rfl | h
          · obtain ⟨i, hi⟩ := Option.isSome_iff_exists.1 hfind
            obtain ⟨hlt, -⟩ := List.findIdx?_eq_some_iff_getElem.1 hi
            exact ⟨isInt32_of_ofFields? hp, i, docs[i], hi, List.getElem?_eq_getElem hlt⟩
          · exact ih h
        · cases h

theorem span?_of_tokens_eq_nil (h : d.tokens = []) : o.span? d i = none := by
  simp [span?, Document.properSubspan?, Document.spanTokens, h]

end Operation

namespace Layer
variable {l : Layer} {o : Operation} {file line : Text} {number : Nat}

def additions (docs : Corpus) (lines : List Text) : List (Text × Span) :=
  (Operation.accepted docs lines).filterMap fun o => (o.found? docs).map (o.type, ·)

theorem mem_additions {docs : Corpus} {lines : List Text} {type : Text} {s : Span} :
    (type, s) ∈ additions docs lines ↔
      ∃ o ∈ Operation.accepted docs lines, o.type = type ∧ o.found? docs = some s := by
  simp only [additions, List.mem_filterMap, Option.map_eq_some_iff, Prod.mk.injEq]
  constructor
  · rintro ⟨o, ho, u, hu, htype, rfl⟩
    exact ⟨o, ho, htype, hu⟩
  · rintro ⟨o, ho, htype, hs⟩
    exact ⟨o, ho, s, hs, htype, rfl⟩

/-- A line that is an operation on a document adds what the operation finds there. -/
theorem loadLine_of_ofFields? {i : Nat} (file : Text) (number : Nat)
    (ho : Operation.ofFields? (line.fields (byte ' ')) = some o)
    (hfind : l.documents.find? o.id = some i) :
    (l.loadLine file number line).result = .ok () ∧
      (l.loadLine file number line).layer =
        ((o.found? l.documents).map (o.type, ·)).toList.foldl
          (fun m e => m.addToType e.1 e.2) l := by
  obtain ⟨hlt, -⟩ := List.findIdx?_eq_some_iff_getElem.1 hfind
  have hd : l.documents[i]? = some l.documents[i] := List.getElem?_eq_getElem hlt
  have hfound : o.found? l.documents = o.span? l.documents[i] i := by
    simp only [Operation.found?, hfind, hd, Option.bind_eq_bind, Option.bind_some]
  unfold loadLine
  simp only [ho, hfind, hfound, document_of_getElem? hd]
  split
  · rename_i htokens
    rw [Operation.span?_of_tokens_eq_nil htokens]
    exact ⟨rfl, rfl⟩
  · cases o.span? l.documents[i] i <;> exact ⟨rfl, rfl⟩

/-- Lines add what the accepted operations in them find. -/
theorem layer_loadLines (l : Layer) (file : Text) (number : Nat) (lines : List Text) :
    (loadLines file l number lines).layer =
      (additions l.documents lines).foldl (fun m e => m.addToType e.1 e.2) l := by
  induction lines generalizing l number with
  | nil => rfl
  | cons line lines ih =>
    unfold loadLines additions Operation.accepted
    split
    · exact ih l (number + 1)
    · cases ho : Operation.ofFields? (line.strip.fields (byte ' ')) with
      | none =>
        simp only [loadLine, ho]
        rfl
      | some o =>
        cases hfind : l.documents.find? o.id with
        | none =>
          simp only [loadLine, ho, hfind]
          rfl
        | some i =>
          obtain ⟨hresult, hlayer⟩ := loadLine_of_ofFields? file number ho hfind
          have hdocuments := (sound_loadLine l file number line.strip).documents
          simp only [hresult]
          rw [ih, hdocuments, hlayer]
          simp only [hfind, Option.isSome_some, if_true, List.filterMap_cons, additions]
          cases o.found? l.documents <;> rfl

/-- A file of operations adds what each accepted one finds, and nothing else. What one finds is the
tokens that lie within its bytes exactly if it is faithful, which it is whenever the end of its
bytes, counted from the first token, is within 32 bits. -/
theorem loadOperations_byteRanges {files : FileSystem} {contents : Text}
    (hdocs : ∀ d ∈ l.documents, d.WellFormed)
    (hlength : ∀ d ∈ l.documents, d.text.length < 2147483648)
    (hread : files.contentsOf file = .ok contents) :
    let loaded := (l.loadOperations files file).layer
    let accepted := Operation.accepted l.documents contents.lines
    ((loaded.documents = l.documents ∧ loaded.spanProperties = l.spanProperties ∧
        loaded.tokenProperties = l.tokenProperties) ∧
      ∀ type s, s ∈ loaded.instances type ↔
        s ∈ l.instances type ∨ ∃ o ∈ accepted, o.type = type ∧ o.found? l.documents = some s) ∧
    ∀ o ∈ accepted, ∃ i d, l.documents.find? o.id = some i ∧ l.documents[i]? = some d ∧
      ((∀ s, o.found? l.documents = some s ↔
        s.document = i ∧ d.Fills o.start (o.start + o.length) s) ↔ o.Faithful d) ∧
      (Text.IsInt32 (o.start + o.length - d.tokenStart 0) → o.Faithful d) := by
  have hlayer : (l.loadOperations files file).layer =
      (additions l.documents contents.lines).foldl (fun m e => m.addToType e.1 e.2) l := by
    rw [loadOperations, hread]
    exact layer_loadLines l file 1 contents.lines
  obtain ⟨hkept, hlabels⟩ := foldl_addToType l (additions l.documents contents.lines)
  refine ⟨⟨hlayer ▸ hkept, fun type s => ?_⟩, fun o ho => ?_⟩
  · rw [hlayer, ← mem_additions]
    exact (hlabels type).2 s
  · obtain ⟨⟨hstart, hbytes⟩, i, d, hfind, hd⟩ := Operation.of_mem_accepted ho
    have hmem := List.mem_of_getElem? hd
    have hfound : o.found? l.documents = o.span? d i := by
      simp only [Operation.found?, hfind, hd, Option.bind_eq_bind, Option.bind_some]
    refine ⟨i, d, hfind, hd, ?_, fun hfits => ?_⟩
    · rw [hfound]
      exact Operation.forall_span?_iff (hdocs d hmem) (hlength d hmem) hstart hbytes
    · obtain ⟨hlow, hhigh⟩ := hfits
      exact ⟨fun habove => by omega, fun hbelow => by omega⟩

/-- Two operations on a text that begins with spaces. One ends after the last token; the other
begins there, and its end is out of 32 bits. -/
theorem loadOperations_byteRanges_beyond_text :
    let d := Document.ofText (ascii "d1") (ascii "  a b c")
    let l := ofCorpus [d]
    let pair : Operation := ⟨ascii "d1", 4, 9, ascii "pair"⟩
    let beyond : Operation := ⟨ascii "d1", 2147483647, 2147483647, ascii "beyond"⟩
    let contents :=
      ascii "addToType d1 4 9 pair\naddToType d1 2147483647 2147483647 beyond\n"
    let file := ascii "labels.ops"
    let files := FileSystem.empty.put [ascii "tmp", ascii "work", file] (.file contents)
    ((∀ d ∈ l.documents, d.WellFormed) ∧ (∀ d ∈ l.documents, d.text.length < 2147483648) ∧
      files.contentsOf file = .ok contents) ∧
    Operation.accepted l.documents contents.lines = [pair, beyond] ∧
    ⟨0, 1, 3⟩ ∈ (l.loadOperations files file).layer.instances (ascii "pair") ∧
    (¬ Text.IsInt32 (beyond.start + beyond.length) ∧ beyond.Faithful d ∧
      ∀ s, beyond.found? l.documents = some s ↔
        s.document = 0 ∧ d.Fills beyond.start (beyond.start + beyond.length) s) := by
  intro d l pair beyond contents file files
  have hdocs : ∀ d ∈ l.documents, d.WellFormed :=
    List.forall_mem_singleton.2 (Document.ofText_wellFormed _ _)
  have hlength : ∀ d ∈ l.documents, d.text.length < 2147483648 := by decide
  have hread : files.contentsOf file = .ok contents := rfl
  have haccepted : Operation.accepted l.documents contents.lines = [pair, beyond] := by
    decide +kernel
  have hfound : pair.found? l.documents = some ⟨0, 1, 3⟩ := by decide +kernel
  have hfaithful : beyond.Faithful d := ⟨fun _ => by decide, fun hbelow => by
    exact absurd hbelow (by decide)⟩
  obtain ⟨⟨-, hinstances⟩, hexact⟩ := loadOperations_byteRanges hdocs hlength hread
  rw [haccepted] at hinstances hexact
  obtain ⟨i, e, hfind, he, hiff, -⟩ := hexact beyond (List.mem_cons_of_mem _ List.mem_cons_self)
  have hzero : l.documents.find? beyond.id = some 0 := by decide
  rw [hzero] at hfind
  cases hfind
  cases he
  exact ⟨⟨hdocs, hlength, hread⟩, haccepted,
    (hinstances _ _).2 (.inr ⟨pair, List.mem_cons_self, rfl, hfound⟩),
    by decide, hfaithful, hiff.2 hfaithful⟩

/-- Two operations on a text. The end of the first is out of 32 bits above, and the tokens within
its bytes are not added; the end of the second is out of them below, and tokens are added though
none lies within its bytes. -/
theorem loadOperations_of_end_out_of_range :
    let d := Document.ofText (ascii "d1") (ascii "a b c")
    let l := ofCorpus [d]
    let rest : Operation := ⟨ascii "d1", 2, 2147483647, ascii "rest"⟩
    let all : Operation := ⟨ascii "d1", -1, -2147483648, ascii "all"⟩
    let contents := ascii "addToType d1 2 2147483647 rest\naddToType d1 -1 -2147483648 all\n"
    let file := ascii "f"
    let files := FileSystem.empty.put [ascii "tmp", ascii "work", file] (.file contents)
    let loaded := l.loadOperations files file
    (d.WellFormed ∧ files.contentsOf file = .ok contents ∧ loaded.result = .ok () ∧
      Operation.accepted l.documents contents.lines = [rest, all]) ∧
    (¬ Text.IsInt32 (rest.start + rest.length) ∧
      d.Fills rest.start (rest.start + rest.length) ⟨0, 1, 3⟩ ∧
      loaded.layer.instances? rest.type = none) ∧
    (¬ Text.IsInt32 (all.start + all.length) ∧
      (∀ s, ¬ d.Fills all.start (all.start + all.length) s) ∧
      loaded.layer.instances? all.type = some (.singleton ⟨0, 0, 3⟩)) := by
  intro d l rest all contents file files loaded
  have hd : d.WellFormed := Document.ofText_wellFormed _ _
  refine ⟨⟨hd, rfl, by decide +kernel, by decide +kernel⟩, ⟨by decide, ?_, by decide +kernel⟩,
    by decide, fun s hs => ?_, by decide +kernel⟩
  · exact ⟨by decide, by decide, by decide⟩
  · have hlt := hd.spaced.lt_of_fills hs
    exact absurd hlt (by decide)

end Layer

end SpanRules
