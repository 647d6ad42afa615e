import SpanRules.Proofs.Document.Alignment
import SpanRules.Proofs.Layer.Growth
import SpanRules.Proofs.Layer.Selection

/-! Spans that are carried over from one layer to another by the bytes that they take up. A span of
groups of tokens is carried over to the tokens that are grouped, and from these back to itself. -/
namespace SpanRules

namespace Document
variable {d : Document} {rs : List (Nat × Nat)} {s : Span}

def withGroups (d : Document) (rs : List (Nat × Nat)) : Document :=
  { d with tokens := rs.map fun r => d.coveringToken r.1 r.2 }

/-- A span of groups takes up the bytes of a span of the tokens that are grouped. -/
theorem exists_span_of_tiles (htiles : Tiles 0 rs d.tokens.length) (hne : s.start < s.stop)
    (hle : s.stop ≤ rs.length) :
    ∃ t : Span, t.document = s.document ∧ t.start < t.stop ∧ t.stop ≤ d.tokens.length ∧
      d.charStart t = (d.withGroups rs).charStart s ∧
      d.charStop t = (d.withGroups rs).charStop s := by
  have hlength : (d.withGroups rs).tokens.length = rs.length := List.length_map _
  have hfirst := htiles.bounds (List.getElem_mem (show s.start < rs.length by omega))
  have hlast := htiles.bounds (List.getElem_mem (show s.stop - 1 < rs.length by omega))
  have hordered : rs[s.start].1 < rs[s.stop - 1].2 := by
    rcases Nat.lt_or_eq_of_le (Nat.le_sub_one_of_lt hne) with hlt | heq
    · have := List.pairwise_iff_getElem.1 htiles.ordered s.start (s.stop - 1) (by omega) (by omega)
        hlt
      omega
    · simp only [← heq]
      omega
  refine ⟨⟨s.document, rs[s.start].1, rs[s.stop - 1].2⟩, rfl, hordered, hlast.2.2, ?_, ?_⟩
  · rw [charStart, charStart, tokenStart_eq (d := d.withGroups rs) (by omega)]
    simp only [withGroups, List.getElem_map]
    rfl
  · rw [charStop_eq hordered hlast.2.2, charStop_eq (d := d.withGroups rs) hne (by omega)]
    simp only [withGroups, List.getElem_map]
    rw [coveringToken_stop hlast.2.1 hlast.2.2]

end Document

namespace Corpus

/-- Whether documents are others with their tokens grouped. -/
def Coarsens (coarse fine : Corpus) : Prop :=
  ∀ (i : Nat) (e : Document), coarse[i]? = some e → ∃ d rs, fine[i]? = some d ∧
    Document.Spaced d ∧ Tiles 0 rs d.tokens.length ∧ e = d.withGroups rs

theorem Coarsens.spaced {coarse fine : Corpus} (h : coarse.Coarsens fine) :
    ∀ e ∈ coarse, e.Spaced := by
  intro e he
  obtain ⟨i, hi, rfl⟩ := List.getElem_of_mem he
  obtain ⟨d, rs, -, hspaced, htiles, heq⟩ := h i _ (List.getElem?_eq_getElem hi)
  rw [heq]
  exact Document.spaced_of_tiles hspaced htiles

theorem coarsens_pseudotokens {l : Layer} {type : Text} (hdocuments : ∀ d ∈ l.documents, d.Spaced)
    (hinstances : ∀ t ∈ l.instances type, l.documents.HasSpan t) :
    (l.pseudotokens type).Coarsens l.documents := by
  intro i e he
  rw [Layer.pseudotokens, List.getElem?_mapIdx, Option.map_eq_some_iff] at he
  obtain ⟨d, hd, rfl⟩ := he
  refine ⟨d, l.groups type i d, hd, hdocuments d (List.mem_of_getElem? hd), ?_, ?_⟩
  · apply Layer.tiles_groups
    rintro t ht rfl
    exact (hinstances t ht).stop_le hd
  · rw [Document.grouped_eq_map]
    rfl

end Corpus

namespace Layer
variable {target source source' : Layer} {type : Text} {s t u : Span} {d e : Document}

theorem align?_congr (h : source'.documents = source.documents) :
    target.align? source' s = target.align? source s := by
  unfold align? document
  rw [h]

theorem align?_eq_some_iff (hd : target.documents[s.document]? = some d)
    (he : source.documents[s.document]? = some e) (hspaced : d.Spaced) :
    target.align? source s = some t ↔
      t.document = s.document ∧ d.Fills (e.charStart s) (e.charStop s) t := by
  have hspan : d.alignSpan? e s = some t ↔
      t.document = s.document ∧ d.Fills (e.charStart s) (e.charStop s) t :=
    hspaced.properSubspan?_eq_some_iff
  simp only [align?, hd, document_of_getElem? he]
  split
  · rename_i hnil
    constructor
    · intro h
      cases h
    · rintro ⟨-, hfills⟩
      have hne := hfills.nonempty
      have hle := hfills.stop_le
      rw [hnil] at hle
      exact absurd hne (by simp at hle; omega)
  · exact hspan

/-- An empty span lies on no token. -/
theorem align?_of_isEmpty (hd : target.documents[s.document]? = some d)
    (he : source.documents[s.document]? = some e) (hspaced : d.Spaced) (h : s.isEmpty = true) :
    target.align? source s = none := by
  cases hs : target.align? source s with
  | none => rfl
  | some t =>
    have hlt := hspaced.lt_of_fills ((align?_eq_some_iff hd he hspaced).1 hs).2
    rw [Document.charStop_of_isEmpty h] at hlt
    exact absurd hlt (Int.lt_irrefl _)

/-- A span is carried over to the span that takes up the same bytes, if there is one. -/
theorem align?_of_same_bytes (hd : target.documents[s.document]? = some d)
    (he : source.documents[s.document]? = some e) (hspaced : d.Spaced)
    (hdocument : t.document = s.document) (hne : t.start < t.stop) (hle : t.stop ≤ d.tokens.length)
    (hstart : d.charStart t = e.charStart s) (hstop : d.charStop t = e.charStop s) :
    target.align? source s = some t := by
  rw [align?_eq_some_iff hd he hspaced, ← hstart, ← hstop]
  exact ⟨hdocument, hspaced.fills_self hne hle⟩

/-- Every span of the one layer that is carried over to the other one and back lies in the span that
it comes from. -/
theorem contains_of_align? (hs : source.documents.HasSpan s)
    (hsource : ∀ d ∈ source.documents, d.Spaced) (htarget : ∀ d ∈ target.documents, d.Spaced)
    (ht : target.align? source s = some t) (hu : source.align? target t = some u) :
    s.contains u = true := by
  obtain ⟨e, he, hle, hstop⟩ := hs
  have hspaced := hsource e (List.mem_of_getElem? he)
  cases hd : target.documents[s.document]? with
  | none => simp [align?, hd] at ht
  | some d =>
    have hspaced' := htarget d (List.mem_of_getElem? hd)
    obtain ⟨hdocument, hfills⟩ := (align?_eq_some_iff hd he hspaced').1 ht
    rw [← hdocument] at hd he
    obtain ⟨hdocument', hfills'⟩ := (align?_eq_some_iff he hd hspaced).1 hu
    have hempty : s.isEmpty = false := by
      rw [← Bool.not_eq_true]
      intro hempty
      rw [align?_of_isEmpty (hdocument ▸ hd) (hdocument ▸ he) hspaced' hempty] at ht
      cases ht
    have hne := Span.start_lt_stop hle hempty
    have hbounds := hfills.bounds
    exact (hspaced.fills_self hne hstop).contains hfills' hbounds.1 hbounds.2
      (hdocument'.trans hdocument)

/-- A span of groups is carried over to the tokens that are grouped, and from there to itself. -/
theorem align?_align? {coarse fine : Layer} (h : coarse.documents.Coarsens fine.documents)
    (hs : coarse.documents.HasSpan s) :
    (∃ t, fine.align? coarse s = some t ∧ coarse.align? fine t = some u) ↔
      s.isEmpty = false ∧ u = s := by
  obtain ⟨e, he, hle, hstop⟩ := hs
  obtain ⟨d, rs, hd, hspaced, htiles, rfl⟩ := h _ e he
  cases hempty : s.isEmpty with
  | true => simp [align?_of_isEmpty hd he hspaced hempty]
  | false =>
    have hlt := Span.start_lt_stop hle hempty
    have hlength : (d.withGroups rs).tokens.length = rs.length := List.length_map _
    obtain ⟨t, hdocument, hlt', hle', hfirst, hlast⟩ :=
      Document.exists_span_of_tiles htiles hlt (hlength ▸ hstop)
    have ht : fine.align? coarse s = some t :=
      align?_of_same_bytes hd he hspaced hdocument hlt' hle' hfirst hlast
    rw [← hdocument] at hd he
    have hback : coarse.align? fine t = some s :=
      align?_of_same_bytes he hd (Document.spaced_of_tiles hspaced htiles) hdocument.symm hlt hstop
        hfirst.symm hlast.symm
    simp [ht, hback, eq_comm]

/-- A span is found again in its own layer, if it is not empty. -/
theorem align?_self (hs : source.documents.HasSpan s)
    (hspaced : ∀ d ∈ source.documents, d.Spaced) :
    source.align? source s = some t ↔ s.isEmpty = false ∧ t = s := by
  obtain ⟨e, he, hle, hstop⟩ := hs
  have hspaced := hspaced e (List.mem_of_getElem? he)
  cases hempty : s.isEmpty with
  | true => simp [align?_of_isEmpty he he hspaced hempty]
  | false =>
    have hlt := Span.start_lt_stop hle hempty
    simp [align?_of_same_bytes he he hspaced rfl hlt hstop rfl rfl, eq_comm]

/-- What is there of a type after an import: what was there, and what takes the place of the spans
that are imported. -/
theorem exists_instances?_importSpans (target source : Layer) (type : Text)
    (spans : OrderedSet Span) :
    ∃ found, (target.importSpans source type spans).instances? type = some found ∧
      ∀ t, t ∈ found ↔
        (∃ s ∈ spans, target.align? source s = some t) ∨ t ∈ target.instances type := by
  have hdeclared : (target.importSpans source type spans).isDeclared type = true := by
    have hgrows : (target.declareType type).Grows (target.importSpans source type spans) :=
      (Edited.refl.addAllToType _).grows
    exact hgrows.types type (isDeclared_iff.2 ⟨_, by rw [instances?_declareType, if_pos rfl]⟩)
  refine ⟨_, instances?_of_isDeclared hdeclared, fun t => ?_⟩
  have hmem : t ∈ (target.importSpans source type spans).instances type ↔
      t ∈ spans.toList.filterMap (target.align? source) ∨
        t ∈ (target.declareType type).instances type := Effect.mem_instances_applyAll_spanType
  rw [instances_declareType, List.mem_filterMap] at hmem
  exact hmem

end Layer

end SpanRules
