import SpanRules.Document.Basic
import SpanRules.Proofs.Text.Glyphs

/-! Documents whose tokens are non-empty stretches of the text, in order and apart from each other.
The usual tokens of a text are such, and spans that are found by bytes lie within the tokens. -/
namespace SpanRules

/-- The tokens are non-empty, lie in the text, and each ends before the next begins. -/
structure Document.WellFormed (d : Document) : Prop where
  nonempty : ∀ t ∈ d.tokens, t.start < t.stop
  inside : ∀ t ∈ d.tokens, t.stop ≤ d.text.length
  ordered : d.tokens.Pairwise fun t u => t.stop ≤ u.start

namespace Document
variable {d : Document} {j k : Nat}

/-- The tokens are non-empty, and each ends before the next begins. -/
structure Spaced (d : Document) : Prop where
  nonempty : ∀ t ∈ d.tokens, t.start < t.stop
  ordered : d.tokens.Pairwise fun t u => t.stop ≤ u.start

theorem WellFormed.spaced (hd : d.WellFormed) : d.Spaced := ⟨hd.nonempty, hd.ordered⟩

theorem Spaced.stop_le_start (hd : d.Spaced) (hjk : j < k) (hk : k < d.tokens.length) :
    d.tokens[j].stop ≤ d.tokens[k].start :=
  List.pairwise_iff_getElem.1 hd.ordered j k (by omega) hk hjk

theorem Spaced.start_lt_stop (hd : d.Spaced) (hk : k < d.tokens.length) :
    d.tokens[k].start < d.tokens[k].stop :=
  hd.nonempty _ (List.getElem_mem hk)

theorem Spaced.bounds_mono (hd : d.Spaced) (hjk : j ≤ k) (hk : k < d.tokens.length) :
    d.tokens[j].start ≤ d.tokens[k].start ∧ d.tokens[j].stop ≤ d.tokens[k].stop := by
  rcases Nat.lt_or_eq_of_le hjk with hlt | rfl
  · have hle := hd.stop_le_start hlt hk
    have hj := hd.start_lt_stop (show j < d.tokens.length by omega)
    have hk' := hd.start_lt_stop hk
    omega
  · exact ⟨Nat.le_refl _, Nat.le_refl _⟩

end Document

namespace Corpus

/-- Whether a span is one of the tokens of a document. -/
def HasSpan (docs : Corpus) (s : Span) : Prop :=
  ∃ d, docs[s.document]? = some d ∧ s.start ≤ s.stop ∧ s.stop ≤ d.tokens.length

instance (docs : Corpus) (s : Span) : Decidable (docs.HasSpan s) :=
  inferInstanceAs (Decidable (∃ d ∈ docs[s.document]?, s.start ≤ s.stop ∧ s.stop ≤ d.tokens.length))

def HasToken (docs : Corpus) (t : TokenRef) : Prop :=
  ∃ d, docs[t.document]? = some d ∧ t.index < d.tokens.length

def ofTexts (texts : List (Text × Text)) : Corpus := texts.map fun e => .ofText e.1 e.2

def texts (docs : Corpus) : List (Text × Text) := docs.map fun d => (d.id, d.text)

theorem texts_ofTexts (texts : List (Text × Text)) : (ofTexts texts).texts = texts := by
  simp [ofTexts, Corpus.texts, Document.ofText, Function.comp_def]

theorem HasSpan.stop_le {docs : Corpus} {s : Span} {d : Document} (hs : docs.HasSpan s)
    (hd : docs[s.document]? = some d) : s.stop ≤ d.tokens.length := by
  obtain ⟨e, he, -, hstop⟩ := hs
  rw [hd] at he
  cases he
  exact hstop

theorem HasSpan.of_contains {docs : Corpus} {s t : Span} (hs : docs.HasSpan s)
    (hst : s.contains t = true) (ht : t.start ≤ t.stop) : docs.HasSpan t := by
  obtain ⟨d, hd, _, hstop⟩ := hs
  simp only [Span.contains, Bool.and_eq_true, beq_iff_eq, decide_eq_true_eq] at hst
  exact ⟨d, hst.1.1 ▸ hd, ht, Nat.le_trans hst.2 hstop⟩

theorem HasSpan.hasToken {docs : Corpus} {s : Span} {t : TokenRef} (hs : docs.HasSpan s)
    (ht : t ∈ s.tokenRefs) : docs.HasToken t := by
  obtain ⟨d, hd, hle, hstop⟩ := hs
  obtain ⟨i, hi, rfl⟩ := List.mem_map.1 ht
  have := List.mem_range'_1.1 hi
  refine ⟨d, hd, ?_⟩
  simp only [Span.length] at this ⊢
  omega

theorem hasSpan_of_mem_spans {docs : Corpus} {s : Span} (h : s ∈ docs.spans) : docs.HasSpan s := by
  obtain ⟨i, hi, rfl⟩ := List.mem_mapIdx.1 h
  exact ⟨docs[i], by simp [Document.whole], Nat.zero_le _, Nat.le_refl _⟩

end Corpus

section
variable {g : Utf8.Glyph} {gs : List Utf8.Glyph} {ss : List Stretch} {s : Stretch} {t : Token}
  {pos : Nat}

namespace Stretch

theorem bytes_ne_nil_of_mem_push (hg : g.bytes ≠ []) (hss : ∀ s ∈ ss, s.bytes ≠ [])
    (h : s ∈ push g ss) : s.bytes ≠ [] := by
  cases ss with
  | nil => simp_all [push]
  | cons s' ss =>
    simp only [push] at h
    split at h <;> rcases List.mem_cons.1 h with rfl | h
    · simp [hg]
    · exact hss s (List.mem_cons_of_mem _ h)
    · exact hg
    · exact hss s h

theorem flatMap_bytes_push : (push g ss).flatMap (·.bytes) = g.bytes ++ ss.flatMap (·.bytes) := by
  cases ss with
  | nil => simp [push]
  | cons s' ss =>
    simp only [push]
    split <;> simp

theorem bytes_ne_nil_of_mem_foldr (hgs : ∀ g ∈ gs, g.bytes ≠ []) (h : s ∈ gs.foldr push []) :
    s.bytes ≠ [] := by
  induction gs generalizing s with
  | nil => simp at h
  | cons g gs ih =>
    obtain ⟨hg, hgs⟩ := List.forall_mem_cons.1 hgs
    exact bytes_ne_nil_of_mem_push hg (fun _ => ih hgs) h

theorem bytes_ne_nil_of_mem_ofText {t : Text} (h : s ∈ ofText t) : s.bytes ≠ [] :=
  bytes_ne_nil_of_mem_foldr (fun _ => Utf8.bytes_ne_nil_of_mem_glyphs) h

/-- Stretches lose no byte. -/
theorem flatMap_bytes_ofText (t : Text) : (ofText t).flatMap (·.bytes) = t := by
  have hfold : ∀ gs : List Utf8.Glyph,
      (gs.foldr push []).flatMap (·.bytes) = gs.flatMap (·.bytes) := by
    intro gs
    induction gs with
    | nil => rfl
    | cons g gs ih => rw [List.foldr_cons, flatMap_bytes_push, ih, List.flatMap_cons]
  rw [ofText, hfold, Utf8.flatMap_bytes_glyphs]

end Stretch

namespace Token

theorem bounds_of_mem_ofStretches (hss : ∀ s ∈ ss, s.bytes ≠ []) (h : t ∈ ofStretches pos ss) :
    pos ≤ t.start ∧ t.start < t.stop ∧ t.stop ≤ pos + (ss.flatMap (·.bytes)).length := by
  induction ss generalizing pos with
  | nil => simp [ofStretches] at h
  | cons s ss ih =>
    have hs := List.length_pos_iff.2 (hss s List.mem_cons_self)
    have ih := @ih (pos + s.bytes.length) fun s hs => hss s (List.mem_cons_of_mem _ hs)
    simp only [ofStretches, List.flatMap_cons, List.length_append] at h ⊢
    split at h
    · have := ih h
      omega
    · rcases List.mem_cons.1 h with rfl | h
      · simp only
        omega
      · have := ih h
        omega

theorem ordered_ofStretches (hss : ∀ s ∈ ss, s.bytes ≠ []) :
    (ofStretches pos ss).Pairwise fun t u => t.stop ≤ u.start := by
  induction ss generalizing pos with
  | nil => exact .nil
  | cons s ss ih =>
    have hss' : ∀ s ∈ ss, s.bytes ≠ [] := fun s hs => hss s (List.mem_cons_of_mem _ hs)
    simp only [ofStretches]
    split
    · exact ih hss'
    · exact .cons (fun u hu => (bounds_of_mem_ofStretches hss' hu).1) (ih hss')

end Token

end

namespace Document

theorem ofText_wellFormed (id text : Text) : (ofText id text).WellFormed := by
  have hss : ∀ s ∈ Stretch.ofText text, s.bytes ≠ [] :=
    fun _ => Stretch.bytes_ne_nil_of_mem_ofText
  constructor
  · intro t ht
    exact (Token.bounds_of_mem_ofStretches hss ht).2.1
  · intro t ht
    have hstop := (Token.bounds_of_mem_ofStretches hss ht).2.2
    rw [Stretch.flatMap_bytes_ofText, Nat.zero_add] at hstop
    exact hstop
  · exact Token.ordered_ofStretches hss

theorem ofTexts_wellFormed {texts : List (Text × Text)} {d : Document}
    (h : d ∈ Corpus.ofTexts texts) : d.WellFormed := by
  obtain ⟨e, _, rfl⟩ := List.mem_map.1 h
  exact ofText_wellFormed e.1 e.2

theorem length_spanTokens_le (d : Document) (s : Span) : (d.spanTokens s).length ≤ s.length := by
  simp only [spanTokens, List.length_take]
  exact Nat.min_le_left _ _

/-- A range of bytes takes up a run of tokens within the span. -/
theorem bounds_of_properSubspan? {d : Document} {s t : Span} {lo hi : Int}
    (h : d.properSubspan? s lo hi = some t) (hs : s.start ≤ s.stop) :
    s.contains t = true ∧ t.start ≤ t.stop := by
  have hlen := length_spanTokens_le d s
  simp only [properSubspan?] at h
  split at h
  · cases h
  · cases h
    generalize d.spanTokens s = ts at *
    generalize hn : (ts.takeWhile _).length = n
    have htake : n ≤ ts.length := hn ▸ (List.takeWhile_prefix _).length_le
    have hrun := (List.takeWhile_prefix (l := ts.drop n) fun t : Token =>
      decide (lo ≤ (t.start : Int) - d.charStart s) &&
        decide ((t.stop : Int) - d.charStart s ≤ hi)).length_le
    rw [List.length_drop] at hrun
    simp only [Span.contains, Span.length, Bool.and_eq_true, beq_self_eq_true, decide_eq_true_eq,
      true_and] at *
    omega

end Document

/-- A run of tokens that is found in a whole document belongs to it. -/
theorem Corpus.hasSpan_of_properSubspan? {docs : Corpus} {d : Document} {i : Nat} {t : Span}
    {lo hi : Int} (hd : docs[i]? = some d) (h : d.properSubspan? (d.whole i) lo hi = some t) :
    docs.HasSpan t := by
  obtain ⟨hst, hle⟩ := Document.bounds_of_properSubspan? h (Nat.zero_le _)
  exact HasSpan.of_contains ⟨d, hd, Nat.zero_le _, Nat.le_refl _⟩ hst hle

end SpanRules
