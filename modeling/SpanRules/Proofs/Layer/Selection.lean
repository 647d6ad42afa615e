import Mathlib.Logic.ExistsUnique
import SpanRules.Proofs.Layer.Instances
import SpanRules.Proofs.Layer.Pseudotoken
import SpanRules.Store.Level

/-! Which instances become tokens when tokens are grouped. The groups tile the tokens of a document
from left to right; a group of several tokens is an instance that no instance before it overlaps and
none with its start outlasts. -/
namespace SpanRules

def Span.Overlaps (s t : Span) : Prop :=
  s.document = t.document ∧ s.start < t.stop ∧ t.start < s.stop

def Token.Covers (u t : Token) : Prop := u.start ≤ t.start ∧ t.stop ≤ u.stop

namespace Layer
variable {l : Layer} {type : Text} {s : Span} {i p e : Nat}

/-- Whether a span is a non-empty instance of a type and none with its start is longer. -/
structure Longest (l : Layer) (type : Text) (s : Span) : Prop where
  instance_of : s ∈ l.instances type
  nonempty : s.start < s.stop
  longest : ∀ t ∈ l.instances type, t.document = s.document → t.start = s.start → t.stop ≤ s.stop

/-- Whether an instance of a type becomes a token: it is a longest one, and overlaps no instance
that starts earlier and becomes a token. -/
def Selected (l : Layer) (type : Text) (s : Span) : Prop :=
  l.Longest type s ∧ ∀ t : Span, t.start < s.start → l.Selected type t → ¬ t.Overlaps s
termination_by s.start

theorem selected_iff : l.Selected type s ↔
    l.Longest type s ∧ ∀ t : Span, t.start < s.start → l.Selected type t → ¬ t.Overlaps s := by
  rw [Selected]

theorem foldl_max_stop (ss : List Span) (p : Nat) :
    p ≤ ss.foldl (fun stop s => max stop s.stop) p ∧
      (∀ s ∈ ss, s.stop ≤ ss.foldl (fun stop s => max stop s.stop) p) ∧
      (ss.foldl (fun stop s => max stop s.stop) p = p ∨
        ∃ s ∈ ss, s.stop = ss.foldl (fun stop s => max stop s.stop) p) := by
  induction ss generalizing p with
  | nil => simp
  | cons s ss ih =>
    obtain ⟨hle, hstop, heq⟩ := ih (max p s.stop)
    rw [List.foldl_cons]
    refine ⟨by omega, List.forall_mem_cons.2 ⟨by omega, hstop⟩, ?_⟩
    rcases heq with heq | ⟨t, ht, heq⟩
    · rcases Nat.le_total s.stop p with hp | hp
      · exact .inl (by omega)
      · exact .inr ⟨s, List.mem_cons_self, by omega⟩
    · exact .inr ⟨t, List.mem_cons_of_mem _ ht, heq⟩

theorem le_longestEnd (l : Layer) (type : Text) (i p : Nat) : p ≤ l.longestEnd type i p :=
  (foldl_max_stop _ p).1

theorem stop_le_longestEnd (hs : s ∈ l.instances type) :
    s.stop ≤ l.longestEnd type s.document s.start := by
  by_cases hle : s.start ≤ s.stop
  · exact (foldl_max_stop _ _).2.1 s (mem_instancesAt.2 ⟨hs, rfl, rfl, hle⟩)
  · have := l.le_longestEnd type s.document s.start
    omega

/-- The end of the longest instance is that of an instance, if it is not the place itself. -/
theorem mem_instances_longestEnd (h : p < l.longestEnd type i p) :
    ⟨i, p, l.longestEnd type i p⟩ ∈ l.instances type := by
  rcases (foldl_max_stop (l.instancesAt type i p) p).2.2 with heq | ⟨s, hs, heq⟩
  · exact absurd heq (Nat.ne_of_gt h)
  · obtain ⟨hmem, rfl, rfl, -⟩ := mem_instancesAt.1 hs
    have hspan : s = ⟨s.document, s.start, l.longestEnd type s.document s.start⟩ := by
      rw [longestEnd, ← heq]
    exact hspan ▸ hmem

theorem longest_iff : l.Longest type ⟨i, p, e⟩ ↔ p < e ∧ l.longestEnd type i p = e := by
  constructor
  · intro h
    have hlt : p < e := h.nonempty
    have hle : e ≤ l.longestEnd type i p := stop_le_longestEnd h.instance_of
    have hge : l.longestEnd type i p ≤ e :=
      h.longest _ (mem_instances_longestEnd (by omega)) rfl rfl
    exact ⟨hlt, by omega⟩
  · rintro ⟨hlt, rfl⟩
    refine ⟨mem_instances_longestEnd hlt, hlt, ?_⟩
    rintro t ht rfl rfl
    exact stop_le_longestEnd ht

end Layer

/-- Whether ranges follow each other without gaps and take up all from one place up to another. -/
def Tiles : (start : Nat) → List (Nat × Nat) → (stop : Nat) → Prop
  | a, [], b => a = b
  | a, r :: rs, b => r.1 = a ∧ r.1 < r.2 ∧ Tiles r.2 rs b

namespace Tiles
variable {rs : List (Nat × Nat)} {r q : Nat × Nat} {a b k : Nat}

theorem bounds (h : Tiles a rs b) (hr : r ∈ rs) : a ≤ r.1 ∧ r.1 < r.2 ∧ r.2 ≤ b := by
  have hle : ∀ {rs a}, Tiles a rs b → a ≤ b := by
    intro rs
    induction rs with
    | nil => exact fun h => Nat.le_of_eq h
    | cons q rs ih =>
      rintro a ⟨rfl, hlt, hrs⟩
      have := ih hrs
      omega
  induction rs generalizing a with
  | nil => cases hr
  | cons q rs ih =>
    obtain ⟨rfl, hlt, hrs⟩ := h
    rcases List.mem_cons.1 hr with rfl | hmem
    · exact ⟨Nat.le_refl _, hlt, hle hrs⟩
    · have := ih hrs hmem
      omega

theorem ordered (h : Tiles a rs b) : rs.Pairwise fun r q => r.2 ≤ q.1 := by
  induction rs generalizing a with
  | nil => exact .nil
  | cons r rs ih =>
    obtain ⟨-, -, hrs⟩ := h
    exact .cons (fun q hq => (bounds hrs hq).1) (ih hrs)

theorem exists_mem (h : Tiles a rs b) (hk : a ≤ k ∧ k < b) : ∃ r ∈ rs, r.1 ≤ k ∧ k < r.2 := by
  induction rs generalizing a with
  | nil =>
    have : a = b := h
    omega
  | cons r rs ih =>
    obtain ⟨rfl, -, hrs⟩ := h
    by_cases hlt : k < r.2
    · exact ⟨r, List.mem_cons_self, hk.1, hlt⟩
    · obtain ⟨q, hq, hqk⟩ := ih hrs ⟨by omega, hk.2⟩
      exact ⟨q, List.mem_cons_of_mem _ hq, hqk⟩

/-- No two ranges share a place. -/
theorem eq_of_mem (h : Tiles a rs b) (hr : r ∈ rs) (hq : q ∈ rs) (hrk : r.1 ≤ k ∧ k < r.2)
    (hqk : q.1 ≤ k ∧ k < q.2) : r = q := by
  induction rs generalizing a with
  | nil => cases hr
  | cons t rs ih =>
    obtain ⟨rfl, -, hrs⟩ := h
    rcases List.mem_cons.1 hr with rfl | hr'
    · rcases List.mem_cons.1 hq with rfl | hq'
      · rfl
      · have := (hrs.bounds hq').1
        omega
    · rcases List.mem_cons.1 hq with rfl | hq'
      · have := (hrs.bounds hr').1
        omega
      · exact ih hrs hr' hq'

/-- Of two ranges, the one that starts earlier ends before the other starts. -/
theorem stop_le_start (h : Tiles a rs b) (hr : r ∈ rs) (hq : q ∈ rs) (hlt : r.1 < q.1) :
    r.2 ≤ q.1 := by
  apply Nat.le_of_not_lt
  intro hoverlap
  have hqlt := (h.bounds hq).2.1
  obtain rfl : r = q := h.eq_of_mem hr hq ⟨Nat.le_of_lt hlt, hoverlap⟩ ⟨Nat.le_refl _, hqlt⟩
  exact Nat.lt_irrefl _ hlt

end Tiles

namespace Document
variable {d : Document} {stopOf : Nat → Nat} {ts : List Token} {r : Nat × Nat} {u t : Token}
  {i skip a b j k n : Nat}

/-- Whether a token reaches from one token of a document to another, the last before place `b`, and
covers just the tokens in between. -/
structure Joins (d : Document) (u : Token) (a b : Nat) : Prop where
  reaches : ∃ first last, d.tokens[a]? = some first ∧ d.tokens[b - 1]? = some last ∧
    u = tokenAt d.text first.start last.stop
  covers : ∀ k t, d.tokens[k]? = some t → (u.Covers t ↔ a ≤ k ∧ k < b)

/-- The first and last places of the groups of tokens. -/
def groups (stopOf : Nat → Nat) : (i skip : Nat) → List Token → List (Nat × Nat)
  | _, _, [] => []
  | i, skip + 1, _ :: ts => groups stopOf (i + 1) skip ts
  | i, 0, _ :: ts =>
    let stop := max (stopOf i) (i + 1)
    (i, stop) :: groups stopOf (i + 1) (stop - i - 1) ts

theorem grouped_eq_map : d.grouped stopOf i skip ts =
    (groups stopOf i skip ts).map fun r => d.coveringToken r.1 r.2 := by
  induction ts generalizing i skip with
  | nil => cases skip <;> rfl
  | cons t ts ih =>
    cases skip with
    | zero => simp only [grouped, groups, ih, List.map_cons]
    | succ skip => exact ih

theorem tiles_groups (hstop : ∀ k < n, stopOf k ≤ n) (hn : i + ts.length = n)
    (hskip : skip ≤ ts.length) : Tiles (i + skip) (groups stopOf i skip ts) n := by
  induction ts generalizing i skip with
  | nil =>
    obtain rfl : skip = 0 := Nat.le_zero.1 hskip
    exact hn
  | cons t ts ih =>
    rw [List.length_cons] at hn hskip
    cases skip with
    | succ skip =>
      have hrest : Tiles (i + 1 + skip) (groups stopOf (i + 1) skip ts) n :=
        ih (by omega) (by omega)
      rwa [show i + 1 + skip = i + (skip + 1) by omega] at hrest
    | zero =>
      have hle := hstop i (by omega)
      generalize hend : max (stopOf i) (i + 1) = stop
      have hrest : Tiles (i + 1 + (stop - i - 1)) (groups stopOf (i + 1) (stop - i - 1) ts) n :=
        ih (by omega) (by omega)
      rw [show i + 1 + (stop - i - 1) = stop by omega] at hrest
      rw [groups, hend]
      exact ⟨rfl, by simp only; omega, hrest⟩

theorem stop_of_mem_groups (hr : r ∈ groups stopOf i skip ts) :
    r.2 = max (stopOf r.1) (r.1 + 1) := by
  induction ts generalizing i skip with
  | nil => cases skip <;> cases hr
  | cons t ts ih =>
    cases skip with
    | succ skip => exact ih hr
    | zero =>
      rcases List.mem_cons.1 hr with rfl | hr
      · rfl
      · exact ih hr

theorem Spaced.joins_coveringToken (hd : d.Spaced) (hab : a < b) (hb : b ≤ d.tokens.length) :
    d.Joins (d.coveringToken a b) a b := by
  have ha : a < d.tokens.length := by omega
  have hstart : (d.coveringToken a b).start = d.tokens[a].start := tokenStart_eq ha
  have hstop : (d.coveringToken a b).stop = d.tokens[b - 1].stop := coveringToken_stop hab hb
  constructor
  · refine ⟨_, _, List.getElem?_eq_getElem ha, List.getElem?_eq_getElem (by omega), ?_⟩
    rw [← hstart, ← hstop]
    rfl
  · intro k t ht
    obtain ⟨hk, rfl⟩ := List.getElem?_eq_some_iff.1 ht
    have hwithin := (hd.fills_self (s := ⟨0, a, b⟩) hab hb).within k hk
    rw [Int.ofNat_le, Int.ofNat_le] at hwithin
    exact hwithin

/-- A token that covers any token at all tells between which places it reaches. -/
theorem Joins.unique {a' b' : Nat} (h : d.Joins u a b) (h' : d.Joins u a' b') (hab : a < b)
    (hb : b ≤ d.tokens.length) : a' = a ∧ b' = b := by
  have hiff : ∀ k < d.tokens.length, (a ≤ k ∧ k < b ↔ a' ≤ k ∧ k < b') := by
    intro k hk
    rw [← h.covers k _ (List.getElem?_eq_getElem hk), h'.covers k _ (List.getElem?_eq_getElem hk)]
  obtain ⟨_, _, hfirst, hlast, -⟩ := h'.reaches
  obtain ⟨ha', -⟩ := List.getElem?_eq_some_iff.1 hfirst
  obtain ⟨hb', -⟩ := List.getElem?_eq_some_iff.1 hlast
  have h₁ := hiff a (by omega)
  have h₂ := hiff (b - 1) (by omega)
  have h₃ := hiff a' ha'
  have h₄ := hiff (b' - 1) hb'
  omega

section
variable {rs : List (Nat × Nat)} (hd : d.Spaced) (htiles : Tiles 0 rs d.tokens.length)
include hd htiles

theorem joins_of_mem (hr : r ∈ rs) : d.Joins (d.coveringToken r.1 r.2) r.1 r.2 := by
  obtain ⟨-, hlt, hle⟩ := htiles.bounds hr
  exact hd.joins_coveringToken hlt hle

/-- Groups that tile the tokens are spaced as the tokens are. -/
theorem spaced_of_tiles :
    Spaced { d with tokens := rs.map fun r => d.coveringToken r.1 r.2 } := by
  constructor
  · rw [List.forall_mem_map]
    intro r hr
    obtain ⟨-, hlt, hle⟩ := htiles.bounds hr
    exact hd.start_lt_stop_coveringToken hlt hle
  · rw [List.pairwise_map]
    apply htiles.ordered.imp_of_mem
    intro r q hr hq hrq
    obtain ⟨-, hlt, -⟩ := htiles.bounds hr
    obtain ⟨-, hlt', hle'⟩ := htiles.bounds hq
    exact hd.stop_coveringToken_le hlt hrq (by omega)

/-- Each token lies in just one of the groups that tile the tokens. -/
theorem existsUnique_covers (ht : t ∈ d.tokens) :
    ∃! u, u ∈ rs.map (fun r => d.coveringToken r.1 r.2) ∧ u.Covers t := by
  obtain ⟨k, hk, rfl⟩ := List.getElem_of_mem ht
  have hcovers : ∀ r ∈ rs,
      (d.coveringToken r.1 r.2).Covers d.tokens[k] ↔ r.1 ≤ k ∧ k < r.2 :=
    fun r hr => (joins_of_mem hd htiles hr).covers k _ (List.getElem?_eq_getElem hk)
  obtain ⟨r, hr, hrk⟩ := htiles.exists_mem ⟨Nat.zero_le k, hk⟩
  refine ⟨_, ⟨List.mem_map_of_mem hr, (hcovers r hr).2 hrk⟩, ?_⟩
  rintro u ⟨hu, hku⟩
  obtain ⟨q, hq, rfl⟩ := List.mem_map.1 hu
  rw [htiles.eq_of_mem hq hr ((hcovers q hq).1 hku) hrk]

end

end Document

namespace Layer
variable {l : Layer} {type : Text} {d : Document} {i a b k : Nat} {u : Token}

def groups (l : Layer) (type : Text) (i : Nat) (d : Document) : List (Nat × Nat) :=
  Document.groups (l.longestEnd type i) 0 0 d.tokens

/-- How the tokens of the document at place `i` of a layer are those of another document: each lies
in just one token there, each token there is one of them or a selected instance, and the instances
that are tokens there are the selected ones. -/
structure Groups (l : Layer) (type : Text) (i : Nat) (d d' : Document) : Prop where
  spaced : d'.Spaced
  covered : ∀ t ∈ d.tokens, ∃! u, u ∈ d'.tokens ∧ u.Covers t
  joined : ∀ u ∈ d'.tokens, (∃ k, d.Joins u k (k + 1)) ∨
    ∃ s, l.Selected type s ∧ s.document = i ∧ d.Joins u s.start s.stop
  selected : ∀ s ∈ l.instances type, s.document = i →
    (l.Selected type s ↔ ∃ u ∈ d'.tokens, d.Joins u s.start s.stop)

section
variable (hinstances : ∀ s ∈ l.instances type, s.document = i → s.stop ≤ d.tokens.length)
include hinstances

theorem tiles_groups : Tiles 0 (l.groups type i d) d.tokens.length := by
  have hstop : ∀ k < d.tokens.length, l.longestEnd type i k ≤ d.tokens.length := by
    intro k hk
    by_cases hlt : k < l.longestEnd type i k
    · exact hinstances _ (mem_instances_longestEnd hlt) rfl
    · omega
  exact Document.tiles_groups hstop (Nat.zero_add _) (Nat.zero_le _)

/-- The selected instances are the longest ones at which a group starts. The groups before such an
instance that it could overlap are selected instances themselves, by induction on the start. -/
theorem selected_iff_mem_groups :
    l.Selected type ⟨i, a, b⟩ ↔ (a, b) ∈ l.groups type i d ∧ l.Longest type ⟨i, a, b⟩ := by
  have htiles := tiles_groups hinstances
  induction a using Nat.strongRecOn generalizing b with
  | ind a ih =>
    rw [selected_iff]
    constructor
    · rintro ⟨hlongest, hapart⟩
      obtain ⟨hlt, hend⟩ := longest_iff.1 hlongest
      have hb : b ≤ d.tokens.length := hinstances _ hlongest.instance_of rfl
      obtain ⟨⟨a', b'⟩, hr, ha', hb'⟩ := htiles.exists_mem (k := a) ⟨Nat.zero_le _, by omega⟩
      simp only at ha' hb'
      have hstop : b' = max (l.longestEnd type i a') (a' + 1) := Document.stop_of_mem_groups hr
      rcases Nat.lt_or_eq_of_le ha' with hlt' | rfl
      · have hselected := (ih a' hlt').2 ⟨hr, longest_iff.2 ⟨by omega, by omega⟩⟩
        have hoverlap : Span.Overlaps ⟨i, a', b'⟩ ⟨i, a, b⟩ := ⟨rfl, by simp only; omega, hb'⟩
        exact absurd hoverlap (hapart _ hlt' hselected)
      · obtain rfl : b' = b := by omega
        exact ⟨hr, hlongest⟩
    · rintro ⟨hr, hlongest⟩
      refine ⟨hlongest, ?_⟩
      rintro ⟨_, a', b'⟩ hlt hselected ⟨rfl, hoverlap, hoverlap'⟩
      have hr' := ((ih a' hlt).1 hselected).1
      have := htiles.stop_le_start hr' hr hlt
      simp only at hoverlap hoverlap' this
      omega

/-- A group is one token or a selected instance. -/
theorem selected_of_mem_groups (hr : (a, b) ∈ l.groups type i d) :
    b = a + 1 ∨ l.Selected type ⟨i, a, b⟩ := by
  have hstop : b = max (l.longestEnd type i a) (a + 1) := Document.stop_of_mem_groups hr
  by_cases hlt : a < l.longestEnd type i a
  · have hlongest := longest_iff.2 ⟨by omega, show l.longestEnd type i a = b by omega⟩
    exact .inr ((selected_iff_mem_groups hinstances).2 ⟨hr, hlongest⟩)
  · exact .inl (by omega)

/-- An instance is selected if it is a group, also one of a single token. -/
theorem selected_of_instance (hs : ⟨i, a, b⟩ ∈ l.instances type) :
    l.Selected type ⟨i, a, b⟩ ↔ (a, b) ∈ l.groups type i d := by
  rw [selected_iff_mem_groups hinstances, and_iff_left_iff_imp]
  intro hr
  have hlt := ((tiles_groups hinstances).bounds hr).2.1
  have hstop : b = max (l.longestEnd type i a) (a + 1) := Document.stop_of_mem_groups hr
  have hend : b ≤ l.longestEnd type i a := stop_le_longestEnd hs
  exact longest_iff.2 ⟨hlt, by omega⟩

theorem groups_pseudotokens (hd : d.Spaced) :
    l.Groups type i d { d with tokens := d.grouped (l.longestEnd type i) 0 0 d.tokens } := by
  have htiles := tiles_groups hinstances
  have htokens : d.grouped (l.longestEnd type i) 0 0 d.tokens =
      (l.groups type i d).map fun r => d.coveringToken r.1 r.2 := Document.grouped_eq_map
  have hjoins : ∀ r ∈ l.groups type i d, d.Joins (d.coveringToken r.1 r.2) r.1 r.2 :=
    fun r hr => Document.joins_of_mem hd htiles hr
  rw [htokens]
  refine ⟨Document.spaced_of_tiles hd htiles,
    fun t ht => Document.existsUnique_covers hd htiles ht, ?_, ?_⟩
  · rw [List.forall_mem_map]
    rintro ⟨a, b⟩ hr
    rcases selected_of_mem_groups hinstances hr with rfl | hselected
    · exact .inl ⟨a, hjoins _ hr⟩
    · exact .inr ⟨⟨i, a, b⟩, hselected, rfl, hjoins _ hr⟩
  · rintro ⟨j, a, b⟩ hs hj
    obtain rfl : j = i := hj
    rw [selected_of_instance hinstances hs]
    constructor
    · intro hr
      exact ⟨_, List.mem_map_of_mem hr, hjoins _ hr⟩
    · rintro ⟨u, hu, hu'⟩
      obtain ⟨⟨a', b'⟩, hr, rfl⟩ := List.mem_map.1 hu
      obtain ⟨-, hlt, hle⟩ := htiles.bounds hr
      obtain ⟨rfl, rfl⟩ : a = a' ∧ b = b' := (hjoins _ hr).unique hu' hlt hle
      exact hr

end

end Layer

namespace Store

/-- A level of pseudotokens is made for every declared type under every new name. In each document
the tokens of the source are grouped: each lies in just one token, and what is grouped are the
selected instances of the type, which are those that are not empty, than which none with the same
start is longer, and which overlap no selected instance that starts earlier. -/
theorem createLevel_groups {s : Store} {source : Layer} {level type : Text}
    (hlevel : s.levels.contains level = false) (htype : source.isDeclared type = true)
    (hdocuments : ∀ d ∈ source.documents, d.Spaced)
    (hinstances : ∀ t ∈ source.instances type, source.documents.HasSpan t) :
    (∃ documents : Corpus, s.createLevel level (ascii "pseudotoken") type source =
        .ok (s.setLayer level (.ofCorpus documents)) ∧
      documents.texts = source.documents.texts ∧
      ∀ i d d', source.documents[i]? = some d → documents[i]? = some d' →
        source.Groups type i d d') ∧
      ∀ t, source.Selected type t ↔ t ∈ source.instances type ∧ t.start < t.stop ∧
        (∀ u ∈ source.instances type, u.document = t.document → u.start = t.start →
          u.stop ≤ t.stop) ∧
        ∀ u, source.Selected type u → u.start < t.start → ¬ u.Overlaps t := by
  constructor
  · refine ⟨source.pseudotokens type, ?_, source.texts_pseudotokens type, ?_⟩
    · have hstrategy : Strategy.ofName? (ascii "pseudotoken").beforeNul = some .pseudotoken := rfl
      rw [createLevel, if_neg (by simp [hlevel])]
      simp only [hstrategy, retokenize, htype, if_true]
      rfl
    · intro i d d' hd hd'
      simp only [Layer.pseudotokens, List.getElem?_mapIdx, hd, Option.map_some,
        Option.some.injEq] at hd'
      subst hd'
      refine Layer.groups_pseudotokens ?_ (hdocuments d (List.mem_of_getElem? hd))
      rintro t ht rfl
      exact (hinstances t ht).stop_le hd
  · intro t
    rw [Layer.selected_iff]
    constructor
    · rintro ⟨h, hapart⟩
      exact ⟨h.instance_of, h.nonempty, h.longest, fun u hu hlt => hapart u hlt hu⟩
    · rintro ⟨hmem, hne, hlongest, hapart⟩
      exact ⟨⟨hmem, hne, hlongest⟩, fun u hlt hu => hapart u hu hlt⟩

/-- Of two instances that cross, and of two that begin together, one becomes a token. -/
theorem createLevel_groups_crossing :
    let d : Document := .ofText (ascii "d") (ascii "a b c d")
    let T := ascii "T"
    let source := (Layer.ofCorpus [d]).addAllToType T [⟨0, 0, 0⟩, ⟨0, 0, 1⟩, ⟨0, 0, 2⟩, ⟨0, 1, 4⟩]
    let s : Store := .ofCorpus [d]
    (s.levels.contains (ascii "new") = false ∧ source.isDeclared T = true ∧
      (∀ d ∈ source.documents, d.Spaced) ∧
      ∀ t ∈ source.instances T, source.documents.HasSpan t) ∧
    (∃ documents : Corpus, s.createLevel (ascii "new") (ascii "pseudotoken") T source =
        .ok (s.setLayer (ascii "new") (.ofCorpus documents)) ∧
      documents.texts = source.documents.texts ∧
      ∀ i d d', source.documents[i]? = some d → documents[i]? = some d' →
        source.Groups T i d d') ∧
    source.Selected T ⟨0, 0, 2⟩ ∧ ¬ source.Selected T ⟨0, 0, 1⟩ ∧
      ¬ source.Selected T ⟨0, 1, 4⟩ := by
  intro d T source s
  have hlevel : s.levels.contains (ascii "new") = false := by decide
  have htype : source.isDeclared T = true := by decide
  have hdocuments : ∀ d ∈ source.documents, d.Spaced :=
    List.forall_mem_singleton.2 (Document.ofText_wellFormed _ _).spaced
  have hlist : (source.instances T).toList = [⟨0, 0, 0⟩, ⟨0, 0, 1⟩, ⟨0, 0, 2⟩, ⟨0, 1, 4⟩] := by
    decide
  have hinstances : ∀ t ∈ source.instances T, source.documents.HasSpan t := by
    intro t ht
    rw [OrderedSet.mem_def, hlist] at ht
    have hbounds : t.document = 0 ∧ t.start ≤ t.stop ∧ t.stop ≤ 4 := by
      revert t
      decide
    exact ⟨d, by rw [hbounds.1]; rfl, hbounds.2⟩
  obtain ⟨hgroups, hselected⟩ := createLevel_groups hlevel htype hdocuments hinstances
  have hfirst : source.Selected T ⟨0, 0, 2⟩ := by
    refine (hselected _).2 ⟨by decide, by decide, ?_, fun u _ hlt => absurd hlt (Nat.not_lt_zero _)⟩
    intro u hu
    rw [OrderedSet.mem_def, hlist] at hu
    revert u
    decide
  refine ⟨⟨hlevel, htype, hdocuments, hinstances⟩, hgroups, hfirst, ?_, ?_⟩
  · intro h
    have hle := ((hselected _).1 h).2.2.1 ⟨0, 0, 2⟩ (by decide) rfl rfl
    exact absurd hle (by decide)
  · intro h
    exact ((hselected _).1 h).2.2.2 _ hfirst (by decide) ⟨rfl, by decide, by decide⟩

end Store

end SpanRules
