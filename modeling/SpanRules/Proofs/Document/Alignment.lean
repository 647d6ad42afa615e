import SpanRules.Proofs.Document.WellFormed

/-! The tokens that lie within a range of bytes. The scan for them finds all of them, and those of a
span are found again from its bytes. -/
namespace SpanRules

/-- A scan for the first run of elements that pass finds all of them, if none that fails stands
between two that pass. -/
theorem scan_iff {α : Type} {p : α → Bool} {xs : List α}
    (hp : ∀ i j k (hk : k < xs.length) (hij : i ≤ j) (hjk : j ≤ k),
      p xs[i] = true → p xs[k] = true → p xs[j] = true) {a n : Nat} (ha : xs.findIdx p = a)
    (hn : ((xs.drop a).takeWhile p).length = n) :
    a + n ≤ xs.length ∧ ∀ k (hk : k < xs.length), p xs[k] = true ↔ a ≤ k ∧ k < a + n := by
  rw [List.takeWhile_eq_take_findIdx_not, List.length_take,
    Nat.min_eq_left List.findIdx_le_length] at hn
  have hle : n ≤ (xs.drop a).length := hn ▸ List.findIdx_le_length
  have hle' : a ≤ xs.length := ha ▸ List.findIdx_le_length
  rw [List.length_drop] at hle
  have hbefore : ∀ k (hk : k < xs.length), p xs[k] = true → a ≤ k := by
    intro k hk hpk
    apply Nat.le_of_not_lt
    intro hka
    have hnot := List.not_of_lt_findIdx (ha ▸ hka)
    rw [hpk] at hnot
    cases hnot
  have hrun : ∀ k (hk : k < xs.length), a ≤ k → k < a + n → p xs[k] = true := by
    intro k hk hak hkn
    have hnot := List.not_of_lt_findIdx (show k - a < (xs.drop a).findIdx (!p ·) by omega)
    simpa [show a + (k - a) = k by omega] using hnot
  have hfirst : ∀ h : a < xs.length, p xs[a] = true := by
    intro h
    have hpa := List.findIdx_getElem (p := p) (w := ha.symm ▸ h)
    simpa [ha] using hpa
  have hend : ∀ h : a + n < xs.length, p xs[a + n] = false := by
    intro h
    have hlt : (xs.drop a).findIdx (!p ·) < (xs.drop a).length := by
      rw [List.length_drop]
      omega
    have hnot := List.findIdx_getElem (w := hlt)
    simpa [hn] using hnot
  refine ⟨by omega, fun k hk => ⟨fun hpk => ?_, fun hk' => hrun k hk hk'.1 hk'.2⟩⟩
  have hak := hbefore k hk hpk
  refine ⟨hak, Nat.lt_of_not_le fun hkn => ?_⟩
  have hlast := hend (by omega)
  rw [hp a (a + n) k hk (by omega) hkn (hfirst (by omega)) hpk] at hlast
  cases hlast

theorem Span.start_lt_stop {s : Span} (hle : s.start ≤ s.stop) (hne : s.isEmpty = false) :
    s.start < s.stop := by
  have : s.start ≠ s.stop := by simpa [isEmpty] using hne
  omega

namespace Document
variable {d : Document} {s t : Span} {lo hi lo' hi' : Int} {i : Nat}

theorem tokenStart_eq (h : i < d.tokens.length) : d.tokenStart i = d.tokens[i].start := by
  simp [tokenStart, h]

theorem charStop_eq (hne : s.start < s.stop) (hle : s.stop ≤ d.tokens.length) :
    d.charStop s = d.tokens[s.stop - 1].stop := by
  simp [charStop, Span.isEmpty, Nat.ne_of_lt hne, show s.stop - 1 < d.tokens.length by omega]

theorem charStop_of_isEmpty (h : s.isEmpty = true) : d.charStop s = d.charStart s := by
  rw [charStop, if_pos h]

/-- The bytes of a span lie in the text. -/
theorem WellFormed.bounds (hd : d.WellFormed) (hle : s.start ≤ s.stop)
    (hstop : s.stop ≤ d.tokens.length) :
    d.charStart s ≤ d.charStop s ∧ d.charStop s ≤ d.text.length := by
  cases hempty : s.isEmpty with
  | true =>
    rw [charStop_of_isEmpty hempty, charStart, tokenStart]
    refine ⟨Nat.le_refl _, ?_⟩
    split
    · rename_i t ht
      have hmem := List.mem_of_getElem? ht
      exact Nat.le_trans (Nat.le_of_lt (hd.nonempty t hmem)) (hd.inside t hmem)
    · exact Nat.le_refl _
  | false =>
    have hne := Span.start_lt_stop hle hempty
    rw [charStart, tokenStart_eq (by omega), charStop_eq hne hstop]
    have hmono := hd.spaced.bounds_mono (Nat.le_sub_one_of_lt hne) (by omega)
    have hpos := hd.spaced.start_lt_stop (show s.stop - 1 < d.tokens.length by omega)
    exact ⟨by omega, hd.inside _ (List.getElem_mem _)⟩

/-- Whether the tokens of a span are those of the document that lie within a range of bytes, of
which there is one. -/
structure Fills (d : Document) (lo hi : Int) (s : Span) : Prop where
  nonempty : s.start < s.stop
  stop_le : s.stop ≤ d.tokens.length
  within : ∀ k (hk : k < d.tokens.length),
    (lo ≤ d.tokens[k].start ∧ (d.tokens[k].stop : Int) ≤ hi) ↔ s.start ≤ k ∧ k < s.stop

theorem Fills.bounds (h : d.Fills lo hi s) :
    lo ≤ (d.charStart s : Int) ∧ (d.charStop s : Int) ≤ hi := by
  have hne := h.nonempty
  have hle := h.stop_le
  rw [charStart, tokenStart_eq (by omega), charStop_eq hne hle]
  exact ⟨((h.within s.start (by omega)).2 (by omega)).1,
    ((h.within (s.stop - 1) (by omega)).2 (by omega)).2⟩

theorem Fills.contains (hs : d.Fills lo hi s) (ht : d.Fills lo' hi' t) (hlo : lo ≤ lo')
    (hhi : hi' ≤ hi) (h : t.document = s.document) : s.contains t = true := by
  have hne := ht.nonempty
  have hle := ht.stop_le
  have hmem : ∀ k, t.start ≤ k → k < t.stop → s.start ≤ k ∧ k < s.stop := by
    intro k hk hk'
    have hwithin := (ht.within k (by omega)).2 ⟨hk, hk'⟩
    exact (hs.within k (by omega)).1 ⟨by omega, by omega⟩
  have hfirst := hmem t.start (Nat.le_refl _) hne
  have hlast := hmem (t.stop - 1) (by omega) (by omega)
  simp only [Span.contains, h, beq_self_eq_true, Bool.true_and, Bool.and_eq_true,
    decide_eq_true_eq]
  omega

theorem Spaced.lt_of_fills (hd : d.Spaced) (h : d.Fills lo hi s) : lo < hi := by
  have hlt : s.start < d.tokens.length := Nat.lt_of_lt_of_le h.nonempty h.stop_le
  have hwithin := (h.within s.start hlt).2 ⟨Nat.le_refl _, h.nonempty⟩
  have hpos := hd.start_lt_stop hlt
  omega

/-- No other token lies within the bytes of a span. -/
theorem Spaced.fills_self (hd : d.Spaced) (hne : s.start < s.stop)
    (hle : s.stop ≤ d.tokens.length) : d.Fills (d.charStart s) (d.charStop s) s := by
  refine ⟨hne, hle, fun k hk => ?_⟩
  rw [charStart, tokenStart_eq (by omega), charStop_eq hne hle, Int.ofNat_le, Int.ofNat_le]
  have hpos := hd.start_lt_stop hk
  constructor
  · rintro ⟨hstart, hstop⟩
    constructor
    · apply Nat.le_of_not_lt
      intro hlt
      have := hd.stop_le_start hlt (by omega)
      omega
    · apply Nat.lt_of_not_le
      intro hge
      have := hd.stop_le_start (show s.stop - 1 < k by omega) hk
      omega
  · rintro ⟨hstart, hstop⟩
    exact ⟨(hd.bounds_mono hstart hk).1, (hd.bounds_mono (Nat.le_sub_one_of_lt hstop) (by omega)).2⟩

/-- Whether a token lies within a range of bytes that is counted from the start of a span. -/
def LiesWithin (d : Document) (s : Span) (lo hi : Int) (k : Nat) : Prop :=
  ∃ t, d.tokens[k]? = some t ∧ lo ≤ (t.start : Int) - d.charStart s ∧
    (t.stop : Int) - d.charStart s ≤ hi

theorem liesWithin_iff (hk : i < d.tokens.length) : d.LiesWithin s lo hi i ↔
    lo ≤ (d.tokens[i].start : Int) - d.charStart s ∧
      (d.tokens[i].stop : Int) - d.charStart s ≤ hi := by
  simp [LiesWithin, hk]

/-- Whether the tokens of `t` are those of `s` that lie within a range of bytes, of which there is
one. -/
structure FillsIn (d : Document) (s : Span) (lo hi : Int) (t : Span) : Prop where
  document : t.document = s.document
  start_le : s.start ≤ t.start
  nonempty : t.start < t.stop
  stop_le : t.stop ≤ s.stop
  within : ∀ k, s.start ≤ k → k < s.stop → (d.LiesWithin s lo hi k ↔ t.start ≤ k ∧ k < t.stop)

theorem FillsIn.contains (ht : d.FillsIn s lo hi t) : s.contains t = true := by
  simp only [Span.contains, ht.document, beq_self_eq_true, Bool.true_and, Bool.and_eq_true,
    decide_eq_true_eq]
  exact ⟨ht.start_le, ht.stop_le⟩

theorem FillsIn.unique {u : Span} (ht : d.FillsIn s lo hi t) (hu : d.FillsIn s lo hi u) :
    t = u := by
  have hiff : ∀ k, s.start ≤ k → k < s.stop →
      (t.start ≤ k ∧ k < t.stop ↔ u.start ≤ k ∧ k < u.stop) :=
    fun k hk hk' => (ht.within k hk hk').symm.trans (hu.within k hk hk')
  obtain ⟨htd, hta, htn, htb, -⟩ := ht
  obtain ⟨hud, hua, hun, hub, -⟩ := hu
  have h₁ := hiff t.start (by omega) (by omega)
  have h₂ := hiff (t.stop - 1) (by omega) (by omega)
  have h₃ := hiff u.start (by omega) (by omega)
  have h₄ := hiff (u.stop - 1) (by omega) (by omega)
  have hstart : t.start = u.start := by omega
  have hstop : t.stop = u.stop := by omega
  cases t
  cases u
  simp_all

theorem liesWithin_sub_iff (hk : i < d.tokens.length) :
    d.LiesWithin s (lo - d.charStart s) (hi - d.charStart s) i ↔
      lo ≤ d.tokens[i].start ∧ (d.tokens[i].stop : Int) ≤ hi := by
  rw [liesWithin_iff hk]
  omega

/-- Within the span of all tokens, the range may as well be counted from the start of the text. -/
theorem fillsIn_whole_iff {j : Nat} :
    d.FillsIn (d.whole j) (lo - d.charStart (d.whole j)) (hi - d.charStart (d.whole j)) s ↔
      s.document = j ∧ d.Fills lo hi s := by
  constructor
  · rintro ⟨hdocument, -, hne, hle, h⟩
    exact ⟨hdocument, hne, hle,
      fun k hk => (liesWithin_sub_iff hk).symm.trans (h k (Nat.zero_le k) hk)⟩
  · rintro ⟨hdocument, hne, hle, h⟩
    exact ⟨hdocument, Nat.zero_le _, hne, hle,
      fun k _ hk => (liesWithin_sub_iff hk).trans (h k hk)⟩

/-- The tokens that fill a range in the document fill it in every span that has them. -/
theorem Fills.fillsIn (ht : d.Fills lo hi t) (hst : s.contains t = true)
    (hs : s.stop ≤ d.tokens.length) :
    d.FillsIn s (lo - d.charStart s) (hi - d.charStart s) t := by
  simp only [Span.contains, Bool.and_eq_true, beq_iff_eq, decide_eq_true_eq] at hst
  obtain ⟨⟨hdocument, hstart⟩, hstop⟩ := hst
  refine ⟨hdocument.symm, hstart, ht.nonempty, hstop, fun k _ hk => ?_⟩
  have hlt : k < d.tokens.length := Nat.lt_of_lt_of_le hk hs
  exact (liesWithin_sub_iff hlt).trans (ht.within k hlt)

theorem properSubspan?_eq (d : Document) (s : Span) (lo hi : Int) :
    let inside (t : Token) : Bool :=
      lo ≤ (t.start : Int) - d.charStart s && (t.stop : Int) - d.charStart s ≤ hi
    let a := (d.spanTokens s).findIdx inside
    let n := (((d.spanTokens s).drop a).takeWhile inside).length
    d.properSubspan? s lo hi = if n = 0 then none else some (s.sub a (a + n)) := by
  intro inside a n
  have hbefore : ((d.spanTokens s).takeWhile fun t => !inside t).length = a := by
    rw [List.takeWhile_eq_take_findIdx_not, List.length_take,
      Nat.min_eq_left List.findIdx_le_length]
    simp [a]
  have hscan : d.properSubspan? s lo hi =
      let before := (d.spanTokens s).takeWhile fun t => !inside t
      let run := ((d.spanTokens s).drop before.length).takeWhile inside
      if run = [] then none
      else some ⟨s.document, s.start + before.length, s.start + before.length + run.length⟩ := rfl
  simp only [hscan, hbefore, ← List.length_eq_zero_iff, Span.sub, n, Nat.add_assoc]

/-- The scan over the tokens of a span finds one run, which holds all tokens in the range. -/
theorem Spaced.exists_run (hd : d.Spaced) (hs : s.stop ≤ d.tokens.length) (lo hi : Int) :
    ∃ a n, a + n ≤ s.length ∧
      (∀ k < s.length, d.LiesWithin s lo hi (s.start + k) ↔ a ≤ k ∧ k < a + n) ∧
      d.properSubspan? s lo hi = if n = 0 then none else some (s.sub a (a + n)) := by
  let inside (t : Token) : Bool :=
    lo ≤ (t.start : Int) - d.charStart s && (t.stop : Int) - d.charStart s ≤ hi
  have hlength : (d.spanTokens s).length = s.length := by
    simp only [spanTokens, List.length_take, List.length_drop, Span.length]
    omega
  have hlt : ∀ k < (d.spanTokens s).length, s.start + k < d.tokens.length := by
    intro k hk
    rw [hlength, Span.length] at hk
    omega
  have hinside : ∀ k (hk : k < (d.spanTokens s).length),
      inside (d.spanTokens s)[k] = true ↔ d.LiesWithin s lo hi (s.start + k) := by
    intro k hk
    rw [liesWithin_iff (hlt k hk)]
    simp [inside, spanTokens]
  have hbetween : ∀ j k m (hm : m < (d.spanTokens s).length) (hjk : j ≤ k) (hkm : k ≤ m),
      inside (d.spanTokens s)[j] = true → inside (d.spanTokens s)[m] = true →
        inside (d.spanTokens s)[k] = true := by
    intro j k m hm hjk hkm hj hm'
    have hmlt := hlt m hm
    rw [hinside, liesWithin_iff (by omega)] at hj hm' ⊢
    have hstart := (hd.bounds_mono (Nat.add_le_add_left hjk s.start) (by omega)).1
    have hstop := (hd.bounds_mono (Nat.add_le_add_left hkm s.start) (by omega)).2
    omega
  obtain ⟨hle, hiff⟩ := scan_iff hbetween rfl rfl
  refine ⟨_, _, hlength ▸ hle, fun k hk => ?_, properSubspan?_eq d s lo hi⟩
  rw [← hinside k (hlength.symm ▸ hk)]
  exact hiff k (hlength.symm ▸ hk)

/-- Some part of a span is found if and only if one of its tokens lies in the range. -/
theorem Spaced.isSome_properSubspan?_iff (hd : d.Spaced) (hs : s.stop ≤ d.tokens.length) :
    (d.properSubspan? s lo hi).isSome = true ↔
      ∃ k, s.start ≤ k ∧ k < s.stop ∧ d.LiesWithin s lo hi k := by
  obtain ⟨a, n, hle, hiff, heq⟩ := hd.exists_run hs lo hi
  rw [heq]
  rw [Span.length] at hle hiff
  constructor
  · intro h
    have hn : n ≠ 0 := by
      intro hn
      simp [hn] at h
    exact ⟨s.start + a, by omega, by omega, (hiff a (by omega)).2 ⟨Nat.le_refl a, by omega⟩⟩
  · rintro ⟨k, hk, hk', hwithin⟩
    have hrun := hiff (k - s.start) (by omega)
    rw [Nat.add_sub_cancel' hk] at hrun
    have hmem := hrun.1 hwithin
    rw [if_neg (by omega)]
    rfl

/-- The part that is found is the one whose tokens are those in the range. -/
theorem Spaced.properSubspan?_eq_some_iff_fillsIn (hd : d.Spaced) (hs : s.stop ≤ d.tokens.length) :
    d.properSubspan? s lo hi = some t ↔ d.FillsIn s lo hi t := by
  have hfills : ∀ u, d.properSubspan? s lo hi = some u → d.FillsIn s lo hi u := by
    intro u hu
    obtain ⟨a, n, hle, hiff, heq⟩ := hd.exists_run hs lo hi
    rw [heq] at hu
    split at hu
    · cases hu
    · cases hu
      rw [Span.length] at hle hiff
      simp only [Span.sub]
      refine ⟨rfl, by simp, by simp only; omega, by simp only; omega, fun k hk hk' => ?_⟩
      have hrun := hiff (k - s.start) (by omega)
      rw [Nat.add_sub_cancel' hk] at hrun
      rw [hrun]
      simp only
      omega
  refine ⟨hfills t, fun ht => ?_⟩
  have hfirst := (ht.within t.start ht.start_le (Nat.lt_of_lt_of_le ht.nonempty ht.stop_le)).2
    ⟨Nat.le_refl _, ht.nonempty⟩
  obtain ⟨u, hu⟩ := Option.isSome_iff_exists.1 ((hd.isSome_properSubspan?_iff hs).2
    ⟨t.start, ht.start_le, Nat.lt_of_lt_of_le ht.nonempty ht.stop_le, hfirst⟩)
  rw [hu, (hfills u hu).unique ht]

theorem Spaced.properSubspan?_eq_some_iff (hd : d.Spaced) :
    d.properSubspan? (d.whole i) (lo - d.charStart (d.whole i)) (hi - d.charStart (d.whole i)) =
      some s ↔ s.document = i ∧ d.Fills lo hi s :=
  (hd.properSubspan?_eq_some_iff_fillsIn (Nat.le_refl _)).trans fillsIn_whole_iff

/-- A part of a span is found if and only if some token of the span lies in the range of bytes. Its
tokens are all that do, and any part of the span that has tokens is found from its own bytes. -/
theorem properSubspan?_exact (d : Document) (hd : d.Spaced) (s : Span)
    (hs : s.stop ≤ d.tokens.length) :
    (∀ lo hi, (d.properSubspan? s lo hi).isSome = true ↔
      ∃ k, s.start ≤ k ∧ k < s.stop ∧ d.LiesWithin s lo hi k) ∧
    (∀ lo hi t, d.properSubspan? s lo hi = some t → s.contains t = true ∧
      ∀ k, s.start ≤ k → k < s.stop → (t.start ≤ k ∧ k < t.stop ↔ d.LiesWithin s lo hi k)) ∧
    ∀ t, s.contains t = true → t.start < t.stop →
      d.properSubspan? s (d.charStart t - d.charStart s) (d.charStop t - d.charStart s) =
        some t := by
  refine ⟨fun lo hi => hd.isSome_properSubspan?_iff hs, fun lo hi t ht => ?_, fun t hst hne => ?_⟩
  · have hfills := (hd.properSubspan?_eq_some_iff_fillsIn hs).1 ht
    exact ⟨hfills.contains, fun k hk hk' => (hfills.within k hk hk').symm⟩
  · have hle : t.stop ≤ d.tokens.length := by
      simp only [Span.contains, Bool.and_eq_true, decide_eq_true_eq] at hst
      omega
    exact (hd.properSubspan?_eq_some_iff_fillsIn hs).2 ((hd.fills_self hne hle).fillsIn hst hs)

theorem properSubspan?_exact_partial_tokens :
    let d := ofText (ascii "d") (ascii "call 555-1234 now")
    let s : Span := ⟨0, 1, 5⟩
    let t : Span := ⟨0, 2, 4⟩
    d.Spaced ∧ s.stop ≤ d.tokens.length ∧ d.properSubspan? s 1 10 = some t ∧
      (∀ k, 1 ≤ k → k < 5 → (2 ≤ k ∧ k < 4 ↔ d.LiesWithin s 1 10 k)) ∧
      d.properSubspan? s (d.charStart t - d.charStart s) (d.charStop t - d.charStart s) =
        some t := by
  intro d s t
  have hd : d.Spaced := (ofText_wellFormed _ _).spaced
  have hs : s.stop ≤ d.tokens.length := by decide
  have ht : d.properSubspan? s 1 10 = some t := by decide
  obtain ⟨-, hfound, hself⟩ := d.properSubspan?_exact hd s hs
  exact ⟨hd, hs, ht, (hfound 1 10 t ht).2, hself t (by decide) (by decide)⟩

end Document

end SpanRules
