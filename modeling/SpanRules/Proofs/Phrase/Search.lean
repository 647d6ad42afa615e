import SpanRules.Proofs.Labeling.WellFormed

/-! A tree of phrases holds the keys of each phrase, and a search in it finds what a comparison with
every phrase would find. -/
namespace SpanRules

namespace Trie
variable {t : Trie} {key v w : Text} {vs ws : List Text} {depth n : Nat}

/-- What is known of a first word in a forest, where a missing word has no keys. -/
def follow (v : Text) (t : Trie) : List Text × Trie := (step? v t).getD ([], .nil)

theorem keysOf_nil (ws : List Text) : keysOf .nil ws = [] := by
  match ws with
  | [] => rfl
  | [v] => rfl
  | v :: w :: ws => rfl

theorem keysOf_cons (t : Trie) (v : Text) (vs : List Text) :
    t.keysOf (v :: vs) = if vs = [] then (t.follow v).1 else (t.follow v).2.keysOf vs := by
  unfold follow
  cases vs with
  | nil =>
    rw [if_pos rfl, keysOf]
    cases step? v t <;> rfl
  | cons w vs =>
    rw [if_neg (List.cons_ne_nil _ _)]
    simp only [keysOf]
    cases step? v t with
    | none => exact (keysOf_nil _).symm
    | some e => rfl

theorem follow_single (key : Text) (ws : List Text) (v w : Text) :
    (single key (w :: ws)).follow v =
      if v = w then (if ws = [] then [key] else [], single key ws) else ([], .nil) := by
  unfold follow
  cases ws with
  | nil => by_cases h : v = w <;> simp [single, step?, h]
  | cons u us => by_cases h : v = w <;> simp [single, step?, h]

/-- A phrase that is added changes only what is known of its first word. -/
theorem follow_insert (key : Text) (t : Trie) (ws : List Text) (v w : Text) :
    (insert key t (w :: ws)).follow v =
      if v = w then
        if ws = [] then ((t.follow w).1 ++ [key], (t.follow w).2)
        else ((t.follow w).1, insert key (t.follow w).2 ws)
      else t.follow v := by
  induction t with
  | nil =>
    rw [insert, follow_single]
    by_cases hws : ws = []
    · simp [follow, step?, hws, single]
    · simp [follow, step?, hws, insert]
  | word u keys below next _ ih =>
    unfold follow at ih ⊢
    by_cases huw : w = u
    · subst huw
      by_cases hws : ws = []
      · by_cases hv : v = w <;> simp [insert, step?, hws, hv]
      · by_cases hv : v = w <;> simp [insert, step?, hws, hv]
    · by_cases hvu : v = u
      · subst hvu
        simp [insert, step?, huw, Ne.symm huw]
      · simp [insert, step?, huw, hvu, ih]

/-- A phrase that is added has its key after those that it had; all other phrases keep theirs. -/
theorem keysOf_insert (hws : ws ≠ []) :
    (insert key t ws).keysOf vs = t.keysOf vs ++ if vs = ws then [key] else [] := by
  induction vs generalizing t ws with
  | nil =>
    rw [if_neg (Ne.symm hws)]
    cases t <;> cases insert key _ ws <;> rfl
  | cons v vs ih =>
    obtain ⟨w, us, rfl⟩ := List.exists_cons_of_ne_nil hws
    rw [keysOf_cons, keysOf_cons, follow_insert]
    by_cases hv : v = w
    · subst hv
      by_cases hus : us = []
      · by_cases hvs : vs = [] <;> simp [hus, hvs]
      · by_cases hvs : vs = []
        · simp [hus, hvs, Ne.symm hus]
        · simp [hus, hvs, ih hus]
    · simp [hv]

/-- A search finds a phrase of each length at which there are keys. -/
theorem mem_lengths_iff : n ∈ t.lengths depth ws ↔
    depth < n ∧ n ≤ depth + ws.length ∧ t.keysOf (ws.take (n - depth)) ≠ [] := by
  induction ws generalizing t depth with
  | nil =>
    have hnone : ¬ (depth < n ∧ n ≤ depth + 0) := by omega
    simpa [lengths] using fun h h' => absurd ⟨h, h'⟩ hnone
  | cons v vs ih =>
    have hstep : lengths depth t (v :: vs) =
        (if (t.follow v).1 = [] then [] else [depth + 1]) ++
          lengths (depth + 1) (t.follow v).2 vs := by
      unfold follow
      cases hv : step? v t with
      | none =>
        have hnil : lengths (depth + 1) .nil vs = [] := by cases vs <;> rfl
        simp [lengths, hv, hnil]
      | some e =>
        by_cases he : e.1 = [] <;> simp [lengths, hv, he]
    have hhead : n ∈ (if (t.follow v).1 = [] then [] else [depth + 1]) ↔
        n = depth + 1 ∧ (t.follow v).1 ≠ [] := by
      by_cases hk : (t.follow v).1 = [] <;> simp [hk]
    rw [hstep, List.mem_append, hhead, ih, List.length_cons]
    rcases Nat.lt_trichotomy n (depth + 1) with hlt | rfl | hgt
    · constructor
      · rintro (h | h) <;> omega
      · omega
    · have htake : (v :: vs).take (depth + 1 - depth) = [v] := by simp
      rw [htake, keysOf_cons, if_pos rfl]
      constructor
      · rintro (h | h)
        · exact ⟨by omega, by omega, h.2⟩
        · omega
      · intro h
        exact .inl ⟨rfl, h.2.2⟩
    · have htake : (v :: vs).take (n - depth) = v :: vs.take (n - (depth + 1)) := by
        rw [show n - depth = n - (depth + 1) + 1 by omega, List.take_succ_cons]
      have hne : n ≤ depth + 1 + vs.length → vs.take (n - (depth + 1)) ≠ [] := by
        intro hle
        apply List.ne_nil_of_length_pos
        rw [List.length_take]
        omega
      constructor
      · rintro (h | ⟨-, hle, hkeys⟩)
        · omega
        · rw [htake, keysOf_cons, if_neg (hne hle)]
          exact ⟨by omega, by omega, hkeys⟩
      · rintro ⟨-, hle, hkeys⟩
        rw [htake, keysOf_cons, if_neg (hne (by omega))] at hkeys
        exact .inr ⟨hgt, by omega, hkeys⟩

theorem pairwise_lengths : (t.lengths depth ws).Pairwise (· < ·) := by
  induction ws generalizing t depth with
  | nil => exact .nil
  | cons v vs ih =>
    simp only [lengths]
    split
    · exact .nil
    · split
      · exact ih
      · exact .cons (fun n hn => (bounds_of_mem_lengths hn).1) ih

end Trie

namespace PhraseSet
variable {t : Trie} {pos : Nat} {ws : List Text} {r : Nat × Nat}

theorem mem_occurrences_iff : r ∈ occurrences t pos ws ↔
    pos ≤ r.1 ∧ r.1 < r.2 ∧ r.2 ≤ pos + ws.length ∧
      t.keysOf ((ws.drop (r.1 - pos)).take (r.2 - r.1)) ≠ [] := by
  induction ws generalizing pos with
  | nil =>
    have hnone : ¬ (pos ≤ r.1 ∧ r.1 < r.2 ∧ r.2 ≤ pos + 0) := by omega
    simpa [occurrences] using fun h h' h'' => absurd ⟨h, h', h''⟩ hnone
  | cons w ws ih =>
    have hhead : r ∈ (t.lengths 0 (w :: ws)).map (fun n => (pos, pos + n)) ↔
        r.1 = pos ∧ r.2 - r.1 ∈ t.lengths 0 (w :: ws) ∧ r.1 ≤ r.2 := by
      rw [List.mem_map]
      constructor
      · rintro ⟨n, hn, rfl⟩
        simpa using hn
      · rintro ⟨hpos, hn, hle⟩
        exact ⟨_, hn, Prod.ext hpos.symm (by simp only; omega)⟩
    rw [occurrences, List.mem_append, hhead, ih, Trie.mem_lengths_iff]
    simp only [List.length_cons]
    rcases Nat.lt_trichotomy r.1 pos with hlt | heq | hgt
    · omega
    · have hdrop : (w :: ws).drop (r.1 - pos) = w :: ws := by simp [heq]
      rw [hdrop, Nat.sub_zero]
      constructor
      · rintro (⟨-, ⟨hlt, hle, hkeys⟩, -⟩ | h)
        · exact ⟨by omega, by omega, by omega, hkeys⟩
        · omega
      · rintro ⟨-, hlt, hle, hkeys⟩
        exact .inl ⟨heq, ⟨by omega, by omega, hkeys⟩, by omega⟩
    · have hdrop : (w :: ws).drop (r.1 - pos) = ws.drop (r.1 - (pos + 1)) := by
        rw [show r.1 - pos = r.1 - (pos + 1) + 1 by omega, List.drop_succ_cons]
      rw [hdrop]
      constructor
      · rintro (h | ⟨-, hlt, hle, hkeys⟩)
        · omega
        · exact ⟨by omega, hlt, by omega, hkeys⟩
      · rintro ⟨-, hlt, hle, hkeys⟩
        exact .inr ⟨hgt, hlt, by omega, hkeys⟩

theorem pairwise_occurrences : (occurrences t pos ws).Pairwise fun r q =>
    r.1 < q.1 ∨ (r.1 = q.1 ∧ r.2 < q.2) := by
  induction ws generalizing pos with
  | nil => exact .nil
  | cons w ws ih =>
    rw [occurrences]
    apply List.pairwise_append.2
    refine ⟨?_, ih, ?_⟩
    · rw [List.pairwise_map]
      apply Trie.pairwise_lengths.imp
      intro n m hnm
      exact .inr ⟨rfl, Nat.add_lt_add_left hnm pos⟩
    · intro r hr q hq
      obtain ⟨n, -, rfl⟩ := List.mem_map.1 hr
      exact .inl (bounds_of_mem_occurrences hq).1

section
variable {p : PhraseSet} {ps : List (Text × Text)}

theorem keysOf_add (hws : ws ≠ []) (key phrase : Text) :
    (p.add key phrase).trie.keysOf ws =
      p.trie.keysOf ws ++ if wordsOf phrase = ws then [key] else [] := by
  unfold add
  split
  · rename_i hnil
    rw [if_neg (hnil ▸ Ne.symm hws), List.append_nil]
  · rename_i hne
    rw [Trie.keysOf_insert hne]
    simp only [eq_comm]

theorem size_add (key phrase : Text) :
    (p.add key phrase).size = p.size + if wordsOf phrase = [] then 0 else 1 := by
  unfold add
  split
  · rename_i hnil
    rw [if_pos hnil, Nat.add_zero]
  · rename_i hne
    rw [if_neg hne]

/-- The keys of given words are those of the phrases with these words, in the order of the list. -/
theorem keysOf_ofList (hws : ws ≠ []) :
    (ofList ps).trie.keysOf ws = (ps.filter fun e => wordsOf e.2 = ws).map (·.1) := by
  have hfold : ∀ p : PhraseSet, (ps.foldl (fun p e => p.add e.1 e.2) p).trie.keysOf ws =
      p.trie.keysOf ws ++ (ps.filter fun e => wordsOf e.2 = ws).map (·.1) := by
    induction ps with
    | nil => simp
    | cons e ps ih =>
      intro p
      rw [List.foldl_cons, ih, keysOf_add hws, List.filter_cons]
      by_cases he : wordsOf e.2 = ws <;> simp [he]
  rw [ofList, hfold, empty, Trie.keysOf_nil, List.nil_append]

theorem keysOf_ofList_ne_nil_iff (hws : ws ≠ []) :
    (ofList ps).trie.keysOf ws ≠ [] ↔ ∃ e ∈ ps, wordsOf e.2 = ws := by
  rw [keysOf_ofList hws, Ne, List.map_eq_nil_iff, List.filter_eq_nil_iff]
  simp

theorem size_ofList : (ofList ps).size = ps.countP fun e => wordsOf e.2 ≠ [] := by
  have hfold : ∀ p : PhraseSet, (ps.foldl (fun p e => p.add e.1 e.2) p).size =
      p.size + ps.countP fun e => wordsOf e.2 ≠ [] := by
    induction ps with
    | nil => simp
    | cons e ps ih =>
      intro p
      rw [List.foldl_cons, ih, size_add, List.countP_cons]
      by_cases he : wordsOf e.2 = []
      · simp [he]
      · simp [he, Nat.add_comm, Nat.add_assoc]
  rw [ofList, hfold, empty, Nat.zero_add]

theorem find_ofList (ws : List Text) : (ofList ps).find ws =
    if ws = [] then [] else (ps.filter fun e => wordsOf e.2 = ws.map Text.lower).map (·.1) := by
  unfold find
  by_cases hws : ws = []
  · rw [if_pos hws, hws, List.map_nil]
    cases (ofList ps).trie <;> rfl
  · rw [if_neg hws, keysOf_ofList (by simpa using hws)]

end

section
variable {p : PhraseSet} {ps : List (Text × Text)} {d : Document} {s s' : Span}

theorem pairwise_lookup : (p.lookup d s).Pairwise (· < ·) := by
  rw [lookup, List.pairwise_map]
  apply pairwise_occurrences.imp
  intro r q hrq
  have hsub : s.start + r.1 < s.start + q.1 ∨
      (s.start + r.1 = s.start + q.1 ∧ s.start + r.2 < s.start + q.2) := by omega
  exact Span.lt_def.2 (.inr ⟨rfl, hsub⟩)

/-- The words of a part of a span. -/
theorem spanWords_sub (d : Document) (s : Span) {b e : Nat} (h : e ≤ s.length) :
    d.spanWords (s.sub b e) = ((d.spanWords s).drop b).take (e - b) := by
  have hlen : (s.sub b e).length = e - b := by
    simp only [Span.length, Span.sub]
    omega
  simp only [Document.spanWords, Document.spanTokens, hlen, List.map_take, List.map_drop,
    List.drop_take, List.take_take, List.drop_drop]
  rw [Nat.min_eq_left (by omega)]
  rfl

/-- The spans that a search reports are those within the tokens of the given one that have the words
of a phrase. -/
theorem mem_lookup_ofList_iff : s' ∈ (ofList ps).lookup d s ↔
    s.contains s' = true ∧ s'.start < s'.stop ∧ s'.stop ≤ d.tokens.length ∧
      ∃ e ∈ ps, wordsOf e.2 = (d.spanWords s').map Text.lower := by
  have hlength : (d.spanWords s).length = min s.length (d.tokens.length - s.start) := by
    simp [Document.spanWords, Document.spanTokens]
  have hkeys : ∀ {b e : Nat}, b < e → e ≤ (d.spanWords s).length →
      ((ofList ps).trie.keysOf ((((d.spanWords s).map Text.lower).drop b).take (e - b)) ≠ [] ↔
        ∃ f ∈ ps, wordsOf f.2 = (d.spanWords (s.sub b e)).map Text.lower) := by
    intro b e hbe he
    rw [spanWords_sub d s (by omega), List.map_take, List.map_drop]
    apply keysOf_ofList_ne_nil_iff
    apply List.ne_nil_of_length_pos
    rw [List.length_take, List.length_drop, List.length_map]
    omega
  rw [lookup, List.mem_map]
  constructor
  · rintro ⟨r, hr, rfl⟩
    obtain ⟨-, hlt, hle, hr⟩ := mem_occurrences_iff.1 hr
    rw [List.length_map, Nat.zero_add] at hle
    rw [Nat.sub_zero, hkeys hlt hle] at hr
    rw [hlength] at hle
    simp only [Span.length] at hle
    refine ⟨?_, ?_, ?_, hr⟩
    · simp only [Span.contains, Span.sub, Bool.and_eq_true, beq_self_eq_true, true_and]
      exact ⟨decide_eq_true (by omega), decide_eq_true (by omega)⟩
    · simp only [Span.sub]
      omega
    · simp only [Span.sub]
      omega
  · rintro ⟨hs, hlt, hle, hwords⟩
    obtain ⟨i, b, e⟩ := s'
    simp only [Span.contains, Bool.and_eq_true, beq_iff_eq, decide_eq_true_eq] at hs hlt hle
    have hsub : s.sub (b - s.start) (e - s.start) = ⟨i, b, e⟩ := by
      simp only [Span.sub, Span.mk.injEq]
      omega
    refine ⟨(b - s.start, e - s.start), mem_occurrences_iff.2 ?_, hsub⟩
    have hle' : e - s.start ≤ (d.spanWords s).length := by
      rw [hlength, Span.length]
      omega
    rw [Nat.sub_zero, hkeys (by omega) hle', hsub, List.length_map]
    exact ⟨by omega, by omega, by omega, hwords⟩

end

/-- A search in a collection of phrases is a comparison with each of them, all in lower case. It
reports the spans with the words of some phrase, each once and in order; the keys of given words are
those of the phrases with just these words, in the order in which they were added; and the size is
the number of phrases with words. -/
theorem ofList_searches (ps : List (Text × Text)) (d : Document) (s : Span) (ws : List Text) :
    ((ofList ps).lookup d s).Pairwise (· < ·) ∧
      (∀ s' : Span, s' ∈ (ofList ps).lookup d s ↔
        s.contains s' = true ∧ s'.start < s'.stop ∧ s'.stop ≤ d.tokens.length ∧
          ∃ e ∈ ps, wordsOf e.2 = (d.spanWords s').map Text.lower) ∧
      (ofList ps).find ws =
        (if ws = [] then []
          else (ps.filter fun e => wordsOf e.2 = ws.map Text.lower).map (·.1)) ∧
      (ofList ps).size = ps.countP fun e => wordsOf e.2 ≠ [] :=
  ⟨pairwise_lookup, fun _ => mem_lookup_ofList_iff, find_ofList ws, size_ofList⟩

end PhraseSet

end SpanRules
