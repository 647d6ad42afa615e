import SpanRules.Phrase.Trie

/-! Where phrases occur does not depend on the keys under which they are found. -/
namespace SpanRules

namespace Trie

/-- A forest with an empty key in place of each. -/
def unkeyed : Trie → Trie
  | .nil => .nil
  | .word w keys below next => .word w (keys.map fun _ => []) (unkeyed below) (unkeyed next)

theorem unkeyed_single (key : Text) (ws : List Text) :
    (single key ws).unkeyed = single [] ws := by
  induction ws with
  | nil => rfl
  | cons w ws ih =>
    cases ws with
    | nil => rfl
    | cons v vs => exact congrArg (Trie.word w [] · .nil) ih

theorem unkeyed_insert (key : Text) (t : Trie) (ws : List Text) :
    (insert key t ws).unkeyed = insert [] t.unkeyed ws := by
  induction t generalizing ws with
  | nil => exact unkeyed_single key ws
  | word w keys below next ihbelow ihnext =>
    cases ws with
    | nil => rfl
    | cons v vs =>
      simp only [insert, unkeyed]
      split
      · split
        · simp [unkeyed]
        · rw [unkeyed, ihbelow]
      · rw [unkeyed, ihnext]

theorem step?_unkeyed (v : Text) (t : Trie) :
    step? v t.unkeyed = (step? v t).map fun e => (e.1.map fun _ => [], e.2.unkeyed) := by
  induction t with
  | nil => rfl
  | word w keys below next _ ih =>
    simp only [unkeyed, step?]
    split
    · rfl
    · exact ih

theorem lengths_unkeyed (depth : Nat) (t : Trie) (ws : List Text) :
    t.unkeyed.lengths depth ws = t.lengths depth ws := by
  induction ws generalizing depth t with
  | nil => rfl
  | cons v vs ih =>
    rw [lengths, lengths, step?_unkeyed]
    cases step? v t with
    | none => rfl
    | some e => simp [ih]

end Trie

namespace PhraseSet

theorem occurrences_unkeyed (t : Trie) (pos : Nat) (ws : List Text) :
    occurrences t.unkeyed pos ws = occurrences t pos ws := by
  induction ws generalizing pos with
  | nil => rfl
  | cons w ws ih => rw [occurrences, occurrences, Trie.lengths_unkeyed, ih]

theorem unkeyed_add {p q : PhraseSet} (h : p.trie.unkeyed = q.trie) (key phrase : Text) :
    (p.add key phrase).trie.unkeyed = (q.add [] phrase).trie := by
  unfold add
  split
  · exact h
  · rw [Trie.unkeyed_insert, h]

theorem unkeyed_ofList (ps : List (Text × Text)) :
    (ofList ps).trie.unkeyed = (ofList (ps.map fun e => ([], e.2))).trie := by
  have hfold : ∀ p q : PhraseSet, p.trie.unkeyed = q.trie →
      (ps.foldl (fun p e => p.add e.1 e.2) p).trie.unkeyed =
        ((ps.map fun e => ([], e.2)).foldl (fun p e => p.add e.1 e.2) q).trie := by
    induction ps with
    | nil => exact fun _ _ h => h
    | cons e ps ih => exact fun p q h => ih _ _ (unkeyed_add h e.1 e.2)
  exact hfold empty empty rfl

/-- The same phrases under other keys occur at the same places. -/
theorem lookup_congr {ps qs : List (Text × Text)} (h : ps.map (·.2) = qs.map (·.2)) (d : Document)
    (s : Span) : (ofList ps).lookup d s = (ofList qs).lookup d s := by
  have hkeys : ∀ ps : List (Text × Text),
      (ps.map fun e => (([] : Text), e.2)) = (ps.map (·.2)).map fun p => ([], p) := by
    intro ps
    rw [List.map_map]
    rfl
  have htrie : (ofList ps).trie.unkeyed = (ofList qs).trie.unkeyed := by
    rw [unkeyed_ofList, unkeyed_ofList, hkeys, h, ← hkeys]
  rw [lookup, lookup, ← occurrences_unkeyed, htrie, occurrences_unkeyed]

end PhraseSet

end SpanRules
