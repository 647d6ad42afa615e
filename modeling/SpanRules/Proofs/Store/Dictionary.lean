import SpanRules.Evaluation
import SpanRules.Proofs.Text.Lower

/-! Dictionaries that ignore case. They hold words in lower case and are asked for words in lower
case, by the test that puts a word in lower case itself a second time; as lower case is in lower case
already, both tests ask whether a word is one of the dictionary up to case. -/
namespace SpanRules

namespace DictionaryDefinition
variable {d : DictionaryDefinition}

theorem mem_words_iff (hd : d.ignoreCase = true) {word : Text} :
    word ∈ d.words ↔ ∃ w ∈ d.entries.flatMap entryWords, w.lower = word := by
  have hnormal : d.normal = Text.lower := by
    funext w
    unfold normal
    rw [if_pos hd]
  unfold words
  rw [OrderedSet.mem_ofList, hnormal, List.mem_map]

/-- The dictionary of the definition answers for a word and for its lower case alike. -/
theorem contains_lower_iff (hd : d.ignoreCase = true) (word : Text) :
    Dictionary.contains ⟨d.words, d.ignoreCase⟩ word.lower = true ↔
      Dictionary.contains ⟨d.words, d.ignoreCase⟩ word = true := by
  simp only [Dictionary.contains, hd, if_true, Text.lower_lower]

theorem contains_iff (hd : d.ignoreCase = true) (word : Text) :
    Dictionary.contains ⟨d.words, d.ignoreCase⟩ word = true ↔
      ∃ w ∈ d.entries.flatMap entryWords, word.lower = w.lower := by
  simp only [Dictionary.contains, OrderedSet.contains, hd, if_true, decide_eq_true_eq]
  rw [mem_words_iff hd]
  simp only [eq_comm]

end DictionaryDefinition

theorem Dictionaries.holds_of_find? {ds : Dictionaries} {name word : Text} {d : Dictionary}
    (h : OrderedMap.find? ds name = some d) : ds.holds name word = d.contains word := by
  unfold Dictionaries.holds
  rw [h, Option.any_some]

variable {table : Nat → Nat} {d : DictionaryDefinition}

/-- Putting a text in lower case by a settled table settles it, and skipping the decoding of ASCII at
its start changes nothing; the table of characters is settled. So both tests of words against a
dictionary defined without `+case` hold of a token if and only if it is one of the words up to
case. -/
theorem Statement.defineDictionary_ignores_case (htable : Unicode.Settled table)
    (hd : d.ignoreCase = true) :
    (∀ t, Text.lowerBy table (Text.lowerBy table t) = Text.lowerBy table t ∧
      Text.lowerBy table t = Utf8.mapCodes (Unicode.toLowerBy table) t) ∧
    Unicode.Settled Unicode.tableLower ∧
    ∀ annotate s level l ref word,
      let ds := ((defineDictionary d).execute annotate s level).1.store.dictionaries
      ((Test.inDictionary d.name).holds ds l ref word = true ↔
        ∃ w ∈ d.entries.flatMap DictionaryDefinition.entryWords, word.lower = w.lower) ∧
      ((Test.lowerInDictionary d.name).holds ds l ref word = true ↔
        ∃ w ∈ d.entries.flatMap DictionaryDefinition.entryWords, word.lower = w.lower) := by
  refine ⟨fun t => ⟨Text.lowerBy_lowerBy htable t, Text.lowerBy_eq_mapCodes table t⟩,
    Unicode.settled_tableLower, ?_⟩
  intro annotate s level l ref word ds
  have hfind : OrderedMap.find? ds d.name = some ⟨d.words, d.ignoreCase⟩ :=
    OrderedMap.find?_insert.trans (if_pos rfl)
  have hcontains := DictionaryDefinition.contains_iff hd word
  have hlower := DictionaryDefinition.contains_lower_iff hd word
  unfold Test.holds
  rw [Dictionaries.holds_of_find? hfind, Dictionaries.holds_of_find? hfind]
  exact ⟨hcontains, hlower.trans hcontains⟩

/-- The kelvin sign, of three bytes, is the letter `k` in lower case; a byte that starts no character
is the same in both cases. -/
theorem Statement.defineDictionary_ignores_case_of_kelvin_sign :
    let d : DictionaryDefinition := ⟨ascii "D", true, [.word (ascii "K" ++ [0xFF])]⟩
    let ds := ((defineDictionary d).execute (fun _ _ s => .success s) default
      Store.baseLevel).1.store.dictionaries
    Unicode.Settled Unicode.tableLower ∧ d.ignoreCase = true ∧
      (Test.inDictionary d.name).holds ds default default [0xE2, 0x84, 0xAA, 0xFF] = true ∧
        (Test.lowerInDictionary d.name).holds ds default default
          [0xE2, 0x84, 0xAA, 0xFF] = true := by
  intro d ds
  have hd : d.ignoreCase = true := rfl
  obtain ⟨-, -, htests⟩ := defineDictionary_ignores_case Unicode.settled_tableLower hd
  obtain ⟨hin, hlower⟩ := htests (fun _ _ s => .success s) default Store.baseLevel default default
    [0xE2, 0x84, 0xAA, 0xFF]
  have hword : ∃ w ∈ d.entries.flatMap DictionaryDefinition.entryWords,
      Text.lower [0xE2, 0x84, 0xAA, 0xFF] = w.lower := by decide +kernel
  exact ⟨Unicode.settled_tableLower, hd, hin.2 hword, hlower.2 hword⟩

end SpanRules
