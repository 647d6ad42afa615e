import SpanRules.Proofs.Document.Words
import SpanRules.Proofs.Phrase.Search
import SpanRules.Proofs.Program.Statements

/-! Phrases in programs. The words of a phrase are joined and divided into words again, which may make
several words of one or none; what is searched for is, for each phrase by its number, the words of
its parts one after the other. -/
namespace SpanRules

/-- The words by which a phrase is found: those into which its unquoted parts are divided. -/
def Lexeme.dividedWords (p : List Lexeme) : List Text := p.flatMap fun l => l.text.unquote.words

def Lexeme.trie (phrases : List (List Lexeme)) : List Lexeme :=
  .mark '~' :: .keyword "trie" :: [.mark ','].intercalate phrases

inductive Labeling.Begins (effect : Effect) (scope : Text) : List Lexeme → Prop
  | mk {ls ms} : Effect.Derives ls effect → Name.DerivesOptional ms scope →
      Begins effect scope (ls ++ .mark '=' :: ms)

namespace PhraseEntry
variable {lines : LineReader} {phrases : List (List Lexeme)} {ws : List Text} {key : Text}

def ofNames (phrases : List (List Lexeme)) : List PhraseEntry :=
  phrases.zipIdx.map fun p => .words p.2 (p.1.map (·.text.unquote))

/-- No word is lost or made where two texts are joined, whether or not a blank comes between. -/
theorem words_joinWords (ws : List Text) : (joinWords ws).words = ws.flatMap Text.words := by
  have hfold : ∀ phrase : Text,
      Text.words (ws.foldl
        (fun phrase w => (if phrase = [] then [] else phrase ++ [byte ' ']) ++ w) phrase) =
          phrase.words ++ ws.flatMap Text.words := by
    induction ws with
    | nil =>
      intro phrase
      rw [List.foldl_nil, List.flatMap_nil, List.append_nil]
    | cons w ws ih =>
      intro phrase
      rw [List.foldl_cons, ih, List.flatMap_cons, ← List.append_assoc]
      by_cases hphrase : phrase = []
      · rw [if_pos hphrase, hphrase, List.nil_append, Text.words_nil, List.nil_append]
      · rw [if_neg hphrase, List.append_assoc, List.singleton_append, Text.words_append_space]
  unfold joinWords
  rw [hfold, Text.words_nil, List.nil_append]

theorem wordsOf_joinWords (p : List Lexeme) :
    PhraseSet.wordsOf (joinWords (p.map (·.text.unquote))) =
      (Lexeme.dividedWords p).map Text.lower := by
  unfold PhraseSet.wordsOf Lexeme.dividedWords
  rw [words_joinWords, List.flatMap_map]

theorem flatMap_phrases_ofNames (hne : ∀ p ∈ phrases, p ≠ []) :
    (ofNames phrases).flatMap PhraseEntry.phrases = phrases.zipIdx.map fun p =>
      (ascii "phrase#" ++ Text.ofNat p.2, joinWords (p.1.map (·.text.unquote))) := by
  unfold ofNames
  rw [List.flatMap_map, List.map_eq_flatMap]
  apply List.flatMap_congr
  intro p hp
  have hp : p.1 ≠ [] := hne p.1 (List.fst_mem_of_mem_zipIdx hp)
  cases hwords : p.1.map (·.text.unquote) with
  | nil => exact absurd (List.map_eq_nil_iff.1 hwords) hp
  | cons w ws => rfl

/-- The keys that given words have are those of the phrases with the same words up to case. -/
theorem mem_find_collect_iff (hne : ∀ p ∈ phrases, p ≠ []) :
    key ∈ (collect (ofNames phrases)).find ws ↔ ws ≠ [] ∧ ∃ i p, phrases[i]? = some p ∧
      (Lexeme.dividedWords p).map Text.lower = ws.map Text.lower ∧
        key = ascii "phrase#" ++ Text.ofNat i := by
  unfold collect
  rw [PhraseSet.find_ofList, flatMap_phrases_ofNames hne]
  split
  · rename_i hnil
    simp [hnil]
  · rename_i hws
    simp only [List.mem_map, List.mem_filter, decide_eq_true_eq, hws, ne_eq, not_false_eq_true,
      true_and]
    constructor
    · rintro ⟨e, ⟨⟨⟨p, i⟩, hp, rfl⟩, hwords⟩, rfl⟩
      rw [wordsOf_joinWords] at hwords
      exact ⟨i, p, List.mem_zipIdx_iff_getElem?.1 hp, hwords, rfl⟩
    · rintro ⟨i, p, hp, hwords, rfl⟩
      rw [← wordsOf_joinWords] at hwords
      exact ⟨_, ⟨⟨(p, i), List.mem_zipIdx_iff_getElem?.2 hp, rfl⟩, hwords⟩, rfl⟩

theorem size_collect (hne : ∀ p ∈ phrases, p ≠ []) :
    (collect (ofNames phrases)).size = phrases.countP fun p => Lexeme.dividedWords p ≠ [] := by
  unfold collect
  rw [PhraseSet.size_ofList, flatMap_phrases_ofNames hne, List.countP_map]
  have hfst : phrases = phrases.zipIdx.map Prod.fst := (List.zipIdx_map_fst 0 phrases).symm
  conv_rhs => rw [hfst, List.countP_map]
  apply List.countP_congr
  intro p _
  simp [wordsOf_joinWords]

theorem not_encloses_of_names {p inner : List Lexeme} (hp : ∀ l ∈ p, l.IsName) :
    ¬ Lexeme.Encloses p inner := by
  rintro ⟨rfl, -⟩
  exact (hp _ List.mem_cons_self).ne_mark '"' rfl

/-- Every phrase is read, in its place. -/
theorem derives_ofNames (hne : phrases ≠ []) (hnames : ∀ p ∈ phrases, ∀ l ∈ p, l.IsName) :
    Generator.Derives lines (Lexeme.trie phrases) (.phrases (ofNames phrases)) := by
  have hcomma : ∀ p ∈ phrases, .mark ',' ∉ p := by
    intro p hp hmem
    exact (hnames p hp _ hmem).ne_mark ',' rfl
  have hfinished : ∀ p ∈ phrases, ∀ l ∈ p, l.kind ≠ .unterminated := fun p hp l hl =>
    (hnames p hp l hl).inSequence.finished
  apply derives_intercalate hne hfinished hcomma
  unfold ofNames
  rw [List.forall₂_map_right_iff, List.forall₂_same]
  intro p hp
  have hp : ∀ l ∈ p.1, l.IsName := hnames p.1 (List.fst_mem_of_mem_zipIdx hp)
  exact .words fun inner => not_encloses_of_names hp

end PhraseEntry

namespace Program
variable {r : Resources} {phrases : List (List Lexeme)}

theorem parse?_of_phrases {source : Text} {head : List Lexeme} {effect : Effect} {scope : Text}
    (hne : phrases ≠ []) (hnames : ∀ p ∈ phrases, ∀ l ∈ p, l.IsName)
    (hhead : Labeling.Begins effect scope head) (hsemi : .mark ';' ∉ head)
    (hsource : source.stripComments.solidLexemes = head ++ Lexeme.trie phrases ∨
      source.stripComments.solidLexemes = head ++ Lexeme.trie phrases ++ [.mark ';']) :
    parse? r source = .ok [.label ⟨effect, scope, .phrases (PhraseEntry.ofNames phrases)⟩] := by
  have hderives : Statement.Derives r.readLines (head ++ Lexeme.trie phrases)
      (.label ⟨effect, scope, .phrases (PhraseEntry.ofNames phrases)⟩) := by
    obtain ⟨heffect, hscope⟩ := hhead
    rw [List.append_assoc, List.cons_append]
    exact .label heffect (.mk hscope (PhraseEntry.derives_ofNames hne hnames))
  have htrie : ∀ l ∈ Lexeme.trie phrases, l ≠ .mark ';' := by
    have hparts : ∀ l ∈ [Lexeme.mark ','].intercalate phrases, l ≠ .mark ';' :=
      forall_mem_intercalate (by decide) fun p hp l hl => (hnames p hp l hl).ne_mark ';'
    unfold Lexeme.trie
    rw [List.forall_mem_cons, List.forall_mem_cons]
    exact ⟨by decide, by decide, hparts⟩
  have hsemi : .mark ';' ∉ head ++ Lexeme.trie phrases := by
    rw [List.mem_append, not_or]
    exact ⟨hsemi, fun hmem => htrie _ hmem rfl⟩
  apply parse?_eq_ok_iff_derives.2
  rcases hsource with heq | heq
  · rw [heq]
    exact derives_of_statement hderives hsemi
  · rw [heq]
    exact (derives_statement_append_iff hderives hsemi).2 (derives_nil_iff.2 rfl)

/-- A search for phrases whose parts are words and quoted texts is read whole, with a semicolon after
it or without. Each phrase with words is found by its words under its number, nothing else is, and
the size is the number of these phrases. -/
theorem parse?_keeps_phrases (r : Resources) (hne : phrases ≠ [])
    (hphrases : ∀ p ∈ phrases, p ≠ [] ∧ ∀ l ∈ p, l.IsName) :
    ∃ es : List PhraseEntry,
      (∀ stop ts, ts.map SourceToken.lexeme = Lexeme.trie phrases →
        Statement.generator? r.readLines stop ts = .ok (.phrases es)) ∧
      (∀ source head effect scope, Labeling.Begins effect scope head → .mark ';' ∉ head →
        (source.stripComments.solidLexemes = head ++ Lexeme.trie phrases ∨
          source.stripComments.solidLexemes = head ++ Lexeme.trie phrases ++ [.mark ';']) →
        parse? r source = .ok [.label ⟨effect, scope, .phrases es⟩]) ∧
      (∀ i p, phrases[i]? = some p → Lexeme.dividedWords p ≠ [] →
        ascii "phrase#" ++ Text.ofNat i ∈
          (PhraseEntry.collect es).find (Lexeme.dividedWords p)) ∧
      (∀ ws, ∀ key ∈ (PhraseEntry.collect es).find ws, ∃ i p, phrases[i]? = some p ∧
        Lexeme.dividedWords p ≠ [] ∧
          (Lexeme.dividedWords p).map Text.lower = ws.map Text.lower ∧
            key = ascii "phrase#" ++ Text.ofNat i) ∧
      (PhraseEntry.collect es).size = phrases.countP fun p => Lexeme.dividedWords p ≠ [] := by
  have hnames : ∀ p ∈ phrases, ∀ l ∈ p, l.IsName := fun p hp => (hphrases p hp).2
  have hnonempty : ∀ p ∈ phrases, p ≠ [] := fun p hp => (hphrases p hp).1
  refine ⟨PhraseEntry.ofNames phrases, ?_, ?_, ?_, ?_, PhraseEntry.size_collect hnonempty⟩
  · intro stop ts hts
    have hstarts : Statement.startsGenerator ts = true :=
      Statement.startsGenerator_iff.2 ⟨_, _, hts, .inr (.inr rfl)⟩
    rw [Statement.generator?_eq_ok_iff hstarts, hts]
    exact PhraseEntry.derives_ofNames hne hnames
  · intro source head effect scope hhead hsemi hsource
    exact parse?_of_phrases hne hnames hhead hsemi hsource
  · intro i p hp hwords
    exact (PhraseEntry.mem_find_collect_iff hnonempty).2 ⟨hwords, i, p, hp, rfl, rfl⟩
  · intro ws key hkey
    obtain ⟨hws, i, p, hp, hwords, hi⟩ := (PhraseEntry.mem_find_collect_iff hnonempty).1 hkey
    refine ⟨i, p, hp, ?_, hwords, hi⟩
    intro hnil
    rw [hnil, List.map_nil, eq_comm, List.map_eq_nil_iff] at hwords
    exact hws hwords

/-- A phrase of an empty text counts for its number only, and one quoted text may have several
words. -/
theorem parse?_keeps_phrases_of_three :
    let phrases : List (List Lexeme) := [[⟨.quoted, ascii "'New York'"⟩, ⟨.word, ascii "City"⟩],
      [⟨.quoted, ascii "''"⟩], [⟨.quoted, ascii "'a-b'"⟩]]
    phrases ≠ [] ∧ (∀ p ∈ phrases, p ≠ [] ∧ ∀ l ∈ p, l.IsName) ∧
      ∃ es, parse? default (ascii "defSpanType x = ~ trie 'New York' City, '', 'a-b';") =
          .ok [.label ⟨.spanType (ascii "x"), [], .phrases es⟩] ∧
        ascii "phrase#2" ∈
          (PhraseEntry.collect es).find [ascii "a", ascii "-", ascii "b"] ∧
        (PhraseEntry.collect es).size = 2 := by
  intro phrases
  have hne : phrases ≠ [] := by simp [phrases]
  have hphrases : ∀ p ∈ phrases, p ≠ [] ∧ ∀ l ∈ p, l.IsName := by
    simp [phrases, Lexeme.IsName]
  obtain ⟨es, -, hparse, hfind, -, hsize⟩ := parse?_keeps_phrases default hne hphrases
  have hhead : Labeling.Begins (.spanType (ascii "x")) []
      [.keyword "defSpanType", .keyword "x", .mark '='] := .mk (.spanType .word) .none
  have hsource : parse? default (ascii "defSpanType x = ~ trie 'New York' City, '', 'a-b';") =
      .ok [.label ⟨.spanType (ascii "x"), [], .phrases es⟩] := by
    apply hparse _ _ _ _ hhead (by decide)
    right
    decide +kernel
  have hwords : Lexeme.dividedWords [⟨.quoted, ascii "'a-b'"⟩] =
      [ascii "a", ascii "-", ascii "b"] := by decide +kernel
  have hkey := hfind 2 _ rfl (by rw [hwords]; decide)
  rw [hwords] at hkey
  exact ⟨hne, hphrases, es, hsource, hkey, hsize.trans (by decide +kernel)⟩

end Program

end SpanRules
