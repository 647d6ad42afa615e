import SpanRules.Proofs.Statement.Reread.Dictionary

/-! Reading the source form of a list of phrases: their words with blanks between them, and their
files between double quotes. -/
namespace SpanRules

namespace PhraseEntry
variable {lines : LineReader} {e : PhraseEntry} {es : List PhraseEntry} {ws : List Text}

/-- Puts a word after the source form of a phrase. Words that are empty are printed without blanks
while the phrase is empty. -/
def addWord : Text × Text → Text → Text × Text := fun (phrase, source) w =>
  if phrase = [] then (w, source ++ w.quoteIfNeeded)
  else (phrase ++ byte ' ' :: w, source ++ byte ' ' :: w.quoteIfNeeded)

theorem addWord_of_eq_nil {source w : Text} :
    addWord ([], source) w = (w, source ++ w.quoteIfNeeded) := rfl

theorem addWord_of_ne_nil {phrase source w : Text} (h : phrase ≠ []) :
    addWord (phrase, source) w =
      (phrase ++ byte ' ' :: w, source ++ byte ' ' :: w.quoteIfNeeded) :=
  if_neg h

/-- Whatever follows a phrase of empty words, as these are quoted; a delimiter any other phrase. -/
theorem prints_words {phrase source : Text} {ls : List Lexeme} (hws : ∀ w ∈ ws, w.Nameable)
    (hempty : phrase = [] → source.PrintsApart ls) (hsource : source.Prints ls) :
    let r := ws.foldl addWord (phrase, source)
    (r.1 = [] → r.2.PrintsApart (ls ++ ws.map Text.nameLexeme)) ∧
      r.2.Prints (ls ++ ws.map Text.nameLexeme) := by
  induction ws generalizing phrase source ls with
  | nil => simpa using ⟨hempty, hsource⟩
  | cons w ws ih =>
    obtain ⟨hw, hws⟩ := List.forall_mem_cons.1 hws
    rw [List.foldl_cons, List.map_cons, List.append_cons]
    by_cases hphrase : phrase = []
    · subst hphrase
      rw [addWord_of_eq_nil]
      refine ih hws (fun hnil => ?_) ((hempty rfl).append hw.prints)
      subst hnil
      have hquotes : (Text.quoteIfNeeded []).PrintsApart [Text.nameLexeme []] :=
        nameable_nil.printsApart_quote
      exact hsource.append_apart hquotes (Text.delimited_cons rfl) (by decide)
    · rw [addWord_of_ne_nil hphrase]
      apply ih hws (fun hnil => absurd hnil (by simp))
      exact hsource.append (printsApart_blank.append hw.prints) (Text.delimited_cons rfl)

def source : PhraseEntry → Text
  | words _ ws => (ws.foldl addWord ([], [])).2
  | file name _ => ascii "\"" ++ name ++ ascii "\""

def lexemes : PhraseEntry → List Lexeme
  | words _ ws => ws.map Text.nameLexeme
  | file name _ => fileLexemes name

theorem filterMap_toText? :
    es.filterMap (·.toText?) = (es.filter (!·.isEmpty)).map source := by
  induction es with
  | nil => rfl
  | cons e es ih =>
    cases e with
    | file => exact congrArg (_ :: ·) ih
    | words _ ws =>
      cases ws with
      | nil => exact ih
      | cons => exact congrArg (_ :: ·) ih

/-- What the source form of a phrase needs: no word that cannot be quoted and no comment. -/
structure Listable (lines : LineReader) (e : PhraseEntry) : Prop where
  nonempty : e.isEmpty = false
  words : ∀ number ws, e = words number ws → ∀ w ∈ ws, w.Nameable
  file : ∀ name ls, e = file name ls →
    name.Joined (inFileName ',') ∧ name ≠ [] ∧ lines name = .ok ls ∧ name.Uncommented

theorem Listable.prints (h : e.Listable lines) : e.source.Prints e.lexemes := by
  cases e with
  | file name ls =>
    obtain ⟨hj, -, -, hname⟩ := h.file name ls rfl
    exact prints_file hj hname
  | words number ws =>
    exact (prints_words (h.words number ws rfl) (fun _ => Text.printsApart_nil) Text.prints_nil).2

theorem Listable.solid (h : e.Listable lines) : ∀ l ∈ e.lexemes, l.Solid (inFileName ',') := by
  cases e with
  | file name ls => exact solid_fileLexemes (h.file name ls rfl).1 (fun _ hb => hb) (by decide)
  | words number ws => exact List.forall_mem_map.2 fun w _ => w.solid_nameLexeme

theorem map_unquote_nameLexeme (ws : List Text) :
    (ws.map Text.nameLexeme).map (·.text.unquote) = ws := by
  rw [List.map_map]
  exact (List.map_congr_left fun w _ => w.names_nameLexeme.unquote).trans (List.map_id ws)

theorem Listable.derives (h : e.Listable lines) (number : Nat) :
    Derives lines number e.lexemes (e.renumber number) := by
  cases e with
  | file name ls =>
    obtain ⟨-, hne, hls, -⟩ := h.file name ls rfl
    rw [← name.flatMap_text_lexemes] at hls
    have hderives : Derives lines number (fileLexemes name) _ :=
      .file (encloses_fileLexemes hne) hls
    rwa [name.flatMap_text_lexemes] at hderives
  | words number' ws =>
    have hnot : ∀ inner, ¬ Lexeme.Encloses (ws.map Text.nameLexeme) inner := by
      rintro inner ⟨hencloses, -⟩
      cases ws with
      | nil => cases h.nonempty
      | cons w ws => exact Lexeme.nameLexeme_ne_mark (List.cons.inj hencloses).1
    have hderives : Derives lines number (ws.map Text.nameLexeme) _ := .words hnot
    rwa [map_unquote_nameLexeme] at hderives

theorem forall₂_derives_renumber (first : Nat) (hes : ∀ e ∈ es, e.Listable lines) :
    List.Forall₂ (fun part e => Derives lines part.2 part.1 e) ((es.map lexemes).zipIdx first)
      ((es.zipIdx first).map fun e => e.1.renumber e.2) := by
  rw [List.zipIdx_map, List.forall₂_map_left_iff, List.forall₂_map_right_iff, List.forall₂_same]
  exact fun e he => (hes e.1 (List.fst_mem_of_mem_zipIdx he)).derives e.2

/-- Phrases with commas between them are read one by one. -/
theorem derives_intercalate {parts : List (List Lexeme)} (hne : parts ≠ [])
    (hfinished : ∀ p ∈ parts, ∀ l ∈ p, l.kind ≠ .unterminated)
    (hcomma : ∀ p ∈ parts, .mark ',' ∉ p)
    (h : List.Forall₂ (fun part e => Derives lines part.2 part.1 e) parts.zipIdx es) :
    Generator.Derives lines (.mark '~' :: .keyword "trie" :: [.mark ','].intercalate parts)
      (.phrases es) := by
  apply Generator.Derives.phrases
  · exact forall_mem_intercalate (by decide) hfinished
  · rw [List.splitOn_intercalate _ hcomma hne]
    exact h

theorem derives_phrases (hne : es ≠ []) (hes : ∀ e ∈ es, e.Listable lines) :
    Generator.Derives lines
      (.mark '~' :: .keyword "trie" :: [.mark ','].intercalate (es.map lexemes))
      (.phrases (es.zipIdx.map fun e => e.1.renumber e.2)) := by
  have hcomma : ∀ ls ∈ es.map lexemes, .mark ',' ∉ ls :=
    List.forall_mem_map.2 fun e he => not_mem_of_solid (by decide) (hes e he).solid
  have hfinished : ∀ ls ∈ es.map lexemes, ∀ l ∈ ls, l.kind ≠ .unterminated :=
    List.forall_mem_map.2 fun e he l hl => ((hes e he).solid l hl).finished
  exact derives_intercalate (by simpa using hne) hfinished hcomma (forall₂_derives_renumber 0 hes)

end PhraseEntry

namespace Statement
variable {lines : LineReader} {ts : Rest} {es : List PhraseEntry}

theorem map_unquote_of_lexemes {ws : List Text}
    (h : ts.map SourceToken.lexeme = ws.map Text.nameLexeme) : ts.map (·.text.unquote) = ws := by
  rw [← PhraseEntry.map_unquote_nameLexeme ws, ← h, List.map_map]
  rfl

theorem mapM_phrase?_of_lexemes {parts : List (List SourceToken)} {first : Nat}
    (hes : ∀ e ∈ es, e.Listable lines)
    (h : parts.map (·.map SourceToken.lexeme) = es.map PhraseEntry.lexemes) :
    (parts.zipIdx first).mapM (fun part => phrase? lines part.2 part.1) =
      .ok ((es.zipIdx first).map fun e => e.1.renumber e.2) := by
  have hderives := PhraseEntry.forall₂_derives_renumber first hes
  rw [← h, List.zipIdx_map, List.forall₂_map_left_iff] at hderives
  simp only [Reading.mapM_eq_ok_iff, phrase?_eq_ok_iff]
  exact hderives

end Statement

end SpanRules
