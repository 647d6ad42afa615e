import SpanRules.OrderedSet
import SpanRules.Pattern.Basic
import SpanRules.Phrase.Trie

/-! The statements of a program. -/
namespace SpanRules

/-- How the tokens of a level come from those of another. Only `pseudotoken` does without regular
expressions. -/
inductive Strategy where
  | regexMatches
  | regexSplit
  | regexFilter
  | pseudotoken
  deriving DecidableEq, Inhabited

namespace Strategy

def name : Strategy → Text
  | regexMatches => ascii "re"
  | regexSplit => ascii "split"
  | regexFilter => ascii "filter"
  | pseudotoken => ascii "pseudotoken"

def ofName? (n : Text) : Option Strategy :=
  [regexMatches, regexSplit, regexFilter, pseudotoken].find? (·.name == n)

end Strategy

/-- A word of a dictionary, or a file that holds one in each line. -/
inductive DictionaryEntry where
  | word (w : Text)
  | file (name : Text) (lines : List Text)
  deriving DecidableEq, Inhabited

/-- The definition of a dictionary. Unless it keeps case, it holds words in lower case. -/
structure DictionaryDefinition where
  name : Text
  ignoreCase : Bool
  entries : List DictionaryEntry
  deriving DecidableEq, Inhabited

namespace DictionaryDefinition

def normal (d : DictionaryDefinition) (w : Text) : Text := if d.ignoreCase then w.lower else w

def entryWords : DictionaryEntry → List Text
  | .word w => [w]
  | .file _ lines => (lines.map Text.strip).filter (! ·.isEmpty)

def words (d : DictionaryDefinition) : OrderedSet Text :=
  .ofList ((d.entries.flatMap entryWords).map d.normal)

end DictionaryDefinition

/-- A phrase given by words, or a file that holds one phrase in each line. The number of a phrase is
its place in the list that it was read from. -/
inductive PhraseEntry where
  | words (number : Nat) (ws : List Text)
  | file (name : Text) (lines : List Text)
  deriving DecidableEq, Inhabited

namespace PhraseEntry

/-- Puts words together. A blank comes before each word that does not begin the phrase. -/
def joinWords (ws : List Text) : Text :=
  ws.foldl (fun phrase w => (if phrase = [] then [] else phrase ++ [byte ' ']) ++ w) []

/-- The phrases of an entry with the keys under which they are found. -/
def phrases : PhraseEntry → List (Text × Text)
  | words _ [] => []
  | words n ws => [(ascii "phrase#" ++ Text.ofNat n, joinWords ws)]
  | file name lines => lines.mapIdx fun i line =>
      (name ++ ascii ".line." ++ Text.ofNat (i + 1), line.strip)

def collect (es : List PhraseEntry) : PhraseSet := .ofList (es.flatMap phrases)

end PhraseEntry

/-- Which spans a labeling statement finds in its input: what a pattern extracts, the spans in
which it finds nothing, or the occurrences of phrases. -/
inductive Generator where
  | extractions (p : Pattern)
  | rejections (p : Pattern)
  | phrases (entries : List PhraseEntry)
  deriving DecidableEq, Inhabited

inductive Effect where
  | spanType (type : Text)
  | spanProperty (key value : Text)
  | tokenProperty (key value : Text)
  deriving DecidableEq, Inhabited

/-- A labeling statement. Its input are the instances of the scope, or all documents if the name
of the scope is empty. -/
structure Labeling where
  effect : Effect
  scope : Text
  generator : Generator
  deriving DecidableEq, Inhabited

inductive Statement where
  | declareType (type : Text)
  | provide (type : Text)
  /-- An empty file name stands for the name of the type. -/
  | require (type file : Text)
  | annotateWith (file : Text)
  | onLevel (level : Text)
  | offLevel
  | importFromLevel (level newType oldType : Text)
  | defineDictionary (d : DictionaryDefinition)
  | defineLevel (level : Text) (strategy : Strategy) (pattern : Text)
  | label (l : Labeling)
  deriving DecidableEq, Inhabited

end SpanRules
