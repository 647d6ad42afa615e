import SpanRules.Layer.Basic
import SpanRules.Text.Lower

/-! The label store: layers by level, dictionaries, and the types that count as annotated. -/
namespace SpanRules

/-- A set of words. One that ignores case is asked for words in lower case. -/
structure Dictionary where
  words : OrderedSet Text
  ignoreCase : Bool
  deriving DecidableEq, Inhabited

def Dictionary.contains (d : Dictionary) (word : Text) : Bool :=
  d.words.contains (if d.ignoreCase then word.lower else word)

abbrev Dictionaries := OrderedMap Text Dictionary

def Dictionaries.holds (ds : Dictionaries) (name word : Text) : Bool :=
  (OrderedMap.find? ds name).any (·.contains word)

structure Store where
  levels : OrderedMap Text Layer
  dictionaries : Dictionaries
  annotated : OrderedSet Text
  deriving DecidableEq, Inhabited

namespace Store

def baseLevel : Text := ascii "original"

/-- A store whose only level is a layer without labels. -/
def ofCorpus (c : Corpus) : Store :=
  ⟨OrderedMap.empty.insert baseLevel (.ofCorpus c), .empty, .empty⟩

def layer? (s : Store) (level : Text) : Option Layer := s.levels.find? level

/-- The layer of a level that is known to be there. -/
def layer (s : Store) (level : Text) : Layer := (s.layer? level).getD default

def setLayer (s : Store) (level : Text) (l : Layer) : Store :=
  { s with levels := s.levels.insert level l }

def defineDictionary (s : Store) (name : Text) (d : Dictionary) : Store :=
  { s with dictionaries := s.dictionaries.insert name d }

def markAnnotated (s : Store) (type : Text) : Store :=
  { s with annotated := s.annotated.insert type }

/-- A type is annotated if it is marked or has instances in the layer. -/
def isAnnotated (s : Store) (type : Text) (l : Layer) : Bool :=
  s.annotated.contains type || ! (l.instances type).isEmpty

end Store

end SpanRules
