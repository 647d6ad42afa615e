import SpanRules.Document.Basic
import SpanRules.OrderedMap
import SpanRules.OrderedSet

/-! Layers: the labels of spans and tokens over one division of the documents into tokens. Labels
are added and overwritten, never removed. -/
namespace SpanRules

abbrev Properties := OrderedMap Text Text

/-- Documents with the instances of each declared type and the properties of spans and tokens. -/
structure Layer where
  documents : Corpus
  types : OrderedMap Text (OrderedSet Span)
  spanProperties : OrderedMap Span Properties
  tokenProperties : OrderedMap TokenRef Properties
  deriving DecidableEq, Inhabited

namespace Layer

/-- A layer without labels. -/
def ofCorpus (c : Corpus) : Layer := ⟨c, .empty, .empty, .empty⟩

def document (l : Layer) (i : Nat) : Document := l.documents.getD i default

/-- Declares a type; one that is declared keeps its instances. -/
def declareType (l : Layer) (type : Text) : Layer :=
  { l with types := l.types.update type .empty id }

/-- Adds an instance to a type, which is declared if need be. -/
def addToType (l : Layer) (type : Text) (s : Span) : Layer :=
  { l with types := l.types.update type .empty (·.insert s) }

/-- Adds instances to a type, the last first. -/
def addAllToType (l : Layer) (type : Text) (spans : List Span) : Layer :=
  spans.foldr (fun s l => l.addToType type s) l

def instances? (l : Layer) (type : Text) : Option (OrderedSet Span) := l.types.find? type

def isDeclared (l : Layer) (type : Text) : Bool := l.types.contains type

/-- The instances of a type, none if it is not declared. -/
def instances (l : Layer) (type : Text) : OrderedSet Span := (l.instances? type).getD .empty

/-- The instances of a type that start at a token of a document and do not end before it, in
order. The set is read from the place of the empty span at that token on. -/
def instancesAt (l : Layer) (type : Text) (document start : Nat) : List Span :=
  ((l.instances type).toList.dropWhile fun s => s < ⟨document, start, start⟩).takeWhile fun s =>
    s.document == document && s.start == start

def setProperty (l : Layer) (s : Span) (key value : Text) : Layer :=
  { l with spanProperties := l.spanProperties.update s .empty (·.insert key value) }

def property? (l : Layer) (s : Span) (key : Text) : Option Text :=
  (l.spanProperties.find? s).bind (·.find? key)

def setTokenProperty (l : Layer) (t : TokenRef) (key value : Text) : Layer :=
  { l with tokenProperties := l.tokenProperties.update t .empty (·.insert key value) }

def tokenProperty? (l : Layer) (t : TokenRef) (key : Text) : Option Text :=
  (l.tokenProperties.find? t).bind (·.find? key)

def setTokenProperties (l : Layer) (s : Span) (key value : Text) : Layer :=
  s.tokenRefs.foldl (fun l t => l.setTokenProperty t key value) l

end Layer

end SpanRules
