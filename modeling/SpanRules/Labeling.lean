import SpanRules.Pattern.Extraction
import SpanRules.Phrase.Trie
import SpanRules.Statement.Basic

/-! Carrying out labeling statements on a layer. -/
namespace SpanRules

def Effect.apply (e : Effect) (l : Layer) (s : Span) : Layer :=
  match e with
  | .spanType type => l.addToType type s
  | .spanProperty key value => l.setProperty s key value
  | .tokenProperty key value => l.setTokenProperties s key value

/-- Labels spans. All get the same label, so that their order does not matter; the last comes
first, because labels are kept in the order of spans and one is found fast near the front. -/
def Effect.applyAll (e : Effect) (l : Layer) (spans : List Span) : Layer :=
  spans.foldr (fun s l => e.apply l s) l

/-- What a statement does even if it finds no span. -/
def Effect.declare (e : Effect) (l : Layer) : Layer :=
  match e with
  | .spanType type => l.declareType type
  | _ => l

structure Labeled where
  layer : Layer
  result : Except Failure Unit
  deriving Inhabited

namespace Labeling

/-- Labels what a pattern extracts from each of the given spans. The labels of one span are there
when the next is looked at. -/
def labelExtractions (ds : Dictionaries) (p : Pattern) (e : Effect) : Layer → List Span → Labeled
  | l, [] => ⟨l, .ok ()⟩
  | l, s :: ss =>
    match p.extract ds l s with
    | .error f => ⟨l, .error f⟩
    | .ok found => labelExtractions ds p e (e.applyAll l found.toList) ss

/-- The given spans from which a pattern extracts nothing. -/
def rejected? (ds : Dictionaries) (p : Pattern) (l : Layer) :
    OrderedSet Span → List Span → Except Failure (OrderedSet Span)
  | found, [] => .ok found
  | found, s :: ss =>
    match p.extract ds l s with
    | .error f => .error f
    | .ok spans => rejected? ds p l (if spans.isEmpty then found.insert s else found) ss

/-- Labels the spans from which a pattern extracts nothing, all of them being found before the
first is labeled. -/
def labelRejections (ds : Dictionaries) (p : Pattern) (e : Effect) (l : Layer)
    (spans : List Span) : Labeled :=
  match rejected? ds p l .empty spans with
  | .error f => ⟨l, .error f⟩
  | .ok found => ⟨e.applyAll l found.toList, .ok ()⟩

def labelPhrases (phrases : PhraseSet) (e : Effect) (l : Layer) (spans : List Span) : Labeled :=
  ⟨e.applyAll l (spans.flatMap fun s => phrases.lookup (l.document s.document) s), .ok ()⟩

/-- The spans in which a statement looks: all documents, or the instances of its scope. -/
def input? (l : Layer) (scope : Text) : Except Failure (List Span) :=
  if scope = [] then .ok l.documents.spans
  else
    match l.instances? scope with
    | some spans => .ok spans.toList
    | none => .error (.noScopeType scope)

def run (ds : Dictionaries) (st : Labeling) (l : Layer) (spans : List Span) : Labeled :=
  match st.generator with
  | .extractions p => labelExtractions ds p st.effect l spans
  | .rejections p => labelRejections ds p st.effect l spans
  | .phrases entries => labelPhrases (PhraseEntry.collect entries) st.effect l spans

def execute (ds : Dictionaries) (st : Labeling) (l : Layer) : Labeled :=
  match input? l st.scope with
  | .error f => ⟨l, .error f⟩
  | .ok spans =>
    let done := run ds st l spans
    match done.result with
    | .error f => ⟨done.layer, .error f⟩
    | .ok () => ⟨st.effect.declare done.layer, .ok ()⟩

end Labeling

end SpanRules
