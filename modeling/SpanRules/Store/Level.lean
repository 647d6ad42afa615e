import SpanRules.Failure
import SpanRules.Layer.Pseudotoken
import SpanRules.Statement.Basic
import SpanRules.Store.Basic

/-! New levels, and labels taken over from one level to another. -/
namespace SpanRules

namespace Document

/-- The tokens of one document that lie within the bytes of a span of another, if there are any. -/
def alignSpan? (target : Document) (source : Document) (s : Span) : Option Span :=
  let whole := target.whole s.document
  let base : Int := target.charStart whole
  target.properSubspan? whole (source.charStart s - base) (source.charStop s - base)

end Document

namespace Layer

/-- The span that takes the place of a span of another layer. -/
def align? (target source : Layer) (s : Span) : Option Span :=
  match target.documents[s.document]? with
  | none => none
  | some d => if d.tokens = [] then none else d.alignSpan? (source.document s.document) s

/-- Declares a type and adds to it what takes the place of the given spans of another layer. -/
def importSpans (target source : Layer) (type : Text) (spans : OrderedSet Span) : Layer :=
  (target.declareType type).addAllToType type (spans.toList.filterMap (target.align? source))

/-- The span that takes the place of a span in its own layer and, as long as each comes later than
the one before, the spans that take its place in turn. -/
def alignments (l : Layer) : (fuel : Nat) → Span → List Span
  | 0, _ => []
  | fuel + 1, s =>
    match l.align? l s with
    | none => []
    | some t => if s < t then t :: alignments l fuel t else [t]

/-- Imports a type into itself. A span that is added is imported, too, if it comes later than the
one whose place it takes. Spans of one document can rise no more often than there are pairs of its
tokens. -/
def importToSelf (l : Layer) (type : Text) (spans : OrderedSet Span) : Layer :=
  l.addAllToType type (spans.toList.flatMap fun s =>
    let places := (l.document s.document).tokens.length + 1
    l.alignments (places * places) s)

end Layer

namespace Store

def retokenize (l : Layer) (strategy : Strategy) (pattern : Text) : Except Failure Corpus :=
  match strategy with
  | .pseudotoken =>
    if l.isDeclared pattern then .ok (l.pseudotokens pattern)
    else .error (.noPseudotokenType pattern)
  | _ => .error .regexUnsupported

/-- Makes a level without labels from the layer of another. -/
def createLevel (s : Store) (level strategy pattern : Text) (source : Layer) :
    Except Failure Store :=
  if s.levels.contains level then .error (.levelExists level)
  else
    match Strategy.ofName? strategy.beforeNul with
    | none => .error (.unknownStrategy strategy)
    | some st => do
      return s.setLayer level (.ofCorpus (← retokenize source st pattern))

def importFromLevel (s : Store) (source oldType target newType : Text) : Except Failure Store :=
  match s.layer? source with
  | none => .error (.unknownLevel source)
  | some l =>
    match l.instances? oldType with
    | none => .error (.noTypeInLevel oldType source)
    | some spans =>
      .ok <| s.setLayer target <|
        if source = target ∧ oldType = newType then l.importToSelf newType spans
        else (s.layer target).importSpans l newType spans

end Store

end SpanRules
