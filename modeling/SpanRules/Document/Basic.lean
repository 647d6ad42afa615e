import SpanRules.Document.Token
import SpanRules.Span
import SpanRules.Text.Decimal

/-! Documents, the bytes that spans take in them, and the alignment of byte ranges with tokens. -/
namespace SpanRules

structure Document where
  id : Text
  text : Text
  tokens : List Token
  deriving DecidableEq, Inhabited

/-- Documents in order; a document is known by its place. -/
abbrev Corpus := List Document

namespace Document

def ofText (id text : Text) : Document := ⟨id, text, text.tokens⟩

def tokenAt (text : Text) (start stop : Nat) : Token := ⟨start, stop, text.between start stop⟩

def ofRanges (id text : Text) (ranges : List (Nat × Nat)) : Document :=
  ⟨id, text, ranges.map fun r => tokenAt text r.1 r.2⟩

/-- The byte at which a token starts; the end of the text for the place after the last token. -/
def tokenStart (d : Document) (i : Nat) : Nat :=
  match d.tokens[i]? with
  | some t => t.start
  | none => d.text.length

/-- The first byte of a span. An empty span lies at the start of the token that follows it. -/
def charStart (d : Document) (s : Span) : Nat := d.tokenStart s.start

def charStop (d : Document) (s : Span) : Nat :=
  if s.isEmpty then d.charStart s
  else match d.tokens[s.stop - 1]? with
    | some t => t.stop
    | none => d.text.length

def spanText (d : Document) (s : Span) : Text := d.text.between (d.charStart s) (d.charStop s)

def spanTokens (d : Document) (s : Span) : List Token := (d.tokens.drop s.start).take s.length

def spanWords (d : Document) (s : Span) : List Text := (d.spanTokens s).map (·.word)

def whole (d : Document) (index : Nat) : Span := ⟨index, 0, d.tokens.length⟩

/-- The first run of tokens of a span that lie within a range of bytes, which is counted from the
start of the span. -/
def properSubspan? (d : Document) (s : Span) (lo hi : Int) : Option Span :=
  let base := d.charStart s
  let inside (t : Token) : Bool := lo ≤ (t.start : Int) - base && (t.stop : Int) - base ≤ hi
  let before := (d.spanTokens s).takeWhile (! inside ·)
  let run := ((d.spanTokens s).drop before.length).takeWhile inside
  if run = [] then none
  else
    let start := s.start + before.length
    some ⟨s.document, start, start + run.length⟩

def describe (d : Document) (s : Span) : Text :=
  d.id ++ ascii "[" ++ Text.ofNat s.start ++ ascii ":" ++ Text.ofNat s.stop ++ ascii "] '" ++
    d.spanText s ++ ascii "'"

end Document

namespace Corpus

/-- The place of the first document with an id. -/
def find? (c : Corpus) (id : Text) : Option Nat := c.findIdx? (·.id == id)

def spans (c : Corpus) : List Span := c.mapIdx fun i d => d.whole i

end Corpus

end SpanRules
