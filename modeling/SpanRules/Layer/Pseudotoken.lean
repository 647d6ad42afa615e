import SpanRules.Layer.Basic

/-! Documents in which the instances of a type are single tokens. -/
namespace SpanRules

namespace Layer

/-- The end of the longest instance of a type that starts at a token; the token itself if there is
none. -/
def longestEnd (l : Layer) (type : Text) (document start : Nat) : Nat :=
  (l.instancesAt type document start).foldl (fun stop s => max stop s.stop) start

end Layer

namespace Document

def coveringToken (d : Document) (start stop : Nat) : Token :=
  tokenAt d.text (d.tokenStart start) (d.charStop ⟨0, start, stop⟩)

/-- Groups tokens from left to right. `stopOf` tells where the group of a token ends; the first
`skip` of the tokens, which are those from number `i` on, belong to the group before. -/
def grouped (d : Document) (stopOf : Nat → Nat) : (i skip : Nat) → List Token → List Token
  | _, _, [] => []
  | i, skip + 1, _ :: ts => grouped d stopOf (i + 1) skip ts
  | i, 0, _ :: ts =>
    let stop := max (stopOf i) (i + 1)
    d.coveringToken i stop :: grouped d stopOf (i + 1) (stop - i - 1) ts

end Document

/-- The documents of a layer with the instances of a type as tokens. Of instances that overlap the
leftmost counts, of instances with one start the longest. -/
def Layer.pseudotokens (l : Layer) (type : Text) : Corpus :=
  l.documents.mapIdx fun i d =>
    { d with tokens := d.grouped (l.longestEnd type i) 0 0 d.tokens }

end SpanRules
