import SpanRules.Pattern.Basic
import SpanRules.Pattern.Fault
import SpanRules.Source.Token
import SpanRules.Source.Quoted
import SpanRules.Text.Decimal
import SpanRules.Text.Lower

/-! Reading patterns from the tokens of a program. -/
namespace SpanRules

abbrev Rest := List SourceToken

/-- The result of reading, or why reading stopped and what was left then. -/
abbrev Reading (ε α : Type) := Except (ε × Rest) α

def stopAt {ε α : Type} (ts : Rest) (cause : ε) : Reading ε α := .error (cause, ts)

def nextIs (c : Char) (ts : List SourceToken) : Bool := ts.head?.any (·.isSymbol c)

namespace SourceToken

/-- Words and quoted texts can stand for names and values. -/
def isWordOrQuoted (t : SourceToken) : Bool := t.kind == .word || t.kind == .quoted

def startsTest (t : SourceToken) : Bool :=
  t.isWordOrQuoted || t.isSymbol '!' || t.isSymbol '<'

def count? (t : SourceToken) : Option Nat :=
  if t.kind = .word then
    match t.text.int32? with
    | some (.ofNat n) => some n
    | _ => none
  else none

end SourceToken

namespace Test

/-- Reads what follows the name of a property: a value after a colon, or nothing. -/
def property? (key : Text) (ts : Rest) : Reading PatternFault (Test × Rest) :=
  if nextIs ':' ts then
    match ts.tail with
    | v :: rest =>
      if v.isWordOrQuoted then .ok (.propertyIs key v.text.unquote, rest)
      else stopAt (v :: rest) .valueExpected
    | [] => stopAt [] .valueExpected
  else .ok (.hasProperty key, ts)

def argument? (mayBeWord : Bool) (ts : Rest) : Reading PatternFault (Text × Rest) :=
  match ts with
  | v :: rest =>
    if v.kind = .quoted ∨ (mayBeWord ∧ v.kind = .word) then
      if nextIs ')' rest then .ok (v.text.unquote, rest.tail)
      else stopAt rest .parenthesisExpected
    else stopAt (v :: rest) .argumentExpected
  | [] => stopAt [] .argumentExpected

/-- Reads a test that has the form of a function; the tokens begin with its parenthesis. -/
def function? (name : Text) (ts : Rest) : Reading PatternFault (Test × Rest) :=
  if name = ascii "eq" then do
    let (word, rest) ← argument? false ts.tail
    return (.equals word, rest)
  else if name = ascii "eqi" then do
    let (word, rest) ← argument? false ts.tail
    return (.equalsLower word.lower, rest)
  else if name = ascii "re" then do
    let (_, rest) ← argument? false ts.tail
    stopAt rest .regexUnsupported
  else if name = ascii "a" then do
    let (dict, rest) ← argument? true ts.tail
    return (.inDictionary dict, rest)
  else if name = ascii "ai" then do
    let (dict, rest) ← argument? true ts.tail
    return (.lowerInDictionary dict, rest)
  else stopAt ts (.unknownFunction name)

mutual

/-- Reads a test. The fuel bounds the depth of nested tests. -/
def read? : (fuel : Nat) → Rest → Reading PatternFault (Test × Rest)
  | 0, ts => stopAt ts .testExpected
  | _, [] => stopAt [] .testExpected
  | fuel + 1, t :: rest =>
    if t.kind = .quoted then .ok (.equals t.text.unquote, rest)
    else if t.isSymbol '!' then do
      let (x, rest) ← read? fuel rest
      return (.not x, rest)
    else if t.isSymbol '<' then conjunction? fuel rest
    else if t.kind ≠ .word then stopAt (t :: rest) .testExpected
    else if t.text = ascii "any" then .ok (.any, rest)
    else if nextIs '(' rest then function? t.text rest
    else property? t.text rest

/-- Reads tests between commas up to the mark that closes them. -/
def conjunction? : (fuel : Nat) → Rest → Reading PatternFault (Test × Rest)
  | 0, ts => stopAt ts .testExpected
  | fuel + 1, ts => do
    let (x, rest) ← read? fuel ts
    if nextIs '>' rest then return (x, rest.tail)
    else if nextIs ',' rest then
      let (y, rest) ← conjunction? fuel rest.tail
      return (.both x y, rest)
    else stopAt rest .conjunctionMarkExpected

end

end Test

namespace Run

/-- Reads the bounds of a run, which are one and one if none are given. -/
def bounds? (ts : Rest) : Reading PatternFault ((Nat × Option Nat) × Rest) :=
  if nextIs '*' ts then .ok ((0, none), ts.tail)
  else if nextIs '+' ts then .ok ((1, none), ts.tail)
  else if nextIs '?' ts then .ok ((0, some 1), ts.tail)
  else if nextIs '\x7b' ts then
    match ts.tail with
    | [] => stopAt [] .countExpected
    | n :: rest =>
      match n.count? with
      | none => stopAt (n :: rest) .countExpected
      | some min =>
        if nextIs '\x7d' rest then .ok ((min, some min), rest.tail)
        else if nextIs ',' rest then
          if nextIs '\x7d' rest.tail then .ok ((min, none), rest.tail.tail)
          else
            match rest.tail with
            | [] => stopAt [] .countExpected
            | m :: rest =>
              match m.count? with
              | none => stopAt (m :: rest) .countExpected
              | some max =>
                if max < min then stopAt (m :: rest) .emptyRange
                else if nextIs '\x7d' rest then .ok ((min, some max), rest.tail)
                else stopAt rest .braceExpected
        else stopAt rest .braceExpected
  else .ok ((1, some 1), ts)

/-- Reads a test, after the word `L` if the run is maximal on the left. The word stands for a
property if no test follows it. -/
def test? (ts : Rest) : Reading PatternFault ((Bool × Test) × Rest) :=
  let fuel := 2 * ts.length + 1
  if ts.head?.any (·.isWord "L") then
    if ts.tail.head?.any (·.startsTest) then do
      let (t, rest) ← Test.read? fuel ts.tail
      return ((true, t), rest)
    else do
      let (t, rest) ← Test.property? (ascii "L") ts.tail
      return ((false, t), rest)
  else do
    let (t, rest) ← Test.read? fuel ts
    return ((false, t), rest)

/-- Reads a run: a test, its bounds and the word `R` if the run is maximal on the right. -/
def read? (ts : Rest) : Reading PatternFault (Run × Rest) := do
  let ((left, test), rest) ← test? ts
  let ((min, max), rest) ← bounds? rest
  let right := rest.head?.any (·.isWord "R")
  return (⟨test, min, max, left, right⟩, if right then rest.tail else rest)

end Run

/-- A sequence of which a part has been read. -/
inductive Draft where
  | plain (items : List Item)
  | opened (before inside : List Item)
  | closed (before inside after : List Item)
  deriving DecidableEq, Inhabited

namespace Draft

def push (i : Item) : Draft → Draft
  | plain items => plain (items ++ [i])
  | opened before inside => opened before (inside ++ [i])
  | closed before inside after => closed before inside (after ++ [i])

def openBracket : Draft → Except PatternFault Draft
  | plain items => .ok (opened items [])
  | _ => .error .secondOpening

def closeBracket : Draft → Except PatternFault Draft
  | opened before inside => .ok (closed before inside [])
  | _ => .error .unmatchedClosing

def finish : Draft → Except PatternFault Alternative
  | plain [] => .error .emptySequence
  | plain items => .ok (.whole items)
  | opened _ _ => .error .missingClosing
  | closed before inside after => .ok (.bracketed before inside after)

/-- Reads the items and brackets of a sequence to its end. Each takes at least one token, so the
number of tokens is fuel enough. -/
def extend? : (fuel : Nat) → Draft → Rest → Reading PatternFault Draft
  | _, d, [] => .ok d
  | 0, _, ts => stopAt ts .testExpected
  | fuel + 1, d, t :: rest =>
    if t.kind = .unterminated then stopAt (t :: rest) .unterminatedText
    else if t.kind = .ellipsis then extend? fuel (d.push .gap) rest
    else if t.isSymbol '[' then
      match d.openBracket with
      | .ok d => extend? fuel d rest
      | .error e => stopAt (t :: rest) e
    else if t.isSymbol ']' then
      match d.closeBracket with
      | .ok d => extend? fuel d rest
      | .error e => stopAt (t :: rest) e
    else if t.isSymbol '@' then
      match rest with
      | [] => stopAt [] .typeNameExpected
      | n :: rest =>
        if n.isWordOrQuoted then
          let optional := nextIs '?' rest
          extend? fuel (d.push (.labeled n.text.unquote optional))
            (if optional then rest.tail else rest)
        else stopAt (n :: rest) .typeNameExpected
    else do
      let (r, rest) ← Run.read? (t :: rest)
      extend? fuel (d.push (.run r)) rest

end Draft

/-- Reads a sequence; on a fault, also gives the token where it lies. -/
def Alternative.ofSegment? (s : Segment) : Except (PatternFault × SourceToken) Alternative :=
  match Draft.extend? s.tokens.length (.plain []) s.tokens with
  | .error (e, rest) => .error (e, s.current rest)
  | .ok d =>
    match d.finish with
    | .error e => .error (e, s.stop)
    | .ok a => .ok a

/-- Reads a pattern that takes all tokens of a segment; on a fault, also gives the token where it
lies. -/
def Pattern.ofSegment? (s : Segment) : Except (PatternFault × SourceToken) Pattern := do
  let parts := Segment.split (·.kind == .bars) s.stop s.tokens
  return ⟨← parts.mapM Alternative.ofSegment?, s.tokens.map (·.text)⟩

end SpanRules
