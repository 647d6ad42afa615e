import SpanRules.Text.Basic

/-! Patterns: alternatives of item sequences over the tokens of a span. -/
namespace SpanRules

inductive Test where
  | any
  /-- The word itself. -/
  | equals (word : Text)
  /-- The word in lower case. -/
  | equalsLower (word : Text)
  | inDictionary (name : Text)
  /-- The lower case of the word is in a dictionary. -/
  | lowerInDictionary (name : Text)
  | propertyIs (key value : Text)
  | hasProperty (key : Text)
  | not (t : Test)
  | both (t u : Test)
  deriving DecidableEq, Inhabited

/-- The dictionaries that a test uses, in the order in which it names them. -/
def Test.dictionaries : Test → List Text
  | .inDictionary name | .lowerInDictionary name => [name]
  | .not t => t.dictionaries
  | .both t u => t.dictionaries ++ u.dictionaries
  | _ => []

/-- A run of tokens that all pass a test. There is no upper bound on their number if `max` is
missing. A run that is maximal on the left or right has no neighbour there that passes, too. -/
structure Run where
  test : Test
  min : Nat
  max : Option Nat
  maximalLeft : Bool
  maximalRight : Bool
  deriving DecidableEq, Inhabited

/-- A part of a sequence. A gap is any run of tokens. -/
inductive Item where
  | gap
  | labeled (type : Text) (optional : Bool)
  | run (r : Run)
  deriving DecidableEq, Inhabited

/-- A sequence that is to match a whole span. What stands between its brackets is extracted, and
all of the span if there are none. -/
inductive Alternative where
  | whole (items : List Item)
  | bracketed (before inside after : List Item)
  deriving DecidableEq, Inhabited

def Alternative.items : Alternative → List Item
  | .whole items => items
  | .bracketed before inside after => before ++ inside ++ after

/-- A pattern with the texts of the tokens from which it was read. -/
structure Pattern where
  alternatives : List Alternative
  source : List Text
  deriving DecidableEq, Inhabited

namespace Pattern

def items (p : Pattern) : List Item := p.alternatives.flatMap (·.items)

/-- The dictionaries that a pattern uses, in the order in which it names them. -/
def dictionaries (p : Pattern) : List Text :=
  p.items.flatMap fun
    | .run r => r.test.dictionaries
    | _ => []

def toText (p : Pattern) : Text := Text.join (ascii " ") p.source

end Pattern

end SpanRules
