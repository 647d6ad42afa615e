import SpanRules.Text.Decimal

/-! How an operation ended, as it is told to the user. -/
namespace SpanRules

inductive Status where
  | ok
  | error (code : Int) (text : Text)
  deriving DecidableEq, Inhabited

namespace Status

/-- An error about something named; a zero byte ends the name and the detail. -/
def ofDetail (code : Int) (context detail : Text) : Status :=
  .error code (context.beforeNul ++ ascii ": " ++ detail.beforeNul)

def isOk : Status → Bool
  | .ok => true
  | .error .. => false

def code : Status → Int
  | .ok => 0
  | .error code _ => code

/-- The text of an error up to its first zero byte. -/
def message : Status → Text
  | .ok => []
  | .error _ text => text.beforeNul

/-- The status in one line, as logs show it. -/
def toText : Status → Text
  | .ok => ascii "OK"
  | .error code text => ascii "ERROR " ++ Text.ofInt code ++ ascii " : " ++ text

end Status

end SpanRules
