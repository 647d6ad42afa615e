import SpanRules.Text.Basic

/-! Messages for the log. -/
namespace SpanRules

inductive Severity where
  | info
  | warning
  | error
  deriving DecidableEq, Inhabited

def Severity.rank : Severity → Int
  | info => 0
  | warning => 1
  | error => 2

def Severity.letter : Severity → Char
  | info => 'I'
  | warning => 'W'
  | error => 'E'

structure LogLine where
  severity : Severity
  text : Text
  deriving DecidableEq, Inhabited

/-- A message in one line. Time and place of the message are not part of it, and it ends at its
first zero byte. -/
def LogLine.toText (l : LogLine) : Text :=
  [byte '[', byte l.severity.letter] ++ ascii "] " ++ l.text.beforeNul ++ [byte '\n']

end SpanRules
