import SpanRules.Text.Basic

/-! What can be wrong with a pattern. -/
namespace SpanRules

inductive PatternFault where
  | unterminatedText
  | emptySequence
  | secondOpening
  | unmatchedClosing
  | missingClosing
  | typeNameExpected
  | testExpected
  | unknownFunction (name : Text)
  | argumentExpected
  | parenthesisExpected
  | valueExpected
  | conjunctionMarkExpected
  | countExpected
  | emptyRange
  | braceExpected
  /-- There is no engine for regular expressions. -/
  | regexUnsupported
  deriving DecidableEq, Inhabited

def PatternFault.message : PatternFault → Text
  | unterminatedText => ascii "Unterminated string"
  | emptySequence => ascii "empty pattern"
  | secondOpening => ascii "only one '[' allowed"
  | unmatchedClosing => ascii "unmatched ']'"
  | missingClosing => ascii "missing ']'"
  | typeNameExpected => ascii "type name expected after '@'"
  | testExpected => ascii "token test expected"
  | unknownFunction name => ascii "unknown test function: " ++ name
  | argumentExpected => ascii "test argument expected"
  | parenthesisExpected => ascii "')' expected"
  | valueExpected => ascii "property value expected"
  | conjunctionMarkExpected => ascii "',' or '>' expected in conjunction"
  | countExpected => ascii "repeat count expected"
  | emptyRange => ascii "invalid repeat range"
  | braceExpected => ascii "'\x7d' expected"
  | regexUnsupported => ascii "regular expressions are not supported"

end SpanRules
