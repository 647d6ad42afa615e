import SpanRules.Files.Fault
import SpanRules.Pattern.Fault

/-! What can be wrong with a statement. -/
namespace SpanRules

inductive NameRole where
  | type
  | file
  | level
  | dictionary
  | levelPattern
  | property
  | propertyValue
  | scope
  deriving DecidableEq, Inhabited

def NameRole.description : NameRole → Text
  | type => ascii "type name"
  | file => ascii "file name"
  | level => ascii "level name"
  | dictionary => ascii "dictionary name"
  | levelPattern => ascii "level pattern"
  | property => ascii "property name"
  | propertyValue => ascii "property value"
  | scope => ascii "scope type"

inductive StatementFault where
  | unterminatedText
  | keywordExpected
  | unknownKeyword
  | nameExpected (role : NameRole)
  | symbolExpected (c : Char)
  | unterminatedFileName
  | emptyFileName
  | unreadable (file : Text) (error : FileError)
  | caseExpected
  | dictionaryWordExpected
  | commaExpected
  | strategyExpected
  | propertyRefused
  | propertyColonExpected
  | generatorExpected
  | searchKindExpected
  | regexExpected
  | groupExpected (saw : Text)
  | inPattern (fault : PatternFault)
  /-- There is no engine for regular expressions. -/
  | regexUnsupported
  deriving DecidableEq, Inhabited

def StatementFault.message : StatementFault → Text
  | unterminatedText => ascii "Unterminated string"
  | keywordExpected => ascii "statement keyword expected"
  | unknownKeyword => ascii "unknown keyword"
  | nameExpected role => role.description ++ ascii " expected"
  | symbolExpected c => ascii "'" ++ [byte c] ++ ascii "' expected"
  | unterminatedFileName => ascii "unterminated file name"
  | emptyFileName => ascii "empty file name"
  | unreadable file error =>
    ascii "error when reading " ++ file ++ ascii ": " ++ error.status.toText
  | caseExpected => ascii "'case' expected after '+'"
  | dictionaryWordExpected => ascii "dictionary word expected"
  | commaExpected => ascii "expected comma"
  | strategyExpected => ascii "level strategy expected"
  | propertyRefused => ascii "can't define properties here"
  | propertyColonExpected => ascii "':' expected after property"
  | generatorExpected => ascii "expected ':', '-' or '~'"
  | searchKindExpected => ascii "expected 're' or 'trie'"
  | regexExpected => ascii "quoted regular expression expected"
  | groupExpected saw => ascii "expected a regex group number and saw '" ++ saw ++ ascii "'"
  | inPattern fault => fault.message.beforeNul
  | regexUnsupported => ascii "regular expressions are not supported"

structure StatementError where
  place : Nat × Nat
  keyword : Text
  fault : StatementFault
  deriving DecidableEq, Inhabited

def StatementError.message (e : StatementError) : Text :=
  ascii "statement error at " ++ Text.ofNat e.place.1 ++ ascii ":" ++ Text.ofNat e.place.2 ++
    ascii " in '" ++ e.keyword ++ ascii "': " ++ e.fault.message

def StatementFault.needsRegex : StatementFault → Bool
  | .regexUnsupported | .inPattern .regexUnsupported => true
  | _ => false

end SpanRules
