import SpanRules.Statement.Fault

/-! Everything that can go wrong, and how it is told. -/
namespace SpanRules

inductive Failure where
  | inStatement (e : StatementError)
  | inPattern (fault : PatternFault)
  | severalStatements (source : Text)
  | inFile (e : FileError)
  | noLevelNamed (level : Text)
  | noScopeType (type : Text)
  | undefinedDictionary (name : Text)
  | levelExists (level : Text)
  | unknownStrategy (name : Text)
  | noPseudotokenType (type : Text)
  | unknownLevel (level : Text)
  | noTypeInLevel (type level : Text)
  | noAnnotator (name : Text) (e : FileError)
  | unloadableAnnotator (file : Text) (cause : Failure)
  | malformedOperation (file : Text) (line : Nat)
  | unknownDocument (id file : Text) (line : Nat)
  | regexUnsupported
  /-- Annotators name each other more deeply than the bound on their nesting allows. -/
  | nestingTooDeep
  deriving DecidableEq, Inhabited

namespace Failure

def parseCode : Int := 1000
def referenceCode : Int := 1001
def resourceCode : Int := 1002

def location (file : Text) (line : Nat) : Text := file ++ ascii ":" ++ Text.ofNat line

def status : Failure → Status
  | inStatement e => .error parseCode e.message
  | inPattern fault => .error parseCode fault.message
  | severalStatements source =>
    .error parseCode (ascii "Only one statement expected in '" ++ source ++ ascii "'")
  | inFile e => e.status
  | noLevelNamed level =>
    .error referenceCode (ascii "no level named '" ++ level ++ ascii "'")
  | noScopeType type => .error referenceCode (ascii "no type '" ++ type ++ ascii "' defined")
  | undefinedDictionary name =>
    .error referenceCode (ascii "undefined dictionary '" ++ name ++ ascii "'")
  | levelExists level => .error referenceCode (ascii "Level already exists: " ++ level)
  | unknownStrategy name => .error referenceCode (ascii "Unknown level strategy: " ++ name)
  | noPseudotokenType type =>
    .error referenceCode (ascii "No type '" ++ type ++ ascii "' for pseudotokens")
  | unknownLevel level => .error referenceCode (ascii "Unknown level: " ++ level)
  | noTypeInLevel type level =>
    .error referenceCode (ascii "No type '" ++ type ++ ascii "' in level " ++ level)
  | noAnnotator name e =>
    .error resourceCode (ascii "No annotator found for '" ++ name ++ ascii "': " ++
      e.status.message)
  | unloadableAnnotator file cause =>
    .error resourceCode (ascii "Cannot load annotator from " ++ file ++ ascii ": " ++
      cause.status.message)
  | malformedOperation file line =>
    .error resourceCode (ascii "Malformed operation at " ++ location file line)
  | unknownDocument id file line =>
    .error resourceCode (ascii "Unknown document " ++ id ++ ascii " at " ++ location file line)
  | regexUnsupported => .error parseCode (ascii "regular expressions are not supported")
  | nestingTooDeep => .error resourceCode (ascii "annotators are nested too deeply")

/-- Whether only the lack of regular expressions is in the way. -/
def needsRegex : Failure → Bool
  | inStatement e => e.fault.needsRegex
  | inPattern .regexUnsupported | regexUnsupported => true
  | unloadableAnnotator _ cause => cause.needsRegex
  | _ => false

end Failure

def statusOf {α : Type} : Except Failure α → Status
  | .ok _ => .ok
  | .error f => f.status

end SpanRules
