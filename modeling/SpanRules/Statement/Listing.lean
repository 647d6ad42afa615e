import SpanRules.Source.Quoted
import SpanRules.Statement.Basic

/-! The source form of statements. -/
namespace SpanRules

def DictionaryEntry.toText (d : DictionaryDefinition) : DictionaryEntry → Text
  | .word w => (d.normal w).quoteIfNeeded
  | .file name _ => ascii "\"" ++ name ++ ascii "\""

def DictionaryDefinition.toText (d : DictionaryDefinition) : Text :=
  ascii "defDict " ++ (if d.ignoreCase then [] else ascii "+case ") ++ d.name.quoteIfNeeded ++
    ascii " = " ++ Text.join (ascii ", ") (d.entries.map (·.toText d))

/-- An entry without words has no source form. -/
def PhraseEntry.toText? : PhraseEntry → Option Text
  | .words _ [] => none
  | .words _ ws => some (ws.foldl (fun (phrase, source) w =>
      if phrase = [] then (w, source ++ w.quoteIfNeeded)
      else (phrase ++ byte ' ' :: w, source ++ byte ' ' :: w.quoteIfNeeded)) ([], [])).2
  | .file name _ => some (ascii "\"" ++ name ++ ascii "\"")

def Generator.toText : Generator → Text
  | .extractions p => ascii ": " ++ p.toText
  | .rejections p => ascii "- " ++ p.toText
  | .phrases entries =>
    match entries.filterMap (·.toText?) with
    | [] => ascii "~ trie"
    | texts => ascii "~ trie " ++ Text.join (ascii ", ") texts

def Effect.toText : Effect → Text
  | .spanType type => ascii "defSpanType " ++ type.quoteIfNeeded
  | .spanProperty key value =>
    ascii "defSpanProp " ++ key.quoteIfNeeded ++ ascii ":" ++ value.quoteIfNeeded
  | .tokenProperty key value =>
    ascii "defTokenProp " ++ key.quoteIfNeeded ++ ascii ":" ++ value.quoteIfNeeded

def Labeling.toText (l : Labeling) : Text :=
  l.effect.toText ++ ascii " = " ++
    (if l.scope = [] then [] else l.scope.quoteIfNeeded ++ ascii " ") ++ l.generator.toText

/-- A statement in source form, without the semicolon. -/
def Statement.toText : Statement → Text
  | .declareType type => ascii "declareSpanType " ++ type.quoteIfNeeded
  | .provide type => ascii "provide " ++ type.quoteIfNeeded
  | .require type file =>
    ascii "require " ++ type.quoteIfNeeded ++
      (if file = [] then [] else ascii ", " ++ file.quoteIfNeeded)
  | .annotateWith file => ascii "annotateWith " ++ file.quoteIfNeeded
  | .onLevel level => ascii "onLevel " ++ level.quoteIfNeeded
  | .offLevel => ascii "offLevel"
  | .importFromLevel level newType oldType =>
    ascii "importFromLevel " ++ level.quoteIfNeeded ++ ascii " " ++ newType.quoteIfNeeded ++
      ascii " = " ++ oldType.quoteIfNeeded
  | .defineDictionary d => d.toText
  | .defineLevel level strategy pattern =>
    ascii "defLevel " ++ level.quoteIfNeeded ++ ascii " = " ++ strategy.name ++ ascii " " ++
      pattern.quote
  | .label l => l.toText

end SpanRules
