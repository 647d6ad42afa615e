import SpanRules.Labeling
import SpanRules.Log
import SpanRules.Program
import SpanRules.Store.Level

/-! Evaluating programs on a label store, with annotators that are programs themselves. -/
namespace SpanRules

/-- What evaluation finds outside the store: resources, and annotators that are known by name. -/
structure Environment where
  resources : Resources
  annotators : List (Text × (Layer → Layer))
  deriving Inhabited

structure Outcome where
  store : Store
  log : List LogLine
  result : Except Failure Unit
  deriving Inhabited

namespace Outcome

def success (s : Store) : Outcome := ⟨s, [], .ok ()⟩

def failure (s : Store) (f : Failure) : Outcome := ⟨s, [], .error f⟩

def ofExcept (old : Store) : Except Failure Store → Outcome
  | .ok s => success s
  | .error f => failure old f

end Outcome

abbrev AnnotatorRunner := (name level : Text) → Store → Outcome

inductive Annotator where
  | builtIn (run : Layer → Layer)
  | program (p : Program)

namespace Environment

/-- The annotator of a name: one that is known by it, or the program in the resource of that
name. -/
def loadAnnotator (env : Environment) (name : Text) : Except Failure Annotator :=
  match env.annotators.lookup name.beforeNul with
  | some run => .ok (.builtIn run)
  | none =>
    match env.resources.resolve name with
    | .error e => .error (.noAnnotator name e)
    | .ok file =>
      match Program.ofFile? env.resources file with
      | .error f => .error (.unloadableAnnotator file f)
      | .ok p => .ok (.program p)

end Environment

namespace Store

/-- Makes sure that a type is annotated on a level: runs the annotator of the given file, or of
the name of the type, and marks the type. -/
def require (annotate : AnnotatorRunner) (s : Store) (type file level : Text) : Outcome :=
  if s.isAnnotated type (s.layer level) then .success s
  else
    let o := annotate (if file = [] then type else file) level s
    match o.result with
    | .error _ => o
    | .ok () => { o with store := o.store.markAnnotated type }

end Store

namespace Statement

/-- Carries out a statement on the current level; also gives the level that is current then. -/
def execute (annotate : AnnotatorRunner) (s : Store) (level : Text) :
    Statement → Outcome × Text
  | declareType type => (.success (s.setLayer level ((s.layer level).declareType type)), level)
  | provide type => (.success (s.markAnnotated type), level)
  | require type file => (s.require annotate type file level, level)
  | annotateWith file => (annotate file level s, level)
  | onLevel new =>
    match s.layer? new with
    | some _ => (.success s, new)
    | none => (.failure s (.noLevelNamed new), level)
  | offLevel => (.success s, Store.baseLevel)
  | importFromLevel source newType oldType =>
    (.ofExcept s (s.importFromLevel source oldType level newType), level)
  | defineDictionary d => (.success (s.defineDictionary d.name ⟨d.words, d.ignoreCase⟩), level)
  | defineLevel new strategy pattern =>
    (.ofExcept s (s.createLevel new strategy.name pattern (s.layer level)), level)
  | label l =>
    let done := l.execute s.dictionaries (s.layer level)
    (⟨s.setLayer level done.layer, [], done.result⟩, level)

end Statement

namespace Program

def failureLine (st : Statement) (f : Failure) : LogLine :=
  ⟨.error, ascii "Error evaluating '" ++ st.toText ++ ascii "': " ++ f.status.toText⟩

/-- Carries out statements up to the first that fails. -/
def run (annotate : AnnotatorRunner) : Program → Store → (level : Text) → Outcome
  | [], s, _ => .success s
  | st :: sts, s, level =>
    let (o, level) := st.execute annotate s level
    match o.result with
    | .error f => { o with log := o.log ++ [failureLine st f] }
    | .ok () =>
      let rest := run annotate sts o.store level
      { rest with log := o.log ++ rest.log }

end Program

namespace Environment

/-- Runs annotators; the bound limits how deeply programs may call each other. -/
def annotate (env : Environment) : (bound : Nat) → AnnotatorRunner
  | 0, _, _, s => .failure s .nestingTooDeep
  | bound + 1, name, level, s =>
    match env.loadAnnotator name with
    | .error f => .failure s f
    | .ok (.builtIn run) => .success (s.setLayer level (run (s.layer level)))
    | .ok (.program p) => p.run (annotate env bound) s level

def evaluate (env : Environment) (bound : Nat) (p : Program) (s : Store) (level : Text) :
    Outcome :=
  p.run (env.annotate bound) s level

def nestingLimit : Nat := 20000

end Environment

end SpanRules
