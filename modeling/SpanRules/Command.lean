import SpanRules.Evaluation
import SpanRules.Document.Load
import SpanRules.Flag.CommandLine
import SpanRules.Layer.Operation

/-! The command that runs a program on documents, as a function of its arguments and files. -/
namespace SpanRules.Command

inductive Event where
  | output (t : Text)
  | complaint (t : Text)
  | log (l : LogLine)
  deriving DecidableEq, Inhabited

/-- How a run ends: with a code of its own, or broken off by a signal of the system. -/
inductive Exit where
  | code (n : Nat)
  | signal (n : Nat)
  deriving DecidableEq, Inhabited

/-- The code by which a run is known to whoever started it. -/
def Exit.toNat : Exit → Nat
  | code n => n
  | signal n => 128 + n

/-- A finished run: how it ended, what was written in order, and the files that it leaves. -/
structure Ending where
  exit : Exit
  events : List Event
  files : FileSystem
  deriving Inhabited

def flags : Flags :=
  [⟨ascii "help", ascii "Print help message", .bool false⟩,
   ⟨ascii "v", ascii "Verbosity level for VLOG messages", .int32 0⟩,
   ⟨ascii "loglevel", ascii "Minimum severity of messages written to the log", .int32 0⟩,
   ⟨ascii "logtostderr", ascii "Write log messages to stderr, not stdout", .bool false⟩,
   ⟨ascii "resource_path", ascii "Colon-separated list of directories with resource files",
    .string []⟩,
   ⟨ascii "labels", ascii "Labels to load before evaluation (addToType ops)", .string []⟩]

def usage : Text := ascii "run-program [OPTIONS] PROGRAM [TEXT [OUT]]"

def helpRequested (flags : Flags) : Bool := flags.isOn (ascii "help")

def info (t : Text) : Event := .log ⟨.info, t⟩

def failed (doing : String) (name : Text) (st : Status) : Event :=
  .log ⟨.error, ascii "Error " ++ ascii doing ++ ascii " " ++ name ++ ascii ": " ++ st.toText⟩

namespace Ending

/-- What was written before an ending comes first. -/
def after (before : List Event) (e : Ending) : Ending := { e with events := before ++ e.events }

end Ending

def listTypes (l : Layer) : Text :=
  l.types.toList.flatMap fun e =>
    ascii "Type " ++ e.1 ++ ascii ":\n" ++ e.2.toList.flatMap fun s =>
      ascii "\t'" ++ (l.document s.document).spanText s ++ ascii "'\n"

/-- Writes the labels to a file, or lists them if none is named. -/
def writeLabels (files : FileSystem) (l : Layer) : (out : Option Text) → Ending
  | none => ⟨.code 0, [.output (listTypes l)], files⟩
  | some out =>
    match l.saveOperations files out with
    | .ok files => ⟨.code 0, [], files⟩
    | .error f => ⟨.code 1, [failed "writing" out f.status], files⟩

/-- The signal that breaks off a run in which programs call each other without end. -/
def segmentationFault : Exit := .signal 11

def evaluate (r : Resources) (name : Text) (p : Program) (l : Layer) (out : Option Text) :
    Ending :=
  let store := (Store.ofCorpus l.documents).setLayer Store.baseLevel l
  let o := Environment.evaluate ⟨r, []⟩ Environment.nestingLimit p store Store.baseLevel
  let logged := Ending.after (o.log.map .log)
  match o.result with
  | .error .nestingTooDeep => ⟨segmentationFault, [], r.files⟩
  | .error f => logged ⟨.code 1, [failed "evaluating" name f.status], r.files⟩
  | .ok () => logged (writeLabels r.files (o.store.layer Store.baseLevel) out)

def withLabels (r : Resources) (labels name : Text) (p : Program) (l : Layer)
    (out : Option Text) : Ending :=
  if labels = [] then evaluate r name p l out
  else
    let loaded := l.loadOperations r.files labels
    Ending.after (loaded.log.map .log) <|
      match loaded.result with
      | .error f => ⟨.code 1, [failed "loading labels from" labels f.status], r.files⟩
      | .ok () => evaluate r name p loaded.layer out

/-- Loads documents, and goes on from there. -/
def withDocuments (r : Resources) (labels name : Text) (p : Program) (text : Text)
    (out : Option Text) : Ending :=
  let loaded := Corpus.load [] r.files text
  Ending.after (loaded.log.map .log) <|
    match loaded.result with
    | .error e => ⟨.code 1, [failed "loading" text e.status], r.files⟩
    | .ok () =>
      let count := Text.ofNat loaded.documents.length
      Ending.after [info (ascii "Loaded " ++ count ++ ascii " documents from " ++ text)] <|
        withLabels r labels name p (.ofCorpus loaded.documents) out

/-- Reads a program and lists it, and goes on from there if documents are named. -/
def withProgram (r : Resources) (labels name : Text) (text out : Option Text) : Ending :=
  match Program.ofFile? r name with
  | .error f => ⟨.code 1, [failed "parsing" name f.status], r.files⟩
  | .ok p =>
    Ending.after [.output (ascii "program:\n" ++ p.listing)] <|
      match text with
      | none => ⟨.code 0, [], r.files⟩
      | some text => withDocuments r labels name p text out

/-- Runs the command with the arguments that are left when flags are taken out. -/
def runArguments (files : FileSystem) (program : Text) (flags : Flags) (args : List Text) :
    Ending :=
  let r : Resources := ⟨files, Resources.pathDirectories (flags.text (ascii "resource_path"))⟩
  let labels := flags.text (ascii "labels")
  match args with
  | [name] => withProgram r labels name none none
  | [name, text] => withProgram r labels name (some text) none
  | [name, text, out] => withProgram r labels name (some text) (some out)
  | _ => ⟨.code 1, [.complaint (program ++ ascii " [OPTIONS] PROGRAM [TEXT [OUT]]\n")], files⟩

/-- A run with its flags, which say where the log goes. -/
structure Run where
  flags : Flags
  ending : Ending
  deriving Inhabited

def run (files : FileSystem) (program : Text) (args : List Text) : Run :=
  let line := flags.take args
  let complaints := line.error.toList.map fun e => Event.complaint e.message
  Run.mk line.flags <|
    if helpRequested line.flags then
      ⟨.code 0, complaints ++ [.output (line.flags.help usage program)], files⟩
    else if line.error.isSome then ⟨.code 1, complaints, files⟩
    else runArguments files program line.flags line.arguments

namespace Run

/-- Whether a message is severe enough for the log. -/
def shows (r : Run) (l : LogLine) : Bool := r.flags.integer (ascii "loglevel") ≤ l.severity.rank

def logsToStderr (r : Run) : Bool := r.flags.isOn (ascii "logtostderr")

def stdoutOf (r : Run) : Event → Text
  | .output t => t
  | .complaint _ => []
  | .log l => if r.shows l ∧ ! r.logsToStderr then l.toText else []

def stderrOf (r : Run) : Event → Text
  | .output _ => []
  | .complaint t => t
  | .log l => if r.shows l ∧ r.logsToStderr then l.toText else []

def isMessage (r : Run) : Event → Bool
  | .log l => r.shows l && ! r.logsToStderr
  | _ => false

/-- The events of which standard output can show something. What a run writes there waits for the
next message or the end, and is lost if the run is broken off. -/
def delivered (r : Run) : List Event :=
  match r.ending.exit with
  | .code _ => r.ending.events
  | .signal _ => (r.ending.events.reverse.dropWhile (! r.isMessage ·)).reverse

def stdout (r : Run) : Text := r.delivered.flatMap r.stdoutOf

def stderr (r : Run) : Text := r.ending.events.flatMap r.stderrOf

end Run

end SpanRules.Command
