import SpanRules.Files.Fault

/-! A file system as a value: files and directories by path. There are no links, and everything
may be read and written. -/
namespace SpanRules

/-- The names from the root down to a file or directory. -/
abbrev Path := List Text

inductive Node where
  | file (contents : Text)
  | directory
  deriving DecidableEq, Inhabited

/-- Files and directories, without the root, which is always there, and the directory in which
relative names start. -/
structure FileSystem where
  nodes : List (Path × Node)
  workingDirectory : Path
  deriving Inhabited

/-- Where a name leads: to something that is there, or to a free place in a directory. -/
inductive Location where
  | found (path : Path) (node : Node)
  | free (path : Path)
  deriving DecidableEq, Inhabited

namespace FileSystem

def node? (fs : FileSystem) (p : Path) : Option Node :=
  if p = [] then some .directory else fs.nodes.lookup p

def put (fs : FileSystem) (p : Path) (n : Node) : FileSystem :=
  { fs with nodes := (p, n) :: fs.nodes.filter (·.1 != p) }

def remove (fs : FileSystem) (p : Path) : FileSystem :=
  { fs with nodes := fs.nodes.filter (·.1 != p) }

def names (fs : FileSystem) (dir : Path) : List Text :=
  fs.nodes.filterMap fun e => if e.1.dropLast = dir then e.1.getLast? else none

/-- Puts a directory at a path, and directories above it where nothing is. -/
def putDirectories (fs : FileSystem) (p : Path) : FileSystem :=
  (List.range p.length).foldl (fun fs i =>
    let above := p.take (i + 1)
    if (fs.node? above).isSome then fs else fs.put above .directory) fs

/-- An empty working directory below `/tmp`. -/
def empty : FileSystem :=
  let dir := [ascii "tmp", ascii "work"]
  putDirectories ⟨[], dir⟩ dir

/-- Puts a directory, and those above it, below the working directory. -/
def withDirectory (fs : FileSystem) (names : List Text) : FileSystem :=
  fs.putDirectories (fs.workingDirectory ++ names)

/-- Puts a file, and the directories above it, below the working directory. -/
def withFile (fs : FileSystem) (names : List Text) (contents : Text) : FileSystem :=
  (fs.withDirectory names.dropLast).put (fs.workingDirectory ++ names) (.file contents)

/-- Follows names from a directory. A point stays where it is, two points lead one up. -/
def walk (fs : FileSystem) (dir : Path) : List Text → Except PathFault Location
  | [] => .ok (.found dir .directory)
  | name :: rest =>
    if name = ascii "." then walk fs dir rest
    else if name = ascii ".." then walk fs dir.dropLast rest
    else if name.length > 255 then .error .nameTooLong
    else
      let p := dir ++ [name]
      match fs.node? p with
      | none => if rest = [] then .ok (.free p) else .error .missing
      | some (.file c) => if rest = [] then .ok (.found p (.file c)) else .error .notDirectory
      | some .directory => walk fs p rest

/-- The steps of a name, which ends at its first zero byte. -/
def steps (name : Text) : List Text := name.beforeNul.fields (byte '/')

def hasSlashAtEnd (name : Text) : Bool := name.beforeNul.getLast? == some (byte '/')

/-- Where some of the steps of a name lead. -/
def follow (fs : FileSystem) (name : Text) (names : List Text) : Except PathFault Location :=
  let path := name.beforeNul
  if path = [] then .error .missing
  else if path.length ≥ 4096 then .error .nameTooLong
  else if path.head? = some (byte '/') then fs.walk [] names
  else fs.walk fs.workingDirectory names

def locate (fs : FileSystem) (name : Text) : Except PathFault Location := fs.follow name (steps name)

/-- What a name stands for. A slash at the end asks for a directory. -/
def look (fs : FileSystem) (name : Text) : Except PathFault Node :=
  match fs.locate name with
  | .error e => .error e
  | .ok (.free _) => .error .missing
  | .ok (.found _ .directory) => .ok .directory
  | .ok (.found _ (.file c)) => if hasSlashAtEnd name then .error .notDirectory else .ok (.file c)

def onPath (name : Text) : Except PathFault α → Except FileError α
  | .ok a => .ok a
  | .error e => .error (.onPath name e)

def stat (fs : FileSystem) (name : Text) : Except FileError Node := onPath name (fs.look name)

def fileExists (fs : FileSystem) (name : Text) : Bool := (fs.look name).isOk

def isDirectory (fs : FileSystem) (name : Text) : Bool :=
  match fs.look name with
  | .ok .directory => true
  | _ => false

/-- The file that is to be written under a name, made anew if nothing is there. A name with a slash
at the end is that of a directory, whatever is there, if the steps before its last lead to one. -/
def prepareWrite (fs : FileSystem) (name : Text) : Except PathFault (Path × FileSystem) :=
  if hasSlashAtEnd name then
    match fs.follow name (steps name).dropLast with
    | .error e => .error e
    | .ok (.free _) => .error .missing
    | .ok (.found _ (.file _)) => .error .notDirectory
    | .ok (.found _ .directory) => .error .isDirectory
  else
    match fs.locate name with
    | .error e => .error e
    | .ok (.free p) => .ok (p, fs.put p (.file []))
    | .ok (.found p (.file _)) => .ok (p, fs)
    | .ok (.found _ .directory) => .error .isDirectory

def contentsOf (fs : FileSystem) (name : Text) : Except FileError Text :=
  match fs.look name with
  | .ok (.file c) => .ok c
  | .ok .directory => .error (.onPath name .isDirectory)
  | .error e => .error (.onPath name e)

/-- Replaces the contents of a file, which is made if it is not there. -/
def replaceContents (fs : FileSystem) (name contents : Text) : Except FileError FileSystem :=
  match fs.prepareWrite name with
  | .ok (p, fs) => .ok (fs.put p (.file contents))
  | .error e => .error (.onPath name e)

def makeDirectory (fs : FileSystem) (name : Text) : Except FileError FileSystem :=
  match fs.locate name with
  | .error e => .error (.onPath name e)
  | .ok (.found ..) => .error (.onPath name .alreadyThere)
  | .ok (.free p) => .ok (fs.put p .directory)

def deleteFile (fs : FileSystem) (name : Text) : Except FileError FileSystem :=
  match fs.locate name with
  | .error e => .error (.onPath name e)
  | .ok (.free _) => .error (.onPath name .missing)
  | .ok (.found _ .directory) => .error (.onPath name .isDirectory)
  | .ok (.found p (.file _)) =>
    if hasSlashAtEnd name then .error (.onPath name .notDirectory) else .ok (fs.remove p)

/-- A name that begins with `stem` and is not in use, of the numbers from `100000 + n` on. -/
def freeName (fs : FileSystem) (stem : Text) : Nat → Nat → Text
  | 0, n => stem ++ Text.ofNat (100000 + n)
  | fuel + 1, n =>
    let name := stem ++ Text.ofNat (100000 + n)
    if fs.fileExists name then freeName fs stem fuel (n + 1) else name

/-- Makes a new directory in the given one, which is `/tmp` if no name is given. Its name ends
with six characters of the library's choice. -/
def makeTempDirectory (fs : FileSystem) (parent : Text) : Except FileError (Text × FileSystem) :=
  let parent := if parent.beforeNul = [] then ascii "/tmp" else parent.beforeNul
  let stem := parent ++ ascii "/spanlab."
  let name := fs.freeName stem fs.nodes.length 0
  match fs.makeDirectory name with
  | .ok fs => .ok (name, fs)
  | .error (.onPath _ e) => .error (.onPath (stem ++ ascii "XXXXXX") e)
  | .error e => .error e

end FileSystem

end SpanRules
