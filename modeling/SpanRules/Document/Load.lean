import SpanRules.Document.Basic
import SpanRules.Files.Glob.Expansion
import SpanRules.Log

/-! Documents from files. -/
namespace SpanRules.Corpus

def baseName (name : Text) : Text := (name.reverse.takeWhile (· != byte '/')).reverse

/-- Documents after a file or directory was loaded, with what was logged and whether it failed. -/
structure Loaded where
  documents : Corpus
  log : List LogLine
  result : Except FileError Unit
  deriving Inhabited

def loadFile (c : Corpus) (fs : FileSystem) (name : Text) : Loaded :=
  match fs.contentsOf name with
  | .error e => ⟨c, [], .error e⟩
  | .ok text => ⟨c ++ [.ofText (baseName name) text], [], .ok ()⟩

/-- Adds the files of a list one after another. Directories are left out, files that cannot be
read are logged. -/
def loadFiles (fs : FileSystem) : Corpus → List Text → Loaded
  | c, [] => ⟨c, [], .ok ()⟩
  | c, name :: names =>
    match fs.stat name with
    | .error e => ⟨c, [], .error e⟩
    | .ok .directory => loadFiles fs c names
    | .ok (.file _) =>
      let one := loadFile c fs name
      let rest := loadFiles fs one.documents names
      match one.result with
      | .ok () => rest
      | .error e =>
        let line := ascii "Cannot load document " ++ name ++ ascii ": " ++ e.status.toText
        { rest with log := ⟨.warning, line⟩ :: rest.log }

/-- Adds a file, or the files of a directory by name. Hidden files are left out. -/
def load (c : Corpus) (fs : FileSystem) (path : Text) : Loaded :=
  match fs.stat path with
  | .error e => ⟨c, [], .error e⟩
  | .ok (.file _) => loadFile c fs path
  | .ok .directory => loadFiles fs c (fs.glob (path ++ ascii "/*"))

end SpanRules.Corpus
