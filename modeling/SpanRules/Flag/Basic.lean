import SpanRules.Text.Decimal

/-! Flags: named values that a command line may set. -/
namespace SpanRules

inductive FlagType where
  | bool
  | int32
  | string
  deriving DecidableEq, Inhabited

def FlagType.name : FlagType → Text
  | bool => ascii "bool"
  | int32 => ascii "int32"
  | string => ascii "string"

inductive FlagValue where
  | bool (on : Bool)
  | int32 (n : Int)
  | string (text : Text)
  deriving DecidableEq, Inhabited

namespace FlagValue

def type : FlagValue → FlagType
  | bool _ => .bool
  | int32 _ => .int32
  | string _ => .string

def toText : FlagValue → Text
  | bool true => ascii "true"
  | bool false => ascii "false"
  | int32 n => Text.ofInt n
  | string text => text

end FlagValue

def lowerAscii (b : UInt8) : UInt8 := if 65 ≤ b ∧ b ≤ 90 then b + 32 else b

/-- Reads a truth value, in upper or lower case. -/
def truth? (text : Text) : Option Bool :=
  let word := text.map lowerAscii
  if word ∈ ["1", "t", "true", "y", "yes"].map ascii then some true
  else if word ∈ ["0", "f", "false", "n", "no"].map ascii then some false
  else none

namespace FlagType

/-- Reads a value of a type. A truth value that is not written out is true. -/
def read? : FlagType → Option Text → Option FlagValue
  | bool, none => some (.bool true)
  | bool, some text => (truth? text).map .bool
  | int32, some text => text.wrappedInt32?.map .int32
  | string, some text => some (.string text)
  | int32, none | string, none => none

end FlagType

structure Flag where
  name : Text
  help : Text
  value : FlagValue
  deriving DecidableEq, Inhabited

namespace Flag

def type (f : Flag) : FlagType := f.value.type

def set? (f : Flag) (text : Option Text) : Option Flag :=
  (f.type.read? text).map fun v => { f with value := v }

end Flag

/-- Flags by name; the first flag of a name is the one that counts. -/
abbrev Flags := List Flag

namespace Flags

def find? (flags : Flags) (name : Text) : Option Flag := List.find? (·.name == name) flags

def setValue (name : Text) (value : FlagValue) : Flags → Flags
  | [] => []
  | f :: flags =>
    if f.name = name then { f with value } :: flags else f :: setValue name value flags

def value? (flags : Flags) (name : Text) : Option FlagValue := (flags.find? name).map (·.value)

def isOn (flags : Flags) (name : Text) : Bool := flags.value? name == some (.bool true)

/-- The integer that a flag has for a value; zero if it has none. -/
def integer (flags : Flags) (name : Text) : Int :=
  match flags.value? name with
  | some (.int32 n) => n
  | _ => 0

/-- The text that a flag has for a value; empty if it has none. -/
def text (flags : Flags) (name : Text) : Text :=
  match flags.value? name with
  | some (.string t) => t
  | _ => []

/-- The first line of the help: how the program is used, or else its name. -/
def heading (usage program : Text) : Text :=
  if usage ≠ [] then usage ++ ascii "\n"
  else if program ≠ [] then program ++ ascii " [OPTIONS]\n"
  else []

def describe (f : Flag) : Text :=
  ascii "  --" ++ f.name ++ ascii " (" ++ f.help ++ ascii ")\n        type: " ++ f.type.name ++
    ascii "  default: " ++ f.value.toText ++ ascii "\n"

def help (flags : Flags) (usage program : Text) : Text :=
  heading usage program ++ if flags = [] then [] else ascii "Options:\n" ++ flags.flatMap describe

end Flags

end SpanRules
