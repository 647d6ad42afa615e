import SpanRules.Flag.Basic

/-! Command lines: the flags are taken out, the other arguments are left. -/
namespace SpanRules

inductive Argument where
  | plain
  /-- All arguments after it are plain. -/
  | terminator
  | flag (name : Text) (text : Option Text)
  deriving DecidableEq, Inhabited

namespace Argument

/-- A flag without its dashes; what follows the first equals sign is its text. -/
def ofFlag (t : Text) : Argument :=
  match t.dropWhile (· != byte '=') with
  | [] => .flag t none
  | _ :: text => .flag (t.takeWhile (· != byte '=')) (some text)

/-- A flag starts with one or two dashes. Two dashes alone end the flags, and a single dash is a
plain argument. -/
def ofText : Text → Argument
  | [] | [_] => .plain
  | a :: b :: t =>
    if a ≠ byte '-' then .plain
    else if b ≠ byte '-' then ofFlag (b :: t)
    else if t = [] then .terminator
    else ofFlag t

end Argument

inductive FlagFault where
  | unrecognized
  | missingValue (type : FlagType)
  | illegalValue (type : FlagType)
  deriving DecidableEq, Inhabited

structure FlagError where
  position : Nat
  argument : Text
  fault : FlagFault
  deriving DecidableEq, Inhabited

namespace FlagError

def hint : Text := ascii "Try --help for options\n"

def message (e : FlagError) : Text :=
  match e.fault with
  | .unrecognized => ascii "Error: unrecognized flag " ++ e.argument ++ ascii "\n" ++ hint
  | .missingValue type =>
    ascii "Error: missing value for flag " ++ e.argument ++ ascii " of type " ++ type.name ++
      ascii "\n"
  | .illegalValue type =>
    ascii "Error: illegal value for flag " ++ e.argument ++ ascii " of type " ++ type.name ++
      ascii "\n" ++ hint

end FlagError

structure CommandLine where
  flags : Flags
  arguments : List Text
  error : Option FlagError
  deriving DecidableEq, Inhabited

namespace Flags

/-- The flag that an argument names, and whether it is negated: `no` before the name of a truth
value makes it false. -/
def resolve? (flags : Flags) (name : Text) (text : Option Text) : Option (Flag × Bool) :=
  match flags.find? name with
  | some f => some (f, false)
  | none =>
    if (ascii "no").isPrefixOf name ∧ text = none then
      match flags.find? (name.drop 2) with
      | some f => if f.type = .bool then some (f, true) else none
      | none => none
    else none

/-- Takes the flags out of the arguments, the first of which has the given position. A value that
is no truth value may be the next argument. The first fault ends the flags, and its argument is left
without its text. -/
def takeFrom (flags : Flags) (position : Nat) : List Text → CommandLine
  | [] => ⟨flags, [], none⟩
  | arg :: args =>
    match Argument.ofText arg with
    | .plain =>
      let rest := takeFrom flags (position + 1) args
      { rest with arguments := arg :: rest.arguments }
    | .terminator => ⟨flags, args, none⟩
    | .flag name text =>
      let shown := arg.takeWhile (· != byte '=')
      let fail (left : List Text) (fault : FlagFault) : CommandLine :=
        ⟨flags, shown :: left, some ⟨position, shown, fault⟩⟩
      match flags.resolve? name text with
      | none => fail args .unrecognized
      | some (f, negated) =>
        if text = none ∧ f.type ≠ .bool then
          match args with
          | [] => fail [] (.missingValue f.type)
          | value :: args =>
            match f.type.read? (some value) with
            | none => fail (value :: args) (.illegalValue f.type)
            | some v => takeFrom (flags.setValue f.name v) (position + 2) args
        else
          match f.type.read? (if negated then some (ascii "false") else text) with
          | none => fail args (.illegalValue f.type)
          | some v => takeFrom (flags.setValue f.name v) (position + 1) args

/-- Takes the flags out of the arguments of a program, which are counted from one. -/
def take (flags : Flags) (args : List Text) : CommandLine := flags.takeFrom 1 args

end Flags

end SpanRules
