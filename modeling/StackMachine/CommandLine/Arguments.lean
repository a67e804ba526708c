import StackMachine.Assembly.Assembler
import StackMachine.Machine.Basic
import StackMachine.Machine.Event

set_option autoImplicit false

namespace StackMachine

inductive OptionArity where
  -- Given or not, at most once.
  | flag
  -- With a value, at most once.
  | value
  -- Given any number of times.
  | count
  deriving DecidableEq

structure OptionSpec where
  name : String
  hasLongForm : Bool
  letter : Option Char
  arity : OptionArity
  deriving DecidableEq

inductive Argument where
  | positional (text : String)
  | option (spec : OptionSpec) (value : String)
  deriving DecidableEq

namespace Argument

def beginsOption : List Char → Bool
  | '-' :: _ :: _ => true
  | _ => false

def withValue (spec : OptionSpec) (attached : Option (List Char)) (next : List (List Char)) :
    Option (Argument × List (List Char)) :=
  match attached, next with
  | some value, _ => some (.option spec (String.ofList value), next)
  | none, word :: rest =>
    if beginsOption word then none else some (.option spec (String.ofList word), rest)
  | none, [] => none

def ofLong (specs : List OptionSpec) (body : List Char) (next : List (List Char)) :
    Option (Argument × List (List Char)) :=
  let name := String.ofList (body.takeWhile (· != '='))
  let attached := match body.dropWhile (· != '=') with
    | [] => none
    | _ :: value => some value
  match specs.find? fun spec => spec.hasLongForm && spec.name == name with
  | none => none
  | some spec =>
    if spec.arity = .value then withValue spec attached next
    else if attached.isSome then none
    else some (.option spec "", next)

/-- Letters behind one dash. The first that takes a value has the rest for it, if there is any. -/
def ofLetters (specs : List OptionSpec) (next : List (List Char)) :
    List Char → Option (List Argument × List (List Char))
  | [] => some ([], next)
  | letter :: rest =>
    match specs.find? fun spec => spec.letter == some letter with
    | none => none
    | some spec =>
      if spec.arity = .value then
        let attached := match rest with
          | [] => none
          | '=' :: value => some value
          | value => some value
        (withValue spec attached next).map fun (argument, left) => ([argument], left)
      else
        (ofLetters specs next rest).map fun (arguments, left) =>
          (.option spec "" :: arguments, left)

/-- Reads words, at most as many as the first number; two dashes end the options. -/
def readWords (specs : List OptionSpec) : Nat → List (List Char) → Option (List Argument)
  | _, [] => some []
  | 0, _ :: _ => none
  | left + 1, word :: rest =>
    match word with
    | ['-', '-'] => some (rest.map fun text => .positional (String.ofList text))
    | '-' :: '-' :: body =>
      (ofLong specs body rest).bind fun (argument, next) =>
        (readWords specs left next).map (argument :: ·)
    | '-' :: first :: letters =>
      (ofLetters specs rest (first :: letters)).bind fun (arguments, next) =>
        (readWords specs left next).map (arguments ++ ·)
    | _ => (readWords specs left rest).map (.positional (String.ofList word) :: ·)

def read (specs : List OptionSpec) (words : List String) : Option (List Argument) :=
  readWords specs words.length (words.map String.toList)

def positionals (arguments : List Argument) : List String := arguments.filterMap fun
  | .positional text => some text
  | .option _ _ => none

def valuesOf (name : String) (arguments : List Argument) : List String := arguments.filterMap fun
  | .option spec value => if spec.name == name then some value else none
  | .positional _ => none

def noneTwice (specs : List OptionSpec) (arguments : List Argument) : Bool := specs.all fun spec =>
  spec.arity == .count || decide ((valuesOf spec.name arguments).length ≤ 1)

def valueOr {α : Type} (arguments : List Argument) (name : String) (default : α)
    (read? : String → Option α) : Option α :=
  match valuesOf name arguments with
  | [] => some default
  | value :: _ => read? value

end Argument

def count? (text : String) : Option Nat :=
  let digits := match text.toList with
    | '+' :: rest => rest
    | chars => chars
  if digits.isEmpty || !digits.all Char.isDigit then none
  else
    let value := Nat.ofDigitChars 10 digits 0
    if value < UInt64.size then some value else none

structure RuntimeOptions where
  memory : Nat
  limits : Limits
  deriving DecidableEq

inductive Command where
  | asm (source output : String) (version : Version) (pipeline : Pipeline) (color : Bool)
  | check (source : String) (version : Version) (pipeline : Pipeline) (color : Bool)
  | dump (file : String) (color : Bool)
  | exec (file : String) (options : RuntimeOptions)
  | run (source : String) (version : Version) (color : Bool) (options : RuntimeOptions)
  | trace (file : String) (verbosity : Verbosity) (color : Bool) (options : RuntimeOptions)
  deriving DecidableEq

namespace Command

def outputOption : OptionSpec := ⟨"output", true, some 'o', .value⟩
def versionOption : OptionSpec := ⟨"format-version", true, none, .value⟩
def singlePassOption : OptionSpec := ⟨"single-pass", true, none, .flag⟩
def colorOption : OptionSpec := ⟨"color", true, none, .value⟩
def verboseOption : OptionSpec := ⟨"verbose", false, some 'v', .count⟩

def runtimeOptions : List OptionSpec :=
  [⟨"memory", true, none, .value⟩, ⟨"fuel", true, none, .value⟩,
    ⟨"recursion-limit", true, none, .value⟩]

def optionsOf? : String → Option (List OptionSpec)
  | "asm" => some [outputOption, versionOption, singlePassOption, colorOption]
  | "check" => some [versionOption, singlePassOption, colorOption]
  | "dump" => some [colorOption]
  | "exec" => some runtimeOptions
  | "run" => some (versionOption :: colorOption :: runtimeOptions)
  | "trace" => some (verboseOption :: colorOption :: runtimeOptions)
  | _ => none

def version? : String → Option Version
  | "1" => some .one
  | "2" => some .two
  | _ => none

/-- Output goes to files and pipes, so that `auto` is no color. -/
def color? : String → Option Bool
  | "auto" | "never" => some false
  | "always" => some true
  | _ => none

def path? (text : String) : Option String := if text.isEmpty then none else some text

def onePath? : List String → Option String
  | [text] => path? text
  | _ => none

def verbosity (count : Nat) : Verbosity :=
  match count with
  | 0 => .default
  | 1 => .verbose
  | _ => .veryVerbose

def runtime? (arguments : List Argument) : Option RuntimeOptions := do
  let memory ← Argument.valueOr arguments "memory" Memory.defaultSize count?
  let fuel ← Argument.valueOr arguments "fuel" none fun text => (count? text).map some
  let recursion ← Argument.valueOr arguments "recursion-limit" Limits.default.recursion count?
  return ⟨memory, ⟨fuel, recursion⟩⟩

def ofArguments (subcommand : String) (arguments : List Argument) : Option Command := do
  let file ← onePath? (Argument.positionals arguments)
  let version ← Argument.valueOr arguments "format-version" .two version?
  let color ← Argument.valueOr arguments "color" false color?
  let options ← runtime? arguments
  let pipeline :=
    if (Argument.valuesOf "single-pass" arguments).isEmpty then .twoPass else .singlePass
  match subcommand with
  | "asm" =>
    let output ← onePath? (Argument.valuesOf "output" arguments)
    return .asm file output version pipeline color
  | "check" => return .check file version pipeline color
  | "dump" => return .dump file color
  | "exec" => return .exec file options
  | "run" => return .run file version color options
  | "trace" =>
    return .trace file (verbosity (Argument.valuesOf "verbose" arguments).length) color options
  | _ => none

def ofWords? : List String → Option Command
  | [] => none
  | subcommand :: words => do
    let specs ← optionsOf? subcommand
    let arguments ← Argument.read specs words
    if Argument.noneTwice specs arguments then ofArguments subcommand arguments else none

end Command

end StackMachine
