/-
# Command lines

The arguments of `schemalint`: the options for all commands, which may stand
before or behind the command, then the command with its own options and files.

A long option takes its value behind `=` or from the next argument, a short one
also from the rest of its own argument; single letters without values may be
written together. What begins with a dash is never the value of the option
before it, except a dash alone. Behind `--` everything is a file. An option may
be given once before the command and once behind it, the latter counting.

Key definitions: `Invocation`, `Invocation.parse?`.
-/
import FieldOrder.Path
import FieldOrder.Text

namespace FieldOrder

/-- How findings are written. -/
inductive OutputFormat where
  | table
  | json
  deriving DecidableEq, Repr

def OutputFormat.ofText? : String → Option OutputFormat
  | "table" => some .table
  | "json" => some .json
  | _ => none

/-- The options for all commands. -/
structure GlobalOptions where
  verbose : Bool := false
  config : Option Path := none

/-- What is to be checked, and how. -/
structure CheckOptions where
  facts : List Path
  changes : Option Path := none
  allFiles : Bool := false
  output : OutputFormat := .table
  pass : Option String := none

/-- What is to be done. -/
inductive Invocation where
  | check (global : GlobalOptions) (options : CheckOptions)
  | passes
  | version

namespace CommandLine

/-! ### Options -/

/-- An option of the program, by its long name, and whether it takes a value. -/
structure OptionSpec where
  long : String
  short : Option Char := none
  takesValue : Bool
  /-- Whether the value is a path, which may not be empty. -/
  isPath : Bool := false
  /-- Whether nothing behind the option is read. -/
  isLast : Bool := false

/-- The options for all commands. -/
def globalSpecs : List OptionSpec :=
  [{ long := "verbose", short := some 'v', takesValue := false },
    { long := "config", short := some 'c', takesValue := true, isPath := true }]

/-- The options before the command. -/
def topSpecs : List OptionSpec :=
  { long := "version", short := some 'V', takesValue := false, isLast := true } :: globalSpecs

/-- The options of the command `check`. -/
def checkSpecs : List OptionSpec :=
  [{ long := "changes", takesValue := true, isPath := true },
    { long := "all-files", takesValue := false },
    { long := "output", short := some 'o', takesValue := true },
    { long := "pass", takesValue := true }] ++ globalSpecs

/-- An option as it was given, by its long name. -/
structure Given where
  name : String
  value : Option String := none

/-- An option given with a value. -/
def OptionSpec.given? (spec : OptionSpec) (value : String) : Option Given :=
  if spec.isPath && value = "" then none else some { name := spec.long, value }

/-- The value that the next argument gives, if it can be one. -/
def nextValue? : List String → Option (String × List String)
  | [] => none
  | text :: rest =>
    match text.toList with
    | ['-'] => some (text, rest)
    | '-' :: _ => none
    | _ => some (text, rest)

/-- The name and the value of a long option, divided by the first `=`. -/
def splitLong (cs : List Char) : String × Option String :=
  let name := cs.takeWhile (· ≠ '=')
  match cs.drop name.length with
  | [] => (String.ofList name, none)
  | _ :: value => (String.ofList name, some (String.ofList value))

/-- A long option, and the arguments behind it. -/
def readLong (specs : List OptionSpec) (cs : List Char) (rest : List String) :
    Option (Given × List String) := do
  let (name, value) := splitLong cs
  let spec ← specs.find? (·.long == name)
  match spec.takesValue, value with
  | false, none => return ({ name }, rest)
  | false, some _ => none
  | true, some value => return (← spec.given? value, rest)
  | true, none => do
    let (value, rest) ← nextValue? rest
    return (← spec.given? value, rest)

/-- Short options written together, and the arguments behind them. -/
def readShort (specs : List OptionSpec) (rest : List String) :
    List Char → Option (List Given × List String)
  | [] => some ([], rest)
  | c :: cs => do
    let spec ← specs.find? (·.short == some c)
    if spec.takesValue then
      match cs with
      | [] => do
        let (value, rest) ← nextValue? rest
        return ([← spec.given? value], rest)
      | '=' :: value => return ([← spec.given? (String.ofList value)], rest)
      | value => return ([← spec.given? (String.ofList value)], rest)
    else if spec.isLast then return ([{ name := spec.long }], rest)
    else do
      let (more, rest) ← readShort specs rest cs
      return ({ name := spec.long } :: more, rest)

/-- What an argument is. -/
inductive Reading where
  /-- Options, and the arguments behind them and their values. -/
  | options (given : List Given) (rest : List String)
  /-- No option. -/
  | plain
  /-- The `--` behind which there are no options. -/
  | stop
  | malformed

/-- Read an argument; `rest` are those behind it. -/
def Reading.ofArgument (specs : List OptionSpec) (text : String) (rest : List String) : Reading :=
  match text.toList with
  | ['-', '-'] => .stop
  | '-' :: '-' :: cs =>
    match readLong specs cs rest with
    | some (given, rest) => .options [given] rest
    | none => .malformed
  | '-' :: letter :: cs =>
    match readShort specs rest (letter :: cs) with
    | some (given, rest) => .options given rest
    | none => .malformed
  | _ => .plain

/-! ### Collecting -/

/-- The options given so far, and the other arguments. -/
structure Collected where
  options : List Given := []
  positionals : List String := []

namespace Collected

/-- The option of a name, if it was given. -/
def option? (c : Collected) (name : String) : Option Given := c.options.find? (·.name == name)

def has (c : Collected) (name : String) : Bool := (c.option? name).isSome

/-- The value of an option. -/
def value? (c : Collected) (name : String) : Option String := (c.option? name).bind (·.value)

/-- Take an option in; none may be given twice. -/
def give? (c : Collected) (given : Given) : Option Collected :=
  if c.has given.name then none else some { c with options := given :: c.options }

/-- Take other arguments in. -/
def addPlain (c : Collected) (texts : List String) : Collected :=
  { c with positionals := c.positionals ++ texts }

end Collected

/-- Read the arguments of a command to the end, at most `n` of them. -/
def collect (specs : List OptionSpec) : Nat → Collected → List String → Option Collected
  | _, c, [] => some c
  | 0, _, _ => none
  | n + 1, c, text :: rest =>
    match Reading.ofArgument specs text rest with
    | .malformed => none
    | .stop => some (c.addPlain rest)
    | .plain => collect specs n (c.addPlain [text]) rest
    | .options given rest => do collect specs n (← given.foldlM Collected.give? c) rest

/-- What stands before the command: its options, and the command with what is
behind it, unless the version is asked for. -/
def collectTop : Nat → Collected → List String → Option (Collected × List String)
  | _, c, [] => some (c, [])
  | 0, _, _ => none
  | n + 1, c, text :: rest =>
    match Reading.ofArgument topSpecs text rest with
    | .malformed => none
    | .stop => none
    | .plain => some (c, text :: rest)
    | .options given rest => do
      let c ← given.foldlM Collected.give? c
      if c.has "version" then return (c, []) else collectTop n c rest

/-! ### Invocations -/

/-- A path given as an argument; it must not be empty. -/
def path? (text : String) : Option Path := if text = "" then none else some ⟨text⟩

/-- The path that an option has as its value. -/
def Collected.path? (c : Collected) (name : String) : Option Path := (c.value? name).map (⟨·⟩)

/-- The options for all commands, from before and from behind the command. -/
def globalOptions (before behind : Collected) : GlobalOptions :=
  { verbose := before.has "verbose" || behind.has "verbose"
    config := (behind.path? "config").or (before.path? "config") }

/-- The invocation of `check`. -/
def checkInvocation? (before behind : Collected) : Option Invocation := do
  let facts ← behind.positionals.mapM path?
  if facts.isEmpty then none
  else
    let output ← match behind.value? "output" with
      | none => some .table
      | some text => OutputFormat.ofText? text
    return .check (globalOptions before behind)
      { facts, changes := behind.path? "changes", allFiles := behind.has "all-files", output
        pass := behind.value? "pass" }

end CommandLine

open CommandLine in
/-- What a command line asks for; nothing if it is not well formed. -/
def Invocation.parse? (args : List String) : Option Invocation := do
  let (before, rest) ← collectTop args.length {} args
  if before.has "version" then return .version
  else
    match rest with
    | "check" :: rest => do
      let behind ← collect checkSpecs rest.length {} rest
      checkInvocation? before behind
    | "passes" :: rest => do
      let behind ← collect globalSpecs rest.length {} rest
      if behind.positionals.isEmpty then return .passes else none
    | _ => none

end FieldOrder
