import CrateScope.Command

/-!
# Command lines

    crate-scope [-v | -q]... dump GRAPH [--crate NAME] [--edition YEAR]
    crate-scope [-v | -q]... resolve GRAPH --crate NAME [--module MODULE] [--import]
                [--edition YEAR] PATH

Options stand anywhere among the operands, up to a `--`.  The value of an option follows as the next
argument or after `=`.  Switches of one letter can be run together.  An option or switch is given
once, other than `-v` and `-q`, which count.  Arguments are gone through from left to right, and the
first that is wrong, or that asks for help, decides.

## Main definitions

* `Token`, `tokens` — what the arguments say.
* `Arguments`, `Arguments.add` — what they have said so far.
* `CommandLine`, `CommandLine.parse` — the command that they make up.
-/

namespace CrateScope

/-! ### Tokens -/

/-- What an argument, or a letter of it, says. -/
inductive Token where
  | switch (name : String)
  | value (name value : String)
  | operand (text : String)
  | invalid
  deriving DecidableEq, Repr

/-- The options that a command knows. -/
structure OptionNames where
  /-- Options without a value: the long name, and the letter. -/
  switches : List (String × Char)
  /-- Options with a value. -/
  valued : List String

/-- The switches that stand before a command as well as after it. -/
def commonSwitches : List (String × Char) := [("verbose", 'v'), ("quiet", 'q'), ("help", 'h')]

/-- Whether an argument is one or more options.  A dash alone is not. -/
def isOptionLike (arg : String) : Bool :=
  match arg.toList with
  | '-' :: _ :: _ => true
  | _ => false

/-- Splits the value off that an option has after `=`. -/
def splitValue (text : List Char) : String × Option String :=
  let (name, rest) := text.span (· ≠ '=')
  (.ofList name, match rest with
    | [] => none
    | _ :: value => some (.ofList value))

/-- The switches that some letters stand for. -/
def clusterTokens (names : OptionNames) (letters : List Char) : List Token :=
  letters.map fun letter =>
    match names.switches.find? fun switch => switch.2 = letter with
    | some (name, _) => .switch name
    | none => .invalid

/-- What an argument is for the arguments after it. -/
inductive Role where
  /-- It is complete. -/
  | complete (tokens : List Token)
  /-- It is an option whose value is the next argument. -/
  | awaitsValue (name : String)
  /-- All that follows are operands. -/
  | endsOptions

/-- The role of an option with a long name. -/
def longRole (names : OptionNames) (text : List Char) : Role :=
  match splitValue text with
  | (name, some value) =>
    .complete [if names.valued.contains name then .value name value else .invalid]
  | (name, none) =>
    if names.valued.contains name then .awaitsValue name
    else .complete [if (names.switches.lookup name).isSome then .switch name else .invalid]

/-- The role of an argument. -/
def role (names : OptionNames) (arg : String) : Role :=
  match arg.toList with
  | ['-', '-'] => .endsOptions
  | '-' :: '-' :: text => longRole names text
  | '-' :: letter :: letters => .complete (clusterTokens names (letter :: letters))
  | _ => .complete [.operand arg]

/-- What some arguments say.  The value of an option does not look like an option. -/
def tokens (names : OptionNames) : List String → List Token
  | [] => []
  | arg :: rest =>
    match role names arg with
    | .complete said => said ++ tokens names rest
    | .endsOptions => rest.map .operand
    | .awaitsValue name =>
      match rest with
      | [] => [.invalid]
      | value :: rest =>
        (if isOptionLike value then .invalid else .value name value) :: tokens names rest

/-! ### Arguments -/

/-- What the arguments have said so far. -/
structure Arguments where
  verbose : Nat := 0
  quiet : Nat := 0
  importing : Bool := false
  values : Listing String String := ∅
  operands : List String := []

namespace Arguments

/-- One more token.  A command takes at most `operandLimit` operands.  The first is the name of a
file and cannot be empty. -/
def add (operandLimit : Nat) (a : Arguments) : Token → Except Stop Arguments
  | .invalid => .error .usage
  | .switch "help" => .error .help
  | .switch "verbose" => .ok { a with verbose := a.verbose + 1 }
  | .switch "quiet" => .ok { a with quiet := a.quiet + 1 }
  | .switch _ => if a.importing then .error .usage else .ok { a with importing := true }
  | .value name value =>
    if a.values.contains name ∨ name = "edition" ∧ (Edition.ofText? value).isNone then .error .usage
    else .ok { a with values := a.values.insert name value }
  | .operand text =>
    if operandLimit ≤ a.operands.length ∨ a.operands.isEmpty ∧ text = "" then .error .usage
    else .ok { a with operands := a.operands ++ [text] }

/-- All tokens of a command, or of what stands before it.  Being verbose and quiet at once makes no
sense. -/
def ofTokens (operandLimit : Nat) (ts : List Token) : Except Stop Arguments := do
  ts.foldlM (add operandLimit) {}

/-- Whether verbosity and quiet are asked for at once. -/
def isContradictory (a : Arguments) : Bool := 0 < a.verbose && 0 < a.quiet

/-- The edition that is asked for. -/
def edition (a : Arguments) : Option Edition := (a.values.get? "edition").bind Edition.ofText?

/-- The command that shows maps. -/
def dump? (a : Arguments) : Option Command :=
  match a.operands with
  | [file] => some (.dump file (a.values.get? "crate") a.edition)
  | _ => none

/-- The command that resolves a path.  It needs a crate. -/
def resolve? (a : Arguments) : Option Command :=
  match a.operands, a.values.get? "crate" with
  | [file, path], some crate =>
    some (.resolve file crate ((a.values.get? "module").getD "crate") path
      (if a.importing then .inImport else .elsewhere) a.edition)
  | _, _ => none

end Arguments

/-! ### Command lines -/

/-- A command, and how much is to be told meanwhile: the more, the larger the number. -/
structure CommandLine where
  command : Command
  verbosity : Int
  deriving DecidableEq, Repr

namespace CommandLine

/-- What a command is called, what it knows, and how its arguments make it up. -/
structure Form where
  name : String
  names : OptionNames
  operandLimit : Nat
  command? : Arguments → Option Command

/-- The form of the command that shows maps. -/
def dumpForm : Form where
  name := "dump"
  names := { switches := commonSwitches, valued := ["crate", "edition"] }
  operandLimit := 1
  command? := Arguments.dump?

/-- The form of the command that resolves a path. -/
def resolveForm : Form where
  name := "resolve"
  names :=
    { switches := commonSwitches ++ [("import", 'i')], valued := ["crate", "module", "edition"] }
  operandLimit := 2
  command? := Arguments.resolve?

/-- The forms of all commands. -/
def forms : List Form := [dumpForm, resolveForm]

/-- Reads the arguments of a command, of which `before` stand before its name. -/
def parseCommand (before : Arguments) (form : Form) (args : List String) :
    Except Stop CommandLine := do
  let a ← Arguments.ofTokens form.operandLimit (tokens form.names args)
  match form.command? a with
  | none => .error .usage
  | some command =>
    if a.isContradictory ∨ before.isContradictory then .error .usage
    else
      let verbosity := (before.verbose + a.verbose : Int) - (before.quiet + a.quiet)
      return { command, verbosity }

/-- Asking for help by a word: about everything, or about a command. -/
def parseHelp : List String → Stop
  | [] => .help
  | [topic] => if topic = "help" ∨ forms.any (·.name = topic) then .help else .usage
  | _ => .usage

/-- Reads a command line. -/
def parse (args : List String) : Except Stop CommandLine := do
  let (leading, rest) := args.span isOptionLike
  let known := tokens { switches := commonSwitches, valued := [] } (leading.takeWhile (· ≠ "--"))
  let before ← Arguments.ofTokens 0 (if leading.contains "--" then known ++ [.invalid] else known)
  match rest with
  | [] => .error .usage
  | name :: args =>
    match forms.find? (·.name = name) with
    | some form => parseCommand before form args
    | none => .error (if name = "help" then parseHelp args else .usage)

end CommandLine

end CrateScope
