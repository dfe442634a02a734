import ByteMachine.IntegerText
import ByteMachine.SourcePath
import ByteMachine.Text.ControlSequence
import ByteMachine.Text.Likeness
import ByteMachine.Text.Quoted

/-!
# The command line

The command takes one source path and three options, in any order. After two
dashes everything is an argument, and a single dash always is one. Mistakes in
the options are reported first, from left to right; then a request for help is
answered; then the step limit, the missing source and the surplus arguments are
looked at, in this order.
-/
namespace ByteMachine

/-- The options as they stand on the command line, and the arguments. -/
structure RawArguments where
  verbose : Bool := false
  help : Bool := false
  /-- The text of the last step limit. -/
  maxSteps : Option String := none
  /-- The arguments that are no options, last one first. -/
  positional : List String := []
  deriving DecidableEq, Repr

inductive UsageFault where
  /-- There is no such option, though there may be similar ones. -/
  | noSuchOption (name : String) (similar : List String)
  | valueRefused (option : String)
  | valueMissing (option : String)
  | notInteger (text : String)
  | belowRange (value : Int)
  | sourceMissing
  | surplus (arguments : List String)
  deriving DecidableEq, Repr

/-- What the command is asked to do. -/
structure Invocation where
  verbose : Bool
  limit : Option Int
  source : SourcePath
  deriving DecidableEq, Repr

inductive Request where
  | help
  | run (invocation : Invocation)
  deriving DecidableEq, Repr

namespace CommandLine

/-- What a word of the command line leaves behind: the options so far, and whether the next
word is the step limit. -/
structure Progress where
  raw : RawArguments
  awaitsLimit : Bool := false
  deriving DecidableEq, Repr

/-- The options with two dashes, in the order of their names. -/
def longOptions : List String := ["--help", "--max-steps", "--verbose"]

/-- An option with two dashes, given by its name and the value that is attached to it. The
value of the step limit may also be the next word. -/
def longOption (raw : RawArguments) (name : String) (value : Option String) :
    Except UsageFault Progress :=
  match name, value with
  | "--verbose", none => .ok { raw := { raw with verbose := true } }
  | "--help", none => .ok { raw := { raw with help := true } }
  | "--verbose", some _ | "--help", some _ => .error (.valueRefused name)
  | "--max-steps", some value => .ok { raw := { raw with maxSteps := some value } }
  | "--max-steps", none => .ok { raw, awaitsLimit := true }
  | _, _ => .error (.noSuchOption name (longOptions.filter (Text.alike · name)))

/-- Options of one letter each behind a single dash. -/
def shortOptions (raw : RawArguments) : List Char → Except UsageFault Progress
  | [] => .ok { raw }
  | 'v' :: letters => shortOptions { raw with verbose := true } letters
  | letter :: _ => .error (.noSuchOption (String.ofList ['-', letter]) [])

/-- Read one word. -/
def takeWord (raw : RawArguments) (word : String) : Except UsageFault Progress :=
  match word.toList with
  | '-' :: '-' :: cs =>
    let name := String.ofList ('-' :: '-' :: cs.takeWhile (· ≠ '='))
    match cs.dropWhile (· ≠ '=') with
    | [] => longOption raw name none
    | _ :: value => longOption raw name (some (String.ofList value))
  | '-' :: letter :: letters => shortOptions raw (letter :: letters)
  | _ => .ok { raw := { raw with positional := word :: raw.positional } }

/-- Read the words of a command line in order. -/
def scan (progress : Progress) : List String → Except UsageFault RawArguments
  | [] => if progress.awaitsLimit then .error (.valueMissing "--max-steps") else .ok progress.raw
  | word :: rest =>
    let raw := progress.raw
    if progress.awaitsLimit then scan { raw := { raw with maxSteps := some word } } rest
    else if word = "--" then .ok { raw with positional := rest.reverse ++ raw.positional }
    else
      match takeWord raw word with
      | .ok progress => scan progress rest
      | .error fault => .error fault

/-- The step limit: an integer of at least one. -/
def limit (text : Option String) : Except UsageFault (Option Int) :=
  match text with
  | none => .ok none
  | some text =>
    match IntegerText.parse? text with
    | none => .error (.notInteger text)
    | some value => if value < 1 then .error (.belowRange value) else .ok (some value)

/-- What a command line asks for. -/
def parse (words : List String) : Except UsageFault Request := do
  let raw ← scan { raw := {} } words
  if raw.help then return .help
  else
    let limit ← limit raw.maxSteps
    match raw.positional.reverse with
    | [] => throw .sourceMissing
    | [source] => return .run ⟨raw.verbose, limit, .parse source⟩
    | _ :: surplus => throw (.surplus surplus)

end CommandLine

namespace UsageFault

/-- What is proposed in place of a mistyped option. -/
def proposal : List String → String
  | [] => ""
  | [option] => s!" Did you mean {Text.quoted option}?"
  | options =>
    let listed := ", ".intercalate (options.map Text.quoted)
    s!" (Did you mean one of: {listed}?)"

def message : UsageFault → String
  | .noSuchOption name similar => s!"No such option {Text.quoted name}.{proposal similar}"
  | .valueRefused option => s!"Option {Text.quoted option} does not take a value."
  | .valueMissing option => s!"Option {Text.quoted option} requires an argument."
  | .notInteger text =>
    s!"Invalid value for '--max-steps': {Text.quoted text} is not a valid integer range."
  | .belowRange value => s!"Invalid value for '--max-steps': {value} is not in the range x>=1."
  | .sourceMissing => "Missing argument 'SOURCE'."
  | .surplus arguments =>
    let plural := if arguments.length = 1 then "" else "s"
    let listed := " ".intercalate arguments
    s!"Got unexpected extra argument{plural} ({listed})"

/-- Whether the usage is shown above the message. Not if an option and its value do not fit. -/
def showsUsage : UsageFault → Bool
  | .valueRefused _ | .valueMissing _ => false
  | _ => true

end UsageFault

def usage : String := "Usage: run [OPTIONS] SOURCE\n"

/-- The answer to a mistake on the command line. An argument that is repeated in it may hold
control sequences, which are left out. -/
def UsageFault.report (fault : UsageFault) : String :=
  let opening := if fault.showsUsage then usage ++ "Try 'run --help' for help.\n\n" else ""
  opening ++ Text.plainText s!"Error: {fault.message}\n"

/-- The answer to a request for help. -/
def helpText : String :=
  usage ++
    "\nOptions:\n" ++
    "  -v, --verbose              Sets logging level to debug\n" ++
    "  --max-steps INTEGER RANGE  Abort after this many instructions  [x>=1]\n" ++
    "  --help                     Show this message and exit.\n"

end ByteMachine
