/-!
# Control sequences

A terminal takes an escape character, an opening bracket, parameters,
intermediate characters and one final character as an order, not as text. Text
that is written somewhere else is freed of such sequences. An escape character
that does not start a complete sequence stays.
-/
namespace ByteMachine.Text

/-- How far a control sequence has been read. -/
inductive ControlPhase where
  | outside
  | escaped
  | parameters
  | intermediates
  deriving DecidableEq, Repr

def escapeCharacter : Char := '\x1b'

/-- What a character makes of a sequence under way. -/
inductive ControlStep where
  | on (phase : ControlPhase)
  | complete
  | broken
  deriving DecidableEq, Repr

/-- The digits and signs that give the parameters. -/
def isParameter (c : Char) : Bool := 0x30 ≤ c.toNat && c.toNat ≤ 0x3f

def isIntermediate (c : Char) : Bool := 0x20 ≤ c.toNat && c.toNat ≤ 0x2f

def isFinal (c : Char) : Bool := 0x40 ≤ c.toNat && c.toNat ≤ 0x7e

def ControlPhase.step (phase : ControlPhase) (c : Char) : ControlStep :=
  match phase with
  | .outside => .broken
  | .escaped => if c = '[' then .on .parameters else .broken
  | .parameters =>
    if isParameter c then .on .parameters
    else if isIntermediate c then .on .intermediates
    else if isFinal c then .complete
    else .broken
  | .intermediates =>
    if isIntermediate c then .on .intermediates
    else if isFinal c then .complete
    else .broken

/-- Text without its control sequences. What has been read of a sequence under way is held
back, last character first, and let go if the sequence breaks off. -/
def withoutControl (phase : ControlPhase) (held : List Char) : List Char → List Char
  | [] => held.reverse
  | c :: rest =>
    match phase.step c with
    | .on next => withoutControl next (c :: held) rest
    | .complete => withoutControl .outside [] rest
    | .broken =>
      held.reverse ++
        if c = escapeCharacter then withoutControl .escaped [c] rest
        else c :: withoutControl .outside [] rest

/-- The text without its control sequences. -/
def plainText (text : String) : String := String.ofList (withoutControl .outside [] text.toList)

end ByteMachine.Text
