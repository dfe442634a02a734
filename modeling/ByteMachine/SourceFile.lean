import ByteMachine.Record
import ByteMachine.SourcePath
import ByteMachine.Text.Lines
import ByteMachine.Text.Utf8

/-!
# Source files

A source file is UTF-8 text, and its lines are the lines of the program. What the
file system has at a path is given as `Content`.
-/
namespace ByteMachine

/-- Why there are no lines. -/
inductive LoadFault where
  | notFound (path : SourcePath)
  | refused (path : SourcePath) (refusal : Refusal)
  | undecodable (fault : Text.Utf8.Fault)
  deriving DecidableEq, Repr

def LoadFault.message : LoadFault → String
  | .notFound path => s!"File {path.text} does not exist"
  | .refused path refusal =>
    s!"[Errno {refusal.code}] {refusal.reason}: {Text.quoted path.text}"
  | .undecodable fault => fault.message

namespace SourceFile

/-- The lines of a file that holds the bytes. -/
def decodeLines (bytes : ByteArray) : Except LoadFault (List String) :=
  match Text.Utf8.decode bytes with
  | .ok text => .ok (Text.lines text)
  | .error fault => .error (.undecodable fault)

/-- The lines of the file at a path. -/
def load (path : SourcePath) : Content → Except LoadFault (List String)
  | .file bytes => decodeLines bytes
  | .absent => .error (.notFound path)
  | .refused _ refusal => .error (.refused path refusal)

/-- Loading is logged as soon as the file has been found. -/
def records (path : SourcePath) : Content → Array Record
  | .file _ | .refused true _ => #[.loading path.text]
  | .absent | .refused false _ => #[]

end SourceFile

end ByteMachine
