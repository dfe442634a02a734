import ByteMachine.Text.Split

/-!
# Paths of source files

A path is a root, if it is absolute, and the names on the way. Empty names and
single dots say nothing and are left out; two dots are kept, since they lead
back from wherever the name before them leads to. Exactly two slashes at the
start are a root of their own.
-/
namespace ByteMachine

structure SourcePath where
  root : String
  names : List String
  deriving DecidableEq, Repr

namespace SourcePath

/-- The root that a number of slashes at the start stands for. -/
def rootOf : Nat → String
  | 0 => ""
  | 2 => "//"
  | _ => "/"

def parse (text : String) : SourcePath :=
  let cs := text.toList
  ⟨rootOf (cs.takeWhile (· = '/')).length,
    ((Text.pieces '/' cs).filter fun name => name ≠ [] ∧ name ≠ ['.']).map String.ofList⟩

/-- The path in writing. The empty path is the working directory. -/
def text (path : SourcePath) : String :=
  match path.root, path.names with
  | "", [] => "."
  | root, names => root ++ "/".intercalate names

end SourcePath

/-- The number and the wording with which a file system refuses something. -/
structure Refusal where
  code : Nat
  reason : String
  deriving DecidableEq, Repr

/-- A name on the way, or the whole path, is longer than the file system admits. -/
def Refusal.nameTooLong : Refusal := ⟨36, "File name too long"⟩

/-- The file, or something on the way to it, is not for this user. -/
def Refusal.permissionDenied : Refusal := ⟨13, "Permission denied"⟩

/-- What a file system has at a path. -/
inductive Content where
  | file (bytes : ByteArray)
  | absent
  /-- It does not say what is there, or says that there is a file but does not give it away. -/
  | refused (found : Bool) (refusal : Refusal)

end ByteMachine
