import ByteMachine.SourcePath

/-!
# Directories

A working directory as a finite collection of files and directories, named by
the way that leads to them. One can climb out of it, but nothing else lies there.
The file system has a limit for the length of a name, checked when the name is
looked up in its directory, and one for the length of a path, checked before
anything else. Lengths count the bytes of the encoded text.
-/
namespace ByteMachine

structure Directory where
  files : List (List String × ByteArray)
  folders : List (List String)

namespace Directory

/-- There is a directory at the end of the way: the working directory itself, one that was
made, or one on the way to something else. -/
def hasFolder (d : Directory) (way : List String) : Bool :=
  way.isEmpty || d.folders.any way.isPrefixOf ||
    d.files.any fun file => way.isPrefixOf file.1 && way ≠ file.1

/-- The contents of the file at the end of a way. Of two files with one name the later one
counts. -/
def file? (d : Directory) (way : List String) : Option ByteArray :=
  (d.files.reverse.find? (·.1 = way)).map Prod.snd

/-- The longest name, in bytes. -/
def nameLimit : Nat := 255

/-- The longest path, in bytes. -/
def pathLimit : Nat := 4095

/-- Follow names from a directory on, where `none` is one above the working directory. Only the
last name may be that of a file. -/
def follow (d : Directory) (location : Option (List String)) : List String → Content
  | [] => .absent
  | ".." :: rest =>
    d.follow (location.bind fun way => if way.isEmpty then none else some way.dropLast) rest
  | name :: rest =>
    if nameLimit < name.utf8ByteSize then .refused false .nameTooLong
    else
      match location with
      | none => .absent
      | some way =>
        let next := way ++ [name]
        if rest.isEmpty then
          match d.file? next with
          | some bytes => .file bytes
          | none => .absent
        else if d.hasFolder next then d.follow (some next) rest
        else .absent

/-- What is at a path. A path that holds the null character names nothing at all. -/
def lookup (d : Directory) (path : SourcePath) : Content :=
  let text := path.text
  if text.toList.contains '\x00' then .absent
  else if pathLimit < text.utf8ByteSize then .refused false .nameTooLong
  else d.follow (if path.root = "" then some [] else none) path.names

end Directory

end ByteMachine
