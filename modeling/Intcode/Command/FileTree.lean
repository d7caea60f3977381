import Intcode.Command.FilePath
import Intcode.Session.Notice
import Intcode.Text.Fragment

/-!
# Files

What an invocation needs of a disk is the text of the file at a path, or the reason why it cannot be
read. A file tree holds files below one directory as data, so that a command line can be evaluated
without a disk. Looking a path up in it fails for the reasons for which reading a file fails.
-/

namespace Intcode.Command

/-- The files that can be read, whatever they are kept in. -/
structure Files where
  /-- The text of the file at a path. -/
  readText : String → Except FileError String

/-- The files below a directory, each with the names that lead to it. -/
structure FileTree where
  files : List (List (List Char) × List UInt8)

namespace FileTree

/-- The tree of files given by their paths. -/
def ofList (files : List (String × List UInt8)) : FileTree :=
  ⟨files.map fun (path, bytes) ↦ ((FilePath.names path).filter (· ≠ []), bytes)⟩

/-- The file at a place in the tree. -/
def file? (t : FileTree) (place : List (List Char)) : Option (List UInt8) := t.files.lookup place

/-- Whether a place in the tree is a directory. -/
def hasDirectory (t : FileTree) (place : List (List Char)) : Bool :=
  place.isEmpty || t.files.any fun (names, _) ↦ place.isPrefixOf names && place ≠ names

/-- The longest name that a file may have, in bytes. -/
def maxNameLength : Nat := 255

/-- The longest path that may be looked up, in bytes. -/
def maxPathLength : Nat := 4095

/-- What comes of following names outside of the tree. Nothing is known there but that names that
only repeat a directory or go up lead to a directory. -/
def outside (names : List (List Char)) : FileError :=
  if names.all fun n ↦ n = [] || n = ['.'] || n = ['.', '.'] then .isDirectory else .notFound

/-- Follows names from a directory of the tree. -/
def walk (t : FileTree) (directory : List (List Char)) :
    List (List Char) → Except FileError (List UInt8)
  | [] => .error .isDirectory
  | name :: names =>
    if name = [] ∨ name = ['.'] then t.walk directory names
    else if name = ['.', '.'] then
      if directory = [] then .error (outside names) else t.walk directory.dropLast names
    else if maxNameLength < Text.byteLength name then .error .nameTooLong
    else
      let place := directory ++ [name]
      match t.file? place with
      | some bytes => if names.isEmpty then .ok bytes else .error .notDirectory
      | none => if t.hasDirectory place then t.walk place names else .error .notFound

/-- The bytes of the file at a path. -/
def read (t : FileTree) (path : String) : Except FileError (List UInt8) :=
  if path.isEmpty then .error .notFound
  else if maxPathLength < path.utf8ByteSize then .error .nameTooLong
  else
    match FilePath.names path with
    | [] :: names => .error (outside names)
    | names => t.walk [] names

/-- The text of the file at a path. -/
def readText (t : FileTree) (path : String) : Except FileError String := do
  match Line.decode (← t.read path) with
  | some text => return text
  | none => throw .notText

end FileTree

/-- The files given by their paths. -/
def Files.ofList (files : List (String × List UInt8)) : Files := ⟨(FileTree.ofList files).readText⟩

end Intcode.Command
