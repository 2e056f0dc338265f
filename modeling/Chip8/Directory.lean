/-
# `Chip8.Directory` — files by their paths

A directory holds files, each at the end of some names.  A path is followed
name by name, from the directory itself, or from outside it if the path
begins with a slash:

    at            no name, or .   ..           any other name
    a directory   stay            its parent   what is there, if something is
    outside       stay            stay         nothing is there
    a file        refused         refused      refused

Nothing is known of the outside, except that it is made of directories.  A
slash behind the name of a file is followed by no name, hence refused.
-/

namespace Chip8

/-- Why a file could not be read. -/
inductive ReadFailure where
  | notFound
  | permissionDenied
  | notADirectory
  | isADirectory
  | nameTooLong
  | other (text : String)
  deriving DecidableEq, Repr

/-- The text for each reason, with the number that operating systems give
it. -/
def ReadFailure.message : ReadFailure → String
  | .notFound => "No such file or directory (os error 2)"
  | .permissionDenied => "Permission denied (os error 13)"
  | .notADirectory => "Not a directory (os error 20)"
  | .isADirectory => "Is a directory (os error 21)"
  | .nameTooLong => "File name too long (os error 36)"
  | .other text => text

/-- The names on the way to each file, and its bytes. -/
structure Directory where
  files : List (List String × List UInt8)
  deriving DecidableEq, Repr

namespace Directory

def maxNameBytes : Nat := 255

def maxPathBytes : Nat := 4095

def names (path : String) : List String := path.splitOn "/"

/-- The directory with these files, each given by its path. -/
def ofFiles (files : List (String × List UInt8)) : Directory :=
  ⟨files.map fun (path, bytes) => (names path, bytes)⟩

/-! ## Following a path -/

/-- Where the names read so far have led. -/
inductive Place where
  | outside
  /-- The directory at the end of these names. -/
  | inside (way : List String)
  | file (bytes : List UInt8)
  deriving DecidableEq, Repr

/-- What the names `way` lead to, if anything. -/
def find? (d : Directory) (way : List String) : Option Place :=
  match d.files.lookup way with
  | some bytes => some (.file bytes)
  | none =>
      if d.files.any fun (names, _) => way.isPrefixOf names then some (.inside way)
      else none

def missing (name : String) : ReadFailure :=
  if maxNameBytes < name.utf8ByteSize then .nameTooLong else .notFound

/-- Goes on to `name`. -/
def enter (d : Directory) (name : String) : Place → Except ReadFailure Place
  | .file _ => .error .notADirectory
  | .outside =>
      if name = "" ∨ name = "." ∨ name = ".." then .ok .outside
      else .error (missing name)
  | .inside way =>
      if name = "" ∨ name = "." then .ok (.inside way)
      else if name = ".." then
        if way = [] then .ok .outside else .ok (.inside way.dropLast)
      else
        match d.find? (way ++ [name]) with
        | some place => .ok place
        | none => .error (missing name)

/-- Goes on to all the names, one after the other. -/
def follow (d : Directory) : List String → Place → Except ReadFailure Place
  | [], place => .ok place
  | name :: rest, place =>
      match d.enter name place with
      | .error e => .error e
      | .ok place => d.follow rest place

/-! ## Reading -/

/-- Where a path begins. -/
def start (path : String) : Place :=
  if path.startsWith "/" then .outside else .inside []

def read (d : Directory) (path : String) : Except ReadFailure (List UInt8) :=
  if path = "" then .error .notFound
  else if maxPathBytes < path.utf8ByteSize then .error .nameTooLong
  else
    match d.follow (names path) (start path) with
    | .error e => .error e
    | .ok (.file bytes) => .ok bytes
    | .ok _ => .error .isADirectory

end Directory

end Chip8
