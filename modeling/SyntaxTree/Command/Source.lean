import SyntaxTree.Failure

set_option autoImplicit false

namespace SyntaxTree

inductive Source where
  | standardInput
  | file (path : String)
  deriving DecidableEq, Repr

/-- The source that an optional path names. A path whose only name is a dash, whatever slashes and
dots follow it, stands for the standard input. -/
def Source.ofPath : Option String → Source
  | none => .standardInput
  | some path =>
    match path.splitOn "/" with
    | "-" :: parts =>
      if parts.all fun part => part = "" || part = "." then .standardInput else .file path
    | _ => .file path

inductive SourceFault where
  | missing
  | system (reason : String) (number : Nat)
  | notUtf8
  deriving DecidableEq, Repr

def SourceFault.failure (source : Source) : SourceFault → Failure
  | .missing =>
    match source with
    | .file path => .fileNotFound path
    | .standardInput => .io "No such file or directory (os error 2)"
  | .system reason number => .io (reason ++ " (os error " ++ toString number ++ ")")
  | .notUtf8 => .io "stream did not contain valid UTF-8"

def decodeText (bytes : ByteArray) : Except SourceFault String :=
  match String.fromUTF8? bytes with
  | some text => .ok text
  | none => .error .notUtf8

/-- The files of a directory that holds no other directory, by name. The directories above it are
there, but nothing is known of what else they hold. -/
abbrev Directory := List (String × String)

namespace Directory

def isDirectory : SourceFault := .system "Is a directory" 21

def notDirectory : SourceFault := .system "Not a directory" 20

def nameTooLong : SourceFault := .system "File name too long" 36

def longestName : Nat := 255

def longestPath : Nat := 4095

inductive Place where
  | inside
  /-- A directory above it. -/
  | above
  | file (text : String)
  deriving DecidableEq, Repr

/-- Follows one part of a path. An empty part and a dot stay where they are; no part leads on from a
file. -/
def step (directory : Directory) (place : Place) (part : String) : Except SourceFault Place :=
  match place with
  | .file _ => .error notDirectory
  | place =>
    if part = "" || part = "." then .ok place
    else if part = ".." then .ok .above
    else if part.utf8ByteSize > longestName then .error nameTooLong
    else
      match place, directory.lookup part with
      | .inside, some text => .ok (.file text)
      | _, _ => .error .missing

def read (directory : Directory) (path : String) : Except SourceFault String :=
  if path.utf8ByteSize > longestPath then .error nameTooLong
  else do
    let start : Place := if path.startsWith "/" then .above else .inside
    match ← (path.splitOn "/").foldlM directory.step start with
    | .file text => .ok text
    | _ => .error isDirectory

end Directory

end SyntaxTree
