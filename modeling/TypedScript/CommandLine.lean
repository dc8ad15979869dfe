import TypedScript.Diagnostic.Render
import TypedScript.Program.Run

namespace TypedScript.CommandLine

structure Result where
  code : Nat
  stdout : String
  stderr : String
  deriving DecidableEq

inductive Unreadable
  | missing
  | directory
  | behindFile
  | nameTooLong
  | notText
  | other (reason : String)
  deriving DecidableEq

def Unreadable.message : Unreadable → String
  | missing => "No such file or directory (os error 2)"
  | directory => "Is a directory (os error 21)"
  | behindFile => "Not a directory (os error 20)"
  | nameTooLong => "File name too long (os error 36)"
  | notText => "stream did not contain valid UTF-8"
  | other reason => reason

def components (path : String) : List String :=
  (path.splitOn "/").filter fun part => part ≠ "" ∧ part ≠ "."

/-- The name that diagnostics give a file: the last part of its path, or the whole path where
that names no file. -/
def fileName (path : String) : String :=
  match (components path).getLast? with
  | none => path
  | some last => if last = ".." then path else last

def runSource (fuel : Nat) (name source : String) : Result :=
  match Program.run fuel source (some name) with
  | .ok answer =>
    match answer.value with
    | .void => ⟨0, "", ""⟩
    | _ => ⟨0, answer.text ++ "\n", ""⟩
  | .error (.diagnosed ds) => ⟨1, "", String.join (ds.map (·.render source))⟩
  | .error (.failed e) => ⟨1, "", "Runtime error: " ++ e.message ++ "\n"⟩
  | .error .outOfFuel => ⟨1, "", "Runtime error: " ++ NoAnswer.outOfFuel.message ++ "\n"⟩

def run (fuel : Nat) (program : String) (read : String → Except Unreadable String)
    (arguments : List String) : Result :=
  match arguments with
  | [path] =>
    match read path with
    | .ok source => runSource fuel (fileName path) source
    | .error reason => ⟨2, "", "cannot read " ++ path ++ ": " ++ reason.message ++ "\n"⟩
  | _ => ⟨2, "", "usage: " ++ program ++ " <file>\n"⟩

end TypedScript.CommandLine
