import TypedScript.CommandLine

namespace TypedScript.CommandLine

def unreadable : IO.Error → Unreadable
  | .noFileOrDirectory _ _ _ => .missing
  | .inappropriateType _ code _ => if code = 21 then .directory else .behindFile
  | .invalidArgument _ code _ =>
    if code = 36 then .nameTooLong else .other "Invalid argument (os error 22)"
  | .permissionDenied _ _ _ => .other "Permission denied (os error 13)"
  | e => .other (toString e)

def readSource (path : String) : IO (Except Unreadable String) := do
  match ← (IO.FS.readBinFile path).toBaseIO with
  | .error e => return .error (unreadable e)
  | .ok bytes =>
    match String.fromUTF8? bytes with
    | some text => return .ok text
    | none => return .error .notText

end TypedScript.CommandLine

open TypedScript in
def main (arguments : List String) : IO UInt32 := do
  let text ← match arguments with
    | [path] => CommandLine.readSource path
    | _ => pure (.error .missing)
  let program ← IO.appPath
  let result := CommandLine.run Program.ampleFuel program.toString (fun _ => text) arguments
  IO.print result.stdout
  IO.eprint result.stderr
  return result.code.toUInt32
