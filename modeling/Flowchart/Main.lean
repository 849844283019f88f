import Flowchart.Command.Run

namespace Flowchart.Command

/-- The number of an error of the machine, which may come with its sign turned. -/
def errorNumber (code : UInt32) : Nat := min code.toNat (0 - code).toNat

def causeOfNumber (number : Nat) (text : String) : FileError :=
  match number with
  | 2 => .missing
  | 20 => .notDirectory
  | 21 => .isDirectory
  | 36 => .nameTooLong
  | n => .other (text ++ " (os error " ++ Nat.repr n ++ ")")

def causeOf : IO.Error → FileError
  | .noFileOrDirectory .. => .missing
  | .inappropriateType _ code text => causeOfNumber (errorNumber code) text
  | .invalidArgument _ code text => causeOfNumber (errorNumber code) text
  | .permissionDenied _ code text => causeOfNumber (errorNumber code) text
  | e => .other (toString e)

instance : Host IO where
  read p := do
    try
      return .ok (← IO.FS.readBinFile p.text)
    catch e => return .error (causeOf e)
  input := do (← IO.getStdin).readBinToEnd
  isDirectory p := do
    try
      let _ ← (← IO.FS.Handle.mk p.text .read).read 1
      return false
    catch e => return causeOf e == .isDirectory
  write p text := do
    try
      IO.FS.writeFile p.text text
      return .ok ()
    catch e => return .error (causeOf e)
  print text := do
    let output ← IO.getStdout
    output.putStr text
    output.flush

end Flowchart.Command

open Flowchart.Command in
def main (words : List String) : IO UInt32 := do
  let outcome : Outcome ← perform words
  match outcome with
  | .done => pure ()
  | .failed cause => IO.eprintln ("error: " ++ cause.message)
  | .badArguments => IO.eprint usageText
  return outcome.status.toUInt32
