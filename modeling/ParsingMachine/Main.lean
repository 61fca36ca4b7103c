import ParsingMachine.CommandLine

namespace ParsingMachine
namespace CommandLine

/-!
# The program

Reads the grammar file, prints what the run decides to print, and then asks
for subjects line by line if the run is to go on.
-/

/-- The words of the system with its number for them, which some calls give
with its sign turned. -/
def systemReason (words : String) (code : UInt32) : String :=
  let number := if code < 0x80000000 then code else 0 - code
  words.capitalize ++ " (os error " ++ toString number ++ ")"

/-- Why a file has no text, in the words of the system where they are known. -/
def fileReason : IO.Error -> String
  | .noFileOrDirectory _ code words | .permissionDenied _ code words
  | .inappropriateType _ code words | .invalidArgument _ code words => systemReason words code
  | error => toString error

/-- The text of a file, or the reason why there is none. -/
def fileText (name : String) : IO (Except String String) := do
  try
    match String.fromUTF8? (← IO.FS.readBinFile name) with
    | some text => return .ok text
    | none => return .error "stream did not contain valid UTF-8"
  catch error =>
    return .error (fileReason error)

/-- Answer lines until one ends the session or there are no more. -/
partial def converse (session : Session) (input output : IO.FS.Stream) : IO Unit := do
  output.putStr "peg> "
  output.flush
  let line ← input.getLine
  if line.isEmpty then return
  let typed := line.toList.takeWhile fun character => character ≠ '\n'
  match session.answer? (String.ofList typed) with
  | none => return
  | some answer =>
      output.putStr answer
      converse session input output

end CommandLine
end ParsingMachine

open ParsingMachine in
/-- Run the command line on the arguments of the program. -/
def main (arguments : List String) : IO UInt32 := do
  let source ← match CommandLine.grammarFile? arguments with
    | some name => CommandLine.fileText name
    | none => pure (.error "")
  let result := CommandLine.run (fun _ => source) arguments
  let output ← IO.getStdout
  output.putStr result.output
  match result.errorText with
  | some text => (← IO.getStderr).putStr text
  | none => pure ()
  match result.session with
  | some session => CommandLine.converse session (← IO.getStdin) output
  | none => pure ()
  return UInt32.ofNat (result.status?.getD 101)
