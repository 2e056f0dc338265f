/-
# `Chip8.Main` — the command

Reads the file that the command line names, runs `Program.runFile` on its
bytes and prints the report.  Chance, where it is wanted, is eight bytes from
the operating system.
-/
import Chip8.Program

namespace Chip8

/-- The number of an error, which may come with its sign turned. -/
def errorNumber (code : UInt32) : UInt32 :=
  if code < 0x80000000 then code else 0 - code

/-- The reason behind an error of the operating system. -/
def ReadFailure.ofError (e : IO.Error) : ReadFailure :=
  match e with
  | .noFileOrDirectory .. => .notFound
  | .permissionDenied .. => .permissionDenied
  | .inappropriateType _ code _ =>
      if errorNumber code = 21 then .isADirectory else .notADirectory
  | .invalidArgument _ code _ =>
      if errorNumber code = 36 then .nameTooLong else .other (toString e)
  | e => .other (toString e)

/-- The bytes of a file, or why there are none. -/
def readRom (path : String) : IO (Except ReadFailure (List UInt8)) := do
  try
    return .ok (← IO.FS.readBinFile path).toList
  catch e =>
    return .error (.ofError e)

/-- A number that nobody can foresee. -/
def chance : IO UInt64 := do
  let bytes ← IO.getRandomBytes 8
  return bytes.toList.foldl (fun n b => n * 256 + b.toUInt64) 0

/-- Prints a report and answers with its exit code. -/
def Report.print (r : Report) : IO UInt32 := do
  for line in r.stdout do
    IO.println line
  for line in r.stderr do
    IO.eprintln line
  return .ofNat r.exit

end Chip8

open Chip8 in
/-- The command: arguments in, report out. -/
def main (args : List String) : IO UInt32 := do
  let report ← match CommandLine.parse args with
    | .error refusal => pure ((Failure.refused refusal).report [])
    | .ok i => do
        let file ← readRom i.rom
        pure (Program.runFile i (← chance) file)
  report.print
