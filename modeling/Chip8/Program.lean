/-
# `Chip8.Program` — from a command line to a report

Without a window the program runs a machine for the frames asked for, prints
the screen it saw last, and then tells what went wrong, if something did.

    exit   stdout       stderr
    0      the screen   nothing
    0      help         nothing
    1      the screen   a fault of the program that ran
    1      nothing      a program that cannot be read, or is too large
    2      nothing      a command line that makes no sense

The exit code of a failure depends on the failure alone.
-/
import Chip8.CommandLine.Parser
import Chip8.Directory
import Chip8.FrameLoop
import Chip8.Host.Terminal

namespace Chip8

/-- What can go wrong from the command line on. -/
inductive Failure where
  | refused (refusal : CommandLine.Refusal)
  | unreadable (path : String) (reason : ReadFailure)
  | rejected (cause : Cause)
  | halted (fault : Fault)
  | overflow
  | noWindow
  deriving DecidableEq, Repr

/-- What the process leaves behind: its exit code, and the texts it printed,
each of which was ended by a line feed. -/
structure Report where
  exit : Nat
  stdout : List String
  stderr : List String
  deriving DecidableEq, Repr

/-! ## Texts -/

/-- How to call the program. -/
def usage : List String := [
  "Usage: chip8 [OPTIONS] <ROM>",
  "",
  "Arguments:",
  "  <ROM>  Path to the ROM file to run",
  "",
  "Options:",
  "      --ips <IPS>               Instructions per second [default: 700]",
  "      --cosmac-vip              Start from the original COSMAC VIP quirks instead of the modern ones",
  "      --legacy-shift            8XY6/8XYE shift VY into VX",
  "      --legacy-jump-with-vx     BNNN jumps to XNN + VX",
  "      --no-index-overflow-flag  FX1E leaves VF alone when I passes 0xFFF",
  "      --legacy-store-load       FX55/FX65 advance I past the registers transferred",
  "      --seed <SEED>             Seed for the random number instruction",
  "      --headless                Run without a window and print the final screen",
  "      --frames <FRAMES>         Frames to run in headless mode [default: 600]",
  "  -h, --help                    Print help",
  "  -V, --version                 Print version"]

def CommandLine.Refusal.message : CommandLine.Refusal → String
  | .helpWanted => "CHIP-8 interpreter"
  | .versionWanted => "chip8-engine 0.1.0"
  | .unknownArgument arg => s!"unexpected argument '{arg}'"
  | .givenTwice option => s!"'{option}' cannot be used twice"
  | .valueMissing option => s!"'{option}' needs a value"
  | .valueUnwanted option => s!"'{option}' takes no value"
  | .valueInvalid option value => s!"invalid value '{value}' for '{option}'"
  | .romEmpty => "the name of the ROM is empty"
  | .romMissing => "the ROM is missing"

def Failure.message : Failure → String
  | .refused refusal => refusal.message
  | .unreadable path _ => s!"couldn't read ROM {path}"
  | .rejected cause => cause.message
  | .halted fault => fault.message
  | .overflow => "an address sum left its width"
  | .noWindow => "there is no window here, run with --headless"

/-- What lies behind a failure, if its text does not tell everything. -/
def Failure.source? : Failure → Option String
  | .unreadable _ reason => some reason.message
  | .halted fault => some fault.cause.message
  | _ => none

/-! ## Reports -/

/-- The lines that tell a failure and what lies behind it. -/
def Failure.lines (f : Failure) : List String :=
  ("Error: " ++ f.message) ::
    match f.source? with
    | some source => ["", "Caused by:", "    " ++ source]
    | none => []

def Failure.report (stdout : List String) : Failure → Report
  | .refused .helpWanted =>
      ⟨0, CommandLine.Refusal.message .helpWanted :: "" :: usage, []⟩
  | .refused .versionWanted => ⟨0, [CommandLine.Refusal.message .versionWanted], []⟩
  | .refused refusal => ⟨2, [], ("error: " ++ refusal.message) :: "" :: usage⟩
  | f => ⟨1, stdout, f.lines⟩

/-! ## Running -/

/-- What a stop means for the process. -/
def Failure.ofStop {ε : Type} (f : ε → Failure) : Stop ε → Failure
  | .raised e => f e
  | .overflow => .overflow

namespace Program

/-- Runs a loaded machine in a terminal and prints the screen seen last. -/
def runHeadless (frames : Nat) (m : Machine ChaCha) : Report :=
  let o := Console.run .throttled ⟨m, Terminal.ofFrames frames m.screen⟩
  let stdout := o.state.host.lines
  match o.result with
  | .ok _ => ⟨0, stdout, []⟩
  | .error e => (Failure.ofStop .halted e).report stdout

/-- Runs the bytes of a program as the command line asks. -/
def runBytes (i : Invocation) (chance : UInt64) (rom : List UInt8) : Report :=
  let o := (Machine.seeded i.settings chance).load rom
  match o.result with
  | .error e => (Failure.ofStop .rejected e).report []
  | .ok () =>
      if i.has .headless then runHeadless i.frames o.state
      else Failure.noWindow.report []

/-- Runs what was found under the name of the program. -/
def runFile (i : Invocation) (chance : UInt64)
    (file : Except ReadFailure (List UInt8)) : Report :=
  match file with
  | .error reason => (Failure.unreadable i.rom reason).report []
  | .ok rom => runBytes i chance rom

/-- The whole process: `read` looks up files, and `chance` is the seed to use
if none is given. -/
def run (read : String → Except ReadFailure (List UInt8)) (chance : UInt64)
    (args : List String) : Report :=
  match CommandLine.parse args with
  | .error refusal => (Failure.refused refusal).report []
  | .ok i => runFile i chance (read i.rom)

end Program

end Chip8
