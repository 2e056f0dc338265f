/-
# `Chip8.Event` — the records of the log

A machine at work reports that it was loaded, what it fetches and that it
halted; the loop that drives it reports the frames that took too long and
the end of a run.  An event is data; its level and its text are functions
of it.
-/
import Chip8.Duration
import Chip8.Fault
import Chip8.Settings

namespace Chip8

/-- How much detail a record carries, least first. -/
inductive Level where
  | error
  | warn
  | debug
  | trace
  deriving DecidableEq, Repr

/-- The name that stands before a record of this level. -/
def Level.name : Level → String
  | .error => "ERROR"
  | .warn => "WARN"
  | .debug => "DEBUG"
  | .trace => "TRACE"

/-- One record of the log. -/
inductive Event where
  /-- A program of `size` bytes was put at address `addr`. -/
  | loaded (size addr : Nat)
  /-- The instruction `word` was read at `pc`; it is about to run. -/
  | fetched (pc : Nat) (word : Word)
  /-- The machine stopped. -/
  | halted (fault : Fault)
  /-- Frame number `frame` took `excess` nanoseconds too long; the one before it
  was on time. -/
  | late (frame excess : Nat)
  /-- Frame number `frame` took `excess` nanoseconds too long, like the one
  before it. -/
  | stillLate (frame excess : Nat)
  /-- After `length` late frames in a row, which are more than one, a frame
  was on time. -/
  | caughtUp (length : Nat)
  /-- A run of the frame loop came to its end. -/
  | finished (frames : Nat)
  deriving DecidableEq, Repr

/-- Each kind of event has its level.  Of late frames in a row only the first
one is a warning. -/
def Event.level : Event → Level
  | .loaded _ _ | .stillLate _ _ | .caughtUp _ | .finished _ => .debug
  | .fetched _ _ => .trace
  | .halted _ => .error
  | .late _ _ => .warn

def Event.message : Event → String
  | .loaded size addr => s!"loaded {size} byte ROM at " ++ Hex.marked 3 addr
  | .fetched pc word => Hex.marked 3 pc ++ ": " ++ Hex.padded 4 word.toNat
  | .halted fault => "halted: " ++ fault.message
  | .late frame excess =>
      s!"frame {frame} overran its " ++ Duration.text framePeriod ++ " budget by " ++
        Duration.text excess
  | .stillLate frame excess => s!"frame {frame} overran by " ++ Duration.text excess
  | .caughtUp length => s!"{length} frames in a row overran"
  | .finished frames => s!"scheduler stopped after {frames} frames"

end Chip8
