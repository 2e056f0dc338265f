/-
# `Chip8.FrameLoop` — sixty frames a second

One frame of a console: the host's keys go in, the machine runs its frame,
the picture goes out.  The loop goes on as long as the host wants more and
no instruction fails.

A *throttled* loop waits at the end of a frame for what is left of its
sixtieth of a second.  A frame that took longer is *late*; it is not made up
for.  Throttled or not, the loop logs the late frames, and how many there
were in a row once a frame is on time again.

Frames are counted in 64 bits.  The count of a run that never ends would
leave them, and that is where such a run stops.
-/
import Chip8.Host.Basic
import Chip8.Machine.Step

namespace Chip8

/-- How the loop treats time. -/
inductive Pace where
  | throttled
  | unthrottled
  deriving DecidableEq, Repr

/-- What is left of a frame that took `time` nanoseconds; nothing if it took
too long or nobody waits. -/
def Pace.rest? (pace : Pace) (time : Nat) : Option Nat :=
  match pace with
  | .throttled => if time ≤ framePeriod then some (framePeriod - time) else none
  | .unthrottled => none

/-- How many frames in a row are late after one more that took `time`
nanoseconds, if there were `late` before it. -/
def lateAfter (late time : Nat) : Nat :=
  if time ≤ framePeriod then 0 else late + 1

/-- What is logged of the time that frame number `frame` took. -/
def timing (late frame time : Nat) : Array Event :=
  if time ≤ framePeriod then if 1 < late then #[.caughtUp late] else #[]
  else if late = 0 then #[.late frame (time - framePeriod)]
  else #[.stillLate frame (time - framePeriod)]

namespace Console

variable {R H : Type} [RandomSource R] [Host H]

/-- One frame.  The host sees nothing of a frame that fails. -/
def tick (c : Console R H) : Outcome Fault (Console R H) Unit :=
  let (keys, host) := Host.keys c.host
  let o := (c.machine.setKeys keys).frame
  match o.result with
  | .error e => ⟨.error e, ⟨o.state, host⟩, o.log⟩
  | .ok () =>
      let (changed, machine) := o.state.takeFrame
      let picture : Picture := ⟨machine.screen, changed, machine.soundOn⟩
      ⟨.ok (), ⟨machine, Host.render picture host⟩, o.log⟩

/-- Lets the host wait for the end of the frame. -/
def pause (pace : Pace) (c : Console R H) : Console R H :=
  match pace.rest? (Host.frameTime c.host) with
  | some time => { c with host := Host.pause time c.host }
  | none => c

def wantsMore (c : Console R H) : Bool × Console R H :=
  let (more, host) := Host.wantsMore c.host
  (more, { c with host := host })

/-- The end of frame number `frame`, which is timed and waited for; answers
with the number of late frames in a row. -/
def endFrame (pace : Pace) (frame late : Nat) (c : Console R H) :
    Outcome Fault (Console R H) Nat :=
  let time := Host.frameTime c.host
  ⟨.ok (lateAfter late time), c.pause pace, timing late frame time⟩

/-- Goes on from `o` with `frames` frames behind, of which the last ones, as
many as `o` answers, were late, and room for `room` more in the count. -/
def runFrom (pace : Pace) (room frames : Nat) (o : Outcome Fault (Console R H) Nat) :
    Outcome Fault (Console R H) Nat :=
  match o.result with
  | .error e => ⟨.error e, o.state, o.log⟩
  | .ok late =>
      let (more, c) := o.state.wantsMore
      if more then
        let o := (⟨.ok (), c, o.log⟩ : Outcome Fault (Console R H) Unit).andThen fun () => tick
        match room with
        | 0 => o.andThen fun () => .overflow
        | room + 1 =>
            runFrom pace room (frames + 1)
              (o.andThen fun () => endFrame pace (frames + 1) late)
      else ⟨.ok frames, c, o.log.push (.finished frames)⟩

/-- Runs until the host wants no more or an instruction fails, and answers
with the number of frames. -/
def run (pace : Pace) (c : Console R H) : Outcome Fault (Console R H) Nat :=
  runFrom pace maxFrames 0 (.done 0 c)

end Console

end Chip8
