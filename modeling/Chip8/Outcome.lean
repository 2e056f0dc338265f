/-
# `Chip8.Outcome` — what an operation leaves behind

An operation on a state `σ` is a function `σ → Outcome ε σ α`.  It answers
with an `α` or stops, and either way it leaves a state: an operation that
stops half way has done its first half.  What it logged comes along.

An operation stops for one of two reasons (`Stop`).  It *raises* an error,
which is reported and is part of how the machine behaves; or a sum of
addresses does not fit the width it is kept in, which is nobody's report
but the end of the computation.

    andThen       go on with a second operation, unless the first stopped
    repeated      the same operation n times, until it stops
    series        the same, and a view of every state on the way
-/
import Chip8.Event

namespace Chip8

/-- Why an operation ended without an answer. -/
inductive Stop (ε : Type) where
  /-- The error `e` is reported. -/
  | raised (e : ε)
  /-- A sum left the width it is kept in. -/
  | overflow
  deriving DecidableEq, Repr

/-- An answer or the reason there is none, the state left behind, and the
records logged on the way, oldest first. -/
structure Outcome (ε σ α : Type) where
  result : Except (Stop ε) α
  state : σ
  log : Array Event

namespace Outcome

variable {ε σ α β : Type}

/-- An answer, with nothing logged. -/
def done (a : α) (s : σ) : Outcome ε σ α := ⟨.ok a, s, #[]⟩

/-- A stop, with nothing logged. -/
def stop (e : Stop ε) (s : σ) : Outcome ε σ α := ⟨.error e, s, #[]⟩

def raise (e : ε) (s : σ) : Outcome ε σ α := stop (.raised e) s

/-- A sum left its width. -/
def overflow (s : σ) : Outcome ε σ α := stop .overflow s

/-- Goes on with `f` from the answer and the state, unless there is no
answer; the records of `f` follow. -/
def andThen (o : Outcome ε σ α) (f : α → σ → Outcome ε σ β) : Outcome ε σ β :=
  match o.result with
  | .error e => ⟨.error e, o.state, o.log⟩
  | .ok a =>
      let next := f a o.state
      ⟨next.result, next.state, o.log ++ next.log⟩

/-- Goes on with `act` up to `n` times; a stop ends it. -/
def repeated (act : σ → Outcome ε σ Unit) : Nat → Outcome ε σ Unit → Outcome ε σ Unit
  | 0, o => o
  | n + 1, o =>
      match o.result with
      | .error _ => o
      | .ok () => repeated act n (o.andThen fun _ => act)

end Outcome

/-! ## Series: repetition with a view of every state -/

/-- A repetition so far: a view of the state after each time, the last one
included even if it stopped, and where it stands. -/
structure Series (ε σ β : Type) where
  seen : Array β
  outcome : Outcome ε σ Unit

namespace Series

variable {ε σ β : Type}

def start (s : σ) : Series ε σ β := ⟨#[], .done () s⟩

/-- Goes on with `act` up to `n` times and views the state each time. -/
def run (act : σ → Outcome ε σ Unit) (view : σ → β) : Nat → Series ε σ β → Series ε σ β
  | 0, r => r
  | n + 1, r =>
      match r.outcome.result with
      | .error _ => r
      | .ok () =>
          let o := r.outcome.andThen fun _ => act
          run act view n ⟨r.seen.push (view o.state), o⟩

/-- How many times the operation came to its end. -/
def completed (r : Series ε σ β) : Nat :=
  match r.outcome.result with
  | .ok () => r.seen.size
  | .error _ => r.seen.size - 1

end Series

end Chip8
