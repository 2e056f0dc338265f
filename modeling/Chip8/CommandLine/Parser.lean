/-
# `Chip8.CommandLine.Parser` — reading a command line

Arguments are read from the left, and the first that makes no sense decides
the answer.

    --name            a flag, or an option whose number comes next
    --name=value      an option with its number; a flag takes none
    -x…               only -h and -V exist; what follows the letter is lost
    --                all that comes after is no option
    anything else,    the program to run; there has to be exactly one,
    also a lone -     and its name is not empty

Nothing may be given twice.  The number of an option is not taken from an
argument that looks like an option.

A word is weighed late: what is wrong with the name of the program, or with
a number in an argument of its own, is said when the next argument has been
recognised.  If that one is unknown, has a value it does not take, or is one
word too many, it is refused in the first place.
-/
import Chip8.CommandLine.Invocation

namespace Chip8.CommandLine

/-- Why there is nothing to run. -/
inductive Refusal where
  | helpWanted
  | versionWanted
  | unknownArgument (arg : String)
  | givenTwice (option : String)
  | valueMissing (option : String)
  | valueUnwanted (option : String)
  | valueInvalid (option value : String)
  | romEmpty
  | romMissing
  deriving DecidableEq, Repr

/-! ## Options by their names -/

/-- Everything that has a name. -/
inductive Name where
  | flag (f : Flag)
  | quantity (q : Quantity)
  | help
  | version
  deriving DecidableEq, Repr

/-- The name behind two dashes. -/
def Name.ofLong? (cs : List Char) : Option Name :=
  match String.ofList cs with
  | "ips" => some (.quantity .speed)
  | "seed" => some (.quantity .seed)
  | "frames" => some (.quantity .frames)
  | "cosmac-vip" => some (.flag .cosmacVip)
  | "legacy-shift" => some (.flag .legacyShift)
  | "legacy-jump-with-vx" => some (.flag .legacyJumpWithVx)
  | "no-index-overflow-flag" => some (.flag .noIndexOverflowFlag)
  | "legacy-store-load" => some (.flag .legacyStoreLoad)
  | "headless" => some (.flag .headless)
  | "help" => some .help
  | "version" => some .version
  | _ => none

/-- The letter behind one dash. -/
def Name.ofShort? : Char → Option Name
  | 'h' => some .help
  | 'V' => some .version
  | _ => none

/-- Only quantities have values. -/
def Name.takesValue : Name → Bool
  | .quantity _ => true
  | _ => false

/-! ## Arguments by their form -/

/-- The form of one argument. -/
inductive Token where
  | endOfOptions
  /-- An option, if its name is known, and what follows an equals sign. -/
  | option (name : Option Name) (value : Option (List Char))
  | word
  deriving DecidableEq, Repr

/-- Splits at the first `=`, if there is one. -/
def splitAtEquals (cs : List Char) : List Char × Option (List Char) :=
  match cs.dropWhile (· != '=') with
  | [] => (cs, none)
  | _ :: value => (cs.takeWhile (· != '='), some value)

/-- The form is told by the first characters. -/
def Token.ofChars : List Char → Token
  | ['-', '-'] => .endOfOptions
  | '-' :: '-' :: cs =>
      let (name, value) := splitAtEquals cs
      .option (Name.ofLong? name) value
  | '-' :: c :: _ => .option (Name.ofShort? c) none
  | _ => .word

/-! ## Numbers -/

/-- The number that digits spell; there is at least one. -/
def digits? (cs : List Char) : Option Nat :=
  if cs ≠ [] ∧ cs.all Char.isDigit then
    some (cs.foldl (fun n d => 10 * n + (d.toNat - '0'.toNat)) 0)
  else none

/-- The number that a text spells for `q`: digits, perhaps a sign in front,
and below the limit. -/
def number? (q : Quantity) (cs : List Char) : Option Nat :=
  let n? := match cs with
    | '+' :: ds => digits? ds
    | '-' :: ds => if q.takesMinus then (digits? ds).filter (· = 0) else none
    | ds => digits? ds
  n?.filter (· < q.limit)

/-! ## The command line -/

/-- What has been read so far. -/
structure Draft where
  rom : Option String := none
  flags : List Flag := []
  quantities : List (Quantity × Nat) := []
  /-- What is wrong with the last word. -/
  waiting : Option Refusal := none
  deriving DecidableEq, Repr

namespace Draft

def settle (d : Draft) : Except Refusal Draft :=
  match d.waiting with
  | some refusal => .error refusal
  | none => .ok d

/-- The draft that comes out, or else `d` with a refusal that waits. -/
def later (d : Draft) : Except Refusal Draft → Draft
  | .ok next => next
  | .error refusal => { d with waiting := some refusal }

def quantity? (d : Draft) (q : Quantity) : Option Nat := d.quantities.lookup q

/-- Adds a flag that was written as `arg`. -/
def addFlag (d : Draft) (arg : String) (f : Flag) : Except Refusal Draft :=
  if d.flags.contains f then .error (.givenTwice arg)
  else .ok { d with flags := f :: d.flags }

/-- Adds the number of an option that was written as `arg`. -/
def addQuantity (d : Draft) (arg : String) (q : Quantity) (value : List Char) :
    Except Refusal Draft :=
  if (d.quantity? q).isSome then .error (.givenTwice arg)
  else
    match number? q value with
    | some n => .ok { d with quantities := (q, n) :: d.quantities }
    | none => .error (.valueInvalid arg (.ofList value))

def addRom (d : Draft) (arg : String) : Except Refusal Draft :=
  if d.rom.isSome then .error (.unknownArgument arg)
  else
    match d.settle with
    | .error e => .error e
    | .ok d =>
        .ok { d with
          rom := some arg
          waiting := if arg = "" then some .romEmpty else none }

def finish (d : Draft) : Except Refusal Invocation :=
  match d.rom with
  | none => .error .romMissing
  | some rom =>
      let invocation : Invocation := { rom := rom, flags := d.flags }
      .ok { invocation with
        speed := (d.quantity? .speed).getD invocation.speed
        seed := (d.quantity? .seed).map .ofNat
        frames := (d.quantity? .frames).getD invocation.frames }

end Draft

/-- Reads the arguments after `--`. -/
def readWords (d : Draft) : List String → Except Refusal Draft
  | [] => d.settle
  | arg :: rest =>
      match d.addRom arg with
      | .error e => .error e
      | .ok d => readWords d rest

/-- Reads the arguments from the left. -/
def readFrom (d : Draft) : List String → Except Refusal Draft
  | [] => d.settle
  | arg :: rest =>
      match Token.ofChars arg.toList with
      | .endOfOptions => readWords d rest
      | .word =>
          match d.addRom arg with
          | .error e => .error e
          | .ok d => readFrom d rest
      | .option none _ => .error (.unknownArgument arg)
      | .option (some name) value =>
          if value.isSome && !name.takesValue then .error (.valueUnwanted arg)
          else
            match d.settle with
            | .error e => .error e
            | .ok d =>
                match name, value with
                | .help, _ => .error .helpWanted
                | .version, _ => .error .versionWanted
                | .flag f, _ =>
                    match d.addFlag arg f with
                    | .error e => .error e
                    | .ok d => readFrom d rest
                | .quantity q, some value =>
                    match d.addQuantity arg q value with
                    | .error e => .error e
                    | .ok d => readFrom d rest
                | .quantity q, none =>
                    match rest with
                    | [] => .error (.valueMissing arg)
                    | next :: after =>
                        if Token.ofChars next.toList = .word then
                          readFrom (d.later (d.addQuantity arg q next.toList)) after
                        else
                          readFrom (d.later (.error (.valueMissing arg))) (next :: after)

/-- Reads a whole command line, without the name of the program. -/
def parse (args : List String) : Except Refusal Invocation :=
  match readFrom {} args with
  | .error e => .error e
  | .ok d => d.finish

end Chip8.CommandLine
