/-
# `Chip8.Proofs.RandomStream` — every random byte is accounted for

A random source is a stream of bytes, read from the front.  Only CXNN reads it, one
byte each time, whatever NN is: CX00 takes a byte and shows nothing of it.  A load
starts everything over but the source.  So through any requests, loads and faults
among them,

    the source       is the first one less as many bytes as CXNN were executed
    the j-th CXNN    sets VX to the bits of the j-th byte that are set in NN

counted from the machine as it was made (`random_eq_stream`).
-/
import Chip8.Host.Terminal
import Chip8.Proofs.History
import Chip8.Proofs.Ticks

namespace Chip8

/-! ## The stream -/

namespace RandomSource

variable {R : Type} [RandomSource R]

/-- A source after `k` bytes were taken from it. -/
def skip (source : R) : Nat → R
  | 0 => source
  | k + 1 => (next (skip source k)).2

/-- The byte that a source gives after `k` others. -/
def byteAfter (source : R) (k : Nat) : UInt8 := (next (skip source k)).1

theorem skip_next (source : R) (k : Nat) : skip (next source).2 k = skip source (k + 1) := by
  induction k with
  | zero => rfl
  | succ k ih => rw [skip, ih]; rfl

end RandomSource

/-! ## Spending it -/

def Instruction.isRandom : Instruction → Bool
  | .random _ _ => true
  | _ => false

theorem Instruction.isRandom_eq_true_iff (i : Instruction) :
    i.isRandom = true ↔ ∃ x nn, i = .random x nn := by
  cases i <;> simp [isRandom]

section Spent
variable {R : Type}

/-- The CXNN among some executions, in their order. -/
def draws (executions : List (Execution R)) : List (Execution R) :=
  executions.filter fun e => e.instruction.isRandom

theorem draws_cons_of_isRandom {e : Execution R} (he : e.instruction.isRandom = true)
    (executions : List (Execution R)) : draws (e :: executions) = e :: draws executions :=
  List.filter_cons_of_pos he

theorem draws_cons_of_not_isRandom {e : Execution R} (he : e.instruction.isRandom = false)
    (executions : List (Execution R)) : draws (e :: executions) = draws executions :=
  List.filter_cons_of_neg (Bool.eq_false_iff.mp he)

variable [RandomSource R]

/-- What an execution leaves of the source. -/
def Execution.spend (source : R) (e : Execution R) : R := e.instruction.spend source

theorem spend_of_isRandom {i : Instruction} (hi : i.isRandom = true) (source : R) :
    i.spend source = RandomSource.skip source 1 := by
  obtain ⟨x, nn, rfl⟩ := i.isRandom_eq_true_iff.mp hi
  rfl

theorem spend_of_not_isRandom {i : Instruction} (hi : i.isRandom = false) (source : R) :
    i.spend source = source := by
  cases i with
  | random x nn => cases hi
  | _ => rfl

theorem foldl_spend (executions : List (Execution R)) (source : R) :
    executions.foldl Execution.spend source =
      RandomSource.skip source (draws executions).length := by
  induction executions generalizing source with
  | nil => rfl
  | cons e executions ih =>
      rw [List.foldl_cons, ih, Execution.spend]
      cases he : e.instruction.isRandom with
      | true =>
          rw [spend_of_isRandom he, draws_cons_of_isRandom he]
          exact RandomSource.skip_next source _
      | false => rw [spend_of_not_isRandom he, draws_cons_of_not_isRandom he]

/-- Each CXNN finds the source less the bytes of those before it. -/
theorem startsWith_of_draws {executions : List (Execution R)} {source : R}
    (hthread : Threaded Machine.source Execution.spend source executions) {j : Nat}
    {e : Execution R} (he : (draws executions)[j]? = some e) :
    e.StartsWith Machine.source (RandomSource.skip source j) := by
  induction executions generalizing source j with
  | nil => cases he
  | cons first executions ih =>
      obtain ⟨hstarts, hrest⟩ := hthread
      rw [Execution.spend] at hrest
      cases hfirst : first.instruction.isRandom with
      | false =>
          rw [spend_of_not_isRandom hfirst] at hrest
          rw [draws_cons_of_not_isRandom hfirst] at he
          exact ih hrest he
      | true =>
          rw [spend_of_isRandom hfirst] at hrest
          rw [draws_cons_of_isRandom hfirst] at he
          cases j with
          | zero =>
              cases he
              exact hstarts
          | succ j => exact RandomSource.skip_next source j ▸ ih hrest he

theorem source_effect (m : Machine R) (i : Instruction) :
    (i.effect m).source = i.spend m.source := by
  cases i with
  | combine op x y => cases op <;> rfl
  | awaitKey x =>
      simp only [Instruction.effect]
      cases m.keys.lowest? <;> rfl
  | addIndex x => rw [Instruction.effect_addIndex]; rfl
  | _ => rfl

theorem source_follows : Follows (Machine.source (R := R)) Execution.spend where
  setKeys _ _ := rfl
  takeFrame _ := rfl
  countDown _ := rfl
  halt _ _ := rfl
  past _ := rfl
  spoil _ i := by cases i <;> rfl
  effect m i _ _ := source_effect m.past i

theorem get_random (m : Machine R) (x : Fin 16) (nn : UInt8) :
    (m.random x nn).v.get x = (RandomSource.next m.source).1 &&& nn :=
  Vector.getElem_set_self _

end Spent

/-! ## Through all requests -/

section Runs
variable {R H : Type} [RandomSource R] [Host H]

/-- What is left of a source follows from the executions alone. -/
theorem source_after_calls (calls : List (Call H)) {m : Machine R} (hm : m.InBounds) :
    (after calls m).source = RandomSource.skip m.source (draws (history calls m)).length := by
  rw [source_follows.after_of_loaded (fun _ _ => rfl) calls hm, foldl_spend]

/-- The j-th CXNN that is executed sets VX to what NN lets through of the j-th byte of
the first source, and what is left is that source less the bytes taken.  Of the
source it finds, a request takes as many bytes as it executes CXNN, and leaves the
rest. -/
theorem random_eq_stream (settings : Settings) (source : R) (requests : List (Request H)) :
    let start := Machine.idle settings source
    let final := afterRequests requests start
    let drawn := draws (history (callsOf requests start) start)
    final.source = RandomSource.skip source drawn.length ∧
    (∀ (j : Nat) (e : Execution R), drawn[j]? = some e →
      ∃ x nn, e.instruction = .random x nn ∧
        e.before.step.state.v.get x = RandomSource.byteAfter source j &&& nn) ∧
    ∀ r : Request H, (r.perform final).state.source =
      RandomSource.skip final.source (draws (history (r.calls final) final)).length := by
  intro start final drawn
  have hstart : start.InBounds := inBounds_idle settings source
  have hfinal : after (callsOf requests start) start = final := after_callsOf _ _
  refine ⟨?_, ?_, ?_⟩
  · rw [← hfinal]
    exact source_after_calls _ hstart
  · intro j e he
    have hthread := source_follows.threaded_history (fun _ _ => rfl) (callsOf requests start) hstart
    have hstarts := startsWith_of_draws hthread he
    have hrandom := (List.mem_filter.mp (List.mem_of_getElem? he)).2
    obtain ⟨x, nn, hi⟩ := e.instruction.isRandom_eq_true_iff.mp hrandom
    refine ⟨x, nn, hi, ?_⟩
    rw [Machine.step_of_executed hstarts.inBounds hstarts.executed, hi]
    show (e.before.past.random x nn).v.get x = _
    rw [get_random, show e.before.past.source = RandomSource.skip source j from hstarts.view_eq]
    rfl
  · intro r
    have hreach : Reachable H final := hfinal ▸ (Reachable.idle settings source).after _
    rw [← after_calls, source_after_calls _ hreach.inBounds]

/-- What CX00 executes, and then a CXNN in a program loaded over it. -/
theorem history_of_reload {m : Machine R} {rom rom' : List UInt8} {x x' : Fin 16} {nn : UInt8}
    (hrom : rom.length ≤ Memory.programRoom) (hrom' : rom'.length ≤ Memory.programRoom)
    (hword : (m.loaded rom).nextWord.Spells (.random x 0))
    (hword' : ((m.loaded rom).step.state.loaded rom').nextWord.Spells (.random x' nn)) :
    history (callsOf ([.call (.load rom), .call .step, .call (.load rom'), .call .step] :
        List (Request H)) m) m =
      [⟨m.loaded rom, .random x 0⟩, ⟨(m.loaded rom).step.state.loaded rom', .random x' nn⟩] := by
  have hpc : ∀ (rom : List UInt8) (m : Machine R), (m.loaded rom).pc + 2 ≤ Memory.size :=
    fun _ _ => show 0x200 + 2 ≤ 0x1000 by decide
  have hfirst := Machine.executes_of_effect (inBounds_loaded rom m) rfl (hpc rom m) hword rfl
  have hsecond := Machine.executes_of_effect (inBounds_loaded rom' (m.loaded rom).step.state) rfl
    (hpc rom' _) hword' rfl
  show [] ++ (((Call.load rom : Call H).perform m).state.executes ++ ([] ++
    (((Call.load rom' : Call H).perform
      ((Call.load rom : Call H).perform m).state.step.state).state.executes ++ []))) = _
  rw [perform_load_of_le (H := H) m hrom, perform_load_of_le (H := H) _ hrom', hfirst, hsecond]
  rfl

end Runs

/-- CA00, and CB0F in a program that is loaded over it: the second byte is what VB gets,
though nothing was seen of the first. -/
theorem random_eq_stream_of_reload :
    let start := Machine.idle {} (⟨7, 3⟩ : Counter)
    let requests : List (Request Terminal) :=
      [.call (.load [0xCA, 0x00]), .call .step, .call (.load [0xCB, 0x0F]), .call .step]
    (afterRequests requests start).source = ⟨13, 3⟩ ∧
    ((start.loaded [0xCA, 0x00]).step.state.loaded [0xCB, 0x0F]).step.state.v.get 0xB = 10 := by
  intro start requests
  obtain ⟨hsource, hdrawn, -⟩ := random_eq_stream {} (⟨7, 3⟩ : Counter) requests
  have hfirst : (start.loaded [0xCA, 0x00]).nextWord.Spells (.random 0xA 0) := by
    rw [Machine.nextWord_loaded _ rfl rfl]
    exact ⟨rfl, rfl, rfl⟩
  have hsecond : ((start.loaded [0xCA, 0x00]).step.state.loaded [0xCB, 0x0F]).nextWord.Spells
      (.random 0xB 0x0F) := by
    rw [Machine.nextWord_loaded _ rfl rfl]
    exact ⟨rfl, rfl, rfl⟩
  have hhistory := history_of_reload (H := Terminal) (by decide) (by decide) hfirst hsecond
  rw [hhistory] at hsource hdrawn
  refine ⟨hsource, ?_⟩
  obtain ⟨x, nn, hi, hbyte⟩ := hdrawn 1 _ rfl
  cases hi
  exact hbyte

end Chip8
