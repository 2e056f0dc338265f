/-
# `Chip8.Proofs.Outcome` — going on, and going on again

`repeated` carries the outcome so far along.  The laws here let a proof
forget it: a repetition goes on from the last answer (`repeated_eq_andThen`),
so n + 1 times is once and then n times (`repeated_done_succ`), and what
every single time keeps, the repetition keeps (`repeated_preserves`).

Two outcomes are `Alike` if nobody who sees answers, stops and records can tell
them apart; their states may differ, but only as a given relation allows.
-/
import Chip8.Outcome

namespace Chip8.Outcome

variable {ε σ α β : Type}

attribute [ext] Outcome

/-! ## The parts of an answer and of a stop -/

@[simp] theorem done_result (a : α) (s : σ) : (done a s : Outcome ε σ α).result = .ok a := rfl
@[simp] theorem done_state (a : α) (s : σ) : (done a s : Outcome ε σ α).state = s := rfl
@[simp] theorem done_log (a : α) (s : σ) : (done a s : Outcome ε σ α).log = #[] := rfl

@[simp] theorem stop_result (e : Stop ε) (s : σ) : (stop e s : Outcome ε σ α).result = .error e := rfl
@[simp] theorem stop_state (e : Stop ε) (s : σ) : (stop e s : Outcome ε σ α).state = s := rfl
@[simp] theorem stop_log (e : Stop ε) (s : σ) : (stop e s : Outcome ε σ α).log = #[] := rfl

@[simp] theorem raise_result (e : ε) (s : σ) :
    (raise e s : Outcome ε σ α).result = .error (.raised e) := rfl
@[simp] theorem raise_state (e : ε) (s : σ) : (raise e s : Outcome ε σ α).state = s := rfl
@[simp] theorem raise_log (e : ε) (s : σ) : (raise e s : Outcome ε σ α).log = #[] := rfl

@[simp] theorem overflow_state (s : σ) : (overflow s : Outcome ε σ α).state = s := rfl
@[simp] theorem overflow_log (s : σ) : (overflow s : Outcome ε σ α).log = #[] := rfl

/-! ## Going on -/

theorem andThen_of_ok {o : Outcome ε σ α} {a : α} (f : α → σ → Outcome ε σ β)
    (h : o.result = .ok a) :
    o.andThen f = ⟨(f a o.state).result, (f a o.state).state, o.log ++ (f a o.state).log⟩ := by
  simp only [andThen, h]

theorem andThen_of_error {o : Outcome ε σ α} {e : Stop ε} (f : α → σ → Outcome ε σ β)
    (h : o.result = .error e) : o.andThen f = ⟨.error e, o.state, o.log⟩ := by
  simp only [andThen, h]

@[simp] theorem done_andThen (a : α) (s : σ) (f : α → σ → Outcome ε σ β) :
    (done a s).andThen f = f a s := by
  rw [andThen_of_ok f (done_result a s)]
  ext <;> simp

@[simp] theorem andThen_done (o : Outcome ε σ Unit) : o.andThen (fun _ s => done () s) = o := by
  cases h : o.result with
  | error e => rw [andThen_of_error _ h, ← h]
  | ok a => rw [andThen_of_ok _ h]; ext <;> simp [h]

theorem andThen_assoc {γ : Type} (o : Outcome ε σ α) (f : α → σ → Outcome ε σ β)
    (g : β → σ → Outcome ε σ γ) :
    (o.andThen f).andThen g = o.andThen fun a s => (f a s).andThen g := by
  cases ho : o.result with
  | error e => simp only [andThen, ho]
  | ok a =>
      cases hf : (f a o.state).result with
      | error e => simp only [andThen, ho, hf]
      | ok b => simp only [andThen, ho, hf, Array.append_assoc]

/-! ## Repeating -/

section Repeated
variable (act : σ → Outcome ε σ Unit)

theorem repeated_of_error {o : Outcome ε σ Unit} {e : Stop ε} (h : o.result = .error e) (n : Nat) :
    repeated act n o = o := by
  cases n with
  | zero => rfl
  | succ n => simp only [repeated, h]

theorem repeated_succ_of_ok {o : Outcome ε σ Unit} (h : o.result = .ok ()) (n : Nat) :
    repeated act (n + 1) o = repeated act n (o.andThen fun _ => act) := by
  simp only [repeated, h]

/-- A repetition goes on from the answer and the state it finds; the records so
far only stand before the new ones. -/
theorem repeated_eq_andThen (n : Nat) {o : Outcome ε σ Unit} (h : o.result = .ok ()) :
    repeated act n o = o.andThen fun _ s => repeated act n (done () s) := by
  induction n generalizing o with
  | zero => exact (andThen_done o).symm
  | succ n ih =>
      rw [repeated_succ_of_ok act h, andThen_of_ok _ h, andThen_of_ok _ h,
        repeated_succ_of_ok act (done_result () o.state), done_andThen]
      cases hr : (act o.state).result with
      | error e =>
          rw [repeated_of_error act (e := e) rfl, repeated_of_error act hr, hr]
      | ok _ =>
          -- both sides go on from `act o.state`; they differ in the records before
          rw [ih rfl, ih hr, andThen_of_ok _ rfl, andThen_of_ok _ hr, Array.append_assoc]

theorem repeated_done_succ (n : Nat) (s : σ) :
    repeated act (n + 1) (done () s) =
      (act s).andThen fun _ s => repeated act n (done () s) := by
  rw [repeated_succ_of_ok act (done_result () s), done_andThen]
  cases h : (act s).result with
  | error e => rw [repeated_of_error act h, andThen_of_error _ h, ← h]
  | ok _ => exact repeated_eq_andThen act n h

theorem repeated_one (s : σ) : repeated act 1 (done () s) = act s := by
  rw [repeated_done_succ]
  exact andThen_done (act s)

theorem repeated_preserves {P : σ → Prop} (hact : ∀ s, P s → P (act s).state) (n : Nat) {s : σ}
    (hs : P s) : P (repeated act n (done () s)).state := by
  induction n generalizing s with
  | zero => exact hs
  | succ n ih =>
      rw [repeated_done_succ]
      cases h : (act s).result with
      | error e =>
          rw [andThen_of_error _ h]
          exact hact s hs
      | ok _ =>
          rw [andThen_of_ok _ h]
          exact ih (hact s hs)

theorem repeated_fixed {s : σ} (hok : (act s).result = .ok ()) (hsame : (act s).state = s)
    (n : Nat) :
    (repeated act n (done () s)).result = .ok () ∧ (repeated act n (done () s)).state = s := by
  induction n with
  | zero => exact ⟨rfl, rfl⟩
  | succ n ih =>
      rw [repeated_done_succ, andThen_of_ok _ hok, hsame]
      exact ih

theorem repeated_ends {P : Except (Stop ε) Unit → σ → Prop}
    (hact : ∀ s, P (act s).result (act s).state) (n : Nat) {s : σ} (hs : P (.ok ()) s) :
    P (repeated act n (done () s)).result (repeated act n (done () s)).state := by
  induction n generalizing s with
  | zero => exact hs
  | succ n ih =>
      have honce := hact s
      rw [repeated_done_succ]
      cases h : (act s).result with
      | error e =>
          rw [andThen_of_error _ h]
          exact h ▸ honce
      | ok _ =>
          rw [andThen_of_ok _ h]
          exact ih (h ▸ honce)

/-- If `act` keeps `P` and does not stop for the reason `e` where `P` holds, then
repeating it does not either. -/
theorem repeated_result_ne {P : σ → Prop} {e : Stop ε} (hact : ∀ s, P s → P (act s).state)
    (hne : ∀ s, P s → (act s).result ≠ .error e) (n : Nat) {s : σ} (hs : P s) :
    (repeated act n (done () s)).result ≠ .error e := by
  induction n generalizing s with
  | zero => simp [repeated]
  | succ n ih =>
      rw [repeated_done_succ]
      cases h : (act s).result with
      | error e' =>
          rw [andThen_of_error _ h]
          exact h ▸ hne s hs
      | ok _ =>
          rw [andThen_of_ok _ h]
          exact ih (hact s hs)

/-- What every single time keeps that comes to its end, a repetition that does keeps. -/
theorem repeated_preserves_of_ok {P : σ → Prop}
    (hact : ∀ s, P s → (act s).result = .ok () → P (act s).state) (n : Nat) {s : σ} (hs : P s)
    (hok : (repeated act n (done () s)).result = .ok ()) :
    P (repeated act n (done () s)).state := by
  induction n generalizing s with
  | zero => exact hs
  | succ n ih =>
      rw [repeated_done_succ] at hok ⊢
      cases h : (act s).result with
      | error e =>
          rw [andThen_of_error _ h] at hok
          cases hok
      | ok _ =>
          rw [andThen_of_ok _ h] at hok ⊢
          exact ih (hact s hs h) hok

/-- A repetition that stops comes to its end some times, and then one time stops it. -/
theorem repeated_eq_error {e : Stop ε} {n : Nat} {s : σ}
    (hstop : (repeated act n (done () s)).result = .error e) :
    ∃ k < n, (repeated act k (done () s)).result = .ok () ∧
      (act (repeated act k (done () s)).state).result = .error e ∧
      (repeated act n (done () s)).state = (act (repeated act k (done () s)).state).state := by
  induction n generalizing s with
  | zero => cases hstop
  | succ n ih =>
      rw [repeated_done_succ] at hstop ⊢
      cases h : (act s).result with
      | error e' =>
          rw [andThen_of_error _ h] at hstop ⊢
          exact ⟨0, Nat.succ_pos n, rfl, h.trans hstop, rfl⟩
      | ok _ =>
          rw [andThen_of_ok _ h] at hstop ⊢
          obtain ⟨k, hk, hok, hlast, hstate⟩ := ih hstop
          refine ⟨k + 1, Nat.succ_lt_succ hk, ?_⟩
          rw [repeated_done_succ, andThen_of_ok _ h]
          exact ⟨hok, hlast, hstate⟩

theorem repeated_add (n k : Nat) (s : σ) :
    repeated act (n + k) (done () s) =
      (repeated act n (done () s)).andThen fun _ s => repeated act k (done () s) := by
  induction n generalizing s with
  | zero => rw [Nat.zero_add, repeated, done_andThen]
  | succ n ih =>
      rw [Nat.succ_add, repeated_done_succ, repeated_done_succ, andThen_assoc]
      simp only [ih]

end Repeated

/-! ## Two outcomes -/

/-- The same answer or the same stop, the same records, and states that are `P` to
each other. -/
structure Alike {σ' : Type} (P : σ → σ' → Prop) (o : Outcome ε σ α) (o' : Outcome ε σ' α) :
    Prop where
  result : o.result = o'.result
  log : o.log = o'.log
  state : P o.state o'.state

namespace Alike

variable {σ' : Type} {P : σ → σ' → Prop} {s : σ} {s' : σ'}

theorem done (h : P s s') (a : α) : Alike P (done a s : Outcome ε σ α) (.done a s') :=
  ⟨rfl, rfl, h⟩

theorem stop (h : P s s') (e : Stop ε) : Alike P (stop e s : Outcome ε σ α) (.stop e s') :=
  ⟨rfl, rfl, h⟩

theorem ite {p p' : Prop} [Decidable p] [Decidable p'] {o₁ o₂ : Outcome ε σ α}
    {o₁' o₂' : Outcome ε σ' α} (hp : p ↔ p') (hyes : p → Alike P o₁ o₁')
    (hno : ¬p → Alike P o₂ o₂') :
    Alike P (if p then o₁ else o₂) (if p' then o₁' else o₂') := by
  by_cases h : p
  · rw [if_pos h, if_pos (hp.mp h)]
    exact hyes h
  · rw [if_neg h, if_neg fun h' => h (hp.mpr h')]
    exact hno h

theorem andThen {o : Outcome ε σ α} {o' : Outcome ε σ' α} (h : Alike P o o')
    {f : α → σ → Outcome ε σ β} {f' : α → σ' → Outcome ε σ' β}
    (hf : ∀ a, o.result = .ok a → Alike P (f a o.state) (f' a o'.state)) :
    Alike P (o.andThen f) (o'.andThen f') := by
  cases hr : o.result with
  | error e =>
      rw [andThen_of_error f hr, andThen_of_error f' (h.result ▸ hr)]
      exact ⟨rfl, h.log, h.state⟩
  | ok a =>
      have hnext := hf a hr
      rw [andThen_of_ok f hr, andThen_of_ok f' (h.result ▸ hr)]
      exact ⟨hnext.result, by rw [h.log, hnext.log], hnext.state⟩

end Alike

end Chip8.Outcome
