import Mathlib

/-!
# Retries

`with_connected_pipe` with its retries: an attempt that fails with a `fiber_io_error` is made again
after a time that doubles, until the time is more than 30 seconds; one that fails with a
`fiber_io_timeout_error` is made again at once.

* `retryStep`: what the loop does about the end of an attempt.
* `sleepMsAt`: the loop, as far as it gets.
* `givesUp_iff`: when it ends, if every attempt fails.
-/

namespace Anon.Epc

/-- How `do_with_connected_pipe` ends. -/
inductive Attempt
  | returned
  | ioError
  | ioTimeoutError
  | otherError
  deriving DecidableEq

/-- What the loop does after an attempt. -/
inductive RetryStep
  | returned
  | threw (error : Attempt)
  /-- Another attempt, after a sleep of `slept` milliseconds. -/
  | again (sleepMs : ℕ) (slept : Option ℕ)
  deriving DecidableEq

/-- The end of the loop's body. -/
def backOff (sleepMs slp : ℕ) : RetryStep :=
  if 0 < sleepMs then .again (sleepMs * 2) (some slp) else .again 50 none

/-- The body of the loop, where `ri` is the random number that it takes. -/
def retryStep (sleepMs ri : ℕ) : Attempt → RetryStep
  | .returned => .returned
  | .ioError =>
    if 30 * 1000 < sleepMs then .threw .ioError
    else backOff sleepMs (sleepMs * 3 / 4 + ri % (sleepMs / 2))
  | .ioTimeoutError => backOff 0 0
  | .otherError => .threw .otherError

variable (outcome : ℕ → Attempt) (ri : ℕ → ℕ)

/-- `sleepMs` at attempt `n`, if the loop makes so many. -/
def sleepMsAt : ℕ → Option ℕ
  | 0 => some 50
  | n + 1 =>
    match sleepMsAt n with
    | none => none
    | some sleepMs =>
      match retryStep sleepMs (ri n) (outcome n) with
      | .again sleepMs _ => some sleepMs
      | _ => none

/-- The loop lets the error of attempt `n` out, the last one that it makes. -/
def LetsOut (n : ℕ) : Prop :=
  ∃ sleepMs, sleepMsAt outcome ri n = some sleepMs ∧
    retryStep sleepMs (ri n) (outcome n) = .threw (outcome n)

/-- The loop sleeps after every attempt that fails with a `fiber_io_error`, if it makes another
one. -/
def Waits : Prop :=
  ∀ n sleepMs sleepMs' slept, sleepMsAt outcome ri n = some sleepMs → outcome n = .ioError →
    retryStep sleepMs (ri n) (outcome n) = .again sleepMs' slept → ∃ ms, slept = some ms ∧ 0 < ms

/-- The number of attempts in front of attempt `n` that failed with a `fiber_io_error`, since the
last one that did not. -/
def streak : ℕ → ℕ
  | 0 => 0
  | n + 1 => if outcome n = .ioError then streak n + 1 else 0

variable {outcome ri} {n : ℕ}

/-- A streak of eleven `fiber_io_error`s is the end of a row of eleven. -/
theorem streak_le_iff {k : ℕ} : k ≤ streak outcome n ↔
    k ≤ n ∧ ∀ i < k, outcome (n - 1 - i) = .ioError := by
  induction n generalizing k with
  | zero =>
    rw [streak]
    constructor
    · intro hk
      exact ⟨hk, fun i hi => absurd hi (by omega)⟩
    · exact fun h => h.1
  | succ n ih =>
    cases k with
    | zero => simp
    | succ k =>
      rw [streak]
      by_cases hn : outcome n = .ioError
      · rw [if_pos hn, Nat.succ_le_succ_iff, ih, Nat.succ_le_succ_iff]
        apply and_congr_right
        intro hk
        constructor
        · intro h i hi
          cases i with
          | zero => exact hn
          | succ i =>
            have hi := h i (by omega)
            rwa [show n + 1 - 1 - (i + 1) = n - 1 - i by omega]
        · intro h i hi
          have hi := h (i + 1) (by omega)
          rwa [show n + 1 - 1 - (i + 1) = n - 1 - i by omega] at hi
      · rw [if_neg hn]
        apply iff_of_false
        · omega
        · rintro ⟨-, h⟩
          exact hn (h 0 (by omega))

/-- Eleven attempts in a row fail with a `fiber_io_error`. -/
theorem exists_streak_iff : (∃ n, 11 ≤ streak outcome n) ↔
    ∃ n, ∀ i < 11, outcome (n + i) = .ioError := by
  constructor
  · rintro ⟨n, hn⟩
    obtain ⟨hle, h⟩ := streak_le_iff.mp hn
    refine ⟨n - 11, ?_⟩
    intro i hi
    have hi' := h (10 - i) (by omega)
    rwa [show n - 1 - (10 - i) = n - 11 + i by omega] at hi'
  · rintro ⟨n, h⟩
    refine ⟨n + 11, streak_le_iff.mpr ⟨by omega, ?_⟩⟩
    intro i hi
    have hi' := h (10 - i) (by omega)
    rwa [show n + (10 - i) = n + 11 - 1 - i by omega] at hi'

/-! ## The sleeps -/

/-- The time is never less than the one that the loop begins with. -/
theorem le_sleepMsAt {sleepMs : ℕ} (h : sleepMsAt outcome ri n = some sleepMs) : 50 ≤ sleepMs := by
  induction n generalizing sleepMs with
  | zero =>
    rw [sleepMsAt] at h
    exact Nat.le_of_eq (Option.some.inj h)
  | succ n ih =>
    rw [sleepMsAt] at h
    cases hn : sleepMsAt outcome ri n with
    | none =>
      rw [hn] at h
      exact absurd h (by simp)
    | some before =>
      have hbefore := ih hn
      simp only [hn] at h
      cases hout : outcome n with
      | returned => simp [hout, retryStep] at h
      | otherError => simp [hout, retryStep] at h
      | ioError =>
        by_cases hlong : 30 * 1000 < before
        · simp [hout, retryStep, hlong] at h
        · have hpos : 0 < before := by omega
          simp [hout, retryStep, hlong, backOff, hpos] at h
          omega
      | ioTimeoutError =>
        simp [hout, retryStep, backOff] at h
        omega

/-- Whatever the attempts do, the loop sleeps after a `fiber_io_error`. -/
theorem waits (outcome : ℕ → Attempt) (ri : ℕ → ℕ) : Waits outcome ri := by
  intro n sleepMs sleepMs' slept hn hout hstep
  have hlow := le_sleepMsAt hn
  have hpos : 0 < sleepMs := by omega
  rw [hout, retryStep, backOff, if_pos hpos] at hstep
  split at hstep
  · exact absurd hstep (by simp)
  · simp only [RetryStep.again.injEq] at hstep
    refine ⟨_, hstep.2.symm, ?_⟩
    have hquarters : 37 ≤ sleepMs * 3 / 4 := by omega
    omega

/-! ## Giving up -/

/-- Every attempt fails with one of the two errors. -/
def AlwaysFails (outcome : ℕ → Attempt) : Prop :=
  ∀ n, outcome n = .ioError ∨ outcome n = .ioTimeoutError

/-- As long as no streak is longer than ten, the loop goes on, and its time has doubled once for
each attempt of the streak. -/
theorem sleepMsAt_eq (ri : ℕ → ℕ) (hfail : AlwaysFails outcome)
    (h : ∀ m ≤ n, streak outcome m ≤ 10) :
    sleepMsAt outcome ri n = some (50 * 2 ^ streak outcome n) := by
  induction n with
  | zero => rfl
  | succ n ih =>
    have hn := ih fun m hm => h m (by omega)
    rw [sleepMsAt, hn]
    rcases hfail n with hout | hout
    · have hstreak : streak outcome (n + 1) = streak outcome n + 1 := by
        rw [streak, if_pos hout]
      have hle := h (n + 1) (Nat.le_refl _)
      have hshort : ¬30 * 1000 < 50 * 2 ^ streak outcome n := by
        have hpow : 2 ^ streak outcome n ≤ 2 ^ 9 := Nat.pow_le_pow_right (by omega) (by omega)
        omega
      have hpos : 0 < 50 * 2 ^ streak outcome n := by positivity
      simp only [hout, retryStep, backOff, if_neg hshort, if_pos hpos]
      rw [hstreak, pow_succ, Nat.mul_assoc]
    · have hne : ¬outcome n = .ioError := by
        rw [hout]
        decide
      rw [streak, if_neg hne]
      simp only [hout, retryStep, backOff]
      rfl

/-- The error of an attempt is let out behind ten others. -/
theorem letsOut_iff (hfail : AlwaysFails outcome) (h : ∀ m ≤ n, streak outcome m ≤ 10) :
    LetsOut outcome ri n ↔ streak outcome (n + 1) = 11 := by
  have hn := sleepMsAt_eq ri hfail h
  have hle := h n (Nat.le_refl _)
  rw [LetsOut, hn, streak]
  simp only [Option.some.injEq, exists_eq_left']
  rcases hfail n with hout | hout
  · rw [hout, if_pos rfl, retryStep]
    have hiff : 30 * 1000 < 50 * 2 ^ streak outcome n ↔ streak outcome n = 10 := by
      constructor
      · intro hlong
        by_contra hne
        have hpow : 2 ^ streak outcome n ≤ 2 ^ 9 := Nat.pow_le_pow_right (by omega) (by omega)
        omega
      · intro heq
        rw [heq]
        omega
    by_cases hlong : 30 * 1000 < 50 * 2 ^ streak outcome n
    · rw [if_pos hlong]
      exact iff_of_true rfl (by rw [hiff.mp hlong])
    · have hpos : 0 < 50 * 2 ^ streak outcome n := by positivity
      rw [if_neg hlong, backOff, if_pos hpos]
      apply iff_of_false
      · simp
      · intro heq
        exact hlong (hiff.mpr (by omega))
  · rw [hout, if_neg (by decide)]
    exact iff_of_false (by simp [retryStep, backOff]) (by omega)

/-- If every attempt fails, the loop gives up, having slept after every `fiber_io_error` before,
exactly if eleven attempts in a row fail with one. -/
theorem givesUp_iff (outcome : ℕ → Attempt) (ri : ℕ → ℕ) (hfail : AlwaysFails outcome) :
    ((∃ n, LetsOut outcome ri n) ∧ Waits outcome ri) ↔
      ∃ n, ∀ i < 11, outcome (n + i) = .ioError := by
  rw [← exists_streak_iff, and_iff_left (waits outcome ri)]
  constructor
  · rintro ⟨n, hn⟩
    by_contra hno
    have hall : ∀ m ≤ n, streak outcome m ≤ 10 := by
      intro m _
      by_contra hm
      exact hno ⟨m, by omega⟩
    have heleven := (letsOut_iff hfail hall).mp hn
    exact hno ⟨n + 1, by omega⟩
  -- the first streak of eleven
  · intro hexists
    have hfirst := Nat.find_spec hexists
    have hbefore : ∀ m, m < Nat.find hexists → streak outcome m ≤ 10 := by
      intro m hm
      have hno := Nat.find_min hexists hm
      omega
    cases hn : Nat.find hexists with
    | zero =>
      rw [hn, streak] at hfirst
      omega
    | succ n =>
      rw [hn] at hfirst hbefore
      have hle := hbefore n (by omega)
      refine ⟨n, (letsOut_iff hfail fun m hm => hbefore m (by omega)).mpr ?_⟩
      rw [streak] at hfirst ⊢
      split at hfirst
      · next hout =>
        rw [if_pos hout]
        omega
      · omega

/-- The server is down for good. -/
theorem givesUp_down : (∃ n, LetsOut (fun _ => .ioError) (fun _ => 7) n) ∧
    Waits (fun _ => .ioError) (fun _ => 7) :=
  (givesUp_iff _ _ fun _ => Or.inl rfl).mpr ⟨0, fun _ _ => rfl⟩

/-- A server that accepts connections and does not answer. -/
theorem never_givesUp : AlwaysFails (fun _ => .ioTimeoutError) ∧
    ∀ n, ¬LetsOut (fun _ => .ioTimeoutError) (fun _ => 0) n := by
  refine ⟨fun _ => Or.inr rfl, ?_⟩
  intro n
  rintro ⟨sleepMs, -, hstep⟩
  exact absurd hstep (by simp [retryStep, backOff])

end Anon.Epc
