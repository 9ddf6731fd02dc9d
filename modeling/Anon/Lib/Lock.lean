import Mathlib.Logic.Function.Basic

/-!
# Holders of a lock

A lock of a program is modelled by its holder, if it has one, and each party stands at a place
`f a`. `Holds lock q f` says that the holder is the one party that stands at a place where the
program has the lock (`q`). The lemmas say what a party's move, with or without taking or
releasing the lock, does to that.
-/

namespace Anon

variable {A P : Type*} {lock : Option A} {q : P → Bool} {f g : A → P} {a b : A} {p : P}

/-- The lock is held by exactly the parties whose place says so. -/
def Holds (lock : Option A) (q : P → Bool) (f : A → P) : Prop :=
  ∀ a, lock = some a ↔ q (f a) = true

theorem Holds.eq_some (h : Holds lock q f) (ha : q (f a) = true) : lock = some a := (h a).mpr ha

/-- At most one party is at a place that has the lock. -/
theorem Holds.unique (h : Holds lock q f) (ha : q (f a) = true) (hb : q (f b) = true) : a = b :=
  Option.some.inj ((h.eq_some ha).symm.trans (h.eq_some hb))

/-- Nobody is at a place that has a free lock. -/
theorem Holds.of_none (h : Holds none q f) (a : A) : q (f a) = false := by
  rw [← Bool.not_eq_true, ← h a]
  simp

theorem Holds.congr (h : Holds lock q f) (hg : ∀ a, q (g a) = q (f a)) : Holds lock q g := by
  intro a
  rw [hg]
  exact h a

/-- What a move of the party `a` does to the lock, from a place with (`had`) or without the lock
to one with (`has`) or without it. -/
def LockStep (lock lock' : Option A) (a : A) (had has : Bool) : Prop :=
  match had, has with
  | false, true => lock = none ∧ lock' = some a
  | true, false => lock' = none
  | _, _ => lock' = lock

variable [DecidableEq A]

/-- A move that neither takes nor releases the lock. -/
theorem Holds.keep (h : Holds lock q f) (hp : q p = q (f a)) :
    Holds lock q (Function.update f a p) := by
  apply h.congr
  intro b
  by_cases hb : b = a
  · rw [hb, Function.update_self, hp]
  · rw [Function.update_of_ne hb]

/-- A move that takes a free lock. -/
theorem Holds.take (h : Holds none q f) (hp : q p = true) :
    Holds (some a) q (Function.update f a p) := by
  intro b
  by_cases hb : b = a
  · simp [hb, hp]
  · rw [Function.update_of_ne hb, h.of_none b]
    simp [Ne.symm hb]

/-- A move that releases the lock. -/
theorem Holds.release (h : Holds lock q f) (ha : q (f a) = true) (hp : q p = false) :
    Holds none q (Function.update f a p) := by
  intro b
  by_cases hb : b = a
  · simp [hb, hp]
  · rw [Function.update_of_ne hb]
    constructor
    · intro hnone
      exact absurd hnone (by simp)
    · intro hqb
      exact absurd (h.unique hqb ha) hb

/-- A move that treats the lock as its places say keeps the holder. -/
theorem Holds.step {lock' : Option A} (h : Holds lock q f)
    (hstep : LockStep lock lock' a (q (f a)) (q p)) : Holds lock' q (Function.update f a p) := by
  cases ha : q (f a) <;> cases hp : q p <;> rw [ha, hp] at hstep
  · rw [hstep]
    exact h.keep (hp.trans ha.symm)
  · rw [hstep.2]
    rw [hstep.1] at h
    exact h.take hp
  · rw [hstep]
    exact h.release ha hp
  · rw [hstep]
    exact h.keep (hp.trans ha.symm)

end Anon
