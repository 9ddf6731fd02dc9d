import Anon.Fiber.PipeSweep
import Anon.Lib.DoublyLinked

/-!
# The links of the pipes

The list that begins with `first_`, as the code keeps it: every pipe has `next_` and `prev_`, the
constructor and the destructor write them, both phases of a sweep go through them, and the second
phase uses `next_` for its own list `timed_out`, too. `Anon.Fiber.PipeSweep` is about the pipes as a
list; here the state of a sweep is without its lists (`SweepState.forget`), and the links are all
that there is.

* `detachLoop`, `expireLoop`: the loops of the two phases.
* `linkMachine`: the machine of `Anon.Fiber.PipeSweep`, with links.
-/

namespace Anon.Fiber.PipeSweep

variable {P F : Type}

/-- Everything but the lists. -/
def SweepState.forget (s : SweepState P F) : SweepState P F := { s with list := [], timedOut := [] }

structure LinkState (P F : Type) where
  /-- Its lists are empty. -/
  base : SweepState P F
  /-- `next_`, `prev_` and `first_`. -/
  links : Links P
  /-- The local `pipe` of a second phase that has come to the fibers it resumes. -/
  loop : Sweep → Option P
  /-- How many pipes were made. -/
  made : ℕ
  /-- A loop over the list has not come to its end. -/
  lost : Bool

variable [DecidableEq P] [DecidableEq F]

/-- The loop of the first phase, with the number of times that it may test its condition. -/
def detachLoop (links : Links P) (sweep : Sweep) :
    ℕ → Option P → SweepState P F → Option (SweepState P F × Bool)
  | 0, _, _ => none
  | _ + 1, none, s => some (s, true)
  | fuel + 1, some pipe, s =>
    if (s.pipe pipe).due sweep then
      if (s.pipe pipe).registered then
        detachLoop links sweep fuel (links.next pipe) (s.detach sweep pipe)
      else some ({ s with detachments := s.detachment sweep pipe :: s.detachments }, false)
    else detachLoop links sweep fuel (links.next pipe) s

/-- The loop of the second phase under `list_mutex_`, which moves pipes to the list `timedOut`. -/
def expireLoop (expires : P → Bool) :
    ℕ → Option P → Links P → Option P → Option (Links P × Option P)
  | 0, _, _, _ => none
  | _ + 1, none, links, timedOut => some (links, timedOut)
  | fuel + 1, some pipe, links, timedOut =>
    let next := links.next pipe
    if expires pipe then
      expireLoop expires fuel next ((links.unlink pipe).setNext pipe timedOut) (some pipe)
    else expireLoop expires fuel next links timedOut

namespace LinkState

variable (c : LinkState P F)

/-- The pipes that a loop over the list visits. -/
def pipes : List P := Links.follow c.links.next c.made c.links.first

def enabled : SweepAction P F → Prop
  | .timeOut p sweep => c.loop sweep = some p
  | x => c.base.enabled x

/-- What an action does to everything but the links. -/
def stepBase (x : SweepAction P F) : LinkState P F := { c with base := (c.base.next x).forget }

def next : SweepAction P F → LinkState P F
  | .construct p =>
    { c.stepBase (.construct p) with links := c.links.pushFront p, made := c.made + 1 }
  | .destroy p => { c.stepBase (.destroy p) with links := c.links.unlink p }
  | .firstPhase ct orhibernating =>
    let sweep := ⟨c.base.nextSweep, ct, orhibernating⟩
    let s := { c.base with nextSweep := c.base.nextSweep + 1 }
    match detachLoop c.links sweep (c.made + 1) c.links.first s with
    | some (s, true) => { c with base := { s with sweeps := sweep :: s.sweeps } }
    | some (s, false) => { c with base := s }
    | none => { c with lost := true }
  | .secondPhase sweep =>
    match expireLoop (c.base.expires sweep) (c.made + 1) c.links.first c.links none with
    | some (links, timedOut) =>
      { c with
        base := { c.base with sweeps := c.base.sweeps.erase sweep }
        links := links
        loop := Function.update c.loop sweep timedOut }
    | none => { c with lost := true }
  | .timeOut p sweep =>
    -- the pipe is linked to itself before its fiber runs, and destroys it
    { c.stepBase (.timeOut p sweep) with
      links := c.links.selfLink p
      loop := Function.update c.loop sweep (c.links.next p) }
  | x => c.stepBase x

instance [Fintype P] [Fintype F] (x : SweepAction P F) : Decidable (c.enabled x) :=
  match x with
  | .timeOut p sweep => inferInstanceAs (Decidable (c.loop sweep = some p))
  | .construct p => inferInstanceAs (Decidable (c.base.enabled (.construct p)))
  | .destroy p => inferInstanceAs (Decidable (c.base.enabled (.destroy p)))
  | .limitIoBlockTime p seconds =>
    inferInstanceAs (Decidable (c.base.enabled (.limitIoBlockTime p seconds)))
  | .setHibernating p hibernating =>
    inferInstanceAs (Decidable (c.base.enabled (.setHibernating p hibernating)))
  | .sleepUntil f p now => inferInstanceAs (Decidable (c.base.enabled (.sleepUntil f p now)))
  | .epollCtl f => inferInstanceAs (Decidable (c.base.enabled (.epollCtl f)))
  | .epollWait p => inferInstanceAs (Decidable (c.base.enabled (.epollWait p)))
  | .ioAvail p => inferInstanceAs (Decidable (c.base.enabled (.ioAvail p)))
  | .firstPhase ct orhibernating =>
    inferInstanceAs (Decidable (c.base.enabled (.firstPhase ct orhibernating)))
  | .secondPhase sweep => inferInstanceAs (Decidable (c.base.enabled (.secondPhase sweep)))

end LinkState

/-- There is no pipe. -/
def linkMachine : Machine (LinkState P F) (SweepAction P F) where
  init :=
    { base := sweepMachine.init
      links := ⟨fun _ => none, fun _ => none, none⟩
      loop := fun _ => none
      made := 0
      lost := false }
  enabled := LinkState.enabled
  next := LinkState.next

instance [Fintype P] [Fintype F] (c : LinkState P F) (x : SweepAction P F) :
    Decidable (linkMachine.enabled c x) :=
  inferInstanceAs (Decidable (c.enabled x))

/-- The condition `Careful`, for the pipes that the links lead to. -/
def CarefulLinks (c : LinkState P F) : SweepAction P F → Prop
  | .firstPhase ct orhibernating =>
    ∀ p ∈ c.pipes, (c.base.pipe p).due ⟨c.base.nextSweep, ct, orhibernating⟩ = true →
      (c.base.pipe p).attached = true
  | x => Careful c.base x

instance (c : LinkState P F) (x : SweepAction P F) : Decidable (CarefulLinks c x) :=
  match x with
  | .firstPhase _ _ => List.decidableBAll _ _
  | .construct p => inferInstanceAs (Decidable (Careful c.base (.construct p)))
  | .destroy p => inferInstanceAs (Decidable (Careful c.base (.destroy p)))
  | .limitIoBlockTime p seconds =>
    inferInstanceAs (Decidable (Careful c.base (.limitIoBlockTime p seconds)))
  | .setHibernating p hibernating =>
    inferInstanceAs (Decidable (Careful c.base (.setHibernating p hibernating)))
  | .sleepUntil f p now => inferInstanceAs (Decidable (Careful c.base (.sleepUntil f p now)))
  | .epollCtl f => inferInstanceAs (Decidable (Careful c.base (.epollCtl f)))
  | .epollWait p => inferInstanceAs (Decidable (Careful c.base (.epollWait p)))
  | .ioAvail p => inferInstanceAs (Decidable (Careful c.base (.ioAvail p)))
  | .secondPhase sweep => inferInstanceAs (Decidable (Careful c.base (.secondPhase sweep)))
  | .timeOut p sweep => inferInstanceAs (Decidable (Careful c.base (.timeOut p sweep)))

end Anon.Fiber.PipeSweep
