import Anon.Sqs.Listener

/-!
# The receive loop of the SQS listener

`aws_sqs_listener::start_listen`, its callback and the fibers that it starts, and the life of the
listener. The client calls back once for each request; the callback starts a fiber for each message
and, unless one message is processed at a time, a fiber that listens again. With one message at a
time, listening again is left to the fiber of the message.

* `Callback`: what is left to do for a request that was answered.
* `ReceiveLoop`: the listener of `Anon.Sqs.Listener`, with the requests, callbacks and fibers that
  keep it listening.
* `ReceiveLoop.next`: their steps.
* `receiveMachine`: any interleaving of them.
-/

namespace Anon.Sqs

def maxInFlightFibers : ℤ := 1000

/-- The errors in a row after which the callback gives up. -/
def consecutiveErrorsLimit : ℕ := 1000

/-- A callback that has handled its outcome, and has not come to the end. -/
inductive Callback
  /-- The request has failed: `msleep` comes first. -/
  | failed
  | received (numMessages : ℕ)
  deriving DecidableEq

structure ReceiveLoop where
  listener : Listener
  /-- The calls of `ReceiveMessageAsync` that have not been called back. -/
  receiving : ℕ
  callbacks : List Callback
  /-- The callbacks that wait until fewer messages are in flight. -/
  stalled : ℕ
  /-- The fibers that will call `start_listen`. -/
  restarting : ℕ
  consecutiveErrors : ℕ
  exitNow : Bool
  /-- The references that the fibers of messages hold to the listener. -/
  references : ℕ
  /-- The last reference was dropped: a `weak_ptr` cannot be locked any more. -/
  released : Bool

namespace ReceiveLoop

/-- `start_listen`, up to its callback. -/
def startListen (s : ReceiveLoop) : ReceiveLoop := { s with receiving := s.receiving + 1 }

/-- The fiber that calls `start_listen`. -/
def restart (s : ReceiveLoop) : ReceiveLoop :=
  let s := { s with restarting := s.restarting - 1 }
  if s.released then s else s.startListen

/-- The callback, for a request that has failed. -/
def receiveFailed (s : ReceiveLoop) : ReceiveLoop :=
  let s := { s with receiving := s.receiving - 1 }
  if s.released then s
  else
    { s with consecutiveErrors := s.consecutiveErrors + 1, callbacks := .failed :: s.callbacks }

/-- The callback, for a request that has succeeded; `_continue_after_timeout` is asked if there are
no messages. -/
def received (s : ReceiveLoop) (messages : List Message) (continueAfterTimeout : Bool) :
    ReceiveLoop :=
  let s := { s with receiving := s.receiving - 1 }
  if s.released then s
  else
    let s :=
      { s with consecutiveErrors := 0, callbacks := .received messages.length :: s.callbacks }
    if 0 < messages.length then { s with listener := s.listener.receive messages }
    else if !continueAfterTimeout then { s with exitNow := true }
    else s

/-- The end of the callback. -/
def listenAgain (single : Bool) (s : ReceiveLoop) (c : Callback) : ReceiveLoop :=
  let s := { s with callbacks := s.callbacks.erase c }
  if s.consecutiveErrors < consecutiveErrorsLimit then
    if (c = .failed ∨ single = false ∨ c = .received 0) ∧ s.exitNow = false then
      if s.listener.numFibers ≥ maxInFlightFibers then { s with stalled := s.stalled + 1 }
      else { s with restarting := s.restarting + 1 }
    else s
  else s

/-- A callback that has waited finds that fewer messages are in flight. -/
def unstall (s : ReceiveLoop) : ReceiveLoop :=
  { s with stalled := s.stalled - 1, restarting := s.restarting + 1 }

/-- The steps after which `start_listen` is called, if one message is processed at a time: a handler
of the first kind has returned, or the callback that a handler was given is called. -/
def listensAfter (kind : HandlerKind) : FiberAction → Bool
  | .afterHandler => decide (kind = .processMsg)
  | .del _ _ => true
  | _ => false

/-- What a step of a message's fiber does to the references to the listener. -/
def referencesAfter (references : ℕ) : FiberAction → ℕ
  | .addToKeepAlive => references + 1
  | .finish => references - 1
  | .resend sent => if sent then references else references - 1
  | _ => references

/-- A step of a message's fiber or of its handler. -/
def messageStep (kind : HandlerKind) (single : Bool) (s : ReceiveLoop) (f : MessageFiber)
    (a : FiberAction) : ReceiveLoop :=
  let s :=
    { s with
      listener := s.listener.fiberStep kind f a
      references := referencesAfter s.references a }
  if listensAfter kind a ∧ single = true ∧ s.exitNow = false then s.startListen else s

/-- A fiber of a message that finds the listener gone. -/
def abandon (s : ReceiveLoop) (f : MessageFiber) : ReceiveLoop :=
  { s with listener := s.listener.setFiber { f with pc := .done } }

/-- The destructor, up to where it waits for the fibers. -/
def release (s : ReceiveLoop) : ReceiveLoop := { s with released := true, exitNow := true }

end ReceiveLoop

/-! ## Interleavings -/

inductive ReceiveAction
  | restart
  | receiveFailed
  | received (messages : List Message) (continueAfterTimeout : Bool)
  | listenAgain (c : Callback)
  | unstall
  | message (receipt : Bytes) (a : FiberAction)
  | abandon (receipt : Bytes)
  | deleted (receipt : Bytes) (success : Bool)
  | setVisibilityTimeout
  | release

namespace ReceiveLoop

/-- When a step can be taken. Whoever holds a reference may drop it, so the listener can be released
as soon as no callback and no fiber holds one. -/
def enabled (kind : HandlerKind) (s : ReceiveLoop) : ReceiveAction → Prop
  | .restart => 0 < s.restarting
  | .receiveFailed => 0 < s.receiving
  | .received messages _ =>
    0 < s.receiving ∧ s.listener.enabled kind (.receive messages)
  | .listenAgain c => c ∈ s.callbacks
  | .unstall => 0 < s.stalled ∧ s.listener.numFibers < maxInFlightFibers
  | .message receipt a => s.released = false ∧ s.listener.enabled kind (.fiber receipt a)
  | .abandon receipt => s.released = true ∧ ∃ f ∈ s.listener.fibers receipt, f.pc = .start
  | .deleted receipt success =>
    s.released = false ∧ s.listener.enabled kind (.deleted receipt success)
  | .setVisibilityTimeout => s.released = false
  | .release => s.released = false ∧ s.references = 0 ∧ s.callbacks = [] ∧ s.stalled = 0

def next (kind : HandlerKind) (single : Bool) (s : ReceiveLoop) : ReceiveAction → ReceiveLoop
  | .restart => s.restart
  | .receiveFailed => s.receiveFailed
  | .received messages continueAfterTimeout => s.received messages continueAfterTimeout
  | .listenAgain c => s.listenAgain single c
  | .unstall => s.unstall
  | .message receipt a =>
    match s.listener.fibers receipt with
    | some f => s.messageStep kind single f a
    | none => s
  | .abandon receipt =>
    match s.listener.fibers receipt with
    | some f => s.abandon f
    | none => s
  | .deleted receipt _ => { s with listener := s.listener.deleted receipt }
  | .setVisibilityTimeout => { s with listener := s.listener.setVisibilityTimeout }
  | .release => s.release

instance instDecidableEnabled (kind : HandlerKind) (s : ReceiveLoop) (a : ReceiveAction) :
    Decidable (s.enabled kind a) :=
  match a with
  | .restart => inferInstanceAs (Decidable (0 < s.restarting))
  | .receiveFailed => inferInstanceAs (Decidable (0 < s.receiving))
  | .received messages _ =>
    inferInstanceAs (Decidable (0 < s.receiving ∧ s.listener.enabled kind (.receive messages)))
  | .listenAgain c => inferInstanceAs (Decidable (c ∈ s.callbacks))
  | .unstall =>
    inferInstanceAs (Decidable (0 < s.stalled ∧ s.listener.numFibers < maxInFlightFibers))
  | .message receipt a =>
    inferInstanceAs (Decidable (s.released = false ∧ s.listener.enabled kind (.fiber receipt a)))
  | .abandon receipt =>
    inferInstanceAs (Decidable (s.released = true ∧ ∃ f ∈ s.listener.fibers receipt, _ = _))
  | .deleted receipt success =>
    inferInstanceAs
      (Decidable (s.released = false ∧ s.listener.enabled kind (.deleted receipt success)))
  | .setVisibilityTimeout => inferInstanceAs (Decidable (s.released = false))
  | .release =>
    inferInstanceAs
      (Decidable (s.released = false ∧ s.references = 0 ∧ s.callbacks = [] ∧ s.stalled = 0))

end ReceiveLoop

/-- A listener with a handler of the given kind that has been started; `single` is
`_single_concurrent_message`. -/
def receiveMachine (kind : HandlerKind) (single : Bool) : Machine ReceiveLoop ReceiveAction where
  init := {
    listener := (sqsMachine kind).init
    receiving := 0, callbacks := [], stalled := 0, restarting := 1
    consecutiveErrors := 0, exitNow := false, references := 0, released := false }
  enabled := ReceiveLoop.enabled kind
  next := ReceiveLoop.next kind single

instance instDecidableReceive (kind : HandlerKind) (single : Bool) (s : ReceiveLoop)
    (a : ReceiveAction) : Decidable ((receiveMachine kind single).enabled s a) :=
  s.instDecidableEnabled kind a

end Anon.Sqs
