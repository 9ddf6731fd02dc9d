import Anon.BigEndian
import Anon.Lib.Machine
import Anon.Lib.OrderedMap

/-!
# The SQS listener

The processing of messages by `aws_sqs_listener`, from `aws_sqs.cpp`: the fiber of each message,
the delete requests it leaves behind, and the sweep that extends the visibility of the messages in
the keep-alive set. The AWS client takes every request and calls back once for it.

* `MessageFiber`: how far the fiber of a message is, and what its handler has done.
* `Listener`: the keep-alive set, the fibers and the requests.
* `Listener.next`: the steps of the fibers, of the callbacks and of the sweep.
* `sqsMachine`: any interleaving of them.
-/

namespace Anon.Sqs

structure Message where
  receiptHandle : Bytes
  messageId : Bytes
  body : Bytes
  deriving DecidableEq

def visibilityTime : ℤ := 60
def visibilityImmediateRetryTime : ℤ := 5

/-! ## Requests -/

/-- `ChangeMessageVisibilityBatchRequestEntry` -/
structure BatchEntry where
  receiptHandle : Bytes
  visibilityTimeout : ℤ
  id : String
  deriving DecidableEq

/-- What is sent to SQS. -/
inductive SqsRequest
  | changeMessageVisibilityBatch (entries : List BatchEntry)
  | changeMessageVisibility (receiptHandle : Bytes) (visibilityTimeout : ℤ)
  | sendMessage (body : Bytes) (delaySeconds : ℤ)
  | deleteMessage (receiptHandle : Bytes)
  deriving DecidableEq

/-- `entries_v.back().push_back(ent)` -/
def pushBack (entriesV : List (List BatchEntry)) (ent : BatchEntry) : List (List BatchEntry) :=
  match entriesV.getLast? with
  | some entries => entriesV.dropLast ++ [entries ++ [ent]]
  | none => []

/-- The loop of `set_visibility_timeout` over the keep-alive set from the entry `index` on. -/
def entriesFrom (index : ℕ) (entriesV : List (List BatchEntry)) :
    OrderedMap Bytes Bytes → List (List BatchEntry)
  | [] => entriesV
  | it :: rest =>
    let entriesV := if index % 10 = 0 then entriesV ++ [[]] else entriesV
    entriesFrom (index + 1)
      (pushBack entriesV ⟨it.1, visibilityTime, "message_" ++ toString (index + 1)⟩) rest

/-! ## The fibers -/

/-- Which of the two handlers the listener was made with: one that says whether the message is to
be deleted, or one that is given a callback for that. -/
inductive HandlerKind
  | processMsg
  | processMsgDel
  deriving DecidableEq

/-- The exceptions that the fiber of a message tells apart. -/
inductive HandlerException
  | awsThrottleError
  | stdException
  | unknown
  deriving DecidableEq

/-- Where the fiber of a message is. -/
inductive FiberPc
  /-- In front of `add_to_keep_alive`. -/
  | start
  | handler
  /-- The handler has returned `success`. -/
  | returned (success : Bool)
  /-- In the `catch` clause for `aws_throttle_error`. -/
  | throttled
  /-- Behind the `try` statement. -/
  | finish
  | done
  /-- A `catch` clause has thrown. -/
  | escaped
  deriving DecidableEq

structure MessageFiber where
  msg : Message
  pc : FiberPc
  /-- The handler has accepted the message and leaves it to the callback. -/
  accepted : Bool
  /-- The callback was called. -/
  called : Bool
  deriving DecidableEq

structure Listener where
  aliveSet : OrderedMap Bytes Bytes
  /-- The fibers, by the receipts of their messages. -/
  fibers : Bytes → Option MessageFiber
  numFibers : ℤ
  /-- The receipts in delete requests that have not been answered. -/
  deleting : List Bytes
  /-- The requests that were sent, the last one first. -/
  requests : List SqsRequest

namespace Listener

/-- `add_to_keep_alive` -/
def addToKeepAlive (l : Listener) (m : Message) : Listener :=
  { l with aliveSet := l.aliveSet.alter m.receiptHandle fun _ => m.messageId }

/-- `remove_from_keep_alive` -/
def removeFromKeepAlive (l : Listener) (receipt : Bytes) (resetVisibility : Bool)
    (visibilityTimeout : ℤ) : Listener :=
  { l with
    aliveSet := l.aliveSet.erase receipt
    requests :=
      if resetVisibility then .changeMessageVisibility receipt visibilityTimeout :: l.requests
      else l.requests }

/-- `delete_message`, up to its callback. -/
def deleteMessage (l : Listener) (receipt : Bytes) : Listener :=
  { l with deleting := receipt :: l.deleting, requests := .deleteMessage receipt :: l.requests }

/-- `set_visibility_timeout` -/
def setVisibilityTimeout (l : Listener) : Listener :=
  { l with
    requests := (entriesFrom 0 [] l.aliveSet).reverse.map .changeMessageVisibilityBatch ++
      l.requests }

def setFiber (l : Listener) (f : MessageFiber) : Listener :=
  { l with fibers := Function.update l.fibers f.msg.receiptHandle (some f) }

/-- New fibers for the messages that were received. -/
def receive (l : Listener) (messages : List Message) : Listener :=
  messages.foldl (fun l m => l.setFiber ⟨m, .start, false, false⟩)
    { l with numFibers := l.numFibers + messages.length }

/-- What follows the return of the handler. A handler that was given the callback has to use it to
have the message deleted. -/
def afterHandler (l : Listener) (kind : HandlerKind) (f : MessageFiber) : Listener :=
  let receipt := f.msg.receiptHandle
  let success := f.pc = .returned true
  let l := l.setFiber { f with pc := .finish }
  if ¬success then l.removeFromKeepAlive receipt true visibilityImmediateRetryTime
  else
    match kind with
    | .processMsg => l.deleteMessage receipt
    | .processMsgDel => l

/-- The `catch` clause for `aws_throttle_error`: the message is sent again and deleted, if sending
it does not throw. -/
def resend (l : Listener) (f : MessageFiber) (sent : Bool) : Listener :=
  if sent then
    let l := l.setFiber { f with pc := .finish }
    { l with requests := .sendMessage f.msg.body 5 :: l.requests }.deleteMessage
      f.msg.receiptHandle
  else l.setFiber { f with pc := .escaped }

/-- The callback that a handler is given. -/
def del (l : Listener) (f : MessageFiber) (deleteIt : Bool) (visibilityTimeout : ℤ) : Listener :=
  let l := l.setFiber { f with called := true }
  if deleteIt then l.deleteMessage f.msg.receiptHandle
  else l.removeFromKeepAlive f.msg.receiptHandle true visibilityTimeout

/-- The callback of `DeleteMessageAsync`, which does the same for success and failure. -/
def deleted (l : Listener) (receipt : Bytes) : Listener :=
  { l with deleting := l.deleting.erase receipt }.removeFromKeepAlive receipt false 0

end Listener

/-! ## Interleavings -/

/-- The steps of a fiber and its handler. -/
inductive FiberAction
  | addToKeepAlive
  | handlerReturns (success : Bool)
  | handlerThrows (exc : HandlerException)
  | afterHandler
  | resend (sent : Bool)
  | finish
  | del (deleteIt : Bool) (visibilityTimeout : ℤ)

inductive SqsAction
  | receive (messages : List Message)
  | fiber (receipt : Bytes) (a : FiberAction)
  | deleted (receipt : Bytes) (success : Bool)
  | setVisibilityTimeout

/-- When a fiber can take a step. The callback can be called by anyone, as soon as the handler has
been given it. -/
def MessageFiber.canStep (kind : HandlerKind) (f : MessageFiber) : FiberAction → Prop
  | .addToKeepAlive => f.pc = .start
  | .handlerReturns _ | .handlerThrows _ => f.pc = .handler
  | .afterHandler => f.pc = .returned true ∨ f.pc = .returned false
  | .resend _ => f.pc = .throttled
  | .finish => f.pc = .finish
  | .del _ _ => kind = .processMsgDel ∧ f.pc ≠ .start

namespace Listener

def fiberStep (kind : HandlerKind) (l : Listener) (f : MessageFiber) : FiberAction → Listener
  | .addToKeepAlive => (l.setFiber { f with pc := .handler }).addToKeepAlive f.msg
  | .handlerReturns success =>
    l.setFiber { f with
      pc := .returned success, accepted := success && decide (kind = .processMsgDel) }
  | .handlerThrows exc =>
    l.setFiber { f with pc := if exc = .awsThrottleError then .throttled else .finish }
  | .afterHandler => l.afterHandler kind f
  | .resend sent => l.resend f sent
  | .finish => { l.setFiber { f with pc := .done } with numFibers := l.numFibers - 1 }
  | .del deleteIt visibilityTimeout => l.del f deleteIt visibilityTimeout

/-- When a step can be taken. The receipts of received messages are new. -/
def enabled (kind : HandlerKind) (l : Listener) : SqsAction → Prop
  | .receive messages =>
    (messages.map Message.receiptHandle).Nodup ∧
      ∀ m ∈ messages, l.fibers m.receiptHandle = none
  | .fiber receipt a => ∃ f ∈ l.fibers receipt, f.canStep kind a
  | .deleted receipt _ => receipt ∈ l.deleting
  | .setVisibilityTimeout => True

def next (kind : HandlerKind) (l : Listener) : SqsAction → Listener
  | .receive messages => l.receive messages
  | .fiber receipt a =>
    match l.fibers receipt with
    | some f => l.fiberStep kind f a
    | none => l
  | .deleted receipt _ => l.deleted receipt
  | .setVisibilityTimeout => l.setVisibilityTimeout

end Listener

instance MessageFiber.instDecidableCanStep (kind : HandlerKind) (f : MessageFiber)
    (a : FiberAction) : Decidable (f.canStep kind a) :=
  match a with
  | .addToKeepAlive => inferInstanceAs (Decidable (f.pc = .start))
  | .handlerReturns _ | .handlerThrows _ => inferInstanceAs (Decidable (f.pc = .handler))
  | .afterHandler => inferInstanceAs (Decidable (f.pc = .returned true ∨ f.pc = .returned false))
  | .resend _ => inferInstanceAs (Decidable (f.pc = .throttled))
  | .finish => inferInstanceAs (Decidable (f.pc = .finish))
  | .del _ _ => inferInstanceAs (Decidable (kind = .processMsgDel ∧ f.pc ≠ .start))

instance Listener.instDecidableEnabled (kind : HandlerKind) (l : Listener) (a : SqsAction) :
    Decidable (l.enabled kind a) :=
  match a with
  | .receive messages => inferInstanceAs (Decidable (_ ∧ ∀ m ∈ messages, _ = none))
  | .fiber receipt a => inferInstanceAs (Decidable (∃ f ∈ l.fibers receipt, f.canStep kind a))
  | .deleted receipt _ => inferInstanceAs (Decidable (receipt ∈ l.deleting))
  | .setVisibilityTimeout => isTrue trivial

/-- A listener with a handler of the given kind. -/
def sqsMachine (kind : HandlerKind) : Machine Listener SqsAction where
  init := ⟨[], fun _ => none, 0, [], []⟩
  enabled := Listener.enabled kind
  next := Listener.next kind

instance instDecidableSqs (kind : HandlerKind) (l : Listener) (a : SqsAction) :
    Decidable ((sqsMachine kind).enabled l a) :=
  l.instDecidableEnabled kind a

end Anon.Sqs
