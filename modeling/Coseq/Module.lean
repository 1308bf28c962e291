import Coseq.Types

/-! The helpers of the scheduler, function by function: events and their queues, the pending list,
the source record, the creation, resumption and reaping of fibers, and the delivery of a reply. -/

namespace Coseq

def makeEv (type : EvType) (seqIdx reqId : Nat) (requester : Origin) (result : Result) (msg : Bytes)
    (ok : Alloc) : Option Ev :=
  if ok .event then
    some
      { type := type
        seqIdx := seqIdx
        reqId := reqId
        requester := requester
        result := result
        category := 0
        clientId := 0
        msg := if ok .eventMsg then msg else []
        serial := 0 }
  else none

namespace Module

variable (m : Module)

def log (x : Obs) : Module := { m with trace := m.trace ++ [x] }

def setFiber (a : FiberRef) (f : Fiber) : Module :=
  { m with fiber := Function.update m.fiber a f }

/-- The part of `post` under the module's mutex. -/
def enqueue (e : Ev) : Module :=
  { m with
    inbox := m.inbox ++ [{ e with serial := m.posted }]
    posted := m.posted + 1
    trace := m.trace ++ [.arrived { e with serial := m.posted }] }

def deferEv (e : Ev) : Module := { m with deferred := m.deferred ++ [e] }

/-- The events of the module, in the order in which the scheduler is to take them. -/
def queue : List Ev := m.deferred ++ m.batch ++ m.inbox

end Module

def pendingAdd (m : Module) (reqId : Nat) (f : FiberRef) (ok : Alloc) : Module :=
  if ok .pendingEntry then { m with pending := ⟨reqId, f⟩ :: m.pending } else m.log (.lost f reqId)

def pendingPeek (pending : List Pending) (reqId : Nat) : Option FiberRef :=
  (pending.find? fun p => p.reqId == reqId).map Pending.f

def pendingTake (pending : List Pending) (reqId : Nat) : List Pending :=
  pending.eraseP fun p => p.reqId == reqId

/-! ### Fibers -/

/-- `set_src`: the new buffer is `msg` over the old bytes, cut to the old capacity when `realloc`
fails. -/
def Fiber.setSrc (f : Fiber) (msg : Bytes) (r : Result) (threadIdx seqIdx clientId reqId : Nat)
    (ok : Alloc) : Fiber :=
  let size := if f.srcBuf.length < msg.length ∧ ok .srcBuf = false then f.srcBuf.length else msg.length
  { f with
    srcBuf := msg.take size ++ f.srcBuf.drop size
    src :=
      { threadIdx := threadIdx
        seqIdx := seqIdx
        reqId := reqId
        result := r
        clientId := clientId
        size := size } }

/-- What `resume` clears, and what the fiber itself does first when it continues:
`coseq_wait_reply` decrements `async_outstanding` after its `swapcontext`. -/
def Fiber.wake (f : Fiber) : Fiber :=
  { f with
    waitingTimer := false
    waitingReply := false
    waitingAny := false
    asyncOutstanding := match f.ctx with
      | .waitReply _ => f.asyncOutstanding - 1
      | _ => f.asyncOutstanding }

/-- The history lines of a resumption: a fiber parked in a request or in `coseq_wait_reply` returns
from that call with its source record. -/
def Fiber.wakeObs (f : Fiber) (a : FiberRef) (why : Wake) : List Obs :=
  match f.ctx with
  | .entry => []
  | .request kind =>
      [.resumed a why, .returned a kind why false f.src.reqId f.src.result f.message]
  | .waitReply gather =>
      [.resumed a why, .returned a .async why gather f.src.reqId f.src.result f.message]
  | .waitTimeout => [.resumed a why]

def newFiber (m : Module) (fn : Fn) (seqIdx : Nat) (replyTo : Origin) (replyReqId : Nat) (msg : Bytes)
    (r : Result) (threadIdx clientId : Nat) (ok : Alloc) : Option (Module × FiberRef) :=
  if ok .fiberBlock && ok .stack && ok .context then
    let f := { Fiber.blank with
      fn := fn
      seqIdx := seqIdx
      replyTo := replyTo
      replyReqId := replyReqId }
    let a := m.nextFiber
    some
      ({ m.setFiber a (f.setSrc msg r threadIdx seqIdx clientId replyReqId ok) with
          nextFiber := a + 1
          fibers := a :: m.fibers }, a)
  else none

def resume (m : Module) (a : FiberRef) (why : Wake) : Module :=
  { m.setFiber a (m.fiber a).wake with
    current := some a
    trace := m.trace ++ (m.fiber a).wakeObs a why }

def handleReply (m : Module) (e : Ev) (ok : Alloc) : Module :=
  match pendingPeek m.pending e.reqId with
  | none => m
  | some a =>
      let m := { m with pending := pendingTake m.pending e.reqId }
      let f := m.fiber a
      if a ∉ m.fibers then
        -- the pending entry outlived its fiber: the next read is of freed memory
        { m.log (.lost a e.reqId) with phase := .undefined }
      else if f.waitingReply && f.waitReqId == e.reqId then
        resume (m.setFiber a (f.setSrc e.msg e.result e.requester.u8 f.seqIdx 0 e.reqId ok)) a .reply
      else if f.waitingAny then
        resume (m.setFiber a (f.setSrc e.msg e.result e.requester.u8 f.seqIdx 0 e.reqId ok)) a .reply
      else if ok .replyRec then
        m.setFiber a { f with
          rq := f.rq ++ [⟨e.reqId, e.result, if ok .replyMsg then e.msg else []⟩] }
      else m.log (.lost a e.reqId)

def reapDone (m : Module) : Module :=
  { m with
    fibers := m.fibers.filter fun a => !(m.fiber a).done
    lockedBy := m.lockedBy.filter fun a => !(a ∈ m.fibers && (m.fiber a).done) }

end Coseq
