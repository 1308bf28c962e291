import Coseq.Module

/-! `sched_loop`, cut at the points where the thread leaves its mutex, reads the clock, or returns
from a fiber: each call of `sched` is the stretch of code up to the next such point. -/

namespace Coseq

/-- The splice at the top of the loop. -/
def mergeDeferred (m : Module) : Module :=
  if m.lockedBy = none then { m with inbox := m.deferred ++ m.inbox, deferred := [] } else m

/-- The scan for the nearest deadline. -/
def nearest (m : Module) : Option Timespec :=
  m.fibers.foldl (fun best a =>
    let f := m.fiber a
    if !f.waitingTimer then best
    else if m.lockedBy ≠ none ∧ some a ≠ m.lockedBy then best
    else match best with
      | none => some f.deadline
      | some t => if tsLt f.deadline t then some f.deadline else best) none

/-- The code between the condition wait and the unlock. -/
def takeBatch (m : Module) : Module :=
  if m.stop then { m with phase := .stopped }
  else { m with batch := m.inbox, inbox := [], phase := .clock }

/-- The top of the loop: `pthread_cond_wait` gives the mutex back only when the inbox is empty. -/
def enterWait (m : Module) : Module :=
  if m.inbox = [] ∧ m.stop = false then { m with phase := .waiting (nearest m) } else takeBatch m

/-- One turn of the timer pass. -/
def timerTurn (m : Module) (now : Timespec) (a : FiberRef) (ok : Alloc) : Module :=
  let f := m.fiber a
  if f.waitingTimer && !tsLt now f.deadline then
    if !(m.lockedBy ≠ none ∧ some a ≠ m.lockedBy) then
      if f.waitingReply then
        resume ({ m with pending := pendingTake m.pending f.waitReqId }.setFiber a
          (f.setSrc [] .reqTimeout 0 f.seqIdx 0 f.waitReqId ok)) a (.expired now)
      else resume m a (.timer now)
    else m
  else m

def startSeq (m : Module) (e : Ev) (ok : Alloc) : Module :=
  if e.seqIdx ≥ m.nrSeq then m.log (.rejected e.requester e.reqId e.serial)
  else
    match newFiber m (.seq e.seqIdx) e.seqIdx e.requester e.reqId e.msg .ignore e.requester.u8 0 ok with
    | none => m.log (.notStarted e.requester e.reqId e.serial)
    | some (m, a) => resume (m.log (.started a e.requester e.reqId e.serial)) a .reply

def startNotify (m : Module) (e : Ev) (ok : Alloc) : Module :=
  if m.recvNotify then
    match newFiber m .recvNotify 0 .external 0 e.msg .success e.requester.u8 e.clientId ok with
    | none => m
    | some (m, a) => resume (m.log (.notified a e.serial)) a .reply
  else m

/-- One turn of the event loop. -/
def dispatch (m : Module) (e : Ev) (ok : Alloc) : Module :=
  if m.lockedBy ≠ none ∧ e.type ≠ .notify then
    if e.type = .reply ∧ pendingPeek m.pending e.reqId = m.lockedBy then handleReply m e ok
    else m.deferEv e
  else
    match e.type with
    | .start => startSeq m e ok
    | .reply => handleReply m e ok
    | .notify => startNotify m e ok

def sched (m : Module) (now : Timespec) (ok : Alloc) : Module :=
  match m.phase with
  | .top => enterWait (mergeDeferred m)
  | .waiting _ => takeBatch m
  | .clock => { m with phase := .timers now m.fibers }
  | .timers _ [] => { m with phase := .events }
  | .timers t (a :: rest) => timerTurn { m with phase := .timers t rest } t a ok
  | .events =>
      match m.batch with
      | [] => { reapDone m with phase := .top }
      | e :: rest => dispatch { m with batch := rest } e ok
  | .stopped => m
  | .undefined => m

end Coseq
