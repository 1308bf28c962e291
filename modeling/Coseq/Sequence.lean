import Coseq.Scheduler

/-! The calls a running sequence makes. A sequence is arbitrary code, so it is modelled by the calls
themselves: whenever a fiber runs, any of them may come next. What a call does outside its own
module (a post, a delivery to the external mailbox, a new value of the client id counter) is its
`Effect`. -/

namespace Coseq

inductive Effect where
  | none
  | post (moduleIdx : Nat) (e : Option Ev)
  | extDeliver (reqId : Nat) (r : Result) (msg : Bytes)
  | nextClientId (id : Nat)

/-- `gatherNext` is the end of the callback of `coseq_gather`, `notifyNext` one turn of the loop of
`coseq_notify`, and `ret` the return of the sequence to `fiber_entry`. -/
inductive Call where
  | request (moduleIdx seqIdx : Nat) (msg : Bytes)
  | requestTimeout (moduleIdx seqIdx : Nat) (msg : Bytes) (timeoutMsec : Nat)
  | requestAsync (moduleIdx seqIdx : Nat) (msg : Bytes)
  | send (moduleIdx seqIdx : Nat) (msg : Bytes)
  | waitReply
  | gather
  | gatherNext
  | reply (result : Result) (msg : Bytes)
  | waitTimeout (msec : Nat)
  | regNotify (category : Nat)
  | unregNotify (category clientId : Nat)
  | notify (category : Nat) (msg : Bytes)
  | notifyNext
  | lock
  | unlock
  | ret
  deriving DecidableEq

/-- `next_req_id` as the code holds it. -/
def Module.reqId (m : Module) : Nat := m.nextReqId % 2 ^ 32

/-- `m->next_req_id++` and the trace line of the request. -/
def takeReqId (m : Module) (a : FiberRef) (kind : ReqKind) (moduleIdx seqIdx : Nat) : Module :=
  { m with
    nextReqId := m.nextReqId + 1
    trace := m.trace ++ [.issued a kind m.reqId moduleIdx seqIdx] }

/-- The event of a request. -/
def startEv (m : Module) (moduleIdx seqIdx : Nat) (msg : Bytes) (ok : Alloc) : Effect :=
  .post moduleIdx (makeEv .start seqIdx m.reqId (.module m.idx) .ignore msg ok)

def requestCommon (m : Module) (a : FiberRef) (kind : ReqKind) (moduleIdx seqIdx : Nat) (msg : Bytes)
    (ok : Alloc) : Module × Effect :=
  let rid := m.reqId
  let f := m.fiber a
  let f := { f with waitingReply := true, waitReqId := rid, ctx := .request kind }
  let f := match kind with
    | .timed deadline => { f with waitingTimer := true, deadline := deadline }
    | _ => f
  let m' := pendingAdd (takeReqId m a kind moduleIdx seqIdx) rid a ok
  ({ m'.setFiber a f with current := none }, startEv m moduleIdx seqIdx msg ok)

def request (m : Module) (a : FiberRef) (moduleIdx seqIdx : Nat) (msg : Bytes) (ok : Alloc) :
    Module × Effect :=
  requestCommon m a .request moduleIdx seqIdx msg ok

def requestTimeout (m : Module) (a : FiberRef) (moduleIdx seqIdx : Nat) (msg : Bytes)
    (timeoutMsec : Nat) (now : Timespec) (ok : Alloc) : Module × Effect :=
  requestCommon m a (.timed (tsAddMs now timeoutMsec)) moduleIdx seqIdx msg ok

def requestAsync (m : Module) (a : FiberRef) (moduleIdx seqIdx : Nat) (msg : Bytes) (ok : Alloc) :
    Module × Effect :=
  let f := m.fiber a
  let m' := pendingAdd (takeReqId m a .async moduleIdx seqIdx) m.reqId a ok
  (m'.setFiber a { f with asyncOutstanding := f.asyncOutstanding + 1 },
    startEv m moduleIdx seqIdx msg ok)

def send (m : Module) (a : FiberRef) (moduleIdx seqIdx : Nat) (msg : Bytes) (ok : Alloc) :
    Module × Effect :=
  (takeReqId m a .send moduleIdx seqIdx, startEv m moduleIdx seqIdx msg ok)

/-! ### Taking replies -/

/-- `coseq_wait_reply` found nothing to wait for: it returns `NULL`, and the `coseq_gather` loop that
called it returns its counter. -/
def noReply (m : Module) (a : FiberRef) (gather : Bool) : Module :=
  let f := m.fiber a
  let m := m.log (.noReply a)
  match gather, f.gathers with
  | true, n :: rest => (m.setFiber a { f with gathers := rest }).log (.gathered a n)
  | _, _ => m

/-- The record after the head of the reply queue is taken as the source. -/
def Fiber.dequeued (f : Fiber) (rr : ReplyRec) (rest : List ReplyRec) (ok : Alloc) : Fiber :=
  { { f with rq := rest }.setSrc rr.msg rr.result 0 f.seqIdx 0 rr.reqId ok with
    asyncOutstanding := f.asyncOutstanding - 1 }

def takeQueued (m : Module) (a : FiberRef) (gather : Bool) (rr : ReplyRec) (rest : List ReplyRec)
    (ok : Alloc) : Module :=
  let f := (m.fiber a).dequeued rr rest ok
  (m.setFiber a f).log (.returned a .async .queued gather f.src.reqId f.src.result f.message)

/-- `coseq_wait_reply`. -/
def waitReply (m : Module) (a : FiberRef) (gather : Bool) (ok : Alloc) : Module :=
  let f := m.fiber a
  if f.asyncOutstanding = 0 ∧ f.rq = [] then noReply m a gather
  else
    match f.rq with
    | rr :: rest => takeQueued m a gather rr rest ok
    | [] =>
        { m.setFiber a { f with waitingAny := true, ctx := .waitReply gather } with current := none }

/-- `coseq_gather` up to its first reply. -/
def gather (m : Module) (a : FiberRef) (ok : Alloc) : Module :=
  let f := m.fiber a
  waitReply ((m.setFiber a { f with gathers := 0 :: f.gathers }).log (.gathering a)) a true ok

/-- The callback has returned: `n++` and the next `coseq_wait_reply`. -/
def gatherNext (m : Module) (a : FiberRef) (ok : Alloc) : Option Module :=
  let f := m.fiber a
  match f.gathers with
  | n :: rest => some (waitReply (m.setFiber a { f with gathers := (n + 1) :: rest }) a true ok)
  | [] => none

def reply (m : Module) (a : FiberRef) (result : Result) (msg : Bytes) (ok : Alloc) : Module × Effect :=
  let f := m.fiber a
  let m' := m.log (.replied a f.replyTo f.replyReqId result msg)
  match f.replyTo with
  | .external => (m', .extDeliver f.replyReqId result msg)
  | .module idx =>
      (m', .post idx (makeEv .reply 0 f.replyReqId (.module m.idx) result msg ok))

def waitTimeout (m : Module) (a : FiberRef) (msec : Nat) (now : Timespec) : Module :=
  { m.setFiber a { m.fiber a with
      waitingTimer := true
      deadline := tsAddMs now msec
      ctx := .waitTimeout } with
    current := none }

/-- `coseq_reg_notify`, given the instance's `next_client_id`. The id is taken before the allocation
that may fail. -/
def regNotify (m : Module) (a : FiberRef) (category nextClientId : Nat) (ok : Alloc) : Module × Effect :=
  let f := m.fiber a
  if f.replyTo = .external then (m, .none)
  else
    let id := if nextClientId = 255 then 0 else nextClientId
    if ok .notifyClient then
      ({ m with notifyClients := ⟨category, f.replyTo, id⟩ :: m.notifyClients }.log
        (.registered a category id f.replyTo), .nextClientId (id + 1))
    else (m, .nextClientId (id + 1))

def unregNotify (m : Module) (a : FiberRef) (category clientId : Nat) : Module :=
  let hit := fun nc : NotifyClient => nc.category == category && nc.clientId == clientId
  if m.notifyClients.any hit then
    { m with notifyClients := m.notifyClients.eraseP hit }.log (.unregistered a category clientId)
  else m

def notify (m : Module) (a : FiberRef) (category : Nat) (msg : Bytes) : Module :=
  m.setFiber a { m.fiber a with notifying := some ⟨category, msg, 0, m.notifyClients⟩ }

/-- One turn of the loop of `coseq_notify`: skip a listener of another category, post to one of this
category, or return at the end of the list. -/
def notifyNext (m : Module) (a : FiberRef) (l : NotifyLoop) (ok : Alloc) : Module × Effect :=
  let f := m.fiber a
  match l.rest with
  | [] => ((m.setFiber a { f with notifying := none }).log (.published a l.category l.n), .none)
  | nc :: rest =>
      if nc.category ≠ l.category then
        (m.setFiber a { f with notifying := some { l with rest := rest } }, .none)
      else
        let e := (makeEv .notify 0 0 (.module m.idx) .success l.msg ok).map fun e =>
          { e with category := l.category, clientId := nc.clientId }
        (m.setFiber a { f with notifying := some { l with rest := rest, n := l.n + 1 } },
          match nc.listenerModule with
          | .external => .none
          | .module idx => .post idx e)

def lock (m : Module) (a : FiberRef) : Module := { m.log (.locked a) with lockedBy := some a }

def unlock (m : Module) (a : FiberRef) : Module :=
  if m.lockedBy = some a then { m.log (.unlocked a) with lockedBy := none } else m.log (.unlocked a)

/-- The sequence has returned to `fiber_entry`. -/
def ret (m : Module) (a : FiberRef) : Module :=
  { (m.setFiber a { m.fiber a with done := true }).log (.finished a) with current := none }

/-! ### The steps of one module -/

/-- The call `c` of the running fiber `a`. Between two posts of `coseq_notify` the fiber is inside
that call, and it cannot return from its sequence inside a `coseq_gather` callback. -/
def call (m : Module) (a : FiberRef) (c : Call) (now : Timespec) (nextClientId : Nat) (ok : Alloc) :
    Option (Module × Effect) :=
  match (m.fiber a).notifying, c with
  | some l, .notifyNext => some (notifyNext m a l ok)
  | some _, _ => none
  | none, .notifyNext => none
  | none, .request i s msg => some (request m a i s msg ok)
  | none, .requestTimeout i s msg t => some (requestTimeout m a i s msg t now ok)
  | none, .requestAsync i s msg => some (requestAsync m a i s msg ok)
  | none, .send i s msg => some (send m a i s msg ok)
  | none, .waitReply => some (waitReply m a false ok, .none)
  | none, .gather => some (gather m a ok, .none)
  | none, .gatherNext => (gatherNext m a ok).map fun m => (m, .none)
  | none, .reply r msg => some (reply m a r msg ok)
  | none, .waitTimeout t => some (waitTimeout m a t now, .none)
  | none, .regNotify c => some (regNotify m a c nextClientId ok)
  | none, .unregNotify c id => some (unregNotify m a c id, .none)
  | none, .notify c msg => some (notify m a c msg, .none)
  | none, .lock => some (lock m a, .none)
  | none, .unlock => some (unlock m a, .none)
  | none, .ret => if (m.fiber a).gathers = [] then some (ret m a, .none) else none

/-- What happens at a module: its thread goes on, its running fiber makes a call, `stop_modules`
sets `stop`. -/
inductive ModAct where
  | sched (now : Timespec) (ok : Alloc)
  | call (c : Call) (now : Timespec) (nextClientId : Nat) (ok : Alloc)
  | stop

def Module.step (m : Module) : ModAct → Option (Module × Effect)
  | .sched now ok =>
      if m.current.isSome ∨ m.phase = .stopped ∨ m.phase = .undefined then none
      else some (sched m now ok, .none)
  | .call c now nextClientId ok => m.current.bind fun a => call m a c now nextClientId ok
  | .stop => some ({ m with stop := true }, .none)

end Coseq
