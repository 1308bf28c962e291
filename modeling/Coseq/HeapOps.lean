import Coseq.HeapLog
import Coseq.Teardown

/-! What each function of the core allocates and frees, function by function and in its order: for the state a
function is called in, the list of its operations. `free` of a null pointer is none. Lost, and never freed, are the
queued replies of a fiber that `reap_done` frees and the `src_buf` of a fiber whose `getcontext` fails. -/

namespace Coseq

/-- A block of the heap, by what it was allocated for: an event by the inbox it is made for and its serial there, a
fiber's blocks by module and fiber, `ext_msg`, and the thread-local `buf` of `_request_sync`. -/
inductive Block where
  | event (dest : Origin) (serial : Nat)
  | eventMsg (dest : Origin) (serial : Nat)
  | pending (i : Nat) (p : Pending)
  | fiber (i : Nat) (a : FiberRef)
  | stack (i : Nat) (a : FiberRef)
  | srcBuf (i : Nat) (a : FiberRef)
  | replyRec (i : Nat) (a : FiberRef) (rr : ReplyRec)
  | replyMsg (i : Nat) (a : FiberRef) (rr : ReplyRec)
  | notifyClient (i : Nat) (nc : NotifyClient)
  | extMsg
  | syncBuf (t : Nat)
  deriving DecidableEq

abbrev HeapOp := HeapLog.Op Block

/-- A message is copied to the heap unless it is empty. -/
def allocMsg (b : Block) (msg : Bytes) : List HeapOp := if msg = [] then [] else [.alloc b]

def freeMsg (b : Block) (msg : Bytes) : List HeapOp := if msg = [] then [] else [.free b]

def dropMsg (b : Block) (msg : Bytes) : List HeapOp := if msg = [] then [] else [.drop b]

/-- `make_ev`, which returns `e`. -/
def makeEvHeap (dest : Origin) (serial : Nat) : Option Ev → List HeapOp
  | none => []
  | some e => .alloc (.event dest serial) :: allocMsg (.eventMsg dest serial) e.msg

/-- `free(e->msg); free(e);` -/
def freeEv (dest : Origin) (serial : Nat) (e : Ev) : List HeapOp :=
  freeMsg (.eventMsg dest serial) e.msg ++ [.free (.event dest serial)]

/-- `make_ev` and `post`: an event for no module of the instance is freed. -/
def Ctx.postHeap (c : Ctx) (moduleIdx : Nat) (e : Option Ev) : List HeapOp :=
  makeEvHeap (.module moduleIdx) (c.modules moduleIdx).posted e ++
    match e with
    | none => []
    | some e => if moduleIdx ≥ c.nrModule then freeEv (.module moduleIdx) (c.modules moduleIdx).posted e else []

def Ctx.extDeliverHeap (c : Ctx) (reqId : Nat) (msg : Bytes) (ok : Alloc) : List HeapOp :=
  if reqId = c.extWaitRid then freeMsg .extMsg c.extMsg ++ allocMsg .extMsg (if ok .extMsg then msg else []) else []

/-- What a call does outside its module. -/
def Ctx.effectHeap (c : Ctx) (ok : Alloc) : Effect → List HeapOp
  | .none | .nextClientId _ => []
  | .post moduleIdx e => c.postHeap moduleIdx e
  | .extDeliver reqId _ msg => c.extDeliverHeap reqId msg ok

def pendingAddHeap (i : Nat) (reqId : Nat) (f : FiberRef) (ok : Alloc) : List HeapOp :=
  if ok .pendingEntry then [.alloc (.pending i ⟨reqId, f⟩)] else []

def pendingTakeHeap (i : Nat) (pending : List Pending) (reqId : Nat) : List HeapOp :=
  match pending.find? fun p => p.reqId == reqId with
  | some p => [.free (.pending i p)]
  | none => []

/-- `set_src`: the `realloc` of a buffer that is too small. -/
def setSrcHeap (i : Nat) (a : FiberRef) (f : Fiber) (msg : Bytes) (ok : Alloc) : List HeapOp :=
  if f.srcBuf.length < msg.length ∧ ok .srcBuf = true then
    freeMsg (.srcBuf i a) f.srcBuf ++ [.alloc (.srcBuf i a)]
  else []

/-- `new_fiber`. When `getcontext` fails, `src_buf` is not freed with the rest. -/
def newFiberHeap (i : Nat) (m : Module) (msg : Bytes) (ok : Alloc) : List HeapOp :=
  let a := m.nextFiber
  if ok .fiberBlock then
    .alloc (.fiber i a) ::
      if ok .stack then
        .alloc (.stack i a) :: (setSrcHeap i a Fiber.blank msg ok ++
          if ok .context then []
          else [.free (.stack i a), .free (.fiber i a)] ++ if ok .srcBuf then dropMsg (.srcBuf i a) msg else [])
      else [.free (.fiber i a)]
  else []

/-- `handle_reply`. -/
def handleReplyHeap (i : Nat) (m : Module) (e : Ev) (ok : Alloc) : List HeapOp :=
  match pendingPeek m.pending e.reqId with
  | none => []
  | some a =>
      pendingTakeHeap i m.pending e.reqId ++
        let f := m.fiber a
        if a ∉ m.fibers then []
        else if f.waitingReply && f.waitReqId == e.reqId || f.waitingAny then setSrcHeap i a f e.msg ok
        else if ok .replyRec then
          let rr := ⟨e.reqId, e.result, if ok .replyMsg then e.msg else []⟩
          .alloc (.replyRec i a rr) :: allocMsg (.replyMsg i a rr) rr.msg
        else []

/-- The queued replies that `reap_done` forgets with their fiber. -/
def ReplyRec.dropHeap (i : Nat) (a : FiberRef) (rr : ReplyRec) : List HeapOp :=
  dropMsg (.replyMsg i a rr) rr.msg ++ [.drop (.replyRec i a rr)]

/-- `free(f->stack); free(f->src_buf); free(f);` -/
def Fiber.freeHeap (i : Nat) (a : FiberRef) (f : Fiber) : List HeapOp :=
  .free (.stack i a) :: (freeMsg (.srcBuf i a) f.srcBuf ++ [.free (.fiber i a)])

def reapDoneHeap (i : Nat) (m : Module) : List HeapOp :=
  m.fibers.flatMap fun a =>
    if (m.fiber a).done then
      (m.fiber a).rq.flatMap (ReplyRec.dropHeap i a) ++ (m.fiber a).freeHeap i a
    else []

/-! ### The scheduler -/

def timerTurnHeap (i : Nat) (m : Module) (now : Timespec) (a : FiberRef) (ok : Alloc) : List HeapOp :=
  let f := m.fiber a
  if f.waitingTimer && !tsLt now f.deadline then
    if !(m.lockedBy ≠ none ∧ some a ≠ m.lockedBy) then
      if f.waitingReply then pendingTakeHeap i m.pending f.waitReqId ++ setSrcHeap i a f [] ok else []
    else []
  else []

def startSeqHeap (i : Nat) (m : Module) (e : Ev) (ok : Alloc) : List HeapOp :=
  if e.seqIdx ≥ m.nrSeq then [] else newFiberHeap i m e.msg ok

def startNotifyHeap (i : Nat) (m : Module) (e : Ev) (ok : Alloc) : List HeapOp :=
  if m.recvNotify then newFiberHeap i m e.msg ok else []

/-- One turn of the event loop, up to the end of the branch on the event. -/
def dispatchHeap (i : Nat) (m : Module) (e : Ev) (ok : Alloc) : List HeapOp :=
  if m.lockedBy ≠ none ∧ e.type ≠ .notify then
    if e.type = .reply ∧ pendingPeek m.pending e.reqId = m.lockedBy then handleReplyHeap i m e ok else []
  else
    match e.type with
    | .start => startSeqHeap i m e ok
    | .reply => handleReplyHeap i m e ok
    | .notify => startNotifyHeap i m e ok

def schedHeap (i : Nat) (m : Module) (ok : Alloc) : List HeapOp :=
  match m.phase with
  | .timers t (a :: _) => timerTurnHeap i m t a ok
  | .events =>
      match m.batch with
      | [] => reapDoneHeap i m
      | e :: _ => dispatchHeap i m e ok
  | _ => []

/-- The turn of the event `e` leaves `consumed` set. -/
def Module.consumes (m : Module) (e : Ev) : Bool :=
  !(m.lockedBy ≠ none ∧ e.type ≠ .notify) || (e.type = .reply ∧ pendingPeek m.pending e.reqId = m.lockedBy)

/-- The event that a turn has consumed. -/
def Module.spent (m : Module) : Option Ev :=
  match m.phase with
  | .events => m.batch.head?.filter m.consumes
  | _ => none

/-- `coseq_wait_reply`. -/
def waitReplyHeap (i : Nat) (a : FiberRef) (f : Fiber) (ok : Alloc) : List HeapOp :=
  match f.rq with
  | [] => []
  | rr :: _ => setSrcHeap i a f rr.msg ok ++ freeMsg (.replyMsg i a rr) rr.msg ++ [.free (.replyRec i a rr)]

def regNotifyHeap (i : Nat) (f : Fiber) (category nextClientId : Nat) (ok : Alloc) : List HeapOp :=
  if f.replyTo = .external then []
  else if ok .notifyClient then
    [.alloc (.notifyClient i ⟨category, f.replyTo, if nextClientId = 255 then 0 else nextClientId⟩)]
  else []

def unregNotifyHeap (i : Nat) (m : Module) (category clientId : Nat) : List HeapOp :=
  match m.notifyClients.find? fun nc => nc.category == category && nc.clientId == clientId with
  | some nc => [.free (.notifyClient i nc)]
  | none => []

/-- A call of the running fiber `a`, up to what it posts or delivers. A notification for no module is freed. -/
def callHeap (i : Nat) (m : Module) (a : FiberRef) (c : Call) (nextClientId : Nat) (ok : Alloc) : List HeapOp :=
  match c with
  | .request .. | .requestTimeout .. | .requestAsync .. => pendingAddHeap i m.reqId a ok
  | .waitReply | .gather | .gatherNext => waitReplyHeap i a (m.fiber a) ok
  | .regNotify category => regNotifyHeap i (m.fiber a) category nextClientId ok
  | .unregNotify category clientId => unregNotifyHeap i m category clientId
  | .notifyNext =>
      match (m.fiber a).notifying with
      | some ⟨category, msg, _, nc :: _⟩ =>
          if nc.category = category ∧ nc.listenerModule = .external then
            match makeEv .notify 0 0 (.module m.idx) .success msg ok with
            | none => []
            | some e => makeEvHeap .external 0 (some e) ++ freeEv .external 0 e
          else []
      | _ => []
  | _ => []

/-- The second part of `_request_sync`. -/
def syncReturnHeap (c : Ctx) (th : ExtThread) (t : Nat) (ok : Alloc) : List HeapOp :=
  (if th.buf.length < c.extMsg.length ∧ ok .syncBuf = true then
    freeMsg (.syncBuf t) th.buf ++ [.alloc (.syncBuf t)] else []) ++ freeMsg .extMsg c.extMsg

/-! ### Steps -/

/-- The event that `sched_loop` holds while the fiber runs that it has resumed for it, and what has been done to the
heap so far. -/
structure HeapNotes where
  hand : Nat → Option Ev
  log : List HeapOp

namespace HeapNotes

def start : HeapNotes := ⟨fun _ => none, []⟩

def freeHand (g : HeapNotes) (i : Nat) : List HeapOp :=
  match g.hand i with
  | some e => freeEv (.module i) e.serial e
  | none => []

/-- A turn of the thread of module `i`. A consumed event is freed when nothing has been resumed for it. -/
def sched (g : HeapNotes) (m m' : Module) (i : Nat) (ok : Alloc) : HeapNotes :=
  let ops := schedHeap i m ok
  match m.spent with
  | none => { g with log := g.log ++ ops }
  | some e =>
      if m'.current = none then { g with log := g.log ++ (ops ++ freeEv (.module i) e.serial e) }
      else { hand := Function.update g.hand i (some e), log := g.log ++ ops }

/-- A call of the running fiber of module `i`, with its effect. When the fiber gives way, `sched_loop` goes on and
frees the event it holds. -/
def call (g : HeapNotes) (m m' : Module) (i : Nat) (ops : List HeapOp) : HeapNotes :=
  if m.current ≠ none ∧ m'.current = none then
    { hand := Function.update g.hand i none, log := g.log ++ (ops ++ g.freeHand i) }
  else { g with log := g.log ++ ops }

/-- The notes after a step. -/
def note (s : Sys) (act : Act) (s' : Sys) (g : HeapNotes) : HeapNotes :=
  match act with
  | .tick _ | .stop _ | .requestAsync .. => g
  | .sched i ok => g.sched (s.module i) (s'.module i) i ok
  | .call i c ok =>
      match (s.module i).current with
      | none => g
      | some a =>
          g.call (s.module i) (s'.module i) i (callHeap i (s.module i) a c s.ctx.nextClientId ok ++
            match Coseq.call (s.module i) a c s.clock s.ctx.nextClientId ok with
            | none => []
            | some (_, eff) => s.ctx.effectHeap ok eff)
  | .requestSync _ i seq msg ok =>
      { g with log := g.log ++ s.ctx.postHeap i (makeEv .start seq s.ctx.rid .external .ignore msg ok) }
  | .wakeup t ok =>
      match (s.threads t).point with
      | .waiting .. =>
          if s.ctx.extReady then { g with log := g.log ++ syncReturnHeap s.ctx (s.threads t) t ok } else g
      | _ => g
  | .asyncPost t ok =>
      match (s.threads t).point with
      | .posting rid i seq msg =>
          { g with log := g.log ++ s.ctx.postHeap i (makeEv .start seq rid .external .ignore msg ok) }
      | _ => g

def noteLife (s : Sys) (act : LifeAct) (s' : Sys) (g : HeapNotes) : HeapNotes :=
  match act with
  | .act a => note s a s' g
  | .teardown => g

end HeapNotes

/-- The life of an instance with the operations on the heap noted. -/
abbrev HeapRun (ok : Sys → LifeAct → Prop) (tbl : List Reg) : Sys × HeapNotes → Prop :=
  Lts.Run (Lts.watch (fun s a => s.stepLife tbl.length a) HeapNotes.noteLife) (fun p a => ok p.1 a)
    (boot tbl, HeapNotes.start)

/-- What `stop_modules` frees of a module once its thread has been joined. -/
def Module.stopHeap (i : Nat) (m : Module) : List HeapOp :=
  m.fibers.flatMap (fun a =>
    (m.fiber a).rq.flatMap (fun rr => freeMsg (.replyMsg i a rr) rr.msg ++ [.free (.replyRec i a rr)]) ++
      (m.fiber a).freeHeap i a) ++
  m.pending.map (fun p => .free (.pending i p)) ++
  m.notifyClients.map (fun nc => .free (.notifyClient i nc)) ++
  m.inbox.flatMap (fun e => freeEv (.module i) e.serial e) ++
  m.deferred.flatMap (fun e => freeEv (.module i) e.serial e)

/-- What `stop_modules` frees once the `n` threads have been joined. -/
def Sys.stopHeap (s : Sys) (n : Nat) : List HeapOp := (List.range n).flatMap fun i => (s.module i).stopHeap i

end Coseq
