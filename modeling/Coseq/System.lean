import Coseq.Sequence
import Coseq.RunTransition

/-! An instance with its module threads and the external threads that call it. One step is one
stretch of code of one thread: of a module thread or its running fiber, or of an external thread
inside `request_sync` or `request_async`; the clock may show anything. -/

namespace Coseq

/-- One line of the history of the external mailbox. Nothing reads it. -/
inductive ExtObs where
  | called (t : Nat) (rid : Nat)
  | accepted (rid : Nat) (r : Result) (msg : Bytes)
  | discarded (rid : Nat) (r : Result) (msg : Bytes)
  | returned (t : Nat) (rid : Nat) (r : Result) (msg : Bytes)
  deriving DecidableEq

/-- `coseq_ctx_private`. `extId` counts without wrapping, the code's value is `extId % 2 ^ 32`;
`extMsg` is `ext_msg` with `ext_size`. -/
structure Ctx where
  modules : Nat → Module
  nrModule : Nat
  nextClientId : Nat
  extReady : Bool
  extWaitRid : Nat
  extResult : Result
  extMsg : Bytes
  extId : Nat
  extTrace : List ExtObs

namespace Ctx

variable (c : Ctx)

def setModule (i : Nat) (m : Module) : Ctx := { c with modules := Function.update c.modules i m }

/-- `post`: an index out of range or a failed `make_ev` drops the event. -/
def post (moduleIdx : Nat) : Option Ev → Ctx
  | none => c
  | some e =>
      if moduleIdx ≥ c.nrModule then c
      else c.setModule moduleIdx ((c.modules moduleIdx).enqueue e)

def extDeliver (reqId : Nat) (r : Result) (msg : Bytes) (ok : Alloc) : Ctx :=
  if reqId = c.extWaitRid then
    { c with
      extResult := r
      extMsg := if ok .extMsg then msg else []
      extReady := true
      extTrace := c.extTrace ++ [.accepted reqId r msg] }
  else { c with extTrace := c.extTrace ++ [.discarded reqId r msg] }

def effect (ok : Alloc) : Effect → Ctx
  | .none => c
  | .post moduleIdx e => c.post moduleIdx e
  | .extDeliver reqId r msg => c.extDeliver reqId r msg ok
  | .nextClientId id => { c with nextClientId := id }

/-- `ext_id` as the code holds it. -/
def rid : Nat := c.extId % 2 ^ 32

/-- The event of an external request. -/
def extStart (moduleIdx seqIdx rid : Nat) (msg : Bytes) (ok : Alloc) : Ctx :=
  c.post moduleIdx (makeEv .start seqIdx rid .external .ignore msg ok)

end Ctx

/-- Where an external thread is. -/
inductive ExtPoint where
  | idle
  | posting (rid moduleIdx seqIdx : Nat) (msg : Bytes)
  | waiting (rid moduleIdx seqIdx : Nat)
  deriving DecidableEq

/-- An external thread, with the thread-local `s` and `buf` of `_request_sync`. -/
structure ExtThread where
  point : ExtPoint
  s : Src
  buf : Bytes
  deriving DecidableEq

def ExtThread.fresh : ExtThread := ⟨.idle, ⟨0, 0, 0, .ignore, 0, 0⟩, []⟩

/-- The first part of `_request_sync`, up to its condition wait. -/
def requestSync (c : Ctx) (t : Nat) (moduleIdx seqIdx : Nat) (msg : Bytes) (ok : Alloc) : Ctx :=
  let armed : Ctx :=
    { c with
      extId := c.extId + 1
      extWaitRid := c.rid
      extReady := false
      extTrace := c.extTrace ++ [.called t c.rid] }
  armed.extStart moduleIdx seqIdx c.rid msg ok

/-- The second part of `_request_sync`, once `ext_ready` is seen. -/
def syncReturn (c : Ctx) (th : ExtThread) (t rid moduleIdx seqIdx : Nat) (ok : Alloc) :
    Ctx × ExtThread :=
  let size := if th.buf.length < c.extMsg.length ∧ ok .syncBuf = false then 0 else c.extMsg.length
  let buf := c.extMsg.take size ++ th.buf.drop size
  ({ c with
      extWaitRid := 2 ^ 32 - 1
      extMsg := []
      extTrace := c.extTrace ++ [.returned t rid c.extResult (buf.take size)] },
    { point := .idle
      s :=
        { th.s with
          threadIdx := moduleIdx
          seqIdx := seqIdx
          reqId := rid
          result := c.extResult
          size := size }
      buf := buf })

structure Sys where
  ctx : Ctx
  clock : Timespec
  threads : Nat → ExtThread

inductive Act where
  | tick (now : Timespec)
  | sched (i : Nat) (ok : Alloc)
  | call (i : Nat) (c : Call) (ok : Alloc)
  | stop (i : Nat)
  | requestSync (t moduleIdx seqIdx : Nat) (msg : Bytes) (ok : Alloc)
  | wakeup (t : Nat) (ok : Alloc)
  | requestAsync (t moduleIdx seqIdx : Nat) (msg : Bytes)
  | asyncPost (t : Nat) (ok : Alloc)

/-- The thread of module `i` goes on, and every allocation succeeds. -/
def Act.thread (i : Nat) : Act := .sched i .granted

/-- The running fiber of module `i` makes a call, and every allocation succeeds. -/
def Act.fiber (i : Nat) (c : Call) : Act := .call i c .granted

namespace Sys

variable (s : Sys)

def module (i : Nat) : Module := s.ctx.modules i

/-- What `a` is for module `i`. -/
def localAct (i : Nat) : Act → Option ModAct
  | .sched j ok => if j = i then some (.sched s.clock ok) else none
  | .call j c ok => if j = i then some (.call c s.clock s.ctx.nextClientId ok) else none
  | .stop j => if j = i then some .stop else none
  | _ => none

def stepModule (i : Nat) (act : ModAct) (ok : Alloc) : Option Sys :=
  if i < s.ctx.nrModule then
    ((s.module i).step act).map fun r => { s with ctx := (s.ctx.setModule i r.1).effect ok r.2 }
  else none

def setThread (t : Nat) (th : ExtThread) : Sys := { s with threads := Function.update s.threads t th }

/-- One step. A waiting external thread may wake up at any time, signalled or not. -/
def step : Act → Option Sys
  | .tick now => some { s with clock := now }
  | .sched i ok => s.stepModule i (.sched s.clock ok) ok
  | .call i c ok => s.stepModule i (.call c s.clock s.ctx.nextClientId ok) ok
  | .stop i => s.stepModule i .stop fun _ => true
  | .requestSync t i seq msg ok =>
      match (s.threads t).point with
      | .idle =>
          some ({ s with ctx := Coseq.requestSync s.ctx t i seq msg ok }.setThread t
            { s.threads t with point := .waiting s.ctx.rid i seq })
      | _ => none
  | .wakeup t ok =>
      match (s.threads t).point with
      | .waiting rid i seq =>
          if s.ctx.extReady then
            let r := syncReturn s.ctx (s.threads t) t rid i seq ok
            some ({ s with ctx := r.1 }.setThread t r.2)
          else some s
      | _ => none
  | .requestAsync t i seq msg =>
      match (s.threads t).point with
      | .idle =>
          some ({ s with ctx := { s.ctx with extId := s.ctx.extId + 1 } }.setThread t
            { s.threads t with point := .posting s.ctx.rid i seq msg })
      | _ => none
  | .asyncPost t ok =>
      match (s.threads t).point with
      | .posting rid i seq msg =>
          some ({ s with ctx := s.ctx.extStart i seq rid msg ok }.setThread t
            { s.threads t with point := .idle })
      | _ => none

end Sys

/-! ### Setup -/

/-- What `_setup` reads of a `coseq_reg_t`: the number of sequences and whether there is a
`recv_notify`. -/
structure Reg where
  nrSeq : Nat
  recvNotify : Bool

/-- A module as `_setup` leaves it. -/
def Module.boot (idx : Nat) (reg : Reg) : Module where
  idx := idx
  nrSeq := reg.nrSeq
  recvNotify := reg.recvNotify
  inbox := []
  stop := false
  fibers := []
  fiber := fun _ => Fiber.blank
  nextFiber := 0
  pending := []
  notifyClients := []
  nextReqId := 1
  current := none
  lockedBy := none
  deferred := []
  batch := []
  phase := .top
  posted := 0
  trace := []

/-- An instance after `create_coseq` and `setup` with the table `tbl`. -/
def boot (tbl : List Reg) : Sys where
  ctx :=
    { modules := fun i => Module.boot i (tbl.getD i ⟨0, false⟩)
      nrModule := tbl.length
      nextClientId := 0
      extReady := false
      extWaitRid := 2 ^ 32 - 1
      extResult := .ignore
      extMsg := []
      extId := 1
      extTrace := [] }
  clock := ⟨0, 0⟩
  threads := fun _ => ExtThread.fresh

/-- The states reached from `setup` by steps that `ok` allows. -/
abbrev Reaches (ok : Sys → Act → Prop) (tbl : List Reg) : Sys → Prop :=
  Lts.Run Sys.step ok (boot tbl)

end Coseq
