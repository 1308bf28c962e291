import Mathlib.Algebra.Group.Nat.Defs
import Mathlib.Data.List.Basic
import Mathlib.Logic.Function.Basic

/-! The data of the C core: result codes, clock values, events, reply records, fibers, pending
entries and modules, with the field names of the C structs. Lists stand for the singly linked
lists, a fiber pointer is the number of the block it was allocated as (blocks are not reused),
a buffer with its capacity is the list of its bytes, and the counters of type `int` are unbounded. -/

namespace Coseq

abbrev Bytes := List UInt8

/-- `fiber_t *`: the number of the allocation. -/
abbrev FiberRef := Nat

/-- `coseq_result_t`. -/
inductive Result where
  | ignore
  | success
  | error
  | reqTimeout
  | seqTimeout
  deriving DecidableEq

/-- `struct timespec`. -/
structure Timespec where
  sec : Int
  nsec : Int
  deriving DecidableEq

def tsAddMs (t : Timespec) (ms : Nat) : Timespec :=
  let sec := t.sec + ms / 1000
  let nsec := t.nsec + (ms % 1000) * 1000000
  if nsec ≥ 1000000000 then ⟨sec + 1, nsec - 1000000000⟩ else ⟨sec, nsec⟩

def tsLt (a b : Timespec) : Bool :=
  a.sec < b.sec || (a.sec == b.sec && a.nsec < b.nsec)

/-- The `int requester`: a module index, or `EXTERNAL` (`-1`). -/
inductive Origin where
  | external
  | module (idx : Nat)
  deriving DecidableEq

/-- The cast `(uint8_t)e->requester`. -/
def Origin.u8 : Origin → Nat
  | .external => 255
  | .module idx => idx % 256

inductive EvType where
  | start
  | reply
  | notify
  deriving DecidableEq

/-- `ev_t`. `serial` is no field of the C struct: it numbers the events `post` has appended to one
inbox, so that two events with the same content can be told apart. -/
structure Ev where
  type : EvType
  seqIdx : Nat
  reqId : Nat
  requester : Origin
  result : Result
  category : Nat
  clientId : Nat
  msg : Bytes
  serial : Nat
  deriving DecidableEq

/-- `reply_rec_t`. -/
structure ReplyRec where
  reqId : Nat
  result : Result
  msg : Bytes
  deriving DecidableEq

/-- `coseq_src_t`. Its `msg.msg` points to the fiber's `src_buf`. -/
structure Src where
  threadIdx : Nat
  seqIdx : Nat
  reqId : Nat
  result : Result
  clientId : Nat
  size : Nat
  deriving DecidableEq

/-- `pending_t`. -/
structure Pending where
  reqId : Nat
  f : FiberRef
  deriving DecidableEq

/-- `notify_client_t`. -/
structure NotifyClient where
  category : Nat
  listenerModule : Origin
  clientId : Nat
  deriving DecidableEq

/-- The ways a request takes an id: `coseq_request`, `coseq_request_timeout` (with the deadline it
sets), `coseq_request_async` and `coseq_send`. -/
inductive ReqKind where
  | request
  | timed (deadline : Timespec)
  | async
  | send
  deriving DecidableEq

/-- A request of this kind registers its id for a reply. -/
def ReqKind.awaited : ReqKind → Bool
  | .send => false
  | _ => true

/-- The point a fiber's saved context continues from. `waitReply` records whether
`coseq_wait_reply` was called by the loop of `coseq_gather`. -/
inductive Point where
  | entry
  | request (kind : ReqKind)
  | waitReply (gather : Bool)
  | waitTimeout
  deriving DecidableEq

/-- Why a waiting call goes on: a reply event, a queued reply, the deadline of a request or a plain
timer, the last two with the clock value the timer pass read. -/
inductive Wake where
  | reply
  | queued
  | expired (now : Timespec)
  | timer (now : Timespec)
  deriving DecidableEq

/-- What a fiber runs: a sequence of the table or `recv_notify`. -/
inductive Fn where
  | seq (idx : Nat)
  | recvNotify
  deriving DecidableEq

/-- The locals of a `coseq_notify` call between two posts. -/
structure NotifyLoop where
  category : Nat
  msg : Bytes
  n : Nat
  rest : List NotifyClient
  deriving DecidableEq

/-- `fiber_t`. `ctx` is the saved context; `gathers` (the counters `n` of the `coseq_gather` calls
in progress, innermost first) and `notifying` are on the fiber's stack. -/
structure Fiber where
  fn : Fn
  ctx : Point
  seqIdx : Nat
  replyTo : Origin
  replyReqId : Nat
  src : Src
  srcBuf : Bytes
  waitingReply : Bool
  waitReqId : Nat
  waitingTimer : Bool
  deadline : Timespec
  waitingAny : Bool
  asyncOutstanding : Int
  rq : List ReplyRec
  gathers : List Nat
  notifying : Option NotifyLoop
  done : Bool

/-- `calloc`. -/
def Fiber.blank : Fiber where
  fn := .recvNotify
  ctx := .entry
  seqIdx := 0
  replyTo := .module 0
  replyReqId := 0
  src := ⟨0, 0, 0, .ignore, 0, 0⟩
  srcBuf := []
  waitingReply := false
  waitReqId := 0
  waitingTimer := false
  deadline := ⟨0, 0⟩
  waitingAny := false
  asyncOutstanding := 0
  rq := []
  gathers := []
  notifying := none
  done := false

/-- The bytes a reader sees through `coseq_source`. -/
def Fiber.message (f : Fiber) : Bytes := f.srcBuf.take f.src.size

/-- One line of the history of a module: what its thread or `post` did. Nothing reads it. -/
inductive Obs where
  | arrived (e : Ev)
  | issued (f : FiberRef) (kind : ReqKind) (rid dst seq : Nat)
  | started (f : FiberRef) (requester : Origin) (rid serial : Nat)
  | notStarted (requester : Origin) (rid serial : Nat)
  | rejected (requester : Origin) (rid serial : Nat)
  | notified (f : FiberRef) (serial : Nat)
  | resumed (f : FiberRef) (why : Wake)
  | returned (f : FiberRef) (kind : ReqKind) (why : Wake) (gather : Bool) (rid : Nat)
      (result : Result) (msg : Bytes)
  | noReply (f : FiberRef)
  | gathering (f : FiberRef)
  | gathered (f : FiberRef) (n : Nat)
  | lost (f : FiberRef) (rid : Nat)
  | replied (f : FiberRef) (replyTo : Origin) (rid : Nat) (result : Result) (msg : Bytes)
  | registered (f : FiberRef) (category clientId : Nat) (listener : Origin)
  | unregistered (f : FiberRef) (category clientId : Nat)
  | published (f : FiberRef) (category n : Nat)
  | locked (f : FiberRef)
  | unlocked (f : FiberRef)
  | finished (f : FiberRef)
  deriving DecidableEq

/-- Where the scheduler is in `sched_loop`: at the top, in the condition wait, about to read the
clock, in the timer pass, in the event loop, or out of it. `undefined` is entered when the thread
touches a fiber that has been freed. -/
inductive Phase where
  | top
  | waiting (deadline : Option Timespec)
  | clock
  | timers (now : Timespec) (rest : List FiberRef)
  | events
  | stopped
  | undefined
  deriving DecidableEq

/-- `module_t`. `batch` is the local list `e` of `sched_loop`. `nextReqId` counts without wrapping,
the code's value is `nextReqId % 2 ^ 32`; `posted` counts the events `post` appended. -/
structure Module where
  idx : Nat
  nrSeq : Nat
  recvNotify : Bool
  inbox : List Ev
  stop : Bool
  fibers : List FiberRef
  fiber : FiberRef → Fiber
  nextFiber : FiberRef
  pending : List Pending
  notifyClients : List NotifyClient
  nextReqId : Nat
  current : Option FiberRef
  lockedBy : Option FiberRef
  deferred : List Ev
  batch : List Ev
  phase : Phase
  posted : Nat
  trace : List Obs

/-- The places of the core that allocate. -/
inductive Site where
  | event
  | eventMsg
  | pendingEntry
  | fiberBlock
  | stack
  | context
  | srcBuf
  | replyRec
  | replyMsg
  | notifyClient
  | extMsg
  | syncBuf
  deriving DecidableEq

/-- Which allocations succeed during one step. -/
abbrev Alloc := Site → Bool

def Alloc.granted : Alloc := fun _ => true

def Alloc.Succeeds (ok : Alloc) : Prop := ∀ site, ok site = true

def Site.all : List Site :=
  [.event, .eventMsg, .pendingEntry, .fiberBlock, .stack, .context, .srcBuf, .replyRec, .replyMsg,
    .notifyClient, .extMsg, .syncBuf]

instance allocSucceedsDecidable (ok : Alloc) : Decidable ok.Succeeds :=
  decidable_of_iff (∀ site ∈ Site.all, ok site = true)
    ⟨fun h site => h site (by cases site <;> decide), fun h site _ => h site⟩

end Coseq
