import Coseq.TailQueue
import Coseq.SystemModule

/-! The event queues as the C code has them: nodes with `next` pointers, the head and tail pointers of
`inbox` and `deferred`, and the local `e` of the event loop. The rest of the module is as before, and the
module with lists for queues is what this one computes. -/

namespace Coseq

open TailQueue (Addr Chain Denotes Ends vals)

/-- A module whose events are in linked queues. `evs` is the local `e` of `sched_loop`, `handled` lists the
nodes that have been handled and freed; nothing reads it. A node is numbered by its allocation. The lists
`inbox`, `batch` and `deferred` of `core` are not used. -/
structure LinkedModule where
  core : Module
  heap : TailQueue.Heap Ev
  inbox : Ends
  deferred : Ends
  evs : Option Addr
  handled : List Addr

namespace LinkedModule

variable (l : LinkedModule)

/-- The thread follows a pointer to a node that is not there. -/
def crash : LinkedModule := { l with core := { l.core with phase := .undefined } }

def post (e : Ev) : LinkedModule :=
  let a := l.core.posted
  let e := { e with serial := a }
  let heap := Function.update l.heap a (some ⟨e, none⟩)
  let q := TailQueue.append heap l.inbox a
  { l with
    core := { l.core with posted := a + 1, trace := l.core.trace ++ [.arrived e] }
    heap := q.1
    inbox := q.2 }

def deferEv (a : Addr) : LinkedModule :=
  let q := TailQueue.append l.heap l.deferred a
  { l with heap := q.1, deferred := q.2 }

/-- The event at `a` has been handled: its node is freed. -/
def consume (a : Addr) (core : Module) : LinkedModule :=
  { l with core := core, heap := l.heap.free a, handled := l.handled ++ [a] }

/-- The splice at the top of the loop, which follows the tail pointer of `deferred`. -/
def mergeDeferred : Option LinkedModule :=
  if l.core.lockedBy = none ∧ l.deferred.head ≠ none then
    l.deferred.tail.map fun t =>
      let q := TailQueue.splice l.heap l.deferred l.inbox t
      { l with heap := q.1, inbox := q.2, deferred := .empty }
  else some l

def takeBatch : LinkedModule :=
  if l.core.stop then { l with core := { l.core with phase := .stopped } }
  else { l with core := { l.core with phase := .clock }, evs := l.inbox.head, inbox := .empty }

def enterWait : LinkedModule :=
  if l.inbox.head = none ∧ l.core.stop = false then
    { l with core := { l.core with phase := .waiting (nearest l.core) } }
  else l.takeBatch

/-- One turn of the event loop, for the event `e` in the node `a`. -/
def dispatch (a : Addr) (e : Ev) (ok : Alloc) : LinkedModule :=
  if l.core.lockedBy ≠ none ∧ e.type ≠ .notify then
    if e.type = .reply ∧ pendingPeek l.core.pending e.reqId = l.core.lockedBy then
      l.consume a (handleReply l.core e ok)
    else l.deferEv a
  else
    match e.type with
    | .start => l.consume a (startSeq l.core e ok)
    | .reply => l.consume a (handleReply l.core e ok)
    | .notify => l.consume a (startNotify l.core e ok)

def sched (now : Timespec) (ok : Alloc) : LinkedModule :=
  match l.core.phase with
  | .top =>
      match l.mergeDeferred with
      | some l => l.enterWait
      | none => l.crash
  | .waiting _ => l.takeBatch
  | .events =>
      match l.evs with
      | none => { l with core := { reapDone l.core with phase := .top } }
      | some a =>
          match l.heap a with
          | none => l.crash
          | some n => { l with evs := n.next }.dispatch a n.val ok
  | .clock | .timers _ _ | .stopped | .undefined => { l with core := Coseq.sched l.core now ok }

/-- What happens at a module: a step of its own, or a post to it. -/
inductive Label where
  | act (a : ModAct)
  | post (e : Ev)

def act : ModAct → Option (LinkedModule × Effect)
  | .sched now ok =>
      if l.core.current.isSome ∨ l.core.phase = .stopped ∨ l.core.phase = .undefined then none
      else some (l.sched now ok, .none)
  | .call c now id ok => (l.core.step (.call c now id ok)).map fun r => ({ l with core := r.1 }, r.2)
  | .stop => some ({ l with core := { l.core with stop := true } }, .none)

def step : Label → Option LinkedModule
  | .act a => (l.act a).map Prod.fst
  | .post e => some (l.post e)

def boot (idx : Nat) (reg : Reg) : LinkedModule where
  core := Module.boot idx reg
  heap := fun _ => none
  inbox := .empty
  deferred := .empty
  evs := none
  handled := []

end LinkedModule

/-! ### The module does not look into its queues elsewhere -/

/-- The module with other queues. -/
def Module.withQueues (m : Module) (inbox batch deferred : List Ev) : Module :=
  { m with inbox := inbox, batch := batch, deferred := deferred }

section Queues

variable {m : Module} {i b d : List Ev} {now : Timespec} {ok : Alloc} {e : Ev} {a : FiberRef}

theorem ite_queues {c : Prop} [Decidable c] {m' : Module} : (if c then m else m').withQueues i b d =
    if c then m.withQueues i b d else m'.withQueues i b d :=
  apply_ite (fun m => m.withQueues i b d) c m m'

theorem handleReply_queues : handleReply (m.withQueues i b d) e ok = (handleReply m e ok).withQueues i b d := by
  cases hpeek : pendingPeek m.pending e.reqId with
  | none =>
      have hpeek' : pendingPeek (m.withQueues i b d).pending e.reqId = none := hpeek
      simp only [handleReply, hpeek, hpeek']
  | some a =>
      have hpeek' : pendingPeek (m.withQueues i b d).pending e.reqId = some a := hpeek
      simp only [handleReply, hpeek, hpeek', ite_queues]
      rfl

theorem newFiber_queues {fn : Fn} {seqIdx replyReqId threadIdx clientId : Nat} {replyTo : Origin} {msg : Bytes}
    {r : Result} : newFiber (m.withQueues i b d) fn seqIdx replyTo replyReqId msg r threadIdx clientId ok =
      (newFiber m fn seqIdx replyTo replyReqId msg r threadIdx clientId ok).map fun p =>
        (p.1.withQueues i b d, p.2) := by
  unfold newFiber
  split <;> rfl

theorem startSeq_queues : startSeq (m.withQueues i b d) e ok = (startSeq m e ok).withQueues i b d := by
  unfold startSeq
  rw [newFiber_queues, ite_queues]
  cases newFiber m (.seq e.seqIdx) e.seqIdx e.requester e.reqId e.msg .ignore e.requester.u8 0 ok <;> rfl

theorem startNotify_queues : startNotify (m.withQueues i b d) e ok = (startNotify m e ok).withQueues i b d := by
  unfold startNotify
  rw [newFiber_queues, ite_queues]
  cases newFiber m .recvNotify 0 .external 0 e.msg .success e.requester.u8 e.clientId ok <;> rfl

theorem timerTurn_queues : timerTurn (m.withQueues i b d) now a ok = (timerTurn m now a ok).withQueues i b d := by
  simp only [timerTurn, ite_queues]
  rfl

theorem pendingAdd_queues {rid : Nat} :
    pendingAdd (m.withQueues i b d) rid a ok = (pendingAdd m rid a ok).withQueues i b d := by
  simp only [pendingAdd, ite_queues]
  rfl

theorem noReply_queues {g : Bool} : noReply (m.withQueues i b d) a g = (noReply m a g).withQueues i b d := by
  unfold noReply
  cases g with
  | false => rfl
  | true => cases hg : (m.fiber a).gathers <;> simp only [Module.withQueues, hg] <;> rfl

theorem waitReply_queues {g : Bool} :
    waitReply (m.withQueues i b d) a g ok = (waitReply m a g ok).withQueues i b d := by
  unfold waitReply
  rw [noReply_queues, ite_queues]
  cases hrq : (m.fiber a).rq <;> simp only [Module.withQueues, hrq] <;> rfl

theorem gather_queues : gather (m.withQueues i b d) a ok = (gather m a ok).withQueues i b d :=
  waitReply_queues (m := (m.setFiber a { m.fiber a with gathers := 0 :: (m.fiber a).gathers }).log (.gathering a))

theorem gatherNext_queues :
    gatherNext (m.withQueues i b d) a ok = (gatherNext m a ok).map fun m => m.withQueues i b d := by
  unfold gatherNext
  cases hg : (m.fiber a).gathers with
  | nil =>
      have hg' : ((m.withQueues i b d).fiber a).gathers = [] := hg
      simp only [hg, hg', Option.map_none]
  | cons n rest =>
      have hg' : ((m.withQueues i b d).fiber a).gathers = n :: rest := hg
      simp only [hg, hg', Option.map_some]
      exact congrArg some (waitReply_queues (m := m.setFiber a { m.fiber a with gathers := (n + 1) :: rest }))

theorem requestCommon_queues {kind : ReqKind} {j seq : Nat} {msg : Bytes} :
    requestCommon (m.withQueues i b d) a kind j seq msg ok =
      ((requestCommon m a kind j seq msg ok).1.withQueues i b d, (requestCommon m a kind j seq msg ok).2) := by
  have hadd : pendingAdd (takeReqId (m.withQueues i b d) a kind j seq) m.reqId a ok =
      (pendingAdd (takeReqId m a kind j seq) m.reqId a ok).withQueues i b d :=
    pendingAdd_queues (m := takeReqId m a kind j seq)
  unfold requestCommon
  refine Prod.ext ?_ rfl
  exact congrArg (fun m' : Module => { m'.setFiber a _ with current := none }) hadd

theorem requestAsync_queues {j seq : Nat} {msg : Bytes} : requestAsync (m.withQueues i b d) a j seq msg ok =
    ((requestAsync m a j seq msg ok).1.withQueues i b d, (requestAsync m a j seq msg ok).2) := by
  have hadd : pendingAdd (takeReqId (m.withQueues i b d) a .async j seq) m.reqId a ok =
      (pendingAdd (takeReqId m a .async j seq) m.reqId a ok).withQueues i b d :=
    pendingAdd_queues (m := takeReqId m a .async j seq)
  unfold requestAsync
  refine Prod.ext ?_ rfl
  exact congrArg (fun m' : Module => m'.setFiber a _) hadd

theorem reply_queues {r : Result} {msg : Bytes} : reply (m.withQueues i b d) a r msg ok =
    ((reply m a r msg ok).1.withQueues i b d, (reply m a r msg ok).2) := by
  unfold reply
  cases hto : (m.fiber a).replyTo <;> simp only [Module.withQueues, hto] <;> rfl

theorem regNotify_queues {cat id : Nat} : regNotify (m.withQueues i b d) a cat id ok =
    ((regNotify m a cat id ok).1.withQueues i b d, (regNotify m a cat id ok).2) := by
  by_cases hto : (m.fiber a).replyTo = .external
  · have hto' : ((m.withQueues i b d).fiber a).replyTo = .external := hto
    simp only [regNotify, if_pos hto, if_pos hto']
  · have hto' : ((m.withQueues i b d).fiber a).replyTo ≠ .external := hto
    simp only [regNotify, if_neg hto, if_neg hto']
    split <;> rfl

theorem unregNotify_queues {cat id : Nat} : unregNotify (m.withQueues i b d) a cat id =
    (unregNotify m a cat id).withQueues i b d := by
  unfold unregNotify
  rw [ite_queues]
  rfl

theorem notifyNext_queues {l : NotifyLoop} : notifyNext (m.withQueues i b d) a l ok =
    ((notifyNext m a l ok).1.withQueues i b d, (notifyNext m a l ok).2) := by
  unfold notifyNext
  cases l.rest with
  | nil => rfl
  | cons nc rest =>
      dsimp only
      split <;> rfl

theorem unlock_queues : unlock (m.withQueues i b d) a = (unlock m a).withQueues i b d := by
  unfold unlock
  rw [ite_queues]
  rfl

theorem call_queues {c : Call} {id : Nat} : call (m.withQueues i b d) a c now id ok =
    (call m a c now id ok).map fun r => (r.1.withQueues i b d, r.2) := by
  have hfiber : ((m.withQueues i b d).fiber a) = m.fiber a := rfl
  unfold call
  rw [hfiber]
  cases hn : (m.fiber a).notifying with
  | some l =>
      cases c with
      | notifyNext => exact congrArg some notifyNext_queues
      | _ => rfl
  | none =>
      cases c with
      | request j s msg => exact congrArg some requestCommon_queues
      | requestTimeout j s msg t => exact congrArg some requestCommon_queues
      | requestAsync j s msg => exact congrArg some requestAsync_queues
      | waitReply => exact congrArg (fun m => some (m, Effect.none)) waitReply_queues
      | gather => exact congrArg (fun m => some (m, Effect.none)) gather_queues
      | gatherNext =>
          simp only [gatherNext_queues, Option.map_map]
          rfl
      | reply r msg => exact congrArg some reply_queues
      | regNotify cat => exact congrArg some regNotify_queues
      | unregNotify cat id => exact congrArg (fun m => some (m, Effect.none)) unregNotify_queues
      | unlock => exact congrArg (fun m => some (m, Effect.none)) unlock_queues
      | ret =>
          simp only
          split <;> rfl
      | _ => rfl

end Queues

end Coseq
