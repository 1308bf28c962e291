import Coseq.EventPartition
import Coseq.Monitor

/-! The inbox under its mutex, instruction by instruction: `post` and the start of `stop_modules` on the one side, the
critical section of `sched_loop` on the other. Any number of threads post; one of them stands for the module's own
thread when a fiber posts to its own module. -/

namespace Coseq

open TailQueue (Addr)

/-! ### Posting and stopping -/

/-- What a thread wants of the module. -/
inductive Job where
  | post (e : Ev)
  | stop

/-- Where a thread is in `post` or in the first loop of `stop_modules`. -/
inductive PostPoint where
  | away
  | lock (job : Job)
  | link (e : Ev)
  | setTail (e : Ev)
  | setStop
  | signal
  | unlock

/-- The new node `a`, with the `next` pointer of the node at the tail. -/
def linkHeap (h : TailQueue.Heap Ev) (tail : Option Addr) (a : Addr) (e : Ev) : TailQueue.Heap Ev :=
  let h : TailQueue.Heap Ev := Function.update h a (some ⟨e, none⟩)
  match tail with
  | some t => h.setNext t (some a)
  | none => h

namespace LinkedModule

variable (l : LinkedModule)

/-- The first write: `inbox_tail->next = e`, or `inbox_head = e`. -/
def linkNode (e : Ev) : LinkedModule :=
  { l with
    heap := linkHeap l.heap l.inbox.tail l.core.posted { e with serial := l.core.posted }
    inbox := match l.inbox.tail with
      | some _ => l.inbox
      | none => ⟨some l.core.posted, none⟩ }

/-- The second write: `inbox_tail = e`. -/
def advanceTail (e : Ev) : LinkedModule :=
  { l with
    core := { l.core with
      posted := l.core.posted + 1
      trace := l.core.trace ++ [.arrived { e with serial := l.core.posted }] }
    inbox := ⟨l.inbox.head, some l.core.posted⟩ }

def setStop : LinkedModule := { l with core := { l.core with stop := true } }

end LinkedModule

def postCode : Monitor.Code LinkedModule PostPoint Job where
  instr
    | .away => .away
    | .lock _ => .lock
    | .link _ | .setTail _ | .setStop => .inside
    | .signal => .signal
    | .unlock => .unlock
  next
    | .lock (.post e) => .link e
    | .lock .stop => .setStop
    | .signal => .unlock
    | _ => .away
  run
    | .away, job, l => some (.lock job, l)
    | .link e, _, l => some (.setTail e, l.linkNode e)
    | .setTail e, _, l => some (.signal, l.advanceTail e)
    | .setStop, _, l => some (.signal, l.setStop)
    | _, _, _ => none

/-! ### The scheduler -/

/-- Where the thread is in `sched_loop`. `away` is the code between the critical sections, with the fibers it runs,
and `crashed` a null pointer that is followed inside. -/
inductive SchedPoint where
  | away
  | lock
  | merge
  | test
  | wait
  | relock
  | look
  | take
  | unlock
  | exit
  | ended
  | crashed
  deriving DecidableEq

namespace LinkedModule

variable (l : LinkedModule)

/-- The act belongs to the code between the critical sections. -/
def runsAway : ModAct → Bool
  | .sched .. =>
      match l.core.phase with
      | .top | .waiting _ => false
      | _ => true
  | .call .. => true
  | .stop => false

/-- After the last event the thread is before `pthread_mutex_lock` again. -/
def pointAfter : SchedPoint := if l.core.phase = .top then .lock else .away

def park : LinkedModule := { l with core := { l.core with phase := .waiting (nearest l.core) } }

def halt : LinkedModule := { l with core := { l.core with phase := .stopped } }

def detach : LinkedModule :=
  { l with core := { l.core with phase := .clock }, evs := l.inbox.head, inbox := .empty }

end LinkedModule

def schedCode : Monitor.Code LinkedModule SchedPoint ModAct where
  instr
    | .away | .ended => .away
    | .lock | .relock => .lock
    | .merge | .test | .look | .take | .crashed => .inside
    | .wait => .wait
    | .unlock | .exit => .unlock
  next
    | .lock => .merge
    | .wait => .relock
    | .relock => .look
    | .unlock => .away
    | .exit => .ended
    | p => p
  run
    | .away, c, l => if l.runsAway c then (l.act c).map fun r => (r.1.pointAfter, r.1) else none
    | .merge, _, l => some ((l.mergeDeferred.map fun l => (.test, l)).getD (.crashed, l.crash))
    | .test, _, l =>
        some (if l.inbox.head = none ∧ l.core.stop = false then (.wait, l.park) else (.look, l))
    | .look, _, l => some (if l.core.stop then (.exit, l.halt) else (.take, l))
    | .take, _, l => some (.unlock, l.detach)
    | _, _, _ => none

theorem postCode_guarded : postCode.Guarded := by
  refine ⟨fun p hp => ?_, fun p hp => ?_, fun p hp => ?_, fun p hp => ?_, fun p c l p' l' hrun => ?_⟩
  · cases p with
    | lock job => cases job <;> rfl
    | _ => cases hp
  · cases p with
    | signal => rfl
    | _ => cases hp
  · cases p <;> cases hp
  · cases p with
    | unlock => rfl
    | _ => cases hp
  · cases p <;> first | cases hrun; done | (obtain ⟨rfl, -⟩ := Prod.mk.inj (Option.some.inj hrun); rfl)

theorem schedCode_guarded : schedCode.Guarded := by
  refine ⟨fun p hp => ?_, fun p hp => ?_, fun p hp => ?_, fun p hp => ?_, fun p c l p' l' hrun => ?_⟩
  · cases p with
    | lock => rfl
    | relock => rfl
    | _ => cases hp
  · cases p <;> cases hp
  · cases p with
    | wait => rfl
    | _ => cases hp
  · cases p with
    | unlock => rfl
    | exit => rfl
    | _ => cases hp
  · cases p with
    | away =>
        obtain ⟨-, hact⟩ := Option.ite_none_right_eq_some.mp hrun
        obtain ⟨r, -, heq⟩ := Option.map_eq_some_iff.mp hact
        obtain ⟨rfl, -⟩ := Prod.mk.inj heq
        unfold LinkedModule.pointAfter
        split <;> rfl
    | merge =>
        have hpair := Option.some.inj hrun
        cases hmerge : l.mergeDeferred with
        | none =>
            rw [hmerge] at hpair
            obtain ⟨rfl, -⟩ := Prod.mk.inj hpair
            rfl
        | some l₁ =>
            rw [hmerge] at hpair
            obtain ⟨rfl, -⟩ := Prod.mk.inj hpair
            rfl
    | test =>
        have hpair := Option.some.inj hrun
        split at hpair <;> (obtain ⟨rfl, -⟩ := Prod.mk.inj hpair; rfl)
    | look =>
        have hpair := Option.some.inj hrun
        split at hpair <;> (obtain ⟨rfl, -⟩ := Prod.mk.inj hpair; rfl)
    | take =>
        obtain ⟨rfl, -⟩ := Prod.mk.inj (Option.some.inj hrun)
        rfl
    | _ => cases hrun

end Coseq
