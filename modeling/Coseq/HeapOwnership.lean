import Coseq.FiberModes
import Coseq.HeapOps

/-! Who owns the heap. Every block that has been allocated and neither freed nor lost is owned by something the
instance still reaches: an event of a queue or in the hand of a scheduler, a pending entry, a fiber with its stack, its
buffer and its queued replies, a listener, `ext_msg` or the buffer of an external thread. Nothing is freed that is not
owned. -/

namespace Coseq

open HeapLog (one Triple)

/-- A copy of a message. -/
def msgBlock (b : Block) (msg : Bytes) : Block → Nat := if msg = [] then 0 else one b

def Ev.blocks (dest : Origin) (e : Ev) : Block → Nat :=
  one (.event dest e.serial) + msgBlock (.eventMsg dest e.serial) e.msg

def ReplyRec.blocks (i : Nat) (a : FiberRef) (rr : ReplyRec) : Block → Nat :=
  one (.replyRec i a rr) + msgBlock (.replyMsg i a rr) rr.msg

def Fiber.blocks (i : Nat) (a : FiberRef) (f : Fiber) : Block → Nat :=
  one (.fiber i a) + one (.stack i a) + msgBlock (.srcBuf i a) f.srcBuf + (f.rq.map (ReplyRec.blocks i a)).sum

def eventBlocks (i : Nat) (l : List Ev) : Block → Nat := (l.map (Ev.blocks (.module i))).sum

def pendingBlocks (i : Nat) (l : List Pending) : Block → Nat := (l.map fun p => one (.pending i p)).sum

def fiberBlocks (i : Nat) (l : List FiberRef) (fiber : FiberRef → Fiber) : Block → Nat :=
  (l.map fun a => (fiber a).blocks i a).sum

def clientBlocks (i : Nat) (l : List NotifyClient) : Block → Nat := (l.map fun nc => one (.notifyClient i nc)).sum

/-- What module `i` owns. -/
def Module.blocks (i : Nat) (m : Module) : Block → Nat :=
  eventBlocks i m.queue + pendingBlocks i m.pending + fiberBlocks i m.fibers m.fiber + clientBlocks i m.notifyClients

section Parts

variable {i : Nat} {a : FiberRef} {b : Block} {msg : Bytes} {e : Ev} {m m' : Module}

theorem eventBlocks_append (l l' : List Ev) : eventBlocks i (l ++ l') = eventBlocks i l + eventBlocks i l' := by
  rw [eventBlocks, List.map_append, List.sum_append]
  rfl

theorem eventBlocks_cons (l : List Ev) : eventBlocks i (e :: l) = e.blocks (.module i) + eventBlocks i l := by
  rw [eventBlocks, List.map_cons, List.sum_cons]
  rfl

theorem eventBlocks_queue : eventBlocks i m.queue =
    eventBlocks i m.deferred + eventBlocks i m.batch + eventBlocks i m.inbox := by
  rw [Module.queue, eventBlocks_append, eventBlocks_append]

theorem blocks_congr (hqueue : eventBlocks i m'.queue = eventBlocks i m.queue) (hpending : m'.pending = m.pending)
    (hfibers : fiberBlocks i m'.fibers m'.fiber = fiberBlocks i m.fibers m.fiber)
    (hclients : m'.notifyClients = m.notifyClients) : m'.blocks i = m.blocks i := by
  rw [Module.blocks, Module.blocks, hqueue, hpending, hfibers, hclients]

/-- A fiber owns no more and no less when neither its buffer nor its queue of replies changes. -/
theorem Fiber.blocks_congr {f f' : Fiber} (hbuf : f'.srcBuf = f.srcBuf) (hrq : f'.rq = f.rq) :
    f'.blocks i a = f.blocks i a := by
  rw [Fiber.blocks, Fiber.blocks, hbuf, hrq]

theorem fiberBlocks_congr {l : List FiberRef} {fiber fiber' : FiberRef → Fiber}
    (h : ∀ a ∈ l, (fiber' a).blocks i a = (fiber a).blocks i a) : fiberBlocks i l fiber' = fiberBlocks i l fiber := by
  rw [fiberBlocks, fiberBlocks, List.map_congr_left h]

theorem fiberBlocks_same {l : List FiberRef} {fiber : FiberRef → Fiber} {f : Fiber}
    (h : f.blocks i a = (fiber a).blocks i a) :
    fiberBlocks i l (Function.update fiber a f) = fiberBlocks i l fiber := by
  refine fiberBlocks_congr fun c _ => ?_
  by_cases hc : c = a
  · subst hc
    rw [Function.update_self, h]
  · rw [Function.update_of_ne hc]

theorem allocMsg_heap : Triple 0 (allocMsg b msg) (msgBlock b msg) := by
  unfold allocMsg msgBlock
  split
  · exact .nil
  · exact .alloc

theorem freeMsg_heap : Triple (msgBlock b msg) (freeMsg b msg) 0 := by
  unfold freeMsg msgBlock
  split
  · exact .nil
  · exact .free

theorem dropMsg_heap : Triple (msgBlock b msg) (dropMsg b msg) 0 := by
  unfold dropMsg msgBlock
  split
  · exact .nil
  · exact .drop

theorem makeEv_heap (dest : Origin) (n : Nat) (e : Ev) :
    Triple 0 (makeEvHeap dest n (some e)) ({ e with serial := n }.blocks dest) :=
  Triple.alloc.append (allocMsg_heap.gains _)

theorem freeEv_heap (dest : Origin) (e : Ev) : Triple (e.blocks dest) (freeEv dest e.serial e) 0 :=
  freeMsg_heap.gives.append .free

theorem pendingTake_heap (l : List Pending) (r : Nat) :
    Triple (pendingBlocks i l) (pendingTakeHeap i l r) (pendingBlocks i (pendingTake l r)) := by
  have hops : pendingTakeHeap i l r =
      (l.find? fun p => p.reqId == r).elim [] fun p => [HeapLog.Op.free (.pending i p)] := by
    unfold pendingTakeHeap
    cases l.find? fun p => p.reqId == r <;> rfl
  rw [hops]
  exact Triple.eraseP (fun p => Triple.free) l

theorem pendingAdd_heap (l : List Pending) (r : Nat) (ok : Alloc) :
    Triple (pendingBlocks i l) (pendingAddHeap i r a ok)
      (pendingBlocks i (if ok .pendingEntry then ⟨r, a⟩ :: l else l)) := by
  unfold pendingAddHeap
  split
  · have hcons : pendingBlocks i (⟨r, a⟩ :: l) = pendingBlocks i l + one (.pending i ⟨r, a⟩) := by
      rw [pendingBlocks, List.map_cons, List.sum_cons, add_comm]
      rfl
    rw [hcons]
    exact Triple.alloc.gains _
  · exact .nil

/-- `set_src` has a buffer afterwards if it had one before or grows it. -/
theorem setSrc_heap (f : Fiber) (r : Result) (threadIdx seqIdx clientId reqId : Nat) (ok : Alloc) :
    Triple (msgBlock (.srcBuf i a) f.srcBuf) (setSrcHeap i a f msg ok)
      (msgBlock (.srcBuf i a) (f.setSrc msg r threadIdx seqIdx clientId reqId ok).srcBuf) := by
  unfold setSrcHeap
  split
  · rename_i hgrow
    have hnew : (f.setSrc msg r threadIdx seqIdx clientId reqId ok).srcBuf ≠ [] := by
      have hlen : 0 < (f.setSrc msg r threadIdx seqIdx clientId reqId ok).srcBuf.length := by
        simp [Fiber.setSrc, hgrow.2]
        omega
      exact List.ne_nil_of_length_pos hlen
    rw [show msgBlock (.srcBuf i a) (f.setSrc msg r threadIdx seqIdx clientId reqId ok).srcBuf = one (.srcBuf i a) from
      if_neg hnew]
    exact freeMsg_heap.append .alloc
  · rename_i hkeep
    have hlen : (f.setSrc msg r threadIdx seqIdx clientId reqId ok).srcBuf.length = f.srcBuf.length := by
      simp only [Fiber.setSrc, List.length_append, List.length_take, List.length_drop]
      split
      · omega
      · rename_i hno
        have hle : msg.length ≤ f.srcBuf.length := by
          by_contra hlt
          cases hb : ok .srcBuf with
          | true => exact hkeep ⟨by omega, hb⟩
          | false => exact hno ⟨by omega, hb⟩
        omega
    have hsame : msgBlock (.srcBuf i a) (f.setSrc msg r threadIdx seqIdx clientId reqId ok).srcBuf =
        msgBlock (.srcBuf i a) f.srcBuf := by
      refine if_congr ?_ rfl rfl
      rw [← List.length_eq_zero_iff, hlen, List.length_eq_zero_iff]
    rw [hsame]
    exact .nil

/-- A fiber's own part of what the module owns. -/
theorem fiber_heap {f : Fiber} {ops : List HeapOp} (hnodup : m.fibers.Nodup) (ha : a ∈ m.fibers)
    (h : Triple ((m.fiber a).blocks i a) ops (f.blocks i a)) :
    Triple (m.blocks i) ops ((m.setFiber a f).blocks i) := by
  have hown : Triple ((m.fiber a).blocks i a) ops (f.blocks i a + 0) := h
  have hfibers : Triple (fiberBlocks i m.fibers m.fiber) ops (fiberBlocks i m.fibers (Function.update m.fiber a f)) :=
    Triple.update (fun b g => Fiber.blocks i b g) hown hnodup ha
  exact (hfibers.frame _).frame_right _

theorem pending_heap {l : List Pending} {ops : List HeapOp}
    (h : Triple (pendingBlocks i m.pending) ops (pendingBlocks i l)) :
    Triple (m.blocks i) ops ({ m with pending := l }.blocks i) :=
  ((h.frame _).frame_right _).frame_right _

theorem resume_blocks (why : Wake) : (resume m a why).blocks i = m.blocks i :=
  blocks_congr rfl rfl (fiberBlocks_same (Fiber.blocks_congr rfl rfl)) rfl

theorem fiber_setSrc_heap (f : Fiber) (r : Result) (threadIdx seqIdx clientId reqId : Nat) (ok : Alloc) :
    Triple (f.blocks i a) (setSrcHeap i a f msg ok)
      ((f.setSrc msg r threadIdx seqIdx clientId reqId ok).blocks i a) :=
  ((setSrc_heap f r threadIdx seqIdx clientId reqId ok).frame _).frame_right _

end Parts

/-! ### The helpers and the scheduler -/

section Sched

variable {i : Nat} {a : FiberRef} {m m' : Module} {e : Ev} {now t : Timespec} {ok : Alloc} {msg : Bytes}

theorem replyRec_heap (rr : ReplyRec) :
    Triple 0 (.alloc (.replyRec i a rr) :: allocMsg (.replyMsg i a rr) rr.msg) (rr.blocks i a) :=
  Triple.alloc.append (allocMsg_heap.gains _)

/-- A reply that is appended to the queue of a fiber. -/
theorem Fiber.blocks_append (f : Fiber) (rr : ReplyRec) :
    ({ f with rq := f.rq ++ [rr] } : Fiber).blocks i a = f.blocks i a + rr.blocks i a := by
  simp only [Fiber.blocks, List.map_append, List.sum_append, List.map_cons, List.map_nil, List.sum_cons, List.sum_nil,
    add_zero, add_assoc]

theorem handleReply_heap (hnodup : m.fibers.Nodup) :
    Triple (m.blocks i) (handleReplyHeap i m e ok) ((handleReply m e ok).blocks i) := by
  unfold handleReplyHeap handleReply
  cases hpeek : pendingPeek m.pending e.reqId with
  | none => exact .nil
  | some a =>
      have htake : Triple (m.blocks i) (pendingTakeHeap i m.pending e.reqId)
          ({ m with pending := pendingTake m.pending e.reqId }.blocks i) := pending_heap (pendingTake_heap _ _)
      refine htake.append ?_
      dsimp only
      by_cases ha : a ∈ m.fibers
      · rw [if_neg (not_not.mpr ha), if_neg (not_not.mpr ha)]
        have hanswer : Triple ((m.fiber a).blocks i a) (setSrcHeap i a (m.fiber a) e.msg ok)
            (((m.fiber a).setSrc e.msg e.result e.requester.u8 (m.fiber a).seqIdx 0 e.reqId ok).blocks i a) :=
          fiber_setSrc_heap _ _ _ _ _ _ _
        by_cases hreply : ((m.fiber a).waitingReply && (m.fiber a).waitReqId == e.reqId) = true
        · rw [if_pos (by rw [hreply]; rfl), if_pos hreply, resume_blocks]
          exact fiber_heap hnodup ha hanswer
        · rw [if_neg hreply]
          by_cases hany : (m.fiber a).waitingAny = true
          · rw [if_pos (by rw [hany, Bool.or_true]), if_pos hany, resume_blocks]
            exact fiber_heap hnodup ha hanswer
          · rw [if_neg (by simp only [Bool.or_eq_true, not_or]; exact ⟨hreply, hany⟩), if_neg hany]
            split
            · refine fiber_heap hnodup ha ?_
              rw [Fiber.blocks_append]
              exact (replyRec_heap _).gains _
            · exact .nil
      · rw [if_pos ha, if_pos ha]
        exact .nil

theorem blank_srcBuf {f : Fiber} (hblank : f.srcBuf = []) (r : Result) (threadIdx seqIdx clientId reqId : Nat) :
    (f.setSrc msg r threadIdx seqIdx clientId reqId ok).srcBuf = if ok .srcBuf then msg else [] := by
  cases hb : ok .srcBuf <;> cases msg <;> simp [Fiber.setSrc, hblank, hb]

/-- The blocks of a new fiber come on top of the others. -/
theorem blocks_newFiber (hborn : ∀ a ∈ m.fibers, a < m.nextFiber) (f : Fiber) :
    { m.setFiber m.nextFiber f with nextFiber := m.nextFiber + 1, fibers := m.nextFiber :: m.fibers }.blocks i =
      m.blocks i + f.blocks i m.nextFiber := by
  have hothers : fiberBlocks i m.fibers (Function.update m.fiber m.nextFiber f) = fiberBlocks i m.fibers m.fiber :=
    fiberBlocks_congr fun b hb => by rw [Function.update_of_ne (Nat.ne_of_lt (hborn b hb))]
  have hfibers : fiberBlocks i (m.nextFiber :: m.fibers) (Function.update m.fiber m.nextFiber f) =
      f.blocks i m.nextFiber + fiberBlocks i m.fibers m.fiber := by
    rw [← hothers, fiberBlocks, List.map_cons, List.sum_cons, Function.update_self]
    rfl
  change eventBlocks i m.queue + pendingBlocks i m.pending +
    fiberBlocks i (m.nextFiber :: m.fibers) (Function.update m.fiber m.nextFiber f) +
      clientBlocks i m.notifyClients = _
  rw [hfibers, Module.blocks]
  abel

theorem newFiber_heap (hborn : ∀ a ∈ m.fibers, a < m.nextFiber) (fn : Fn) (seqIdx : Nat) (replyTo : Origin)
    (replyReqId : Nat) (r : Result) (threadIdx clientId : Nat) :
    Triple (m.blocks i) (newFiberHeap i m msg ok)
      (match newFiber m fn seqIdx replyTo replyReqId msg r threadIdx clientId ok with
        | none => m.blocks i
        | some (m', _) => m'.blocks i) := by
  have hsrc : Triple 0 (setSrcHeap i m.nextFiber Fiber.blank msg ok) (msgBlock (.srcBuf i m.nextFiber)
      (freshFiber fn seqIdx replyTo replyReqId msg r threadIdx clientId ok).srcBuf) :=
    setSrc_heap { Fiber.blank with fn := fn, seqIdx := seqIdx, replyTo := replyTo, replyReqId := replyReqId }
      r threadIdx seqIdx clientId replyReqId ok
  have hblocks : Triple 0 [.alloc (Block.fiber i m.nextFiber), .alloc (.stack i m.nextFiber)]
      (one (.fiber i m.nextFiber) + one (.stack i m.nextFiber)) := Triple.alloc.append (Triple.alloc.gains _)
  have hmade := hblocks.append (hsrc.gains _)
  unfold newFiber newFiberHeap
  cases ok .fiberBlock with
  | false => exact .nil
  | true =>
      cases ok .stack with
      | false =>
          have hundo : Triple 0 [.alloc (Block.fiber i m.nextFiber), .free (.fiber i m.nextFiber)] 0 :=
            Triple.alloc.append .free
          have hgain := hundo.gains (m.blocks i)
          rwa [add_zero] at hgain
      | true =>
          cases ok .context with
          | true =>
              have hfiber : (freshFiber fn seqIdx replyTo replyReqId msg r threadIdx clientId ok).blocks i m.nextFiber =
                  one (.fiber i m.nextFiber) + one (.stack i m.nextFiber) + msgBlock (.srcBuf i m.nextFiber)
                    (freshFiber fn seqIdx replyTo replyReqId msg r threadIdx clientId ok).srcBuf := add_zero _
              have hgain := hmade.gains (m.blocks i)
              rw [← hfiber, ← blocks_newFiber hborn,
                ← List.append_nil (setSrcHeap i m.nextFiber Fiber.blank msg ok)] at hgain
              exact hgain
          | false =>
              -- everything but the buffer is given back, and the buffer is lost
              have hback : Triple (one (Block.fiber i m.nextFiber) + one (.stack i m.nextFiber))
                  [.free (.stack i m.nextFiber), .free (.fiber i m.nextFiber)] 0 := Triple.free.gives.append .free
              have hlost : Triple (msgBlock (.srcBuf i m.nextFiber)
                  (freshFiber fn seqIdx replyTo replyReqId msg r threadIdx clientId ok).srcBuf)
                  (if ok .srcBuf then dropMsg (.srcBuf i m.nextFiber) msg else []) 0 := by
                rw [freshFiber, blank_srcBuf rfl]
                split
                · exact dropMsg_heap
                · rw [show msgBlock (.srcBuf i m.nextFiber) [] = 0 from if_pos rfl]
                  exact .nil
              have hgain := (hmade.append ((hback.frame_right _).append (hlost.frame 0))).gains (m.blocks i)
              rw [add_zero, add_zero] at hgain
              simpa using hgain

theorem startSeq_heap (hborn : ∀ a ∈ m.fibers, a < m.nextFiber) :
    Triple (m.blocks i) (startSeqHeap i m e ok) ((startSeq m e ok).blocks i) := by
  unfold startSeqHeap startSeq
  split
  · exact .nil
  · have hnew : Triple (m.blocks i) (newFiberHeap i m e.msg ok) _ :=
      newFiber_heap hborn (.seq e.seqIdx) e.seqIdx e.requester e.reqId .ignore e.requester.u8 0
    split
    · rename_i hnone
      rw [hnone] at hnew
      exact hnew
    · rename_i m' a hsome
      rw [hsome] at hnew
      rw [resume_blocks]
      exact hnew

theorem startNotify_heap (hborn : ∀ a ∈ m.fibers, a < m.nextFiber) :
    Triple (m.blocks i) (startNotifyHeap i m e ok) ((startNotify m e ok).blocks i) := by
  unfold startNotifyHeap startNotify
  split
  · have hnew : Triple (m.blocks i) (newFiberHeap i m e.msg ok) _ :=
      newFiber_heap hborn .recvNotify 0 .external 0 .success e.requester.u8 e.clientId
    split
    · rename_i hnone
      rw [hnone] at hnew
      exact hnew
    · rename_i m' a hsome
      rw [hsome] at hnew
      rw [resume_blocks]
      exact hnew
  · exact .nil

theorem timerTurn_heap (hnodup : m.fibers.Nodup) (ha : a ∈ m.fibers) :
    Triple (m.blocks i) (timerTurnHeap i m t a ok) ((timerTurn m t a ok).blocks i) := by
  unfold timerTurnHeap timerTurn
  dsimp only
  split
  · split
    · split
      · rw [resume_blocks]
        have htake : Triple (m.blocks i) (pendingTakeHeap i m.pending (m.fiber a).waitReqId)
            ({ m with pending := pendingTake m.pending (m.fiber a).waitReqId }.blocks i) :=
          pending_heap (pendingTake_heap _ _)
        exact htake.append (fiber_heap hnodup ha (fiber_setSrc_heap _ _ _ _ _ _ _))
      · rw [resume_blocks]
        exact .nil
    · exact .nil
  · exact .nil

/-- A reply record that is lost with its fiber. -/
theorem dropRec_heap (rr : ReplyRec) : Triple (rr.blocks i a) (rr.dropHeap i a) 0 :=
  dropMsg_heap.gives.append .drop

theorem freeFiber_heap (f : Fiber) : Triple (one (.fiber i a) + one (.stack i a) + msgBlock (.srcBuf i a) f.srcBuf)
    (f.freeHeap i a) 0 := by
  have hstack : Triple (one (.fiber i a) + one (.stack i a) + msgBlock (.srcBuf i a) f.srcBuf) [.free (.stack i a)]
      (one (.fiber i a) + msgBlock (.srcBuf i a) f.srcBuf) := Triple.free.gives.frame_right _
  exact hstack.append (freeMsg_heap.gives.append .free)

theorem reapDone_heap : Triple (m.blocks i) (reapDoneHeap i m) ((reapDone m).blocks i) := by
  have hfibers : Triple (fiberBlocks i m.fibers m.fiber) (reapDoneHeap i m)
      (fiberBlocks i (m.fibers.filter fun a => !(m.fiber a).done) m.fiber) := by
    have hkept : fiberBlocks i (m.fibers.filter fun a => !(m.fiber a).done) m.fiber =
        (m.fibers.map fun a => if (m.fiber a).done then 0 else (m.fiber a).blocks i a).sum := by
      rw [fiberBlocks]
      generalize m.fibers = l
      induction l with
      | nil => rfl
      | cons a l ih =>
          rw [List.map_cons, List.sum_cons, ← ih]
          cases hdone : (m.fiber a).done <;> simp [hdone]
    rw [hkept]
    refine Triple.flatMap fun a _ => ?_
    split
    · have hqueue : Triple ((m.fiber a).rq.map (ReplyRec.blocks i a)).sum
          ((m.fiber a).rq.flatMap (ReplyRec.dropHeap i a)) 0 := Triple.flatMap_nothing fun rr _ => dropRec_heap rr
      exact hqueue.gives.append (freeFiber_heap _)
    · exact .nil
  exact (hfibers.frame _).frame_right _

theorem mergeDeferred_blocks : (mergeDeferred m).blocks i = m.blocks i := by
  unfold mergeDeferred
  split
  · refine blocks_congr ?_ rfl rfl rfl
    rw [eventBlocks_queue, eventBlocks_queue]
    simp only [eventBlocks_append, show eventBlocks i [] = 0 from rfl]
    abel
  · rfl

theorem takeBatch_blocks (hbatch : m.batch = []) : (takeBatch m).blocks i = m.blocks i := by
  unfold takeBatch
  split
  · rfl
  · refine blocks_congr ?_ rfl rfl rfl
    rw [eventBlocks_queue, eventBlocks_queue, hbatch]
    simp only [show eventBlocks i [] = 0 from rfl]
    abel

theorem enterWait_blocks (hbatch : m.batch = []) : (enterWait m).blocks i = m.blocks i := by
  unfold enterWait
  split
  · rfl
  · exact takeBatch_blocks hbatch

/-- The head of the batch and the rest of the module. -/
theorem blocks_head {rest : List Ev} (hbatch : m.batch = e :: rest) :
    m.blocks i = { m with batch := rest }.blocks i + e.blocks (.module i) := by
  simp only [Module.blocks, eventBlocks_queue, hbatch, eventBlocks_cons]
  abel

/-- The blocks of the event that a turn consumes. -/
def Module.spentBlocks (i : Nat) (m : Module) : Block → Nat :=
  match m.spent with
  | some e => e.blocks (.module i)
  | none => 0

theorem dispatch_heap {rest : List Ev} (hmodes : Modes m) (hphase : m.phase = .events) (hbatch : m.batch = e :: rest) :
    Triple (m.blocks i) (dispatchHeap i m e ok)
      ((dispatch { m with batch := rest } e ok).blocks i + m.spentBlocks i) := by
  have hspent : m.spentBlocks i = if m.consumes e then e.blocks (.module i) else 0 := by
    have hfilter : m.spent = if m.consumes e then some e else none := by
      rw [Module.spent, hphase, hbatch]
      exact Option.filter_some
    rw [Module.spentBlocks, hfilter]
    cases m.consumes e <;> rfl
  rw [blocks_head hbatch]
  unfold dispatchHeap dispatch
  by_cases hlock : m.lockedBy ≠ none ∧ e.type ≠ .notify
  · rw [if_pos hlock, if_pos hlock]
    by_cases hown : e.type = .reply ∧ pendingPeek m.pending e.reqId = m.lockedBy
    · rw [if_pos hown, if_pos hown, hspent, if_pos (by simp [Module.consumes, hlock, hown])]
      exact (handleReply_heap (m := { m with batch := rest }) hmodes.nodup).frame_right _
    · rw [if_neg hown, if_neg hown, hspent, if_neg (by simp [Module.consumes, hlock, hown]), add_zero]
      have hdefer : (Module.deferEv { m with batch := rest } e).blocks i =
          { m with batch := rest }.blocks i + e.blocks (.module i) := by
        simp only [Module.blocks, eventBlocks_queue, Module.deferEv, eventBlocks_append, eventBlocks_cons,
          show eventBlocks i [] = 0 from rfl]
        abel
      rw [hdefer]
      exact .nil
  · rw [if_neg hlock, if_neg hlock, hspent, if_pos (by simp only [Module.consumes, hlock]; rfl)]
    refine Triple.frame_right ?_ _
    cases e.type with
    | start => exact startSeq_heap (m := { m with batch := rest }) hmodes.born
    | reply => exact handleReply_heap (m := { m with batch := rest }) hmodes.nodup
    | notify => exact startNotify_heap (m := { m with batch := rest }) hmodes.born

theorem sched_heap (hmodes : Modes m) :
    Triple (m.blocks i) (schedHeap i m ok) ((Coseq.sched m now ok).blocks i + m.spentBlocks i) := by
  have hidle : m.phase ≠ .events → m.spentBlocks i = 0 := fun hno => by
    unfold Module.spentBlocks Module.spent
    cases hphase : m.phase with
    | events => exact absurd hphase hno
    | _ => rfl
  cases hphase : m.phase with
  | events =>
      cases hbatch : m.batch with
      | nil =>
          have hops : schedHeap i m ok = reapDoneHeap i m := by rw [schedHeap, hphase, hbatch]
          have hsched : (Coseq.sched m now ok).blocks i = (reapDone m).blocks i := by
            rw [Coseq.sched, hphase, hbatch]
            exact blocks_congr rfl rfl rfl rfl
          have hnone : m.spentBlocks i = 0 := by
            rw [Module.spentBlocks, Module.spent, hphase, hbatch]
            rfl
          rw [hops, hsched, hnone, add_zero]
          exact reapDone_heap
      | cons e rest =>
          have hops : schedHeap i m ok = dispatchHeap i m e ok := by rw [schedHeap, hphase, hbatch]
          have hsched : Coseq.sched m now ok = dispatch { m with batch := rest } e ok := by
            rw [Coseq.sched, hphase, hbatch]
          rw [hops, hsched]
          exact dispatch_heap hmodes hphase hbatch
  | timers t rest =>
      rw [hidle (by rw [hphase]; exact Phase.noConfusion), add_zero]
      cases rest with
      | nil =>
          have hops : schedHeap i m ok = [] := by rw [schedHeap, hphase]
          have hsched : (Coseq.sched m now ok).blocks i = m.blocks i := by
            rw [Coseq.sched, hphase]
            exact blocks_congr rfl rfl rfl rfl
          rw [hops, hsched]
          exact .nil
      | cons a rest =>
          have hops : schedHeap i m ok = timerTurnHeap i m t a ok := by rw [schedHeap, hphase]
          have hsched : Coseq.sched m now ok = timerTurn { m with phase := .timers t rest } t a ok := by
            rw [Coseq.sched, hphase]
          rw [hops, hsched]
          have ha := hmodes.timers t (a :: rest) hphase a List.mem_cons_self
          exact timerTurn_heap (m := { m with phase := .timers t rest }) hmodes.nodup ha
  | top =>
      have hbatch : (mergeDeferred m).batch = [] := by
        have hsame : (mergeDeferred m).batch = m.batch := by rw [merge_eq]
        rw [hsame]
        exact (hmodes.swept (.inl hphase)).1
      have hops : schedHeap i m ok = [] := by rw [schedHeap, hphase]
      have hsched : Coseq.sched m now ok = enterWait (mergeDeferred m) := by rw [Coseq.sched, hphase]
      rw [hops, hsched, hidle (by rw [hphase]; exact Phase.noConfusion), add_zero, enterWait_blocks hbatch,
        mergeDeferred_blocks]
      exact .nil
  | waiting d =>
      have hops : schedHeap i m ok = [] := by rw [schedHeap, hphase]
      have hsched : Coseq.sched m now ok = takeBatch m := by rw [Coseq.sched, hphase]
      rw [hops, hsched, hidle (by rw [hphase]; exact Phase.noConfusion), add_zero,
        takeBatch_blocks (hmodes.swept (.inr ⟨d, hphase⟩)).1]
      exact .nil
  | clock =>
      have hops : schedHeap i m ok = [] := by rw [schedHeap, hphase]
      have hsched : (Coseq.sched m now ok).blocks i = m.blocks i := by
        rw [Coseq.sched, hphase]
        exact blocks_congr rfl rfl rfl rfl
      rw [hops, hsched, hidle (by rw [hphase]; exact Phase.noConfusion), add_zero]
      exact .nil
  | _ =>
      have hops : schedHeap i m ok = [] := by rw [schedHeap, hphase]
      have hsched : Coseq.sched m now ok = m := by rw [Coseq.sched, hphase]
      rw [hops, hsched, hidle (by rw [hphase]; exact Phase.noConfusion), add_zero]
      exact .nil

end Sched

end Coseq
