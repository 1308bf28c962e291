import Coseq.HeapOwnership
import Coseq.SystemModule

/-! The heap of a whole instance. Whatever the sequences call, whatever fails and in whatever order the threads run,
no block is freed that is not owned, and what has been allocated and not yet freed or lost is what is owned. -/

namespace Coseq

open HeapLog (one Triple)

section Calls

variable {i : Nat} {a : FiberRef} {m m' : Module} {ok : Alloc} {c : Call} {now : Timespec} {next : Nat} {eff : Effect}

theorem pendingAdd_block (m : Module) (i r : Nat) (a : FiberRef) (ok : Alloc) :
    Triple (m.blocks i) (pendingAddHeap i r a ok) ((pendingAdd m r a ok).blocks i) := by
  have hadd := pending_heap (m := m) (pendingAdd_heap (i := i) (a := a) m.pending r ok)
  have hsame : (pendingAdd m r a ok).blocks i =
      { m with pending := if ok .pendingEntry then ⟨r, a⟩ :: m.pending else m.pending }.blocks i := by
    unfold pendingAdd
    split <;> rfl
  rwa [hsame]

/-- A module in which only a fiber changes, and neither its buffer nor its queue of replies, owns the same. -/
theorem blocks_kept (f : Fiber) (hfiber : m'.fiber = Function.update m.fiber a f) (hfibers : m'.fibers = m.fibers)
    (hqueue : m'.queue = m.queue) (hpending : m'.pending = m.pending) (hclients : m'.notifyClients = m.notifyClients)
    (hbuf : f.srcBuf = (m.fiber a).srcBuf) (hrq : f.rq = (m.fiber a).rq) : m'.blocks i = m.blocks i := by
  refine blocks_congr (congrArg _ hqueue) hpending ?_ hclients
  rw [hfiber, hfibers]
  exact fiberBlocks_same (Fiber.blocks_congr hbuf hrq)

theorem pendingAdd_fiber (r : Nat) : (pendingAdd m r a ok).fiber = m.fiber := by
  unfold pendingAdd
  split <;> rfl

theorem requestCommon_heap (kind : ReqKind) (d seq : Nat) (msg : Bytes) :
    Triple (m.blocks i) (pendingAddHeap i m.reqId a ok) ((requestCommon m a kind d seq msg ok).1.blocks i) := by
  have hadd := pendingAdd_block (takeReqId m a kind d seq) i m.reqId a ok
  have hsame : (requestCommon m a kind d seq msg ok).1.blocks i =
      (pendingAdd (takeReqId m a kind d seq) m.reqId a ok).blocks i := by
    unfold requestCommon
    dsimp only
    refine blocks_kept _ rfl rfl rfl rfl rfl ?_ ?_ <;> rw [pendingAdd_fiber] <;> cases kind <;> rfl
  rw [hsame]
  exact hadd

theorem requestAsync_heap (d seq : Nat) (msg : Bytes) :
    Triple (m.blocks i) (pendingAddHeap i m.reqId a ok) ((requestAsync m a d seq msg ok).1.blocks i) := by
  have hadd := pendingAdd_block (takeReqId m a .async d seq) i m.reqId a ok
  have hsame : (requestAsync m a d seq msg ok).1.blocks i =
      (pendingAdd (takeReqId m a .async d seq) m.reqId a ok).blocks i := by
    unfold requestAsync
    dsimp only
    refine blocks_kept _ rfl rfl rfl rfl rfl ?_ ?_ <;> rw [pendingAdd_fiber] <;> rfl
  rw [hsame]
  exact hadd

/-- The head of the queue of replies goes into the buffer and is freed. -/
theorem dequeued_heap {f : Fiber} {rr : ReplyRec} {rest : List ReplyRec} (hrq : f.rq = rr :: rest) :
    Triple (f.blocks i a)
      (setSrcHeap i a f rr.msg ok ++ freeMsg (.replyMsg i a rr) rr.msg ++ [.free (.replyRec i a rr)])
      ((f.dequeued rr rest ok).blocks i a) := by
  have hhead : f.blocks i a = { f with rq := rest }.blocks i a + rr.blocks i a := by
    simp only [Fiber.blocks, hrq, List.map_cons, List.sum_cons]
    abel
  have hset : Triple ({ f with rq := rest }.blocks i a) (setSrcHeap i a f rr.msg ok)
      ((f.dequeued rr rest ok).blocks i a) :=
    fiber_setSrc_heap { f with rq := rest } rr.result 0 f.seqIdx 0 rr.reqId ok
  have hfree : Triple (rr.blocks i a) (freeMsg (.replyMsg i a rr) rr.msg ++ [.free (.replyRec i a rr)]) 0 :=
    freeMsg_heap.gives.append .free
  rw [hhead, List.append_assoc]
  exact (hset.frame_right _).append hfree.gives

theorem noReply_blocks (gather : Bool) : (noReply m a gather).blocks i = m.blocks i := by
  unfold noReply
  dsimp only
  split
  · exact blocks_kept _ rfl rfl rfl rfl rfl rfl rfl
  · rfl

theorem waitReply_heap (hnodup : m.fibers.Nodup) (ha : a ∈ m.fibers) (gather : Bool) :
    Triple (m.blocks i) (waitReplyHeap i a (m.fiber a) ok) ((waitReply m a gather ok).blocks i) := by
  cases hrq : (m.fiber a).rq with
  | nil =>
      have hops : waitReplyHeap i a (m.fiber a) ok = [] := by rw [waitReplyHeap, hrq]
      have hsame : (waitReply m a gather ok).blocks i = m.blocks i := by
        unfold waitReply
        dsimp only
        split
        · exact noReply_blocks gather
        · rw [hrq]
          exact blocks_kept _ rfl rfl rfl rfl rfl rfl hrq.symm
      rw [hops, hsame]
      exact .nil
  | cons rr rest =>
      have hops : waitReplyHeap i a (m.fiber a) ok = setSrcHeap i a (m.fiber a) rr.msg ok ++
          freeMsg (.replyMsg i a rr) rr.msg ++ [.free (.replyRec i a rr)] := by rw [waitReplyHeap, hrq]
      have htake : waitReply m a gather ok = takeQueued m a gather rr rest ok := by
        unfold waitReply
        dsimp only
        rw [hrq, if_neg fun hnone => List.cons_ne_nil rr rest hnone.2]
      rw [hops, htake]
      exact fiber_heap hnodup ha (dequeued_heap hrq)

/-- `coseq_wait_reply` inside a call that has changed neither the buffer nor the queue of replies. -/
theorem waitReply_inner (f : Fiber) (hblocks : m'.blocks i = m.blocks i)
    (hfiber : m'.fiber = Function.update m.fiber a f) (hfibers : m'.fibers = m.fibers)
    (hbuf : f.srcBuf = (m.fiber a).srcBuf) (hrq : f.rq = (m.fiber a).rq)
    (hnodup : m.fibers.Nodup) (ha : a ∈ m.fibers) (gather : Bool) :
    Triple (m.blocks i) (waitReplyHeap i a (m.fiber a) ok) ((waitReply m' a gather ok).blocks i) := by
  have hops : waitReplyHeap i a (m.fiber a) ok = waitReplyHeap i a (m'.fiber a) ok := by
    simp only [waitReplyHeap, setSrcHeap, hfiber, Function.update_self, hbuf, hrq]
  have hwait : Triple (m'.blocks i) (waitReplyHeap i a (m'.fiber a) ok) ((waitReply m' a gather ok).blocks i) :=
    waitReply_heap (hfibers ▸ hnodup) (hfibers ▸ ha) gather
  rw [hops, ← hblocks]
  exact hwait

theorem gather_heap (hnodup : m.fibers.Nodup) (ha : a ∈ m.fibers) :
    Triple (m.blocks i) (waitReplyHeap i a (m.fiber a) ok) ((gather m a ok).blocks i) := by
  let f : Fiber := { m.fiber a with gathers := 0 :: (m.fiber a).gathers }
  have hsame : ((m.setFiber a f).log (.gathering a)).blocks i = m.blocks i :=
    blocks_kept f rfl rfl rfl rfl rfl rfl rfl
  exact waitReply_inner f hsame rfl rfl rfl rfl hnodup ha true

theorem gatherNext_heap (hnodup : m.fibers.Nodup) (ha : a ∈ m.fibers) (h : gatherNext m a ok = some m') :
    Triple (m.blocks i) (waitReplyHeap i a (m.fiber a) ok) (m'.blocks i) := by
  unfold gatherNext at h
  dsimp only at h
  split at h
  · rename_i n rest _
    obtain rfl := Option.some.inj h
    let f : Fiber := { m.fiber a with gathers := (n + 1) :: rest }
    have hsame : (m.setFiber a f).blocks i = m.blocks i := blocks_kept f rfl rfl rfl rfl rfl rfl rfl
    exact waitReply_inner f hsame rfl rfl rfl rfl hnodup ha true
  · cases h

theorem client_heap {l : List NotifyClient} {ops : List HeapOp}
    (h : Triple (clientBlocks i m.notifyClients) ops (clientBlocks i l)) :
    Triple (m.blocks i) ops ({ m with notifyClients := l }.blocks i) := h.frame _

theorem regNotify_heap (category : Nat) : Triple (m.blocks i) (regNotifyHeap i (m.fiber a) category next ok)
    ((regNotify m a category next ok).1.blocks i) := by
  unfold regNotifyHeap regNotify
  dsimp only
  by_cases hext : (m.fiber a).replyTo = .external
  · rw [if_pos hext, if_pos hext]
    exact .nil
  · rw [if_neg hext, if_neg hext]
    by_cases hok : ok .notifyClient = true
    · rw [if_pos hok, if_pos hok]
      have hcons : ∀ nc, clientBlocks i (nc :: m.notifyClients) =
          clientBlocks i m.notifyClients + one (.notifyClient i nc) := fun nc => by
        rw [clientBlocks, List.map_cons, List.sum_cons, add_comm]
        rfl
      have hadd := Triple.alloc (b := Block.notifyClient i
        ⟨category, (m.fiber a).replyTo, if next = 255 then 0 else next⟩)
      exact client_heap (hcons _ ▸ hadd.gains _)
    · rw [if_neg hok, if_neg hok]
      exact .nil

theorem unregNotify_heap (category clientId : Nat) : Triple (m.blocks i) (unregNotifyHeap i m category clientId)
    ((unregNotify m a category clientId).blocks i) := by
  let hit := fun nc : NotifyClient => nc.category == category && nc.clientId == clientId
  have hops : unregNotifyHeap i m category clientId =
      (m.notifyClients.find? hit).elim [] fun nc => [HeapLog.Op.free (.notifyClient i nc)] := by
    unfold unregNotifyHeap
    cases m.notifyClients.find? fun nc => nc.category == category && nc.clientId == clientId <;> rfl
  have hlist : Triple (clientBlocks i m.notifyClients) (unregNotifyHeap i m category clientId)
      (clientBlocks i (m.notifyClients.eraseP hit)) := by
    rw [hops]
    exact Triple.eraseP (fun nc => Triple.free) _
  have hsame : (unregNotify m a category clientId).blocks i =
      { m with notifyClients := m.notifyClients.eraseP hit }.blocks i := by
    unfold unregNotify
    dsimp only
    split
    · rfl
    · rename_i hany
      have herase : m.notifyClients.eraseP hit = m.notifyClients :=
        List.eraseP_of_forall_not fun nc hnc hhit => hany (List.any_eq_true.mpr ⟨nc, hnc, hhit⟩)
      rw [herase]
  rw [hsame]
  exact client_heap hlist

theorem makeEv_freed (dest : Origin) (n : Nat) (e : Ev) :
    Triple (0 : Block → Nat) (makeEvHeap dest n (some e) ++ freeEv dest n e) 0 :=
  (makeEv_heap dest n e).append (freeEv_heap dest { e with serial := n })

/-- A notification is freed at once when its listener is no module. -/
theorem notifyNext_heap (l : NotifyLoop) (hl : (m.fiber a).notifying = some l) :
    Triple (m.blocks i) (callHeap i m a .notifyNext next ok) ((notifyNext m a l ok).1.blocks i) := by
  have hsame : (notifyNext m a l ok).1.blocks i = m.blocks i := by
    unfold notifyNext
    dsimp only
    split
    · exact blocks_kept _ rfl rfl rfl rfl rfl rfl rfl
    · split <;> exact blocks_kept _ rfl rfl rfl rfl rfl rfl rfl
  have hback : Triple (0 : Block → Nat) (callHeap i m a .notifyNext next ok) 0 := by
    unfold callHeap
    rw [hl]
    dsimp only
    split
    · split
      · split
        · exact .nil
        · exact makeEv_freed _ _ _
      · exact .nil
    · exact .nil
  have hgain := hback.gains (m.blocks i)
  rw [add_zero] at hgain
  rw [hsame]
  exact hgain

/-- A call of the running fiber, up to its effect. -/
theorem call_heap (hnodup : m.fibers.Nodup) (ha : a ∈ m.fibers)
    (h : Coseq.call m a c now next ok = some (m', eff)) :
    Triple (m.blocks i) (callHeap i m a c next ok) (m'.blocks i) := by
  unfold Coseq.call at h
  cases hloop : (m.fiber a).notifying with
  | some l =>
      rw [hloop] at h
      cases c with
      | notifyNext =>
          obtain rfl : (notifyNext m a l ok).1 = m' := congrArg Prod.fst (Option.some.inj h)
          exact notifyNext_heap l hloop
      | _ => cases h
  | none =>
      rw [hloop] at h
      cases c with
      | request d seq msg =>
          obtain rfl : (request m a d seq msg ok).1 = m' := congrArg Prod.fst (Option.some.inj h)
          exact requestCommon_heap _ d seq msg
      | requestTimeout d seq msg t =>
          obtain rfl : (requestTimeout m a d seq msg t now ok).1 = m' := congrArg Prod.fst (Option.some.inj h)
          exact requestCommon_heap _ d seq msg
      | requestAsync d seq msg =>
          obtain rfl : (requestAsync m a d seq msg ok).1 = m' := congrArg Prod.fst (Option.some.inj h)
          exact requestAsync_heap d seq msg
      | send d seq msg =>
          obtain rfl : (send m a d seq msg ok).1 = m' := congrArg Prod.fst (Option.some.inj h)
          exact .nil
      | waitReply =>
          obtain rfl : waitReply m a false ok = m' := congrArg Prod.fst (Option.some.inj h)
          exact waitReply_heap hnodup ha false
      | gather =>
          obtain rfl : gather m a ok = m' := congrArg Prod.fst (Option.some.inj h)
          exact gather_heap hnodup ha
      | gatherNext =>
          obtain ⟨m₁, hgather, hm₁⟩ := Option.map_eq_some_iff.mp h
          obtain rfl : m₁ = m' := congrArg Prod.fst hm₁
          exact gatherNext_heap hnodup ha hgather
      | reply r msg =>
          obtain rfl : (reply m a r msg ok).1 = m' := congrArg Prod.fst (Option.some.inj h)
          have hsame : (reply m a r msg ok).1.blocks i = m.blocks i := by
            unfold reply
            dsimp only
            split <;> rfl
          rw [hsame]
          exact .nil
      | waitTimeout t =>
          obtain rfl : waitTimeout m a t now = m' := congrArg Prod.fst (Option.some.inj h)
          have hsame : (waitTimeout m a t now).blocks i = m.blocks i := blocks_kept _ rfl rfl rfl rfl rfl rfl rfl
          rw [hsame]
          exact .nil
      | regNotify category =>
          obtain rfl : (regNotify m a category next ok).1 = m' := congrArg Prod.fst (Option.some.inj h)
          exact regNotify_heap category
      | unregNotify category clientId =>
          obtain rfl : unregNotify m a category clientId = m' := congrArg Prod.fst (Option.some.inj h)
          exact unregNotify_heap category clientId
      | notify category msg =>
          obtain rfl : notify m a category msg = m' := congrArg Prod.fst (Option.some.inj h)
          have hsame : (notify m a category msg).blocks i = m.blocks i := blocks_kept _ rfl rfl rfl rfl rfl rfl rfl
          rw [hsame]
          exact .nil
      | notifyNext => cases h
      | lock =>
          obtain rfl : lock m a = m' := congrArg Prod.fst (Option.some.inj h)
          exact .nil
      | unlock =>
          obtain rfl : unlock m a = m' := congrArg Prod.fst (Option.some.inj h)
          have hsame : (unlock m a).blocks i = m.blocks i := by
            unfold unlock
            split <;> rfl
          rw [hsame]
          exact .nil
      | ret =>
          obtain ⟨-, hret⟩ := Option.ite_none_right_eq_some.mp h
          obtain rfl : ret m a = m' := congrArg Prod.fst (Option.some.inj hret)
          have hsame : (ret m a).blocks i = m.blocks i := blocks_kept _ rfl rfl rfl rfl rfl rfl rfl
          rw [hsame]
          exact .nil

end Calls

end Coseq
