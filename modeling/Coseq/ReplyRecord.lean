import Coseq.EventQueue

/-! The source record `coseq_wait_reply` hands out for one reply, on its two ways: written from the event
when the fiber is parked in the call, or kept in the reply queue as a `reply_rec_t` and written from that
when the fiber calls. -/

namespace Coseq

variable {m : Module} {a : FiberRef} {f : Fiber} {e : Ev} {ok : Alloc}

/-- What a caller reads of its source record: the fields, and the bytes that `msg` points to. -/
def Fiber.source (f : Fiber) : Src × Bytes := (f.src, f.message)

/-- How many bytes of a message of length `n` have a place in the source buffer. -/
def Fiber.room (f : Fiber) (n : Nat) (ok : Alloc) : Nat :=
  if f.srcBuf.length < n ∧ ok .srcBuf = false then f.srcBuf.length else n

/-- The `reply_rec_t` made of a reply. -/
def Ev.record (e : Ev) (ok : Alloc) : ReplyRec := ⟨e.reqId, e.result, if ok .replyMsg then e.msg else []⟩

theorem Fiber.room_le (f : Fiber) (n : Nat) (ok : Alloc) : f.room n ok ≤ n := by
  unfold Fiber.room
  split <;> omega

theorem Fiber.room_granted (f : Fiber) (n : Nat) (hok : ok .srcBuf = true) : f.room n ok = n := by
  simp [Fiber.room, hok]

/-- The bytes read back are those written. -/
theorem Fiber.setSrc_source (f : Fiber) (msg : Bytes) (r : Result) (t s c rid : Nat) (ok : Alloc) :
    (f.setSrc msg r t s c rid ok).source =
      (⟨t, s, rid, r, c, f.room msg.length ok⟩, msg.take (f.room msg.length ok)) := by
  have hroom := f.room_le msg.length ok
  have hmessage : (f.setSrc msg r t s c rid ok).message = msg.take (f.room msg.length ok) := by
    change (msg.take (f.room msg.length ok) ++ f.srcBuf.drop (f.room msg.length ok)).take
      (f.room msg.length ok) = _
    exact List.take_left' (by rw [List.length_take, Nat.min_eq_left hroom])
  exact Prod.ext rfl hmessage

/-- The source after a reply that finds the fiber parked in `coseq_wait_reply`. -/
theorem handleReply_source (hpeek : pendingPeek m.pending e.reqId = some a) (halive : a ∈ m.fibers)
    (hwait : (m.fiber a).waitingAny = true) :
    ((handleReply m e ok).fiber a).source = ((m.fiber a).answered e ok).source := by
  have hparked : handleReply m e ok =
      resume ({ m with pending := pendingTake m.pending e.reqId }.setFiber a ((m.fiber a).answered e ok)) a .reply := by
    simp only [handleReply, hpeek, hwait, if_true]
    rw [if_neg (not_not.mpr halive)]
    exact ite_self _
  rw [hparked]
  simp only [resume, Module.setFiber, Function.update_self]
  rfl

/-- A reply that finds the fiber elsewhere is queued, if there is memory for its record. -/
theorem handleReply_busy (hpeek : pendingPeek m.pending e.reqId = some a) (halive : a ∈ m.fibers)
    (hreply : ¬((m.fiber a).waitingReply = true ∧ (m.fiber a).waitReqId = e.reqId))
    (hany : (m.fiber a).waitingAny = false) :
    handleReply m e ok =
      if ok .replyRec then
        { m with pending := pendingTake m.pending e.reqId }.setFiber a
          { m.fiber a with rq := (m.fiber a).rq ++ [e.record ok] }
      else { m with pending := pendingTake m.pending e.reqId }.log (.lost a e.reqId) := by
  have hbusy : ((m.fiber a).waitingReply && (m.fiber a).waitReqId == e.reqId) = false := by
    rw [Bool.eq_false_iff]
    simpa using hreply
  simp only [handleReply, hpeek, hany, hbusy, Bool.false_eq_true, if_false]
  exact if_neg (not_not.mpr halive)

theorem handleReply_record (hpeek : pendingPeek m.pending e.reqId = some a) (halive : a ∈ m.fibers)
    (hreply : ¬((m.fiber a).waitingReply = true ∧ (m.fiber a).waitReqId = e.reqId))
    (hany : (m.fiber a).waitingAny = false) (hok : ok .replyRec = true) :
    ((handleReply m e ok).fiber a).rq = (m.fiber a).rq ++ [e.record ok] := by
  rw [handleReply_busy hpeek halive hreply hany, if_pos hok]
  exact congrArg Fiber.rq (Function.update_self a _ m.fiber)

/-- The source after `coseq_wait_reply` has taken the head of the reply queue. -/
theorem waitReply_source {g : Bool} {rr : ReplyRec} {rest : List ReplyRec} (hrq : (m.fiber a).rq = rr :: rest) :
    ((waitReply m a g ok).fiber a).source =
      (⟨0, (m.fiber a).seqIdx, rr.reqId, rr.result, 0, (m.fiber a).room rr.msg.length ok⟩,
        rr.msg.take ((m.fiber a).room rr.msg.length ok)) := by
  have htake : waitReply m a g ok = takeQueued m a g rr rest ok := by
    unfold waitReply
    simp only [hrq]
    exact if_neg fun h => List.cons_ne_nil _ _ h.2
  rw [htake]
  simp only [takeQueued, Module.log, Module.setFiber, Function.update_self]
  exact { m.fiber a with rq := rest }.setSrc_source rr.msg rr.result 0 (m.fiber a).seqIdx 0 rr.reqId ok

/-- The reply `e` reaches the fiber parked in `coseq_wait_reply` in `parked`, or elsewhere in `busy`, and is
then taken from the queue in `later`: the two records are the same for a reply of module 0, as far as the
buffers give room to the same bytes, and for no other. -/
theorem queued_source_iff {parked busy later : Module} {ok₁ ok₂ ok₃ : Alloc} {g : Bool} {rr : ReplyRec}
    {rest : List ReplyRec} (hparked : pendingPeek parked.pending e.reqId = some a ∧ a ∈ parked.fibers)
    (hany : (parked.fiber a).waitingAny = true)
    (hbusy : pendingPeek busy.pending e.reqId = some a ∧ a ∈ busy.fibers)
    (hreply : ¬((busy.fiber a).waitingReply = true ∧ (busy.fiber a).waitReqId = e.reqId))
    (hnot : (busy.fiber a).waitingAny = false) (hok : ok₂ .replyRec = true)
    (hkept : ((handleReply busy e ok₂).fiber a).rq.getLast? = some rr)
    (htaken : (later.fiber a).rq = rr :: rest) (hseq : (later.fiber a).seqIdx = (parked.fiber a).seqIdx) :
    ((waitReply later a g ok₃).fiber a).source = ((handleReply parked e ok₁).fiber a).source ↔
      e.requester.u8 = 0 ∧ (later.fiber a).room (e.record ok₂).msg.length ok₃ =
        (parked.fiber a).room e.msg.length ok₁ := by
  rw [handleReply_record hbusy.1 hbusy.2 hreply hnot hok, List.getLast?_concat] at hkept
  obtain rfl := Option.some.inj hkept
  rw [waitReply_source htaken, handleReply_source hparked.1 hparked.2 hany, Fiber.answered,
    Fiber.setSrc_source, hseq]
  constructor
  · intro heq
    have hsrc := congrArg Prod.fst heq
    exact ⟨(congrArg Src.threadIdx hsrc).symm, congrArg Src.size hsrc⟩
  · rintro ⟨hsender, hroom⟩
    have hbytes : (e.record ok₂).msg.take ((parked.fiber a).room e.msg.length ok₁) =
        e.msg.take ((parked.fiber a).room e.msg.length ok₁) := by
      by_cases hmsg : ok₂ .replyMsg = true
      · rw [Ev.record, if_pos hmsg]
      · -- without memory for the message nothing is kept, and the other record is empty as well
        have hnil : (e.record ok₂).msg = [] := if_neg hmsg
        have hzero : (parked.fiber a).room e.msg.length ok₁ = 0 := by
          rw [← hroom, hnil]
          exact Nat.le_zero.mp ((later.fiber a).room_le 0 ok₃)
        rw [hzero, List.take_zero, List.take_zero]
    rw [hsender, hroom, hbytes]
    rfl

/-- A sequence of module `q` makes an asynchronous request to module `d`, goes on with the call `c`, and is
answered; the event loop of `q` is about to handle the reply. -/
def answeredRun (q d : Nat) (c : Call) : List Act :=
  [.requestAsync 0 q 0 [], .asyncPost 0 .granted, .thread q, .thread q, .thread q, .thread q,
    .fiber q (.requestAsync d 0 []), .fiber q c, .thread d, .thread d, .thread d, .thread d,
    .fiber d (.reply .success [7]), .fiber d .ret, .thread q, .thread q, .thread q, .thread q, .thread q]

/-- The reply is queued, and the sequence calls `coseq_wait_reply` after its timer. -/
def queuedRun (q d : Nat) : List Act :=
  answeredRun q d (.waitTimeout 1) ++
    [.thread q, .tick ⟨1, 0⟩, .thread q, .thread q, .thread q, .thread q, .thread q]

/-- A reply of module 0 reads the same on both ways. -/
theorem queuedRun_source :
    ∃ s₁ s₂ s₃, Reaches (fun _ _ => True) [⟨1, false⟩, ⟨1, false⟩] s₁ ∧
      Reaches (fun _ _ => True) [⟨1, false⟩, ⟨1, false⟩] s₂ ∧
      Reaches (fun _ _ => True) [⟨1, false⟩, ⟨1, false⟩] s₃ ∧
      ((waitReply (s₃.module 1) 0 false .granted).fiber 0).source =
        ((handleReply (s₁.module 1) ⟨.reply, 0, 1, .module 0, .success, 0, 0, [7], 1⟩ .granted).fiber 0).source := by
  obtain ⟨s₁, hrun₁, hs₁⟩ : ∃ s, Reaches (fun _ _ => True) [⟨1, false⟩, ⟨1, false⟩] s ∧
      decide ((pendingPeek (s.module 1).pending 1 = some 0 ∧ 0 ∈ (s.module 1).fibers) ∧
        ((s.module 1).fiber 0).waitingAny = true ∧ ((s.module 1).fiber 0).seqIdx = 0) = true :=
    Lts.exists_run (answeredRun 1 0 .waitReply) (by decide +kernel)
  obtain ⟨s₂, hrun₂, hs₂⟩ : ∃ s, Reaches (fun _ _ => True) [⟨1, false⟩, ⟨1, false⟩] s ∧
      decide ((pendingPeek (s.module 1).pending 1 = some 0 ∧ 0 ∈ (s.module 1).fibers) ∧
        ¬(((s.module 1).fiber 0).waitingReply = true ∧ ((s.module 1).fiber 0).waitReqId = 1) ∧
        ((s.module 1).fiber 0).waitingAny = false ∧ ((s.module 1).fiber 0).rq = []) = true :=
    Lts.exists_run (answeredRun 1 0 (.waitTimeout 1)) (by decide +kernel)
  obtain ⟨s₃, hrun₃, hs₃⟩ : ∃ s, Reaches (fun _ _ => True) [⟨1, false⟩, ⟨1, false⟩] s ∧
      decide (((s.module 1).fiber 0).rq = [⟨1, .success, [7]⟩] ∧ ((s.module 1).fiber 0).seqIdx = 0) = true :=
    Lts.exists_run (queuedRun 1 0) (by decide +kernel)
  obtain ⟨hparked, hany, hseq₁⟩ := of_decide_eq_true hs₁
  obtain ⟨hbusy, hreply, hnot, hrq⟩ := of_decide_eq_true hs₂
  obtain ⟨htaken, hseq₃⟩ := of_decide_eq_true hs₃
  refine ⟨s₁, s₂, s₃, hrun₁, hrun₂, hrun₃, ?_⟩
  have hgranted : Alloc.granted .replyRec = true := rfl
  refine (queued_source_iff hparked hany hbusy hreply hnot hgranted ?_ htaken
    (hseq₃.trans hseq₁.symm)).mpr ⟨rfl, ?_⟩
  · rw [handleReply_record hbusy.1 hbusy.2 hreply hnot rfl, hrq]
    rfl
  · rw [Fiber.room_granted _ _ rfl, Fiber.room_granted _ _ rfl]
    rfl

/-- A reply of module 1 to one request, with the same events posted to the requester: the record names the
sender when the fiber is parked in `coseq_wait_reply`, and module 0 when the reply was queued. -/
theorem queued_sender_lost :
    ∃ s₁ s₂, Reaches (fun _ _ => True) [⟨1, false⟩, ⟨1, false⟩] s₁ ∧
      Reaches (fun _ _ => True) [⟨1, false⟩, ⟨1, false⟩] s₂ ∧
      accepted (s₁.module 0).trace = accepted (s₂.module 0).trace ∧
      (.returned 0 .async .reply false 1 .success [7] ∈ (s₁.module 0).trace ∧
        ((s₁.module 0).fiber 0).source = (⟨1, 0, 1, .success, 0, 1⟩, [7])) ∧
      (.returned 0 .async .queued false 1 .success [7] ∈ (s₂.module 0).trace ∧
        ((s₂.module 0).fiber 0).source = (⟨0, 0, 1, .success, 0, 1⟩, [7])) := by
  obtain ⟨s₁, hrun₁, hs₁⟩ : ∃ s, Reaches (fun _ _ => True) [⟨1, false⟩, ⟨1, false⟩] s ∧
      decide (accepted (s.module 0).trace =
          [⟨.start, 0, 1, .external, .ignore, 0, 0, [], 0⟩, ⟨.reply, 0, 1, .module 1, .success, 0, 0, [7], 1⟩] ∧
        .returned 0 .async .reply false 1 .success [7] ∈ (s.module 0).trace ∧
        ((s.module 0).fiber 0).source = (⟨1, 0, 1, .success, 0, 1⟩, [7])) = true :=
    Lts.exists_run (answeredRun 0 1 .waitReply ++ [.thread 0]) (by decide +kernel)
  obtain ⟨s₂, hrun₂, hs₂⟩ : ∃ s, Reaches (fun _ _ => True) [⟨1, false⟩, ⟨1, false⟩] s ∧
      decide (accepted (s.module 0).trace =
          [⟨.start, 0, 1, .external, .ignore, 0, 0, [], 0⟩, ⟨.reply, 0, 1, .module 1, .success, 0, 0, [7], 1⟩] ∧
        .returned 0 .async .queued false 1 .success [7] ∈ (s.module 0).trace ∧
        ((s.module 0).fiber 0).source = (⟨0, 0, 1, .success, 0, 1⟩, [7])) = true :=
    Lts.exists_run (queuedRun 0 1 ++ [.fiber 0 .waitReply]) (by decide +kernel)
  obtain ⟨hacc₁, hsource₁⟩ := of_decide_eq_true hs₁
  obtain ⟨hacc₂, hsource₂⟩ := of_decide_eq_true hs₂
  exact ⟨s₁, s₂, hrun₁, hrun₂, hacc₁.trans hacc₂.symm, hsource₁, hsource₂⟩

end Coseq
