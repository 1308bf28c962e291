import Coseq.RequestReturns
import Coseq.SingleReply
import Coseq.UnusedIds
import Coseq.WaitTimeout

/-! A reply that arrives before the deadline of `coseq_request_timeout`. It stays in the queues of the module
until the call returns, and the call returns with it unless the timer pass, which comes before the event loop,
reads a clock at or past the deadline first. How early the reply was in the inbox does not count. -/

namespace Coseq

/-! ### Entries and waits -/

/-- The entries of the pending list carry different ids, and the fiber of an entry alone waits for its id. -/
structure Enrolled (m : Module) : Prop where
  distinct : Distinct m.pending
  owned : ∀ p ∈ m.pending, ∀ b, (m.fiber b).waitingReply = true → (m.fiber b).waitReqId = p.reqId → b = p.f

namespace Enrolled

variable {m m' : Module} {act : ModAct} {eff : Effect}

theorem move (h : Enrolled m) (hmodes : Modes m) (hfresh : ∀ c now id ok kind i s msg,
      act = .call c now id ok → Issues now c kind i s msg → kind.awaited = true → NextFresh m)
    (hmove : Move m act eff m') : Enrolled m' := by
  rcases hmove.register_cases with ⟨hwait, hpending⟩ |
    ⟨c, now, id, ok, a, kind, i, s, msg, rfl, hissue, hcur, hfiber, hpending, -⟩
  · refine ⟨h.distinct.sublist hpending, fun p hp b hb hid => ?_⟩
    obtain ⟨hb', hid'⟩ := hwait b hb
    exact h.owned p (hpending.subset hp) b hb' (hid'.trans hid)
  · have hnew : kind.awaited = true → NextFresh m := hfresh c now id ok kind i s msg rfl hissue
    obtain ⟨-, -, hidle, -⟩ := hmodes.running a hcur
    refine ⟨hpending ▸ h.distinct.issue fun hawaited => (hnew hawaited).1.1, fun p hp b hb hid => ?_⟩
    rw [hpending] at hp
    rw [hfiber] at hb hid
    by_cases hba : b = a
    · subst hba
      rw [Function.update_self] at hb hid
      obtain ⟨hrid, hawaited⟩ := Fiber.issued_waits hidle.reply hb
      rcases mem_issuePending hp with ⟨rfl, -⟩ | hold
      · rfl
      · exact absurd (hid.symm.trans hrid) ((hnew hawaited).1.1 p hold)
    · rw [Function.update_of_ne hba] at hb hid
      rcases mem_issuePending hp with ⟨rfl, hawaited⟩ | hold
      · exact absurd hid ((hnew hawaited).2 b (hmodes.listed (.inl hb)) hb)
      · exact h.owned p hold b hb hid

theorem enqueue (h : Enrolled m) (e : Ev) : Enrolled (m.enqueue e) := ⟨h.distinct, h.owned⟩

theorem boot (i : Nat) (reg : Reg) : Enrolled (Module.boot i reg) :=
  ⟨distinct_nil, fun _ hp => absurd hp List.not_mem_nil⟩

end Enrolled

/-- Once a counter has wrapped, requests take fresh ids. -/
def TakesFresh : Sys → Act → Prop := EveryModule (OnceWrapped NextFresh)

instance (s : Sys) (a : Act) : Decidable (TakesFresh s a) :=
  inferInstanceAs (Decidable (EveryModule (OnceWrapped NextFresh) s a))

section Run

variable {ok : Sys → Act → Prop} {tbl : List Reg} {s : Sys}

theorem fresh_issue (hrun : Reaches ok tbl s) {act : Act} (hok : TakesFresh s act) {j : Nat} {c : Call}
    {now : Timespec} {id : Nat} {ok' : Alloc} {kind : ReqKind} {i seq : Nat} {msg : Bytes}
    (hact : s.localAct j act = some (.call c now id ok')) (hissue : Issues now c kind i seq msg)
    (hawaited : kind.awaited = true) : NextFresh (s.module j) :=
  OnceWrapped.holds (hok j _ hact) hissue hawaited (next_fresh hrun)

theorem enrolled (hrun : Reaches ok tbl s) (hok : ∀ s a, ok s a → TakesFresh s a) (j : Nat) :
    Enrolled (s.module j) := by
  revert j
  refine hrun.invariant (P := fun s => ∀ j, Enrolled (s.module j)) (fun j => Enrolled.boot j _) ?_
  intro s a s' hreach ih hs hstep j
  obtain ⟨m₁, hm₁, hs'⟩ := Sys.step_moved hstep j
  have hregistered : Enrolled m₁ := by
    cases hm₁ with
    | stay => exact ih j
    | move hact hmove =>
        refine (ih j).move (modes hreach j) ?_ hmove
        rintro c now id ok' kind i seq msg rfl hissue
        exact fresh_issue hreach (hok s a hs) hact hissue
  rcases hs' with heq | ⟨e, heq⟩
  · rw [heq]
    exact hregistered
  · rw [heq]
    exact hregistered.enqueue e

end Run

/-! ### The waiting fiber -/

/-- The record of a fiber in `coseq_request_timeout`. -/
structure Fiber.AwaitsUntil (f : Fiber) (rid : Nat) (d : Timespec) : Prop where
  reply : f.waitingReply = true
  id : f.waitReqId = rid
  timer : f.waitingTimer = true
  deadline : f.deadline = d
  ctx : f.ctx = .request (.timed d)

theorem Fiber.awaitsUntil_iff {f : Fiber} {rid : Nat} {d : Timespec} : f.AwaitsUntil rid d ↔
    (f.waitingReply = true ∧ f.waitReqId = rid) ∧ (f.waitingTimer = true ∧ f.deadline = d) ∧
      f.ctx = .request (.timed d) :=
  ⟨fun h => ⟨⟨h.reply, h.id⟩, ⟨h.timer, h.deadline⟩, h.ctx⟩, fun h => ⟨h.1.1, h.1.2, h.2.1.1, h.2.1.2, h.2.2⟩⟩

instance (f : Fiber) (rid : Nat) (d : Timespec) : Decidable (f.AwaitsUntil rid d) :=
  decidable_of_iff _ Fiber.awaitsUntil_iff.symm

/-- The fiber `a` is parked in `coseq_request_timeout` and its request is registered. -/
structure Awaits (m : Module) (a : FiberRef) (rid : Nat) (d : Timespec) : Prop where
  alive : a ∈ m.fibers
  parked : m.current ≠ some a
  record : (m.fiber a).AwaitsUntil rid d
  entry : pendingPeek m.pending rid = some a

/-- An EV_REPLY for the id `rid`. -/
def Ev.answers (e : Ev) (rid : Nat) : Prop := e.type = .reply ∧ e.reqId = rid

/-- The call returns with the reply `e`, whole if there is memory for it. -/
def ReturnsReply (j : Nat) (a : FiberRef) (rid : Nat) (d : Timespec) (s : Sys) (act : Act) (s' : Sys)
    (e : Ev) : Prop :=
  ∃ ok rest msg, act = .sched j ok ∧ AtHead (s.module j) e rest ∧ (ok .srcBuf = true → msg = e.msg) ∧
    (s'.module j).trace = (s.module j).trace ++
      [.resumed a .reply, .returned a (.timed d) .reply false rid e.result msg]

/-- The timer pass comes to the fiber with a clock at or past the deadline, and the call returns with the
timeout. -/
def ReturnsTimeout (j : Nat) (a : FiberRef) (rid : Nat) (d : Timespec) (s : Sys) (act : Act) (s' : Sys) : Prop :=
  ∃ ok now rest, act = .sched j ok ∧ (s.module j).phase = .timers now (a :: rest) ∧ tsLt now d = false ∧
    ((s.module j).lockedBy = none ∨ (s.module j).lockedBy = some a) ∧
    (s'.module j).trace = (s.module j).trace ++
      [.resumed a (.expired now), .returned a (.timed d) (.expired now) false rid .reqTimeout []]

namespace Awaits

variable {m m' : Module} {a : FiberRef} {rid : Nat} {d : Timespec} {act : ModAct} {eff : Effect}

/-- The reply that the event loop handles for the request resumes the fiber. -/
theorem served (h : Awaits m a rid d) {e : Ev} {rest : List Ev} (hhead : AtHead m e rest) (hadmits : Admits m e)
    (he : e.answers rid) {now : Timespec} {ok : Alloc} (hstep : m.step (.sched now ok) = some (m', eff)) :
    m'.current = some a := by
  obtain ⟨htype, rfl⟩ := he
  have hhandles : Handles m a e rest := ⟨hhead, hadmits, htype, h.entry⟩
  obtain ⟨rfl, -⟩ := hhandles.step hstep
  have hwaits : ((m.fiber a).waitingReply && (m.fiber a).waitReqId == e.reqId) = true := by
    rw [h.record.reply, h.record.id]
    simp
  have halive : ¬a ∉ m.fibers := not_not.mpr h.alive
  simp only [handleReply, h.entry, hwaits, if_true]
  rw [if_neg halive]
  rfl

/-- A step that does not resume the fiber leaves its entry in the pending list. -/
theorem entry_step (h : Awaits m a rid d) (hreg : Enrolled m)
    (hfresh : ∀ c now id ok kind i s msg, act = .call c now id ok → Issues now c kind i s msg →
      kind.awaited = true → NextFresh m)
    (hstep : m.step act = some (m', eff)) (hnot : m'.current ≠ some a) : pendingPeek m'.pending rid = some a := by
  have htake : ∀ {w : Nat}, w ≠ rid → pendingPeek (pendingTake m.pending w) rid = some a := fun hw =>
    hreg.distinct.take.peek_iff.mpr (hreg.distinct.mem_take.mpr ⟨mem_of_peek h.entry, hw.symm⟩)
  have hhead : ∀ {now ok e rest}, act = .sched now ok → AtHead m e rest → Admits m e → e.type = .reply →
      e.reqId ≠ rid := by
    rintro now ok e rest rfl hhead hadmits htype hid
    exact hnot (h.served hhead hadmits ⟨htype, hid⟩ hstep)
  cases Module.step_move hstep with
  | @expire _ _ _ b _ _ _ _ _ _ hwait =>
      refine htake fun hid => hnot ?_
      exact congrArg some (hreg.owned _ (mem_of_peek h.entry) b hwait hid)
  | undefined _ hhd hadmits htype => exact htake (hhead rfl hhd hadmits htype)
  | wake _ hhd hadmits htype => exact htake (hhead rfl hhd hadmits htype)
  | queue _ hhd hadmits htype => exact htake (hhead rfl hhd hadmits htype)
  | lose _ hhd hadmits htype => exact htake (hhead rfl hhd hadmits htype)
  | @issue _ _ ok b _ kind _ _ _ _ hissue =>
      have hdistinct : Distinct (issuePending m b kind ok) :=
        hreg.distinct.issue fun hawaited => (hfresh _ _ _ _ _ _ _ _ rfl hissue hawaited).1.1
      exact hdistinct.peek_iff.mpr (issuePending_subset (mem_of_peek h.entry))
  | _ => exact h.entry

/-- A step that does not resume the fiber leaves it waiting, and every reply to its request in the queues. -/
theorem step (h : Awaits m a rid d) (hreg : Enrolled m) (hmodes : Modes m)
    (hfresh : ∀ c now id ok kind i s msg, act = .call c now id ok → Issues now c kind i s msg →
      kind.awaited = true → NextFresh m)
    (hstep : m.step act = some (m', eff)) (hnot : m'.current ≠ some a) :
    Awaits m' a rid d ∧ ∀ e ∈ m.queue, e.answers rid → e ∈ m'.queue := by
  have hmove := Module.step_move hstep
  have hdone := hmodes.not_done (.inl h.record.reply)
  obtain ⟨hmem, hrecord⟩ := hmove.parked hmodes h.alive hdone h.parked hnot
  refine ⟨⟨hmem, hnot, ?_, h.entry_step hreg hfresh hstep hnot⟩, fun e he hans => ?_⟩
  · rcases hrecord with hsame | ⟨_, _, _, _, _, -, -, -, -, -, hqueued⟩
    · rw [hsame]
      exact h.record
    · rw [hqueued]
      exact ⟨h.record.reply, h.record.id, h.record.timer, h.record.deadline, h.record.ctx⟩
  · rcases hmove.queue_keeps hmodes e he with hkept | ⟨now, ok, rest, rfl, hhead, hadmits⟩
    · exact hkept
    · exact absurd (h.served hhead hadmits hans hstep) hnot

/-- What resumes the fiber is the reply at the head of the batch, or the timer pass past the deadline. -/
theorem resumed (h : Awaits m a rid d) (hmodes : Modes m) (hstep : m.step act = some (m', eff))
    (hcur : m'.current = some a) : ∃ now ok, act = .sched now ok ∧ eff = .none ∧
      ((∃ e rest msg, AtHead m e rest ∧ e.answers rid ∧ (ok .srcBuf = true → msg = e.msg) ∧ m'.trace = m.trace ++
          [.resumed a .reply, .returned a (.timed d) .reply false rid e.result msg]) ∨
        ∃ t rest, m.phase = .timers t (a :: rest) ∧ tsLt t d = false ∧
          (m.lockedBy = none ∨ m.lockedBy = some a) ∧ m'.trace = m.trace ++
            [.resumed a (.expired t), .returned a (.timed d) (.expired t) false rid .reqTimeout []]) := by
  obtain ⟨now, ok, rfl, rfl, hnone, hresumption⟩ := (Module.step_move hstep).resumes hmodes h.alive h.parked hcur
  refine ⟨now, ok, rfl, rfl, ?_⟩
  cases hresumption with
  | fire _ _ _ hreply => exact absurd (hreply.symm.trans h.record.reply) Bool.false_ne_true
  | @expire t rest hphase hlock hdue _ htrace =>
      have hctx : ((m.fiber a).timedOut ok).ctx = .request (.timed d) := h.record.ctx
      have hobs : ((m.fiber a).timedOut ok).wakeObs a (.expired t) =
          [.resumed a (.expired t),
            .returned a (.timed d) (.expired t) false (m.fiber a).waitReqId .reqTimeout []] := by
        rw [Fiber.wakeObs, hctx, (m.fiber a).timedOut_message ok]
        rfl
      rw [hobs, h.record.id] at htrace
      exact .inr ⟨t, rest, hphase, h.record.deadline ▸ hdue, hlock, htrace⟩
  | @reply e rest hhead htype hwait htrace =>
      have hany : (m.fiber a).waitingAny = false :=
        (hmodes.waits hnone (.inl h.record.reply)).2.not_any (.inl h.record.reply)
      have hid : e.reqId = rid := by
        rcases hwait with ⟨-, hid⟩ | hw
        · exact hid.symm.trans h.record.id
        · exact absurd (hany.symm.trans hw) Bool.false_ne_true
      have hctx : ((m.fiber a).answered e ok).ctx = .request (.timed d) := h.record.ctx
      have hobs : ((m.fiber a).answered e ok).wakeObs a .reply =
          [.resumed a .reply, .returned a (.timed d) .reply false e.reqId e.result
            ((m.fiber a).answered e ok).message] := by
        rw [Fiber.wakeObs, hctx]
        rfl
      rw [hobs, hid] at htrace
      exact .inl ⟨e, rest, _, hhead, ⟨htype, hid⟩, Fiber.setSrc_message, htrace⟩

theorem enqueue (h : Awaits m a rid d) (e : Ev) : Awaits (m.enqueue e) a rid d :=
  ⟨h.alive, h.parked, h.record, h.entry⟩

/-- The call parks the fiber, with its request registered. -/
theorem call {i seq ms id : Nat} {msg : Bytes} {now : Timespec} {ok : Alloc} (hmodes : Modes m)
    (hdistinct : Distinct m.pending) (hfresh : NextFresh m) (hcur : m.current = some a)
    (hentry : ok .pendingEntry = true)
    (hstep : m.step (.call (.requestTimeout i seq msg ms) now id ok) = some (m', eff)) :
    Awaits m' a m.reqId (tsAddMs now ms) ∧ m'.queue = m.queue ∧ eff = startEv m i seq msg ok := by
  obtain ⟨hmem, -, -, -⟩ := hmodes.running a hcur
  cases Module.step_move hstep with
  | @issue _ _ _ b _ kind _ _ _ hb hissue =>
      obtain rfl := Option.some.inj (hb.symm.trans hcur)
      cases hissue
      refine ⟨⟨hmem, by simp [ReqKind.running], ?_, ?_⟩, rfl, rfl⟩
      · dsimp only
        rw [Function.update_self]
        exact ⟨rfl, rfl, rfl, rfl, rfl⟩
      · refine (hdistinct.issue fun _ => hfresh.1.1).peek_iff.mpr ?_
        simp [issuePending, ReqKind.awaited, hentry]
  | «local» _ hcall =>
      cases hcall with
      | null henter => cases henter
      | queued henter => cases henter
      | park henter => cases henter
      | idle hcall =>
          rcases hcall with ⟨_, hc⟩ | ⟨_, _, hc⟩ <;> cases hc
      | notifying hcall =>
          rcases hcall with hc | ⟨_, _, hc⟩ <;> cases hc

end Awaits

/-! ### Runs -/

/-- A step after which the fiber `a` of module `j` does not run. -/
def Unresumed (j : Nat) (a : FiberRef) (s : Sys) (act : Act) : Prop :=
  TakesFresh s act ∧ (s.step act).map (fun s' => (s'.module j).current) ≠ some (some a)

instance (j : Nat) (a : FiberRef) (s : Sys) (act : Act) : Decidable (Unresumed j a s act) :=
  inferInstanceAs (Decidable (_ ∧ _))

/-- The events that have been appended to the inbox since the module was `m₁`. -/
def arrivedSince (m₁ m : Module) : List Ev := (accepted m.trace).drop (accepted m₁.trace).length

/-- The fiber is in its call, begun when the module was `m₁`: the replies to its request that have arrived
since are those in the queues. -/
structure InCall (m₁ : Module) (a : FiberRef) (rid : Nat) (d : Timespec) (m : Module) : Prop where
  awaits : Awaits m a rid d
  grown : (accepted m₁.trace).length ≤ (accepted m.trace).length
  queued : ∀ e, e.answers rid → (e ∈ m.queue ↔ e ∈ arrivedSince m₁ m)

namespace InCall

variable {m₁ m m' : Module} {a : FiberRef} {rid : Nat} {d : Timespec} {act : ModAct} {eff : Effect}

theorem start (h : Awaits m a rid d) (hnone : ∀ e ∈ m.queue, ¬e.answers rid) : InCall m a rid d m := by
  refine ⟨h, Nat.le_refl _, fun e he => ⟨fun hmem => absurd he (hnone e hmem), fun hmem => ?_⟩⟩
  rw [arrivedSince, List.drop_length] at hmem
  cases hmem

theorem step (h : InCall m₁ a rid d m) (hreg : Enrolled m) (hmodes : Modes m)
    (hfresh : ∀ c now id ok kind i s msg, act = .call c now id ok → Issues now c kind i s msg →
      kind.awaited = true → NextFresh m)
    (hstep : m.step act = some (m', eff)) (hnot : m'.current ≠ some a) : InCall m₁ a rid d m' := by
  have hmove := Module.step_move hstep
  obtain ⟨hawaits, hkeep⟩ := h.awaits.step hreg hmodes hfresh hstep hnot
  have hsince : arrivedSince m₁ m' = arrivedSince m₁ m := by rw [arrivedSince, hmove.accepted.1, arrivedSince]
  refine ⟨hawaits, hmove.accepted.1 ▸ h.grown, fun e he => ?_⟩
  rw [hsince]
  exact ⟨fun hmem => (h.queued e he).mp (hmove.queue_subset e hmem), fun hmem =>
    hkeep e ((h.queued e he).mpr hmem) he⟩

theorem enqueue (h : InCall m₁ a rid d m) (e : Ev) : InCall m₁ a rid d (m.enqueue e) := by
  have hsince : arrivedSince m₁ (m.enqueue e) = arrivedSince m₁ m ++ [{ e with serial := m.posted }] := by
    rw [arrivedSince, m.accepted_enqueue, List.drop_append_of_le_length h.grown, arrivedSince]
  have hqueue : (m.enqueue e).queue = m.queue ++ [{ e with serial := m.posted }] := by
    simp [Module.queue, Module.enqueue]
  refine ⟨h.awaits.enqueue e, ?_, fun e' he' => ?_⟩
  · rw [m.accepted_enqueue, List.length_append]
    exact Nat.le_add_right_of_le h.grown
  · rw [hsince, hqueue, List.mem_append, List.mem_append, h.queued e' he']

end InCall

section Call

variable {tbl : List Reg} {s₀ s₁ s : Sys} {j i seq ms : Nat} {a : FiberRef} {msg : Bytes} {ok : Alloc}

/-- The state in which the call has just parked the fiber. -/
theorem called (hreach : Reaches TakesFresh tbl s₀) (hcur : (s₀.module j).current = some a)
    (hok : TakesFresh s₀ (.call j (.requestTimeout i seq msg ms) ok)) (hentry : ok .pendingEntry = true)
    (hcall : s₀.step (.call j (.requestTimeout i seq msg ms) ok) = some s₁) :
    InCall (s₁.module j) a (s₀.module j).reqId (tsAddMs s₀.clock ms) (s₁.module j) := by
  have hfresh : NextFresh (s₀.module j) := fresh_issue hreach hok (if_pos rfl) .requestTimeout rfl
  obtain ⟨-, m', eff, hstep, rfl⟩ := Sys.stepModule_eq hcall
  obtain ⟨hawaits, hqueue, rfl⟩ :=
    Awaits.call (modes hreach j) (enrolled hreach (fun _ _ h => h) j).distinct hfresh hcur hentry hstep
  have hnone : ∀ e ∈ m'.queue, ¬e.answers (s₀.module j).reqId := fun e he hans =>
    hfresh.1.2 e (hqueue ▸ he) hans.1 hans.2
  rcases Sys.after_module s₀ j m' (startEv (s₀.module j) i seq msg ok) ok with heq | ⟨e, heff, heq⟩
  · rw [heq]
    exact .start hawaits hnone
  · rw [heq]
    refine .start (hawaits.enqueue e) fun e' he' hans => ?_
    rcases Module.mem_enqueue he' with hold | rfl
    · exact hnone e' hold hans
    · have htype := makeEv_type (Effect.post.inj heff).2
      exact absurd (htype.symm.trans hans.1) (by simp)

theorem in_call (hreach : Reaches TakesFresh tbl s₀) (hcur : (s₀.module j).current = some a)
    (hok : TakesFresh s₀ (.call j (.requestTimeout i seq msg ms) ok)) (hentry : ok .pendingEntry = true)
    (hcall : s₀.step (.call j (.requestTimeout i seq msg ms) ok) = some s₁)
    (hrun : Lts.Run Sys.step (Unresumed j a) s₁ s) :
    InCall (s₁.module j) a (s₀.module j).reqId (tsAddMs s₀.clock ms) (s.module j) := by
  have hreach₁ : Reaches TakesFresh tbl s₁ := hreach.tail hok hcall
  refine hrun.invariant
    (P := fun s => InCall (s₁.module j) a (s₀.module j).reqId (tsAddMs s₀.clock ms) (s.module j))
    (called hreach hcur hok hentry hcall) ?_
  intro s act s' hsub h hs hstep
  have hreach' := hreach₁.trans (hsub.mono fun _ _ h => h.1)
  have hnot : (s'.module j).current ≠ some a := by
    have hne := hs.2
    rw [hstep, Option.map_some] at hne
    exact fun heq => hne (congrArg some heq)
  obtain ⟨m₁, hm₁, hs'⟩ := Sys.step_stepped hstep j
  have hnot₁ : m₁.current ≠ some a := by
    rcases hs' with heq | ⟨e, heq⟩ <;> rw [heq] at hnot <;> exact hnot
  have h₁ : InCall (s₁.module j) a (s₀.module j).reqId (tsAddMs s₀.clock ms) m₁ := by
    cases hm₁ with
    | stay => exact h
    | step hact hmstep =>
        refine h.step (enrolled hreach' (fun _ _ h => h) j) (modes hreach' j) ?_ hmstep hnot₁
        rintro c now id ok' kind i' seq' msg' rfl hissue
        exact fresh_issue hreach' hs.1 hact hissue
  rcases hs' with heq | ⟨e, heq⟩
  · rw [heq]
    exact h₁
  · rw [heq]
    exact h₁.enqueue e

/-- From the moment a fiber calls `coseq_request_timeout`, whatever the other fibers and threads do: a reply to
its request that has arrived waits in the queues of the module until the call returns; and the call returns with
a reply that has arrived since, when the event loop handles it, or with the timeout, when the timer pass comes to
the fiber with a clock at or past the deadline first. -/
theorem request_timeout_outcome (hreach : Reaches TakesFresh tbl s₀) (hcur : (s₀.module j).current = some a)
    (hok : TakesFresh s₀ (.call j (.requestTimeout i seq msg ms) ok)) (hentry : ok .pendingEntry = true)
    (hcall : s₀.step (.call j (.requestTimeout i seq msg ms) ok) = some s₁)
    (hrun : Lts.Run Sys.step (Unresumed j a) s₁ s) :
    (∀ e ∈ arrivedSince (s₁.module j) (s.module j), e.answers (s₀.module j).reqId → e ∈ (s.module j).queue) ∧
      ∀ act s', s.step act = some s' → (s'.module j).current = some a →
        (∃ e ∈ arrivedSince (s₁.module j) (s.module j), e.answers (s₀.module j).reqId ∧
          ReturnsReply j a (s₀.module j).reqId (tsAddMs s₀.clock ms) s act s' e) ∨
        ReturnsTimeout j a (s₀.module j).reqId (tsAddMs s₀.clock ms) s act s' := by
  have h := in_call hreach hcur hok hentry hcall hrun
  refine ⟨fun e he hans => (h.queued e hans).mpr he, fun act s' hstep hresumed => ?_⟩
  have hreach' := (hreach.tail hok hcall).trans (hrun.mono fun _ _ h => h.1)
  obtain ⟨m₁, hm₁, hs'⟩ := Sys.step_stepped hstep j
  have hcur₁ : m₁.current = some a := by
    rcases hs' with heq | ⟨e, heq⟩ <;> rw [heq] at hresumed <;> exact hresumed
  cases hm₁ with
  | stay => exact absurd hcur₁ h.awaits.parked
  | step hact hmstep =>
      obtain ⟨now, ok', rfl, rfl, hout⟩ := h.awaits.resumed (modes hreach' j) hmstep hcur₁
      obtain ⟨rfl, rfl⟩ := Sys.localAct_sched hact
      have hmodule : s'.module j = m₁ := by
        obtain ⟨-, m₂, eff₂, hstep₂, rfl⟩ := Sys.stepModule_eq hstep
        obtain ⟨rfl, rfl⟩ := Prod.mk.inj (Option.some.inj (hmstep.symm.trans hstep₂))
        exact (Sys.after_module s j m₁ .none ok').resolve_right fun ⟨_, heff, _⟩ => by cases heff
      rcases hout with ⟨e, rest, bytes, hhead, hans, hbytes, htrace⟩ | ⟨t, rest, hphase, hdue, hlock, htrace⟩
      · exact .inl ⟨e, (h.queued e hans).mp hhead.mem_queue, hans, ok', rest, bytes, rfl, hhead, hbytes,
          hmodule ▸ htrace⟩
      · exact .inr ⟨ok', t, rest, rfl, hphase, hdue, hlock, hmodule ▸ htrace⟩

end Call

/-- A sequence is started in module 0. -/
def callerRun : List Act :=
  [.requestAsync 0 0 0 [], .asyncPost 0 .granted, .thread 0, .thread 0, .thread 0, .thread 0]

/-- A second one is started there and takes the lock, and the request is answered meanwhile. -/
def lockedReplyRun : List Act :=
  [.requestAsync 0 0 0 [], .asyncPost 0 .granted, .thread 0, .thread 0, .thread 0, .thread 0, .thread 0,
    .thread 0, .fiber 0 .lock, .thread 1, .thread 1, .thread 1, .thread 1, .tick ⟨0, 4000000⟩]

/-- The second one gives up the lock and returns, and the scheduler goes on to its clock. -/
def unlockedRun : List Act :=
  [.fiber 1 .ret, .fiber 0 .unlock, .fiber 0 (.reply .success []), .fiber 0 .ret, .thread 0, .thread 0]

theorem lockedReplyRun_outcome : ∃ s₀ s₁ s, Reaches TakesFresh [⟨1, false⟩, ⟨1, false⟩] s₀ ∧
    s₀.step (.fiber 0 (.requestTimeout 1 0 [] 5)) = some s₁ ∧ Lts.Run Sys.step (Unresumed 0 0) s₁ s ∧
    ((s.module 0).queue.map Ev.msg = [[7]] ∧
      (s.step (.thread 0)).map (fun s' => (s'.module 0).current) = some (some 0)) ∧
    (∀ e ∈ arrivedSince (s₁.module 0) (s.module 0), e.answers (s₀.module 0).reqId → e ∈ (s.module 0).queue) ∧
      ∀ act s', s.step act = some s' → (s'.module 0).current = some 0 →
        (∃ e ∈ arrivedSince (s₁.module 0) (s.module 0), e.answers (s₀.module 0).reqId ∧
          ReturnsReply 0 0 (s₀.module 0).reqId (tsAddMs s₀.clock 5) s act s' e) ∨
        ReturnsTimeout 0 0 (s₀.module 0).reqId (tsAddMs s₀.clock 5) s act s' := by
  obtain ⟨s₀, s₁, l, s, hrun, hcall, hlog, hs⟩ : ∃ s₀ s₁ l s,
      Reaches TakesFresh [⟨1, false⟩, ⟨1, false⟩] s₀ ∧
        s₀.step (.fiber 0 (.requestTimeout 1 0 [] 5)) = some s₁ ∧
        Lts.Logged Sys.step (Unresumed 0 0) (fun _ _ => ([] : List Unit)) s₁ l s ∧
        decide (((s₀.module 0).current = some 0 ∧ TakesFresh s₀ (.fiber 0 (.requestTimeout 1 0 [] 5))) ∧
          ((s.module 0).queue.map Ev.msg = [[7]] ∧
            (s.step (.thread 0)).map (fun s' => (s'.module 0).current) = some (some 0))) = true :=
    Lts.exists_segment callerRun (.fiber 0 (.requestTimeout 1 0 [] 5))
      (lockedReplyRun ++ [.fiber 1 (.reply .success [7])] ++ unlockedRun ++ [.thread 0, .thread 0, .thread 0])
      (by decide +kernel)
  obtain ⟨⟨hcur, hok⟩, hs⟩ := of_decide_eq_true hs
  exact ⟨s₀, s₁, s, hrun, hcall, hlog.run, hs, request_timeout_outcome hrun hcur hok rfl hcall hlog.run⟩

/-- A reply that is in the inbox before the deadline is too late when the lock is given up after it; and where
there was no memory for the entry of the request the reply is dropped before the deadline. -/
theorem in_time_timed_out :
    (∃ s₀ s₁ s, Reaches (EveryModule fun m act => RepliesOnce m act ∧ Ample m act) [⟨1, false⟩, ⟨1, false⟩] s₀ ∧
      s₀.step (.fiber 1 (.reply .success [7])) = some s₁ ∧
      Lts.Run Sys.step (EveryModule fun m act => RepliesOnce m act ∧ Ample m act) s₁ s ∧
      (((s₀.module 0).fiber 0).AwaitsUntil 1 ⟨0, 5000000⟩ ∧ tsLt s₀.clock ⟨0, 5000000⟩ = true) ∧
      (arrivedSince (s₀.module 0) (s.module 0)).map (fun e => (e.type, e.reqId)) = [(.reply, 1)] ∧
      .returned 0 (.timed ⟨0, 5000000⟩) (.expired ⟨0, 6000000⟩) false 1 .reqTimeout [] ∈ (s.module 0).trace) ∧
    ∃ s₀ s₁ s, Reaches (EveryModule fun m act => RepliesOnce m act ∧ NoWrap m act) [⟨1, false⟩, ⟨1, false⟩] s₀ ∧
      s₀.step (.tick ⟨0, 6000000⟩) = some s₁ ∧
      Lts.Run Sys.step (EveryModule fun m act => RepliesOnce m act ∧ NoWrap m act) s₁ s ∧
      (((s₀.module 0).fiber 0).AwaitsUntil 1 ⟨0, 5000000⟩ ∧ tsLt s₀.clock ⟨0, 5000000⟩ = true) ∧
      ((accepted (s₀.module 0).trace).map (fun e => (e.type, e.reqId)) = [(.start, 1), (.reply, 1)] ∧
        (s₀.module 0).queue = []) ∧
      .returned 0 (.timed ⟨0, 5000000⟩) (.expired ⟨0, 6000000⟩) false 1 .reqTimeout [] ∈ (s.module 0).trace := by
  constructor
  · obtain ⟨s₀, s₁, l, s, hrun, hstep, hlog, hs⟩ : ∃ s₀ s₁ l s,
        Reaches (EveryModule fun m act => RepliesOnce m act ∧ Ample m act) [⟨1, false⟩, ⟨1, false⟩] s₀ ∧
          s₀.step (.fiber 1 (.reply .success [7])) = some s₁ ∧
          Lts.Logged Sys.step (EveryModule fun m act => RepliesOnce m act ∧ Ample m act)
            (fun _ _ => ([] : List Unit)) s₁ l s ∧
          decide ((((s₀.module 0).fiber 0).AwaitsUntil 1 ⟨0, 5000000⟩ ∧ tsLt s₀.clock ⟨0, 5000000⟩ = true) ∧
            (arrivedSince (s₀.module 0) (s.module 0)).map (fun e => (e.type, e.reqId)) = [(.reply, 1)] ∧
            .returned 0 (.timed ⟨0, 5000000⟩) (.expired ⟨0, 6000000⟩) false 1 .reqTimeout []
              ∈ (s.module 0).trace) = true :=
      Lts.exists_segment (callerRun ++ [.fiber 0 (.requestTimeout 1 0 [] 5)] ++ lockedReplyRun)
        (.fiber 1 (.reply .success [7])) (.tick ⟨0, 6000000⟩ :: unlockedRun ++ [.thread 0, .thread 0])
        (by decide +kernel)
    exact ⟨s₀, s₁, s, hrun, hstep, hlog.run, of_decide_eq_true hs⟩
  · obtain ⟨s₀, s₁, l, s, hrun, hstep, hlog, hs⟩ : ∃ s₀ s₁ l s,
        Reaches (EveryModule fun m act => RepliesOnce m act ∧ NoWrap m act) [⟨1, false⟩, ⟨1, false⟩] s₀ ∧
          s₀.step (.tick ⟨0, 6000000⟩) = some s₁ ∧
          Lts.Logged Sys.step (EveryModule fun m act => RepliesOnce m act ∧ NoWrap m act)
            (fun _ _ => ([] : List Unit)) s₁ l s ∧
          decide ((((s₀.module 0).fiber 0).AwaitsUntil 1 ⟨0, 5000000⟩ ∧ tsLt s₀.clock ⟨0, 5000000⟩ = true) ∧
            ((accepted (s₀.module 0).trace).map (fun e => (e.type, e.reqId)) = [(.start, 1), (.reply, 1)] ∧
              (s₀.module 0).queue = []) ∧
            .returned 0 (.timed ⟨0, 5000000⟩) (.expired ⟨0, 6000000⟩) false 1 .reqTimeout []
              ∈ (s.module 0).trace) = true :=
      Lts.exists_segment (callerRun ++ [.call 0 (.requestTimeout 1 0 [] 5) fun site => site != .pendingEntry] ++
          [.thread 1, .thread 1, .thread 1, .thread 1, .fiber 1 (.reply .success [7]), .fiber 1 .ret,
            .thread 0, .thread 0, .thread 0, .thread 0, .thread 0, .thread 0, .thread 0, .thread 0])
        (.tick ⟨0, 6000000⟩) [.thread 0, .thread 0, .thread 0] (by decide +kernel)
    exact ⟨s₀, s₁, s, hrun, hstep, hlog.run, of_decide_eq_true hs⟩

end Coseq
