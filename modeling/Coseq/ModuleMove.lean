import Coseq.Sequence

/-! What one step of a module can do, said once: `Move` lists the cases of `Module.step`, each with
the conditions under which it is taken and the module it leaves. The invariants are derived from
this list and never unfold the step function. -/

namespace Coseq

/-- The inbox and the deferred queue after the top of the loop. -/
inductive Merged (m : Module) : List Ev → List Ev → Prop where
  | kept (h : (∃ d, m.phase = .waiting d) ∨ m.phase = .top ∧ m.lockedBy ≠ none) :
      Merged m m.inbox m.deferred
  | spliced (hphase : m.phase = .top) (hfree : m.lockedBy = none) :
      Merged m (m.deferred ++ m.inbox) []

/-- The scheduler goes to its next point and touches nothing else. -/
inductive Pass (m : Module) : Phase → Prop where
  | clock (now : Timespec) (h : m.phase = .clock) : Pass m (.timers now m.fibers)
  | timersDone {t : Timespec} (h : m.phase = .timers t []) : Pass m .events
  | skip {t : Timespec} {a : FiberRef} {rest : List FiberRef} (h : m.phase = .timers t (a :: rest)) :
      Pass m (.timers t rest)

/-- The event `e` is at the head of the batch. -/
structure AtHead (m : Module) (e : Ev) (rest : List Ev) : Prop where
  phase : m.phase = .events
  batch : m.batch = e :: rest

/-- The lock lets the event through. -/
def Admits (m : Module) (e : Ev) : Prop :=
  m.lockedBy = none ∨ e.type = .notify ∨
    e.type = .reply ∧ pendingPeek m.pending e.reqId = m.lockedBy

/-- An event that is freed without effect, with the history line it leaves. -/
inductive Dropped (m : Module) (e : Ev) (ok : Alloc) : List Obs → Prop where
  | unknown (htype : e.type = .reply) (h : pendingPeek m.pending e.reqId = none) : Dropped m e ok []
  | unheard (htype : e.type = .notify) : Dropped m e ok []
  | rejected (htype : e.type = .start) (h : m.nrSeq ≤ e.seqIdx) :
      Dropped m e ok [.rejected e.requester e.reqId e.serial]
  | notStarted (htype : e.type = .start) (h : e.seqIdx < m.nrSeq) (halloc : ¬ok.Succeeds) :
      Dropped m e ok [.notStarted e.requester e.reqId e.serial]

/-- The record `new_fiber` makes. -/
def freshFiber (fn : Fn) (seqIdx : Nat) (replyTo : Origin) (replyReqId : Nat) (msg : Bytes)
    (r : Result) (threadIdx clientId : Nat) (ok : Alloc) : Fiber :=
  { Fiber.blank with
    fn := fn
    seqIdx := seqIdx
    replyTo := replyTo
    replyReqId := replyReqId }.setSrc msg r threadIdx seqIdx clientId replyReqId ok

/-- The fiber that runs an event. -/
def Ev.fiber (e : Ev) (ok : Alloc) : Fiber :=
  match e.type with
  | .notify => freshFiber .recvNotify 0 .external 0 e.msg .success e.requester.u8 e.clientId ok
  | _ => freshFiber (.seq e.seqIdx) e.seqIdx e.requester e.reqId e.msg .ignore e.requester.u8 0 ok

def Ev.beginObs (e : Ev) (a : FiberRef) : Obs :=
  match e.type with
  | .notify => .notified a e.serial
  | _ => .started a e.requester e.reqId e.serial

/-- The fiber with its reply written into the source record. -/
def Fiber.answered (f : Fiber) (e : Ev) (ok : Alloc) : Fiber :=
  f.setSrc e.msg e.result e.requester.u8 f.seqIdx 0 e.reqId ok

/-- The fiber with the timeout of its request written into the source record. -/
def Fiber.timedOut (f : Fiber) (ok : Alloc) : Fiber :=
  f.setSrc [] .reqTimeout 0 f.seqIdx 0 f.waitReqId ok

/-- The module after the fiber `a`, with the record `f`, is resumed. -/
def Module.resumed (m : Module) (a : FiberRef) (f : Fiber) (why : Wake) : Module :=
  { m with
    fiber := Function.update m.fiber a f.wake
    current := some a
    trace := m.trace ++ f.wakeObs a why }

/-- A call of `coseq_wait_reply`, directly or by the loop of `coseq_gather`: the record with the
counters of the loop brought up to date. -/
inductive EnterWait (f : Fiber) (a : FiberRef) : Call → Fiber → List Obs → Bool → Prop where
  | waitReply : EnterWait f a .waitReply f [] false
  | gather : EnterWait f a .gather { f with gathers := 0 :: f.gathers } [.gathering a] true
  | gatherNext {n : Nat} {rest : List Nat} (h : f.gathers = n :: rest) :
      EnterWait f a .gatherNext { f with gathers := (n + 1) :: rest } [] true

/-- The record and the history lines of a `NULL` from `coseq_wait_reply`. -/
inductive NullReturn (f : Fiber) (a : FiberRef) : Bool → Fiber → List Obs → Prop where
  | plain : NullReturn f a false f [.noReply a]
  | gather {n : Nat} {rest : List Nat} (h : f.gathers = n :: rest) :
      NullReturn f a true { f with gathers := rest } [.noReply a, .gathered a n]

/-- A call of the running fiber that changes no more of the module than the fiber's record, its
`notify_clients`, the history, and whether the fiber goes on running. -/
inductive LocalCall (m : Module) (a : FiberRef) (now : Timespec) (ok : Alloc) :
    Call → Fiber → List Obs → Option FiberRef → Effect → Prop where
  | null {c : Call} {f f' : Fiber} {obs obs' : List Obs} {g : Bool}
      (henter : EnterWait (m.fiber a) a c f obs g) (hout : f.asyncOutstanding = 0) (hrq : f.rq = [])
      (hnull : NullReturn f a g f' obs') : LocalCall m a now ok c f' (obs ++ obs') (some a) .none
  | queued {c : Call} {f : Fiber} {obs : List Obs} {g : Bool} {rr : ReplyRec} {rest : List ReplyRec}
      (henter : EnterWait (m.fiber a) a c f obs g) (hrq : f.rq = rr :: rest) :
      LocalCall m a now ok c (f.dequeued rr rest ok)
        (obs ++ [.returned a .async .queued g rr.reqId rr.result (f.dequeued rr rest ok).message])
        (some a) .none
  | park {c : Call} {f : Fiber} {obs : List Obs} {g : Bool}
      (henter : EnterWait (m.fiber a) a c f obs g) (hout : f.asyncOutstanding ≠ 0) (hrq : f.rq = []) :
      LocalCall m a now ok c { f with waitingAny := true, ctx := .waitReply g } obs none .none
  | reply {r : Result} {msg : Bytes} :
      LocalCall m a now ok (.reply r msg) (m.fiber a)
        [.replied a (m.fiber a).replyTo (m.fiber a).replyReqId r msg] (some a)
        (reply m a r msg ok).2
  | waitTimeout {t : Nat} :
      LocalCall m a now ok (.waitTimeout t)
        { m.fiber a with waitingTimer := true, deadline := tsAddMs now t, ctx := .waitTimeout } []
        none .none
  | registered {category id : Nat} {eff : Effect} {listener : Origin}
      (heff : ∃ next, eff = .nextClientId next) :
      LocalCall m a now ok (.regNotify category) (m.fiber a) [.registered a category id listener]
        (some a) eff
  | unregistered {category id : Nat} :
      LocalCall m a now ok (.unregNotify category id) (m.fiber a) [.unregistered a category id]
        (some a) .none
  | idle {c : Call} {eff : Effect} (hcall : (∃ category, c = .regNotify category) ∨
        ∃ category id, c = .unregNotify category id)
      (heff : eff = .none ∨ ∃ next, eff = .nextClientId next) :
      LocalCall m a now ok c (m.fiber a) [] (some a) eff
  | notifying {c : Call} {l : NotifyLoop} {eff : Effect}
      (hcall : c = .notifyNext ∨ ∃ category msg, c = .notify category msg)
      (heff : eff = .none ∨ ∃ i e, eff = .post i e ∧ ∀ e' ∈ e, e'.type = .notify) :
      LocalCall m a now ok c { m.fiber a with notifying := some l } [] (some a) eff
  | notified {l : NotifyLoop} :
      LocalCall m a now ok .notifyNext { m.fiber a with notifying := none }
        [.published a l.category l.n] (some a) .none

/-- The calls that take an id. -/
inductive Issues (now : Timespec) : Call → ReqKind → Nat → Nat → Bytes → Prop where
  | request {i s : Nat} {msg : Bytes} : Issues now (.request i s msg) .request i s msg
  | requestTimeout {i s t : Nat} {msg : Bytes} :
      Issues now (.requestTimeout i s msg t) (.timed (tsAddMs now t)) i s msg
  | requestAsync {i s : Nat} {msg : Bytes} : Issues now (.requestAsync i s msg) .async i s msg
  | send {i s : Nat} {msg : Bytes} : Issues now (.send i s msg) .send i s msg

/-- The record of a fiber that has issued a request. -/
def Fiber.issued (f : Fiber) (kind : ReqKind) (rid : Nat) : Fiber :=
  match kind with
  | .request => { f with waitingReply := true, waitReqId := rid, ctx := .request .request }
  | .timed deadline =>
      { f with
        waitingReply := true
        waitReqId := rid
        ctx := .request (.timed deadline)
        waitingTimer := true
        deadline := deadline }
  | .async => { f with asyncOutstanding := f.asyncOutstanding + 1 }
  | .send => f

/-- The fiber goes on running after the request. -/
def ReqKind.running (kind : ReqKind) (a : FiberRef) : Option FiberRef :=
  match kind with
  | .async | .send => some a
  | _ => none

def issuePending (m : Module) (a : FiberRef) (kind : ReqKind) (ok : Alloc) : List Pending :=
  if kind.awaited && ok .pendingEntry then ⟨m.reqId, a⟩ :: m.pending else m.pending

def issueObs (m : Module) (a : FiberRef) (kind : ReqKind) (i s : Nat) (ok : Alloc) : List Obs :=
  .issued a kind m.reqId i s ::
    if kind.awaited && !ok .pendingEntry then [.lost a m.reqId] else []

/-- The steps of one module. -/
inductive Move (m : Module) : ModAct → Effect → Module → Prop where
  | park {now : Timespec} {ok : Alloc} {inbox deferred : List Ev} {d : Option Timespec}
      (hcur : m.current = none) (hphase : m.phase = .top) (hmerge : Merged m inbox deferred)
      (hempty : inbox = []) :
      Move m (.sched now ok) .none
        { m with inbox := inbox, deferred := deferred, phase := .waiting d }
  | halt {now : Timespec} {ok : Alloc} {inbox deferred : List Ev} (hcur : m.current = none)
      (hmerge : Merged m inbox deferred) (hstop : m.stop = true) :
      Move m (.sched now ok) .none { m with inbox := inbox, deferred := deferred, phase := .stopped }
  | take {now : Timespec} {ok : Alloc} {inbox deferred : List Ev} (hcur : m.current = none)
      (hmerge : Merged m inbox deferred) :
      Move m (.sched now ok) .none
        { m with batch := inbox, inbox := [], deferred := deferred, phase := .clock }
  | pass {now : Timespec} {ok : Alloc} {p : Phase} (hcur : m.current = none) (hpass : Pass m p) :
      Move m (.sched now ok) .none { m with phase := p }
  | fire {now t : Timespec} {ok : Alloc} {a : FiberRef} {rest : List FiberRef}
      (hcur : m.current = none) (hphase : m.phase = .timers t (a :: rest))
      (hlock : m.lockedBy = none ∨ m.lockedBy = some a) (htimer : (m.fiber a).waitingTimer = true)
      (hdue : tsLt t (m.fiber a).deadline = false) (hreply : (m.fiber a).waitingReply = false) :
      Move m (.sched now ok) .none
        (Module.resumed { m with phase := .timers t rest } a (m.fiber a) (.timer t))
  | expire {now t : Timespec} {ok : Alloc} {a : FiberRef} {rest : List FiberRef}
      (hcur : m.current = none) (hphase : m.phase = .timers t (a :: rest))
      (hlock : m.lockedBy = none ∨ m.lockedBy = some a) (htimer : (m.fiber a).waitingTimer = true)
      (hdue : tsLt t (m.fiber a).deadline = false) (hreply : (m.fiber a).waitingReply = true) :
      Move m (.sched now ok) .none
        (Module.resumed
          { m with phase := .timers t rest, pending := pendingTake m.pending (m.fiber a).waitReqId }
          a ((m.fiber a).timedOut ok) (.expired t))
  | defer {now : Timespec} {ok : Alloc} {e : Ev} {rest : List Ev} (hcur : m.current = none)
      (hhead : AtHead m e rest) (hblock : ¬Admits m e) :
      Move m (.sched now ok) .none { m with batch := rest, deferred := m.deferred ++ [e] }
  | drop {now : Timespec} {ok : Alloc} {e : Ev} {rest : List Ev} {obs : List Obs}
      (hcur : m.current = none) (hhead : AtHead m e rest) (hadmits : Admits m e)
      (hdrop : Dropped m e ok obs) :
      Move m (.sched now ok) .none { m with batch := rest, trace := m.trace ++ obs }
  | begin {now : Timespec} {ok : Alloc} {e : Ev} {rest : List Ev} (hcur : m.current = none)
      (hhead : AtHead m e rest) (hadmits : Admits m e) (htype : e.type ≠ .reply)
      (hseq : e.type = .start → e.seqIdx < m.nrSeq) :
      Move m (.sched now ok) .none
        { m with
          batch := rest
          nextFiber := m.nextFiber + 1
          fibers := m.nextFiber :: m.fibers
          fiber := Function.update m.fiber m.nextFiber (e.fiber ok)
          current := some m.nextFiber
          trace := m.trace ++ [e.beginObs m.nextFiber] }
  | undefined {now : Timespec} {ok : Alloc} {e : Ev} {rest : List Ev} {a : FiberRef}
      (hcur : m.current = none) (hhead : AtHead m e rest) (hadmits : Admits m e)
      (htype : e.type = .reply) (hpeek : pendingPeek m.pending e.reqId = some a)
      (hfreed : a ∉ m.fibers) :
      Move m (.sched now ok) .none
        { m with
          batch := rest
          pending := pendingTake m.pending e.reqId
          trace := m.trace ++ [.lost a e.reqId]
          phase := .undefined }
  | wake {now : Timespec} {ok : Alloc} {e : Ev} {rest : List Ev} {a : FiberRef}
      (hcur : m.current = none) (hhead : AtHead m e rest) (hadmits : Admits m e)
      (htype : e.type = .reply) (hpeek : pendingPeek m.pending e.reqId = some a)
      (halive : a ∈ m.fibers)
      (hwait : (m.fiber a).waitingReply = true ∧ (m.fiber a).waitReqId = e.reqId ∨
        (m.fiber a).waitingAny = true) :
      Move m (.sched now ok) .none
        (Module.resumed { m with batch := rest, pending := pendingTake m.pending e.reqId } a
          ((m.fiber a).answered e ok) .reply)
  | queue {now : Timespec} {ok : Alloc} {e : Ev} {rest : List Ev} {a : FiberRef}
      (hcur : m.current = none) (hhead : AtHead m e rest) (hadmits : Admits m e)
      (htype : e.type = .reply) (hpeek : pendingPeek m.pending e.reqId = some a)
      (halive : a ∈ m.fibers)
      (hbusy : ¬((m.fiber a).waitingReply = true ∧ (m.fiber a).waitReqId = e.reqId) ∧
        (m.fiber a).waitingAny = false) :
      Move m (.sched now ok) .none
        { m with
          batch := rest
          pending := pendingTake m.pending e.reqId
          fiber := Function.update m.fiber a { m.fiber a with
            rq := (m.fiber a).rq ++ [⟨e.reqId, e.result, if ok .replyMsg then e.msg else []⟩] } }
  | lose {now : Timespec} {ok : Alloc} {e : Ev} {rest : List Ev} {a : FiberRef}
      (hcur : m.current = none) (hhead : AtHead m e rest) (hadmits : Admits m e)
      (htype : e.type = .reply) (hpeek : pendingPeek m.pending e.reqId = some a)
      (halloc : ¬ok.Succeeds) :
      Move m (.sched now ok) .none
        { m with
          batch := rest
          pending := pendingTake m.pending e.reqId
          trace := m.trace ++ [.lost a e.reqId] }
  | reap {now : Timespec} {ok : Alloc} (hcur : m.current = none) (hphase : m.phase = .events)
      (hbatch : m.batch = []) :
      Move m (.sched now ok) .none { reapDone m with phase := .top }
  | issue {now : Timespec} {id : Nat} {ok : Alloc} {a : FiberRef} {c : Call} {kind : ReqKind}
      {i s : Nat} {msg : Bytes} (hcur : m.current = some a) (hissue : Issues now c kind i s msg) :
      Move m (.call c now id ok) (startEv m i s msg ok)
        { m with
          nextReqId := m.nextReqId + 1
          pending := issuePending m a kind ok
          fiber := Function.update m.fiber a ((m.fiber a).issued kind m.reqId)
          current := kind.running a
          trace := m.trace ++ issueObs m a kind i s ok }
  | local {now : Timespec} {id : Nat} {ok : Alloc} {a : FiberRef} {c : Call} {f : Fiber}
      {ncs : List NotifyClient} {obs : List Obs} {cur : Option FiberRef} {eff : Effect}
      (hcur : m.current = some a) (hcall : LocalCall m a now ok c f obs cur eff) :
      Move m (.call c now id ok) eff
        { m with
          notifyClients := ncs
          fiber := Function.update m.fiber a f
          current := cur
          trace := m.trace ++ obs }
  | lock {now : Timespec} {id : Nat} {ok : Alloc} {a : FiberRef} (hcur : m.current = some a) :
      Move m (.call .lock now id ok) .none
        { m with lockedBy := some a, trace := m.trace ++ [.locked a] }
  | unlock {now : Timespec} {id : Nat} {ok : Alloc} {a : FiberRef} (hcur : m.current = some a) :
      Move m (.call .unlock now id ok) .none
        { m with
          lockedBy := if m.lockedBy = some a then none else m.lockedBy
          trace := m.trace ++ [.unlocked a] }
  | ret {now : Timespec} {id : Nat} {ok : Alloc} {a : FiberRef} (hcur : m.current = some a)
      (hgathers : (m.fiber a).gathers = []) :
      Move m (.call .ret now id ok) .none
        { m with
          fiber := Function.update m.fiber a { m.fiber a with done := true }
          current := none
          trace := m.trace ++ [.finished a] }
  | stop : Move m .stop .none { m with stop := true }

/-! ### The step function takes one of the moves -/

theorem merged_merge {m : Module} (hphase : m.phase = .top) :
    Merged m (mergeDeferred m).inbox (mergeDeferred m).deferred := by
  unfold mergeDeferred
  split
  · rename_i hfree
    exact .spliced hphase hfree
  · rename_i hlocked
    exact .kept (.inr ⟨hphase, hlocked⟩)

theorem merge_eq (m : Module) :
    mergeDeferred m =
      { m with inbox := (mergeDeferred m).inbox, deferred := (mergeDeferred m).deferred } := by
  unfold mergeDeferred
  split <;> rfl

theorem takeBatch_move {m : Module} {now : Timespec} {ok : Alloc} {inbox deferred : List Ev}
    (hcur : m.current = none) (hmerge : Merged m inbox deferred) :
    Move m (.sched now ok) .none (takeBatch { m with inbox := inbox, deferred := deferred }) := by
  unfold takeBatch
  split
  · rename_i hstop
    exact .halt hcur hmerge hstop
  · exact .take hcur hmerge

theorem enterWait_move {m : Module} {now : Timespec} {ok : Alloc} (hcur : m.current = none)
    (hphase : m.phase = .top) : Move m (.sched now ok) .none (enterWait (mergeDeferred m)) := by
  have hmerge := merged_merge hphase
  rw [merge_eq m]
  unfold enterWait
  split
  · rename_i hempty
    exact .park hcur hphase hmerge hempty.1
  · exact takeBatch_move hcur hmerge

theorem resume_setFiber (m : Module) (a : FiberRef) (f : Fiber) (why : Wake) :
    resume (m.setFiber a f) a why = m.resumed a f why := by
  simp [resume, Module.resumed, Module.setFiber]

theorem timerTurn_move {m : Module} {now t : Timespec} {ok : Alloc} {a : FiberRef}
    {rest : List FiberRef} (hcur : m.current = none) (hphase : m.phase = .timers t (a :: rest)) :
    Move m (.sched now ok) .none (timerTurn { m with phase := .timers t rest } t a ok) := by
  unfold timerTurn
  dsimp only
  split
  · rename_i hdue
    simp only [Bool.and_eq_true, Bool.not_eq_true'] at hdue
    split
    · rename_i hlock
      have hlock : m.lockedBy = none ∨ m.lockedBy = some a := by
        cases hl : m.lockedBy with
        | none => exact .inl rfl
        | some b => simpa [hl, eq_comm] using hlock
      split
      · rename_i hreply
        rw [resume_setFiber]
        exact .expire hcur hphase hlock hdue.1 hdue.2 hreply
      · rename_i hreply
        exact .fire hcur hphase hlock hdue.1 hdue.2 (Bool.eq_false_iff.mpr hreply)
    · exact .pass hcur (.skip hphase)
  · exact .pass hcur (.skip hphase)

/-- A new fiber has nothing to clear when it is resumed for the first time. -/
theorem resume_newFiber {m m' : Module} {a : FiberRef} {fn : Fn} {seqIdx replyReqId threadIdx clientId : Nat}
    {replyTo : Origin} {msg : Bytes} {r : Result} {ok : Alloc} (x : Obs) (why : Wake)
    (h : newFiber m fn seqIdx replyTo replyReqId msg r threadIdx clientId ok = some (m', a)) :
    a = m.nextFiber ∧ resume (m'.log x) a why =
      { m with
        nextFiber := m.nextFiber + 1
        fibers := m.nextFiber :: m.fibers
        fiber := Function.update m.fiber m.nextFiber
          (freshFiber fn seqIdx replyTo replyReqId msg r threadIdx clientId ok)
        current := some m.nextFiber
        trace := m.trace ++ [x] } := by
  unfold newFiber at h
  split at h
  · simp only [Option.some.injEq, Prod.mk.injEq] at h
    obtain ⟨rfl, rfl⟩ := h
    refine ⟨rfl, ?_⟩
    simp only [resume, Module.log, Module.setFiber, Function.update_self, Function.update_idem]
    congr 1
    exact List.append_nil _
  · cases h

theorem newFiber_none {m : Module} {fn : Fn} {seqIdx replyReqId threadIdx clientId : Nat}
    {replyTo : Origin} {msg : Bytes} {r : Result} {ok : Alloc}
    (h : newFiber m fn seqIdx replyTo replyReqId msg r threadIdx clientId ok = none) :
    ¬ok.Succeeds := by
  intro hok
  simp [newFiber, hok .fiberBlock, hok .stack, hok .context] at h

section Event

variable {m : Module} {now : Timespec} {ok : Alloc} {e : Ev} {rest : List Ev}
  (hcur : m.current = none) (hhead : AtHead m e rest) (hadmits : Admits m e)
include hcur hhead hadmits

theorem begin_move (htype : e.type ≠ .reply) (hseq : e.type = .start → e.seqIdx < m.nrSeq) {fn : Fn}
    {seqIdx replyReqId threadIdx clientId : Nat} {replyTo : Origin} {r : Result} {m' : Module}
    {a : FiberRef} {x : Obs} {why : Wake}
    (hnew : newFiber { m with batch := rest } fn seqIdx replyTo replyReqId e.msg r threadIdx clientId ok
      = some (m', a))
    (hfiber : e.fiber ok = freshFiber fn seqIdx replyTo replyReqId e.msg r threadIdx clientId ok)
    (hobs : e.beginObs a = x) : Move m (.sched now ok) .none (resume (m'.log x) a why) := by
  obtain ⟨ha, hres⟩ := resume_newFiber x why hnew
  subst ha
  rw [hres, ← hfiber, ← hobs]
  exact .begin hcur hhead hadmits htype hseq

theorem startSeq_move (htype : e.type = .start) :
    Move m (.sched now ok) .none (startSeq { m with batch := rest } e ok) := by
  unfold startSeq
  split
  · rename_i hseq
    exact .drop hcur hhead hadmits (.rejected htype hseq)
  · rename_i hseq
    have hlt : e.seqIdx < m.nrSeq := Nat.lt_of_not_le hseq
    split
    · rename_i hnew
      exact .drop hcur hhead hadmits (.notStarted htype hlt (newFiber_none hnew))
    · rename_i m' a hnew
      exact begin_move hcur hhead hadmits (by rw [htype]; decide) (fun _ => hlt) hnew
        (by rw [Ev.fiber, htype]) (by rw [Ev.beginObs, htype])

theorem startNotify_move (htype : e.type = .notify) :
    Move m (.sched now ok) .none (startNotify { m with batch := rest } e ok) := by
  have hdrop : Move m (.sched now ok) .none { m with batch := rest, trace := m.trace ++ [] } :=
    .drop hcur hhead hadmits (.unheard htype)
  rw [List.append_nil] at hdrop
  unfold startNotify
  split
  · split
    · exact hdrop
    · rename_i m' a hnew
      exact begin_move hcur hhead hadmits (by rw [htype]; decide) (fun h => by rw [htype] at h; cases h)
        hnew (by rw [Ev.fiber, htype]) (by rw [Ev.beginObs, htype])
  · exact hdrop

theorem handleReply_move (htype : e.type = .reply) :
    Move m (.sched now ok) .none (handleReply { m with batch := rest } e ok) := by
  unfold handleReply
  dsimp only
  cases hpeek : pendingPeek m.pending e.reqId with
  | none =>
      have hdrop : Move m (.sched now ok) .none { m with batch := rest, trace := m.trace ++ [] } :=
        .drop hcur hhead hadmits (.unknown htype hpeek)
      rw [List.append_nil] at hdrop
      exact hdrop
  | some a =>
      dsimp only
      by_cases halive : a ∈ m.fibers
      · rw [if_neg (not_not.mpr halive)]
        by_cases hblock : ((m.fiber a).waitingReply && (m.fiber a).waitReqId == e.reqId) = true
        · rw [if_pos hblock, resume_setFiber]
          simp only [Bool.and_eq_true, beq_iff_eq] at hblock
          exact .wake hcur hhead hadmits htype hpeek halive (.inl hblock)
        · rw [if_neg hblock]
          simp only [Bool.and_eq_true, beq_iff_eq] at hblock
          by_cases hany : (m.fiber a).waitingAny = true
          · rw [if_pos hany, resume_setFiber]
            exact .wake hcur hhead hadmits htype hpeek halive (.inr hany)
          · rw [if_neg hany]
            by_cases hrec : ok .replyRec = true
            · rw [if_pos hrec]
              exact .queue hcur hhead hadmits htype hpeek halive ⟨hblock, Bool.eq_false_iff.mpr hany⟩
            · rw [if_neg hrec]
              exact .lose hcur hhead hadmits htype hpeek fun h => hrec (h .replyRec)
      · rw [if_pos halive]
        exact .undefined hcur hhead hadmits htype hpeek halive

end Event

theorem dispatch_move {m : Module} {now : Timespec} {ok : Alloc} {e : Ev} {rest : List Ev}
    (hcur : m.current = none) (hhead : AtHead m e rest) :
    Move m (.sched now ok) .none (dispatch { m with batch := rest } e ok) := by
  unfold dispatch
  dsimp only
  split
  · rename_i hlocked
    split
    · rename_i hown
      exact handleReply_move hcur hhead (.inr (.inr hown)) hown.1
    · rename_i hother
      refine .defer hcur hhead ?_
      rintro (h | h | h)
      · exact hlocked.1 h
      · exact hlocked.2 h
      · exact hother h
  · rename_i hfree
    have hadmits : Admits m e := by
      by_cases hl : m.lockedBy = none
      · exact .inl hl
      · exact .inr (.inl (not_not.mp fun h => hfree ⟨hl, h⟩))
    cases htype : e.type with
    | start => exact startSeq_move hcur hhead hadmits htype
    | reply => exact handleReply_move hcur hhead hadmits htype
    | notify => exact startNotify_move hcur hhead hadmits htype

theorem sched_move {m : Module} {now : Timespec} {ok : Alloc} (hcur : m.current = none)
    (hstopped : m.phase ≠ .stopped) (hdefined : m.phase ≠ .undefined) :
    Move m (.sched now ok) .none (sched m now ok) := by
  unfold sched
  cases hphase : m.phase with
  | top => exact enterWait_move hcur hphase
  | waiting d => exact takeBatch_move hcur (.kept (.inl ⟨d, hphase⟩))
  | clock => exact .pass hcur (.clock now hphase)
  | timers t rest =>
      cases rest with
      | nil => exact .pass hcur (.timersDone hphase)
      | cons a rest => exact timerTurn_move hcur hphase
  | events =>
      cases hbatch : m.batch with
      | nil => exact .reap hcur hphase hbatch
      | cons e rest =>
          have hmove : Move m (.sched now ok) .none (dispatch { m with batch := rest } e ok) :=
            dispatch_move hcur ⟨hphase, hbatch⟩
          rw [hphase] at hmove
          exact hmove
  | stopped => exact absurd hphase hstopped
  | undefined => exact absurd hphase hdefined

/-! ### Calls -/

theorem pendingAdd_takeReqId (m : Module) (a : FiberRef) {kind : ReqKind} (i s : Nat) (ok : Alloc)
    (hkind : kind.awaited = true) :
    pendingAdd (takeReqId m a kind i s) m.reqId a ok =
      { m with
        nextReqId := m.nextReqId + 1
        pending := issuePending m a kind ok
        trace := m.trace ++ issueObs m a kind i s ok } := by
  unfold pendingAdd issuePending issueObs
  cases hok : ok .pendingEntry <;> simp [takeReqId, Module.log, hkind]

section Call

variable {m : Module} {now : Timespec} {id : Nat} {ok : Alloc} {a : FiberRef}
  (hcur : m.current = some a)
include hcur

theorem requestCommon_move {c : Call} {kind : ReqKind} {i s : Nat} {msg : Bytes}
    (hissue : Issues now c kind i s msg) (hkind : kind = .request ∨ ∃ d, kind = .timed d) :
    Move m (.call c now id ok) (requestCommon m a kind i s msg ok).2
      (requestCommon m a kind i s msg ok).1 := by
  have hmove : Move m (.call c now id ok) (startEv m i s msg ok) _ := .issue hcur hissue
  rcases hkind with rfl | ⟨d, rfl⟩ <;>
    · unfold requestCommon
      dsimp only
      rw [pendingAdd_takeReqId m a i s ok rfl]
      exact hmove

theorem requestAsync_move {i s : Nat} {msg : Bytes} :
    Move m (.call (.requestAsync i s msg) now id ok) (requestAsync m a i s msg ok).2
      (requestAsync m a i s msg ok).1 := by
  have hmove : Move m (.call (.requestAsync i s msg) now id ok) (startEv m i s msg ok) _ :=
    .issue hcur .requestAsync
  rw [requestAsync, pendingAdd_takeReqId m a i s ok rfl]
  rw [ReqKind.running, ← hcur] at hmove
  exact hmove

theorem send_move {i s : Nat} {msg : Bytes} :
    Move m (.call (.send i s msg) now id ok) (send m a i s msg ok).2 (send m a i s msg ok).1 := by
  have hmove : Move m (.call (.send i s msg) now id ok) (startEv m i s msg ok) _ := .issue hcur .send
  rw [ReqKind.running, ← hcur, Fiber.issued, Function.update_eq_self] at hmove
  exact hmove

/-- A call that only changes the running fiber's record and the history. -/
theorem setFiber_move {c : Call} {f : Fiber} {obs : List Obs} {eff : Effect} {m' : Module}
    (hcall : LocalCall m a now ok c f obs (some a) eff)
    (hm' : m' = { m with fiber := Function.update m.fiber a f, trace := m.trace ++ obs }) :
    Move m (.call c now id ok) eff m' := by
  have hmove : Move m (.call c now id ok) eff { m with
      notifyClients := m.notifyClients
      fiber := Function.update m.fiber a f
      current := some a
      trace := m.trace ++ obs } := .local hcur hcall
  rw [← hcur] at hmove
  rw [hm']
  exact hmove

theorem waitReply_move {c : Call} {f : Fiber} {obs : List Obs} {g : Bool} {m₀ : Module}
    (henter : EnterWait (m.fiber a) a c f obs g)
    (hm₀ : m₀ = { m with fiber := Function.update m.fiber a f, trace := m.trace ++ obs }) :
    Move m (.call c now id ok) .none (waitReply m₀ a g ok) := by
  have hfiber : m₀.fiber a = f := by rw [hm₀]; exact Function.update_self _ _ _
  unfold waitReply
  rw [hfiber]
  dsimp only
  split
  · rename_i hzero
    have hcase : g = false ∨ g = true ∧ ∃ n rest, f.gathers = n :: rest := by
      cases henter with
      | waitReply => exact .inl rfl
      | gather => exact .inr ⟨rfl, _, _, rfl⟩
      | gatherNext h => exact .inr ⟨rfl, _, _, rfl⟩
    rcases hcase with rfl | ⟨rfl, n, rest, hgathers⟩
    · exact setFiber_move hcur (.null henter hzero.1 hzero.2 .plain)
        (by simp [noReply, hm₀, Module.log])
    · exact setFiber_move hcur (.null henter hzero.1 hzero.2 (.gather hgathers))
        (by simp [noReply, hgathers, hm₀, Module.setFiber, Module.log])
  · rename_i hsome
    split
    · rename_i rr rest hrq
      refine setFiber_move hcur (.queued henter hrq) ?_
      rw [takeQueued, hfiber, hm₀]
      simp only [Module.setFiber, Module.log, Function.update_idem, List.append_assoc]
      rfl
    · rename_i hrq
      have hmove : Move m (.call c now id ok) .none { m with
          notifyClients := m.notifyClients
          fiber := Function.update m.fiber a { f with waitingAny := true, ctx := .waitReply g }
          current := none
          trace := m.trace ++ obs } := .local hcur (.park henter (fun h => hsome ⟨h, hrq⟩) hrq)
      simp only [hm₀, Module.setFiber, Function.update_idem]
      exact hmove

theorem gather_move : Move m (.call .gather now id ok) .none (gather m a ok) :=
  waitReply_move hcur .gather rfl

theorem gatherNext_move {m' : Module} (h : gatherNext m a ok = some m') :
    Move m (.call .gatherNext now id ok) .none m' := by
  unfold gatherNext at h
  dsimp only at h
  split at h
  · rename_i n rest hgathers
    obtain rfl := Option.some.inj h
    exact waitReply_move hcur (.gatherNext hgathers) (by simp [Module.setFiber])
  · cases h

theorem reply_move {r : Result} {msg : Bytes} :
    Move m (.call (.reply r msg) now id ok) (reply m a r msg ok).2 (reply m a r msg ok).1 := by
  refine setFiber_move hcur .reply ?_
  rw [Function.update_eq_self]
  unfold reply
  dsimp only
  split <;> rfl

theorem waitTimeout_move {t : Nat} :
    Move m (.call (.waitTimeout t) now id ok) .none (waitTimeout m a t now) := by
  have hmove : Move m (.call (.waitTimeout t) now id ok) .none { m with
      notifyClients := m.notifyClients
      fiber := Function.update m.fiber a
        { m.fiber a with waitingTimer := true, deadline := tsAddMs now t, ctx := .waitTimeout }
      current := none
      trace := m.trace ++ [] } := .local hcur .waitTimeout
  rw [List.append_nil] at hmove
  exact hmove

theorem regNotify_move {category : Nat} :
    Move m (.call (.regNotify category) now id ok) (regNotify m a category id ok).2
      (regNotify m a category id ok).1 := by
  unfold regNotify
  dsimp only
  split
  · exact setFiber_move hcur (.idle (.inl ⟨_, rfl⟩) (.inl rfl)) (by simp)
  · split
    · have hmove : Move m (.call (.regNotify category) now id ok) _ { m with
          notifyClients :=
            ⟨category, (m.fiber a).replyTo, if id = 255 then 0 else id⟩ :: m.notifyClients
          fiber := Function.update m.fiber a (m.fiber a)
          current := some a
          trace := m.trace ++
            [.registered a category (if id = 255 then 0 else id) (m.fiber a).replyTo] } :=
        .local hcur (.registered ⟨(if id = 255 then 0 else id) + 1, rfl⟩)
      rw [Function.update_eq_self, ← hcur] at hmove
      exact hmove
    · exact setFiber_move hcur (.idle (.inl ⟨_, rfl⟩) (.inr ⟨_, rfl⟩)) (by simp)

theorem unregNotify_move {category clientId : Nat} :
    Move m (.call (.unregNotify category clientId) now id ok) .none
      (unregNotify m a category clientId) := by
  unfold unregNotify
  dsimp only
  split
  · have hmove : Move m (.call (.unregNotify category clientId) now id ok) .none { m with
        notifyClients :=
          m.notifyClients.eraseP fun nc => nc.category == category && nc.clientId == clientId
        fiber := Function.update m.fiber a (m.fiber a)
        current := some a
        trace := m.trace ++ [.unregistered a category clientId] } := .local hcur .unregistered
    rw [Function.update_eq_self, ← hcur] at hmove
    exact hmove
  · exact setFiber_move hcur (.idle (.inr ⟨_, _, rfl⟩) (.inl rfl)) (by simp)

omit hcur in
theorem makeEv_type {type : EvType} {s rid : Nat} {o : Origin} {r : Result} {msg : Bytes} {e : Ev}
    (h : e ∈ makeEv type s rid o r msg ok) : e.type = type := by
  unfold makeEv at h
  split at h
  · obtain rfl := Option.some.inj h
    rfl
  · cases h

theorem notifying_move {c : Call} {l : NotifyLoop} {eff : Effect}
    (hcall : c = .notifyNext ∨ ∃ category msg, c = .notify category msg)
    (heff : eff = .none ∨ ∃ i e, eff = .post i e ∧ ∀ e' ∈ e, e'.type = .notify) :
    Move m (.call c now id ok) eff (m.setFiber a { m.fiber a with notifying := some l }) :=
  setFiber_move hcur (.notifying hcall heff) (by rw [List.append_nil]; rfl)

theorem notifyNext_move {l : NotifyLoop} :
    Move m (.call .notifyNext now id ok) (notifyNext m a l ok).2 (notifyNext m a l ok).1 := by
  unfold notifyNext
  dsimp only
  split
  · exact setFiber_move hcur .notified rfl
  · rename_i nc rest _
    split
    · exact notifying_move hcur (.inl rfl) (.inl rfl)
    · refine notifying_move hcur (.inl rfl) ?_
      split
      · exact .inl rfl
      · refine .inr ⟨_, _, rfl, fun e' he' => ?_⟩
        obtain ⟨e, he, rfl⟩ := Option.map_eq_some_iff.mp he'
        have htype := makeEv_type he
        exact htype

theorem unlock_move : Move m (.call .unlock now id ok) .none (unlock m a) := by
  have hmove : Move m (.call .unlock now id ok) .none _ := .unlock hcur
  unfold unlock
  split
  · rename_i hown
    rw [if_pos hown] at hmove
    exact hmove
  · rename_i hown
    rw [if_neg hown] at hmove
    exact hmove

theorem call_move {c : Call} {m' : Module} {eff : Effect}
    (h : call m a c now id ok = some (m', eff)) : Move m (.call c now id ok) eff m' := by
  have hpair : ∀ {r : Module × Effect}, some r = some (m', eff) → r.1 = m' ∧ r.2 = eff := by
    rintro r hr
    obtain rfl := Option.some.inj hr
    exact ⟨rfl, rfl⟩
  unfold call at h
  cases hloop : (m.fiber a).notifying with
  | some l =>
      rw [hloop] at h
      cases c with
      | notifyNext =>
          obtain ⟨rfl, rfl⟩ := hpair h
          exact notifyNext_move hcur
      | _ => cases h
  | none =>
      rw [hloop] at h
      cases c with
      | notifyNext => cases h
      | request =>
          obtain ⟨rfl, rfl⟩ := hpair h
          exact requestCommon_move hcur .request (.inl rfl)
      | requestTimeout =>
          obtain ⟨rfl, rfl⟩ := hpair h
          exact requestCommon_move hcur .requestTimeout (.inr ⟨_, rfl⟩)
      | requestAsync =>
          obtain ⟨rfl, rfl⟩ := hpair h
          exact requestAsync_move hcur
      | send =>
          obtain ⟨rfl, rfl⟩ := hpair h
          exact send_move hcur
      | waitReply =>
          obtain ⟨rfl, rfl⟩ := hpair h
          exact waitReply_move hcur .waitReply (by simp)
      | gather =>
          obtain ⟨rfl, rfl⟩ := hpair h
          exact gather_move hcur
      | gatherNext =>
          obtain ⟨m₁, hm₁, hr⟩ := Option.map_eq_some_iff.mp h
          obtain ⟨rfl, rfl⟩ := Prod.mk.inj hr
          exact gatherNext_move hcur hm₁
      | reply =>
          obtain ⟨rfl, rfl⟩ := hpair h
          exact reply_move hcur
      | waitTimeout =>
          obtain ⟨rfl, rfl⟩ := hpair h
          exact waitTimeout_move hcur
      | regNotify =>
          obtain ⟨rfl, rfl⟩ := hpair h
          exact regNotify_move hcur
      | unregNotify =>
          obtain ⟨rfl, rfl⟩ := hpair h
          exact unregNotify_move hcur
      | notify =>
          obtain ⟨rfl, rfl⟩ := hpair h
          exact notifying_move hcur (.inr ⟨_, _, rfl⟩) (.inl rfl)
      | lock =>
          obtain ⟨rfl, rfl⟩ := hpair h
          exact .lock hcur
      | unlock =>
          obtain ⟨rfl, rfl⟩ := hpair h
          exact unlock_move hcur
      | ret =>
          obtain ⟨hgathers, hret⟩ := Option.ite_none_right_eq_some.mp h
          obtain ⟨rfl, rfl⟩ := hpair hret
          exact .ret hcur hgathers

end Call

/-- Every step of a module is one of the moves. -/
theorem Module.step_move {m m' : Module} {act : ModAct} {eff : Effect}
    (h : m.step act = some (m', eff)) : Move m act eff m' := by
  cases act with
  | sched now ok =>
      rw [Module.step] at h
      split at h
      · cases h
      · rename_i hrun
        simp only [not_or, Bool.not_eq_true, Option.isSome_eq_false_iff, Option.isNone_iff_eq_none] at hrun
        obtain ⟨rfl, rfl⟩ := Prod.mk.inj (Option.some.inj h)
        exact sched_move hrun.1 hrun.2.1 hrun.2.2
  | call c now id ok =>
      obtain ⟨a, hcur, hcall⟩ := Option.bind_eq_some_iff.mp h
      exact call_move hcur hcall
  | stop =>
      obtain ⟨rfl, rfl⟩ := Prod.mk.inj (Option.some.inj h)
      exact .stop

/-! ### The history lines of a move -/

/-- A move keeps what `setup` has fixed and adds to the history. -/
theorem Move.grows {m m' : Module} {act : ModAct} {eff : Effect} (h : Move m act eff m') :
    m'.nrSeq = m.nrSeq ∧ m'.idx = m.idx ∧ ∃ xs, m'.trace = m.trace ++ xs := by
  cases h <;>
    first
    | exact ⟨rfl, rfl, _, rfl⟩
    | exact ⟨rfl, rfl, [], (List.append_nil _).symm⟩

theorem EnterWait.mem {f f' : Fiber} {a : FiberRef} {c : Call} {obs : List Obs} {g : Bool} {x : Obs}
    (h : EnterWait f a c f' obs g) (hx : x ∈ obs) : x = .gathering a := by
  cases h with
  | waitReply => cases hx
  | gather => exact List.mem_singleton.mp hx
  | gatherNext => cases hx

theorem NullReturn.mem {f f' : Fiber} {a : FiberRef} {obs : List Obs} {g : Bool} {x : Obs}
    (h : NullReturn f a g f' obs) (hx : x ∈ obs) : x = .noReply a ∨ ∃ n, x = .gathered a n := by
  cases h with
  | plain => exact .inl (List.mem_singleton.mp hx)
  | @gather n _ _ =>
      rcases List.mem_cons.mp hx with rfl | hx
      · exact .inl rfl
      · exact .inr ⟨n, List.mem_singleton.mp hx⟩

theorem Dropped.mem {m : Module} {e : Ev} {ok : Alloc} {obs : List Obs} {x : Obs} (h : Dropped m e ok obs)
    (hx : x ∈ obs) :
    x = .rejected e.requester e.reqId e.serial ∨ x = .notStarted e.requester e.reqId e.serial := by
  cases h with
  | unknown => cases hx
  | unheard => cases hx
  | rejected => exact .inl (List.mem_singleton.mp hx)
  | notStarted => exact .inr (List.mem_singleton.mp hx)

theorem issueObs_mem {m : Module} {a : FiberRef} {kind : ReqKind} {i s : Nat} {ok : Alloc} {x : Obs}
    (hx : x ∈ issueObs m a kind i s ok) : x = .issued a kind m.reqId i s ∨ x = .lost a m.reqId := by
  rcases List.mem_cons.mp hx with rfl | hx
  · exact .inl rfl
  · split at hx
    · exact .inr (List.mem_singleton.mp hx)
    · cases hx

/-- A line that a call of a fiber leaves. -/
def Obs.OfCall : Obs → Prop
  | .issued .. | .returned .. | .noReply _ | .gathering _ | .gathered .. | .lost .. | .replied ..
  | .registered .. | .unregistered .. | .published .. => True
  | _ => False

theorem EnterWait.ofCall {f f' : Fiber} {a : FiberRef} {c : Call} {obs : List Obs} {g : Bool}
    (h : EnterWait f a c f' obs g) : ∀ x ∈ obs, x.OfCall := by
  intro x hx
  obtain rfl := h.mem hx
  trivial

theorem NullReturn.ofCall {f f' : Fiber} {a : FiberRef} {obs : List Obs} {g : Bool}
    (h : NullReturn f a g f' obs) : ∀ x ∈ obs, x.OfCall := by
  intro x hx
  rcases h.mem hx with rfl | ⟨_, rfl⟩ <;> trivial

theorem LocalCall.ofCall {m : Module} {a : FiberRef} {now : Timespec} {ok : Alloc} {c : Call} {f : Fiber}
    {obs : List Obs} {cur : Option FiberRef} {eff : Effect}
    (h : LocalCall m a now ok c f obs cur eff) : ∀ x ∈ obs, x.OfCall := by
  cases h with
  | null henter _ _ hnull =>
      exact fun x hx => (List.mem_append.mp hx).elim (henter.ofCall x) (hnull.ofCall x)
  | queued henter _ =>
      refine fun x hx => (List.mem_append.mp hx).elim (henter.ofCall x) fun hx => ?_
      obtain rfl := List.mem_singleton.mp hx
      trivial
  | park henter _ _ => exact henter.ofCall
  | reply => simp [Obs.OfCall]
  | waitTimeout => simp
  | registered => simp [Obs.OfCall]
  | unregistered => simp [Obs.OfCall]
  | idle => simp
  | notifying => simp
  | notified => simp [Obs.OfCall]

theorem issueObs_ofCall {m : Module} {a : FiberRef} {kind : ReqKind} {i s : Nat} {ok : Alloc} :
    ∀ x ∈ issueObs m a kind i s ok, x.OfCall := by
  intro x hx
  rcases issueObs_mem hx with rfl | rfl <;> trivial

/-- A resumption leaves a line of its own and the line of the call that returns. -/
theorem Fiber.wakeObs_mem {f : Fiber} {a : FiberRef} {why : Wake} {x : Obs} (hx : x ∈ f.wakeObs a why) :
    x = .resumed a why ∨ ∃ kind g, x = .returned a kind why g f.src.reqId f.src.result f.message := by
  unfold Fiber.wakeObs at hx
  split at hx
  · cases hx
  · rename_i kind _
    exact (List.mem_cons.mp hx).imp id fun hx => ⟨kind, false, List.mem_singleton.mp hx⟩
  · rename_i g _
    exact (List.mem_cons.mp hx).imp id fun hx => ⟨.async, g, List.mem_singleton.mp hx⟩
  · exact .inl (List.mem_singleton.mp hx)

theorem Fiber.wakeObs_kind {f : Fiber} {a : FiberRef} {why : Wake} :
    ∀ x ∈ f.wakeObs a why, x = .resumed a why ∨ x.OfCall := by
  intro x hx
  refine (wakeObs_mem hx).imp id ?_
  rintro ⟨_, _, rfl⟩
  trivial

def Obs.issueId : Obs → Option Nat
  | .issued _ _ rid _ _ => some rid
  | _ => none

theorem EnterWait.issueIds {f f' : Fiber} {a : FiberRef} {c : Call} {obs : List Obs} {g : Bool}
    (h : EnterWait f a c f' obs g) : obs.filterMap Obs.issueId = [] := by
  cases h <;> rfl

theorem LocalCall.issueIds {m : Module} {a : FiberRef} {now : Timespec} {ok : Alloc} {c : Call}
    {f : Fiber} {obs : List Obs} {cur : Option FiberRef} {eff : Effect}
    (h : LocalCall m a now ok c f obs cur eff) : obs.filterMap Obs.issueId = [] := by
  cases h with
  | null henter _ _ hnull =>
      rw [List.filterMap_append, henter.issueIds]
      cases hnull <;> rfl
  | queued henter _ =>
      rw [List.filterMap_append, henter.issueIds]
      rfl
  | park henter _ _ => exact henter.issueIds
  | reply => rfl
  | waitTimeout => rfl
  | registered => rfl
  | unregistered => rfl
  | idle => rfl
  | notifying => rfl
  | notified => rfl

theorem Fiber.wakeObs_issueIds {f : Fiber} {a : FiberRef} {why : Wake} :
    (f.wakeObs a why).filterMap Obs.issueId = [] := by
  unfold Fiber.wakeObs
  split <;> rfl

/-- The effect posts no START. -/
def Effect.NoStart (eff : Effect) : Prop := ∀ d e, eff = .post d (some e) → e.type ≠ .start

theorem reply_noStart {m : Module} {a : FiberRef} {r : Result} {msg : Bytes} {ok : Alloc} :
    (reply m a r msg ok).2.NoStart := by
  intro d e heff hstart
  unfold reply at heff
  dsimp only at heff
  split at heff
  · cases heff
  · have htype := makeEv_type (Effect.post.inj heff).2
    rw [hstart] at htype
    cases htype

theorem LocalCall.noStart {m : Module} {a : FiberRef} {now : Timespec} {ok : Alloc} {c : Call}
    {f : Fiber} {obs : List Obs} {cur : Option FiberRef} {eff : Effect}
    (h : LocalCall m a now ok c f obs cur eff) : eff.NoStart := by
  intro d e heff hstart
  cases h with
  | reply => exact reply_noStart d e heff hstart
  | registered hnext =>
      obtain ⟨_, rfl⟩ := hnext
      cases heff
  | idle _ hnext => rcases hnext with rfl | ⟨_, rfl⟩ <;> cases heff
  | notifying _ hpost =>
      rcases hpost with rfl | ⟨i, e', rfl, he'⟩
      · cases heff
      · have htype := he' e (Effect.post.inj heff).2
        rw [hstart] at htype
        cases htype
  | _ => cases heff

/-- A move takes no id and posts no START, or it issues one request. -/
theorem Move.issue_cases {m m' : Module} {act : ModAct} {eff : Effect} (h : Move m act eff m') :
    ((∃ xs, m'.trace = m.trace ++ xs ∧ xs.filterMap Obs.issueId = []) ∧ m'.nextReqId = m.nextReqId ∧
        eff.NoStart) ∨
      ∃ c now id ok a kind i s msg, act = .call c now id ok ∧ Issues now c kind i s msg ∧
        m'.trace = m.trace ++ issueObs m a kind i s ok ∧ m'.nextReqId = m.nextReqId + 1 ∧
        eff = startEv m i s msg ok := by
  have hnone : Effect.none.NoStart := fun d e heff => by cases heff
  have hnil : ∃ xs, m.trace = m.trace ++ xs ∧ xs.filterMap Obs.issueId = [] :=
    ⟨[], (List.append_nil _).symm, rfl⟩
  cases h with
  | fire => exact .inl ⟨⟨_, rfl, Fiber.wakeObs_issueIds⟩, rfl, hnone⟩
  | expire => exact .inl ⟨⟨_, rfl, Fiber.wakeObs_issueIds⟩, rfl, hnone⟩
  | wake => exact .inl ⟨⟨_, rfl, Fiber.wakeObs_issueIds⟩, rfl, hnone⟩
  | drop _ _ _ hdrop => exact .inl ⟨⟨_, rfl, by cases hdrop <;> rfl⟩, rfl, hnone⟩
  | begin =>
      refine .inl ⟨⟨_, rfl, ?_⟩, rfl, hnone⟩
      unfold Ev.beginObs
      split <;> rfl
  | issue _ hissue => exact .inr ⟨_, _, _, _, _, _, _, _, _, rfl, hissue, rfl, rfl, rfl⟩
  | «local» _ hcall => exact .inl ⟨⟨_, rfl, hcall.issueIds⟩, rfl, hcall.noStart⟩
  | undefined => exact .inl ⟨⟨_, rfl, rfl⟩, rfl, hnone⟩
  | lose => exact .inl ⟨⟨_, rfl, rfl⟩, rfl, hnone⟩
  | lock => exact .inl ⟨⟨_, rfl, rfl⟩, rfl, hnone⟩
  | unlock => exact .inl ⟨⟨_, rfl, rfl⟩, rfl, hnone⟩
  | ret => exact .inl ⟨⟨_, rfl, rfl⟩, rfl, hnone⟩
  | park => exact .inl ⟨hnil, rfl, hnone⟩
  | halt => exact .inl ⟨hnil, rfl, hnone⟩
  | take => exact .inl ⟨hnil, rfl, hnone⟩
  | pass => exact .inl ⟨hnil, rfl, hnone⟩
  | defer => exact .inl ⟨hnil, rfl, hnone⟩
  | queue => exact .inl ⟨hnil, rfl, hnone⟩
  | reap => exact .inl ⟨hnil, rfl, hnone⟩
  | stop => exact .inl ⟨hnil, rfl, hnone⟩

theorem issueObs_issueIds {m : Module} {a : FiberRef} {kind : ReqKind} {i s : Nat} {ok : Alloc} :
    (issueObs m a kind i s ok).filterMap Obs.issueId = [m.reqId] := by
  unfold issueObs
  split <;> rfl

/-- A move takes no id, or the next one. -/
theorem Move.issueIds {m m' : Module} {act : ModAct} {eff : Effect} (h : Move m act eff m') :
    m'.trace.filterMap Obs.issueId = m.trace.filterMap Obs.issueId ∧ m'.nextReqId = m.nextReqId ∨
      m'.trace.filterMap Obs.issueId = m.trace.filterMap Obs.issueId ++ [m.reqId] ∧
        m'.nextReqId = m.nextReqId + 1 := by
  rcases h.issue_cases with ⟨⟨xs, htrace, hxs⟩, hnext, -⟩ |
    ⟨_, _, _, _, _, _, _, _, _, -, -, htrace, hnext, -⟩
  · exact .inl ⟨by rw [htrace, List.filterMap_append, hxs, List.append_nil], hnext⟩
  · exact .inr ⟨by rw [htrace, List.filterMap_append, issueObs_issueIds], hnext⟩

end Coseq
