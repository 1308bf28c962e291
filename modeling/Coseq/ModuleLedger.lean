import Coseq.RequestLedger
import Coseq.PendingList
import Coseq.FiberModes

/-! A module keeps the books of `RequestLedger`: a blocking request stops its fiber, an asynchronous
one is collected by `coseq_wait_reply`, and nobody waits for a `coseq_send`. Every move of the
module is a step of the books or leaves them as they are. -/

namespace Coseq

open Requests (Books)

/-- The kind of a request in the books; a request with a deadline stops its fiber with it. -/
def ReqKind.ledger : ReqKind → Requests.Kind (Option Timespec)
  | .request => .stops none
  | .timed d => .stops (some d)
  | .async => .collects
  | .send => .ignores

def Obs.ledger : Obs → Option (Requests.Entry FiberRef Nat (Option Timespec))
  | .issued f kind rid _ _ => some (.issued f kind.ledger rid)
  | .returned f kind _ _ rid _ _ => some (.returned f kind.ledger rid)
  | .lost f rid => some (.lost f rid)
  | _ => none

/-- The request a fiber is parked in. -/
def Fiber.stopped (f : Fiber) : Option (Option Timespec × Nat) :=
  if f.waitingReply then
    match f.ctx with
    | .request .request => some (none, f.waitReqId)
    | .request (.timed d) => some (some d, f.waitReqId)
    | _ => none
  else none

def Fiber.account (f : Fiber) : Requests.Account Nat (Option Timespec) where
  stopped := f.stopped
  queue := f.rq.map ReplyRec.reqId
  due := f.asyncOutstanding

def Module.books (m : Module) : Books FiberRef Nat (Option Timespec) where
  account := fun a => (m.fiber a).account
  entries := m.pending.map fun p => (p.reqId, p.f)
  log := m.trace.filterMap Obs.ledger

theorem ledger_injective {k k' : ReqKind} (h : k.ledger = k'.ledger) : k = k' := by
  cases k <;> cases k' <;> simp_all [ReqKind.ledger]

/-- The id counter has not wrapped when an id is taken. -/
def NoWrap (m : Module) : ModAct → Prop
  | .call (.request ..) _ _ _ | .call (.requestTimeout ..) _ _ _ | .call (.requestAsync ..) _ _ _
  | .call (.send ..) _ _ _ => m.nextReqId < 2 ^ 32
  | _ => True

instance (m : Module) (act : ModAct) : Decidable (NoWrap m act) :=
  match act with
  | .call (.request ..) .. | .call (.requestTimeout ..) .. | .call (.requestAsync ..) .. | .call (.send ..) .. =>
      inferInstanceAs (Decidable (_ < _))
  | .sched .. | .stop | .call .waitReply .. | .call .gather .. | .call .gatherNext ..
  | .call (.reply ..) .. | .call (.waitTimeout ..) .. | .call (.regNotify ..) ..
  | .call (.unregNotify ..) .. | .call (.notify ..) .. | .call .notifyNext .. | .call .lock ..
  | .call .unlock .. | .call .ret .. => .isTrue trivial

theorem Issues.noWrap {m : Module} {now : Timespec} {id : Nat} {ok : Alloc} {c : Call} {kind : ReqKind}
    {i s : Nat} {msg : Bytes} (h : Issues now c kind i s msg) (hok : NoWrap m (.call c now id ok)) :
    m.reqId = m.nextReqId := by
  have hlt : m.nextReqId < 2 ^ 32 := by cases h <;> exact hok
  exact Nat.mod_eq_of_lt hlt

/-- The books of a module balance, and its counter is past every id it has taken. -/
structure Ledger (m : Module) : Prop where
  modes : Modes m
  balanced : m.books.Balanced
  bound : ∀ r ∈ Requests.ids m.books.log, r < m.nextReqId

/-! ### The books of a move -/

theorem books_log_append {m m' : Module} {xs : List Obs} (h : m'.trace = m.trace ++ xs) :
    m'.books.log = m.books.log ++ xs.filterMap Obs.ledger := by
  simp [Module.books, h]

theorem account_update {m : Module} {a : FiberRef} {f : Fiber} :
    (fun b => (Function.update m.fiber a f b).account) = Function.update m.books.account a f.account := by
  funext b
  by_cases hb : b = a
  · subst hb
    simp
  · simp [hb, Module.books]

theorem account_self {m : Module} {a : FiberRef} {f : Fiber} (h : f.account = (m.fiber a).account) :
    Function.update m.books.account a f.account = m.books.account := by
  rw [h]
  exact Function.update_eq_self a m.books.account

theorem distinct_entries {m : Module} (h : m.books.Balanced) : Distinct m.pending := by
  have hnodup := h.distinct
  rwa [Module.books, List.map_map] at hnodup

theorem books_take {m : Module} (h : m.books.Balanced) (r : Nat) :
    (pendingTake m.pending r).map (fun p => (p.reqId, p.f)) = m.books.close r := by
  rw [(distinct_entries h).take_eq, Books.close, Module.books, List.filter_map]
  congr 1
  exact List.filter_congr fun p _ => by rw [Bool.eq_iff_iff]; simp

theorem mem_entries {m : Module} {r : Nat} {a : FiberRef} (h : pendingPeek m.pending r = some a) :
    (r, a) ∈ m.books.entries :=
  List.mem_map.mpr ⟨⟨r, a⟩, mem_of_peek h, rfl⟩

theorem Fiber.Idle.stopped {f : Fiber} (h : f.Idle) : f.stopped = none := by
  simp [Fiber.stopped, h.reply]

theorem stopped_of_not_reply {f : Fiber} (h : f.waitingReply = false) : f.stopped = none := by
  simp [Fiber.stopped, h]

theorem wake_stopped (f : Fiber) : f.wake.stopped = none := stopped_of_not_reply rfl

theorem EnterWait.ledger {f f' : Fiber} {a : FiberRef} {c : Call} {obs : List Obs} {g : Bool}
    (h : EnterWait f a c f' obs g) : f'.account = f.account ∧ obs.filterMap Obs.ledger = [] := by
  cases h <;> exact ⟨rfl, rfl⟩

theorem NullReturn.ledger {f f' : Fiber} {a : FiberRef} {obs : List Obs} {g : Bool}
    (h : NullReturn f a g f' obs) : f'.account = f.account ∧ obs.filterMap Obs.ledger = [] := by
  cases h <;> exact ⟨rfl, rfl⟩

theorem Dropped.ledger {m : Module} {e : Ev} {ok : Alloc} {obs : List Obs} (h : Dropped m e ok obs) :
    obs.filterMap Obs.ledger = [] := by
  cases h <;> rfl

theorem Ev.fiber_account (e : Ev) (ok : Alloc) : (e.fiber ok).account = Fiber.blank.account := by
  unfold Ev.fiber
  split <;> rfl

theorem Ev.beginObs_ledger (e : Ev) (a : FiberRef) : [e.beginObs a].filterMap Obs.ledger = [] := by
  unfold Ev.beginObs
  split <;> rfl

/-- A fiber parked in a request goes on with the record of that request. -/
theorem stopped_wake {f : Fiber} (a : FiberRef) (why : Wake) (hwaits : f.Waits)
    (hreply : f.waitingReply = true) (hid : f.src.reqId = f.waitReqId) :
    ∃ d, f.stopped = some (d, f.waitReqId) ∧
      f.wake.account = { f.account with stopped := none } ∧
      (f.wakeObs a why).filterMap Obs.ledger = [.returned a (.stops d) f.waitReqId] := by
  cases hwaits with
  | request hctx _ _ _ =>
      refine ⟨none, ?_, ?_, ?_⟩
      · simp [Fiber.stopped, hreply, hctx]
      · simp [Fiber.account, wake_stopped]
        simp [Fiber.wake, hctx]
      · simp only [Fiber.wakeObs, hctx, hid]
        rfl
  | @timed d hctx _ _ _ _ =>
      refine ⟨some d, ?_, ?_, ?_⟩
      · simp [Fiber.stopped, hreply, hctx]
      · simp [Fiber.account, wake_stopped]
        simp [Fiber.wake, hctx]
      · simp only [Fiber.wakeObs, hctx, hid]
        rfl
  | waitReply _ hno _ _ _ _ =>
      rw [hreply] at hno
      cases hno
  | waitTimeout _ hno _ _ =>
      rw [hreply] at hno
      cases hno

theorem Fiber.Waits.setSrc {f : Fiber} (h : f.Waits) (msg : Bytes) (r : Result)
    (threadIdx seqIdx clientId reqId : Nat) (ok : Alloc) :
    (f.setSrc msg r threadIdx seqIdx clientId reqId ok).Waits := by
  cases h with
  | request hctx hreply htimer hany => exact .request hctx hreply htimer hany
  | timed hctx hd hreply htimer hany => exact .timed hctx hd hreply htimer hany
  | waitReply hctx hreply htimer hany hrq hout => exact .waitReply hctx hreply htimer hany hrq hout
  | waitTimeout hctx hreply htimer hany => exact .waitTimeout hctx hreply htimer hany

/-- A fiber parked in `coseq_wait_reply` goes on with one answer collected. -/
theorem collected_wake {f : Fiber} (a : FiberRef) (why : Wake) (hwaits : f.Waits)
    (hany : f.waitingAny = true) :
    f.stopped = none ∧
      f.wake.account = { f.account with due := f.account.due - 1 } ∧
      (f.wakeObs a why).filterMap Obs.ledger = [.returned a .collects f.src.reqId] := by
  obtain ⟨g, hctx, hreply, -⟩ := hwaits.of_any hany
  have hstopped := stopped_of_not_reply hreply
  refine ⟨hstopped, ?_, ?_⟩
  · simp [Fiber.account, wake_stopped, hstopped]
    simp [Fiber.wake, hctx]
  · simp only [Fiber.wakeObs, hctx]
    rfl

/-- A fiber parked in `coseq_wait_timeout` goes on with its account as it was. -/
theorem timer_wake {f : Fiber} (a : FiberRef) (why : Wake) (hwaits : f.Waits)
    (htimer : f.waitingTimer = true) (hreply : f.waitingReply = false) :
    f.wake.account = f.account ∧ (f.wakeObs a why).filterMap Obs.ledger = [] := by
  have hctx := hwaits.of_timer htimer hreply
  refine ⟨?_, ?_⟩
  · simp [Fiber.account, wake_stopped, stopped_of_not_reply hreply]
    simp [Fiber.wake, hctx]
  · simp only [Fiber.wakeObs, hctx]
    rfl

namespace Ledger

variable {m m' : Module}

/-- The move leaves the books as they are. -/
theorem same {xs : List Obs} (haccount : ∀ a, (m'.fiber a).account = (m.fiber a).account)
    (hpending : m'.pending = m.pending) (htrace : m'.trace = m.trace ++ xs)
    (hxs : xs.filterMap Obs.ledger = []) : m'.books = m.books := by
  refine Books.ext (funext haccount) ?_ ?_
  · simp [Module.books, hpending]
  · rw [books_log_append htrace, hxs, List.append_nil]

/-- The move changes one account, the pending list and the log. -/
theorem books_eq {xs : List Obs} {a : FiberRef} {f : Fiber} {entries : List (Nat × FiberRef)}
    (hfiber : m'.fiber = Function.update m.fiber a f)
    (hpending : m'.pending.map (fun p => (p.reqId, p.f)) = entries)
    (htrace : m'.trace = m.trace ++ xs) :
    m'.books = ⟨Function.update m.books.account a f.account, entries,
      m.books.log ++ xs.filterMap Obs.ledger⟩ := by
  refine Books.ext ?_ hpending (books_log_append htrace)
  rw [← account_update, Module.books, hfiber]

theorem update_account {a : FiberRef} {f : Fiber} (h : f.account = (m.fiber a).account) (b : FiberRef) :
    (Function.update m.fiber a f b).account = (m.fiber b).account :=
  Fiber.update_related (R := fun g g' => g'.account = g.account) (fun _ => rfl) h b

theorem expire (h : Ledger m) {a : FiberRef} {t : Timespec} {ok : Alloc} (hcur : m.current = none)
    (htimer : (m.fiber a).waitingTimer = true) (hreply : (m.fiber a).waitingReply = true)
    (hfiber : m'.fiber = Function.update m.fiber a ((m.fiber a).timedOut ok).wake)
    (hpending : m'.pending = pendingTake m.pending (m.fiber a).waitReqId)
    (htrace : m'.trace = m.trace ++ ((m.fiber a).timedOut ok).wakeObs a (.expired t)) :
    m.books.Step m'.books := by
  have hwaits := (h.modes.waits hcur (.inr (.inl htimer))).2
  obtain ⟨d, hstopped, haccount, hobs⟩ := stopped_wake a (.expired t)
    (hwaits.setSrc [] .reqTimeout 0 (m.fiber a).seqIdx 0 (m.fiber a).waitReqId ok) hreply rfl
  have hstep := Books.Step.resume (b := m.books) (a := a) hstopped
  rw [books_eq hfiber rfl htrace, hpending, books_take h.balanced]
  unfold Fiber.timedOut
  rw [haccount, hobs]
  exact hstep

theorem wake (h : Ledger m) {a : FiberRef} {e : Ev} {ok : Alloc} (hcur : m.current = none)
    (hpeek : pendingPeek m.pending e.reqId = some a)
    (hwait : (m.fiber a).waitingReply = true ∧ (m.fiber a).waitReqId = e.reqId ∨
      (m.fiber a).waitingAny = true)
    (hfiber : m'.fiber = Function.update m.fiber a ((m.fiber a).answered e ok).wake)
    (hpending : m'.pending = pendingTake m.pending e.reqId)
    (htrace : m'.trace = m.trace ++ ((m.fiber a).answered e ok).wakeObs a .reply) :
    m.books.Step m'.books := by
  have hwaits := (h.modes.waits hcur (hwait.imp (fun h => h.1) .inr)).2
  have hanswered : ((m.fiber a).answered e ok).Waits := hwaits.setSrc _ _ _ _ _ _ ok
  rw [books_eq hfiber rfl htrace, hpending, books_take h.balanced]
  rcases hwait with ⟨hreply, hid⟩ | hany
  · obtain ⟨d, hstopped, haccount, hobs⟩ := stopped_wake a .reply hanswered hreply hid.symm
    have hstep := Books.Step.resume (b := m.books) (a := a) hstopped
    rw [haccount, hobs, ← hid]
    exact hstep
  · obtain ⟨hstopped, haccount, hobs⟩ := collected_wake a .reply hanswered hany
    have hstep := Books.Step.deliver (b := m.books) (mem_entries hpeek) hstopped
    rw [haccount, hobs]
    exact hstep

theorem queue (h : Ledger m) {a : FiberRef} {e : Ev} {msg : Bytes}
    (hpeek : pendingPeek m.pending e.reqId = some a)
    (hbusy : ¬((m.fiber a).waitingReply = true ∧ (m.fiber a).waitReqId = e.reqId))
    (hfiber : m'.fiber = Function.update m.fiber a { m.fiber a with
      rq := (m.fiber a).rq ++ [⟨e.reqId, e.result, msg⟩] })
    (hpending : m'.pending = pendingTake m.pending e.reqId) (htrace : m'.trace = m.trace) :
    m.books.Step m'.books := by
  have hother : ∀ d, (m.books.account a).stopped ≠ some (d, e.reqId) := by
    intro d hd
    change (m.fiber a).stopped = some (d, e.reqId) at hd
    unfold Fiber.stopped at hd
    split at hd
    · rename_i hreply
      split at hd
      · exact hbusy ⟨hreply, (Prod.mk.inj (Option.some.inj hd)).2⟩
      · exact hbusy ⟨hreply, (Prod.mk.inj (Option.some.inj hd)).2⟩
      · cases hd
    · cases hd
  have hstep := Books.Step.queue (b := m.books) (mem_entries hpeek) hother
  rw [books_eq hfiber rfl (htrace.trans (List.append_nil _).symm), hpending, books_take h.balanced,
    List.filterMap_nil, List.append_nil]
  have haccount : Fiber.account { m.fiber a with rq := (m.fiber a).rq ++ [⟨e.reqId, e.result, msg⟩] } =
      { m.books.account a with queue := (m.books.account a).queue ++ [e.reqId] } := by
    simp only [Fiber.account, List.map_append]
    rfl
  rw [haccount]
  exact hstep

theorem lose (h : Ledger m) {a : FiberRef} {r : Nat} (hpeek : pendingPeek m.pending r = some a)
    (hfiber : m'.fiber = m.fiber) (hpending : m'.pending = pendingTake m.pending r)
    (htrace : m'.trace = m.trace ++ [.lost a r]) : m.books.Step m'.books := by
  have hbooks : m'.books = { m.books with entries := m.books.close r, log := m.books.log ++ [.lost a r] } := by
    refine Books.ext ?_ ?_ (books_log_append htrace)
    · simp only [Module.books, hfiber]
    · rw [← books_take h.balanced, ← hpending]
      rfl
  rw [hbooks]
  exact .lose (mem_entries hpeek)

theorem issue (h : Ledger m) {a : FiberRef} {kind : ReqKind} {i s : Nat} {ok : Alloc}
    (hcur : m.current = some a) (hid : m.reqId = m.nextReqId)
    (hfiber : m'.fiber = Function.update m.fiber a ((m.fiber a).issued kind m.reqId))
    (hpending : m'.pending = issuePending m a kind ok)
    (htrace : m'.trace = m.trace ++ issueObs m a kind i s ok) : m.books.Step m'.books := by
  have hidle := (h.modes.running a hcur).2.2.1
  have hfresh : m.reqId ∉ Requests.ids m.books.log := by
    rw [hid]
    exact fun hr => Nat.lt_irrefl _ (h.bound _ hr)
  have hfree : (m.books.account a).stopped = none := hidle.stopped
  have hentries : kind.awaited = true → m'.pending.map (fun p => (p.reqId, p.f)) =
      if ok .pendingEntry then (m.reqId, a) :: m.books.entries else m.books.entries := by
    intro hkind
    rw [hpending, issuePending, hkind, Bool.true_and]
    split <;> rfl
  have hlog : kind.awaited = true → m'.books.log = m.books.log ++
      .issued a kind.ledger m.reqId :: if ok .pendingEntry then [] else [.lost a m.reqId] := by
    intro hkind
    rw [books_log_append htrace, issueObs, hkind, Bool.true_and]
    cases ok .pendingEntry <;> rfl
  have hbooks : kind.awaited = true → m'.books =
      ⟨Function.update m.books.account a ((m.fiber a).issued kind m.reqId).account,
        if ok .pendingEntry then (m.reqId, a) :: m.books.entries else m.books.entries,
        m.books.log ++
          .issued a kind.ledger m.reqId :: if ok .pendingEntry then [] else [.lost a m.reqId]⟩ :=
    fun hkind => (books_eq hfiber (hentries hkind) htrace).trans
      (congrArg _ ((books_log_append htrace).symm.trans (hlog hkind)))
  cases kind with
  | request =>
      rw [hbooks rfl]
      exact .stop hfresh hfree
  | timed d =>
      rw [hbooks rfl]
      exact .stop hfresh hfree
  | async =>
      rw [hbooks rfl]
      exact Books.Step.start hfresh
  | send =>
      have hbooks : m'.books = { m.books with log := m.books.log ++ [.issued a .ignores m.reqId] } := by
        refine Books.ext ?_ ?_ (books_log_append htrace)
        · rw [Module.books, hfiber, account_update]
          exact account_self rfl
        · rw [Module.books, hpending]
          rfl
      rw [hbooks]
      exact .ignore hfresh

theorem local_call {a : FiberRef} {now : Timespec} {ok : Alloc} {c : Call}
    {f : Fiber} {obs : List Obs} {cur : Option FiberRef} {eff : Effect} (hidle : (m.fiber a).Idle)
    (hcall : LocalCall m a now ok c f obs cur eff) (hfiber : m'.fiber = Function.update m.fiber a f)
    (hpending : m'.pending = m.pending) (htrace : m'.trace = m.trace ++ obs) :
    m'.books = m.books ∨ m.books.Step m'.books := by
  have hquiet : f.account = (m.fiber a).account → obs.filterMap Obs.ledger = [] → m'.books = m.books :=
    fun hf hobs => same (by rw [hfiber]; exact update_account hf) hpending htrace hobs
  have hstop : ∀ {g : Fiber}, g.waitingReply = (m.fiber a).waitingReply →
      g.stopped = (m.fiber a).stopped := fun hg => by
    rw [hidle.stopped, stopped_of_not_reply (hg.trans hidle.reply)]
  cases hcall with
  | @null _ f₁ _ obs₁ _ _ henter _ _ hnull =>
      obtain ⟨hf₁, hobs₁⟩ := henter.ledger
      obtain ⟨hf₂, hobs₂⟩ := hnull.ledger
      exact .inl (hquiet (hf₂.trans hf₁) (by rw [List.filterMap_append, hobs₁, hobs₂]; rfl))
  | @queued _ f₁ obs₁ g rr rest henter hrq =>
      obtain ⟨hf₁, hobs₁⟩ := henter.ledger
      have hqueue : (m.books.account a).queue = rr.reqId :: rest.map ReplyRec.reqId := by
        change (m.fiber a).account.queue = _
        rw [← hf₁]
        exact congrArg (List.map ReplyRec.reqId) hrq
      have hstep := Books.Step.collect (b := m.books) hqueue
      have hstopped : f₁.stopped = (m.fiber a).stopped := congrArg Requests.Account.stopped hf₁
      have hdue : f₁.asyncOutstanding = (m.fiber a).asyncOutstanding := congrArg Requests.Account.due hf₁
      have haccount : (f₁.dequeued rr rest ok).account =
          { m.books.account a with
            queue := rest.map ReplyRec.reqId
            due := (m.books.account a).due - 1 } := by
        change Requests.Account.mk f₁.stopped _ (f₁.asyncOutstanding - 1) = _
        rw [hstopped, hdue]
        rfl
      refine .inr ?_
      rw [books_eq hfiber rfl htrace, hpending, haccount, List.filterMap_append, hobs₁]
      exact hstep
  | @park _ f₁ obs₁ g henter _ _ =>
      obtain ⟨hf₁, hobs₁⟩ := henter.ledger
      obtain ⟨gathers, rfl⟩ := henter.same
      refine .inl (hquiet ?_ hobs₁)
      exact congrArg (fun st => Requests.Account.mk st _ _) (hstop rfl)
  | waitTimeout => exact .inl (hquiet (congrArg (fun st => Requests.Account.mk st _ _) (hstop rfl)) rfl)
  | reply => exact .inl (hquiet rfl rfl)
  | registered => exact .inl (hquiet rfl rfl)
  | unregistered => exact .inl (hquiet rfl rfl)
  | idle => exact .inl (hquiet rfl rfl)
  | notifying => exact .inl (hquiet rfl rfl)
  | notified => exact .inl (hquiet rfl rfl)

/-- A move of the module is a step of its books, or leaves them as they are. -/
theorem move_books {act : ModAct} {eff : Effect} (h : Ledger m) (hok : NoWrap m act)
    (hmove : Move m act eff m') : m'.books = m.books ∨ m.books.Step m'.books := by
  have hnil : m.trace = m.trace ++ [] := (List.append_nil _).symm
  cases hmove with
  | park => exact .inl (same (fun _ => rfl) rfl hnil rfl)
  | halt => exact .inl (same (fun _ => rfl) rfl hnil rfl)
  | take => exact .inl (same (fun _ => rfl) rfl hnil rfl)
  | pass => exact .inl (same (fun _ => rfl) rfl hnil rfl)
  | @fire _ t _ a _ hcur _ _ htimer _ hreply =>
      obtain ⟨haccount, hobs⟩ := timer_wake a (.timer t)
        (h.modes.waits hcur (.inr (.inl htimer))).2 htimer hreply
      exact .inl (same (update_account haccount) rfl rfl hobs)
  | expire hcur _ _ htimer _ hreply => exact .inr (h.expire hcur htimer hreply rfl rfl rfl)
  | defer => exact .inl (same (fun _ => rfl) rfl hnil rfl)
  | drop _ _ _ hdrop => exact .inl (same (fun _ => rfl) rfl rfl hdrop.ledger)
  | @begin _ ok e _ _ _ _ _ _ =>
      refine .inl (same (update_account ?_) rfl rfl (e.beginObs_ledger _))
      rw [e.fiber_account, h.modes.unborn _ (Nat.le_refl _)]
  | undefined _ _ _ _ hpeek _ => exact .inr (h.lose hpeek rfl rfl rfl)
  | wake hcur _ _ _ hpeek _ hwait => exact .inr (h.wake hcur hpeek hwait rfl rfl rfl)
  | queue _ _ _ _ hpeek _ hbusy => exact .inr (h.queue hpeek hbusy.1 rfl rfl rfl)
  | lose _ _ _ _ hpeek _ => exact .inr (h.lose hpeek rfl rfl rfl)
  | reap => exact .inl (same (fun _ => rfl) rfl hnil rfl)
  | issue hcur hissue => exact .inr (h.issue hcur (hissue.noWrap hok) rfl rfl rfl)
  | «local» hcur hcall => exact local_call (h.modes.running _ hcur).2.2.1 hcall rfl rfl rfl
  | lock => exact .inl (same (fun _ => rfl) rfl rfl rfl)
  | unlock => exact .inl (same (fun _ => rfl) rfl rfl rfl)
  | ret => exact .inl (same (update_account rfl) rfl rfl rfl)
  | stop => exact .inl (same (fun _ => rfl) rfl hnil rfl)

end Ledger

/-! ### Runs -/

theorem ids_books (m : Module) : Requests.ids m.books.log = m.trace.filterMap Obs.issueId := by
  rw [Requests.ids, Module.books, List.filterMap_filterMap]
  congr 1
  funext x
  cases x <;> rfl

namespace Ledger

variable {m m' : Module}

theorem move {act : ModAct} {eff : Effect} (h : Ledger m) (hok : NoWrap m act)
    (hmove : Move m act eff m') : Ledger m' := by
  refine ⟨h.modes.move hmove, ?_, ?_⟩
  · rcases h.move_books hok hmove with hsame | hstep
    · rw [hsame]
      exact h.balanced
    · exact h.balanced.step hstep
  · intro r hr
    have hbound := h.bound
    rw [ids_books] at hr hbound
    rcases hmove.issueIds with ⟨hids, hnext⟩ | ⟨hids, hnext⟩
    · rw [hids] at hr
      rw [hnext]
      exact hbound r hr
    · rw [hids] at hr
      rw [hnext]
      rcases List.mem_append.mp hr with hr | hr
      · exact Nat.lt_succ_of_lt (hbound r hr)
      · obtain rfl := List.mem_singleton.mp hr
        exact Nat.lt_succ_of_le (Nat.mod_le _ _)

theorem enqueue (h : Ledger m) (e : Ev) : Ledger (m.enqueue e) := by
  have hsame : (m.enqueue e).books = m.books := same (fun _ => rfl) rfl rfl rfl
  refine ⟨h.modes.enqueue e, ?_, ?_⟩
  · rw [hsame]
    exact h.balanced
  · rw [hsame]
    exact h.bound

theorem boot (i : Nat) (reg : Reg) : Ledger (Module.boot i reg) :=
  ⟨Modes.boot i reg, Requests.Books.balanced_start rfl rfl fun _ => rfl, fun r hr => by cases hr⟩

end Ledger

/-- In every run in which no id counter wraps the books of every module balance. -/
theorem ledger {ok : Sys → Act → Prop} {tbl : List Reg} {s : Sys} (hrun : Reaches ok tbl s)
    (hok : ∀ s a, ok s a → EveryModule NoWrap s a) (j : Nat) : Ledger (s.module j) :=
  module_invariant hrun hok Ledger.boot (fun _ _ _ _ h hok hmove => h.move hok hmove)
    (fun _ e h => h.enqueue e) j

end Coseq
