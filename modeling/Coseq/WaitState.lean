import Coseq.RequestReturns

/-! The wait state of fibers, in full. A parked fiber is in one wait mode; it waits for a reply exactly
while its blocking request is registered, and `async_outstanding` counts its other registered requests
and its queued replies. -/

namespace Coseq

/-- The ways a fiber can be parked: for the reply of a request, with a deadline or without, for a timer,
or in `coseq_wait_reply`. -/
inductive WaitMode where
  | reply (deadline : Bool)
  | timer
  | anyReply

/-- The wait flags of the fiber are those of the mode. -/
def Fiber.InMode (f : Fiber) : WaitMode → Prop
  | .reply deadline => f.waitingReply = true ∧ f.waitingTimer = deadline ∧ f.waitingAny = false
  | .timer => f.waitingReply = false ∧ f.waitingTimer = true ∧ f.waitingAny = false
  | .anyReply => f.waitingReply = false ∧ f.waitingTimer = false ∧ f.waitingAny = true

theorem Fiber.InMode.unique {f : Fiber} {w w' : WaitMode} (h : f.InMode w) (h' : f.InMode w') : w = w' := by
  cases w <;> cases w' <;> simp_all [Fiber.InMode]

theorem Fiber.Waits.mode {f : Fiber} (h : f.Waits) : ∃! w, f.InMode w := by
  have hone : ∀ w, f.InMode w → ∃! w, f.InMode w := fun w hw => ⟨w, hw, fun _ hw' => hw'.unique hw⟩
  cases h with
  | request _ hreply htimer hany => exact hone (.reply false) ⟨hreply, htimer, hany⟩
  | timed _ _ hreply htimer hany => exact hone (.reply true) ⟨hreply, htimer, hany⟩
  | waitReply _ hreply htimer hany _ _ => exact hone .anyReply ⟨hreply, htimer, hany⟩
  | waitTimeout _ hreply htimer hany => exact hone .timer ⟨hreply, htimer, hany⟩

/-- The pending entries of a fiber, its current blocking request left out. -/
def Module.otherPending (m : Module) (a : FiberRef) : List Pending :=
  m.pending.filter fun p =>
    p.f = a ∧ ¬((m.fiber a).waitingReply = true ∧ p.reqId = (m.fiber a).waitReqId)

/-- The wait state of the fiber `a`. -/
structure WaitState (m : Module) (a : FiberRef) : Prop where
  mode : m.current ≠ some a → ∃! w, (m.fiber a).InMode w
  blocking : (m.fiber a).waitingReply = true ↔ m.pending.count ⟨(m.fiber a).waitReqId, a⟩ = 1
  outstanding : (m.fiber a).asyncOutstanding = (m.otherPending a).length + (m.fiber a).rq.length
  any : (m.fiber a).waitingAny = true → (m.fiber a).rq = [] ∧ 0 < (m.fiber a).asyncOutstanding

/-! ### What is registered -/

/-- What the books of a module leave open while memory does not run out: blocking requests are
registered, the id a fiber waited for last is that of a blocking request, and only the replies of freed
fibers are lost. -/
structure Registers (m : Module) : Prop where
  counter : 0 < m.nextReqId
  positive : ∀ r ∈ Requests.ids m.books.log, 0 < r
  listed : m.books.Listed
  last : ∀ a, (m.fiber a).waitReqId = 0 ∨ ∃ d, .issued a (.stops d) (m.fiber a).waitReqId ∈ m.books.log
  owners : ∀ p ∈ m.pending, p.f < m.nextFiber
  lost : ∀ a r, .lost a r ∈ m.books.log → a < m.nextFiber ∧ a ∉ m.fibers

theorem LocalCall.waitReqId {m : Module} {a : FiberRef} {now : Timespec} {ok : Alloc} {c : Call} {f : Fiber}
    {obs : List Obs} {cur : Option FiberRef} {eff : Effect}
    (h : LocalCall m a now ok c f obs cur eff) : f.waitReqId = (m.fiber a).waitReqId := by
  cases h with
  | null henter _ _ hnull =>
      obtain ⟨_, rfl⟩ := henter.same
      obtain ⟨_, rfl⟩ := hnull.same
      rfl
  | queued henter _ =>
      obtain ⟨_, rfl⟩ := henter.same
      rfl
  | park henter _ _ =>
      obtain ⟨_, rfl⟩ := henter.same
      rfl
  | _ => rfl

theorem LocalCall.not_lost {m : Module} {a : FiberRef} {now : Timespec} {ok : Alloc} {c : Call} {f : Fiber}
    {obs : List Obs} {cur : Option FiberRef} {eff : Effect}
    (h : LocalCall m a now ok c f obs cur eff) (b : FiberRef) (r : Nat) : .lost b r ∉ obs := by
  have henters : ∀ {f₁ : Fiber} {obs₁ : List Obs} {g : Bool}, EnterWait (m.fiber a) a c f₁ obs₁ g →
      .lost b r ∉ obs₁ := by
    intro f₁ obs₁ g henter hlost
    cases henter.mem hlost
  cases h with
  | null henter _ _ hnull =>
      rw [List.mem_append, not_or]
      refine ⟨henters henter, fun hlost => ?_⟩
      rcases hnull.mem hlost with h | ⟨_, h⟩ <;> cases h
  | queued henter _ =>
      rw [List.mem_append, not_or]
      exact ⟨henters henter, by simp⟩
  | park henter _ _ => exact henters henter
  | _ => simp

theorem Fiber.wakeObs_not_lost {f : Fiber} {a : FiberRef} {why : Wake} (b : FiberRef) (r : Nat) :
    .lost b r ∉ f.wakeObs a why := by
  intro hlost
  rcases Fiber.wakeObs_mem hlost with h | ⟨_, _, h⟩ <;> cases h

namespace Registers

variable {m m' : Module} {xs : List Obs}

/-- The id a fiber waits for changes only when it issues a blocking request. -/
theorem lastWait {act : ModAct} {eff : Effect} (hmove : Move m act eff m') (b : FiberRef) :
    (m'.fiber b).waitReqId = (m.fiber b).waitReqId ∨ (m'.fiber b).waitReqId = 0 ∨
      ∃ d, .issued b (.stops d) (m'.fiber b).waitReqId ∈ m'.books.log := by
  have hupdate : ∀ {a : FiberRef} {f : Fiber}, f.waitReqId = (m.fiber a).waitReqId →
      (Function.update m.fiber a f b).waitReqId = (m.fiber b).waitReqId := fun hf =>
    Fiber.update_related (R := fun g g' => g'.waitReqId = g.waitReqId) (fun _ => rfl) hf b
  cases hmove with
  | fire => exact .inl (hupdate rfl)
  | expire => exact .inl (hupdate rfl)
  | wake => exact .inl (hupdate rfl)
  | queue => exact .inl (hupdate rfl)
  | ret => exact .inl (hupdate rfl)
  | «local» _ hcall => exact .inl (hupdate hcall.waitReqId)
  | @begin _ ok e _ _ _ _ _ _ =>
      dsimp only
      by_cases hb : b = m.nextFiber
      · subst hb
        rw [Function.update_self]
        refine .inr (.inl ?_)
        unfold Ev.fiber
        split <;> rfl
      · rw [Function.update_of_ne hb]
        exact .inl rfl
  | @issue _ _ ok a _ kind i s _ _ _ =>
      by_cases hb : b = a
      · subst hb
        dsimp only
        rw [Function.update_self]
        have hlog : ∀ d, kind.ledger = .stops d → ∃ d, .issued b (.stops d) m.reqId ∈
            (m.trace ++ issueObs m b kind i s ok).filterMap Obs.ledger := by
          intro d hd
          refine ⟨d, List.mem_filterMap.mpr ⟨.issued b kind m.reqId i s, ?_, ?_⟩⟩
          · simp [issueObs]
          · rw [Obs.ledger, hd]
        cases kind with
        | request => exact .inr (.inr (hlog none rfl))
        | timed d => exact .inr (.inr (hlog (some d) rfl))
        | async => exact .inl rfl
        | send => exact .inl rfl
      · dsimp only
        rw [Function.update_of_ne hb]
        exact .inl rfl
  | _ => exact .inl rfl

/-- While memory does not run out only the reply of a freed fiber is lost. -/
theorem newLost {act : ModAct} {eff : Effect} (hmove : Move m act eff m') (hok : AllocOk m act)
    (howners : ∀ p ∈ m.pending, p.f < m.nextFiber) {a : FiberRef} {r : Nat} (hlost : .lost a r ∈ m'.trace) :
    .lost a r ∈ m.trace ∨ a < m.nextFiber ∧ a ∉ m.fibers := by
  have happend : ∀ {xs : List Obs}, (.lost a r ∉ xs) → .lost a r ∈ m.trace ++ xs → .lost a r ∈ m.trace :=
    fun hxs h => (List.mem_append.mp h).resolve_right hxs
  cases hmove with
  | fire => exact .inl (happend (Fiber.wakeObs_not_lost a r) hlost)
  | expire => exact .inl (happend (Fiber.wakeObs_not_lost a r) hlost)
  | wake => exact .inl (happend (Fiber.wakeObs_not_lost a r) hlost)
  | drop _ _ _ hdrop =>
      refine .inl (happend (fun hlost => ?_) hlost)
      rcases hdrop.mem hlost with h | h <;> cases h
  | @begin _ _ e _ _ _ _ _ _ =>
      refine .inl (happend ?_ hlost)
      unfold Ev.beginObs
      split <;> simp
  | undefined _ _ _ _ hpeek hfreed =>
      rcases List.mem_append.mp hlost with h | h
      · exact .inl h
      · obtain ⟨rfl, -⟩ := Obs.lost.inj (List.mem_singleton.mp h)
        exact .inr ⟨howners _ (mem_of_peek hpeek), hfreed⟩
  | lose _ _ _ _ _ halloc => exact absurd hok halloc
  | @issue _ _ ok _ _ _ _ _ _ _ _ =>
      have hentry : ok .pendingEntry = true := hok .pendingEntry
      exact .inl (happend (by simp [issueObs, hentry]) hlost)
  | «local» _ hcall => exact .inl (happend (hcall.not_lost a r) hlost)
  | lock => exact .inl (happend (by simp) hlost)
  | unlock => exact .inl (happend (by simp) hlost)
  | ret => exact .inl (happend (by simp) hlost)
  | _ => exact .inl hlost

theorem owner {act : ModAct} {eff : Effect} (hmove : Move m act eff m') (hmodes : Modes m)
    (howners : ∀ p ∈ m.pending, p.f < m.nextFiber) : ∀ p ∈ m'.pending, p.f < m'.nextFiber := by
  intro p hp
  cases hmove with
  | expire => exact howners p (mem_of_take hp)
  | undefined => exact howners p (mem_of_take hp)
  | wake => exact howners p (mem_of_take hp)
  | queue => exact howners p (mem_of_take hp)
  | lose => exact howners p (mem_of_take hp)
  | begin => exact Nat.lt_succ_of_lt (howners p hp)
  | @issue _ _ _ a _ _ _ _ _ hcur _ =>
      rcases mem_issuePending hp with ⟨rfl, -⟩ | hp
      · exact hmodes.born a (hmodes.running a hcur).1
      · exact howners p hp
  | _ => exact howners p hp

/-- A freed fiber does not come back. -/
theorem freed {act : ModAct} {eff : Effect} (hmove : Move m act eff m') {a : FiberRef}
    (h : a < m.nextFiber ∧ a ∉ m.fibers) : a < m'.nextFiber ∧ a ∉ m'.fibers := by
  cases hmove with
  | begin =>
      refine ⟨Nat.lt_succ_of_lt h.1, fun hmem => ?_⟩
      rcases List.mem_cons.mp hmem with rfl | hmem
      · exact Nat.lt_irrefl _ h.1
      · exact h.2 hmem
  | reap => exact ⟨h.1, fun hmem => h.2 (List.mem_filter.mp hmem).1⟩
  | _ => exact h

theorem lost_books {a : FiberRef} {r : Nat} : .lost a r ∈ m.books.log ↔ .lost a r ∈ m.trace := by
  rw [Module.books, List.mem_filterMap]
  constructor
  · rintro ⟨x, hx, heq⟩
    cases x with
    | lost f rid =>
        obtain ⟨rfl, rfl⟩ := Requests.Entry.lost.inj (Option.some.inj heq)
        exact hx
    | issued => cases heq
    | returned => cases heq
    | _ => cases heq
  · exact fun hx => ⟨_, hx, rfl⟩

theorem positive_move {act : ModAct} {eff : Effect} (h : Registers m) (hok : NoWrap m act)
    (hmove : Move m act eff m') : 0 < m'.nextReqId ∧ ∀ r ∈ Requests.ids m'.books.log, 0 < r := by
  have hpositive := h.positive
  rw [ids_books] at hpositive
  rw [ids_books]
  rcases hmove.issue_cases with ⟨⟨xs, htrace, hxs⟩, hnext, -⟩ |
    ⟨c, now, id, ok, a, kind, i, s, msg, rfl, hissue, htrace, hnext, -⟩
  · rw [hnext, htrace, List.filterMap_append, hxs, List.append_nil]
    exact ⟨h.counter, hpositive⟩
  · rw [hnext, htrace, List.filterMap_append, issueObs_issueIds, hissue.noWrap hok]
    refine ⟨Nat.succ_pos _, fun r hr => ?_⟩
    rcases List.mem_append.mp hr with hr | hr
    · exact hpositive r hr
    · rw [List.mem_singleton.mp hr]
      exact h.counter

theorem move {act : ModAct} {eff : Effect} (h : Registers m) (hledger : Ledger m) (hok : Ample m act)
    (hmove : Move m act eff m') : Registers m' := by
  obtain ⟨-, -, xs, htrace⟩ := hmove.grows
  have hold : ∀ {x}, x ∈ m.books.log → x ∈ m'.books.log := by
    intro x hx
    rw [books_log_append htrace]
    exact List.mem_append_left _ hx
  obtain ⟨hcounter, hpositive⟩ := h.positive_move hok.1 hmove
  refine ⟨hcounter, hpositive, ?_, fun a => ?_, owner hmove hledger.modes h.owners, fun a r hlost => ?_⟩
  · rcases hledger.move_books hok.1 hmove with hsame | hstep
    · rw [hsame]
      exact h.listed
    · exact hledger.balanced.listed_step h.listed hstep
  · rcases lastWait hmove a with hsame | hzero | hissued
    · rw [hsame]
      exact (h.last a).imp id fun ⟨d, hd⟩ => ⟨d, hold hd⟩
    · exact .inl hzero
    · exact .inr hissued
  · rcases newLost hmove hok.2 h.owners (lost_books.mp hlost) with hlost | hfreed
    · exact freed hmove (h.lost a r (lost_books.mpr hlost))
    · exact freed hmove hfreed

theorem enqueue (h : Registers m) (e : Ev) : Registers (m.enqueue e) := by
  have hbooks : (m.enqueue e).books = m.books := Ledger.same (fun _ => rfl) rfl rfl rfl
  refine ⟨h.counter, ?_, ?_, ?_, h.owners, ?_⟩
  · rw [hbooks]
    exact h.positive
  · rw [hbooks]
    exact h.listed
  · rw [hbooks]
    exact h.last
  · rw [hbooks]
    exact h.lost

theorem boot (i : Nat) (reg : Reg) : Registers (Module.boot i reg) where
  counter := Nat.one_pos
  positive := fun r hr => by cases hr
  listed := fun a d r hd => by cases hd
  last := fun a => .inl rfl
  owners := fun p hp => by cases hp
  lost := fun a r hr => by cases hr

end Registers

theorem registers {tbl : List Reg} {s : Sys} (hrun : Reaches (EveryModule Ample) tbl s) (j : Nat) :
    Ledger (s.module j) ∧ Registers (s.module j) :=
  module_invariant (P := fun m => Ledger m ∧ Registers m) hrun (fun _ _ h => h)
    (fun i reg => ⟨Ledger.boot i reg, Registers.boot i reg⟩)
    (fun _ _ _ _ h hok hmove => ⟨h.1.move hok.1 hmove, h.2.move h.1 hok hmove⟩)
    (fun _ e h => ⟨h.1.enqueue e, h.2.enqueue e⟩) j

/-! ### The wait state -/

section State

variable {m : Module} {a : FiberRef}

theorem count_pending {r : Nat} : m.pending.count ⟨r, a⟩ = m.books.entries.count (r, a) := by
  rw [Module.books, List.count_eq_countP, List.count_eq_countP, List.countP_map]
  refine List.countP_congr fun p _ => ?_
  cases p
  simp

/-- A fiber with a wait flag set is parked in the call of the flag. -/
theorem Modes.parked_waits (h : Modes m) (ha : a ∈ m.fibers) (hflag : (m.fiber a).waitingReply = true ∨
    (m.fiber a).waitingTimer = true ∨ (m.fiber a).waitingAny = true) : (m.fiber a).Waits := by
  refine h.parked a ha (fun hcur => ?_) (h.not_done hflag)
  obtain ⟨-, -, hidle, -⟩ := h.running a hcur
  rw [hidle.reply, hidle.timer, hidle.any] at hflag
  simp at hflag

/-- A fiber that waits for a reply is stopped in a request. -/
theorem Modes.stopped (h : Modes m) (ha : a ∈ m.fibers) (hreply : (m.fiber a).waitingReply = true) :
    ∃ d, (m.fiber a).stopped = some (d, (m.fiber a).waitReqId) := by
  cases h.parked_waits ha (.inl hreply) with
  | request hctx => exact ⟨none, by simp [Fiber.stopped, hreply, hctx]⟩
  | @timed d hctx => exact ⟨some d, by simp [Fiber.stopped, hreply, hctx]⟩
  | waitReply _ hno =>
      rw [hreply] at hno
      cases hno
  | waitTimeout _ hno =>
      rw [hreply] at hno
      cases hno

theorem wait_blocking (hledger : Ledger m) (hreg : Registers m) (ha : a ∈ m.fibers) :
    (m.fiber a).waitingReply = true ↔ m.pending.count ⟨(m.fiber a).waitReqId, a⟩ = 1 := by
  rw [count_pending]
  constructor
  · intro hreply
    obtain ⟨d, hd⟩ := hledger.modes.stopped ha hreply
    refine hledger.balanced.count_entry ((hreg.listed a d _ hd).resolve_right fun hlost => ?_)
    exact (hreg.lost a _ hlost).2 ha
  · intro hone
    have hentry : ((m.fiber a).waitReqId, a) ∈ m.books.entries := List.count_pos_iff.mp (by omega)
    rcases hledger.balanced.entry _ _ hentry with hdue | ⟨d, hd⟩
    · rcases hreg.last a with hzero | ⟨d, hd⟩
      · have hpos := hreg.positive _ (Requests.mem_ids.mpr ⟨a, _, hdue⟩)
        omega
      · cases (Requests.issued_unique hledger.balanced.ids hdue hd).2
    · by_contra hno
      have hstopped := stopped_of_not_reply (Bool.eq_false_iff.mpr hno)
      rw [Module.books] at hd
      dsimp only [Fiber.account] at hd
      rw [hstopped] at hd
      cases hd

theorem openIds_books (hmodes : Modes m) (ha : a ∈ m.fibers) :
    (m.books.openIds a).length = (m.otherPending a).length := by
  rw [Requests.Books.openIds, Module.otherPending, List.length_map, Module.books, List.filter_map,
    List.length_map]
  congr 1
  refine List.filter_congr fun p _ => ?_
  have hid : (m.fiber a).stopped.map Prod.snd = some p.reqId ↔
      (m.fiber a).waitingReply = true ∧ p.reqId = (m.fiber a).waitReqId := by
    by_cases hreply : (m.fiber a).waitingReply = true
    · obtain ⟨d, hd⟩ := hmodes.stopped ha hreply
      simp [hd, hreply, eq_comm]
    · rw [stopped_of_not_reply (Bool.eq_false_iff.mpr hreply)]
      simp [hreply]
  have hid' : ((m.fiber a).account.stopped.map Prod.snd = some p.reqId) ↔ _ := hid
  simp only [Function.comp_apply, ne_eq, hid']

end State

/-- In every run in which ids and memory do not run out, the wait flags, the pending entries and the
queued replies of every live fiber agree. -/
theorem wait_state {tbl : List Reg} {s : Sys} (hrun : Reaches (EveryModule Ample) tbl s) {j : Nat}
    {a : FiberRef} (ha : a ∈ (s.module j).fibers) (hdone : ((s.module j).fiber a).done = false) :
    WaitState (s.module j) a := by
  obtain ⟨hledger, hreg⟩ := registers hrun j
  have hlost : ∀ r, .lost a r ∉ (s.module j).books.log := fun r hr => (hreg.lost a r hr).2 ha
  have hdue := hledger.balanced.due_open hlost
  rw [openIds_books hledger.modes ha] at hdue
  have hout : ((s.module j).fiber a).asyncOutstanding =
      ((s.module j).otherPending a).length + ((s.module j).fiber a).rq.length := by
    simpa [Module.books, Fiber.account] using hdue
  refine ⟨fun hcur => (hledger.modes.parked a ha hcur hdone).mode, wait_blocking hledger hreg ha, hout,
    fun hany => ?_⟩
  cases hledger.modes.parked_waits ha (.inr (.inr hany)) with
  | waitReply _ _ _ _ hrq hne => exact ⟨hrq, by omega⟩
  | request _ _ _ hno =>
      rw [hany] at hno
      cases hno
  | timed _ _ _ _ hno =>
      rw [hany] at hno
      cases hno
  | waitTimeout _ _ _ hno =>
      rw [hany] at hno
      cases hno

/-- Of two asynchronous requests one is answered while the fiber waits in a blocking one. -/
def mixedWaitRun : List Act :=
  [.requestAsync 0 0 0 [], .asyncPost 0 .granted, .thread 0, .thread 0, .thread 0, .thread 0,
    .fiber 0 (.requestAsync 1 0 []), .fiber 0 (.requestAsync 1 0 []), .fiber 0 (.request 1 0 []),
    .thread 1, .thread 1, .thread 1, .thread 1, .fiber 1 (.reply .success [1]),
    .thread 0, .thread 0, .thread 0, .thread 0, .thread 0, .thread 0, .thread 0, .thread 0]

theorem mixedWaitRun_state : ∃ s, Reaches (EveryModule Ample) [⟨1, false⟩, ⟨1, false⟩] s ∧
    ((s.module 0).pending = [⟨3, 0⟩, ⟨2, 0⟩] ∧ ((s.module 0).fiber 0).rq.map ReplyRec.reqId = [1] ∧
      ((s.module 0).fiber 0).waitReqId = 3 ∧ ((s.module 0).fiber 0).asyncOutstanding = 2) ∧
    WaitState (s.module 0) 0 := by
  obtain ⟨s, hrun, hs⟩ : ∃ s, Reaches (EveryModule Ample) [⟨1, false⟩, ⟨1, false⟩] s ∧
      decide (((s.module 0).pending = [⟨3, 0⟩, ⟨2, 0⟩] ∧ ((s.module 0).fiber 0).rq.map ReplyRec.reqId = [1] ∧
        ((s.module 0).fiber 0).waitReqId = 3 ∧ ((s.module 0).fiber 0).asyncOutstanding = 2) ∧
        0 ∈ (s.module 0).fibers ∧ ((s.module 0).fiber 0).done = false) = true :=
    Lts.exists_run mixedWaitRun (by decide +kernel)
  obtain ⟨hstate, hmem, hdone⟩ := of_decide_eq_true hs
  exact ⟨s, hrun, hstate, wait_state hrun hmem hdone⟩

end Coseq
