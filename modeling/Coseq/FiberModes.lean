import Coseq.SystemModule

/-! The wait modes of fibers. A parked fiber's flags are those of the call it is parked in, a running
or finished fiber has none set, and a flag is set in no record outside the fiber list. -/

namespace Coseq

/-- No wait flag is set. -/
structure Fiber.Idle (f : Fiber) : Prop where
  reply : f.waitingReply = false
  timer : f.waitingTimer = false
  any : f.waitingAny = false

/-- The flags agree with the call the fiber is parked in. -/
inductive Fiber.Waits (f : Fiber) : Prop where
  | request (hctx : f.ctx = .request .request) (hreply : f.waitingReply = true)
      (htimer : f.waitingTimer = false) (hany : f.waitingAny = false)
  | timed {d : Timespec} (hctx : f.ctx = .request (.timed d)) (hdeadline : f.deadline = d)
      (hreply : f.waitingReply = true) (htimer : f.waitingTimer = true) (hany : f.waitingAny = false)
  | waitReply {gather : Bool} (hctx : f.ctx = .waitReply gather) (hreply : f.waitingReply = false)
      (htimer : f.waitingTimer = false) (hany : f.waitingAny = true) (hrq : f.rq = [])
      (hout : f.asyncOutstanding ≠ 0)
  | waitTimeout (hctx : f.ctx = .waitTimeout) (hreply : f.waitingReply = false)
      (htimer : f.waitingTimer = true) (hany : f.waitingAny = false)

namespace Fiber.Waits

variable {f : Fiber}

/-- A fiber with `waiting_any` set is in `coseq_wait_reply`. -/
theorem of_any (h : f.Waits) (hany : f.waitingAny = true) :
    ∃ g, f.ctx = .waitReply g ∧ f.waitingReply = false ∧ f.rq = [] := by
  cases h with
  | request _ _ _ hnot => exact absurd (hnot.symm.trans hany) Bool.false_ne_true
  | timed _ _ _ _ hnot => exact absurd (hnot.symm.trans hany) Bool.false_ne_true
  | waitReply hctx hreply _ _ hrq _ => exact ⟨_, hctx, hreply, hrq⟩
  | waitTimeout _ _ _ hnot => exact absurd (hnot.symm.trans hany) Bool.false_ne_true

theorem not_any (h : f.Waits) (hflag : f.waitingReply = true ∨ f.waitingTimer = true) : f.waitingAny = false := by
  cases h with
  | request _ _ _ hany => exact hany
  | timed _ _ _ _ hany => exact hany
  | waitReply _ hreply htimer =>
      rw [hreply, htimer] at hflag
      simp at hflag
  | waitTimeout _ _ _ hany => exact hany

/-- A fiber with a timer and no reply to wait for is in `coseq_wait_timeout`. -/
theorem of_timer (h : f.Waits) (htimer : f.waitingTimer = true) (hreply : f.waitingReply = false) :
    f.ctx = .waitTimeout := by
  cases h with
  | request _ hwait => exact absurd (hreply.symm.trans hwait) Bool.false_ne_true
  | timed _ _ hwait => exact absurd (hreply.symm.trans hwait) Bool.false_ne_true
  | waitReply _ _ hnot => exact absurd (hnot.symm.trans htimer) Bool.false_ne_true
  | waitTimeout hctx => exact hctx

/-- A fiber with a timer and a reply to wait for is in `coseq_request_timeout`. -/
theorem of_deadline (h : f.Waits) (htimer : f.waitingTimer = true) (hreply : f.waitingReply = true) :
    f.ctx = .request (.timed f.deadline) := by
  cases h with
  | request _ _ hnot => exact absurd (hnot.symm.trans htimer) Bool.false_ne_true
  | timed hctx hdeadline =>
      rw [hdeadline]
      exact hctx
  | waitReply _ hnot => exact absurd (hnot.symm.trans hreply) Bool.false_ne_true
  | waitTimeout _ hnot => exact absurd (hnot.symm.trans hreply) Bool.false_ne_true

end Fiber.Waits

/-- The scheduler is at the top of its loop or in its condition wait. -/
def Module.AtWaitPoint (m : Module) : Prop := m.phase = .top ∨ ∃ d, m.phase = .waiting d

instance (m : Module) : Decidable m.AtWaitPoint :=
  match h : m.phase with
  | .top => .isTrue (.inl h)
  | .waiting d => .isTrue (.inr ⟨d, h⟩)
  | .clock | .timers _ _ | .events | .stopped | .undefined =>
      .isFalse (by unfold Module.AtWaitPoint; rw [h]; simp)

/-- The fibers of a module are running, parked or finished, and a finished one is idle. -/
structure Modes (m : Module) : Prop where
  nodup : m.fibers.Nodup
  born : ∀ a ∈ m.fibers, a < m.nextFiber
  unborn : ∀ a, m.nextFiber ≤ a → m.fiber a = Fiber.blank
  freed : ∀ a < m.nextFiber, a ∉ m.fibers → (m.fiber a).done = true
  finished : ∀ a, (m.fiber a).done = true → (m.fiber a).Idle
  running : ∀ a, m.current = some a →
    a ∈ m.fibers ∧ (m.fiber a).done = false ∧ (m.fiber a).Idle ∧ ¬m.AtWaitPoint
  parked : ∀ a ∈ m.fibers, m.current ≠ some a → (m.fiber a).done = false → (m.fiber a).Waits
  holder : ∀ a, m.lockedBy = some a → a ∈ m.fibers
  timers : ∀ t rest, m.phase = .timers t rest → ∀ a ∈ rest, a ∈ m.fibers
  swept : m.AtWaitPoint → m.batch = [] ∧ ∀ a ∈ m.fibers, (m.fiber a).done = false

/-- What the update of one fiber keeps of that fiber it keeps of all. -/
theorem Fiber.update_related {R : Fiber → Fiber → Prop} {fiber : FiberRef → Fiber} {a : FiberRef}
    {f : Fiber} (hrefl : ∀ g, R g g) (h : R (fiber a) f) (b : FiberRef) :
    R (fiber b) (Function.update fiber a f b) := by
  by_cases hb : b = a
  · subst hb
    rw [Function.update_self]
    exact h
  · rw [Function.update_of_ne hb]
    exact hrefl _

namespace Modes

variable {m m' : Module} {a : FiberRef} {f : Fiber}

/-- A step that leaves the fibers alone. -/
theorem quiet (h : Modes m) (hfibers : m'.fibers = m.fibers) (hfiber : m'.fiber = m.fiber)
    (hnext : m'.nextFiber = m.nextFiber) (hcur : m'.current = m.current)
    (hlock : ∀ b, m'.lockedBy = some b → b ∈ m.fibers)
    (hwait : m'.AtWaitPoint → m.AtWaitPoint ∧ m'.batch = m.batch)
    (htimers : ∀ t rest, m'.phase = .timers t rest → ∀ b ∈ rest, b ∈ m.fibers) : Modes m' where
  nodup := hfibers ▸ h.nodup
  born := by rw [hfibers, hnext]; exact h.born
  unborn := by rw [hfiber, hnext]; exact h.unborn
  freed := by rw [hfibers, hfiber, hnext]; exact h.freed
  finished := by rw [hfiber]; exact h.finished
  running := by
    intro b hb
    rw [hfibers, hfiber]
    rw [hcur] at hb
    obtain ⟨hmem, hdone, hidle, hphase⟩ := h.running b hb
    exact ⟨hmem, hdone, hidle, fun hw => hphase (hwait hw).1⟩
  parked := by rw [hfibers, hfiber, hcur]; exact h.parked
  holder := by rw [hfibers]; exact hlock
  timers := by rw [hfibers]; exact htimers
  swept := by
    intro hw
    obtain ⟨hphase, hbatch⟩ := hwait hw
    rw [hfibers, hfiber, hbatch]
    exact h.swept hphase

/-- A step that rewrites the record of one fiber, which then runs, is parked or is finished, while no
other fiber runs. -/
theorem turn (h : Modes m) (ha : a ∈ m.fibers) {cur : Option FiberRef}
    (hothers : ∀ b, m.current = some b → b = a)
    (hf : cur = some a ∧ f.done = false ∧ f.Idle ∨
      cur = none ∧ (f.done = false → f.Waits) ∧ (f.done = true → f.Idle))
    (hfibers : m'.fibers = m.fibers) (hfiber : m'.fiber = Function.update m.fiber a f)
    (hnext : m'.nextFiber = m.nextFiber) (hcur : m'.current = cur)
    (hlock : m'.lockedBy = m.lockedBy) (hphase : ¬m'.AtWaitPoint)
    (htimers : ∀ t rest, m'.phase = .timers t rest → ∀ b ∈ rest, b ∈ m.fibers) : Modes m' where
  nodup := hfibers ▸ h.nodup
  born := by rw [hfibers, hnext]; exact h.born
  unborn := by
    intro b hb
    rw [hnext] at hb
    have hne : b ≠ a := fun hba => absurd (h.born a ha) (Nat.not_lt_of_ge (hba ▸ hb))
    rw [hfiber, Function.update_of_ne hne]
    exact h.unborn b hb
  freed := by
    intro b hb hmem
    rw [hfibers] at hmem
    rw [hnext] at hb
    have hne : b ≠ a := fun hba => hmem (hba ▸ ha)
    rw [hfiber, Function.update_of_ne hne]
    exact h.freed b hb hmem
  finished := by
    intro b hdone
    rw [hfiber] at hdone ⊢
    by_cases hb : b = a
    · subst hb
      rw [Function.update_self] at hdone ⊢
      rcases hf with ⟨-, -, hidle⟩ | ⟨-, -, hidle⟩
      · exact hidle
      · exact hidle hdone
    · rw [Function.update_of_ne hb] at hdone ⊢
      exact h.finished b hdone
  running := by
    intro b hb
    rw [hcur] at hb
    rcases hf with ⟨hrun, hdone, hidle⟩ | ⟨hnone, -⟩
    · obtain rfl : a = b := Option.some.inj (hrun.symm.trans hb)
      rw [hfibers, hfiber, Function.update_self]
      exact ⟨ha, hdone, hidle, hphase⟩
    · rw [hnone] at hb
      cases hb
  parked := by
    intro b hb hnot hdone
    rw [hfibers] at hb
    rw [hfiber] at hdone ⊢
    by_cases hba : b = a
    · subst hba
      rw [Function.update_self] at hdone ⊢
      rcases hf with ⟨hrun, -⟩ | ⟨-, hwaits, -⟩
      · exact absurd (hcur.trans hrun) hnot
      · exact hwaits hdone
    · rw [Function.update_of_ne hba] at hdone ⊢
      exact h.parked b hb (fun hb' => hba (hothers b hb')) hdone
  holder := by rw [hfibers, hlock]; exact h.holder
  timers := by rw [hfibers]; exact htimers
  swept := fun hw => absurd hw hphase

theorem not_wait_events (hphase : m.phase = .events) : ¬m.AtWaitPoint := by
  rintro (h | ⟨d, h⟩) <;> rw [hphase] at h <;> cases h

theorem not_wait_timers {t : Timespec} {rest : List FiberRef} (hphase : m.phase = .timers t rest) :
    ¬m.AtWaitPoint := by
  rintro (h | ⟨d, h⟩) <;> rw [hphase] at h <;> cases h

theorem no_timers_events (hphase : m.phase = .events) (t : Timespec) (rest : List FiberRef)
    (h : m.phase = .timers t rest) : ∀ b ∈ rest, b ∈ m.fibers := by
  rw [hphase] at h
  cases h

theorem resumed_idle (f : Fiber) : f.wake.Idle := ⟨rfl, rfl, rfl⟩

/-- A resumption in a phase with no wait point. -/
theorem wake (h : Modes m) (ha : a ∈ m.fibers) (hcur : m.current = none) (hdone : f.done = false)
    (hfibers : m'.fibers = m.fibers) (hfiber : m'.fiber = Function.update m.fiber a f.wake)
    (hnext : m'.nextFiber = m.nextFiber) (hcur' : m'.current = some a)
    (hlock : m'.lockedBy = m.lockedBy) (hphase : ¬m'.AtWaitPoint)
    (htimers : ∀ t rest, m'.phase = .timers t rest → ∀ b ∈ rest, b ∈ m.fibers) : Modes m' :=
  h.turn (f := f.wake) ha (fun b hb => by rw [hcur] at hb; cases hb) (.inl ⟨rfl, hdone, resumed_idle f⟩) hfibers
    hfiber hnext hcur' hlock hphase htimers

/-- A fiber with a flag set has not finished. -/
theorem not_done (h : Modes m) (hflag : (m.fiber a).waitingReply = true ∨
    (m.fiber a).waitingTimer = true ∨ (m.fiber a).waitingAny = true) : (m.fiber a).done = false := by
  by_contra hdone
  have hidle := h.finished a (by simpa using hdone)
  rw [hidle.reply, hidle.timer, hidle.any] at hflag
  simp at hflag

theorem listed (h : Modes m) (hflag : (m.fiber a).waitingReply = true ∨
    (m.fiber a).waitingTimer = true ∨ (m.fiber a).waitingAny = true) : a ∈ m.fibers := by
  have hdone := h.not_done hflag
  by_contra hmem
  rcases Nat.lt_or_ge a m.nextFiber with hlt | hge
  · rw [h.freed a hlt hmem] at hdone
    cases hdone
  · rw [h.unborn a hge] at hflag
    simp [Fiber.blank] at hflag

/-- A fiber with a flag set is parked in the fiber list. -/
theorem waits (h : Modes m) (hcur : m.current = none) (hflag : (m.fiber a).waitingReply = true ∨
    (m.fiber a).waitingTimer = true ∨ (m.fiber a).waitingAny = true) :
    a ∈ m.fibers ∧ (m.fiber a).Waits := by
  have hmem := h.listed hflag
  refine ⟨hmem, h.parked a hmem ?_ (h.not_done hflag)⟩
  rw [hcur]
  simp

end Modes

theorem Ev.fiber_done (e : Ev) (ok : Alloc) : (e.fiber ok).done = false := by
  unfold Ev.fiber
  split <;> rfl

theorem Ev.fiber_idle (e : Ev) (ok : Alloc) : (e.fiber ok).Idle := by
  unfold Ev.fiber
  split <;> exact ⟨rfl, rfl, rfl⟩

theorem EnterWait.same {f f' : Fiber} {a : FiberRef} {c : Call} {obs : List Obs} {g : Bool}
    (h : EnterWait f a c f' obs g) : ∃ gathers, f' = { f with gathers := gathers } := by
  cases h with
  | waitReply => exact ⟨f.gathers, rfl⟩
  | gather => exact ⟨_, rfl⟩
  | gatherNext => exact ⟨_, rfl⟩

theorem NullReturn.same {f f' : Fiber} {a : FiberRef} {obs : List Obs} {g : Bool}
    (h : NullReturn f a g f' obs) : ∃ gathers, f' = { f with gathers := gathers } := by
  cases h with
  | plain => exact ⟨f.gathers, rfl⟩
  | gather => exact ⟨_, rfl⟩

/-- A local call leaves the fiber running or parks it. -/
theorem LocalCall.turn {m : Module} {a : FiberRef} {now : Timespec} {ok : Alloc} {c : Call} {f : Fiber}
    {obs : List Obs} {cur : Option FiberRef} {eff : Effect}
    (h : LocalCall m a now ok c f obs cur eff) (hidle : (m.fiber a).Idle) :
    f.done = (m.fiber a).done ∧ (cur = some a ∧ f.Idle ∨ cur = none ∧ f.Waits) := by
  cases h with
  | null henter _ _ hnull =>
      obtain ⟨_, rfl⟩ := henter.same
      obtain ⟨_, rfl⟩ := hnull.same
      exact ⟨rfl, .inl ⟨rfl, hidle.reply, hidle.timer, hidle.any⟩⟩
  | queued henter _ =>
      obtain ⟨_, rfl⟩ := henter.same
      exact ⟨rfl, .inl ⟨rfl, hidle.reply, hidle.timer, hidle.any⟩⟩
  | park henter hout hrq =>
      obtain ⟨_, rfl⟩ := henter.same
      exact ⟨rfl, .inr ⟨rfl, .waitReply rfl hidle.reply hidle.timer rfl hrq hout⟩⟩
  | waitTimeout => exact ⟨rfl, .inr ⟨rfl, .waitTimeout rfl hidle.reply rfl hidle.any⟩⟩
  | reply => exact ⟨rfl, .inl ⟨rfl, hidle⟩⟩
  | registered => exact ⟨rfl, .inl ⟨rfl, hidle⟩⟩
  | unregistered => exact ⟨rfl, .inl ⟨rfl, hidle⟩⟩
  | idle => exact ⟨rfl, .inl ⟨rfl, hidle⟩⟩
  | notifying => exact ⟨rfl, .inl ⟨rfl, hidle.reply, hidle.timer, hidle.any⟩⟩
  | notified => exact ⟨rfl, .inl ⟨rfl, hidle.reply, hidle.timer, hidle.any⟩⟩

theorem Fiber.issued_turn {f : Fiber} (kind : ReqKind) (rid : Nat) (a : FiberRef) (hidle : f.Idle) :
    (f.issued kind rid).done = f.done ∧
      (kind.running a = some a ∧ (f.issued kind rid).Idle ∨
        kind.running a = none ∧ (f.issued kind rid).Waits) := by
  cases kind with
  | request => exact ⟨rfl, .inr ⟨rfl, .request rfl rfl hidle.timer hidle.any⟩⟩
  | timed d => exact ⟨rfl, .inr ⟨rfl, .timed rfl rfl rfl rfl hidle.any⟩⟩
  | async => exact ⟨rfl, .inl ⟨rfl, hidle.reply, hidle.timer, hidle.any⟩⟩
  | send => exact ⟨rfl, .inl ⟨rfl, hidle⟩⟩

namespace Modes

variable {m m' : Module}

theorem begin (h : Modes m) {e : Ev} {ok : Alloc} (hcur : m.current = none)
    (hfibers : m'.fibers = m.nextFiber :: m.fibers)
    (hfiber : m'.fiber = Function.update m.fiber m.nextFiber (e.fiber ok))
    (hnext : m'.nextFiber = m.nextFiber + 1) (hcur' : m'.current = some m.nextFiber)
    (hlock : m'.lockedBy = m.lockedBy) (hphase' : m'.phase = .events) : Modes m' := by
  have hnew : m.nextFiber ∉ m.fibers := fun hmem => Nat.lt_irrefl _ (h.born _ hmem)
  have hold : ∀ b ∈ m.fibers, m'.fiber b = m.fiber b := fun b hb => by
    rw [hfiber, Function.update_of_ne]
    rintro rfl
    exact hnew hb
  refine ⟨?_, ?_, ?_, ?_, ?_, ?_, ?_, ?_, ?_, fun hw => absurd hw (not_wait_events hphase')⟩
  · rw [hfibers]
    exact List.nodup_cons.mpr ⟨hnew, h.nodup⟩
  · intro b hb
    rw [hfibers] at hb
    rw [hnext]
    rcases List.mem_cons.mp hb with rfl | hb
    · exact Nat.lt_succ_self _
    · exact Nat.lt_succ_of_lt (h.born b hb)
  · intro b hb
    rw [hnext] at hb
    rw [hfiber, Function.update_of_ne (Nat.ne_of_gt hb)]
    exact h.unborn b (Nat.le_of_succ_le hb)
  · intro b hb hmem
    rw [hfibers, List.mem_cons, not_or] at hmem
    rw [hnext] at hb
    rw [hfiber, Function.update_of_ne hmem.1]
    exact h.freed b (Nat.lt_of_le_of_ne (Nat.le_of_lt_succ hb) hmem.1) hmem.2
  · intro b hdone
    rw [hfiber] at hdone ⊢
    by_cases hb : b = m.nextFiber
    · subst hb
      rw [Function.update_self, e.fiber_done ok] at hdone
      cases hdone
    · rw [Function.update_of_ne hb] at hdone ⊢
      exact h.finished b hdone
  · intro b hb
    obtain rfl : m.nextFiber = b := Option.some.inj (hcur'.symm.trans hb)
    rw [hfibers, hfiber, Function.update_self]
    exact ⟨List.mem_cons_self, e.fiber_done ok, e.fiber_idle ok, not_wait_events hphase'⟩
  · intro b hb hnot hdone
    rw [hfibers] at hb
    rcases List.mem_cons.mp hb with rfl | hb
    · exact absurd hcur' hnot
    · rw [hold b hb] at hdone ⊢
      exact h.parked b hb (by rw [hcur]; simp) hdone
  · intro b hb
    rw [hlock] at hb
    rw [hfibers]
    exact List.mem_cons_of_mem _ (h.holder b hb)
  · exact no_timers_events hphase'

theorem reap (h : Modes m) (hcur : m.current = none) (hbatch : m.batch = []) :
    Modes { reapDone m with phase := .top } := by
  refine ⟨h.nodup.filter _, ?_, h.unborn, ?_, h.finished, ?_, ?_, ?_, ?_, ?_⟩
  · exact fun b hb => h.born b (List.mem_filter.mp hb).1
  · intro b hb hmem
    by_cases hb' : b ∈ m.fibers
    · by_contra hdone
      exact hmem (List.mem_filter.mpr ⟨hb', by simpa [reapDone] using hdone⟩)
    · exact h.freed b hb hb'
  · intro b hb
    have hb : m.current = some b := hb
    rw [hcur] at hb
    cases hb
  · intro b hb _ hdone
    exact h.parked b (List.mem_filter.mp hb).1 (by rw [hcur]; simp) hdone
  · intro b hb
    obtain ⟨hlock, hdone⟩ := Option.filter_eq_some_iff.mp hb
    have hmem := h.holder b hlock
    refine List.mem_filter.mpr ⟨hmem, ?_⟩
    simpa [hmem] using hdone
  · rintro t rest ⟨⟩
  · refine fun _ => ⟨hbatch, fun b hb => ?_⟩
    simpa [reapDone] using (List.mem_filter.mp hb).2

theorem move {act : ModAct} {eff : Effect} (h : Modes m) (hmove : Move m act eff m') : Modes m' := by
  have hsame : ∀ b, m.lockedBy = some b → b ∈ m.fibers := h.holder
  cases hmove with
  | park hcur hphase _ _ =>
      exact h.quiet rfl rfl rfl rfl hsame (fun _ => ⟨.inl hphase, rfl⟩) (by rintro t rest ⟨⟩)
  | halt hcur _ _ =>
      exact h.quiet rfl rfl rfl rfl hsame (by rintro (⟨⟨⟩⟩ | ⟨_, ⟨⟩⟩)) (by rintro t rest ⟨⟩)
  | take hcur _ =>
      exact h.quiet rfl rfl rfl rfl hsame (by rintro (⟨⟨⟩⟩ | ⟨_, ⟨⟩⟩)) (by rintro t rest ⟨⟩)
  | pass hcur hpass =>
      cases hpass with
      | clock now _ =>
          refine h.quiet rfl rfl rfl rfl hsame (by rintro (⟨⟨⟩⟩ | ⟨_, ⟨⟩⟩)) ?_
          rintro t rest ⟨⟩
          exact fun b hb => hb
      | timersDone _ =>
          exact h.quiet rfl rfl rfl rfl hsame (by rintro (⟨⟨⟩⟩ | ⟨_, ⟨⟩⟩)) (by rintro t rest ⟨⟩)
      | skip hphase =>
          refine h.quiet rfl rfl rfl rfl hsame (by rintro (⟨⟨⟩⟩ | ⟨_, ⟨⟩⟩)) ?_
          rintro t rest ⟨⟩
          exact fun b hb => h.timers _ _ hphase b (List.mem_cons_of_mem _ hb)
  | @fire _ t _ a rest hcur hphase _ htimer _ _ =>
      have htimers := h.timers _ _ hphase
      refine h.wake (htimers a List.mem_cons_self) hcur (h.not_done (.inr (.inl htimer))) rfl rfl rfl
        rfl rfl (not_wait_timers (show _ = Phase.timers t rest from rfl)) ?_
      rintro t rest ⟨⟩
      exact fun b hb => htimers b (List.mem_cons_of_mem _ hb)
  | @expire _ t ok a rest hcur hphase _ htimer _ _ =>
      have htimers := h.timers _ _ hphase
      refine h.wake (f := (m.fiber a).timedOut ok) (htimers a List.mem_cons_self) hcur
        (h.not_done (.inr (.inl htimer))) rfl rfl rfl rfl rfl
        (not_wait_timers (show _ = Phase.timers t rest from rfl)) ?_
      rintro t rest ⟨⟩
      exact fun b hb => htimers b (List.mem_cons_of_mem _ hb)
  | defer hcur hhead _ =>
      exact h.quiet rfl rfl rfl rfl hsame (fun hw => absurd hw (not_wait_events hhead.phase))
        (no_timers_events hhead.phase)
  | drop hcur hhead _ _ =>
      exact h.quiet rfl rfl rfl rfl hsame (fun hw => absurd hw (not_wait_events hhead.phase))
        (no_timers_events hhead.phase)
  | begin hcur hhead _ _ _ => exact h.begin hcur rfl rfl rfl rfl rfl hhead.phase
  | undefined hcur _ _ _ _ _ =>
      exact h.quiet rfl rfl rfl rfl hsame (by rintro (⟨⟨⟩⟩ | ⟨_, ⟨⟩⟩)) (by rintro t rest ⟨⟩)
  | @wake _ ok e _ a hcur hhead _ _ _ halive hwait =>
      have hdone := h.not_done (hwait.imp (fun h => h.1) .inr)
      exact h.wake (f := (m.fiber a).answered e ok) halive hcur hdone rfl rfl rfl rfl rfl
        (not_wait_events hhead.phase) (no_timers_events hhead.phase)
  | @queue _ _ _ _ a hcur hhead _ _ _ halive hbusy =>
      have hcur' : ∀ b, m.current = some b → b = a := fun b hb => by rw [hcur] at hb; cases hb
      refine h.turn halive hcur' (.inr ⟨rfl, fun hdone => ?_, fun hdone => ?_⟩) rfl rfl rfl hcur rfl
        (not_wait_events hhead.phase) (no_timers_events hhead.phase)
      · cases h.parked a halive (by rw [hcur]; simp) hdone with
        | request hctx hreply htimer hany => exact .request hctx hreply htimer hany
        | timed hctx hdeadline hreply htimer hany => exact .timed hctx hdeadline hreply htimer hany
        | waitReply _ _ _ hany => rw [hbusy.2] at hany; cases hany
        | waitTimeout hctx hreply htimer hany => exact .waitTimeout hctx hreply htimer hany
      · have hidle := h.finished a hdone
        exact ⟨hidle.reply, hidle.timer, hidle.any⟩
  | lose hcur hhead _ _ _ _ =>
      exact h.quiet rfl rfl rfl rfl hsame (fun hw => absurd hw (not_wait_events hhead.phase))
        (no_timers_events hhead.phase)
  | reap hcur _ hbatch => exact h.reap hcur hbatch
  | @issue now id ok a c kind i s msg hcur _ =>
      obtain ⟨hmem, hdone, hidle, hphase⟩ := h.running a hcur
      have hcur' : ∀ b, m.current = some b → b = a := fun b hb =>
        Option.some.inj (hb.symm.trans hcur)
      obtain ⟨hdone', hturn⟩ := Fiber.issued_turn kind m.reqId a hidle
      rw [hdone] at hdone'
      refine h.turn hmem hcur' ?_ rfl rfl rfl rfl rfl hphase h.timers
      exact hturn.imp (fun ⟨hc, hi⟩ => ⟨hc, hdone', hi⟩)
        fun ⟨hc, hw⟩ => ⟨hc, fun _ => hw, fun hd => by rw [hdone'] at hd; cases hd⟩
  | @«local» now id ok a c f ncs obs cur eff hcur hcall =>
      obtain ⟨hmem, hdone, hidle, hphase⟩ := h.running a hcur
      have hcur' : ∀ b, m.current = some b → b = a := fun b hb =>
        Option.some.inj (hb.symm.trans hcur)
      obtain ⟨hdone', hturn⟩ := hcall.turn hidle
      rw [hdone] at hdone'
      refine h.turn hmem hcur' ?_ rfl rfl rfl rfl rfl hphase h.timers
      exact hturn.imp (fun ⟨hc, hi⟩ => ⟨hc, hdone', hi⟩)
        fun ⟨hc, hw⟩ => ⟨hc, fun _ => hw, fun hd => by rw [hdone'] at hd; cases hd⟩
  | @lock _ _ _ a hcur =>
      have hrun := h.running a hcur
      refine h.quiet rfl rfl rfl rfl ?_ (fun hw => absurd hw hrun.2.2.2) h.timers
      rintro b ⟨⟩
      exact hrun.1
  | @unlock _ _ _ a hcur =>
      have hrun := h.running a hcur
      refine h.quiet rfl rfl rfl rfl ?_ (fun hw => absurd hw hrun.2.2.2) h.timers
      intro b hb
      dsimp only at hb
      split at hb
      · cases hb
      · exact h.holder b hb
  | @ret _ _ _ a hcur _ =>
      obtain ⟨hmem, hdone, hidle, hphase⟩ := h.running a hcur
      have hcur' : ∀ b, m.current = some b → b = a := fun b hb =>
        Option.some.inj (hb.symm.trans hcur)
      refine h.turn hmem hcur' (.inr ⟨rfl, ?_, ?_⟩) rfl rfl rfl rfl rfl hphase h.timers
      · rintro ⟨⟩
      · exact fun _ => ⟨hidle.reply, hidle.timer, hidle.any⟩
  | stop =>
      exact h.quiet rfl rfl rfl rfl hsame (fun hw => ⟨hw, rfl⟩) h.timers

theorem boot (i : Nat) (reg : Reg) : Modes (Module.boot i reg) := by
  refine ⟨List.nodup_nil, ?_, fun _ _ => rfl, ?_, ?_, ?_, ?_, ?_, ?_, fun _ => ⟨rfl, ?_⟩⟩
  · rintro a ⟨⟩
  · exact fun a ha => absurd ha (Nat.not_lt_zero a)
  · rintro a ⟨⟩
  · rintro a ⟨⟩
  · rintro a ⟨⟩
  · rintro a ⟨⟩
  · rintro t rest ⟨⟩
  · rintro a ⟨⟩

theorem enqueue (h : Modes m) (e : Ev) : Modes (m.enqueue e) :=
  h.quiet rfl rfl rfl rfl h.holder (fun hw => ⟨hw, rfl⟩) h.timers

end Modes

/-! ### Parked fibers -/

section Parked

variable {m m' : Module} {a : FiberRef} {act : ModAct} {eff : Effect}

/-- What resumes a parked fiber: the timer pass, or the event loop with a reply. -/
inductive Resumption (m : Module) (a : FiberRef) (ok : Alloc) (m' : Module) : Prop where
  | fire {t : Timespec} {rest : List FiberRef} (hphase : m.phase = .timers t (a :: rest))
      (hlock : m.lockedBy = none ∨ m.lockedBy = some a) (hdue : tsLt t (m.fiber a).deadline = false)
      (hreply : (m.fiber a).waitingReply = false)
      (htrace : m'.trace = m.trace ++ (m.fiber a).wakeObs a (.timer t))
  | expire {t : Timespec} {rest : List FiberRef} (hphase : m.phase = .timers t (a :: rest))
      (hlock : m.lockedBy = none ∨ m.lockedBy = some a) (hdue : tsLt t (m.fiber a).deadline = false)
      (hreply : (m.fiber a).waitingReply = true)
      (htrace : m'.trace = m.trace ++ ((m.fiber a).timedOut ok).wakeObs a (.expired t))
  | reply {e : Ev} {rest : List Ev} (hhead : AtHead m e rest) (htype : e.type = .reply)
      (hwait : (m.fiber a).waitingReply = true ∧ (m.fiber a).waitReqId = e.reqId ∨ (m.fiber a).waitingAny = true)
      (htrace : m'.trace = m.trace ++ ((m.fiber a).answered e ok).wakeObs a .reply)

theorem Move.resumes (hmove : Move m act eff m') (hmodes : Modes m) (halive : a ∈ m.fibers)
    (hparked : m.current ≠ some a) (hcur : m'.current = some a) :
    ∃ now ok, act = .sched now ok ∧ eff = .none ∧ m.current = none ∧ Resumption m a ok m' := by
  have hidle : ∀ {b : FiberRef}, m.current = some b → some b ≠ some a := fun hb heq =>
    hparked (hb.trans heq)
  cases hmove with
  | fire hnone hphase hlock _ hdue hreply =>
      obtain rfl := Option.some.inj hcur
      exact ⟨_, _, rfl, rfl, hnone, .fire hphase hlock hdue hreply rfl⟩
  | expire hnone hphase hlock _ hdue hreply =>
      obtain rfl := Option.some.inj hcur
      exact ⟨_, _, rfl, rfl, hnone, .expire hphase hlock hdue hreply rfl⟩
  | begin =>
      obtain rfl := Option.some.inj hcur
      exact absurd (hmodes.born _ halive) (Nat.lt_irrefl _)
  | wake hnone hhead _ htype _ _ hwait =>
      obtain rfl := Option.some.inj hcur
      exact ⟨_, _, rfl, rfl, hnone, .reply hhead htype hwait rfl⟩
  | @issue _ _ _ b _ kind _ _ _ hb _ =>
      cases kind with
      | async => exact absurd hcur (hidle hb)
      | send => exact absurd hcur (hidle hb)
      | request => cases hcur
      | timed => cases hcur
  | «local» hb hcall =>
      rcases (hcall.turn (hmodes.running _ hb).2.2.1).2 with ⟨hrun, -⟩ | ⟨hpark, -⟩
      · exact absurd (hrun.symm.trans hcur) (hidle hb)
      · cases hpark.symm.trans hcur
  | ret => cases hcur
  | _ => exact absurd hcur hparked

/-- A step that does not resume a parked fiber leaves its record as it is, or queues a reply for it. -/
theorem Move.parked (hmove : Move m act eff m') (hmodes : Modes m) (halive : a ∈ m.fibers)
    (hdone : (m.fiber a).done = false) (hparked : m.current ≠ some a) (hnot : m'.current ≠ some a) :
    a ∈ m'.fibers ∧ (m'.fiber a = m.fiber a ∨ ∃ now ok e rest rr, act = .sched now ok ∧ AtHead m e rest ∧
      Admits m e ∧ e.type = .reply ∧ pendingPeek m.pending e.reqId = some a ∧
      m'.fiber a = { m.fiber a with rq := (m.fiber a).rq ++ [rr] }) := by
  have hother : ∀ {b : FiberRef} {g : Fiber}, b ≠ a → Function.update m.fiber b g a = m.fiber a := fun hb =>
    Function.update_of_ne hb.symm _ _
  have hrunning : ∀ {b : FiberRef}, m.current = some b → b ≠ a := by
    rintro b hb rfl
    exact hparked hb
  have hresumed : ∀ {b : FiberRef}, some b ≠ some a → b ≠ a := fun hne hb => hne (congrArg some hb)
  cases hmove with
  | fire => exact ⟨halive, .inl (hother (hresumed hnot))⟩
  | expire => exact ⟨halive, .inl (hother (hresumed hnot))⟩
  | wake => exact ⟨halive, .inl (hother (hresumed hnot))⟩
  | begin =>
      exact ⟨List.mem_cons_of_mem _ halive, .inl (hother (Nat.ne_of_gt (hmodes.born a halive)))⟩
  | @queue _ _ _ _ b _ hhead hadmits htype hpeek =>
      refine ⟨halive, ?_⟩
      by_cases hb : b = a
      · subst hb
        exact .inr ⟨_, _, _, _, _, rfl, hhead, hadmits, htype, hpeek, Function.update_self _ _ _⟩
      · exact .inl (hother hb)
  | reap => exact ⟨List.mem_filter.mpr ⟨halive, by simp [hdone]⟩, .inl rfl⟩
  | issue hcur => exact ⟨halive, .inl (hother (hrunning hcur))⟩
  | «local» hcur => exact ⟨halive, .inl (hother (hrunning hcur))⟩
  | ret hcur => exact ⟨halive, .inl (hother (hrunning hcur))⟩
  | _ => exact ⟨halive, .inl rfl⟩

end Parked

/-- In every run of the system the fibers of every module are in their modes. -/
theorem modes {ok : Sys → Act → Prop} {tbl : List Reg} {s : Sys} (hrun : Reaches ok tbl s) (j : Nat) :
    Modes (s.module j) :=
  module_invariant (G := fun _ _ => True) hrun (fun _ _ _ _ _ _ => trivial) Modes.boot
    (fun _ _ _ _ h _ hmove => h.move hmove) (fun _ e h => h.enqueue e) j

end Coseq
