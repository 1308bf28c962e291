import Coseq.ReplyRecord

/-! `coseq_wait_timeout` does not return early. A fiber parked in it is resumed by the timer pass alone, once
the clock has reached its deadline to the nanosecond, and only past no other fiber's lock; the replies that
the event loop handles for it meanwhile go to its reply queue in that order. -/

namespace Coseq

/-! ### The clock -/

/-- A `struct timespec` as `clock_gettime` writes it. -/
def Timespec.Normal (t : Timespec) : Prop := 0 ≤ t.nsec ∧ t.nsec < 1000000000

instance (t : Timespec) : Decidable t.Normal := inferInstanceAs (Decidable (_ ∧ _))

def Timespec.ns (t : Timespec) : Int := t.sec * 1000000000 + t.nsec

theorem tsAddMs_exact {t : Timespec} (h : t.Normal) (ms : Nat) :
    (tsAddMs t ms).Normal ∧ (tsAddMs t ms).ns = t.ns + ms * 1000000 := by
  obtain ⟨h₀, h₁⟩ := h
  have hms : (ms : Int) = ms / 1000 * 1000 + ms % 1000 := by omega
  unfold tsAddMs Timespec.Normal Timespec.ns
  dsimp only
  split
  · refine ⟨⟨?_, ?_⟩, ?_⟩ <;> dsimp only <;> omega
  · refine ⟨⟨?_, ?_⟩, ?_⟩ <;> dsimp only <;> omega

theorem tsLt_iff {a b : Timespec} (ha : a.Normal) (hb : b.Normal) : tsLt a b = true ↔ a.ns < b.ns := by
  obtain ⟨ha₀, ha₁⟩ := ha
  obtain ⟨hb₀, hb₁⟩ := hb
  unfold Timespec.ns
  simp only [tsLt, Bool.or_eq_true, Bool.and_eq_true, decide_eq_true_eq, beq_iff_eq]
  omega

/-- The clock shows a normalised value. -/
def Act.NormalClock : Act → Prop
  | .tick now => now.Normal
  | _ => True

instance (act : Act) : Decidable act.NormalClock :=
  match act with
  | .tick now => inferInstanceAs (Decidable now.Normal)
  | .sched .. | .call .. | .stop _ | .requestSync .. | .wakeup .. | .requestAsync .. | .asyncPost .. =>
      .isTrue trivial

/-- The value a timer pass works with is the one the clock showed. -/
theorem timers_clock {m m' : Module} {act : ModAct} {eff : Effect} (hstep : m.step act = some (m', eff))
    {t : Timespec} {rest : List FiberRef} (hphase : m'.phase = .timers t rest) :
    (∃ rest', m.phase = .timers t rest') ∨ ∃ ok, act = .sched t ok := by
  cases Module.step_move hstep with
  | park => cases hphase
  | halt => cases hphase
  | take => cases hphase
  | @pass now ok _ hcur hpass =>
      cases hpass with
      | clock now' h =>
          have hsched : m.step (.sched now ok) = some ({ m with phase := .timers now m.fibers }, .none) := by
            simp only [Module.step, hcur, h, sched]
            simp
          have hm := congrArg (fun r => r.map fun r : Module × Effect => r.1.phase) (hsched.symm.trans hstep)
          obtain ⟨rfl, -⟩ := Phase.timers.inj ((Option.some.inj hm).trans hphase)
          exact .inr ⟨ok, rfl⟩
      | timersDone h => cases hphase
      | skip h =>
          obtain ⟨rfl, rfl⟩ := Phase.timers.inj hphase
          exact .inl ⟨_, h⟩
  | fire _ h =>
      obtain ⟨rfl, rfl⟩ := Phase.timers.inj hphase
      exact .inl ⟨_, h⟩
  | expire _ h =>
      obtain ⟨rfl, rfl⟩ := Phase.timers.inj hphase
      exact .inl ⟨_, h⟩
  | undefined => cases hphase
  | reap => cases hphase
  | _ => exact .inl ⟨_, hphase⟩

/-- Every clock value in use is normalised. -/
theorem clock_normal {tbl : List Reg} {s : Sys} (hrun : Reaches (fun _ act => act.NormalClock) tbl s) :
    s.clock.Normal ∧ ∀ j t rest, (s.module j).phase = .timers t rest → t.Normal := by
  have hzero : (⟨0, 0⟩ : Timespec).Normal := by decide
  refine hrun.invariant (P := fun s => s.clock.Normal ∧
    ∀ j t rest, (s.module j).phase = .timers t rest → t.Normal)
    ⟨hzero, fun j t rest h => ?_⟩ ?_
  · cases h
  · rintro s act s' - ⟨hclock, hphase⟩ hok hstep
    refine ⟨?_, fun j t rest h => ?_⟩
    · rw [Sys.step_clock hstep]
      cases act with
      | tick now => exact hok
      | _ => exact hclock
    · obtain ⟨m₁, hm₁, hs'⟩ := Sys.step_stepped hstep j
      have hphase₁ : m₁.phase = .timers t rest := by
        rcases hs' with heq | ⟨e, heq⟩ <;> rw [heq] at h <;> exact h
      cases hm₁ with
      | stay => exact hphase j t rest hphase₁
      | step hact hmstep =>
          rcases timers_clock hmstep hphase₁ with ⟨rest', hold⟩ | ⟨ok, rfl⟩
          · exact hphase j t rest' hold
          · obtain ⟨-, rfl⟩ := Sys.localAct_sched hact
            exact hclock

/-! ### The parked fiber -/

/-- The event loop handles the reply `e` for the fiber `a`. -/
structure Handles (m : Module) (a : FiberRef) (e : Ev) (rest : List Ev) : Prop where
  head : AtHead m e rest
  admits : Admits m e
  type : e.type = .reply
  peek : pendingPeek m.pending e.reqId = some a

/-- The records of the replies a step handles for the fiber `a`: a record without memory is dropped. -/
def recorded (m : Module) (a : FiberRef) : ModAct → List ReplyRec
  | .sched _ ok =>
      match m.phase, m.batch with
      | .events, e :: _ =>
          if Admits m e ∧ e.type = .reply ∧ pendingPeek m.pending e.reqId = some a ∧ ok .replyRec then
            [e.record ok]
          else []
      | _, _ => []
  | _ => []

/-- The fiber is parked in `coseq_wait_timeout`, as `f` but for the replies queued since. -/
structure Asleep (m : Module) (a : FiberRef) (f : Fiber) (recs : List ReplyRec) : Prop where
  alive : a ∈ m.fibers
  parked : m.current ≠ some a
  record : m.fiber a = { f with rq := f.rq ++ recs }

/-- The flags of a fiber in `coseq_wait_timeout`. -/
structure Fiber.Sleeping (f : Fiber) : Prop where
  timer : f.waitingTimer = true
  reply : f.waitingReply = false
  any : f.waitingAny = false
  done : f.done = false

section Step

variable {m m' : Module} {a : FiberRef} {f : Fiber} {recs : List ReplyRec} {act : ModAct} {eff : Effect}

theorem recorded_none {now : Timespec} {ok : Alloc} (h : ∀ e rest, ¬Handles m a e rest) :
    recorded m a (.sched now ok) = [] := by
  simp only [recorded]
  split
  · rename_i e rest hphase hbatch
    exact if_neg fun hr => h e rest ⟨⟨hphase, hbatch⟩, hr.1, hr.2.1, hr.2.2.1⟩
  · rfl

theorem Handles.recorded {e : Ev} {rest : List Ev} {now : Timespec} {ok : Alloc} (h : Handles m a e rest) :
    recorded m a (.sched now ok) = if ok .replyRec then [e.record ok] else [] := by
  simp only [Coseq.recorded, h.head.phase, h.head.batch, h.admits, h.type, h.peek, true_and]

theorem Handles.step {e : Ev} {rest : List Ev} {now : Timespec} {ok : Alloc} (h : Handles m a e rest)
    (hstep : m.step (.sched now ok) = some (m', eff)) :
    m' = handleReply { m with batch := rest } e ok ∧ m.current = none := by
  have htype := h.type
  rw [Module.step] at hstep
  split at hstep
  · cases hstep
  · rename_i hblocked
    simp only [not_or, Bool.not_eq_true, Option.isSome_eq_false_iff, Option.isNone_iff_eq_none] at hblocked
    obtain ⟨rfl, -⟩ := Prod.mk.inj (Option.some.inj hstep)
    refine ⟨?_, hblocked.1⟩
    simp only [sched, h.head.phase, h.head.batch, dispatch]
    split
    · rename_i hlocked
      refine if_pos ⟨htype, ?_⟩
      rcases h.admits with hfree | hnotify | ⟨-, hown⟩
      · exact absurd hfree hlocked.1
      · rw [htype] at hnotify
        cases hnotify
      · exact hown
    · simp only [htype]

/-- A reply handled for the parked fiber goes to its queue. -/
theorem Asleep.handle (h : Asleep m a f recs) (hf : f.Sleeping) {e : Ev} {rest : List Ev}
    (he : Handles m a e rest) {now : Timespec} {ok : Alloc}
    (hstep : m.step (.sched now ok) = some (m', eff)) :
    Asleep m' a f (recs ++ Coseq.recorded m a (.sched now ok)) := by
  obtain ⟨rfl, hcur⟩ := he.step hstep
  have hreply : (m.fiber a).waitingReply = false := by
    rw [h.record]
    exact hf.reply
  have hany : (m.fiber a).waitingAny = false := by
    rw [h.record]
    exact hf.any
  have hnot : ¬((m.fiber a).waitingReply = true ∧ (m.fiber a).waitReqId = e.reqId) := fun hw => by
    rw [hreply] at hw
    cases hw.1
  rw [handleReply_busy (m := { m with batch := rest }) he.peek h.alive hnot hany, he.recorded]
  split
  · refine ⟨h.alive, h.parked, ?_⟩
    change Function.update m.fiber a _ a = _
    rw [Function.update_self, h.record, ← List.append_assoc]
  · rw [List.append_nil]
    exact ⟨h.alive, h.parked, h.record⟩

/-- A step that does not resume the parked fiber queues the reply it handles for it, if any, and touches
nothing else of the fiber. -/
theorem Asleep.step (h : Asleep m a f recs) (hf : f.Sleeping) (hmodes : Modes m)
    (hstep : m.step act = some (m', eff)) (hnot : m'.current ≠ some a) :
    Asleep m' a f (recs ++ Coseq.recorded m a act) := by
  by_cases hhandles : ∃ now ok e rest, act = .sched now ok ∧ Handles m a e rest
  · obtain ⟨now, ok, e, rest, rfl, he⟩ := hhandles
    exact h.handle hf he hstep
  · have hrecorded : Coseq.recorded m a act = [] := by
      cases act with
      | sched now ok => exact recorded_none fun e rest he => hhandles ⟨now, ok, e, rest, rfl, he⟩
      | call => rfl
      | stop => rfl
    rw [hrecorded, List.append_nil]
    have hdone : (m.fiber a).done = false := by
      rw [h.record]
      exact hf.done
    obtain ⟨hmem, hsame | ⟨now, ok, e, rest, rr, rfl, hhead, hadmits, htype, hpeek, -⟩⟩ :=
      (Module.step_move hstep).parked hmodes h.alive hdone h.parked hnot
    · exact ⟨hmem, hnot, hsame.trans h.record⟩
    · exact absurd ⟨now, ok, e, rest, rfl, hhead, hadmits, htype, hpeek⟩ hhandles

/-- What resumes the parked fiber is the timer pass, past its deadline and no other fiber's lock. -/
theorem Asleep.resume (h : Asleep m a f recs) (hf : f.Sleeping) (hmodes : Modes m)
    (hstep : m.step act = some (m', eff)) (hcur : m'.current = some a) :
    ∃ now t rest ok, act = .sched now ok ∧ m.phase = .timers t (a :: rest) ∧ tsLt t f.deadline = false ∧
      (m.lockedBy = none ∨ m.lockedBy = some a) := by
  have hreply : (m.fiber a).waitingReply = false := by
    rw [h.record]
    exact hf.reply
  have hany : (m.fiber a).waitingAny = false := by
    rw [h.record]
    exact hf.any
  have hdeadline : (m.fiber a).deadline = f.deadline := by rw [h.record]
  obtain ⟨now, ok, rfl, -, -, hresumption⟩ := (Module.step_move hstep).resumes hmodes h.alive h.parked hcur
  cases hresumption with
  | fire hphase hlock hdue _ => exact ⟨now, _, _, ok, rfl, hphase, hdeadline ▸ hdue, hlock⟩
  | expire _ _ _ hwait => exact absurd (hreply.symm.trans hwait) Bool.false_ne_true
  | reply _ _ hwait =>
      rcases hwait with ⟨hw, -⟩ | hw
      · exact absurd (hreply.symm.trans hw) Bool.false_ne_true
      · exact absurd (hany.symm.trans hw) Bool.false_ne_true

/-- The record of a fiber that has called `coseq_wait_timeout`. -/
def Fiber.sleep (f : Fiber) (now : Timespec) (ms : Nat) : Fiber :=
  { f with waitingTimer := true, deadline := tsAddMs now ms, ctx := .waitTimeout }

theorem Fiber.Idle.sleeping (h : f.Idle) (hdone : f.done = false) (now : Timespec) (ms : Nat) :
    (f.sleep now ms).Sleeping :=
  ⟨rfl, h.reply, h.any, hdone⟩

theorem waitTimeout_asleep {now : Timespec} {id ms : Nat} {ok : Alloc} (hmem : a ∈ m.fibers)
    (hcur : m.current = some a) (hstep : m.step (.call (.waitTimeout ms) now id ok) = some (m', eff)) :
    Asleep m' a ((m.fiber a).sleep now ms) [] := by
  have hcall : call m a (.waitTimeout ms) now id ok = some (m', eff) := by
    simpa only [Module.step, hcur, Option.bind_some] using hstep
  cases hnotifying : (m.fiber a).notifying with
  | some l =>
      simp only [call, hnotifying] at hcall
      cases hcall
  | none =>
      simp only [call, hnotifying] at hcall
      obtain ⟨rfl, -⟩ := Prod.mk.inj (Option.some.inj hcall)
      refine ⟨hmem, by simp [waitTimeout], ?_⟩
      change Function.update m.fiber a _ a = _
      rw [Function.update_self, List.append_nil]
      rfl

end Step

/-! ### Runs -/

/-- A step with a normalised clock after which the fiber `a` of module `j` does not run. -/
def Undisturbed (j : Nat) (a : FiberRef) (s : Sys) (act : Act) : Prop :=
  act.NormalClock ∧ (s.step act).map (fun s' => (s'.module j).current) ≠ some (some a)

instance (j : Nat) (a : FiberRef) (s : Sys) (act : Act) : Decidable (Undisturbed j a s act) :=
  inferInstanceAs (Decidable (_ ∧ _))

/-- The records of the replies that a step of the instance handles for the fiber `a` of module `j`. -/
def recordedFor (j : Nat) (a : FiberRef) (s : Sys) (act : Act) : List ReplyRec :=
  ((s.localAct j act).map (recorded (s.module j) a)).getD []

theorem asleep_run {tbl : List Reg} {s₁ s : Sys} {j : Nat} {a : FiberRef} {f : Fiber} {recs : List ReplyRec}
    (hreach : Reaches (fun _ act => act.NormalClock) tbl s₁) (hf : f.Sleeping)
    (hstart : Asleep (s₁.module j) a f [])
    (hrun : Lts.Logged Sys.step (Undisturbed j a) (recordedFor j a) s₁ recs s) :
    Asleep (s.module j) a f recs := by
  refine hrun.invariant (P := fun recs s => Asleep (s.module j) a f recs) hstart ?_
  intro recs s act s' hlog h hok hstep
  have hmodes := modes (hreach.trans (hlog.run.mono fun _ _ h => h.1)) j
  have hnot : (s'.module j).current ≠ some a := by
    have hne := hok.2
    rw [hstep, Option.map_some] at hne
    exact fun heq => hne (congrArg some heq)
  obtain ⟨m₁, hm₁, hs'⟩ := Sys.step_stepped hstep j
  have hnot₁ : m₁.current ≠ some a := by
    rcases hs' with heq | ⟨e, heq⟩ <;> rw [heq] at hnot <;> exact hnot
  have h₁ : Asleep m₁ a f (recs ++ recordedFor j a s act) := by
    unfold recordedFor
    cases hm₁ with
    | stay hstay =>
        rw [hstay, Option.map_none, Option.getD_none, List.append_nil]
        exact h
    | step hact hmstep =>
        rw [hact, Option.map_some, Option.getD_some]
        exact h.step hf hmodes hmstep hnot₁
  rcases hs' with heq | ⟨e, heq⟩
  · rw [heq]
    exact h₁
  · rw [heq]
    exact ⟨h₁.alive, h₁.parked, h₁.record⟩

/-- From the moment a fiber parks in `coseq_wait_timeout`, whatever the other fibers and threads do: the
replies handled for it are queued in that order, and it is next resumed in a timer pass that reads a clock
not before the deadline, with the module unlocked or locked by the fiber itself. -/
theorem wait_timeout_exact {tbl : List Reg} {s₀ s₁ s : Sys} {j ms : Nat} {a : FiberRef} {ok : Alloc}
    {recs : List ReplyRec} (hreach : Reaches (fun _ act => act.NormalClock) tbl s₀)
    (hcur : (s₀.module j).current = some a) (hpark : s₀.step (.call j (.waitTimeout ms) ok) = some s₁)
    (hrun : Lts.Logged Sys.step (Undisturbed j a) (recordedFor j a) s₁ recs s) :
    ((s.module j).fiber a).rq = ((s₀.module j).fiber a).rq ++ recs ∧
      ∀ act s', act.NormalClock → s.step act = some s' → (s'.module j).current = some a →
        ∃ now rest ok, act = .sched j ok ∧ (s.module j).phase = .timers now (a :: rest) ∧
          s₀.clock.ns + ms * 1000000 ≤ now.ns ∧
          ((s.module j).lockedBy = none ∨ (s.module j).lockedBy = some a) := by
  obtain ⟨hmem, hdone, hidle, -⟩ := (modes hreach j).running a hcur
  have hreach₁ : Reaches (fun _ act => act.NormalClock) tbl s₁ :=
    hreach.tail (a := .call j (.waitTimeout ms) ok) trivial hpark
  have hstart : Asleep (s₁.module j) a (((s₀.module j).fiber a).sleep s₀.clock ms) [] := by
    obtain ⟨m₁, hm₁, hs₁⟩ := Sys.step_stepped hpark j
    have h₁ : Asleep m₁ a (((s₀.module j).fiber a).sleep s₀.clock ms) [] := by
      cases hm₁ with
      | stay hstay => simp [Sys.localAct] at hstay
      | step hact hmstep =>
          rw [Sys.localAct, if_pos rfl] at hact
          obtain rfl := Option.some.inj hact
          exact waitTimeout_asleep hmem hcur hmstep
    rcases hs₁ with heq | ⟨e, heq⟩ <;> rw [heq]
    · exact h₁
    · exact ⟨h₁.alive, h₁.parked, h₁.record⟩
  have hsleeping := hidle.sleeping hdone s₀.clock ms
  have hasleep := asleep_run hreach₁ hsleeping hstart hrun
  refine ⟨by rw [hasleep.record]; rfl, fun act s' hok hstep hresumed => ?_⟩
  have hreach' := hreach₁.trans (hrun.run.mono fun _ _ h => h.1)
  obtain ⟨m₁, hm₁, hs'⟩ := Sys.step_stepped hstep j
  have hcur₁ : m₁.current = some a := by
    rcases hs' with heq | ⟨e, heq⟩ <;> rw [heq] at hresumed <;> exact hresumed
  cases hm₁ with
  | stay => exact absurd hcur₁ hasleep.parked
  | step hact hmstep =>
      obtain ⟨now, t, rest, ok', rfl, hphase, hdue, hlock⟩ :=
        hasleep.resume hsleeping (modes hreach' j) hmstep hcur₁
      obtain ⟨rfl, -⟩ := Sys.localAct_sched hact
      obtain ⟨hnormal, hexact⟩ := tsAddMs_exact (clock_normal hreach).1 ms
      have hnot := (tsLt_iff ((clock_normal hreach').2 j t _ hphase) hnormal).not.mp (Bool.eq_false_iff.mp hdue)
      refine ⟨t, rest, ok', rfl, hphase, ?_, hlock⟩
      rw [← hexact]
      exact Int.not_lt.mp hnot

/-- A sequence makes an asynchronous request. -/
def requesterRun : List Act :=
  [.requestAsync 0 0 0 [], .asyncPost 0 .granted, .thread 0, .thread 0, .thread 0, .thread 0,
    .fiber 0 (.requestAsync 1 0 [])]

/-- It is answered, and the event loop handles the reply. -/
def answerRun (ok : Alloc) : List Act :=
  [.thread 1, .thread 1, .thread 1, .thread 1, .fiber 1 (.reply .success [7]), .fiber 1 .ret,
    .thread 0, .thread 0, .thread 0, .thread 0, .thread 0, .sched 0 ok]

/-- One second later the timer pass comes to the sequence. -/
def secondRun : List Act := [.tick ⟨1, 0⟩, .thread 0, .thread 0, .thread 0, .thread 0]

theorem secondRun_exact : ∃ s₀ s₁ s recs, Reaches (fun _ act => act.NormalClock) [⟨1, false⟩, ⟨1, false⟩] s₀ ∧
    s₀.step (.fiber 0 (.waitTimeout 1000)) = some s₁ ∧
    Lts.Logged Sys.step (Undisturbed 0 0) (recordedFor 0 0) s₁ recs s ∧
    (recs = [⟨1, .success, [7]⟩] ∧ s₀.clock.ns = 0 ∧
      (s.step (.thread 0)).map (fun s' => (s'.module 0).current) = some (some 0)) ∧
    ((s.module 0).fiber 0).rq = ((s₀.module 0).fiber 0).rq ++ recs ∧
    ∀ act s', act.NormalClock → s.step act = some s' → (s'.module 0).current = some 0 →
      ∃ now rest ok, act = .sched 0 ok ∧ (s.module 0).phase = .timers now (0 :: rest) ∧
        s₀.clock.ns + (1000 : Nat) * 1000000 ≤ now.ns ∧
        ((s.module 0).lockedBy = none ∨ (s.module 0).lockedBy = some 0) := by
  obtain ⟨s₀, s₁, recs, s, hrun, hpark, hlog, hs⟩ : ∃ s₀ s₁ recs s,
      Reaches (fun _ act => act.NormalClock) [⟨1, false⟩, ⟨1, false⟩] s₀ ∧
        s₀.step (.fiber 0 (.waitTimeout 1000)) = some s₁ ∧
        Lts.Logged Sys.step (Undisturbed 0 0) (recordedFor 0 0) s₁ recs s ∧
        decide ((s₀.module 0).current = some 0 ∧ recs = [⟨1, .success, [7]⟩] ∧ s₀.clock.ns = 0 ∧
          (s.step (.thread 0)).map (fun s' => (s'.module 0).current) = some (some 0)) = true :=
    Lts.exists_segment requesterRun (.fiber 0 (.waitTimeout 1000)) (answerRun .granted ++ secondRun)
      (by decide +kernel)
  obtain ⟨hcur, hs⟩ := of_decide_eq_true hs
  exact ⟨s₀, s₁, s, recs, hrun, hpark, hlog, hs, wait_timeout_exact hrun hcur hpark hlog⟩

/-- Without memory for its record a reply handled for a fiber in `coseq_wait_timeout` is dropped. -/
theorem handled_reply_dropped : ∃ s, Reaches (fun _ act => act.NormalClock) [⟨1, false⟩, ⟨1, false⟩] s ∧
    (accepted (s.module 0).trace).map Ev.type = [.start, .reply] ∧ (s.module 0).queue = [] ∧
    .lost 0 1 ∈ (s.module 0).trace ∧ ((s.module 0).fiber 0).ctx = .waitTimeout ∧
    ((s.module 0).fiber 0).waitingTimer = true ∧ ((s.module 0).fiber 0).rq = [] := by
  obtain ⟨s, hrun, hs⟩ : ∃ s, Reaches (fun _ act => act.NormalClock) [⟨1, false⟩, ⟨1, false⟩] s ∧
      decide ((accepted (s.module 0).trace).map Ev.type = [.start, .reply] ∧ (s.module 0).queue = [] ∧
        .lost 0 1 ∈ (s.module 0).trace ∧ ((s.module 0).fiber 0).ctx = .waitTimeout ∧
        ((s.module 0).fiber 0).waitingTimer = true ∧ ((s.module 0).fiber 0).rq = []) = true :=
    Lts.exists_run (requesterRun ++ [.fiber 0 (.waitTimeout 1000)] ++ answerRun fun site => site != .replyRec)
      (by decide +kernel)
  exact ⟨s, hrun, of_decide_eq_true hs⟩

end Coseq
