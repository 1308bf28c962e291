import Coseq.FiberRefs
import Coseq.LockReplies
import Coseq.RequestCarriers
import Coseq.TimerPass
import Coseq.WaitGraph
import Coseq.WaitState
import Mathlib.Data.Set.Finite.Lattice

/-! Standstills. When every module thread sleeps without a deadline, each unfinished fiber waits for another one:
for the fiber that is to answer its request, or for the holder of a lock that keeps its request, its reply or its
timer back. -/

namespace Coseq

open Tally (total_eq_zero)

/-- The thread sleeps, with nothing in its inbox and without a deadline. -/
structure Module.Asleep (m : Module) : Prop where
  phase : m.phase = .waiting none
  inbox : m.inbox = []

/-- Every module thread sleeps: without a new event from outside nothing happens any more. -/
def Sys.Standstill (s : Sys) : Prop := ∀ i < s.ctx.nrModule, (s.module i).Asleep

/-- The fibers that have not finished, by module and fiber. -/
def Sys.unfinished (s : Sys) : Set (Nat × FiberRef) :=
  { x | x.1 < s.ctx.nrModule ∧ x.2 ∈ (s.module x.1).fibers ∧ ((s.module x.1).fiber x.2).done = false }

/-- The fiber is parked, without a deadline, until its request `r` or any of its requests is answered. -/
structure Module.Awaits (m : Module) (a : FiberRef) (r : Nat) : Prop where
  pending : ⟨r, a⟩ ∈ m.pending
  parked : (m.fiber a).waitingReply = true ∧ (m.fiber a).waitReqId = r ∨ (m.fiber a).waitingAny = true
  endless : (m.fiber a).waitingTimer = false

/-- Why a fiber waits for another. -/
inductive WaitsOn (s : Sys) : Nat × FiberRef → Nat × FiberRef → Prop where
  | answer {i j r : Nat} {a b : FiberRef} (hwait : (s.module i).Awaits a r) (howes : (s.module j).owes i r b = true) :
      WaitsOn s (i, a) (j, b)
  | start {i j r : Nat} {a b : FiberRef} {e : Ev} (hwait : (s.module i).Awaits a r)
      (he : e ∈ (s.module j).deferred) (hstart : e.startsFor (.module i) r = true)
      (hlock : (s.module j).lockedBy = some b) : WaitsOn s (i, a) (j, b)
  | reply {i r : Nat} {a b : FiberRef} {e : Ev} (hwait : (s.module i).Awaits a r)
      (he : e ∈ (s.module i).deferred) (hreply : e.repliesTo r = true)
      (hlock : (s.module i).lockedBy = some b) : WaitsOn s (i, a) (i, b)
  | timer {i : Nat} {a b : FiberRef} (htimer : ((s.module i).fiber a).waitingTimer = true)
      (hlock : (s.module i).lockedBy = some b) (hne : b ≠ a) : WaitsOn s (i, a) (i, b)

/-- Ids and memory do not run out, requests name what exists, and every sequence replies once and returns only when no
pending entry names its fiber. -/
def Collecting (s : Sys) (a : Act) : Prop := Conserving s a ∧ EveryModule ReturnsClear s a

instance (s : Sys) (a : Act) : Decidable (Collecting s a) := inferInstanceAs (Decidable (_ ∧ _))

/-! ### What a sleeping thread has seen -/

/-- The deadline of a sleep is that of the scan, and only a lock keeps events back. -/
def Rested (m : Module) : Prop :=
  ∀ d, m.phase = .waiting d → d = nearest m ∧ (m.lockedBy = none → m.deferred = [])

section Rested

variable {m m' : Module} {act : ModAct} {eff : Effect}

/-- Once the scan has a deadline it keeps one. -/
theorem scanTurn_some (t : Timespec) (a : FiberRef) : ∃ t', scanTurn m (some t) a = some t' := by
  unfold scanTurn
  split
  · dsimp only
    split
    · exact ⟨_, rfl⟩
    · exact ⟨t, rfl⟩
  · exact ⟨t, rfl⟩

theorem scan_some (l : List FiberRef) (t : Timespec) : l.foldl (scanTurn m) (some t) ≠ none := by
  induction l generalizing t with
  | nil => exact Option.some_ne_none t
  | cons a l ih =>
      obtain ⟨t', ht'⟩ := scanTurn_some (m := m) t a
      rw [List.foldl_cons, ht']
      exact ih t'

/-- Without a deadline no permitted fiber has its timer armed. -/
theorem scan_none (l : List FiberRef) (h : l.foldl (scanTurn m) none = none) : ∀ a ∈ l, ¬m.Armed a := by
  induction l with
  | nil => exact fun a ha => absurd ha List.not_mem_nil
  | cons b l ih =>
      intro a ha
      rw [List.foldl_cons, scanTurn] at h
      by_cases hb : m.Armed b
      · rw [if_pos hb] at h
        exact absurd h (scan_some l _)
      · rw [if_neg hb] at h
        rcases List.mem_cons.mp ha with rfl | ha
        · exact hb
        · exact ih h a ha

theorem enterWait_rested (m : Module) : Rested (enterWait (mergeDeferred m)) := by
  intro d hd
  unfold enterWait at hd ⊢
  split
  · rename_i hempty
    rw [if_pos hempty] at hd
    refine ⟨(Phase.waiting.inj hd).symm.trans (nearest_congr rfl rfl rfl), fun hfree => ?_⟩
    have hlock : m.lockedBy = none := (merge_untouched m).2.2.1.symm.trans hfree
    rw [mergeDeferred, if_pos hlock]
  · rename_i hbusy
    rw [if_neg hbusy] at hd
    unfold takeBatch at hd
    split at hd <;> cases hd

/-- Only from the top of the loop does the thread go to sleep. -/
theorem Move.sleeps (hmove : Move m act eff m') (hmodes : Modes m) {d : Option Timespec}
    (hd : m'.phase = .waiting d) : (m.phase = .top ∧ ∃ now ok, act = .sched now ok) ∨ act = .stop := by
  have hrunning : ∀ {a}, m.current = some a → m.phase = .waiting d → False := fun hcur hphase =>
    (hmodes.running _ hcur).2.2.2 (.inr ⟨d, hphase⟩)
  have hevents : ∀ {e rest}, AtHead m e rest → m.phase = .waiting d → False := fun hhead hphase => by
    have h := hhead.phase.symm.trans hphase
    cases h
  cases hmove with
  | park _ hphase => exact .inl ⟨hphase, _, _, rfl⟩
  | pass _ hpass => cases hpass <;> cases hd
  | defer _ hhead _ => exact (hevents hhead hd).elim
  | drop _ hhead _ _ => exact (hevents hhead hd).elim
  | begin _ hhead => exact (hevents hhead hd).elim
  | wake _ hhead => exact (hevents hhead hd).elim
  | queue _ hhead => exact (hevents hhead hd).elim
  | lose _ hhead => exact (hevents hhead hd).elim
  | issue hcur => exact (hrunning hcur hd).elim
  | «local» hcur => exact (hrunning hcur hd).elim
  | lock hcur => exact (hrunning hcur hd).elim
  | unlock hcur => exact (hrunning hcur hd).elim
  | ret hcur => exact (hrunning hcur hd).elim
  | stop => exact .inr rfl
  | _ => cases hd

theorem Rested.step (h : Rested m) (hmodes : Modes m) (hstep : m.step act = some (m', eff)) : Rested m' := by
  intro d hd
  rcases (Module.step_move hstep).sleeps hmodes hd with ⟨htop, now, ok, rfl⟩ | rfl
  · rw [Module.step] at hstep
    split at hstep
    · cases hstep
    · have hm' := (Prod.mk.inj (Option.some.inj hstep)).1
      simp only [Coseq.sched, htop] at hm'
      rw [← hm'] at hd ⊢
      exact enterWait_rested m d hd
  · obtain ⟨rfl, -⟩ := Prod.mk.inj (Option.some.inj hstep)
    exact (h d hd).imp (fun hscan => hscan.trans (nearest_congr rfl rfl rfl)) id

end Rested

theorem rested {ok : Sys → Act → Prop} {tbl : List Reg} {s : Sys} (hrun : Reaches ok tbl s) (j : Nat) :
    Rested (s.module j) := by
  revert j
  refine hrun.invariant (P := fun s => ∀ j, Rested (s.module j)) (fun j d hd => by cases hd) ?_
  intro s a s' hreach ih _ hstep j
  obtain ⟨m₁, hm₁, hs'⟩ := Sys.step_stepped hstep j
  have hown : Rested m₁ := by
    cases hm₁ with
    | stay => exact ih j
    | step _ hstep => exact (ih j).step (modes hreach j) hstep
  rcases hs' with heq | ⟨e, heq⟩
  · rw [heq]
    exact hown
  · rw [heq]
    exact fun d hd => (hown d hd).imp (fun hscan => hscan.trans (nearest_congr rfl rfl rfl)) id

/-! ### The waits of a standstill -/

section Waits

variable {tbl : List Reg} {s : Sys} {i : Nat} {a : FiberRef}

theorem Module.Asleep.atWaitPoint {m : Module} (h : m.Asleep) : m.AtWaitPoint := .inr ⟨none, h.phase⟩

/-- What a sleeping module has in its queues is deferred. -/
theorem Module.Asleep.queue {m : Module} (h : m.Asleep) (hmodes : Modes m) : m.queue = m.deferred := by
  rw [Module.queue, (hmodes.swept h.atWaitPoint).1, h.inbox, List.append_nil, List.append_nil]

/-- An event that a sleeping module keeps back waits for an unfinished fiber that holds the lock. -/
theorem Module.Asleep.kept_back {m : Module} (h : m.Asleep) (hmodes : Modes m) (hrested : Rested m) {e : Ev}
    (he : e ∈ m.queue) :
    e ∈ m.deferred ∧ ∃ b, m.lockedBy = some b ∧ b ∈ m.fibers ∧ (m.fiber b).done = false := by
  rw [h.queue hmodes] at he
  refine ⟨he, ?_⟩
  cases hlock : m.lockedBy with
  | none =>
      rw [(hrested none h.phase).2 hlock] at he
      cases he
  | some b =>
      have hb := hmodes.holder b hlock
      exact ⟨b, rfl, hb, (hmodes.swept h.atWaitPoint).2 b hb⟩

/-- A fiber that awaits an answer waits for the fiber that is to give it, or for the holder of a lock. -/
theorem awaiting_waits (hrun : Reaches Collecting tbl s) (hstill : s.Standstill) {r : Nat}
    (hwait : (s.module i).Awaits a r) : ∃ y ∈ s.unfinished, WaitsOn s (i, a) y := by
  have hone := (conserved (hrun.mono fun _ _ h => h.1)).carried i r ⟨_, hwait.pending, rfl⟩
  obtain ⟨j, hj, hpos⟩ : ∃ j < s.ctx.nrModule, 0 < (s.module j).carriers i r j := by
    by_contra hno
    have hzero : s.carriers i r = 0 := total_eq_zero fun j hj =>
      Nat.eq_zero_of_not_pos fun hpos => hno ⟨j, hj, hpos⟩
    rw [hzero] at hone
    cases hone
  have hmodes := modes hrun j
  have hrested := rested hrun j
  have hasleep := hstill j hj
  have hcases : 0 < (s.module j).queue.countP (Ev.startsFor (.module i) r) ∨
      0 < (s.module j).fibers.countP ((s.module j).owes i r) ∨
      j = i ∧ 0 < (s.module j).queue.countP (Ev.repliesTo r) := by
    unfold Module.carriers at hpos
    split at hpos <;> omega
  rcases hcases with hstart | howes | ⟨rfl, hreply⟩
  · obtain ⟨e, he, hfor⟩ := List.countP_pos_iff.mp hstart
    obtain ⟨hdeferred, b, hlock, hb, hdone⟩ := hasleep.kept_back hmodes hrested he
    exact ⟨(j, b), ⟨hj, hb, hdone⟩, .start hwait hdeferred hfor hlock⟩
  · obtain ⟨b, hb, howes⟩ := List.countP_pos_iff.mp howes
    refine ⟨(j, b), ⟨hj, hb, ?_⟩, .answer hwait howes⟩
    unfold Module.owes at howes
    simp only [Bool.and_eq_true, Bool.not_eq_true'] at howes
    exact howes.1.1
  · obtain ⟨e, he, hto⟩ := List.countP_pos_iff.mp hreply
    obtain ⟨hdeferred, b, hlock, hb, hdone⟩ := hasleep.kept_back hmodes hrested he
    exact ⟨(j, b), ⟨hj, hb, hdone⟩, .reply hwait hdeferred hto hlock⟩

/-- A timer that is armed in a standstill waits for the holder of the lock. -/
theorem timer_waits {ok : Sys → Act → Prop} (hrun : Reaches ok tbl s) (hstill : s.Standstill)
    (hi : i < s.ctx.nrModule) (ha : a ∈ (s.module i).fibers) (htimer : ((s.module i).fiber a).waitingTimer = true) :
    ∃ y ∈ s.unfinished, WaitsOn s (i, a) y := by
  have hmodes := modes hrun i
  have hrested := rested hrun i
  have hasleep := hstill i hi
  have hnone : nearest (s.module i) = none := (hrested none hasleep.phase).1.symm
  have harmed := scan_none _ (nearest_eq.symm.trans hnone) a ha
  have hlock : ¬(s.module i).Permits a := fun hpermit => harmed ⟨htimer, hpermit⟩
  obtain ⟨hlocked, hother⟩ := not_or.mp hlock
  obtain ⟨b, hb⟩ := Option.ne_none_iff_exists'.mp hlocked
  have hmem := hmodes.holder b hb
  refine ⟨(i, b), ⟨hi, hmem, (hmodes.swept hasleep.atWaitPoint).2 b hmem⟩, .timer htimer hb ?_⟩
  rintro rfl
  exact hother hb

/-- A fiber with no reply queued that is owed one has an entry. -/
theorem open_request {m : Module} (hledger : Ledger m) (hreg : Registers m) (ha : a ∈ m.fibers)
    (hrq : (m.fiber a).rq = []) (hout : (m.fiber a).asyncOutstanding ≠ 0) : ∃ r, ⟨r, a⟩ ∈ m.pending := by
  have hdue := hledger.balanced.due_open (a := a) fun r hr => (hreg.lost a r hr).2 ha
  have hlen : (m.fiber a).asyncOutstanding = (m.books.openIds a).length := by
    simpa [Module.books, Fiber.account, hrq] using hdue
  have hpos : 0 < (m.books.openIds a).length := by omega
  obtain ⟨r, hr⟩ := List.exists_mem_of_length_pos hpos
  obtain ⟨⟨r, f⟩, hp, heq⟩ := List.mem_map.mp (hledger.balanced.mem_openIds.mp hr).1
  obtain ⟨rfl, rfl⟩ := Prod.mk.inj heq
  exact ⟨r, hp⟩

/-- In a standstill of a run in which ids and memory do not run out, requests name what exists and every sequence
replies once and returns with none of its requests open, every unfinished fiber waits for an unfinished fiber. -/
theorem standstill_stuck (hrun : Reaches Collecting tbl s) (hstill : s.Standstill) :
    WaitGraph.Stuck (WaitsOn s) s.unfinished := by
  rintro ⟨i, a⟩ ⟨hi, ha, hdone⟩
  dsimp only at hi ha hdone
  have hmodes := modes hrun i
  have hample : Reaches (EveryModule Ample) tbl s :=
    hrun.mono fun _ _ h j act hact => (h.1.1 j act hact).1
  have hcur : (s.module i).current ≠ some a := fun hcur =>
    (hmodes.running a hcur).2.2.2 (hstill i hi).atWaitPoint
  obtain ⟨hledger, hreg⟩ := registers hample i
  cases hmodes.parked a ha hcur hdone with
  | request _ hreply htimer =>
      have hcount := (wait_blocking hledger hreg ha).mp hreply
      have hmem : ⟨((s.module i).fiber a).waitReqId, a⟩ ∈ (s.module i).pending :=
        List.count_pos_iff.mp (by omega)
      exact awaiting_waits hrun hstill ⟨hmem, .inl ⟨hreply, rfl⟩, htimer⟩
  | timed _ _ _ htimer => exact timer_waits hrun hstill hi ha htimer
  | waitReply _ _ htimer hany hrq hout =>
      obtain ⟨r, hopen⟩ := open_request hledger hreg ha hrq hout
      exact awaiting_waits hrun hstill ⟨hopen, .inr hany, htimer⟩
  | waitTimeout _ _ htimer => exact timer_waits hrun hstill hi ha htimer

theorem unfinished_finite (s : Sys) : s.unfinished.Finite := by
  have hpairs : (⋃ i ∈ { i | i < s.ctx.nrModule }, Prod.mk i '' { a | a ∈ (s.module i).fibers }).Finite :=
    (Set.finite_lt_nat s.ctx.nrModule).biUnion fun i _ => ((s.module i).fibers.finite_toSet).image _
  refine hpairs.subset fun x hx => ?_
  exact Set.mem_biUnion hx.1 ⟨x.2, hx.2.1, rfl⟩

end Waits

/-- Every standstill with an unfinished fiber contains fibers that wait for each other in a circle. -/
theorem standstill_cycle {tbl : List Reg} {s : Sys} (hrun : Reaches Collecting tbl s) (hstill : s.Standstill)
    (hopen : s.unfinished.Nonempty) : WaitGraph.Cycle (WaitsOn s) s.unfinished :=
  (standstill_stuck hrun hstill).cycle (unfinished_finite s) hopen

/-- A sequence of module 0 holds its lock and requests module 1, whose sequence requests module 0. -/
def embraceRun : List Act :=
  [.requestAsync 0 0 0 [], .asyncPost 0 .granted, .thread 0, .thread 0, .thread 0, .thread 0, .fiber 0 .lock,
    .fiber 0 (.request 1 0 []), .thread 0, .thread 0, .thread 1, .thread 1, .thread 1, .thread 1,
    .fiber 1 (.request 0 0 []), .thread 1, .thread 1, .thread 0, .thread 0, .thread 0, .thread 0, .thread 0,
    .thread 0, .thread 0]

theorem embraceRun_cycle : ∃ s, Reaches Collecting [⟨1, false⟩, ⟨1, false⟩] s ∧ s.Standstill ∧
    (0, 0) ∈ s.unfinished ∧ WaitGraph.Cycle (WaitsOn s) s.unfinished := by
  obtain ⟨s, hrun, hs⟩ : ∃ s, Reaches Collecting [⟨1, false⟩, ⟨1, false⟩] s ∧
      decide ((s.ctx.nrModule = 2 ∧
          ∀ i ∈ List.range 2, (s.module i).phase = .waiting none ∧ (s.module i).inbox = []) ∧
        0 ∈ (s.module 0).fibers ∧ ((s.module 0).fiber 0).done = false) = true :=
    Lts.exists_run embraceRun (by decide +kernel)
  obtain ⟨⟨hnr, hasleep⟩, hmem, hdone⟩ := of_decide_eq_true hs
  have hstill : s.Standstill := fun i hi => by
    have hmem : i ∈ List.range 2 := List.mem_range.mpr (hnr ▸ hi)
    exact ⟨(hasleep i hmem).1, (hasleep i hmem).2⟩
  have hopen : (0, 0) ∈ s.unfinished := ⟨by rw [hnr]; decide, hmem, hdone⟩
  exact ⟨s, hrun, hstill, hopen, standstill_cycle hrun hstill ⟨_, hopen⟩⟩

end Coseq
