import Coseq.SystemModule
import Mathlib.Data.Fintype.Basic

/-! Several instances in one process. Each has modules, a mailbox and counters of its own; what they share is
the clock and the external threads, and with a thread the `static __thread` record and buffer of
`_request_sync`. -/

namespace Coseq

variable {ι : Type} [DecidableEq ι]

/-- The external thread that runs in a step. -/
def Act.caller : Act → Option Nat
  | .requestSync t .. | .wakeup t _ | .requestAsync t .. | .asyncPost t _ => some t
  | _ => none

/-- An external thread of the process, with the instance whose function it has entered last. -/
structure ProcThread (ι : Type) where
  inst : Option ι
  state : ExtThread

/-- The process. Each of its instances has been set up once, before the run, and is not torn down in it. -/
structure Process (ι : Type) where
  ctxs : ι → Ctx
  clock : Timespec
  threads : Nat → ProcThread ι

namespace Process

variable (p : Process ι)

/-- What the instance `k` sees of the process. -/
def view (k : ι) : Sys where
  ctx := p.ctxs k
  clock := p.clock
  threads := fun t => (p.threads t).state

/-- The thread is in no function of another instance. -/
def Free (k : ι) (a : Act) : Prop :=
  ∀ t ∈ a.caller, (p.threads t).state.point = .idle ∨ (p.threads t).inst = some k

instance (k : ι) (a : Act) : Decidable (p.Free k a) := inferInstanceAs (Decidable (∀ t ∈ a.caller, _))

/-- The process after the instance `k` has become `s`. -/
def put (k : ι) (a : Act) (s : Sys) : Process ι where
  ctxs := Function.update p.ctxs k s.ctx
  clock := s.clock
  threads := fun t => ⟨if a.caller = some t then some k else (p.threads t).inst, s.threads t⟩

/-- One step of one instance. -/
def step : ι × Act → Option (Process ι)
  | (k, a) => if p.Free k a then ((p.view k).step a).map (p.put k a) else none

/-- The instances after `create_coseq` and `setup` with their tables. -/
def start (tbls : ι → List Reg) : Process ι where
  ctxs := fun k => (boot (tbls k)).ctx
  clock := ⟨0, 0⟩
  threads := fun _ => ⟨none, ExtThread.fresh⟩

end Process

/-! ### Records -/

/-- What a caller reads through the pointer that `request_sync` has returned to its thread. -/
def ExtThread.record (th : ExtThread) : Src × Bytes := (th.s, th.buf.take th.s.size)

def ExtObs.returnsTo (t : Nat) : ExtObs → Bool
  | .returned t' _ _ _ => t' = t
  | _ => false

/-- A `request_sync` of the instance has returned to the thread. -/
def Ctx.hasReturned (c : Ctx) (t : Nat) : Bool := c.extTrace.any (ExtObs.returnsTo t)

/-- The caller holds a record of the instance `k`. -/
def Process.Holds (p : Process ι) (k : ι) (t : Nat) : Prop := (p.ctxs k).hasReturned t = true

instance (p : Process ι) (k : ι) (t : Nat) : Decidable (p.Holds k t) := inferInstanceAs (Decidable (_ = _))

/-- The thread whose `request_sync` returns in a step. -/
def Sys.returning (s : Sys) : Act → Option Nat
  | .wakeup t _ => if s.ctx.extReady then some t else none
  | _ => none

/-- A `request_sync` returns to a thread that holds no record of another instance. -/
def Alone (p : Process ι) (ka : ι × Act) : Prop :=
  ∀ t ∈ (p.view ka.1).returning ka.2, ∀ l, l ≠ ka.1 → ¬p.Holds l t

instance [Fintype ι] (p : Process ι) (ka : ι × Act) : Decidable (Alone p ka) :=
  inferInstanceAs (Decidable (∀ t ∈ (p.view ka.1).returning ka.2, _))

section Step

variable {s s' v v' : Sys} {a : Act}

theorem Ctx.hasReturned_append {c c' : Ctx} {xs : List ExtObs} (h : c'.extTrace = c.extTrace ++ xs) (t : Nat) :
    c'.hasReturned t = (c.hasReturned t || xs.any (ExtObs.returnsTo t)) := by
  rw [Ctx.hasReturned, h, List.any_append, Ctx.hasReturned]

theorem Ctx.post_extTrace (c : Ctx) (d : Nat) (e : Option Ev) : (c.post d e).extTrace = c.extTrace := by
  cases e with
  | none => rfl
  | some e =>
      rw [Ctx.post]
      split <;> rfl

theorem Ctx.effect_hasReturned (c : Ctx) (ok : Alloc) (eff : Effect) (t : Nat) :
    (c.effect ok eff).hasReturned t = c.hasReturned t := by
  cases eff with
  | none => rfl
  | post d e => rw [Ctx.hasReturned, Ctx.effect, c.post_extTrace, Ctx.hasReturned]
  | extDeliver rid r msg =>
      rw [Ctx.effect, Ctx.extDeliver]
      split
      · rw [Ctx.hasReturned_append (c := c) rfl]
        simp [ExtObs.returnsTo]
      · rw [Ctx.hasReturned_append (c := c) rfl]
        simp [ExtObs.returnsTo]
  | nextClientId id => rfl

/-- The record and the buffer of a thread. -/
def ExtThread.locals (th : ExtThread) : Src × Bytes := (th.s, th.buf)

theorem ExtThread.record_of_locals {th th' : ExtThread} (h : th.locals = th'.locals) : th.record = th'.record := by
  obtain ⟨hs, hbuf⟩ := Prod.mk.inj h
  rw [ExtThread.record, hs, hbuf, ExtThread.record]

theorem ExtThread.eq_of_locals {th th' : ExtThread} (hpoint : th.point = th'.point) (h : th.locals = th'.locals) :
    th = th' := by
  obtain ⟨hs, hbuf⟩ := Prod.mk.inj h
  cases th
  cases th'
  exact ExtThread.mk.injEq _ _ _ _ _ _ ▸ ⟨hpoint, hs, hbuf⟩

/-- What a step does to the external threads and to the records they hold. -/
inductive Sys.Turn (s : Sys) (a : Act) (s' : Sys) : Prop where
  | inside (hcaller : a.caller = none) (hthreads : s'.threads = s.threads)
      (hheld : ∀ t, s'.ctx.hasReturned t = s.ctx.hasReturned t)
  | goes {t : Nat} {pt : ExtPoint} (hcaller : a.caller = some t) (hnone : s.returning a = none)
      (hthreads : s'.threads = Function.update s.threads t { s.threads t with point := pt })
      (hheld : ∀ t, s'.ctx.hasReturned t = s.ctx.hasReturned t)
  | returns {t : Nat} {th : ExtThread} (hcaller : a.caller = some t) (hreturning : s.returning a = some t)
      (hthreads : s'.threads = Function.update s.threads t th)
      (hheld : ∀ t', s'.ctx.hasReturned t' = (s.ctx.hasReturned t' || t = t'))

theorem Sys.step_turn (h : s.step a = some s') : s.Turn a s' := by
  have hmodule : ∀ {i act ok}, a.caller = none → s.stepModule i act ok = some s' → s.Turn a s' := by
    intro i act ok hcaller h
    obtain ⟨-, m', eff, -, rfl⟩ := Sys.stepModule_eq h
    exact .inside hcaller rfl ((s.ctx.setModule i m').effect_hasReturned ok eff)
  cases Sys.step_sysMove h with
  | tick hs' =>
      subst hs'
      exact .inside rfl rfl fun _ => rfl
  | sched hstep => exact hmodule rfl hstep
  | call hstep => exact hmodule rfl hstep
  | stop hstep => exact hmodule rfl hstep
  | @requestSync t i seq msg ok _ hs' =>
      subst hs'
      have htrace : (Coseq.requestSync s.ctx t i seq msg ok).extTrace =
          s.ctx.extTrace ++ [.called t s.ctx.rid] := Ctx.post_extTrace _ _ _
      refine .goes rfl rfl rfl fun t' => (Ctx.hasReturned_append htrace t').trans ?_
      simp [ExtObs.returnsTo]
  | wakeup _ hready hs' =>
      subst hs'
      refine .returns rfl (if_pos hready) rfl fun t' => ?_
      refine (Ctx.hasReturned_append (c := s.ctx) rfl t').trans ?_
      simp [ExtObs.returnsTo]
  | @sleep t _ _ _ _ _ hready hs' =>
      subst hs'
      exact .goes rfl (if_neg hready) (Function.update_eq_self t s'.threads).symm fun _ => rfl
  | requestAsync _ hs' =>
      subst hs'
      exact .goes rfl rfl rfl fun _ => rfl
  | asyncPost _ hs' =>
      subst hs'
      refine .goes rfl rfl rfl fun t' => ?_
      rw [Ctx.hasReturned, Ctx.hasReturned]
      exact congrArg (List.any · _) (Ctx.post_extTrace _ _ _)

/-- Only the return of a `request_sync` adds to the records held. -/
theorem Sys.step_hasReturned (h : s.step a = some s') (t : Nat) :
    s'.ctx.hasReturned t = true ↔ s.ctx.hasReturned t = true ∨ s.returning a = some t := by
  cases Sys.step_turn h with
  | inside hcaller _ hheld =>
      have hnone : s.returning a = none := by
        cases a <;> first | rfl | cases hcaller
      rw [hheld, hnone]
      simp
  | goes _ hnone _ hheld =>
      rw [hheld, hnone]
      simp
  | returns _ hreturning _ hheld =>
      rw [hheld, hreturning]
      simp

/-- A step leaves the other threads alone, and the record of its caller, too, unless a `request_sync` returns. -/
theorem Sys.step_threads (h : s.step a = some s') (t : Nat) :
    (a.caller ≠ some t → s'.threads t = s.threads t) ∧
      (s.returning a ≠ some t → (s'.threads t).locals = (s.threads t).locals) := by
  cases Sys.step_turn h with
  | inside _ hthreads _ =>
      rw [hthreads]
      exact ⟨fun _ => rfl, fun _ => rfl⟩
  | @goes t' pt hcaller _ hthreads _ =>
      rw [hthreads, hcaller]
      refine ⟨fun hne => Function.update_of_ne (fun heq => hne (congrArg some heq.symm)) _ _, fun _ => ?_⟩
      by_cases ht : t = t'
      · subst ht
        rw [Function.update_self]
        rfl
      · rw [Function.update_of_ne ht]
  | returns hcaller hreturning hthreads _ =>
      rw [hthreads, hcaller, hreturning]
      have hother : ∀ {t' : Nat} {th : ExtThread}, some t' ≠ some t →
          Function.update s.threads t' th t = s.threads t :=
        fun hne => Function.update_of_ne (fun heq => hne (congrArg some heq.symm)) _ _
      exact ⟨hother, fun hne => congrArg ExtThread.locals (hother hne)⟩

/-- Two instances that agree make the same step of a module. -/
theorem Sys.stepModule_like {i : Nat} {act : ModAct} {ok : Alloc} (h : v.stepModule i act ok = some v')
    (hctx : s.ctx = v.ctx) (hclock : s.clock = v.clock) :
    ∃ s', s.stepModule i act ok = some s' ∧ s'.ctx = v'.ctx ∧ s'.clock = v'.clock := by
  obtain ⟨hi, m', eff, hstep, rfl⟩ := Sys.stepModule_eq h
  refine ⟨s.after i m' eff ok, ?_, ?_, hclock⟩
  · rw [Sys.stepModule, hctx, if_pos hi, Sys.module, hctx]
    have hstep' : (v.ctx.modules i).step act = some (m', eff) := hstep
    rw [hstep', Option.map_some, Sys.after, hctx]
  · rw [Sys.after, hctx]
    rfl

/-- Two instances that agree, where the caller stands at the same point and, if its `request_sync` returns, has
the same record and buffer, make the same step. -/
theorem Sys.step_like (h : v.step a = some v') (hctx : s.ctx = v.ctx) (hclock : s.clock = v.clock)
    (hpoint : ∀ t ∈ a.caller, (s.threads t).point = (v.threads t).point)
    (hlocals : ∀ t ∈ v.returning a, (s.threads t).locals = (v.threads t).locals) :
    ∃ s', s.step a = some s' ∧ s'.ctx = v'.ctx ∧ s'.clock = v'.clock ∧
      (∀ t ∈ a.caller, (s'.threads t).point = (v'.threads t).point) ∧
      ∀ t ∈ v.returning a, (s'.threads t).locals = (v'.threads t).locals := by
  have hmodule : ∀ {i act ok}, a.caller = none → v.returning a = none → v.stepModule i act ok = some v' →
      ∃ s', s.stepModule i act ok = some s' ∧ s'.ctx = v'.ctx ∧ s'.clock = v'.clock ∧
        (∀ t ∈ a.caller, (s'.threads t).point = (v'.threads t).point) ∧
        ∀ t ∈ v.returning a, (s'.threads t).locals = (v'.threads t).locals := by
    intro i act ok hcaller hnone h
    obtain ⟨s', hs', hctx', hclock'⟩ := Sys.stepModule_like h hctx hclock
    rw [hcaller, hnone]
    refine ⟨s', hs', hctx', hclock', fun t ht => ?_, fun t ht => ?_⟩
    · cases ht
    · cases ht
  cases Sys.step_sysMove h with
  | tick hv' =>
      subst hv'
      refine ⟨_, rfl, hctx, rfl, fun t ht => ?_, fun t ht => ?_⟩
      · cases ht
      · cases ht
  | sched hstep =>
      rw [Sys.step, hclock]
      exact hmodule rfl rfl hstep
  | call hstep =>
      rw [Sys.step, hclock, hctx]
      exact hmodule rfl rfl hstep
  | stop hstep => exact hmodule rfl rfl hstep
  | @requestSync t i seq msg ok hidle hv' =>
      subst hv'
      rw [Sys.step, hpoint t rfl, hidle, hctx]
      refine ⟨_, rfl, rfl, hclock, fun t' ht => ?_, fun t' ht => by cases ht⟩
      cases ht
      simp [Sys.setThread]
  | @wakeup t rid i seq ok hwaiting hready hv' =>
      subst hv'
      have hsame : s.threads t = v.threads t :=
        ExtThread.eq_of_locals (hpoint t rfl) (hlocals t (if_pos hready))
      rw [Sys.step, hsame, hwaiting, hctx]
      dsimp only
      rw [if_pos hready]
      refine ⟨_, rfl, rfl, hclock, fun t' ht => ?_, fun t' ht => ?_⟩
      · cases ht
        simp [Sys.setThread]
      · obtain rfl : t = t' := Option.some.inj ((if_pos hready).symm.trans ht)
        simp [Sys.setThread]
  | @sleep t rid i seq ok hwaiting hready hv' =>
      subst hv'
      rw [Sys.step, hpoint t rfl, hwaiting, hctx]
      dsimp only
      rw [if_neg hready]
      exact ⟨_, rfl, hctx, hclock, hpoint, hlocals⟩
  | @requestAsync t i seq msg hidle hv' =>
      subst hv'
      rw [Sys.step, hpoint t rfl, hidle, hctx]
      refine ⟨_, rfl, rfl, hclock, fun t' ht => ?_, fun t' ht => by cases ht⟩
      cases ht
      simp [Sys.setThread]
  | @asyncPost t rid i seq msg ok hposting hv' =>
      subst hv'
      rw [Sys.step, hpoint t rfl, hposting, hctx]
      refine ⟨_, rfl, rfl, hclock, fun t' ht => ?_, fun t' ht => by cases ht⟩
      cases ht
      simp [Sys.setThread]

end Step

/-! ### The run of one instance -/

def Act.ticks : Act → Bool
  | .tick _ => true
  | _ => false

/-- The operations on the instance `k`, and the clock. -/
def ownAct (k : ι) (ka : ι × Act) : Option Act := if ka.1 = k ∨ ka.2.ticks = true then some ka.2 else none

section Process

variable {p p' : Process ι} {k i : ι} {a : Act} {s : Sys}

theorem Process.step_eq (h : p.step (k, a) = some p') :
    p.Free k a ∧ ∃ v, (p.view k).step a = some v ∧ p' = p.put k a v := by
  rw [Process.step] at h
  split at h
  · rename_i hfree
    obtain ⟨v, hv, rfl⟩ := Option.map_eq_some_iff.mp h
    exact ⟨hfree, v, hv, rfl⟩
  · cases h

/-- An operation on one instance does not touch another one. -/
theorem Process.step_other (h : p.step (k, a) = some p') {l : ι} (hl : l ≠ k) : p'.ctxs l = p.ctxs l := by
  obtain ⟨-, v, -, rfl⟩ := Process.step_eq h
  exact Function.update_of_ne hl _ _

theorem Process.step_holds (h : p.step (k, a) = some p') (l : ι) (t : Nat) :
    p'.Holds l t ↔ p.Holds l t ∨ l = k ∧ (p.view k).returning a = some t := by
  obtain ⟨-, v, hv, rfl⟩ := Process.step_eq h
  by_cases hl : l = k
  · subst hl
    have hself : (p.put l a v).ctxs l = v.ctx := Function.update_self _ _ _
    rw [Process.Holds, hself, Sys.step_hasReturned hv]
    simp [Process.Holds, Process.view]
  · rw [Process.Holds, Process.step_other h hl]
    simp [Process.Holds, hl]

theorem Process.step_record (h : p.step (k, a) = some p') {t : Nat} (ht : (p.view k).returning a ≠ some t) :
    (p'.threads t).state.locals = (p.threads t).state.locals := by
  obtain ⟨-, v, hv, rfl⟩ := Process.step_eq h
  exact (Sys.step_threads hv t).2 ht

/-- No thread holds records of two instances. -/
def OneHolder (p : Process ι) : Prop := ∀ t k l, p.Holds k t → p.Holds l t → k = l

theorem OneHolder.step (h : OneHolder p) (hok : Alone p (k, a)) (hstep : p.step (k, a) = some p') :
    OneHolder p' := by
  intro t i l hi hl
  rcases (Process.step_holds hstep i t).mp hi with hi | ⟨rfl, hi⟩ <;>
    rcases (Process.step_holds hstep l t).mp hl with hl | ⟨rfl, hl⟩
  · exact h t i l hi hl
  · by_contra hne
    exact hok t hl i hne hi
  · by_contra hne
    exact hok t hi l (Ne.symm hne) hl
  · rfl

/-- The process, as the instance `k` alone would be: a thread that has called another instance last is idle, and
its record and buffer do not count once another instance has returned to it. -/
structure Projects (k : ι) (p : Process ι) (s : Sys) : Prop where
  ctx : s.ctx = p.ctxs k
  clock : s.clock = p.clock
  point : ∀ t, (s.threads t).point = if (p.threads t).inst = some k then (p.threads t).state.point else .idle
  locals : ∀ t, (∀ l, l ≠ k → ¬p.Holds l t) → (s.threads t).locals = (p.threads t).state.locals

namespace Projects

/-- Where the caller may enter `k`, it stands where `k` alone would have it. -/
theorem caller_point (h : Projects k p s) (hfree : p.Free k a) :
    ∀ t ∈ a.caller, (s.threads t).point = (p.threads t).state.point := by
  intro t ht
  rw [h.point t]
  split
  · rfl
  · rename_i hinst
    exact ((hfree t ht).resolve_right hinst).symm

theorem other (h : Projects k p s) (hik : i ≠ k) (hticks : a.ticks = false) (hstep : p.step (i, a) = some p') :
    Projects k p' s := by
  obtain ⟨hfree, v, hv, hp'⟩ := Process.step_eq hstep
  have hclock : v.clock = p.clock := by
    rw [Sys.step_clock hv]
    cases a with
    | tick => cases hticks
    | _ => rfl
  refine ⟨h.ctx.trans (Process.step_other hstep hik.symm).symm, ?_, fun t => ?_, fun t hnone => ?_⟩
  · rw [h.clock, hp', ← hclock]
    rfl
  · rw [h.point t, hp']
    by_cases ht : a.caller = some t
    · have hinst : ¬((p.put i a v).threads t).inst = some k := by
        simp only [Process.put, if_pos ht]
        exact fun heq => hik (Option.some.inj heq)
      rw [if_neg hinst]
      split
      · rename_i hk
        refine (hfree t ht).resolve_right fun heq => ?_
        exact hik (Option.some.inj (heq.symm.trans hk))
      · rfl
    · have hthread : v.threads t = (p.threads t).state := (Sys.step_threads hv t).1 ht
      simp only [Process.put, if_neg ht, hthread]
  · have hold : ∀ l, l ≠ k → ¬p.Holds l t := fun l hl hheld =>
      hnone l hl ((Process.step_holds hstep l t).mpr (.inl hheld))
    have hreturning : (p.view i).returning a ≠ some t := fun heq =>
      hnone i hik ((Process.step_holds hstep i t).mpr (.inr ⟨rfl, heq⟩))
    rw [h.locals t hold, Process.step_record hstep hreturning]

theorem tick (h : Projects k p s) {now : Timespec} (hstep : p.step (i, .tick now) = some p') :
    Projects k p' { s with clock := now } := by
  obtain ⟨-, v, hv, rfl⟩ := Process.step_eq hstep
  obtain rfl := Option.some.inj hv
  have hctxs : (p.put i (.tick now) { p.view i with clock := now }).ctxs = p.ctxs :=
    Function.update_eq_self i p.ctxs
  refine ⟨?_, rfl, h.point, fun t hnone => ?_⟩
  · rw [hctxs]
    exact h.ctx
  · refine h.locals t fun l hl hheld => hnone l hl ?_
    rw [Process.Holds, hctxs]
    exact hheld

theorem own (h : Projects k p s) (hok : Alone p (k, a)) (hstep : p.step (k, a) = some p') :
    ∃ s', s.step a = some s' ∧ Projects k p' s' := by
  obtain ⟨hfree, v, hv, hp'⟩ := Process.step_eq hstep
  have hcaller := h.caller_point hfree
  have hreturned : ∀ t ∈ (p.view k).returning a, (s.threads t).locals = (p.threads t).state.locals := fun t ht =>
    h.locals t (hok t ht)
  obtain ⟨s', hs', hctx, hclock, hpoint, hlocals⟩ := Sys.step_like hv h.ctx h.clock hcaller hreturned
  have hreturning : s.returning a = (p.view k).returning a := by
    have hready : s.ctx.extReady = (p.view k).ctx.extReady := congrArg Ctx.extReady h.ctx
    cases a <;> simp only [Sys.returning, hready]
  refine ⟨s', hs', ?_, ?_, fun t => ?_, fun t hnone => ?_⟩
  · rw [hctx, hp']
    exact (Function.update_self k v.ctx p.ctxs).symm
  · rw [hclock, hp']
    rfl
  · by_cases ht : a.caller = some t
    · simp only [hp', Process.put, if_pos ht]
      exact hpoint t ht
    · have hthread : v.threads t = (p.threads t).state := (Sys.step_threads hv t).1 ht
      simp only [hp', Process.put, if_neg ht, hthread]
      rw [(Sys.step_threads hs' t).1 ht]
      exact h.point t
  · have hold : ∀ l, l ≠ k → ¬p.Holds l t := fun l hl hheld =>
      hnone l hl ((Process.step_holds hstep l t).mpr (.inl hheld))
    by_cases ht : (p.view k).returning a = some t
    · rw [hlocals t ht, hp']
      rfl
    · rw [(Sys.step_threads hs' t).2 (hreturning ▸ ht), h.locals t hold, Process.step_record hstep ht]

theorem start (tbls : ι → List Reg) (k : ι) : Projects k (Process.start tbls) (boot (tbls k)) :=
  ⟨rfl, rfl, fun _ => rfl, fun _ _ => rfl⟩

end Projects

theorem projected {tbls : ι → List Reg} {l : List (ι × Act)}
    (hrun : Lts.Logged Process.step Alone (fun _ ka => [ka]) (Process.start tbls) l p) (k : ι) :
    ∃ s, Lts.Logged Sys.step (fun _ _ => True) (fun _ a => [a]) (boot (tbls k)) (l.filterMap (ownAct k)) s ∧
      Projects k p s := by
  refine hrun.project (Projects.start tbls k) ?_ ?_
  · rintro p ⟨i, a⟩ p' s hp - hstep hnone
    have hnot : ¬(i = k ∨ a.ticks = true) := fun hown => by
      rw [ownAct, if_pos hown] at hnone
      cases hnone
    exact hp.other (fun hi => hnot (.inl hi)) (Bool.eq_false_iff.mpr fun ht => hnot (.inr ht)) hstep
  · rintro p ⟨i, a⟩ p' s b hp hok hstep hshown
    obtain ⟨hown, hb⟩ := Option.ite_none_right_eq_some.mp hshown
    obtain rfl := Option.some.inj hb
    by_cases hi : i = k
    · subst hi
      obtain ⟨s', hs', hp'⟩ := hp.own hok hstep
      exact ⟨s', trivial, hs', hp'⟩
    · cases a with
      | tick now => exact ⟨_, trivial, rfl, hp.tick hstep⟩
      | _ => exact absurd (hown.resolve_left hi) Bool.false_ne_true

/-- In every run in which a `request_sync` returns only to threads that hold no record of another instance, each
instance and the records its callers hold are those of the run of its own operations, and an operation on another
instance changes neither. This holds until a module touches a freed fiber, which ends its run here. -/
theorem instances_isolated {tbls : ι → List Reg} {l : List (ι × Act)}
    (hrun : Lts.Logged Process.step Alone (fun _ ka => [ka]) (Process.start tbls) l p) :
    (∀ k, ∃ s, Lts.Logged Sys.step (fun _ _ => True) (fun _ a => [a]) (boot (tbls k)) (l.filterMap (ownAct k)) s ∧
      s.ctx = p.ctxs k ∧ s.clock = p.clock ∧
        ∀ t, p.Holds k t → (s.threads t).record = (p.threads t).state.record) ∧
    ∀ k a p', p.step (k, a) = some p' → ∀ i, i ≠ k → p'.ctxs i = p.ctxs i ∧
      (Alone p (k, a) → ∀ t, p.Holds i t → (p'.threads t).state.record = (p.threads t).state.record) := by
  have hone : OneHolder p := by
    refine hrun.run.invariant (P := OneHolder) (fun t k l hk _ => ?_) fun p ka p' _ h hok hstep => h.step hok hstep
    cases hk
  constructor
  · intro k
    obtain ⟨s, hrun', hp⟩ := projected hrun k
    refine ⟨s, hrun', hp.ctx, hp.clock, fun t ht => ExtThread.record_of_locals (hp.locals t fun l hl hheld => ?_)⟩
    exact hl (hone t l k hheld ht)
  · intro k a p' hstep i hi
    refine ⟨Process.step_other hstep hi, fun hok t ht => ?_⟩
    refine ExtThread.record_of_locals (Process.step_record hstep fun heq => ?_)
    exact hok t heq i hi ht

end Process

/-- A thread calls `request_sync` of the instance `k`, and the sequence answers with `msg`. -/
def echoRun (k : Bool) (t : Nat) (msg : Bytes) : List (Bool × Act) :=
  [.requestSync t 0 0 [] .granted, .thread 0, .thread 0, .thread 0, .thread 0, .fiber 0 (.reply .success msg),
    .wakeup t .granted].map fun a => (k, a)

/-- Two threads call two instances at the same time. -/
def twoThreadsRun : List (Bool × Act) :=
  ((echoRun false 0 [1]).zip (echoRun true 1 [2])).flatMap fun x => [x.1, x.2]

theorem twoThreadsRun_isolated : ∃ p : Process Bool,
    Lts.Logged Process.step Alone (fun _ ka => [ka]) (Process.start fun _ => [⟨1, false⟩]) twoThreadsRun p ∧
    ((p.Holds false 0 ∧ (p.threads 0).state.record = (⟨0, 0, 1, .success, 0, 1⟩, [1])) ∧
      p.Holds true 1 ∧ (p.threads 1).state.record = (⟨0, 0, 1, .success, 0, 1⟩, [2])) ∧
    (∀ k, ∃ s, Lts.Logged Sys.step (fun _ _ => True) (fun _ a => [a]) (boot [⟨1, false⟩])
        (twoThreadsRun.filterMap (ownAct k)) s ∧ s.ctx = p.ctxs k ∧ s.clock = p.clock ∧
          ∀ t, p.Holds k t → (s.threads t).record = (p.threads t).state.record) ∧
    ∀ k a p', p.step (k, a) = some p' → ∀ i, i ≠ k → p'.ctxs i = p.ctxs i ∧
      (Alone p (k, a) → ∀ t, p.Holds i t → (p'.threads t).state.record = (p.threads t).state.record) := by
  obtain ⟨p, hrun, hp⟩ : ∃ p : Process Bool,
      Lts.Logged Process.step Alone (fun _ ka => [ka]) (Process.start fun _ => [⟨1, false⟩]) twoThreadsRun p ∧
        decide ((p.Holds false 0 ∧ (p.threads 0).state.record = (⟨0, 0, 1, .success, 0, 1⟩, [1])) ∧
          p.Holds true 1 ∧ (p.threads 1).state.record = (⟨0, 0, 1, .success, 0, 1⟩, [2])) = true :=
    Lts.exists_labelled twoThreadsRun (by decide +kernel)
  exact ⟨p, hrun, of_decide_eq_true hp, instances_isolated hrun⟩

/-- One thread calls two instances: the record it has from the first reads what the second has returned, and
without the operations on the second it reads what the first has returned. -/
theorem record_overwritten : ∃ (p : Process Bool) (s : Sys),
    Lts.Logged Process.step (fun _ _ => True) (fun _ ka => [ka]) (Process.start fun _ => [⟨1, false⟩])
      (echoRun false 0 [1] ++ echoRun true 0 [2]) p ∧
    Lts.Logged Sys.step (fun _ _ => True) (fun _ a => [a]) (boot [⟨1, false⟩])
      ((echoRun false 0 [1] ++ echoRun true 0 [2]).filterMap (ownAct false)) s ∧
    p.Holds false 0 ∧ (p.threads 0).state.record = (⟨0, 0, 1, .success, 0, 1⟩, [2]) ∧
      (s.threads 0).record = (⟨0, 0, 1, .success, 0, 1⟩, [1]) := by
  obtain ⟨p, hrun, hp⟩ : ∃ p : Process Bool,
      Lts.Logged Process.step (fun _ _ => True) (fun _ ka => [ka]) (Process.start fun _ => [⟨1, false⟩])
        (echoRun false 0 [1] ++ echoRun true 0 [2]) p ∧
        decide (p.Holds false 0 ∧ (p.threads 0).state.record = (⟨0, 0, 1, .success, 0, 1⟩, [2])) = true :=
    Lts.exists_labelled _ (by decide +kernel)
  obtain ⟨s, hrun', hs⟩ : ∃ s : Sys, Lts.Logged Sys.step (fun _ _ => True) (fun _ a => [a]) (boot [⟨1, false⟩])
      ((echoRun false 0 [1] ++ echoRun true 0 [2]).filterMap (ownAct false)) s ∧
        decide ((s.threads 0).record = (⟨0, 0, 1, .success, 0, 1⟩, [1])) = true :=
    Lts.exists_labelled _ (by decide +kernel)
  obtain ⟨hheld, hrecord⟩ := of_decide_eq_true hp
  exact ⟨p, s, hrun, hrun', hheld, hrecord, of_decide_eq_true hs⟩

end Coseq
