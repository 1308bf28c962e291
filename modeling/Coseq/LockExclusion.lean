import Coseq.FiberModes
import Coseq.RunHistory

/-! Mutual exclusion of `coseq_lock`, read off the history of a module: between a fiber's lock and its
unlock or end no sequence starts and no other parked fiber is resumed. `locked_by` is one pointer and
`coseq_lock` overwrites it, so this needs that nobody locks while another fiber holds the lock. -/

namespace Coseq

open History

/-- The history leaves `f` between its `coseq_lock` and its `coseq_unlock` or end. -/
abbrev HoldsLock (f : FiberRef) : List Obs → Prop :=
  Since (· = .locked f) fun x => x = .unlocked f ∨ x = .finished f

/-- An entry that may stand in the history while `f` holds the lock. -/
def AllowedUnder (f : FiberRef) : Obs → Prop
  | .started .. => False
  | .resumed g _ => g = f
  | _ => True

instance (f : FiberRef) (x : Obs) : Decidable (AllowedUnder f x) :=
  match x with
  | .started .. => .isFalse id
  | .resumed g _ => inferInstanceAs (Decidable (g = f))
  | .arrived .. | .issued .. | .notStarted .. | .rejected .. | .notified .. | .returned .. | .noReply ..
  | .gathering .. | .gathered .. | .lost .. | .replied .. | .registered .. | .unregistered ..
  | .published .. | .locked .. | .unlocked .. | .finished .. => .isTrue trivial

/-- Nothing but a lock holder's own progress happens while it holds the lock. -/
def Exclusive (trace : List Obs) : Prop := ∀ f, Each (fun pre x => HoldsLock f pre → AllowedUnder f x) trace

/-- `coseq_lock` is executed only while no other fiber holds the lock. -/
def NoSteal (m : Module) : ModAct → Prop
  | .call .lock _ _ _ => m.lockedBy = none ∨ m.lockedBy = m.current
  | _ => True

instance (m : Module) (act : ModAct) : Decidable (NoSteal m act) :=
  match act with
  | .call .lock .. =>
      inferInstanceAs (Decidable (_ ∨ _))
  | .sched .. | .stop | .call (.request ..) .. | .call (.requestTimeout ..) ..
  | .call (.requestAsync ..) .. | .call (.send ..) .. | .call .waitReply .. | .call .gather ..
  | .call .gatherNext .. | .call (.reply ..) .. | .call (.waitTimeout ..) ..
  | .call (.regNotify ..) .. | .call (.unregNotify ..) .. | .call (.notify ..) ..
  | .call .notifyNext .. | .call .unlock .. | .call .ret .. => .isTrue trivial

/-- An entry that opens and closes no lock period. -/
def Obs.Calm : Obs → Prop
  | .locked _ | .unlocked _ | .finished _ => False
  | _ => True

theorem Obs.Calm.keeps {x : Obs} (h : x.Calm) (f : FiberRef) :
    ¬x = .locked f ∧ ¬(x = .unlocked f ∨ x = .finished f) := by
  refine ⟨?_, ?_⟩
  · rintro rfl
    exact h
  · rintro (rfl | rfl) <;> exact h

/-- A calm entry that neither starts nor resumes anything. -/
def Obs.Plain : Obs → Prop
  | .locked _ | .unlocked _ | .finished _ | .started .. | .resumed .. => False
  | _ => True

theorem Obs.Plain.allowed {x : Obs} (h : x.Plain) : x.Calm ∧ ∀ f, AllowedUnder f x := by
  cases x <;> first | exact h.elim | exact ⟨trivial, fun _ => trivial⟩

theorem Obs.OfCall.plain {x : Obs} (h : x.OfCall) : x.Plain := by
  cases x <;> first | exact h.elim | trivial

theorem Dropped.obs_plain {m : Module} {e : Ev} {ok : Alloc} {obs : List Obs} (h : Dropped m e ok obs) :
    ∀ x ∈ obs, x.Plain := by
  intro x hx
  rcases h.mem hx with rfl | rfl <;> trivial

/-- The period of the history and `locked_by` agree. -/
structure Locking (m : Module) : Prop where
  holder : ∀ f, HoldsLock f m.trace → m.lockedBy = some f ∧ (m.fiber f).done = false
  exclusive : Exclusive m.trace

namespace Locking

variable {m m' : Module} {xs : List Obs}

/-- Calm entries, allowed under whoever holds the lock, are appended. -/
theorem calm (h : Locking m) (htrace : m'.trace = m.trace ++ xs)
    (hxs : ∀ x ∈ xs, x.Calm ∧ ∀ f, m.lockedBy = some f → AllowedUnder f x)
    (hlock : ∀ f, m.lockedBy = some f → (m.fiber f).done = false → m'.lockedBy = some f)
    (hdone : ∀ f, (m.fiber f).done = false → (m'.fiber f).done = false) : Locking m' := by
  have hsame : ∀ f ys, (∀ y ∈ ys, y ∈ xs) → (HoldsLock f (m.trace ++ ys) ↔ HoldsLock f m.trace) :=
    fun f ys hys => since_append fun y hy => (hxs y (hys y hy)).1.keeps f
  refine ⟨fun f hf => ?_, fun f => ?_⟩
  · rw [htrace, hsame f xs fun _ hy => hy] at hf
    obtain ⟨hlocked, hnot⟩ := h.holder f hf
    exact ⟨hlock f hlocked hnot, hdone f hnot⟩
  · rw [htrace]
    refine each_append.mpr ⟨h.exclusive f, fun pre x post hsplit hf => ?_⟩
    rw [hsame f pre fun y hy => by rw [hsplit]; exact List.mem_append_left _ hy] at hf
    exact (hxs x (by rw [hsplit]; simp)).2 f (h.holder f hf).1

/-- Plain entries are appended, and the lock stays where it is. -/
theorem plain (h : Locking m) (htrace : m'.trace = m.trace ++ xs) (hxs : ∀ x ∈ xs, x.Plain)
    (hlock : m'.lockedBy = m.lockedBy)
    (hdone : ∀ f, (m.fiber f).done = false → (m'.fiber f).done = false) : Locking m' :=
  h.calm htrace (fun x hx => ⟨(hxs x hx).allowed.1, fun f _ => (hxs x hx).allowed.2 f⟩)
    (fun _ hf _ => hlock ▸ hf) hdone

/-- A step that appends nothing. -/
theorem silent (h : Locking m) (htrace : m'.trace = m.trace) (hlock : m'.lockedBy = m.lockedBy)
    (hdone : ∀ f, (m.fiber f).done = false → (m'.fiber f).done = false) : Locking m' :=
  h.plain (htrace.trans (List.append_nil _).symm) (fun _ hx => absurd hx List.not_mem_nil) hlock hdone

theorem wakeObs_allowed {f : Fiber} {a : FiberRef} {why : Wake} {x : Obs} (hx : x ∈ f.wakeObs a why) :
    x.Calm ∧ AllowedUnder a x := by
  rcases Fiber.wakeObs_kind x hx with rfl | hcall
  · exact ⟨trivial, rfl⟩
  · exact hcall.plain.allowed.imp id fun h => h a

theorem done_update {a : FiberRef} {f : Fiber} {fiber : FiberRef → Fiber}
    (hf : (fiber a).done = false → f.done = false) (b : FiberRef) (hb : (fiber b).done = false) :
    (Function.update fiber a f b).done = false :=
  Fiber.update_related (R := fun g g' => g.done = false → g'.done = false) (fun _ h => h) hf b hb

/-- A fiber is resumed that the lock admits. -/
theorem resume (h : Locking m) {a : FiberRef} {f : Fiber} {why : Wake}
    (hadmits : m.lockedBy = none ∨ m.lockedBy = some a) (hf : f.done = (m.fiber a).done)
    (htrace : m'.trace = m.trace ++ f.wakeObs a why)
    (hfiber : m'.fiber = Function.update m.fiber a f.wake) (hlock : m'.lockedBy = m.lockedBy) :
    Locking m' := by
  refine h.calm htrace (fun x hx => ?_) (fun _ hlocked _ => hlock ▸ hlocked) ?_
  · obtain ⟨hcalm, hallow⟩ := wakeObs_allowed hx
    refine ⟨hcalm, fun g hg => ?_⟩
    rcases hadmits with hfree | hown
    · rw [hfree] at hg
      cases hg
    · obtain rfl : a = g := Option.some.inj (hown.symm.trans hg)
      exact hallow
  · rw [hfiber]
    exact done_update fun hd => by rw [← hf] at hd; exact hd

theorem begin (h : Locking m) {e : Ev} {ok : Alloc} (hadmits : Admits m e) (htype : e.type ≠ .reply)
    (htrace : m'.trace = m.trace ++ [e.beginObs m.nextFiber])
    (hfiber : m'.fiber = Function.update m.fiber m.nextFiber (e.fiber ok))
    (hlock : m'.lockedBy = m.lockedBy) : Locking m' := by
  refine h.calm htrace (fun x hx => ?_) (fun _ hlocked _ => hlock ▸ hlocked) ?_
  · obtain rfl := List.mem_singleton.mp hx
    unfold Ev.beginObs
    split
    · exact ⟨trivial, fun _ _ => trivial⟩
    · rename_i hstart
      refine ⟨trivial, fun f hf => ?_⟩
      rcases hadmits with hfree | hnotify | ⟨hreply, -⟩
      · rw [hfree] at hf
        cases hf
      · exact absurd hnotify hstart
      · exact absurd hreply htype
  · rw [hfiber]
    exact done_update fun _ => e.fiber_done ok

theorem reap (h : Locking m) : Locking { reapDone m with phase := .top } := by
  refine h.calm (List.append_nil _).symm (fun _ hx => absurd hx List.not_mem_nil)
    (fun f hf hdone => ?_) fun _ hdone => hdone
  exact Option.filter_eq_some_iff.mpr ⟨hf, by simp [hdone]⟩

theorem issued_done (f : Fiber) (kind : ReqKind) (rid : Nat) : (f.issued kind rid).done = f.done := by
  cases kind <;> rfl

/-- A reply to a parked fiber passes the lock only if nobody or that fiber holds it. -/
theorem admits_reply {e : Ev} {a : FiberRef} (hadmits : Admits m e) (htype : e.type = .reply)
    (hpeek : pendingPeek m.pending e.reqId = some a) : m.lockedBy = none ∨ m.lockedBy = some a := by
  rcases hadmits with hfree | hnotify | ⟨-, hown⟩
  · exact .inl hfree
  · rw [htype] at hnotify
    cases hnotify
  · exact .inr (hown.symm.trans hpeek)

theorem lock (h : Locking m) {a : FiberRef} (hrun : (m.fiber a).done = false)
    (hfree : m.lockedBy = none ∨ m.lockedBy = some a) :
    Locking { m with lockedBy := some a, trace := m.trace ++ [.locked a] } := by
  refine ⟨fun f hf => ?_, fun f => each_concat.mpr ⟨h.exclusive f, fun _ => trivial⟩⟩
  rcases since_concat.mp hf with heq | ⟨hf, -⟩
  · obtain rfl : a = f := by simpa using heq
    exact ⟨rfl, hrun⟩
  · obtain ⟨hlocked, hnot⟩ := h.holder f hf
    rcases hfree with hfree | hown
    · rw [hfree] at hlocked
      cases hlocked
    · exact ⟨hown.symm.trans hlocked, hnot⟩

theorem unlock (h : Locking m) (a : FiberRef) :
    Locking { m with
      lockedBy := if m.lockedBy = some a then none else m.lockedBy
      trace := m.trace ++ [.unlocked a] } := by
  refine ⟨fun f hf => ?_, fun f => each_concat.mpr ⟨h.exclusive f, fun _ => trivial⟩⟩
  obtain ⟨hf, hstop⟩ := (since_concat.mp hf).resolve_left (by simp)
  obtain ⟨hlocked, hnot⟩ := h.holder f hf
  refine ⟨?_, hnot⟩
  have hne : ¬m.lockedBy = some a := by
    rw [hlocked]
    rintro ⟨⟩
    exact hstop (.inl rfl)
  exact (if_neg hne).trans hlocked

theorem ret (h : Locking m) (a : FiberRef) :
    Locking { m with
      fiber := Function.update m.fiber a { m.fiber a with done := true }
      current := none
      trace := m.trace ++ [.finished a] } := by
  refine ⟨fun f hf => ?_, fun f => each_concat.mpr ⟨h.exclusive f, fun _ => trivial⟩⟩
  obtain ⟨hf, hstop⟩ := (since_concat.mp hf).resolve_left (by simp)
  obtain ⟨hlocked, hnot⟩ := h.holder f hf
  have hne : f ≠ a := by
    rintro rfl
    exact hstop (.inr rfl)
  exact ⟨hlocked, (congrArg Fiber.done (Function.update_of_ne hne _ _)).trans hnot⟩

theorem move {act : ModAct} {eff : Effect} (h : Locking m) (hmodes : Modes m) (hok : NoSteal m act)
    (hmove : Move m act eff m') : Locking m' := by
  cases hmove with
  | park => exact h.silent rfl rfl fun _ hd => hd
  | halt => exact h.silent rfl rfl fun _ hd => hd
  | take => exact h.silent rfl rfl fun _ hd => hd
  | pass => exact h.silent rfl rfl fun _ hd => hd
  | fire _ _ hlock => exact h.resume hlock rfl rfl rfl rfl
  | expire _ _ hlock => exact h.resume hlock (f := (m.fiber _).timedOut _) rfl rfl rfl rfl
  | defer => exact h.silent rfl rfl fun _ hd => hd
  | drop _ _ _ hdrop => exact h.plain rfl hdrop.obs_plain rfl fun _ hd => hd
  | begin _ _ hadmits htype _ => exact h.begin hadmits htype rfl rfl rfl
  | undefined => exact h.plain rfl (by simp [Obs.Plain]) rfl fun _ hd => hd
  | wake _ _ hadmits htype hpeek =>
      exact h.resume (admits_reply hadmits htype hpeek) (f := (m.fiber _).answered _ _) rfl rfl rfl rfl
  | queue => exact h.silent rfl rfl (done_update fun hd => hd)
  | lose => exact h.plain rfl (by simp [Obs.Plain]) rfl fun _ hd => hd
  | reap => exact h.reap
  | issue =>
      exact h.plain rfl (fun x hx => (issueObs_ofCall x hx).plain) rfl
        (done_update fun hd => (issued_done _ _ _).trans hd)
  | «local» hcur hcall =>
      have hidle := (hmodes.running _ hcur).2.2.1
      exact h.plain rfl (fun x hx => (hcall.ofCall x hx).plain) rfl
        (done_update fun hd => (hcall.turn hidle).1.trans hd)
  | @lock _ _ _ a hcur => exact h.lock (hmodes.running a hcur).2.1 (hcur ▸ hok)
  | unlock => exact h.unlock _
  | ret => exact h.ret _
  | stop => exact h.silent rfl rfl fun _ hd => hd

theorem enqueue (h : Locking m) (e : Ev) : Locking (m.enqueue e) :=
  h.plain rfl (by simp [Obs.Plain]) rfl fun _ hd => hd

theorem boot (i : Nat) (reg : Reg) : Locking (Module.boot i reg) :=
  ⟨fun _ hf => absurd hf not_since_nil, fun _ => each_nil⟩

end Locking

/-- In every run whose fibers lock only a free lock or their own, no sequence starts and no other fiber
is resumed between a lock and its unlock. -/
theorem lock_exclusive {tbl : List Reg} {s : Sys} (hrun : Reaches (EveryModule NoSteal) tbl s) (j : Nat) :
    Exclusive (s.module j).trace := by
  have h : Modes (s.module j) ∧ Locking (s.module j) := module_invariant (G := NoSteal)
    (P := fun m => Modes m ∧ Locking m) hrun (fun _ _ h => h)
    (fun i reg => ⟨Modes.boot i reg, Locking.boot i reg⟩)
    (fun _ _ _ _ h hok hmove => ⟨h.1.move hmove, h.2.move h.1 hok hmove⟩)
    (fun _ e h => ⟨h.1.enqueue e, h.2.enqueue e⟩) j
  exact h.2.exclusive

/-- A sequence locks and awaits a reply; a second START is deferred until it has unlocked. -/
def lockedRun : List Act :=
  [.requestAsync 0 0 0 [], .asyncPost 0 .granted, .requestAsync 0 0 1 [], .asyncPost 0 .granted,
    .thread 0, .thread 0, .thread 0, .thread 0, .fiber 0 .lock, .fiber 0 (.request 1 0 []),
    .thread 0, .thread 1, .thread 1, .thread 1, .thread 1, .fiber 1 (.reply .success []),
    .fiber 1 .ret, .thread 0, .thread 0, .thread 0, .thread 0, .thread 0, .thread 0]

theorem lockedRun_exclusive : ∃ s, Reaches (EveryModule NoSteal) [⟨2, false⟩, ⟨1, false⟩] s ∧
    (HoldsLock 0 (s.module 0).trace ∧ (s.module 0).deferred ≠ [] ∧
      .resumed 0 .reply ∈ (s.module 0).trace) ∧ Exclusive (s.module 0).trace := by
  obtain ⟨s, hrun, hs⟩ : ∃ s, Reaches (EveryModule NoSteal) [⟨2, false⟩, ⟨1, false⟩] s ∧
      decide (HoldsLock 0 (s.module 0).trace ∧ (s.module 0).deferred ≠ [] ∧
        .resumed 0 .reply ∈ (s.module 0).trace) = true :=
    Lts.exists_run lockedRun (by decide +kernel)
  exact ⟨s, hrun, of_decide_eq_true hs, lock_exclusive hrun 0⟩

/-- A sequence of module 0 locks and awaits a reply of module 1, which registers module 0 and
publishes. The handler of module 0 locks and unlocks, and the next START begins. -/
def stolenRun : List Act :=
  [.requestAsync 0 0 0 [], .asyncPost 0 .granted, .thread 0, .thread 0, .thread 0, .thread 0,
    .fiber 0 .lock, .fiber 0 (.request 1 0 []), .thread 0,
    .thread 1, .thread 1, .thread 1, .thread 1, .fiber 1 (.regNotify 7), .fiber 1 (.notify 7 []),
    .fiber 1 .notifyNext, .thread 0, .thread 0, .thread 0, .thread 0, .thread 0,
    .fiber 0 .lock, .fiber 0 .unlock, .fiber 0 .ret, .requestAsync 0 0 1 [], .asyncPost 0 .granted,
    .thread 0, .thread 0, .thread 0, .thread 0, .thread 0, .thread 0]

/-- Without the condition a handler can free another fiber's lock. -/
theorem lock_stolen : ∃ s, Reaches (fun _ _ => True) [⟨2, true⟩, ⟨1, false⟩] s ∧
    ¬Exclusive (s.module 0).trace := by
  obtain ⟨s, hrun, hs⟩ : ∃ s, Reaches (fun _ _ => True) [⟨2, true⟩, ⟨1, false⟩] s ∧
      decide (¬Each (fun pre x => HoldsLock 0 pre → AllowedUnder 0 x) (s.module 0).trace) = true :=
    Lts.exists_run stolenRun (by decide +kernel)
  exact ⟨s, hrun, fun h => of_decide_eq_true hs (h 0)⟩

end Coseq
