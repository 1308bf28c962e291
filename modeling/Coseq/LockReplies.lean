import Coseq.PendingList
import Coseq.FiberModes

/-! Replies to the lock holder. The test that lets a reply to the holder through is made when the
event is taken from the batch; a reply deferred under one holder stays deferred when another fiber
locks before the queue is spliced back. Under the condition that a fiber locks only while none of its
own replies is deferred, the holder is never cut off from its replies. -/

namespace Coseq

/-- No deferred reply has a pending entry of `a`. -/
def NoneDeferred (m : Module) (a : FiberRef) : Prop :=
  ∀ e ∈ m.deferred, e.type = .reply → ⟨e.reqId, a⟩ ∉ m.pending

instance (m : Module) (a : FiberRef) : Decidable (NoneDeferred m a) :=
  inferInstanceAs (Decidable (∀ e ∈ m.deferred, e.type = .reply → ⟨e.reqId, a⟩ ∉ m.pending))

/-- At its wait point the scheduler keeps no reply back from the lock holder. -/
def HolderServed (m : Module) : Prop :=
  m.AtWaitPoint → ∀ f, m.lockedBy = some f → NoneDeferred m f

instance (m : Module) : Decidable (HolderServed m) :=
  inferInstanceAs (Decidable (m.AtWaitPoint → ∀ f ∈ m.lockedBy, NoneDeferred m f))

/-- The next id is carried by no pending entry and no deferred reply. -/
def IdUnused (m : Module) : Prop :=
  (∀ p ∈ m.pending, p.reqId ≠ m.reqId) ∧ ∀ e ∈ m.deferred, e.type = .reply → e.reqId ≠ m.reqId

instance (m : Module) : Decidable (IdUnused m) :=
  inferInstanceAs (Decidable ((∀ p ∈ m.pending, p.reqId ≠ m.reqId) ∧
    ∀ e ∈ m.deferred, e.type = .reply → e.reqId ≠ m.reqId))

/-- `coseq_lock` finds none of the caller's replies deferred, and a registered id is unused. -/
def LocksClear (m : Module) : ModAct → Prop
  | .call .lock _ _ _ => ∀ a ∈ m.current, NoneDeferred m a
  | .call (.request ..) _ _ _ => IdUnused m
  | .call (.requestTimeout ..) _ _ _ => IdUnused m
  | .call (.requestAsync ..) _ _ _ => IdUnused m
  | _ => True

instance (m : Module) (act : ModAct) : Decidable (LocksClear m act) :=
  match act with
  | .call .lock .. =>
      inferInstanceAs (Decidable (∀ a ∈ m.current, NoneDeferred m a))
  | .call (.request ..) .. | .call (.requestTimeout ..) .. | .call (.requestAsync ..) .. =>
      inferInstanceAs (Decidable (IdUnused m))
  | .sched .. | .stop | .call (.send ..) .. | .call .waitReply .. | .call .gather ..
  | .call .gatherNext .. | .call (.reply ..) .. | .call (.waitTimeout ..) ..
  | .call (.regNotify ..) .. | .call (.unregNotify ..) .. | .call (.notify ..) ..
  | .call .notifyNext .. | .call .unlock .. | .call .ret .. => .isTrue trivial

theorem Issues.unused {m : Module} {now : Timespec} {id : Nat} {ok : Alloc} {c : Call} {kind : ReqKind}
    {i s : Nat} {msg : Bytes} (h : Issues now c kind i s msg) (hkind : kind.awaited = true)
    (hok : LocksClear m (.call c now id ok)) : IdUnused m := by
  cases h with
  | request => exact hok
  | requestTimeout => exact hok
  | requestAsync => exact hok
  | send => cases hkind

/-- The holder's replies are not deferred, at whatever point the scheduler is. -/
structure HolderClear (m : Module) : Prop where
  distinct : Distinct m.pending
  clear : ∀ f, m.lockedBy = some f → NoneDeferred m f

namespace HolderClear

variable {m m' : Module}

/-- A step after which less is deferred, less is pending and no other fiber holds the lock. -/
theorem shrink (h : HolderClear m) (hpending : List.Sublist m'.pending m.pending)
    (hdeferred : ∀ e ∈ m'.deferred, e ∈ m.deferred)
    (hlock : ∀ f, m'.lockedBy = some f → m.lockedBy = some f) : HolderClear m' where
  distinct := h.distinct.sublist hpending
  clear := fun f hf e he htype hmem =>
    h.clear f (hlock f hf) e (hdeferred e he) htype (hpending.subset hmem)

theorem merge (h : HolderClear m) {inbox deferred : List Ev} (hmerge : Merged m inbox deferred)
    (hpending : m'.pending = m.pending) (hdeferred : m'.deferred = deferred)
    (hlock : m'.lockedBy = m.lockedBy) : HolderClear m' := by
  refine h.shrink (hpending ▸ .refl _) ?_ fun f hf => hlock ▸ hf
  rw [hdeferred]
  cases hmerge with
  | kept => exact fun e he => he
  | spliced => exact fun e he => absurd he List.not_mem_nil

/-- The holder's own reply is let through, so a deferred one is for another fiber. -/
theorem defer (h : HolderClear m) {e : Ev} (hblock : ¬Admits m e) (hpending : m'.pending = m.pending)
    (hdeferred : m'.deferred = m.deferred ++ [e]) (hlock : m'.lockedBy = m.lockedBy) :
    HolderClear m' := by
  refine ⟨hpending ▸ h.distinct, fun f hf e' he' htype hmem => ?_⟩
  rw [hlock] at hf
  rw [hpending] at hmem
  rw [hdeferred] at he'
  rcases List.mem_append.mp he' with he' | he'
  · exact h.clear f hf e' he' htype hmem
  · obtain rfl := List.mem_singleton.mp he'
    refine hblock (.inr (.inr ⟨htype, ?_⟩))
    rw [hf, h.distinct.peek_iff]
    exact hmem

theorem issue (h : HolderClear m) {a : FiberRef} {kind : ReqKind} {ok : Alloc}
    (hunused : kind.awaited = true → IdUnused m) (hpending : m'.pending = issuePending m a kind ok)
    (hdeferred : m'.deferred = m.deferred) (hlock : m'.lockedBy = m.lockedBy) : HolderClear m' := by
  refine ⟨hpending ▸ h.distinct.issue fun hkind => (hunused hkind).1, fun f hf e he htype hmem => ?_⟩
  rw [hlock] at hf
  rw [hdeferred] at he
  rw [hpending] at hmem
  rcases mem_issuePending hmem with ⟨hp, hkind⟩ | hmem
  · obtain ⟨hid, -⟩ := Pending.mk.inj hp
    exact (hunused hkind).2 e he htype hid
  · exact h.clear f hf e he htype hmem

theorem move {act : ModAct} {eff : Effect} (h : HolderClear m) (hok : LocksClear m act)
    (hmove : Move m act eff m') : HolderClear m' := by
  have hdef : ∀ e ∈ m.deferred, e ∈ m.deferred := fun _ he => he
  have hlock : ∀ f, m.lockedBy = some f → m.lockedBy = some f := fun _ hf => hf
  cases hmove with
  | park _ _ hmerge _ => exact h.merge hmerge rfl rfl rfl
  | halt _ hmerge _ => exact h.merge hmerge rfl rfl rfl
  | take _ hmerge => exact h.merge hmerge rfl rfl rfl
  | pass => exact h.shrink (.refl _) hdef hlock
  | fire => exact h.shrink (.refl _) hdef hlock
  | expire => exact h.shrink pendingTake_sublist hdef hlock
  | defer _ _ hblock => exact h.defer hblock rfl rfl rfl
  | drop => exact h.shrink (.refl _) hdef hlock
  | begin => exact h.shrink (.refl _) hdef hlock
  | undefined => exact h.shrink pendingTake_sublist hdef hlock
  | wake => exact h.shrink pendingTake_sublist hdef hlock
  | queue => exact h.shrink pendingTake_sublist hdef hlock
  | lose => exact h.shrink pendingTake_sublist hdef hlock
  | reap => exact h.shrink (.refl _) hdef fun f hf => (Option.filter_eq_some_iff.mp hf).1
  | issue _ hissue => exact h.issue (fun hkind => hissue.unused hkind hok) rfl rfl rfl
  | «local» => exact h.shrink (.refl _) hdef hlock
  | @lock _ _ _ a hcur =>
      refine ⟨h.distinct, ?_⟩
      rintro f ⟨⟩
      exact hok a hcur
  | unlock =>
      refine h.shrink (.refl _) hdef fun f hf => ?_
      dsimp only at hf
      split at hf
      · cases hf
      · exact hf
  | ret => exact h.shrink (.refl _) hdef hlock
  | stop => exact h.shrink (.refl _) hdef hlock

end HolderClear

theorem holderClear_boot (i : Nat) (reg : Reg) : HolderClear (Module.boot i reg) :=
  ⟨distinct_nil, fun f hf => by cases hf⟩

/-- In every run whose fibers lock only while none of their own replies is deferred, no reply to the
lock holder waits in the deferred queue at a wait point. -/
theorem holder_served {tbl : List Reg} {s : Sys} (hrun : Reaches (EveryModule LocksClear) tbl s)
    (j : Nat) : HolderServed (s.module j) := by
  have h : HolderClear (s.module j) := module_invariant hrun (fun _ _ h => h) holderClear_boot
    (fun _ _ _ _ h hok hmove => h.move hok hmove) (fun _ _ h => ⟨h.distinct, h.clear⟩) j
  exact fun _ => h.clear

/-- Fiber 0 of module 0 awaits a reply, fiber 1 takes the lock and sleeps, and the reply is deferred. -/
def keptBackRun : List Act :=
  [.requestAsync 0 0 0 [], .asyncPost 0 .granted, .requestAsync 0 0 1 [], .asyncPost 0 .granted,
    .thread 0, .thread 0, .thread 0, .thread 0, .fiber 0 (.request 1 0 []), .thread 0,
    .fiber 0 .lock, .fiber 0 (.waitTimeout 5), .thread 0, .thread 1, .thread 1, .thread 1, .thread 1,
    .fiber 1 (.reply .success []), .fiber 1 .ret, .thread 0, .thread 0, .thread 0, .thread 0,
    .thread 0, .thread 0, .thread 0]

theorem keptBackRun_served : ∃ s, Reaches (EveryModule LocksClear) [⟨2, false⟩, ⟨1, false⟩] s ∧
    ((s.module 0).AtWaitPoint ∧ (s.module 0).lockedBy = some 1 ∧
      (s.module 0).deferred.map Ev.reqId = [1] ∧ (s.module 0).pending = [⟨1, 0⟩]) ∧
      HolderServed (s.module 0) := by
  obtain ⟨s, hrun, hs⟩ : ∃ s, Reaches (EveryModule LocksClear) [⟨2, false⟩, ⟨1, false⟩] s ∧
      decide ((s.module 0).AtWaitPoint ∧ (s.module 0).lockedBy = some 1 ∧
        (s.module 0).deferred.map Ev.reqId = [1] ∧ (s.module 0).pending = [⟨1, 0⟩]) = true :=
    Lts.exists_run keptBackRun (by decide +kernel)
  exact ⟨s, hrun, of_decide_eq_true hs, holder_served hrun 0⟩

/-- Fiber 0 of module 0 awaits two replies, fiber 1 takes the lock and waits for one of its own. The
three replies arrive in one batch behind fiber 1's: the first of fiber 0's is deferred under fiber 1,
the second, behind fiber 1's own, wakes fiber 0. -/
def cutOffRun : List Act :=
  [.requestAsync 0 0 0 [], .asyncPost 0 .granted, .requestAsync 0 0 1 [], .asyncPost 0 .granted,
    .thread 0, .thread 0, .thread 0, .thread 0,
    .fiber 0 (.requestAsync 1 0 []), .fiber 0 (.requestAsync 1 0 []), .fiber 0 .waitReply,
    .thread 0, .fiber 0 .lock, .fiber 0 (.request 1 0 []), .thread 0,
    .thread 1, .thread 1, .thread 1, .thread 1, .fiber 1 (.reply .success []), .fiber 1 .ret,
    .thread 1, .fiber 1 (.waitTimeout 0), .thread 1, .fiber 1 (.reply .success []), .fiber 1 .ret,
    .thread 1, .thread 1, .thread 1, .thread 1, .thread 1, .fiber 1 (.reply .success []),
    .fiber 1 .ret, .thread 0, .thread 0, .thread 0, .thread 0, .thread 0, .thread 0, .thread 0,
    .fiber 0 .unlock, .fiber 0 .ret, .thread 0, .fiber 0 .lock, .fiber 0 .waitReply, .thread 0]

/-- Without the condition the holder can wait for a reply that is deferred. -/
theorem holder_cut_off : ∃ s, Reaches (fun _ _ => True) [⟨2, false⟩, ⟨1, false⟩] s ∧
    ¬HolderServed (s.module 0) := by
  obtain ⟨s, hrun, hs⟩ : ∃ s, Reaches (fun _ _ => True) [⟨2, false⟩, ⟨1, false⟩] s ∧
      decide (¬HolderServed (s.module 0)) = true :=
    Lts.exists_run cutOffRun (by decide +kernel)
  exact ⟨s, hrun, of_decide_eq_true hs⟩

end Coseq
