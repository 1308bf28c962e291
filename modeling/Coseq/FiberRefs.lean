import Coseq.PendingList
import Coseq.FiberModes

/-! References to fibers. `reap_done` clears `locked_by` when it frees the holder but leaves the pending
list alone, so an entry outlives its fiber when a sequence returns with a reply outstanding. While no
sequence does that, neither reference dangles and the module never touches a freed fiber. -/

namespace Coseq

/-- The pending entries and `locked_by` name fibers that are in the list and have not finished. -/
structure NoDangling (m : Module) : Prop where
  pending : ∀ p ∈ m.pending, p.f ∈ m.fibers ∧ (m.fiber p.f).done = false
  holder : ∀ a ∈ m.lockedBy, a ∈ m.fibers ∧ (m.fiber a).done = false

instance (m : Module) : Decidable (NoDangling m) :=
  decidable_of_iff ((∀ p ∈ m.pending, p.f ∈ m.fibers ∧ (m.fiber p.f).done = false) ∧
    ∀ a ∈ m.lockedBy, a ∈ m.fibers ∧ (m.fiber a).done = false)
    ⟨fun h => ⟨h.1, h.2⟩, fun h => ⟨h.pending, h.holder⟩⟩

/-- A sequence returns only when no pending entry names its fiber. -/
def ReturnsClear (m : Module) : ModAct → Prop
  | .call .ret _ _ _ => ∀ a ∈ m.current, ∀ p ∈ m.pending, p.f ≠ a
  | _ => True

instance (m : Module) (act : ModAct) : Decidable (ReturnsClear m act) :=
  match act with
  | .call .ret .. =>
      inferInstanceAs (Decidable (∀ a ∈ m.current, ∀ p ∈ m.pending, p.f ≠ a))
  | .sched .. | .stop | .call (.request ..) .. | .call (.requestTimeout ..) ..
  | .call (.requestAsync ..) .. | .call (.send ..) .. | .call .waitReply .. | .call .gather ..
  | .call .gatherNext .. | .call (.reply ..) .. | .call (.waitTimeout ..) ..
  | .call (.regNotify ..) .. | .call (.unregNotify ..) .. | .call (.notify ..) ..
  | .call .notifyNext .. | .call .lock .. | .call .unlock .. => .isTrue trivial

/-- The pending entries name live fibers, and the module has not touched a freed one. -/
structure LiveRefs (m : Module) : Prop where
  pending : ∀ p ∈ m.pending, p.f ∈ m.fibers ∧ (m.fiber p.f).done = false
  defined : m.phase ≠ .undefined

namespace LiveRefs

variable {m m' : Module}

/-- A step that removes pending entries at most, frees no fiber and finishes none. -/
theorem keep (h : LiveRefs m) (hpending : ∀ p ∈ m'.pending, p ∈ m.pending)
    (hfibers : ∀ a ∈ m.fibers, a ∈ m'.fibers)
    (hdone : ∀ a ∈ m.fibers, (m.fiber a).done = false → (m'.fiber a).done = false)
    (hphase : m'.phase ≠ .undefined) : LiveRefs m' := by
  refine ⟨fun p hp => ?_, hphase⟩
  obtain ⟨hmem, hnot⟩ := h.pending p (hpending p hp)
  exact ⟨hfibers _ hmem, hdone _ hmem hnot⟩

theorem done_update {a : FiberRef} {f : Fiber} (hf : (m.fiber a).done = false → f.done = false) :
    ∀ b ∈ m.fibers, (m.fiber b).done = false → (Function.update m.fiber a f b).done = false :=
  fun b _ => Fiber.update_related (R := fun g g' => g.done = false → g'.done = false) (fun _ h => h) hf b

theorem issue (h : LiveRefs m) (hmodes : Modes m) {a : FiberRef} {kind : ReqKind} {ok : Alloc}
    (hcur : m.current = some a) (hpending : m'.pending = issuePending m a kind ok)
    (hfibers : m'.fibers = m.fibers) (hphase : m'.phase = m.phase)
    (hfiber : m'.fiber = Function.update m.fiber a ((m.fiber a).issued kind m.reqId)) : LiveRefs m' := by
  obtain ⟨hmem, hnot, hidle, -⟩ := hmodes.running a hcur
  have hdone := done_update (m := m) (a := a) (f := (m.fiber a).issued kind m.reqId)
    fun hd => (Fiber.issued_turn kind m.reqId a hidle).1.trans hd
  refine ⟨fun p hp => ?_, hphase ▸ h.defined⟩
  rw [hpending] at hp
  rw [hfibers, hfiber]
  rcases mem_issuePending hp with ⟨rfl, -⟩ | hp
  · exact ⟨hmem, hdone a hmem hnot⟩
  · obtain ⟨hmem', hnot'⟩ := h.pending p hp
    exact ⟨hmem', hdone _ hmem' hnot'⟩

theorem ret (h : LiveRefs m) {a : FiberRef} (hclear : ∀ p ∈ m.pending, p.f ≠ a)
    (hpending : m'.pending = m.pending) (hfibers : m'.fibers = m.fibers) (hphase : m'.phase = m.phase)
    (hfiber : m'.fiber = Function.update m.fiber a { m.fiber a with done := true }) : LiveRefs m' := by
  refine ⟨fun p hp => ?_, hphase ▸ h.defined⟩
  rw [hpending] at hp
  rw [hfibers, hfiber, Function.update_of_ne (hclear p hp)]
  exact h.pending p hp

theorem move {act : ModAct} {eff : Effect} (h : LiveRefs m) (hmodes : Modes m)
    (hok : ReturnsClear m act) (hmove : Move m act eff m') : LiveRefs m' := by
  have hfibers : ∀ a ∈ m.fibers, a ∈ m.fibers := fun _ ha => ha
  have hpending : ∀ p ∈ m.pending, p ∈ m.pending := fun _ hp => hp
  have hdone : ∀ a ∈ m.fibers, (m.fiber a).done = false → (m.fiber a).done = false := fun _ _ hd => hd
  cases hmove with
  | park => exact h.keep hpending hfibers hdone (by simp)
  | halt => exact h.keep hpending hfibers hdone (by simp)
  | take => exact h.keep hpending hfibers hdone (by simp)
  | pass _ hpass => exact h.keep hpending hfibers hdone (by cases hpass <;> simp)
  | fire => exact h.keep hpending hfibers (done_update fun hd => hd) (by simp [Module.resumed])
  | expire =>
      exact h.keep (fun p hp => mem_of_take hp) hfibers (done_update fun hd => hd) (by simp [Module.resumed])
  | defer => exact h.keep hpending hfibers hdone h.defined
  | drop => exact h.keep hpending hfibers hdone h.defined
  | begin =>
      exact h.keep hpending (fun _ ha => List.mem_cons_of_mem _ ha)
        (done_update fun _ => Ev.fiber_done _ _) h.defined
  | undefined _ _ _ _ hpeek hfreed => exact absurd (h.pending _ (mem_of_peek hpeek)).1 hfreed
  | wake => exact h.keep (fun p hp => mem_of_take hp) hfibers (done_update fun hd => hd) h.defined
  | queue => exact h.keep (fun p hp => mem_of_take hp) hfibers (done_update fun hd => hd) h.defined
  | lose => exact h.keep (fun p hp => mem_of_take hp) hfibers hdone h.defined
  | reap =>
      refine ⟨fun p hp => ?_, by simp⟩
      obtain ⟨hmem, hnot⟩ := h.pending p hp
      exact ⟨List.mem_filter.mpr ⟨hmem, by simp [hnot]⟩, hnot⟩
  | issue hcur _ => exact h.issue hmodes hcur rfl rfl rfl rfl
  | «local» hcur hcall =>
      have hidle := (hmodes.running _ hcur).2.2.1
      exact h.keep hpending hfibers (done_update fun hd => (hcall.turn hidle).1.trans hd) h.defined
  | lock => exact h.keep hpending hfibers hdone h.defined
  | unlock => exact h.keep hpending hfibers hdone h.defined
  | @ret _ _ _ a hcur _ => exact h.ret (hok a hcur) rfl rfl rfl rfl
  | stop => exact h.keep hpending hfibers hdone h.defined

theorem boot (i : Nat) (reg : Reg) : LiveRefs (Module.boot i reg) :=
  ⟨fun p hp => absurd hp List.not_mem_nil, by simp [Module.boot]⟩

end LiveRefs

theorem live_refs {tbl : List Reg} {s : Sys} (hrun : Reaches (EveryModule ReturnsClear) tbl s) (j : Nat) :
    Modes (s.module j) ∧ LiveRefs (s.module j) :=
  module_invariant (G := ReturnsClear) (P := fun m => Modes m ∧ LiveRefs m) hrun (fun _ _ h => h)
    (fun i reg => ⟨Modes.boot i reg, LiveRefs.boot i reg⟩)
    (fun _ _ _ _ h hok hmove => ⟨h.1.move hmove, h.2.move h.1 hok hmove⟩)
    (fun _ e h => ⟨h.1.enqueue e, h.2.pending, h.2.defined⟩) j

/-- In every run whose sequences return only without a pending entry of theirs, no reference dangles
once `reap_done` has run. -/
theorem no_dangling {tbl : List Reg} {s : Sys} (hrun : Reaches (EveryModule ReturnsClear) tbl s)
    (j : Nat) (hwait : (s.module j).AtWaitPoint) : NoDangling (s.module j) := by
  obtain ⟨hmodes, hrefs⟩ := live_refs hrun j
  refine ⟨hrefs.pending, fun a ha => ?_⟩
  have hmem := hmodes.holder a ha
  exact ⟨hmem, (hmodes.swept hwait).2 a hmem⟩

/-- A sequence holds the lock and awaits an asynchronous reply. -/
def awaitingRun : List Act :=
  [.requestAsync 0 0 0 [], .asyncPost 0 .granted, .thread 0, .thread 0, .thread 0, .thread 0,
    .fiber 0 .lock, .fiber 0 (.requestAsync 1 0 []), .fiber 0 .waitReply, .thread 0]

theorem awaitingRun_refs : ∃ s, Reaches (EveryModule ReturnsClear) [⟨1, false⟩, ⟨1, false⟩] s ∧
    ((s.module 0).AtWaitPoint ∧ (s.module 0).pending = [⟨1, 0⟩] ∧ (s.module 0).lockedBy = some 0) ∧
      NoDangling (s.module 0) := by
  obtain ⟨s, hrun, hs⟩ : ∃ s, Reaches (EveryModule ReturnsClear) [⟨1, false⟩, ⟨1, false⟩] s ∧
      decide ((s.module 0).AtWaitPoint ∧ (s.module 0).pending = [⟨1, 0⟩] ∧
        (s.module 0).lockedBy = some 0) = true :=
    Lts.exists_run awaitingRun (by decide +kernel)
  have hs := of_decide_eq_true hs
  exact ⟨s, hrun, hs, no_dangling hrun 0 hs.1⟩

/-- A sequence requests and returns; its fiber is freed with the reply outstanding. -/
def abandonRun : List Act :=
  [.requestAsync 0 0 0 [], .asyncPost 0 .granted, .thread 0, .thread 0, .thread 0, .thread 0,
    .fiber 0 (.requestAsync 1 0 []), .fiber 0 .ret, .thread 0]

/-- Without the condition a pending entry can name a freed fiber. -/
theorem entry_dangles : ∃ s, Reaches (fun _ _ => True) [⟨1, false⟩, ⟨1, false⟩] s ∧
    (s.module 0).AtWaitPoint ∧ ¬NoDangling (s.module 0) := by
  obtain ⟨s, hrun, hs⟩ : ∃ s, Reaches (fun _ _ => True) [⟨1, false⟩, ⟨1, false⟩] s ∧
      decide ((s.module 0).AtWaitPoint ∧ ¬NoDangling (s.module 0)) = true :=
    Lts.exists_run abandonRun (by decide +kernel)
  exact ⟨s, hrun, of_decide_eq_true hs⟩

/-- In such runs the module's thread never touches a freed fiber. -/
theorem never_undefined {tbl : List Reg} {s : Sys} (hrun : Reaches (EveryModule ReturnsClear) tbl s)
    (j : Nat) : (s.module j).phase ≠ .undefined :=
  (live_refs hrun j).2.defined

end Coseq
