import Coseq.FiberRefs
import Coseq.HeapSafety

/-! The heap at the end of an instance. `stop_modules` frees what the modules still own. What is left is `ext_msg`, the
buffers of the external threads and what has been lost on the way, and when the sequences collect their replies before
they return nothing has been. -/

namespace Coseq

open HeapLog (one Triple Keeps keeps_flatMap)

/-! ### What `stop_modules` frees -/

section Stop

variable {i n : Nat} {a : FiberRef} {m : Module} {s : Sys} {g : HeapNotes} {b : Block} {msg : Bytes}

@[simp] theorem freeMsg_keeps : Keeps (freeMsg b msg) := by
  unfold freeMsg
  split <;> simp

@[simp] theorem freeEv_keeps (dest : Origin) (n : Nat) (e : Ev) : Keeps (freeEv dest n e) := by simp [freeEv]

theorem freeRec_heap (rr : ReplyRec) :
    Triple (rr.blocks i a) (freeMsg (.replyMsg i a rr) rr.msg ++ [.free (.replyRec i a rr)]) 0 :=
  freeMsg_heap.gives.append .free

theorem stop_heap (hbatch : m.batch = []) : Triple (m.blocks i) (m.stopHeap i) 0 := by
  have hfibers : Triple (fiberBlocks i m.fibers m.fiber) (m.fibers.flatMap fun a =>
      (m.fiber a).rq.flatMap (fun rr => freeMsg (.replyMsg i a rr) rr.msg ++ [.free (.replyRec i a rr)]) ++
        (m.fiber a).freeHeap i a) 0 := Triple.flatMap_nothing fun a _ => by
    have hqueue : Triple ((m.fiber a).rq.map (ReplyRec.blocks i a)).sum ((m.fiber a).rq.flatMap fun rr =>
        freeMsg (.replyMsg i a rr) rr.msg ++ [.free (.replyRec i a rr)]) 0 :=
      Triple.flatMap_nothing fun rr _ => freeRec_heap rr
    exact hqueue.gives.append (freeFiber_heap _)
  have hpending : Triple (pendingBlocks i m.pending) (m.pending.map fun p => .free (.pending i p)) 0 := by
    rw [List.map_eq_flatMap]
    exact Triple.flatMap_nothing fun p _ => .free
  have hclients : Triple (clientBlocks i m.notifyClients) (m.notifyClients.map fun nc => .free (.notifyClient i nc))
      0 := by
    rw [List.map_eq_flatMap]
    exact Triple.flatMap_nothing fun nc _ => .free
  have hevents : ∀ l, Triple (eventBlocks i l) (l.flatMap fun e => freeEv (.module i) e.serial e) 0 := fun l =>
    Triple.flatMap_nothing fun e _ => freeEv_heap _ e
  have hblocks : m.blocks i = fiberBlocks i m.fibers m.fiber + pendingBlocks i m.pending +
      clientBlocks i m.notifyClients + eventBlocks i m.inbox + eventBlocks i m.deferred := by
    rw [Module.blocks, eventBlocks_queue, hbatch, show eventBlocks i [] = 0 from rfl]
    abel
  rw [hblocks]
  exact (((hfibers.gives_both hpending).gives_both hclients).gives_both (hevents _)).gives_both (hevents _)

/-- Everything that the stopped modules own is freed. -/
theorem stop_all_heap (hbatch : ∀ i < n, (s.module i).batch = []) (hhands : ∀ i < n, g.hand i = none) :
    Triple (s.owned n g.hand) (s.stopHeap n) (msgBlock .extMsg s.ctx.extMsg + bufBlocks s.threads) := by
  have hnone : handBlocks n g.hand = 0 := List.sum_eq_zero fun x hx => by
    obtain ⟨i, hi, rfl⟩ := List.mem_map.mp hx
    rw [hhands i (List.mem_range.mp hi)]
    rfl
  have hmodules : Triple ((List.range n).map fun j => (s.ctx.modules j).blocks j).sum (s.stopHeap n) 0 :=
    Triple.flatMap_nothing fun i hi => stop_heap (hbatch i (List.mem_range.mp hi))
  have hpre : s.owned n g.hand = msgBlock .extMsg s.ctx.extMsg + bufBlocks s.threads +
      ((List.range n).map fun j => (s.ctx.modules j).blocks j).sum := by
    rw [Sys.owned, Ctx.blocks, hnone]
    abel
  rw [hpre]
  exact hmodules.gives

/-- `stop_modules` loses nothing. -/
theorem stop_keeps (n : Nat) : Keeps (s.stopHeap n) := by
  refine keeps_flatMap fun i _ => ?_
  have hfree : ∀ {α : Type} (l : List α) (name : α → Block), Keeps (l.map fun x => HeapLog.Op.free (name x)) := by
    intro α l name b hb
    obtain ⟨x, -, hx⟩ := List.mem_map.mp hb
    cases hx
  have hevents : ∀ l : List Ev, Keeps (l.flatMap fun e => freeEv (.module i) e.serial e) := fun l =>
    keeps_flatMap fun e _ => freeEv_keeps _ _ e
  unfold Module.stopHeap
  simp only [HeapLog.keeps_append]
  refine ⟨⟨⟨⟨keeps_flatMap fun a _ => ?_, hfree _ _⟩, hfree _ _⟩, hevents _⟩, hevents _⟩
  refine HeapLog.keeps_append.mpr ⟨keeps_flatMap fun rr _ => by simp, by simp [Fiber.freeHeap]⟩

end Stop

theorem end_balance {ok : Sys → LifeAct → Prop} {tbl : List Reg} {p : Sys × HeapNotes} (hrun : HeapRun ok tbl p)
    (hjoined : ∀ i < tbl.length, (p.1.module i).phase = .stopped) :
    Triple 0 (p.2.log ++ p.1.stopHeap tbl.length) (msgBlock .extMsg p.1.ctx.extMsg + bufBlocks p.1.threads) := by
  obtain ⟨hlog, hbusy⟩ := balance hrun
  have hidle := fun i hi => stopped_idle hrun.unwatch i (hjoined i hi)
  exact hlog.append (stop_all_heap (fun i hi => (hidle i hi).2) fun i hi => hbusy i (hidle i hi).1)

/-- A `getcontext` fails and the `src_buf` of the fiber is lost. Then `_teardown` finds a parked sequence, an event that
nobody has looked at and a reply that nobody has taken. -/
def cutRun : List LifeAct :=
  [.act (.requestAsync 0 0 0 [4]), .act (.asyncPost 0 .granted), .act (.thread 0), .act (.thread 0), .act (.thread 0),
    .act (.sched 0 fun site => site != .context), .act (.thread 0), .act (.thread 0),
    .act (.requestSync 0 0 0 [7] .granted), .act (.thread 0), .act (.thread 0), .act (.thread 0), .act (.thread 0),
    .act (.fiber 0 (.requestAsync 1 0 [8])), .act (.fiber 0 (.reply .success [6])), .act (.fiber 0 .waitReply),
    .teardown, .act (.stop 0), .act (.stop 1), .act (.thread 1), .act (.thread 0), .act (.thread 0)]

/-- A sequence returns with all its replies taken, and no `getcontext` fails. -/
def Tidy (m : Module) : ModAct → Prop
  | .call .ret _ _ _ => ∀ a ∈ m.current, (m.fiber a).rq = [] ∧ ∀ p ∈ m.pending, p.f ≠ a
  | .sched _ ok => ok .context = true
  | _ => True

instance (m : Module) (act : ModAct) : Decidable (Tidy m act) :=
  match act with
  | .call .ret .. => inferInstanceAs (Decidable (∀ a ∈ m.current, (m.fiber a).rq = [] ∧ ∀ p ∈ m.pending, p.f ≠ a))
  | .sched _ ok => inferInstanceAs (Decidable (ok .context = true))
  | .stop | .call (.request ..) .. | .call (.requestTimeout ..) .. | .call (.requestAsync ..) ..
  | .call (.send ..) .. | .call .waitReply .. | .call .gather .. | .call .gatherNext .. | .call (.reply ..) ..
  | .call (.waitTimeout ..) .. | .call (.regNotify ..) .. | .call (.unregNotify ..) .. | .call (.notify ..) ..
  | .call .notifyNext .. | .call .lock .. | .call .unlock .. => .isTrue trivial

/-- Finished fibers have no queued replies, and no pending entry names one. -/
structure Settled (m : Module) : Prop where
  modes : Modes m
  refs : LiveRefs m
  taken : ∀ a, (m.fiber a).done = true → (m.fiber a).rq = []

namespace Settled

variable {m m' : Module}

theorem returns_clear {act : ModAct} (h : Tidy m act) : ReturnsClear m act := by
  unfold ReturnsClear
  split
  · exact fun a ha => (h a ha).2
  · trivial

theorem update (h : Settled m) {a : FiberRef} {f : Fiber} (hf : f.done = true → f.rq = []) (c : FiberRef)
    (hdone : (Function.update m.fiber a f c).done = true) : (Function.update m.fiber a f c).rq = [] := by
  by_cases hc : c = a
  · subst hc
    rw [Function.update_self] at hdone ⊢
    exact hf hdone
  · rw [Function.update_of_ne hc] at hdone ⊢
    exact h.taken c hdone

theorem move {act : ModAct} {eff : Effect} (h : Settled m) (hok : Tidy m act) (hmove : Move m act eff m') :
    Settled m' := by
  refine ⟨h.modes.move hmove, h.refs.move h.modes (returns_clear hok) hmove, ?_⟩
  cases hmove with
  | @fire now t ok a => exact h.update (f := (m.fiber a).wake) fun hdone => h.taken a hdone
  | @expire now t ok a => exact h.update (f := ((m.fiber a).timedOut ok).wake) fun hdone => h.taken a hdone
  | @begin now ok e => exact h.update fun hdone => absurd hdone (by rw [Ev.fiber_done]; simp)
  | @wake now ok e rest a => exact h.update (f := ((m.fiber a).answered e ok).wake) fun hdone => h.taken a hdone
  | @queue now ok e rest a hcur hhead hadmits htype hpeek =>
      -- the fiber of a pending entry has not finished
      have hlive := (h.refs.pending _ (mem_of_peek hpeek)).2
      exact h.update fun hdone => absurd (hlive.symm.trans hdone) (by simp)
  | @issue now id ok a c kind i seq msg hcur =>
      obtain ⟨-, hlive, hidle, -⟩ := h.modes.running a hcur
      have hsame := (Fiber.issued_turn kind m.reqId a hidle).1
      exact h.update fun hdone => absurd (hlive.symm.trans (hsame.symm.trans hdone)) (by simp)
  | @«local» now id ok a c f ncs obs cur eff hcur hcall =>
      obtain ⟨-, hlive, hidle, -⟩ := h.modes.running a hcur
      have hsame := (hcall.turn hidle).1
      exact h.update fun hdone => absurd (hlive.symm.trans (hsame.symm.trans hdone)) (by simp)
  | @ret now id ok a hcur => exact h.update (f := { m.fiber a with done := true }) fun _ => (hok a hcur).1
  | _ => exact h.taken

theorem boot (i : Nat) (reg : Reg) : Settled (Module.boot i reg) :=
  ⟨Modes.boot i reg, LiveRefs.boot i reg, fun _ _ => rfl⟩

theorem enqueue (h : Settled m) (e : Ev) : Settled (m.enqueue e) :=
  ⟨h.modes.enqueue e, ⟨h.refs.pending, h.refs.defined⟩, h.taken⟩

end Settled

/-- Every step of an instance that makes one of a module makes a tidy one. -/
def TidyLife (s : Sys) : LifeAct → Prop
  | .act b => EveryModule Tidy s b
  | .teardown => True

instance (s : Sys) (a : LifeAct) : Decidable (TidyLife s a) :=
  match a with
  | .act b => inferInstanceAs (Decidable (EveryModule Tidy s b))
  | .teardown => .isTrue trivial

theorem settled {tbl : List Reg} {s : Sys} (hrun : Lives TidyLife tbl s) (j : Nat) : Settled (s.module j) :=
  life_invariant (G := Tidy) hrun (fun _ _ h => h) Settled.boot (fun _ _ _ _ h hok hmove => h.move hok hmove)
    (fun _ e h => h.enqueue e) j

section Keeps

variable {i : Nat} {a : FiberRef} {m m' : Module} {ok : Alloc} {b : Block} {msg : Bytes} {s s' : Sys} {g : HeapNotes}

@[simp] theorem allocMsg_keeps : Keeps (allocMsg b msg) := by
  unfold allocMsg
  split <;> simp

@[simp] theorem makeEv_keeps (dest : Origin) (n : Nat) (e : Option Ev) : Keeps (makeEvHeap dest n e) := by
  cases e <;> simp [makeEvHeap]

@[simp] theorem setSrc_keeps (f : Fiber) : Keeps (setSrcHeap i a f msg ok) := by
  unfold setSrcHeap
  split <;> simp

@[simp] theorem pendingTake_keeps (l : List Pending) (r : Nat) : Keeps (pendingTakeHeap i l r) := by
  unfold pendingTakeHeap
  split <;> simp

theorem handleReply_keeps (e : Ev) : Keeps (handleReplyHeap i m e ok) := by
  unfold handleReplyHeap
  split
  · simp
  · refine HeapLog.keeps_append.mpr ⟨pendingTake_keeps _ _, ?_⟩
    dsimp only
    split
    · simp
    · split
      · simp
      · split <;> simp

theorem newFiber_keeps (hctx : ok .context = true) : Keeps (newFiberHeap i m msg ok) := by
  unfold newFiberHeap
  dsimp only
  split
  · split <;> simp
  · simp

theorem reapDone_keeps (h : Settled m) : Keeps (reapDoneHeap i m) := by
  refine keeps_flatMap fun a _ => ?_
  split
  · rename_i hdone
    rw [h.taken a hdone]
    simp [Fiber.freeHeap]
  · simp

theorem sched_keeps (h : Settled m) (hctx : ok .context = true) : Keeps (schedHeap i m ok) := by
  have hstart : ∀ e, Keeps (startSeqHeap i m e ok) := fun e => by
    unfold startSeqHeap
    split
    · simp
    · exact newFiber_keeps hctx
  have hnotify : ∀ e, Keeps (startNotifyHeap i m e ok) := fun e => by
    unfold startNotifyHeap
    split
    · exact newFiber_keeps hctx
    · simp
  have htimer : ∀ t a, Keeps (timerTurnHeap i m t a ok) := fun t a => by
    unfold timerTurnHeap
    dsimp only
    split
    · split
      · split <;> simp
      · simp
    · simp
  have hdispatch : ∀ e, Keeps (dispatchHeap i m e ok) := fun e => by
    unfold dispatchHeap
    split
    · split
      · exact handleReply_keeps e
      · simp
    · split
      · exact hstart e
      · exact handleReply_keeps e
      · exact hnotify e
  unfold schedHeap
  split
  · exact htimer _ _
  · split
    · exact reapDone_keeps h
    · exact hdispatch _
  · simp

theorem waitReply_keeps (f : Fiber) : Keeps (waitReplyHeap i a f ok) := by
  unfold waitReplyHeap
  split <;> simp

theorem call_keeps (c : Call) (next : Nat) : Keeps (callHeap i m a c next ok) := by
  have hpending : Keeps (pendingAddHeap i m.reqId a ok) := by
    unfold pendingAddHeap
    split <;> simp
  cases c with
  | request => exact hpending
  | requestTimeout => exact hpending
  | requestAsync => exact hpending
  | waitReply => exact waitReply_keeps _
  | gather => exact waitReply_keeps _
  | gatherNext => exact waitReply_keeps _
  | regNotify category =>
      change Keeps (regNotifyHeap i (m.fiber a) category next ok)
      unfold regNotifyHeap
      split
      · simp
      · split <;> simp
  | unregNotify category clientId =>
      change Keeps (unregNotifyHeap i m category clientId)
      unfold unregNotifyHeap
      split <;> simp
  | notifyNext =>
      unfold callHeap
      dsimp only
      split
      · split
        · split <;> simp
        · simp
      · simp
  | _ => exact HeapLog.keeps_nil

theorem post_keeps (c : Ctx) (d : Nat) (e : Option Ev) : Keeps (c.postHeap d e) := by
  unfold Ctx.postHeap
  refine HeapLog.keeps_append.mpr ⟨makeEv_keeps _ _ _, ?_⟩
  split
  · simp
  · split <;> simp

theorem effect_keeps (c : Ctx) (eff : Effect) : Keeps (c.effectHeap ok eff) := by
  cases eff with
  | post d e => exact post_keeps c d e
  | extDeliver r result msg =>
      change Keeps (c.extDeliverHeap r msg ok)
      unfold Ctx.extDeliverHeap
      split <;> simp
  | _ => exact HeapLog.keeps_nil

theorem freeHand_keeps : Keeps (g.freeHand i) := by
  unfold HeapNotes.freeHand
  split <;> simp

/-- A tidy step adds nothing to the log that is lost. -/
theorem note_keeps {act : LifeAct} (hsettled : ∀ j, Settled (s.module j)) (hok : TidyLife s act)
    (hlog : Keeps g.log) : Keeps (HeapNotes.noteLife s act s' g).log := by
  cases act with
  | teardown => exact hlog
  | act b =>
      change Keeps (HeapNotes.note s b s' g).log
      cases b with
      | tick now => exact hlog
      | stop i => exact hlog
      | requestAsync t d seq msg => exact hlog
      | sched i ok =>
          have hturn : Keeps (schedHeap i (s.module i) ok) := sched_keeps (hsettled i) (hok i _ (if_pos rfl))
          unfold HeapNotes.note HeapNotes.sched
          dsimp only
          split
          · simp [hlog, hturn]
          · split <;> simp [hlog, hturn]
      | call i c ok =>
          unfold HeapNotes.note
          dsimp only
          split
          · exact hlog
          · have hops : ∀ a, Keeps (callHeap i (s.module i) a c s.ctx.nextClientId ok) := fun a => call_keeps c _
            unfold HeapNotes.call
            split
            · split <;> simp [hlog, hops, freeHand_keeps, effect_keeps]
            · split <;> simp [hlog, hops, effect_keeps]
      | requestSync t d seq msg ok => exact HeapLog.keeps_append.mpr ⟨hlog, post_keeps _ _ _⟩
      | wakeup t ok =>
          unfold HeapNotes.note
          dsimp only
          split
          · split
            · refine HeapLog.keeps_append.mpr ⟨hlog, ?_⟩
              unfold syncReturnHeap
              split <;> simp
            · exact hlog
          · exact hlog
      | asyncPost t ok =>
          unfold HeapNotes.note
          dsimp only
          split
          · exact HeapLog.keeps_append.mpr ⟨hlog, post_keeps _ _ _⟩
          · exact hlog

end Keeps

theorem log_keeps {tbl : List Reg} {p : Sys × HeapNotes} (hrun : HeapRun TidyLife tbl p) : Keeps p.2.log := by
  refine hrun.invariant (P := fun p => Keeps p.2.log) HeapLog.keeps_nil ?_
  intro p a p' hr hlog hok hstep
  obtain ⟨-, hg'⟩ := Lts.watch_eq hstep
  rw [hg']
  exact note_keeps (settled hr.unwatch) hok hlog

/-- When no sequence returns before its replies and no `getcontext` fails, every block of the instance is freed as
often as it has been allocated, once `stop_modules` is done. -/
theorem nothing_leaks {tbl : List Reg} {p : Sys × HeapNotes} (hrun : HeapRun TidyLife tbl p)
    (hjoined : ∀ i < tbl.length, (p.1.module i).phase = .stopped) (b : Block) (hmsg : b ≠ .extMsg)
    (hbuf : ∀ t, b ≠ .syncBuf t) :
    (p.2.log ++ p.1.stopHeap tbl.length).count (.alloc b) = (p.2.log ++ p.1.stopHeap tbl.length).count (.free b) := by
  have hkeeps : Keeps (p.2.log ++ p.1.stopHeap tbl.length) :=
    HeapLog.keeps_append.mpr ⟨log_keeps hrun, stop_keeps _⟩
  refine hkeeps.balanced (end_balance hrun hjoined) ?_
  have hleft : msgBlock .extMsg p.1.ctx.extMsg b = 0 := by
    unfold msgBlock
    split
    · rfl
    · exact HeapLog.one_of_ne hmsg
  rw [Pi.add_apply, hleft, Nat.zero_add]
  cases b with
  | syncBuf t => exact absurd rfl (hbuf t)
  | _ => rfl

/-- A request from outside, an asynchronous one to the other module, both replies, and the end. -/
def wholeLife : List LifeAct :=
  [.act (.requestSync 0 0 0 [7] .granted), .act (.thread 0), .act (.thread 0), .act (.thread 0), .act (.thread 0),
    .act (.fiber 0 (.requestAsync 1 0 [8])), .act (.fiber 0 .waitReply), .act (.thread 1), .act (.thread 1),
    .act (.thread 1), .act (.thread 1), .act (.fiber 1 (.reply .success [9])), .act (.fiber 1 .ret), .act (.thread 1),
    .act (.thread 1), .act (.thread 0), .act (.thread 0), .act (.thread 0), .act (.thread 0), .act (.thread 0),
    .act (.thread 0), .act (.fiber 0 (.reply .success [5])), .act (.wakeup 0 .granted), .act (.fiber 0 .ret),
    .teardown, .act (.stop 0), .act (.stop 1), .act (.thread 0), .act (.thread 0), .act (.thread 1)]

theorem wholeLife_leaks : ∃ p, HeapRun TidyLife [⟨1, false⟩, ⟨1, false⟩] p ∧ p.2.log.length = 29 ∧
    (p.2.log ++ p.1.stopHeap 2).count (.alloc (.fiber 0 0)) =
      (p.2.log ++ p.1.stopHeap 2).count (.free (.fiber 0 0)) := by
  obtain ⟨p, hrun, hp⟩ : ∃ p, HeapRun TidyLife [⟨1, false⟩, ⟨1, false⟩] p ∧
      decide ((∀ i ∈ List.range 2, (p.1.module i).phase = .stopped) ∧ p.2.log.length = 29) = true :=
    Lts.exists_run wholeLife (by decide +kernel)
  obtain ⟨hjoined, hp⟩ := of_decide_eq_true hp
  have hall : ∀ i < 2, (p.1.module i).phase = .stopped := fun i hi => hjoined i (List.mem_range.mpr hi)
  exact ⟨p, hrun, hp, nothing_leaks hrun hall _ (by decide) fun t => by simp⟩

end Coseq
