import Coseq.RequestOrigin
import Coseq.Standstill

/-! Calls in an order. Where every request goes down in an order of the sequences, below everything that may hold
the lock of the module it goes to, no standstill leaves a fiber unfinished: nothing deadlocks. -/

namespace Coseq

/-- A request goes to a sequence of lower rank, in a module whose lock is held at a lower rank only; a lock is
taken up to its limit. Requests with a timeout and requests without an answer go anywhere. -/
def Descends (rank : Nat → Fn → Nat) (limit : Nat → Nat) (s : Sys) : Act → Prop
  | .call i (.request j q _) _ | .call i (.requestAsync j q _) _ =>
      ∀ a ∈ (s.module i).current, max (rank j (.seq q)) (limit j) < rank i ((s.module i).fiber a).fn
  | .call i .lock _ => ∀ a ∈ (s.module i).current, rank i ((s.module i).fiber a).fn ≤ limit i
  | _ => True

instance (rank : Nat → Fn → Nat) (limit : Nat → Nat) (s : Sys) (a : Act) : Decidable (Descends rank limit s a) :=
  match a with
  | .call i (.request j q _) _ | .call i (.requestAsync j q _) _ =>
      inferInstanceAs (Decidable (∀ a ∈ (s.module i).current,
        max (rank j (.seq q)) (limit j) < rank i ((s.module i).fiber a).fn))
  | .call i .lock _ =>
      inferInstanceAs (Decidable (∀ a ∈ (s.module i).current, rank i ((s.module i).fiber a).fn ≤ limit i))
  | .tick .. | .sched .. | .stop .. | .requestSync .. | .wakeup .. | .requestAsync .. | .asyncPost ..
  | .call _ (.requestTimeout ..) _ | .call _ (.send ..) _ | .call _ .waitReply _ | .call _ .gather _
  | .call _ .gatherNext _ | .call _ (.reply ..) _ | .call _ (.waitTimeout ..) _ | .call _ (.regNotify ..) _
  | .call _ (.unregNotify ..) _ | .call _ (.notify ..) _ | .call _ .notifyNext _ | .call _ .unlock _
  | .call _ .ret _ => .isTrue trivial

/-- Nothing runs out, every sequence replies once and collects its replies, no lock is taken from a fiber whose reply
waits, and calls go down. -/
def Orderly (rank : Nat → Fn → Nat) (limit : Nat → Nat) (s : Sys) (a : Act) : Prop :=
  Collecting s a ∧ EveryModule LocksClear s a ∧ Descends rank limit s a

instance (rank : Nat → Fn → Nat) (limit : Nat → Nat) (s : Sys) (a : Act) : Decidable (Orderly rank limit s a) :=
  inferInstanceAs (Decidable (_ ∧ _))

/-- A request of this kind stops its fiber until it is answered. -/
def ReqKind.endless : ReqKind → Bool
  | .request | .async => true
  | _ => false

/-- What the history and the lock of each module keep of the order. -/
structure Descended (rank : Nat → Fn → Nat) (limit : Nat → Nat) (s : Sys) : Prop where
  issued : ∀ i a kind r j q, .issued a kind r j q ∈ (s.module i).trace → a < (s.module i).nextFiber ∧
    (kind.endless = true → max (rank j (.seq q)) (limit j) < rank i ((s.module i).fiber a).fn)
  locked : ∀ i b, (s.module i).lockedBy = some b → rank i ((s.module i).fiber b).fn ≤ limit i

section Step

variable {rank : Nat → Fn → Nat} {limit : Nat → Nat} {s s' : Sys} {act : Act}

/-- A lock is held by whom it was held, or the running fiber takes it. -/
theorem Move.lock_cases {m m' : Module} {act : ModAct} {eff : Effect} (hmove : Move m act eff m') {b : FiberRef}
    (hlock : m'.lockedBy = some b) :
    m.lockedBy = some b ∨ ∃ now id ok, act = .call .lock now id ok ∧ m.current = some b := by
  cases hmove with
  | reap => exact .inl (Option.filter_eq_some_iff.mp hlock).1
  | lock hcur =>
      obtain rfl := Option.some.inj hlock
      exact .inr ⟨_, _, _, rfl, hcur⟩
  | unlock =>
      dsimp only at hlock
      split at hlock
      · cases hlock
      · exact .inl hlock
  | _ => exact .inl hlock

theorem Move.nextFiber_le {m m' : Module} {act : ModAct} {eff : Effect} (hmove : Move m act eff m') :
    m.nextFiber ≤ m'.nextFiber := by
  cases hmove with
  | begin => exact Nat.le_succ m.nextFiber
  | _ => exact le_rfl

/-- What the order says of the calls a step makes in a module. -/
theorem Descends.issue (h : Descends rank limit s act) {i : Nat} {c : Call} {now : Timespec} {id : Nat} {ok : Alloc}
    {kind : ReqKind} {j q : Nat} {msg : Bytes} {a : FiberRef} (hact : s.localAct i act = some (.call c now id ok))
    (hissue : Issues now c kind j q msg) (hcur : (s.module i).current = some a) (hkind : kind.endless = true) :
    max (rank j (.seq q)) (limit j) < rank i ((s.module i).fiber a).fn := by
  obtain rfl := localAct_call hact
  cases hissue with
  | request => exact h a hcur
  | requestAsync => exact h a hcur
  | requestTimeout => cases hkind
  | send => cases hkind

theorem Descended.step (h : Descended rank limit s) (hok : Descends rank limit s act)
    (hmodes : ∀ i, Modes (s.module i)) (hstep : s.step act = some s') : Descended rank limit s' := by
  have hfields : ∀ i, ∃ m₁, Sys.Moved s act i m₁ ∧ (s'.module i).nextFiber = m₁.nextFiber ∧
      (s'.module i).fiber = m₁.fiber ∧ (s'.module i).lockedBy = m₁.lockedBy ∧
      ∀ a kind r j q, .issued a kind r j q ∈ (s'.module i).trace → .issued a kind r j q ∈ m₁.trace := by
    intro i
    obtain ⟨m₁, hm₁, hs'⟩ := Sys.step_moved hstep i
    refine ⟨m₁, hm₁, ?_⟩
    rcases hs' with heq | ⟨e, heq⟩
    · rw [heq]
      exact ⟨rfl, rfl, rfl, fun _ _ _ _ _ hx => hx⟩
    · rw [heq]
      refine ⟨rfl, rfl, rfl, fun _ _ _ _ _ hx => (List.mem_append.mp hx).resolve_right fun hx => ?_⟩
      cases List.mem_singleton.mp hx
  refine ⟨fun i a kind r j q hx => ?_, fun i b hlock => ?_⟩
  · obtain ⟨m₁, hm₁, hnext, hfiber, -, htrace⟩ := hfields i
    have hx := htrace a kind r j q hx
    rw [hnext, hfiber]
    cases hm₁ with
    | stay => exact h.issued i a kind r j q hx
    | move hact hmove =>
        have hgrow : (s.module i).nextFiber ≤ m₁.nextFiber := hmove.nextFiber_le
        rcases hmove.issued_cases hx with hold | ⟨c, now, id, ok, msg, rfl, hissue, hcur, -⟩
        · obtain ⟨hborn, hdown⟩ := h.issued i a kind r j q hold
          rw [(hmove.kin a hborn).fn]
          exact ⟨Nat.lt_of_lt_of_le hborn hgrow, hdown⟩
        · have hborn := (hmodes i).born a ((hmodes i).running a hcur).1
          rw [(hmove.kin a hborn).fn]
          exact ⟨Nat.lt_of_lt_of_le hborn hgrow, hok.issue hact hissue hcur⟩
  · obtain ⟨m₁, hm₁, -, hfiber, hlocked, -⟩ := hfields i
    rw [hlocked] at hlock
    rw [hfiber]
    cases hm₁ with
    | stay => exact h.locked i b hlock
    | move hact hmove =>
        rcases hmove.lock_cases hlock with hold | ⟨now, id, ok, rfl, hcur⟩
        · rw [(hmove.kin b ((hmodes i).born b ((hmodes i).holder b hold))).fn]
          exact h.locked i b hold
        · rw [(hmove.kin b ((hmodes i).born b ((hmodes i).running b hcur).1)).fn]
          obtain rfl := localAct_call hact
          exact hok b hcur

end Step

theorem descended {rank : Nat → Fn → Nat} {limit : Nat → Nat} {ok : Sys → Act → Prop} {tbl : List Reg} {s : Sys}
    (hrun : Reaches ok tbl s) (hok : ∀ s a, ok s a → Descends rank limit s a) : Descended rank limit s := by
  refine hrun.invariant (P := Descended rank limit)
    ⟨fun i a kind r j q hx => absurd hx List.not_mem_nil, fun i b hlock => by cases hlock⟩ ?_
  intro s a s' hreach h hs hstep
  exact h.step (hok s a hs) (modes hreach) hstep

/-! ### Why no wait goes in a circle -/

/-- The height of a fiber: twice its rank while it holds the lock, and above the lock's limit while it does not. -/
def Sys.height (rank : Nat → Fn → Nat) (limit : Nat → Nat) (s : Sys) (x : Nat × FiberRef) : Nat :=
  if (s.module x.1).lockedBy = some x.2 then 2 * rank x.1 ((s.module x.1).fiber x.2).fn
  else 2 * max (rank x.1 ((s.module x.1).fiber x.2).fn) (limit x.1) + 1

section Height

variable {rank : Nat → Fn → Nat} {limit : Nat → Nat} {s : Sys} {i j : Nat} {a b : FiberRef}

theorem rank_le_height : 2 * rank i ((s.module i).fiber a).fn ≤ s.height rank limit (i, a) := by
  unfold Sys.height
  dsimp only
  split
  · exact le_rfl
  · omega

theorem height_le : s.height rank limit (i, a) ≤ 2 * max (rank i ((s.module i).fiber a).fn) (limit i) + 1 := by
  unfold Sys.height
  dsimp only
  split
  · omega
  · exact le_rfl

/-- The holder of a lock is below every other fiber of its module. -/
theorem holder_below (h : Descended rank limit s) (hlock : (s.module i).lockedBy = some b) (hne : b ≠ a) :
    s.height rank limit (i, b) < s.height rank limit (i, a) := by
  have hother : (s.module i).lockedBy ≠ some a := by
    rw [hlock]
    exact fun heq => hne (Option.some.inj heq)
  have hlimit := h.locked i b hlock
  unfold Sys.height
  dsimp only
  rw [if_pos hlock, if_neg hother]
  omega

/-- A request that a fiber awaits without a deadline was made without one. -/
theorem Module.Awaits.issued {m : Module} {r : Nat} (h : m.Awaits a r) (hledger : Ledger m) (ha : a ∈ m.fibers) :
    ∃ kind, kind.endless = true ∧ Issued a kind r m.trace := by
  have hentry : (r, a) ∈ m.books.entries := List.mem_map.mpr ⟨_, h.pending, rfl⟩
  rcases hledger.balanced.entry r a hentry with hdue | ⟨d, hd⟩
  · obtain ⟨kind, hkind, hissued⟩ := issued_books.mp hdue
    refine ⟨kind, ?_, hissued⟩
    cases kind with
    | async => rfl
    | request => rfl
    | timed => cases hkind
    | send => cases hkind
  · obtain ⟨kind, hkind, hissued⟩ := issued_books.mp (hledger.balanced.stopped a d r hd)
    refine ⟨kind, ?_, hissued⟩
    have hstopped : (m.fiber a).stopped = some (d, r) := hd
    have hreply : (m.fiber a).waitingReply = true := by
      by_contra hno
      rw [stopped_of_not_reply (Bool.eq_false_iff.mpr hno)] at hstopped
      cases hstopped
    cases hledger.modes.parked_waits ha (.inl hreply) with
    | request hctx =>
        have hnone : some (none, (m.fiber a).waitReqId) = some (d, r) := by
          rw [← hstopped]
          simp [Fiber.stopped, hreply, hctx]
        obtain ⟨rfl, -⟩ := Prod.mk.inj (Option.some.inj hnone)
        cases kind with
        | request => rfl
        | async => rfl
        | timed => cases hkind
        | send => cases hkind
    | timed _ _ _ htimer =>
        rw [h.endless] at htimer
        cases htimer
    | waitReply _ hno =>
        rw [hreply] at hno
        cases hno
    | waitTimeout _ hno =>
        rw [hreply] at hno
        cases hno

/-- The fiber or the START that a request awaited in module `i` has led to is below the fiber that awaits it. -/
theorem Descended.below {r q : Nat} (h : Descended rank limit s) (hledger : Ledger (s.module i))
    (ha : a ∈ (s.module i).fibers) (hwait : (s.module i).Awaits a r) (hreq : s.Requests i r j q) :
    max (rank j (.seq q)) (limit j) < rank i ((s.module i).fiber a).fn := by
  obtain ⟨kind, hkind, hissued⟩ := hwait.issued hledger ha
  obtain ⟨a', kind', hx⟩ := hreq
  obtain ⟨rfl, rfl⟩ := hledger.issued_unique hissued ⟨j, q, hx⟩
  exact (h.issued i _ _ r j q hx).2 hkind

end Height

section Order

variable {rank : Nat → Fn → Nat} {limit : Nat → Nat} {tbl : List Reg} {s : Sys}

theorem holderClear (hrun : Reaches (EveryModule LocksClear) tbl s) (j : Nat) : HolderClear (s.module j) :=
  module_invariant hrun (fun _ _ h => h) holderClear_boot (fun _ _ _ _ h hok hmove => h.move hok hmove)
    (fun _ _ h => ⟨h.distinct, h.clear⟩) j

/-- Every wait leads down. -/
theorem wait_descends (hrun : Reaches (Orderly rank limit) tbl s) {x y : Nat × FiberRef} (hx : x ∈ s.unfinished)
    (hy : y ∈ s.unfinished) (hwait : WaitsOn s x y) : s.height rank limit y < s.height rank limit x := by
  have hdown := descended hrun fun _ _ h => h.2.2
  have hledger : ∀ i, Ledger (s.module i) := ledger hrun fun _ _ h j act hact => (h.1.1.1 j act hact).1.1
  have hrequested := requested hrun
  have hclear := holderClear (hrun.mono fun _ _ h => h.2.1)
  cases hwait with
  | @answer i j r a b hwait howes =>
      unfold Module.owes at howes
      simp only [Bool.and_eq_true, Bool.not_eq_true', decide_eq_true_eq] at howes
      obtain ⟨⟨hdone, hto, hid⟩, -⟩ := howes
      obtain ⟨q, hfn, hreq⟩ := hrequested.fiber j b hy.2.1 hdone i hto
      rw [hid] at hreq
      have ha : a ∈ (s.module i).fibers := hx.2.1
      have hlt := hdown.below (hledger i) ha hwait hreq
      rw [← hfn] at hlt
      calc s.height rank limit (j, b)
          ≤ 2 * max (rank j ((s.module j).fiber b).fn) (limit j) + 1 := height_le
        _ < 2 * rank i ((s.module i).fiber a).fn := by omega
        _ ≤ s.height rank limit (i, a) := rank_le_height
  | @start i j r a b e hwait he hstart hlock =>
      obtain ⟨htype, hfrom, hid⟩ : e.type = .start ∧ e.requester = .module i ∧ e.reqId = r := by
        simpa [Ev.startsFor] using hstart
      have hqueue : e ∈ (s.module j).queue := by
        rw [Module.queue]
        exact List.mem_append_left _ (List.mem_append_left _ he)
      have hreq := hrequested.start j e hqueue htype i hfrom
      rw [hid] at hreq
      have ha : a ∈ (s.module i).fibers := hx.2.1
      have hlt := hdown.below (hledger i) ha hwait hreq
      have hlimit := hdown.locked j b hlock
      have hheight : s.height rank limit (j, b) = 2 * rank j ((s.module j).fiber b).fn := if_pos hlock
      calc s.height rank limit (j, b)
          = 2 * rank j ((s.module j).fiber b).fn := hheight
        _ < 2 * rank i ((s.module i).fiber a).fn := by omega
        _ ≤ s.height rank limit (i, a) := rank_le_height
  | @reply i r a b e hwait he hreply hlock =>
      obtain ⟨htype, hid⟩ : e.type = .reply ∧ e.reqId = r := by simpa [Ev.repliesTo] using hreply
      refine holder_below hdown hlock ?_
      rintro rfl
      refine (hclear i).clear b hlock e he htype ?_
      rw [hid]
      exact hwait.pending
  | timer _ hlock hne => exact holder_below hdown hlock hne

/-- No fiber is left unfinished in a standstill. -/
theorem ordered_unfinished (hrun : Reaches (Orderly rank limit) tbl s) (hstill : s.Standstill) : s.unfinished = ∅ :=
  (standstill_stuck (hrun.mono fun _ _ h => h.1) hstill).eq_empty_of_rank (s.height rank limit)
    fun _ hx _ hy hwait => wait_descends hrun hx hy hwait

/-- A standstill that leaves no fiber unfinished leaves nothing. -/
theorem standstill_clean (hrun : Reaches Collecting tbl s) (hstill : s.Standstill) (hempty : s.unfinished = ∅) :
    ∀ i < s.ctx.nrModule, (s.module i).fibers = [] ∧ (s.module i).pending = [] ∧ (s.module i).lockedBy = none ∧
      (s.module i).queue = [] := by
  have hfibers : ∀ i < s.ctx.nrModule, (s.module i).fibers = [] := by
    intro i hi
    refine List.eq_nil_iff_forall_not_mem.mpr fun a ha => ?_
    have hdone := ((modes hrun i).swept (hstill i hi).atWaitPoint).2 a ha
    exact Set.eq_empty_iff_forall_notMem.mp hempty (i, a) ⟨hi, ha, hdone⟩
  have hunlocked : ∀ i < s.ctx.nrModule, (s.module i).lockedBy = none := by
    intro i hi
    refine Option.eq_none_iff_forall_ne_some.mpr fun a hlock => ?_
    have hmem := (modes hrun i).holder a hlock
    rw [hfibers i hi] at hmem
    cases hmem
  have hqueue : ∀ i < s.ctx.nrModule, (s.module i).queue = [] := by
    intro i hi
    rw [(hstill i hi).queue (modes hrun i)]
    exact (rested hrun i none (hstill i hi).phase).2 (hunlocked i hi)
  have hcarriers : ∀ i r, s.carriers i r = 0 := fun i r => by
    refine Tally.total_eq_zero fun j hj => ?_
    simp [Module.carriers, hqueue j hj, hfibers j hj]
  refine fun i hi => ⟨hfibers i hi, ?_, hunlocked i hi, hqueue i hi⟩
  refine List.eq_nil_iff_forall_not_mem.mpr fun p hp => ?_
  have hone := (conserved (hrun.mono fun _ _ h => h.1)).carried i p.reqId ⟨p, hp, rfl⟩
  rw [hcarriers] at hone
  cases hone

/-- Where calls go down in an order nothing deadlocks: in every standstill all sequences have returned, no request is
open, no lock is held and no event is kept back. -/
theorem ordered_never_stuck (hrun : Reaches (Orderly rank limit) tbl s) (hstill : s.Standstill) :
    ∀ i < s.ctx.nrModule, (s.module i).fibers = [] ∧ (s.module i).pending = [] ∧ (s.module i).lockedBy = none ∧
      (s.module i).queue = [] :=
  standstill_clean (hrun.mono fun _ _ h => h.1) hstill (ordered_unfinished hrun hstill)

end Order

/-- A sequence of module 0 takes its lock and requests module 1; both reply and return. -/
def descentRun : List Act :=
  [.requestAsync 0 0 0 [], .asyncPost 0 .granted, .thread 0, .thread 0, .thread 0, .thread 0, .fiber 0 .lock,
    .fiber 0 (.request 1 0 []), .thread 0, .thread 0, .thread 1, .thread 1, .thread 1, .thread 1,
    .fiber 1 (.reply .success []), .fiber 1 .ret, .thread 1, .thread 1, .thread 0, .thread 0, .thread 0, .thread 0,
    .thread 0, .fiber 0 .unlock, .fiber 0 (.reply .success []), .fiber 0 .ret, .thread 0, .thread 0]

theorem descentRun_unstuck : ∃ s,
    Reaches (Orderly (fun i _ => if i = 0 then 1 else 0) (fun i => if i = 0 then 1 else 0))
      [⟨1, false⟩, ⟨1, false⟩] s ∧
    s.Standstill ∧ .locked 0 ∈ (s.module 0).trace ∧
    ∀ i < s.ctx.nrModule, (s.module i).fibers = [] ∧ (s.module i).pending = [] ∧ (s.module i).lockedBy = none ∧
      (s.module i).queue = [] := by
  obtain ⟨s, hrun, hs⟩ : ∃ s,
      Reaches (Orderly (fun i _ => if i = 0 then 1 else 0) (fun i => if i = 0 then 1 else 0))
        [⟨1, false⟩, ⟨1, false⟩] s ∧
      decide ((s.ctx.nrModule = 2 ∧
          ∀ i ∈ List.range 2, (s.module i).phase = .waiting none ∧ (s.module i).inbox = []) ∧
        .locked 0 ∈ (s.module 0).trace) = true :=
    Lts.exists_run descentRun (by decide +kernel)
  obtain ⟨⟨hnr, hasleep⟩, hlocked⟩ := of_decide_eq_true hs
  have hstill : s.Standstill := fun i hi => by
    have hmem : i ∈ List.range 2 := List.mem_range.mpr (hnr ▸ hi)
    exact ⟨(hasleep i hmem).1, (hasleep i hmem).2⟩
  exact ⟨s, hrun, hstill, hlocked, ordered_never_stuck hrun hstill⟩

end Coseq
