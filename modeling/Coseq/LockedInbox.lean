import Coseq.LockedModule
import Coseq.Standstill

/-! What the mutex and the condition variable of a module guarantee. Whatever the interleaving of the single
instructions, posts and critical sections are atomic: the queues go through states of the linked module, whose posts
and turns are single steps. And the thread never sleeps over an event or over `stop`. -/

namespace Coseq

open TailQueue (Addr Chain Denotes)

/-! ### A half-finished post and the scheduler write different nodes -/

section Link

variable {h : TailQueue.Heap Ev} {tail : Option Addr} {a x : Addr} {e : Ev} {l l' : LinkedModule} {i b d : List Addr}

theorem linkHeap_of_ne (hx : x ≠ a) (ht : tail ≠ some x) : linkHeap h tail a e x = h x := by
  unfold linkHeap
  split
  · rename_i t
    have hxt : x ≠ t := fun heq => ht (by rw [heq])
    rw [TailQueue.setNext_of_ne hxt, Function.update_of_ne hx]
  · exact Function.update_of_ne hx _ _

theorem linkHeap_update (v : Option (TailQueue.Node Ev)) (hx : x ≠ a) (ht : tail ≠ some x) :
    linkHeap (Function.update h x v) tail a e = Function.update (linkHeap h tail a e) x v := by
  unfold linkHeap
  dsimp only
  split
  · rename_i t
    have hxt : t ≠ x := fun heq => ht (by rw [heq])
    unfold TailQueue.Heap.setNext
    rw [Function.update_comm hx, Function.update_of_ne hxt, Function.update_comm hxt.symm]
  · exact Function.update_comm hx _ _ _

theorem linkHeap_setNext (p : Option Addr) (hx : x ≠ a) (ht : tail ≠ some x) :
    linkHeap (h.setNext x p) tail a e = (linkHeap h tail a e).setNext x p := by
  unfold TailQueue.Heap.setNext
  rw [linkHeap_update _ hx ht, linkHeap_of_ne hx ht]

theorem linkHeap_append {q : TailQueue.Ends} (hx : x ≠ a ∧ tail ≠ some x)
    (hq : ∀ t, q.tail = some t → t ≠ a ∧ tail ≠ some t) :
    TailQueue.append (linkHeap h tail a e) q x =
      (linkHeap (TailQueue.append h q x).1 tail a e, (TailQueue.append h q x).2) := by
  unfold TailQueue.append
  dsimp only
  cases ht : q.tail with
  | none =>
      dsimp only
      rw [linkHeap_setNext none hx.1 hx.2]
  | some t =>
      obtain ⟨hta, htt⟩ := hq t ht
      dsimp only
      rw [linkHeap_setNext _ hta htt, linkHeap_setNext _ hx.1 hx.2]

/-- The nodes that the scheduler has for itself are neither the new node nor the tail of the inbox. -/
theorem Layout.apart (h : Layout l i b d) (hx : x ∈ b ∨ x ∈ d) : x ≠ l.core.posted ∧ l.inbox.tail ≠ some x := by
  refine ⟨h.fresh (by rcases hx with hx | hx <;> simp [hx]), fun htail => ?_⟩
  obtain ⟨i', hi⟩ := h.inbox.eq_concat htail
  have hmem : x ∈ i := by simp [hi]
  exact hx.elim (fun hb => h.inbox_batch x hb hmem) fun hd => h.inbox_deferred x hd hmem

theorem linkNode_core {core : Module} (hposted : core.posted = l.core.posted) :
    { l.linkNode e with core := core } = { l with core := core }.linkNode e := by
  unfold LinkedModule.linkNode
  rw [hposted]

theorem linkNode_consume {core : Module} (hposted : core.posted = l.core.posted)
    (hx : x ≠ l.core.posted ∧ l.inbox.tail ≠ some x) :
    (l.linkNode e).consume x core = (l.consume x core).linkNode e := by
  unfold LinkedModule.linkNode LinkedModule.consume TailQueue.Heap.free
  dsimp only
  rw [hposted, linkHeap_update _ hx.1 hx.2]

theorem linkNode_deferEv (hx : x ≠ l.core.posted ∧ l.inbox.tail ≠ some x)
    (hq : ∀ t, l.deferred.tail = some t → t ≠ l.core.posted ∧ l.inbox.tail ≠ some t) :
    (l.linkNode e).deferEv x = (l.deferEv x).linkNode e := by
  unfold LinkedModule.linkNode LinkedModule.deferEv
  dsimp only
  rw [linkHeap_append hx hq]

theorem linkNode_dispatch {v : Ev} {ok : Alloc} (hx : x ≠ l.core.posted ∧ l.inbox.tail ≠ some x)
    (hq : ∀ t, l.deferred.tail = some t → t ≠ l.core.posted ∧ l.inbox.tail ≠ some t)
    (hposted : (l.dispatch x v ok).core.posted = l.core.posted) :
    (l.linkNode e).dispatch x v ok = (l.dispatch x v ok).linkNode e := by
  have hcore : (l.linkNode e).core = l.core := rfl
  unfold LinkedModule.dispatch at hposted ⊢
  rw [hcore]
  by_cases hlock : l.core.lockedBy ≠ none ∧ v.type ≠ .notify
  · rw [if_pos hlock] at hposted ⊢
    rw [if_pos hlock]
    by_cases hown : v.type = .reply ∧ pendingPeek l.core.pending v.reqId = l.core.lockedBy
    · rw [if_pos hown] at hposted ⊢
      rw [if_pos hown]
      exact linkNode_consume hposted hx
    · rw [if_neg hown, if_neg hown]
      exact linkNode_deferEv hx hq
  · rw [if_neg hlock] at hposted ⊢
    rw [if_neg hlock]
    cases htype : v.type with
    | start =>
        rw [htype] at hposted
        exact linkNode_consume hposted hx
    | reply =>
        rw [htype] at hposted
        exact linkNode_consume hposted hx
    | notify =>
        rw [htype] at hposted
        exact linkNode_consume hposted hx

theorem linkNode_sched (h : Layout l i b d) (hmodes : Modes (l.list i b d)) (now : Timespec) (ok : Alloc)
    (haway : l.runsAway (.sched now ok) = true) (hcur : l.core.current = none)
    (hstopped : l.core.phase ≠ .stopped) (hdefined : l.core.phase ≠ .undefined) :
    (l.linkNode e).sched now ok = (l.sched now ok).linkNode e := by
  have hposted : (l.sched now ok).core.posted = l.core.posted := by
    obtain ⟨i', b', d', -, hlist⟩ := h.sched now ok hmodes hcur hstopped hdefined
    have hmove : Move (l.list i b d) (.sched now ok) .none _ :=
      sched_move (show (l.list i b d).current = none from hcur) hstopped hdefined
    rw [← hlist] at hmove
    exact hmove.accepted.2
  have hcore : ∀ {l : LinkedModule}, (l.linkNode e).core = l.core := rfl
  unfold LinkedModule.sched at hposted ⊢
  rw [hcore]
  cases hphase : l.core.phase with
  | top => exact absurd haway (by simp [LinkedModule.runsAway, hphase])
  | waiting t => exact absurd haway (by simp [LinkedModule.runsAway, hphase])
  | events =>
      rw [hphase] at hposted
      have hevs' : (l.linkNode e).evs = l.evs := rfl
      dsimp only at hposted ⊢
      rw [hevs']
      cases hevs : l.evs with
      | none =>
          have hsame : ({ reapDone l.core with phase := .top } : Module).posted = l.core.posted := rfl
          dsimp only
          rw [← hevs]
          exact linkNode_core hsame
      | some a =>
          obtain ⟨n, rest, rfl, hn, -⟩ := h.pop hevs
          have hapart := h.apart (x := a) (.inl List.mem_cons_self)
          have hnode : (l.linkNode e).heap a = l.heap a := linkHeap_of_ne hapart.1 hapart.2
          rw [hevs] at hposted
          dsimp only at hposted ⊢
          rw [hn] at hposted
          rw [hnode, hn]
          refine linkNode_dispatch (l := { l with evs := n.next }) hapart (fun t ht => ?_) hposted
          obtain ⟨d', rfl⟩ := h.deferred.eq_concat ht
          exact h.apart (.inr (by simp))
  | clock =>
      rw [hphase] at hposted
      exact linkNode_core hposted
  | timers t rest =>
      rw [hphase] at hposted
      exact linkNode_core hposted
  | stopped => exact absurd hphase hstopped
  | undefined => exact absurd hphase hdefined

/-- Code between the critical sections and a half-finished post do not disturb each other. -/
theorem linkNode_act (h : Layout l i b d) (hmodes : Modes (l.list i b d)) {c : ModAct} (haway : l.runsAway c = true) :
    (l.linkNode e).act c = (l.act c).map fun r => (r.1.linkNode e, r.2) := by
  cases c with
  | stop => cases haway
  | sched now ok =>
      have hcore : (l.linkNode e).core = l.core := rfl
      unfold LinkedModule.act
      dsimp only
      rw [hcore]
      by_cases hblocked : l.core.current.isSome ∨ l.core.phase = .stopped ∨ l.core.phase = .undefined
      · rw [if_pos hblocked, if_pos hblocked]
        rfl
      · rw [if_neg hblocked, if_neg hblocked]
        simp only [not_or, Bool.not_eq_true, Option.isSome_eq_false_iff, Option.isNone_iff_eq_none] at hblocked
        rw [linkNode_sched h hmodes now ok haway hblocked.1 hblocked.2.1 hblocked.2.2]
        rfl
  | call c now id ok =>
      unfold LinkedModule.act
      dsimp only
      rw [Option.map_map]
      refine Option.map_congr fun r hr => ?_
      have hposted : r.1.posted = l.core.posted :=
        (Module.step_move (show l.core.step _ = some (r.1, r.2) from hr)).accepted.2
      exact congrArg (·, r.2) (linkNode_core hposted)

/-- The two writes of `post` are one append. -/
theorem linkNode_advance (l : LinkedModule) (e : Ev) : (l.linkNode e).advanceTail e = l.post e := by
  have hnew : ∀ (h : TailQueue.Heap Ev) (a : Addr) (v : Ev),
      TailQueue.Heap.setNext (Function.update h a (some ⟨v, none⟩)) a none =
        Function.update h a (some ⟨v, none⟩) := fun h a v => by
    unfold TailQueue.Heap.setNext
    rw [Function.update_self, Function.update_idem]
    rfl
  unfold LinkedModule.advanceTail LinkedModule.linkNode LinkedModule.post linkHeap TailQueue.append
  dsimp only
  rw [hnew]
  cases l.inbox.tail <;> rfl

end Link

/-! ### What holds at each point -/

/-- The states of the linked module that posts and turns lead to when each is a single step. -/
def LinkedModule.Atomic (idx : Nat) (reg : Reg) (l : LinkedModule) : Prop :=
  Lts.Run LinkedModule.step (fun _ _ => True) (LinkedModule.boot idx reg) l

/-- The turn that the thread has begun ends in `l'`. -/
def LinkedModule.Turn (l l' : LinkedModule) : Prop := ∀ now ok, l.step (.act (.sched now ok)) = some l'

/-- There is nothing for the thread to do. -/
def LinkedModule.Drained (l : LinkedModule) : Prop := l.inbox.head = none ∧ l.core.stop = false

/-- The phase of a thread that is outside its critical section. -/
def SchedPoint.Fits : SchedPoint → LinkedModule → Prop
  | .away, a => a.core.phase ≠ .top ∧ ∀ d, a.core.phase ≠ .waiting d
  | .lock, a => a.core.phase = .top
  | .relock, a => ∃ d, a.core.phase = .waiting d
  | .ended, a => a.core.phase = .stopped
  | _, _ => False

/-- The queues `l` of a thread inside its section, beside the state `a` before the turn or after it. -/
def SchedPoint.Consuming : SchedPoint → LinkedModule → LinkedModule → Prop
  | .merge, l, a => l = a ∧ SchedPoint.lock.Fits a
  | .test, l, a => a.Turn l.enterWait
  | .wait, l, a => l = a ∧ SchedPoint.relock.Fits a ∧ a.Drained
  | .look, l, a => a.Turn l.takeBatch
  | .take, l, a => a.Turn l.detach
  | .unlock, l, a => l = a ∧ SchedPoint.away.Fits a
  | .exit, l, a => l = a ∧ SchedPoint.ended.Fits a
  | _, _, _ => False

/-- The same while nobody is inside. The thread sleeps only over a drained inbox. -/
def SchedPoint.Free (q : SchedPoint) (l : LinkedModule) (asleep : Bool) (a : LinkedModule) : Prop :=
  l = a ∧ q.Fits a ∧ (asleep = true → q = .relock ∧ a.Drained)

/-- The same while another thread is in `post` or `stop_modules` and the scheduler at `q`. -/
def PostPoint.Producing (q : SchedPoint) : PostPoint → LinkedModule → Bool → LinkedModule → Prop
  | .link _, l, z, a | .setStop, l, z, a | .unlock, l, z, a => q.Free l z a
  | .setTail e, l, z, a => l = a.linkNode e ∧ q.Fits a ∧ (z = true → q = .relock)
  | .signal, l, z, a => l = a ∧ q.Fits a ∧ (z = true → q = .relock)
  | .away, _, _, _ | .lock _, _, _, _ => False

section Points

variable {l a a' : LinkedModule} {idx : Nat} {reg : Reg} {q : SchedPoint} {e : Ev} {c : ModAct} {eff : Effect}

theorem LinkedModule.Turn.within (h : a.Turn a') : Monitor.Within LinkedModule.step a a' :=
  .inr ⟨_, h ⟨0, 0⟩ .granted⟩

/-- At the top of the loop no fiber runs, and the splice meets its tail node. -/
theorem top_turn (hreach : a.Atomic idx reg) (htop : a.core.phase = .top) :
    ∃ l, a.mergeDeferred = some l ∧ a.Turn l.enterWait := by
  obtain ⟨i, b, d, h, hmodes⟩ := layout hreach
  obtain ⟨l, -, -, hmerge, -⟩ := h.mergeDeferred
  have hcur : a.core.current = none := by
    refine Option.eq_none_iff_forall_ne_some.mpr fun x hx => ?_
    exact (hmodes.running x hx).2.2.2 (.inl htop)
  refine ⟨l, hmerge, fun now ok => ?_⟩
  have hidle : ¬(a.core.current.isSome ∨ a.core.phase = .stopped ∨ a.core.phase = .undefined) := by
    rw [hcur, htop]
    simp
  have hsched : a.sched now ok = l.enterWait := by
    unfold LinkedModule.sched
    rw [htop]
    dsimp only
    rw [hmerge]
  unfold LinkedModule.step LinkedModule.act
  dsimp only
  rw [if_neg hidle, hsched, Option.map_some]

theorem waiting_turn (hreach : a.Atomic idx reg) (hwaiting : SchedPoint.relock.Fits a) : a.Turn a.takeBatch := by
  obtain ⟨i, b, d, h, hmodes⟩ := layout hreach
  obtain ⟨t, ht⟩ := hwaiting
  have hcur : a.core.current = none := by
    refine Option.eq_none_iff_forall_ne_some.mpr fun x hx => ?_
    exact (hmodes.running x hx).2.2.2 (.inr ⟨t, ht⟩)
  intro now ok
  have hidle : ¬(a.core.current.isSome ∨ a.core.phase = .stopped ∨ a.core.phase = .undefined) := by
    rw [hcur, ht]
    simp
  have hsched : a.sched now ok = a.takeBatch := by
    unfold LinkedModule.sched
    rw [ht]
  unfold LinkedModule.step LinkedModule.act
  dsimp only
  rw [if_neg hidle, hsched, Option.map_some]

/-- The code between the sections never leads into the condition wait. -/
theorem away_fits (hreach : a.Atomic idx reg) (haway : a.runsAway c = true) (hfits : SchedPoint.away.Fits a)
    (hact : a.act c = some (a', eff)) : a'.pointAfter.Fits a' := by
  obtain ⟨i, b, d, h, hmodes⟩ := layout hreach
  unfold LinkedModule.pointAfter
  by_cases htop : a'.core.phase = .top
  · rw [if_pos htop]
    exact htop
  · rw [if_neg htop]
    refine ⟨htop, fun t ht => ?_⟩
    rcases h.act hmodes c with ⟨hnone, -⟩ | ⟨l', eff', i', b', d', hsome, -, hlist⟩
    · rw [hnone] at hact
      cases hact
    · obtain ⟨rfl, rfl⟩ := Prod.mk.inj (Option.some.inj (hsome.symm.trans hact))
      rcases (Module.step_move hlist).sleeps hmodes (show (l'.list i' b' d').phase = .waiting t from ht) with
        ⟨hphase, -⟩ | rfl
      · exact hfits.1 hphase
      · cases haway

theorem consumer_enters {z : Bool} (hinstr : schedCode.instr q = .lock) (hreach : a.Atomic idx reg)
    (h : q.Free l z a) : (schedCode.next q).Consuming l a := by
  obtain ⟨rfl, hfits, -⟩ := h
  cases q with
  | lock => exact ⟨rfl, hfits⟩
  | relock => exact waiting_turn hreach hfits
  | _ => cases hinstr

/-- The turn commits where the outcome is settled: on going to sleep, on leaving the loop or on taking the batch. -/
theorem consumer_runs {q' : SchedPoint} (hrun : schedCode.run q c l = some (q', a'))
    (hinstr : schedCode.instr q = .inside) (hreach : a.Atomic idx reg) (h : q.Consuming l a) :
    ∃ b, Monitor.Within LinkedModule.step a b ∧ q'.Consuming a' b := by
  cases q with
  | merge =>
      obtain ⟨rfl, htop⟩ := h
      obtain ⟨l', hmerge, hturn⟩ := top_turn hreach htop
      have hpair := Option.some.inj hrun
      rw [hmerge] at hpair
      obtain ⟨rfl, rfl⟩ := Prod.mk.inj hpair
      exact ⟨l, .inl rfl, hturn⟩
  | test =>
      have hturn : a.Turn l.enterWait := h
      have hpair := Option.some.inj hrun
      unfold LinkedModule.enterWait at hturn
      by_cases hempty : l.inbox.head = none ∧ l.core.stop = false
      · rw [if_pos hempty] at hturn hpair
        obtain ⟨rfl, rfl⟩ := Prod.mk.inj hpair
        exact ⟨l.park, hturn.within, rfl, ⟨_, rfl⟩, hempty⟩
      · rw [if_neg hempty] at hturn hpair
        obtain ⟨rfl, rfl⟩ := Prod.mk.inj hpair
        exact ⟨a, .inl rfl, hturn⟩
  | look =>
      have hturn : a.Turn l.takeBatch := h
      have hpair := Option.some.inj hrun
      unfold LinkedModule.takeBatch at hturn
      by_cases hstop : l.core.stop = true
      · rw [if_pos hstop] at hturn hpair
        obtain ⟨rfl, rfl⟩ := Prod.mk.inj hpair
        exact ⟨l.halt, hturn.within, rfl, rfl⟩
      · rw [if_neg hstop] at hturn hpair
        obtain ⟨rfl, rfl⟩ := Prod.mk.inj hpair
        exact ⟨a, .inl rfl, hturn⟩
  | take =>
      have hturn : a.Turn l.detach := h
      obtain ⟨rfl, rfl⟩ := Prod.mk.inj (Option.some.inj hrun)
      exact ⟨l.detach, hturn.within, rfl, by simp [LinkedModule.detach], fun t ht => by cases ht⟩
  | crashed => exact h.elim
  | _ => cases hinstr

theorem consumer_leaves (hinstr : schedCode.instr q = .unlock) (h : q.Consuming l a) :
    l = a ∧ (schedCode.next q).Fits a := by
  cases q with
  | unlock => exact h
  | exit => exact h
  | _ => cases hinstr

/-- Between its sections the thread takes atomic steps. -/
theorem consumer_goes {q' : SchedPoint} (hrun : schedCode.run q c a = some (q', a'))
    (hinstr : schedCode.instr q = .away) (hreach : a.Atomic idx reg) (hfits : q.Fits a) :
    q ≠ .relock ∧ Monitor.Within LinkedModule.step a a' ∧ q'.Fits a' := by
  cases q with
  | away =>
      obtain ⟨haway, hmap⟩ := Option.ite_none_right_eq_some.mp hrun
      obtain ⟨r, hact, hpair⟩ := Option.map_eq_some_iff.mp hmap
      obtain ⟨rfl, rfl⟩ := Prod.mk.inj hpair
      have hstep : a.step (.act c) = some r.1 := by
        unfold LinkedModule.step
        dsimp only
        rw [hact, Option.map_some]
      exact ⟨nofun, .inr ⟨_, hstep⟩, away_fits hreach haway hfits hact⟩
  | ended => cases hrun
  | _ => cases hinstr

theorem linkNode_run (hinstr : schedCode.instr q = .away) (hreach : a.Atomic idx reg) :
    schedCode.run q c (a.linkNode e) = (schedCode.run q c a).map fun r => (r.1, r.2.linkNode e) := by
  cases q with
  | away =>
      by_cases haway : a.runsAway c = true
      · obtain ⟨i, b, d, h, hmodes⟩ := layout hreach
        have haway' : (a.linkNode e).runsAway c = true := haway
        refine (if_pos haway').trans ?_
        rw [linkNode_act h hmodes haway, Option.map_map]
        refine Eq.trans ?_ (congrArg (Option.map _) (if_pos haway).symm)
        rw [Option.map_map]
        rfl
      · have haway' : ¬(a.linkNode e).runsAway c = true := haway
        have hnone : schedCode.run .away c a = none := if_neg haway
        rw [hnone]
        exact if_neg haway'
  | ended => rfl
  | _ => cases hinstr

theorem producer_enters {p : PostPoint} {z : Bool} (hinstr : postCode.instr p = .lock) (h : q.Free l z a) :
    (postCode.next p).Producing q l z a := by
  cases p with
  | lock job =>
      cases job with
      | post e => exact h
      | stop => exact h
  | _ => cases hinstr

/-- A post commits with its second write. -/
theorem producer_runs {p p' : PostPoint} {job : Job} {z : Bool} (hrun : postCode.run p job l = some (p', a'))
    (hinstr : postCode.instr p = .inside) (h : p.Producing q l z a) :
    ∃ b, Monitor.Within LinkedModule.step a b ∧ p'.Producing q a' z b := by
  cases p with
  | link e =>
      obtain ⟨rfl, hfits, hasleep⟩ := h
      obtain ⟨rfl, rfl⟩ := Prod.mk.inj (Option.some.inj hrun)
      exact ⟨l, .inl rfl, rfl, hfits, fun hz => (hasleep hz).1⟩
  | setTail e =>
      obtain ⟨rfl, hfits, hasleep⟩ := h
      obtain ⟨rfl, rfl⟩ := Prod.mk.inj (Option.some.inj hrun)
      refine ⟨a.post e, .inr ⟨.post e, rfl⟩, linkNode_advance a e, ?_, hasleep⟩
      cases q <;> exact hfits
  | setStop =>
      obtain ⟨rfl, hfits, hasleep⟩ := h
      obtain ⟨rfl, rfl⟩ := Prod.mk.inj (Option.some.inj hrun)
      refine ⟨l.setStop, .inr ⟨.act .stop, rfl⟩, rfl, ?_, fun hz => (hasleep hz).1⟩
      cases q <;> exact hfits
  | _ => cases hinstr

theorem producer_signals {p : PostPoint} {z : Bool} (hinstr : postCode.instr p = .signal)
    (h : p.Producing q l z a) : (postCode.next p).Producing q l false a := by
  cases p with
  | signal => exact ⟨h.1, h.2.1, nofun⟩
  | _ => cases hinstr

theorem producer_leaves {p : PostPoint} {z : Bool} (hinstr : postCode.instr p = .unlock)
    (h : p.Producing q l z a) : q.Free l z a := by
  cases p with
  | unlock => exact h
  | _ => cases hinstr

theorem producer_wakes {p : PostPoint} (h : p.Producing q l true a) : p.Producing q l false a := by
  cases p with
  | away => exact h.elim
  | lock job => exact h.elim
  | _ => exact ⟨h.1, h.2.1, nofun⟩

theorem producing_asleep {p : PostPoint} (h : p.Producing q l true a) :
    q = .relock ∧ (l.Drained ∨ p = .signal ∨ ∃ e, p = .setTail e) := by
  have hfree : q.Free l true a → q = .relock ∧ l.Drained := fun h => h.1 ▸ h.2.2 rfl
  cases p with
  | away => exact h.elim
  | lock job => exact h.elim
  | link e => exact (hfree h).imp id .inl
  | setStop => exact (hfree h).imp id .inl
  | unlock => exact (hfree h).imp id .inl
  | setTail e => exact ⟨h.2.2 rfl, .inr (.inr ⟨e, rfl⟩)⟩
  | signal => exact ⟨h.2.2 rfl, .inr (.inl rfl)⟩

theorem free_passes {q' : SchedPoint} {z : Bool} (hrun : schedCode.run q c l = some (q', a'))
    (hinstr : schedCode.instr q = .away) (hreach : a.Atomic idx reg) (h : q.Free l z a) :
    ∃ b, Monitor.Within LinkedModule.step a b ∧ q'.Free a' z b := by
  obtain ⟨rfl, hfits, hasleep⟩ := h
  obtain ⟨hne, hwithin, hfits'⟩ := consumer_goes hrun hinstr hreach hfits
  exact ⟨a', hwithin, rfl, hfits', fun hz => (hne (hasleep hz).1).elim⟩

theorem producing_passes {q' : SchedPoint} {p : PostPoint} {z : Bool}
    (hrun : schedCode.run q c l = some (q', a')) (hinstr : schedCode.instr q = .away) (hreach : a.Atomic idx reg)
    (h : p.Producing q l z a) : ∃ b, Monitor.Within LinkedModule.step a b ∧ p.Producing q' a' z b := by
  cases p with
  | away => exact h.elim
  | lock job => exact h.elim
  | link e => exact free_passes hrun hinstr hreach h
  | setStop => exact free_passes hrun hinstr hreach h
  | unlock => exact free_passes hrun hinstr hreach h
  | setTail e =>
      obtain ⟨rfl, hfits, hasleep⟩ := h
      rw [linkNode_run hinstr hreach] at hrun
      obtain ⟨r, hrun', hpair⟩ := Option.map_eq_some_iff.mp hrun
      obtain ⟨rfl, rfl⟩ := Prod.mk.inj hpair
      obtain ⟨hne, hwithin, hfits'⟩ := consumer_goes hrun' hinstr hreach hfits
      exact ⟨r.2, hwithin, rfl, hfits', fun hz => (hne (hasleep hz)).elim⟩
  | signal =>
      obtain ⟨rfl, hfits, hasleep⟩ := h
      obtain ⟨hne, hwithin, hfits'⟩ := consumer_goes hrun hinstr hreach hfits
      exact ⟨a', hwithin, rfl, hfits', fun hz => (hne (hasleep hz)).elim⟩

end Points

/-- The outline of a module's two critical sections. -/
def inboxOutline (idx : Nat) (reg : Reg) :
    Monitor.Outline schedCode postCode LinkedModule.step (LinkedModule.Atomic idx reg) where
  free := SchedPoint.Free
  consuming := SchedPoint.Consuming
  producing q p := p.Producing q
  consumer_lock _ _ _ hinstr hreach h := consumer_enters hinstr hreach h
  consumer_run _ _ _ _ _ _ hinstr hrun hreach h := consumer_runs hrun hinstr hreach h
  consumer_signal q _ _ hinstr _ := by cases q <;> cases hinstr
  consumer_wait q _ _ hinstr h := by
    cases q with
    | wait => exact ⟨h.1, h.2.1, fun _ => ⟨rfl, h.2.2⟩⟩
    | _ => cases hinstr
  consumer_unlock _ _ _ hinstr h := ⟨(consumer_leaves hinstr h).1, (consumer_leaves hinstr h).2, nofun⟩
  consumer_free _ _ _ _ _ _ _ hinstr hrun hreach h := free_passes hrun hinstr hreach h
  consumer_away _ _ _ _ _ _ _ _ hinstr hrun hreach h := producing_passes hrun hinstr hreach h
  producer_lock _ _ _ _ _ hinstr h := producer_enters hinstr h
  producer_run _ _ _ _ _ _ _ _ hinstr hrun _ h := producer_runs hrun hinstr h
  producer_signal _ _ _ _ _ hinstr h := producer_signals hinstr h
  producer_unlock _ _ _ _ _ hinstr h := producer_leaves hinstr h
  producer_away p _ _ _ _ hinstr hrun := by
    cases p with
    | away => exact (Prod.mk.inj (Option.some.inj hrun)).2.symm
    | _ => cases hinstr
  wake_free _ _ _ h := ⟨h.1, h.2.1, nofun⟩
  wake_producing _ _ _ _ h := producer_wakes h

/-! ### Runs -/

/-- A module with threads that post to it, before any of them has moved. -/
def lockedBoot (τ : Type*) (idx : Nat) (reg : Reg) : Monitor.State LinkedModule SchedPoint PostPoint τ where
  shared := LinkedModule.boot idx reg
  owner := .nobody
  consumer := .lock
  producer _ := .away
  asleep := false

section Runs

variable {τ : Type*} [DecidableEq τ] {idx : Nat} {reg : Reg} {s : Monitor.State LinkedModule SchedPoint PostPoint τ}

/-- Whatever the interleaving of the instructions of `post`, `stop_modules` and `sched_loop`, a run of atomic posts
and turns goes with it. -/
theorem locked_matches {ok : Monitor.State LinkedModule SchedPoint PostPoint τ → Monitor.Label τ ModAct Job → Prop}
    (hrun : Lts.Run (Monitor.step schedCode postCode) ok (lockedBoot τ idx reg) s) :
    ∃ a, a.Atomic idx reg ∧ (inboxOutline idx reg).Matches s a := by
  have hstart : (inboxOutline idx reg).Matches (lockedBoot τ idx reg) (LinkedModule.boot idx reg) := by
    have hfree : SchedPoint.Free .lock (LinkedModule.boot idx reg) false (LinkedModule.boot idx reg) :=
      ⟨rfl, rfl, nofun⟩
    exact Monitor.Outline.at_nobody rfl rfl (fun _ => rfl) hfree
  exact (inboxOutline idx reg).sound schedCode_guarded postCode_guarded hstart (fun _ h => h) hrun

/-- The thread sleeps over an event or over `stop` only while the one who brought it is about to signal. -/
theorem wakeup_never_lost {ok : Monitor.State LinkedModule SchedPoint PostPoint τ → Monitor.Label τ ModAct Job → Prop}
    (hrun : Lts.Run (Monitor.step schedCode postCode) ok (lockedBoot τ idx reg) s) (hasleep : s.asleep = true) :
    s.consumer = .relock ∧ (s.shared.Drained ∨
      ∃ t, s.owner = .producer t ∧ (s.producer t = .signal ∨ ∃ e, s.producer t = .setTail e)) := by
  obtain ⟨a, -, hmatches⟩ := locked_matches hrun
  cases howner : s.owner with
  | nobody =>
      obtain ⟨-, -, hshared, -, hdrained⟩ := (Monitor.Outline.matches_of_nobody howner).mp hmatches
      rw [hshared]
      exact ⟨(hdrained hasleep).1, .inl (hdrained hasleep).2⟩
  | consumer =>
      obtain ⟨-, -, hawake, -⟩ := (Monitor.Outline.matches_of_consumer howner).mp hmatches
      exact absurd (hasleep.symm.trans hawake) (by simp)
  | producer t =>
      obtain ⟨-, -, hproducing⟩ := (Monitor.Outline.matches_of_producer howner).mp hmatches
      have hpoint : (s.producer t).Producing s.consumer s.shared s.asleep a := hproducing
      rw [hasleep] at hpoint
      exact (producing_asleep hpoint).imp id (Or.imp id fun hp => ⟨t, rfl, hp⟩)

/-- A post comes while the thread sleeps, and has not set the tail yet. -/
def sleptRun : List (Monitor.Label Bool ModAct Job) :=
  let start : Ev := ⟨.start, 0, 1, .external, .ignore, 0, 0, [], 0⟩
  let turn : Monitor.Label Bool ModAct Job := .consumer (.sched ⟨0, 0⟩ .granted)
  let post : Monitor.Label Bool ModAct Job := .producer true (.post start)
  [post, turn, turn, turn, turn, post, post]

theorem sleptRun_wakes : ∃ s, Lts.Run (Monitor.step schedCode postCode) (fun _ _ => True)
    (lockedBoot Bool 0 ⟨1, false⟩) s ∧ s.asleep = true ∧ s.shared.inbox.head = some 0 ∧
      s.consumer = .relock ∧ (s.shared.Drained ∨
        ∃ t, s.owner = .producer t ∧ (s.producer t = .signal ∨ ∃ e, s.producer t = .setTail e)) := by
  obtain ⟨s, hrun, hs⟩ : ∃ s, Lts.Run (Monitor.step schedCode postCode) (fun _ _ => True)
      (lockedBoot Bool 0 ⟨1, false⟩) s ∧ decide (s.asleep = true ∧ s.shared.inbox.head = some 0) = true :=
    Lts.exists_run sleptRun (by decide +kernel)
  obtain ⟨hasleep, hhead⟩ := of_decide_eq_true hs
  exact ⟨s, hrun, hasleep, hhead, wakeup_never_lost hrun hasleep⟩

/-- At most one thread is in a critical section, no pointer is followed to a node that is not there, and while nobody
is inside the queues are those of a run whose posts and turns are single steps. -/
theorem sections_atomic {ok : Monitor.State LinkedModule SchedPoint PostPoint τ → Monitor.Label τ ModAct Job → Prop}
    (hrun : Lts.Run (Monitor.step schedCode postCode) ok (lockedBoot τ idx reg) s) :
    ((∀ t u, (postCode.instr (s.producer t)).held = true → (postCode.instr (s.producer u)).held = true → t = u) ∧
      ((schedCode.instr s.consumer).held = true → ∀ t, (postCode.instr (s.producer t)).held = false)) ∧
    s.consumer ≠ .crashed ∧
    (s.owner = .nobody → Lts.Run LinkedModule.step (fun _ _ => True) (LinkedModule.boot idx reg) s.shared ∧
      ∃ i b d, Divided s.shared i b d) := by
  obtain ⟨a, hatomic, hmatches⟩ := locked_matches hrun
  refine ⟨hmatches.alone, fun hcrashed => ?_, fun howner => ?_⟩
  · have howner := hmatches.owner_consumer (by rw [hcrashed]; rfl)
    obtain ⟨-, -, -, hconsuming⟩ := (Monitor.Outline.matches_of_consumer howner).mp hmatches
    rw [hcrashed] at hconsuming
    exact hconsuming.elim
  · obtain ⟨-, -, hshared, -⟩ := (Monitor.Outline.matches_of_nobody howner).mp hmatches
    obtain ⟨i, b, d, hlayout, -⟩ := layout hatomic
    rw [hshared]
    exact ⟨hatomic, i, b, d, hlayout.divided⟩

/-- Two threads post in turn, the second one while the first event is being handled; the thread is told to stop. -/
def contendedRun : List (Monitor.Label Bool ModAct Job) :=
  let start : Ev := ⟨.start, 0, 1, .external, .ignore, 0, 0, [], 0⟩
  let turn : Monitor.Label Bool ModAct Job := .consumer (.sched ⟨0, 0⟩ .granted)
  let post : Bool → Monitor.Label Bool ModAct Job := fun t => .producer t (.post start)
  let stop : Monitor.Label Bool ModAct Job := .producer false .stop
  [turn, turn, turn, turn] ++ List.replicate 6 (post true) ++ [turn, turn, turn, turn, turn, turn] ++
    [post false, post false, post false, turn, post false, post false, post false] ++
    List.replicate 5 stop

theorem contendedRun_atomic : ∃ s, Lts.Run (Monitor.step schedCode postCode) (fun _ _ => True)
    (lockedBoot Bool 0 ⟨1, false⟩) s ∧ (s.shared.inbox = ⟨some 1, some 1⟩ ∧ s.shared.core.stop = true) ∧
      (Lts.Run LinkedModule.step (fun _ _ => True) (LinkedModule.boot 0 ⟨1, false⟩) s.shared ∧
        ∃ i b d, Divided s.shared i b d) := by
  obtain ⟨s, hrun, hs⟩ : ∃ s, Lts.Run (Monitor.step schedCode postCode) (fun _ _ => True)
      (lockedBoot Bool 0 ⟨1, false⟩) s ∧ decide ((s.shared.inbox = ⟨some 1, some 1⟩ ∧
        s.shared.core.stop = true) ∧ s.owner = .nobody) = true :=
    Lts.exists_run contendedRun (by decide +kernel)
  obtain ⟨hshared, howner⟩ := of_decide_eq_true hs
  exact ⟨s, hrun, hshared, (sections_atomic hrun).2.2 howner⟩

end Runs

end Coseq
