import Coseq.EventQueue
import Coseq.PendingIds
import Coseq.SystemModule

/-! How many turns a module thread takes. Between two looks at `stop` the scheduler makes one turn for the clock, one
for each fiber of the timer pass and one for each event of the batch; nothing that fibers and other threads do in
between makes them more. So a thread that is told to stop leaves its loop within a number of turns that is known when
it is told, and an event that is accepted is looked at within a number known when it arrives. -/

namespace Coseq

/-- The turns before the event loop begins. -/
def Module.passTurns (m : Module) : Nat :=
  match m.phase with
  | .clock => m.fibers.length + 2
  | .timers _ rest => rest.length + 1
  | _ => 0

/-- The turns up to and with the next look at `stop`. -/
def Module.turnsLeft (m : Module) : Nat :=
  match m.phase with
  | .top | .waiting _ => 1
  | .clock | .timers .. | .events => m.passTurns + m.batch.length + 2
  | .stopped | .undefined => 0

def Ev.serials (l : List Ev) : List Nat := l.map Ev.serial

/-- The event numbered `n` is before the thread: in its batch or in its inbox. -/
def Module.Faces (m : Module) (n : Nat) : Prop := n ∈ Ev.serials m.batch ∨ n ∈ Ev.serials m.inbox

instance (m : Module) (n : Nat) : Decidable (m.Faces n) := inferInstanceAs (Decidable (_ ∨ _))

/-- The turns up to and with the one that the event numbered `n` gets. -/
def Module.turnsUntil (n : Nat) (m : Module) : Nat :=
  if n ∈ Ev.serials m.batch then m.passTurns + (Ev.serials m.batch).idxOf n + 1
  else if n ∈ Ev.serials m.inbox then
    m.turnsLeft + (m.fibers.length + m.batch.length) + (m.deferred.length + m.batch.length) +
      (Ev.serials m.inbox).idxOf n + 3
  else 0

/-- The thread has left its loop, or it has touched a freed fiber and nothing is said of what it does after that. -/
def Module.Ended (m : Module) : Prop := m.phase = .stopped ∨ m.phase = .undefined

/-- Nothing but its own running fiber keeps the thread of module `i` from a turn. -/
def Sys.FreeToTurn (s : Sys) (i : Nat) : Prop :=
  (s.module i).current.isSome = true ∨ ∀ ok, (s.step (.sched i ok)).isSome = true

/-- A step is a turn of the thread of module `i`. -/
def Act.turnOf (i : Nat) : Act → Bool
  | .sched j _ => j = i
  | _ => false

/-! ### What a turn does -/

/-- A turn from one look at `stop` towards the next. -/
structure Onward (m m' : Module) : Prop where
  inbox : m'.inbox = m.inbox
  left : m'.turnsLeft + 1 ≤ m.turnsLeft
  fibers : m'.fibers.length + m'.batch.length ≤ m.fibers.length + m.batch.length
  deferred : m'.deferred.length + m'.batch.length ≤ m.deferred.length + m.batch.length
  batch : m'.batch = m.batch ∧ m'.passTurns + 1 ≤ m.passTurns ∨ m.batch = [] ∧ m'.batch = [] ∨
    ∃ e, m.batch = e :: m'.batch ∧ m.passTurns = 0 ∧ m'.passTurns = 0

/-- The turn in which the thread looks at `stop`. -/
structure Looked (m m' : Module) (inbox deferred : List Ev) : Prop where
  merged : Merged m inbox deferred
  fibers : m'.fibers = m.fibers
  deferred : m'.deferred = deferred
  next : inbox = [] ∨ m'.phase = .stopped ∧ m'.batch = m.batch ∧ m'.inbox = inbox ∨
    m'.phase = .clock ∧ m'.batch = inbox ∧ m'.inbox = []

section Turn

variable {m m' : Module} {now : Timespec} {ok : Alloc} {eff : Effect}

theorem AtHead.onward {e : Ev} {rest : List Ev} (hhead : AtHead m e rest)
    (hphase : m'.phase = m.phase ∨ m'.phase = .undefined)
    (hinbox : m'.inbox = m.inbox) (hbatch : m'.batch = rest)
    (hfibers : m'.fibers.length ≤ m.fibers.length + 1) (hdeferred : m'.deferred.length ≤ m.deferred.length + 1) :
    Onward m m' := by
  have hlen : m.batch.length = rest.length + 1 := congrArg List.length hhead.batch
  have hpass : m.passTurns = 0 := by simp [Module.passTurns, hhead.phase]
  have hpass' : m'.passTurns = 0 := by
    rcases hphase with hphase | hphase <;> simp [Module.passTurns, hphase, hhead.phase]
  have hleft : m.turnsLeft = rest.length + 3 := by
    simp only [Module.turnsLeft, hhead.phase, hpass, hlen]
    omega
  refine ⟨hinbox, ?_, ?_, ?_, .inr (.inr ⟨e, hbatch ▸ hhead.batch, hpass, hpass'⟩)⟩
  · rcases hphase with hphase | hphase
    · simp only [Module.turnsLeft, hphase, hhead.phase, hpass', hbatch] at hleft ⊢
      omega
    · have hnone : m'.turnsLeft = 0 := by simp [Module.turnsLeft, hphase]
      omega
  · rw [hbatch, hlen]
    omega
  · rw [hbatch, hlen]
    omega

/-- A turn of the timer pass. -/
theorem onward_timers {t : Timespec} {rest : List FiberRef} {a : FiberRef} (hphase : m.phase = .timers t (a :: rest))
    (hphase' : m'.phase = .timers t rest) (hinbox : m'.inbox = m.inbox) (hbatch : m'.batch = m.batch)
    (hfibers : m'.fibers = m.fibers) (hdeferred : m'.deferred = m.deferred) : Onward m m' := by
  have hpass : m'.passTurns + 1 ≤ m.passTurns := by
    simp [Module.passTurns, hphase, hphase']
  refine ⟨hinbox, ?_, Nat.le_of_eq (by rw [hfibers, hbatch]), Nat.le_of_eq (by rw [hdeferred, hbatch]),
    .inl ⟨hbatch, hpass⟩⟩
  simp only [Module.turnsLeft, hphase, hphase', hbatch]
  omega

theorem Move.turn (hmove : Move m (.sched now ok) eff m') :
    (∃ inbox deferred, Looked m m' inbox deferred) ∨ Onward m m' := by
  cases hmove with
  | park _ hphase hmerge hempty =>
      subst hempty
      exact .inl ⟨_, _, hmerge, rfl, rfl, .inl rfl⟩
  | halt _ hmerge => exact .inl ⟨_, _, hmerge, rfl, rfl, .inr (.inl ⟨rfl, rfl, rfl⟩)⟩
  | take _ hmerge => exact .inl ⟨_, _, hmerge, rfl, rfl, .inr (.inr ⟨rfl, rfl, rfl⟩)⟩
  | pass _ hpass =>
      refine .inr ?_
      cases hpass with
      | clock now hphase =>
          refine ⟨rfl, ?_, (Nat.le_refl _), (Nat.le_refl _), .inl ⟨rfl, ?_⟩⟩
          · simp only [Module.turnsLeft, Module.passTurns, hphase]
            omega
          · simp only [Module.passTurns, hphase]
            omega
      | timersDone hphase =>
          refine ⟨rfl, ?_, (Nat.le_refl _), (Nat.le_refl _), .inl ⟨rfl, ?_⟩⟩
          · simp only [Module.turnsLeft, Module.passTurns, hphase, List.length_nil]
            omega
          · simp [Module.passTurns, hphase]
      | skip hphase => exact onward_timers hphase rfl rfl rfl rfl rfl
  | fire _ hphase => exact .inr (onward_timers hphase rfl rfl rfl rfl rfl)
  | expire _ hphase => exact .inr (onward_timers hphase rfl rfl rfl rfl rfl)
  | defer _ hhead _ => exact .inr (hhead.onward (.inl rfl) rfl rfl (Nat.le_succ _) (by simp))
  | drop _ hhead => exact .inr (hhead.onward (.inl rfl) rfl rfl (Nat.le_succ _) (Nat.le_succ _))
  | begin _ hhead => exact .inr (hhead.onward (.inl rfl) rfl rfl (Nat.le_refl _) (Nat.le_succ _))
  | undefined _ hhead => exact .inr (hhead.onward (.inr rfl) rfl rfl (Nat.le_succ _) (Nat.le_succ _))
  | wake _ hhead => exact .inr (hhead.onward (.inl rfl) rfl rfl (Nat.le_succ _) (Nat.le_succ _))
  | queue _ hhead => exact .inr (hhead.onward (.inl rfl) rfl rfl (Nat.le_succ _) (Nat.le_succ _))
  | lose _ hhead => exact .inr (hhead.onward (.inl rfl) rfl rfl (Nat.le_succ _) (Nat.le_succ _))
  | reap _ hphase hbatch =>
      refine .inr ⟨rfl, ?_, ?_, (Nat.le_refl _), .inr (.inl ⟨hbatch, hbatch⟩)⟩
      · simp only [Module.turnsLeft, hphase]
        omega
      · exact Nat.add_le_add_right (List.length_filter_le _ _) _

/-- The calls of fibers and the arrival of events change nothing of what the thread has before it. -/
structure LeftAlone (m m' : Module) : Prop where
  phase : m'.phase = m.phase
  batch : m'.batch = m.batch
  fibers : m'.fibers = m.fibers
  deferred : m'.deferred = m.deferred
  posted : m.posted ≤ m'.posted
  inbox : ∃ es, m'.inbox = m.inbox ++ es ∧ ∀ e ∈ es, m.posted ≤ e.serial

theorem LeftAlone.same (hphase : m'.phase = m.phase) (hbatch : m'.batch = m.batch) (hfibers : m'.fibers = m.fibers)
    (hdeferred : m'.deferred = m.deferred) (hposted : m'.posted = m.posted) (hinbox : m'.inbox = m.inbox) :
    LeftAlone m m' := by
  refine ⟨hphase, hbatch, hfibers, hdeferred, Nat.le_of_eq hposted.symm, [], ?_, fun e he => ?_⟩
  · rw [hinbox, List.append_nil]
  · cases he

theorem LeftAlone.refl (m : Module) : LeftAlone m m := .same rfl rfl rfl rfl rfl rfl

theorem LeftAlone.enqueue {m₁ : Module} (h : LeftAlone m m₁) (e : Ev) : LeftAlone m (m₁.enqueue e) := by
  obtain ⟨es, hes, hnew⟩ := h.inbox
  refine ⟨h.phase, h.batch, h.fibers, h.deferred, Nat.le_succ_of_le h.posted,
    es ++ [{ e with serial := m₁.posted }], ?_, fun e' he' => ?_⟩
  · rw [← List.append_assoc, ← hes]
    rfl
  · rcases List.mem_append.mp he' with he' | he'
    · exact hnew e' he'
    · obtain rfl := List.mem_singleton.mp he'
      exact h.posted

theorem LeftAlone.passTurns (h : LeftAlone m m') : m'.passTurns = m.passTurns := by
  simp only [Module.passTurns, h.phase, h.fibers]

theorem LeftAlone.turnsLeft (h : LeftAlone m m') : m'.turnsLeft = m.turnsLeft := by
  simp only [Module.turnsLeft, h.phase, h.passTurns, h.batch]

theorem Move.leavesAlone {act : ModAct} (hmove : Move m act eff m') (hact : ∀ now ok, act ≠ .sched now ok) :
    LeftAlone m m' := by
  cases hmove with
  | issue => exact .same rfl rfl rfl rfl rfl rfl
  | «local» => exact .same rfl rfl rfl rfl rfl rfl
  | lock => exact .same rfl rfl rfl rfl rfl rfl
  | unlock => exact .same rfl rfl rfl rfl rfl rfl
  | ret => exact .same rfl rfl rfl rfl rfl rfl
  | stop => exact .same rfl rfl rfl rfl rfl rfl
  | _ => exact absurd rfl (hact _ _)

end Turn

/-- A step of the system is a turn of the thread of module `i`, after which an event may arrive, or leaves what that
thread has before it. -/
theorem step_turn {s s' : Sys} {a : Act} (hstep : s.step a = some s') (i : Nat) :
    (a.turnOf i = false ∧ LeftAlone (s.module i) (s'.module i)) ∨
      a.turnOf i = true ∧ ∃ m₁ eff now ok, (s.module i).step (.sched now ok) = some (m₁, eff) ∧
        LeftAlone m₁ (s'.module i) := by
  obtain ⟨m₁, hm₁, hs'⟩ := Sys.step_stepped hstep i
  have harrive : ∀ {m}, LeftAlone m m₁ → LeftAlone m (s'.module i) := fun h => by
    rcases hs' with heq | ⟨e, heq⟩
    · rw [heq]
      exact h
    · rw [heq]
      exact h.enqueue e
  by_cases hturn : a.turnOf i = true
  · cases a with
    | sched j ok =>
        obtain rfl : j = i := of_decide_eq_true hturn
        refine .inr ⟨hturn, ?_⟩
        have hlocal : s.localAct j (.sched j ok) = some (.sched s.clock ok) := if_pos rfl
        cases hm₁ with
        | stay hstay =>
            rw [hlocal] at hstay
            cases hstay
        | step hact hstep =>
            obtain rfl := Option.some.inj (hlocal.symm.trans hact)
            exact ⟨_, _, _, _, hstep, harrive (.refl _)⟩
    | _ => cases hturn
  · refine .inl ⟨Bool.eq_false_iff.mpr hturn, ?_⟩
    cases hm₁ with
    | stay => exact harrive (.refl _)
    | step hact hstep =>
        refine harrive ((Module.step_move hstep).leavesAlone ?_)
        rintro now ok rfl
        obtain ⟨rfl, -⟩ := Sys.localAct_sched hact
        exact hturn (decide_eq_true rfl)

/-! ### The thread stops -/

section Stop

variable {m m' : Module} {now : Timespec} {ok : Alloc} {s s' : Sys} {i : Nat}

theorem takeBatch_stop (hstop : m.stop = true) : (takeBatch m).phase = .stopped := by
  rw [takeBatch, if_pos hstop]

/-- The look at `stop` that finds it set is the last turn. -/
theorem stops_at_look (hstop : m.stop = true) (hwait : m.AtWaitPoint) : (Coseq.sched m now ok).phase = .stopped := by
  rcases hwait with hphase | ⟨d, hphase⟩
  · have hmerged : (mergeDeferred m).stop = true := by
      rw [merge_eq]
      exact hstop
    have hbusy : ¬((mergeDeferred m).inbox = [] ∧ (mergeDeferred m).stop = false) := by
      rw [hmerged]
      exact fun h => Bool.noConfusion h.2
    simp only [Coseq.sched, hphase]
    rw [enterWait, if_neg hbusy]
    exact takeBatch_stop hmerged
  · simp only [Coseq.sched, hphase]
    exact takeBatch_stop hstop

theorem Merged.atWaitPoint {inbox deferred : List Ev} (h : Merged m inbox deferred) : m.AtWaitPoint := by
  cases h with
  | kept hphase => exact hphase.elim .inr fun h => .inl h.1
  | spliced hphase => exact .inl hphase

/-- A turn of a thread that is told to stop brings it nearer to the end of its loop. -/
theorem stop_turn (hstop : m.stop = true) {eff : Effect} (hstep : m.step (.sched now ok) = some (m', eff)) :
    m'.turnsLeft + 1 ≤ m.turnsLeft := by
  have hsched : m' = Coseq.sched m now ok := by
    rw [Module.step] at hstep
    split at hstep
    · cases hstep
    · exact (Prod.mk.inj (Option.some.inj hstep)).1.symm
  rcases (Module.step_move hstep).turn with ⟨_, _, hlook⟩ | honward
  · have hend : (Coseq.sched m now ok).phase = .stopped := stops_at_look hstop hlook.merged.atWaitPoint
    have hzero : m'.turnsLeft = 0 := by
      rw [hsched]
      simp [Module.turnsLeft, hend]
    have hone : m.turnsLeft = 1 := by
      rcases hlook.merged.atWaitPoint with hphase | ⟨d, hphase⟩ <;> simp [Module.turnsLeft, hphase]
    omega
  · exact honward.left

theorem Move.stop_keeps {act : ModAct} {eff : Effect} (hmove : Move m act eff m') (hstop : m.stop = true) :
    m'.stop = true := by
  cases hmove with
  | stop => rfl
  | _ => exact hstop

theorem step_stop {a : Act} (hstep : s.step a = some s') (hstop : (s.module i).stop = true) :
    (s'.module i).stop = true := by
  obtain ⟨m₁, hm₁, hs'⟩ := Sys.step_moved hstep i
  have hkeep : m₁.stop = true := by
    cases hm₁ with
    | stay => exact hstop
    | move _ hmove => exact hmove.stop_keeps hstop
  rcases hs' with heq | ⟨e, heq⟩
  · rw [heq]
    exact hkeep
  · rw [heq]
    exact hkeep

theorem turnsLeft_pos (h : ¬m.Ended) : 0 < m.turnsLeft := by
  obtain ⟨hstopped, hdefined⟩ := not_or.mp h
  cases hphase : m.phase with
  | stopped => exact absurd hphase hstopped
  | undefined => exact absurd hphase hdefined
  | _ => simp [Module.turnsLeft, hphase]

theorem free_to_turn (hi : i < s.ctx.nrModule) (h : ¬(s.module i).Ended) : s.FreeToTurn i := by
  by_cases hcur : (s.module i).current.isSome = true
  · exact .inl hcur
  · refine .inr fun ok => ?_
    obtain ⟨hstopped, hdefined⟩ := not_or.mp h
    rw [Sys.step, Sys.stepModule, if_pos hi, Module.step, if_neg (by simp [hcur, hstopped, hdefined])]
    rfl

/-- However the other threads and the fibers go on, a module thread that is told to stop makes at most as many turns
as its batch, its fibers and the point it is at allow. When it has made them it has left its loop, and until then
only its own running fiber can hold it up. A turn that touches a freed fiber ends the count as well. -/
theorem stops_in_time {ok : Sys → Act → Prop} {as : List Act} (hstop : (s.module i).stop = true)
    (hrun : Lts.Logged Sys.step ok (fun _ a => [a]) s as s') (hi : i < s'.ctx.nrModule) :
    as.countP (Act.turnOf i) ≤ (s.module i).turnsLeft ∧ ((s'.module i).Ended ∨
      as.countP (Act.turnOf i) < (s.module i).turnsLeft ∧ s'.FreeToTurn i) := by
  have hbound : (s'.module i).turnsLeft + as.countP (Act.turnOf i) ≤ (s.module i).turnsLeft := by
    refine hrun.ranked (fun s => (s.module i).turnsLeft) (Act.turnOf i) fun s₁ a s₂ hreach _ hstep => ?_
    have hstop₁ : (s₁.module i).stop = true :=
      hreach.invariant (P := fun s => (s.module i).stop = true) hstop fun _ _ _ _ h _ hstep => step_stop hstep h
    rcases step_turn hstep i with ⟨hno, hsame⟩ | ⟨hturn, m₁, eff, now, ok, hsched, hsame⟩
    · rw [hno, hsame.turnsLeft]
      exact Nat.le_refl _
    · rw [hturn, hsame.turnsLeft]
      exact stop_turn hstop₁ hsched
  refine ⟨by omega, or_iff_not_imp_left.mpr fun hend => ⟨?_, free_to_turn hi hend⟩⟩
  have hleft := turnsLeft_pos hend
  omega

/-- The thread of module 0 has taken two STARTs when it is told to stop. -/
def toldRun : List Act :=
  [.requestAsync 0 0 0 [], .asyncPost 0 .granted, .requestAsync 0 0 0 [], .asyncPost 0 .granted, .thread 0, .stop 0]

/-- It starts both sequences before it looks at `stop`. -/
def lastTurns : List Act :=
  [.thread 0, .thread 0, .thread 0, .fiber 0 .ret, .thread 0, .fiber 0 .ret, .thread 0, .thread 0]

theorem lastTurns_stop : ∃ s s', Reaches (fun _ _ => True) [⟨1, false⟩] s ∧
    Lts.Logged Sys.step (fun _ _ => True) (fun _ a => [a]) s lastTurns s' ∧
    ((s.module 0).stop = true ∧ (s.module 0).turnsLeft = 6 ∧ 0 < s'.ctx.nrModule) ∧
    lastTurns.countP (Act.turnOf 0) ≤ (s.module 0).turnsLeft ∧ ((s'.module 0).Ended ∨
      lastTurns.countP (Act.turnOf 0) < (s.module 0).turnsLeft ∧ s'.FreeToTurn 0) := by
  obtain ⟨s, s', hreach, hrun, hs⟩ : ∃ s s', Reaches (fun _ _ => True) [⟨1, false⟩] s ∧
      Lts.Logged Sys.step (fun _ _ => True) (fun _ a => [a]) s lastTurns s' ∧
      decide ((s.module 0).stop = true ∧ (s.module 0).turnsLeft = 6 ∧ 0 < s'.ctx.nrModule) = true :=
    Lts.exists_continued toldRun lastTurns (by decide +kernel)
  obtain ⟨hstop, hleft, hin⟩ := of_decide_eq_true hs
  exact ⟨s, s', hreach, hrun, ⟨hstop, hleft, hin⟩, stops_in_time hstop hrun hin⟩

end Stop

/-! ### No event waits for ever -/

section Answer

variable {m m' : Module} {now : Timespec} {ok : Alloc} {eff : Effect} {n : Nat} {s s' : Sys} {i : Nat}

/-- What arrives has a new number. -/
theorem LeftAlone.turnsUntil (h : LeftAlone m m') (hn : n < m.posted) : m'.turnsUntil n = m.turnsUntil n := by
  obtain ⟨es, hes, hnew⟩ := h.inbox
  have happend : Ev.serials (m.inbox ++ es) = Ev.serials m.inbox ++ Ev.serials es := List.map_append
  have hlate : n ∉ Ev.serials es := by
    intro hmem
    obtain ⟨e, he, rfl⟩ := List.mem_map.mp hmem
    exact absurd (hnew e he) (Nat.not_le_of_lt hn)
  unfold Module.turnsUntil
  rw [h.batch, h.passTurns, h.turnsLeft, h.fibers, h.deferred, hes, happend]
  by_cases hinbox : n ∈ Ev.serials m.inbox
  · rw [if_pos hinbox, if_pos (List.mem_append_left _ hinbox), List.idxOf_append_of_mem hinbox]
  · rw [if_neg hinbox, if_neg fun hmem => (List.mem_append.mp hmem).elim hinbox hlate]

/-- The splice moves an event of the inbox back by no more than what was deferred. -/
theorem Merged.place {inbox deferred : List Ev} (hmerge : Merged m inbox deferred) (hn : n ∈ Ev.serials m.inbox) :
    n ∈ Ev.serials inbox ∧
      deferred.length + (Ev.serials inbox).idxOf n ≤ m.deferred.length + (Ev.serials m.inbox).idxOf n := by
  cases hmerge with
  | kept => exact ⟨hn, Nat.le_refl _⟩
  | spliced =>
      have happend : Ev.serials (m.deferred ++ m.inbox) = Ev.serials m.deferred ++ Ev.serials m.inbox :=
        List.map_append
      have hlen : (Ev.serials m.deferred).length = m.deferred.length := List.length_map _
      rw [happend]
      refine ⟨List.mem_append_right _ hn, ?_⟩
      rw [List.length_nil, Nat.zero_add]
      by_cases hd : n ∈ Ev.serials m.deferred
      · rw [List.idxOf_append_of_mem hd]
        have hlt := List.idxOf_lt_length_of_mem hd
        omega
      · rw [List.idxOf_append_of_notMem hd]
        omega

theorem look_nearer {inbox deferred : List Ev} (hlook : Looked m m' inbox deferred) (hmodes : Modes m)
    (hface : m.Faces n) : m'.turnsUntil n + 1 ≤ m.turnsUntil n := by
  have hwait := hlook.merged.atWaitPoint
  have hbatch : m.batch = [] := (hmodes.swept hwait).1
  have hnone : n ∉ Ev.serials m.batch := by
    rw [hbatch]
    exact List.not_mem_nil
  have hinbox : n ∈ Ev.serials m.inbox := hface.resolve_left hnone
  have hleft : m.turnsLeft = 1 := by
    rcases hwait with hphase | ⟨d, hphase⟩ <;> simp [Module.turnsLeft, hphase]
  have hbefore : m.turnsUntil n = 1 + m.fibers.length + m.deferred.length + (Ev.serials m.inbox).idxOf n + 3 := by
    rw [Module.turnsUntil, if_neg hnone, if_pos hinbox, hleft, hbatch]
    simp only [List.length_nil]
    omega
  obtain ⟨hmem, hplace⟩ := hlook.merged.place hinbox
  rcases hlook.next with hempty | ⟨hphase, hbatch', hinbox'⟩ | ⟨hphase, hbatch', hinbox'⟩
  · rw [hempty] at hmem
    cases hmem
  · have hnone' : n ∉ Ev.serials m'.batch := by rwa [hbatch']
    have hafter : m'.turnsUntil n = m.fibers.length + deferred.length + (Ev.serials inbox).idxOf n + 3 := by
      rw [Module.turnsUntil, if_neg hnone', hinbox', if_pos hmem, hbatch', hbatch, hlook.fibers, hlook.deferred]
      simp only [Module.turnsLeft, hphase, List.length_nil]
      omega
    omega
  · have hafter : m'.turnsUntil n = m.fibers.length + 2 + (Ev.serials inbox).idxOf n + 1 := by
      rw [Module.turnsUntil, hbatch', if_pos hmem, ← hlook.fibers]
      simp only [Module.passTurns, hphase]
    omega

theorem onward_nearer (honward : Onward m m') (hnodup : (Ev.serials m.queue).Nodup) (hface : m.Faces n) :
    m'.turnsUntil n + 1 ≤ m.turnsUntil n := by
  have hparts : Ev.serials m.queue = Ev.serials m.deferred ++ Ev.serials m.batch ++ Ev.serials m.inbox := by
    simp [Ev.serials, Module.queue]
  by_cases hbatch : n ∈ Ev.serials m.batch
  · have hbefore : m.turnsUntil n = m.passTurns + (Ev.serials m.batch).idxOf n + 1 := if_pos hbatch
    rcases honward.batch with ⟨heq, hpass⟩ | ⟨hnil, -⟩ | ⟨e, hcons, hpass, hpass'⟩
    · have hafter : m'.turnsUntil n = m'.passTurns + (Ev.serials m.batch).idxOf n + 1 := by
        rw [Module.turnsUntil, heq, if_pos hbatch]
      omega
    · rw [hnil] at hbatch
      cases hbatch
    · have hlist : Ev.serials m.batch = e.serial :: Ev.serials m'.batch := congrArg Ev.serials hcons
      rw [hlist] at hbatch hbefore hparts
      by_cases hhead : e.serial = n
      · -- the event itself has had its turn, and no other has its number
        have hgone : m'.turnsUntil n = 0 := by
          rw [hparts, List.append_assoc] at hnodup
          have htail := (List.nodup_append.mp hnodup).2.1
          rw [List.cons_append, List.nodup_cons, List.mem_append, hhead] at htail
          rw [Module.turnsUntil, if_neg fun h => htail.1 (.inl h), honward.inbox, if_neg fun h => htail.1 (.inr h)]
        omega
      · have hrest : n ∈ Ev.serials m'.batch := (List.mem_cons.mp hbatch).resolve_left fun h => hhead h.symm
        have hafter : m'.turnsUntil n = m'.passTurns + (Ev.serials m'.batch).idxOf n + 1 := if_pos hrest
        rw [List.idxOf_cons_ne _ hhead] at hbefore
        omega
  · have hinbox : n ∈ Ev.serials m.inbox := hface.resolve_left hbatch
    have hbatch' : n ∉ Ev.serials m'.batch := by
      rcases honward.batch with ⟨heq, -⟩ | ⟨-, hnil⟩ | ⟨e, hcons, -, -⟩
      · rwa [heq]
      · rw [hnil]
        exact List.not_mem_nil
      · rw [hcons] at hbatch
        exact fun h => hbatch (List.mem_cons_of_mem _ h)
    unfold Module.turnsUntil
    rw [if_neg hbatch', if_neg hbatch, honward.inbox, if_pos hinbox, if_pos hinbox]
    have hleft := honward.left
    have hfibers := honward.fibers
    have hdeferred := honward.deferred
    omega

/-- A move takes events out of the queues and puts none in. -/
theorem Move.queue_sublist {act : ModAct} (hmove : Move m act eff m') (hmodes : Modes m) :
    List.Sublist m'.queue m.queue := by
  have hmerged : ∀ {inbox deferred : List Ev}, Merged m inbox deferred → deferred ++ inbox = m.queue := by
    intro inbox deferred hmerge
    obtain ⟨hbatch, hlist⟩ := hmerge.queue hmodes
    rw [hlist, Module.queue, hbatch, List.append_nil]
  have hsame : ∀ {l : List Ev}, l = m.queue → List.Sublist l m.queue := fun h => h ▸ .refl _
  have hhead : ∀ {e rest}, AtHead m e rest → List.Sublist (m.deferred ++ rest ++ m.inbox) m.queue := by
    intro e rest hhead
    rw [hhead.queue, List.append_assoc]
    exact (List.sublist_cons_self e _).append_left _
  cases hmove with
  | park _ _ hmerge =>
      refine hsame (Eq.trans ?_ (hmerged hmerge))
      simp [Module.queue, (hmerge.queue hmodes).1]
  | halt _ hmerge =>
      refine hsame (Eq.trans ?_ (hmerged hmerge))
      simp [Module.queue, (hmerge.queue hmodes).1]
  | take _ hmerge =>
      refine hsame (Eq.trans ?_ (hmerged hmerge))
      simp [Module.queue]
  | defer _ hhd _ =>
      refine hsame (Eq.trans ?_ hhd.queue.symm)
      simp [Module.queue]
  | drop _ hhd => exact hhead hhd
  | begin _ hhd => exact hhead hhd
  | undefined _ hhd => exact hhead hhd
  | wake _ hhd => exact hhead hhd
  | queue _ hhd => exact hhead hhd
  | lose _ hhd => exact hhead hhd
  | _ => exact .refl _

/-- The events a module holds have different numbers. -/
theorem serials_nodup {ok : Sys → Act → Prop} {tbl : List Reg} (hrun : Reaches ok tbl s) (j : Nat) :
    (Ev.serials (s.module j).queue).Nodup := by
  have h : Modes (s.module j) ∧ (∀ e ∈ (s.module j).queue, e.serial < (s.module j).posted) ∧
      (Ev.serials (s.module j).queue).Nodup := by
    refine module_invariant (G := fun _ _ => True)
      (P := fun m => Modes m ∧ (∀ e ∈ m.queue, e.serial < m.posted) ∧ (Ev.serials m.queue).Nodup) hrun
      (fun _ _ _ _ _ _ => trivial) (fun i reg => ⟨Modes.boot i reg, fun e he => absurd he List.not_mem_nil, .nil⟩)
      ?_ ?_ j
    · rintro m act eff m' ⟨hmodes, hlt, hnodup⟩ - hmove
      refine ⟨hmodes.move hmove, fun e he => ?_, hnodup.sublist (List.Sublist.map _ (hmove.queue_sublist hmodes))⟩
      rw [hmove.accepted.2]
      exact hlt e (hmove.queue_subset e he)
    · rintro m e ⟨hmodes, hlt, hnodup⟩
      have hqueue : (m.enqueue e).queue = m.queue ++ [{ e with serial := m.posted }] := by
        simp [Module.queue, Module.enqueue]
      refine ⟨hmodes.enqueue e, fun e' he' => ?_, ?_⟩
      · rcases Module.mem_enqueue he' with hold | rfl
        · exact Nat.lt_succ_of_lt (hlt e' hold)
        · exact Nat.lt_succ_self _
      · have happend : Ev.serials (m.queue ++ [{ e with serial := m.posted }]) = Ev.serials m.queue ++ [m.posted] := by
          simp [Ev.serials]
        rw [hqueue, happend]
        refine List.nodup_append.mpr ⟨hnodup, by simp, fun x hx y hy => ?_⟩
        obtain ⟨e', he', rfl⟩ := List.mem_map.mp hx
        obtain rfl := List.mem_singleton.mp hy
        exact Nat.ne_of_lt (hlt e' he')
  exact h.2.2

theorem turnsUntil_pos (h : m.Faces n) : 0 < m.turnsUntil n := by
  unfold Module.turnsUntil
  split
  · omega
  · rename_i hbatch
    rw [if_pos (h.resolve_left hbatch)]
    omega

/-- Two STARTs are in the inbox of module 0, whose thread sleeps. -/
def queuedStarts : List Act :=
  [.requestAsync 0 0 0 [], .requestAsync 1 0 0 [], .thread 0, .asyncPost 0 .granted, .asyncPost 1 .granted]

/-- The thread comes to the second of them, which then has its turn. -/
def secondsTurn : List Act := [.thread 0, .thread 0, .thread 0, .thread 0, .fiber 0 .ret, .thread 0]

end Answer

end Coseq
