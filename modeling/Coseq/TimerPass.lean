import Coseq.WaitTimeout
import Mathlib.Data.List.MinMax
import Mathlib.Data.List.Nodup

/-! The two loops over the timers. The scan at the top of the scheduler loop finds the least deadline of the
fibers that the lock permits, and the pass after the sleep gives each fiber of the list one turn, in which it
goes on if it is due and permitted then, whatever the fibers before it have done. -/

namespace Coseq

namespace Module

variable (m : Module)

/-- The lock lets the scheduler resume `a`. -/
def Permits (a : FiberRef) : Prop := m.lockedBy = none ∨ m.lockedBy = some a

instance (a : FiberRef) : Decidable (m.Permits a) := inferInstanceAs (Decidable (_ ∨ _))

/-- `a` has its timer armed, and the lock permits it. -/
def Armed (a : FiberRef) : Prop := (m.fiber a).waitingTimer = true ∧ m.Permits a

instance (a : FiberRef) : Decidable (m.Armed a) := inferInstanceAs (Decidable (_ ∧ _))

/-- `a` is to go on when the pass with the clock value `t` comes to it. -/
def Due (t : Timespec) (a : FiberRef) : Prop := m.Armed a ∧ tsLt t (m.fiber a).deadline = false

instance (t : Timespec) (a : FiberRef) : Decidable (m.Due t a) := inferInstanceAs (Decidable (_ ∧ _))

end Module

variable {m m' : Module} {a : FiberRef} {t : Timespec}

theorem Module.not_permits : m.lockedBy ≠ none ∧ some a ≠ m.lockedBy ↔ ¬m.Permits a := by
  rw [Module.Permits, not_or]
  exact and_congr_right' ⟨fun h heq => h heq.symm, fun h heq => h heq.symm⟩

/-! ### The scan -/

/-- One turn of the scan. -/
def scanTurn (m : Module) (best : Option Timespec) (a : FiberRef) : Option Timespec :=
  if m.Armed a then
    match best with
    | none => some (m.fiber a).deadline
    | some t => if tsLt (m.fiber a).deadline t then some (m.fiber a).deadline else best
  else best

theorem nearest_eq : nearest m = m.fibers.foldl (scanTurn m) none := by
  unfold nearest
  congr 1
  funext best a
  unfold scanTurn
  dsimp only
  by_cases harmed : m.Armed a
  · obtain ⟨htimer, hpermit⟩ := harmed
    have hnot : ¬(m.lockedBy ≠ none ∧ some a ≠ m.lockedBy) := fun h => Module.not_permits.mp h hpermit
    have hrun : ¬(!(m.fiber a).waitingTimer) = true := by simp [htimer]
    exact (if_neg hrun).trans ((if_neg hnot).trans (if_pos (c := m.Armed a) ⟨htimer, hpermit⟩).symm)
  · rw [if_neg harmed]
    split
    · rfl
    · rename_i htimer
      refine if_pos (Module.not_permits.mpr fun hpermit => harmed ⟨?_, hpermit⟩)
      simpa using htimer

/-- The scan computes the deadline of the armed fiber that is due first. -/
theorem scan_argmin (l : List FiberRef) (hnormal : ∀ a ∈ l, (m.fiber a).deadline.Normal) (best : Option FiberRef)
    (hbest : ∀ b ∈ best, (m.fiber b).deadline.Normal) :
    l.foldl (scanTurn m) (best.map fun b => (m.fiber b).deadline) =
      ((l.filter fun a => m.Armed a).foldl
        (List.argAux fun b c => (m.fiber b).deadline.ns < (m.fiber c).deadline.ns) best).map
          fun b => (m.fiber b).deadline := by
  induction l generalizing best with
  | nil => rfl
  | cons a l ih =>
      have hl : ∀ b ∈ l, (m.fiber b).deadline.Normal := fun b hb => hnormal b (List.mem_cons_of_mem a hb)
      rw [List.foldl_cons]
      by_cases harmed : m.Armed a
      · rw [List.filter_cons_of_pos (by simpa using harmed), List.foldl_cons]
        have ha := hnormal a List.mem_cons_self
        have hturn : scanTurn m (best.map fun b => (m.fiber b).deadline) a =
            (List.argAux (fun b c => (m.fiber b).deadline.ns < (m.fiber c).deadline.ns) best a).map
              fun b => (m.fiber b).deadline := by
          unfold scanTurn
          rw [if_pos harmed]
          cases best with
          | none => rfl
          | some b =>
              simp only [Option.map_some, List.argAux, tsLt_iff ha (hbest b rfl)]
              split <;> rfl
        rw [hturn]
        refine ih hl _ fun b hb => ?_
        cases best with
        | none =>
            obtain rfl : a = b := Option.some.inj hb
            exact ha
        | some c =>
            simp only [List.argAux] at hb
            split at hb
            · obtain rfl : a = b := Option.some.inj hb
              exact ha
            · exact hbest b hb
      · have hturn : scanTurn m (best.map fun b => (m.fiber b).deadline) a =
            best.map fun b => (m.fiber b).deadline := if_neg harmed
        rw [List.filter_cons_of_neg (by simpa using harmed), hturn]
        exact ih hl best hbest

/-- The scan finds no deadline when no permitted fiber has its timer armed, and otherwise the least one. -/
theorem nearest_least (hnormal : ∀ a ∈ m.fibers, (m.fiber a).deadline.Normal) :
    ((nearest m).isSome = true ↔ ∃ a ∈ m.fibers, m.Armed a) ∧
      ∀ d, nearest m = some d → (∃ a ∈ m.fibers, m.Armed a ∧ (m.fiber a).deadline = d) ∧
        ∀ a ∈ m.fibers, m.Armed a → d.ns ≤ (m.fiber a).deadline.ns := by
  have hscan : nearest m = ((m.fibers.filter fun a => m.Armed a).argmin fun a => (m.fiber a).deadline.ns).map
      fun a => (m.fiber a).deadline := by
    rw [nearest_eq]
    exact scan_argmin m.fibers hnormal none fun b hb => by cases hb
  have hmem : ∀ a, a ∈ m.fibers.filter (fun a => m.Armed a) ↔ a ∈ m.fibers ∧ m.Armed a := by simp
  rw [hscan]
  constructor
  · rw [Option.isSome_map, Option.isSome_iff_ne_none, Ne, List.argmin_eq_none, List.eq_nil_iff_forall_not_mem]
    push Not
    exact exists_congr hmem
  · intro d hd
    obtain ⟨a, ha, rfl⟩ := Option.map_eq_some_iff.mp hd
    obtain ⟨hfiber, harmed⟩ := (hmem a).mp (List.argmin_mem ha)
    refine ⟨⟨a, hfiber, harmed, rfl⟩, fun b hb hb' => ?_⟩
    have hle : (m.fiber a).deadline.ns ≤ (m.fiber b).deadline.ns :=
      List.le_of_mem_argmin (f := fun a => (m.fiber a).deadline.ns) ((hmem b).mpr ⟨hb, hb'⟩) ha
    exact hle

/-! ### The pass -/

/-- What happens at a module: a step of its own, or a post to it. -/
inductive ModLabel where
  | act (a : ModAct)
  | post (e : Ev)

def Module.next (m : Module) : ModLabel → Option Module
  | .act a => (m.step a).map Prod.fst
  | .post e => some (m.enqueue e)

/-- A step of the system is at every module at most a step of its own and then a post to it. -/
theorem Sys.step_next {s s' : Sys} {act : Act} (h : s.step act = some s') (j : Nat) :
    Lts.Run Module.next (fun _ _ => True) (s.module j) (s'.module j) := by
  obtain ⟨m₁, hm₁, hs'⟩ := Sys.step_stepped h j
  have hown : Lts.Run Module.next (fun _ _ => True) (s.module j) m₁ := by
    cases hm₁ with
    | stay => exact .refl
    | @step act eff _ _ hstep =>
        have hnext : (s.module j).next (.act act) = some m₁ := by
          rw [Module.next, hstep]
          rfl
        exact Lts.Run.refl.tail trivial hnext
  rcases hs' with heq | ⟨e, heq⟩
  · rw [heq]
    exact hown
  · have hpost : m₁.next (.post e) = some (s'.module j) := by
      rw [heq]
      rfl
    exact hown.tail trivial hpost

/-- The thread goes on when the clock shows `sec` seconds, and every allocation succeeds. -/
def ModLabel.thread (sec : Int) : ModLabel := .act (.sched ⟨sec, 0⟩ .granted)

/-- An external request for the first sequence arrives. -/
def ModLabel.start (rid : Nat) : ModLabel := .post ⟨.start, 0, rid, .external, .ignore, 0, 0, [], 0⟩

/-- The running fiber makes a call at time 0, and every allocation succeeds. -/
def ModLabel.fiber (c : Call) : ModLabel := .act (.call c ⟨0, 0⟩ 0 .granted)

/-- What can be seen of a timer pass: the clock value it works with, the fiber it comes to and whether that is
due then, and a fiber that goes on. -/
inductive PassObs where
  | clock (now : Timespec)
  | turn (a : FiberRef) (due : Bool)
  | resumed (a : FiberRef)
  deriving DecidableEq

/-- The fiber that a step of the scheduler resumes. -/
def Module.resumes (m m' : Module) : List PassObs :=
  match m.current, m'.current with
  | none, some a => [.resumed a]
  | _, _ => []

/-- What the pass shows before a fiber goes on. -/
def Module.turnObs (m : Module) : ModLabel → List PassObs
  | .act (.sched now _) =>
      match m.phase with
      | .clock => [.clock now]
      | .timers t (a :: _) => [.turn a (decide (m.Due t a))]
      | _ => []
  | _ => []

def Module.passObs (m : Module) (l : ModLabel) : List PassObs :=
  m.turnObs l ++ (m.next l).elim [] m.resumes

/-- The scheduler has not come to the events yet. -/
def BeforeEvents (m : Module) (_ : ModLabel) : Prop := m.phase ≠ .events

instance (m : Module) (l : ModLabel) : Decidable (BeforeEvents m l) := inferInstanceAs (Decidable (_ ≠ _))

/-- A pass that gives each fiber one turn, in which it goes on if it is due. -/
def passLog (now : Timespec) (turns : List (FiberRef × Bool)) : List PassObs :=
  .clock now :: turns.flatMap fun p => .turn p.1 p.2 :: if p.2 then [.resumed p.1] else []

theorem passLog_concat {now : Timespec} {turns : List (FiberRef × Bool)} {p : FiberRef × Bool} :
    passLog now (turns ++ [p]) = passLog now turns ++ .turn p.1 p.2 :: if p.2 then [.resumed p.1] else [] := by
  simp [passLog]

theorem resumed_mem_passLog {now : Timespec} {turns : List (FiberRef × Bool)} :
    .resumed a ∈ passLog now turns ↔ (a, true) ∈ turns := by
  simp only [passLog, List.mem_cons, reduceCtorEq, false_or, List.mem_flatMap]
  constructor
  · rintro ⟨⟨b, due⟩, hmem, hres⟩
    cases due
    · simp at hres
    · have hab : a = b := by simpa using hres
      rw [hab]
      exact hmem
  · exact fun hmem => ⟨_, hmem, by simp⟩

theorem count_resumed_passLog {now : Timespec} {turns : List (FiberRef × Bool)} :
    (passLog now turns).count (.resumed a) = turns.count (a, true) := by
  induction turns using List.reverseRecOn with
  | nil => rfl
  | append_singleton turns p ih =>
      obtain ⟨b, due⟩ := p
      rw [passLog_concat, List.count_append, List.count_append, ih]
      cases due
      · simp
      · by_cases hb : b = a
        · simp [hb]
        · simp [hb]

theorem timerTurn_due {ok : Alloc} (h : m.Due t a) :
    (timerTurn m t a ok).current = some a ∧ (timerTurn m t a ok).phase = m.phase := by
  obtain ⟨⟨htimer, hpermit⟩, hdue⟩ := h
  have hlock : (!decide (m.lockedBy ≠ none ∧ some a ≠ m.lockedBy)) = true := by
    rw [Bool.not_eq_true', decide_eq_false_iff_not]
    exact fun hnot => Module.not_permits.mp hnot hpermit
  unfold timerTurn
  dsimp only
  rw [htimer, hdue, if_pos (by decide), if_pos hlock]
  split
  · exact ⟨rfl, rfl⟩
  · exact ⟨rfl, rfl⟩

theorem timerTurn_not_due {ok : Alloc} (h : ¬m.Due t a) : timerTurn m t a ok = m := by
  unfold timerTurn
  dsimp only
  split
  · rename_i hfired
    obtain ⟨htimer, hdue⟩ := Bool.and_eq_true_iff.mp hfired
    rw [Bool.not_eq_true'] at hdue
    refine if_neg fun hlock => h ⟨⟨htimer, ?_⟩, hdue⟩
    rw [Bool.not_eq_true', decide_eq_false_iff_not] at hlock
    by_contra hpermit
    exact hlock (Module.not_permits.mpr hpermit)
  · rfl

/-- No fiber has run since `m`. -/
structure Untouched (m m' : Module) : Prop where
  current : m'.current = none
  fibers : m'.fibers = m.fibers
  fiber : m'.fiber = m.fiber
  lockedBy : m'.lockedBy = m.lockedBy

/-- The way from the sleep to the events, with what has been seen on it. -/
inductive InPass (m₀ : Module) : List PassObs → Module → Prop where
  | wait {m : Module} (hphase : (∃ d, m.phase = .waiting d) ∨ m.phase = .clock) (hsame : Untouched m₀ m) :
      InPass m₀ [] m
  | halted {m : Module} (hphase : m.phase = .stopped) (hcur : m.current = none) : InPass m₀ [] m
  | pass {m : Module} {now : Timespec} {turns : List (FiberRef × Bool)} {rest : List FiberRef}
      (hphase : m.phase = .timers now rest ∨ m.phase = .events ∧ rest = [])
      (hlist : m₀.fibers = turns.map Prod.fst ++ rest)
      (hquiet : (∀ p ∈ turns, p.2 = false) → Untouched m₀ m ∧ ∀ p ∈ turns, ¬m₀.Due now p.1) :
      InPass m₀ (passLog now turns) m

theorem resumes_running (h : m.current.isSome = true) : m.resumes m' = [] := by
  obtain ⟨b, hb⟩ := Option.isSome_iff_exists.mp h
  simp [Module.resumes, hb]

theorem resumes_idle (h : m'.current = none) : m.resumes m' = [] := by
  unfold Module.resumes
  rw [h]
  split
  · rename_i h'
    cases h'
  · rfl

theorem resumes_same (h : m'.current = m.current) : m.resumes m' = [] := by
  cases hcur : m.current with
  | none => exact resumes_idle (h.trans hcur)
  | some b => exact resumes_running (Option.isSome_iff_exists.mpr ⟨b, hcur⟩)

/-- A call does not move the scheduler. -/
theorem call_phase {c : Call} {now : Timespec} {id : Nat} {ok : Alloc} {eff : Effect}
    (h : m.step (.call c now id ok) = some (m', eff)) : m.current.isSome = true ∧ m'.phase = m.phase := by
  cases Module.step_move h with
  | issue hcur => exact ⟨Option.isSome_iff_exists.mpr ⟨_, hcur⟩, rfl⟩
  | «local» hcur => exact ⟨Option.isSome_iff_exists.mpr ⟨_, hcur⟩, rfl⟩
  | lock hcur => exact ⟨Option.isSome_iff_exists.mpr ⟨_, hcur⟩, rfl⟩
  | unlock hcur => exact ⟨Option.isSome_iff_exists.mpr ⟨_, hcur⟩, rfl⟩
  | ret hcur => exact ⟨Option.isSome_iff_exists.mpr ⟨_, hcur⟩, rfl⟩

namespace InPass

variable {m₀ : Module} {log : List PassObs}

/-- What leaves the scheduler and the fibers alone. -/
theorem keep (h : InPass m₀ log m) (hphase : m'.phase = m.phase) (hcur : m'.current = m.current)
    (hfibers : m'.fibers = m.fibers) (hfiber : m'.fiber = m.fiber) (hlock : m'.lockedBy = m.lockedBy) :
    InPass m₀ log m' := by
  have hkeep : Untouched m₀ m → Untouched m₀ m' := fun hsame =>
    ⟨hcur.trans hsame.current, hfibers.trans hsame.fibers, hfiber.trans hsame.fiber, hlock.trans hsame.lockedBy⟩
  cases h with
  | wait hwait hsame => exact .wait (by rwa [hphase]) (hkeep hsame)
  | halted hstop hnone => exact .halted (hphase.trans hstop) (hcur.trans hnone)
  | pass hpass hlist hquiet =>
      exact .pass (by rwa [hphase]) hlist fun hall => (hquiet hall).imp hkeep id

/-- While a fiber runs the scheduler waits for it. -/
theorem call (h : InPass m₀ log m) (hcur : m.current.isSome = true) (hphase : m'.phase = m.phase) :
    InPass m₀ log m' := by
  have hnot : m.current ≠ none := Option.isSome_iff_ne_none.mp hcur
  cases h with
  | wait _ hsame => exact absurd hsame.current hnot
  | halted _ hnone => exact absurd hnone hnot
  | pass hpass hlist hquiet =>
      exact .pass (by rwa [hphase]) hlist fun hall => absurd (hquiet hall).1.current hnot

/-- The pass comes to the next fiber of the list. -/
theorem turn {now : Timespec} {turns : List (FiberRef × Bool)} {rest : List FiberRef} {ok : Alloc}
    (hcur : m.current = none) (hlist : m₀.fibers = turns.map Prod.fst ++ a :: rest)
    (hquiet : (∀ p ∈ turns, p.2 = false) → Untouched m₀ m ∧ ∀ p ∈ turns, ¬m₀.Due now p.1)
    (hm' : m' = timerTurn { m with phase := .timers now rest } now a ok) :
    InPass m₀ (passLog now turns ++ .turn a (decide (m.Due now a)) :: m.resumes m') m' := by
  have hlist' : ∀ due : Bool, m₀.fibers = (turns ++ [(a, due)]).map Prod.fst ++ rest := by
    intro due
    rw [hlist, List.map_append, List.append_assoc]
    rfl
  by_cases hdue : m.Due now a
  · have hturn : (timerTurn { m with phase := .timers now rest } now a ok).current = some a ∧
        (timerTurn { m with phase := .timers now rest } now a ok).phase = .timers now rest := timerTurn_due hdue
    obtain ⟨hresumed, hphase⟩ := hturn
    rw [← hm'] at hresumed hphase
    have hres : m.resumes m' = [.resumed a] := by
      unfold Module.resumes
      rw [hcur, hresumed]
    have hlog : passLog now (turns ++ [(a, true)]) = passLog now turns ++ [.turn a true, .resumed a] := passLog_concat
    rw [decide_eq_true hdue, hres, ← hlog]
    exact .pass (.inl hphase) (hlist' true) fun hall => by simpa using hall (a, true) (by simp)
  · have heq : timerTurn { m with phase := .timers now rest } now a ok = { m with phase := .timers now rest } :=
      timerTurn_not_due hdue
    rw [heq] at hm'
    have hres : m.resumes m' = [] := resumes_same (by rw [hm'])
    have hlog : passLog now (turns ++ [(a, false)]) = passLog now turns ++ [.turn a false] := passLog_concat
    rw [decide_eq_false hdue, hres, ← hlog]
    subst hm'
    refine .pass (.inl rfl) (hlist' false) fun hall => ?_
    obtain ⟨hsame, hnone⟩ := hquiet fun p hp => hall p (List.mem_append_left _ hp)
    refine ⟨⟨hsame.current, hsame.fibers, hsame.fiber, hsame.lockedBy⟩, fun p hp => ?_⟩
    rcases List.mem_append.mp hp with hp | hp
    · exact hnone p hp
    · rw [List.mem_singleton.mp hp]
      intro hdue₀
      apply hdue
      unfold Module.Due Module.Armed Module.Permits at hdue₀ ⊢
      rw [hsame.fiber, hsame.lockedBy]
      exact hdue₀

theorem sched (h : InPass m₀ log m) (hbefore : m.phase ≠ .events) {now : Timespec} {ok : Alloc}
    (hcur : m.current = none) (hm' : m' = Coseq.sched m now ok) (hstopped : m.phase ≠ .stopped) :
    InPass m₀ (log ++ (m.turnObs (.act (.sched now ok)) ++ m.resumes m')) m' := by
  unfold Module.turnObs
  cases h with
  | halted hstop => exact absurd hstop hstopped
  | wait hwait hsame =>
      rcases hwait with ⟨d, hphase⟩ | hphase
      · simp only [Coseq.sched, hphase] at hm'
        rw [hphase]
        unfold takeBatch at hm'
        split at hm'
        · have hres : m.resumes m' = [] := resumes_same (by rw [hm'])
          rw [hres]
          subst hm'
          exact .halted rfl hcur
        · have hres : m.resumes m' = [] := resumes_same (by rw [hm'])
          rw [hres]
          subst hm'
          exact .wait (.inr rfl) ⟨hsame.current, hsame.fibers, hsame.fiber, hsame.lockedBy⟩
      · simp only [Coseq.sched, hphase] at hm'
        have hres : m.resumes m' = [] := resumes_same (by rw [hm'])
        rw [hphase, hres]
        subst hm'
        have hpass : InPass m₀ (passLog now []) { m with phase := .timers now m.fibers } :=
          .pass (.inl rfl) hsame.fibers.symm fun _ =>
            ⟨⟨hsame.current, hsame.fibers, hsame.fiber, hsame.lockedBy⟩, by simp⟩
        exact hpass
  | @pass _ t turns rest hphase hlist hquiet =>
      rcases hphase with hphase | ⟨hphase, -⟩
      · cases rest with
        | nil =>
            simp only [Coseq.sched, hphase] at hm'
            have hres : m.resumes m' = [] := resumes_same (by rw [hm'])
            rw [hphase, hres, List.append_nil, List.append_nil]
            subst hm'
            refine .pass (.inr ⟨rfl, rfl⟩) hlist fun hall => ?_
            obtain ⟨hsame, hnone⟩ := hquiet hall
            exact ⟨⟨hsame.current, hsame.fibers, hsame.fiber, hsame.lockedBy⟩, hnone⟩
        | cons a rest =>
            simp only [Coseq.sched, hphase] at hm'
            rw [hphase]
            exact turn hcur hlist hquiet hm'
      · exact absurd hphase hbefore

theorem step (h : InPass m₀ log m) {l : ModLabel} (hbefore : m.phase ≠ .events) (hstep : m.next l = some m') :
    InPass m₀ (log ++ m.passObs l) m' := by
  unfold Module.passObs
  rw [hstep, Option.elim_some]
  cases l with
  | post e =>
      have hm' := Option.some.inj hstep
      have hres : m.resumes m' = [] := resumes_same (by rw [← hm']; rfl)
      have hturn : m.turnObs (.post e) = [] := rfl
      rw [hres, hturn, List.append_nil, List.append_nil]
      subst hm'
      exact h.keep rfl rfl rfl rfl rfl
  | act a =>
      obtain ⟨⟨m₁, eff⟩, hact, hm'⟩ := Option.map_eq_some_iff.mp hstep
      obtain rfl : m₁ = m' := hm'
      cases a with
      | sched now ok =>
          rw [Module.step] at hact
          split at hact
          · cases hact
          · rename_i hrun
            simp only [not_or, Bool.not_eq_true, Option.isSome_eq_false_iff, Option.isNone_iff_eq_none] at hrun
            exact h.sched hbefore hrun.1 (Prod.mk.inj (Option.some.inj hact)).1.symm hrun.2.1
      | call c now id ok =>
          obtain ⟨hcur, hphase⟩ := call_phase hact
          have hturn : m.turnObs (.act (.call c now id ok)) = [] := rfl
          rw [resumes_running hcur, hturn, List.append_nil, List.append_nil]
          exact h.call hcur hphase
      | stop =>
          have hm₁ := (Prod.mk.inj (Option.some.inj hact)).1
          have hres : m.resumes m₁ = [] := resumes_same (by rw [← hm₁])
          have hturn : m.turnObs (.act .stop) = [] := rfl
          rw [hres, hturn, List.append_nil, List.append_nil]
          subst hm₁
          exact h.keep rfl rfl rfl rfl rfl

theorem run (hstart : InPass m₀ [] m) (hrun : Lts.Logged Module.next BeforeEvents Module.passObs m log m') :
    InPass m₀ log m' :=
  hrun.invariant (P := InPass m₀) hstart fun _ _ _ _ _ h hbefore hstep => h.step hbefore hstep

/-- What has been seen when the scheduler comes to the events. -/
theorem complete (h : InPass m₀ log m) (hphase : m.phase = .events) : ∃ now turns, log = passLog now turns ∧
    turns.map Prod.fst = m₀.fibers ∧ ((∀ p ∈ turns, p.2 = false) → ∀ a ∈ m₀.fibers, ¬m₀.Due now a) := by
  cases h with
  | wait hwait =>
      rcases hwait with ⟨d, hwait⟩ | hwait
      · rw [hphase] at hwait
        cases hwait
      · rw [hphase] at hwait
        cases hwait
  | halted hstop =>
      rw [hphase] at hstop
      cases hstop
  | @pass _ now turns rest hpass hlist hquiet =>
      rcases hpass with hpass | ⟨-, rfl⟩
      · rw [hphase] at hpass
        cases hpass
      · rw [List.append_nil] at hlist
        refine ⟨now, turns, rfl, hlist.symm, fun hall a ha => ?_⟩
        rw [hlist] at ha
        obtain ⟨p, hp, rfl⟩ := List.mem_map.mp ha
        exact (hquiet hall).2 p hp

end InPass

theorem merge_untouched (m : Module) : (mergeDeferred m).fibers = m.fibers ∧ (mergeDeferred m).fiber = m.fiber ∧
    (mergeDeferred m).lockedBy = m.lockedBy ∧ (mergeDeferred m).current = m.current := by
  rw [merge_eq]
  exact ⟨rfl, rfl, rfl, rfl⟩

theorem nearest_congr (hfibers : m'.fibers = m.fibers) (hfiber : m'.fiber = m.fiber)
    (hlock : m'.lockedBy = m.lockedBy) : nearest m' = nearest m := by
  rw [nearest, hfibers, hfiber, hlock, nearest]

/-- The sleep is until the deadline that the scan has found. -/
theorem sleeps {now : Timespec} {ok : Alloc} {d : Option Timespec} (hphase : m.phase = .top)
    (hnext : m.next (.act (.sched now ok)) = some m') (hwait : m'.phase = .waiting d) :
    d = nearest m ∧ Untouched m m' := by
  obtain ⟨⟨m₁, eff⟩, hact, hm₁⟩ := Option.map_eq_some_iff.mp hnext
  obtain rfl : m₁ = m' := hm₁
  rw [Module.step] at hact
  split at hact
  · cases hact
  · rename_i hrun
    simp only [not_or, Bool.not_eq_true, Option.isSome_eq_false_iff, Option.isNone_iff_eq_none] at hrun
    obtain ⟨hfibers, hfiber, hlock, hcur⟩ := merge_untouched m
    have hm₁ := (Prod.mk.inj (Option.some.inj hact)).1
    simp only [Coseq.sched, hphase] at hm₁
    unfold enterWait at hm₁
    split at hm₁
    · subst hm₁
      refine ⟨?_, hcur.trans hrun.1, hfibers, hfiber, hlock⟩
      rw [← Phase.waiting.inj hwait]
      exact nearest_congr hfibers hfiber hlock
    · unfold takeBatch at hm₁
      split at hm₁
      · subst hm₁
        cases hwait
      · subst hm₁
        cases hwait

/-- The scheduler sleeps with a deadline exactly when a permitted fiber has its timer armed, and with the least
one; from a sleep or the wake-up to the events the pass gives each fiber of the list one turn, resumes those that
are due and permitted in their turn and no others, none twice, and with a clock value not before the deadline of
the sleep at least one. -/
theorem timers_agree (m : Module) :
    (∀ now ok m₁ d, (∀ a ∈ m.fibers, (m.fiber a).deadline.Normal) → m.phase = .top →
      m.next (.act (.sched now ok)) = some m₁ → m₁.phase = .waiting d →
        (d.isSome = true ↔ ∃ a ∈ m.fibers, m.Armed a) ∧
        ∀ t, d = some t → (∃ a ∈ m.fibers, m.Armed a ∧ (m.fiber a).deadline = t) ∧
          (∀ a ∈ m.fibers, m.Armed a → t.ns ≤ (m.fiber a).deadline.ns) ∧
          ∀ log m₂ now, Lts.Logged Module.next BeforeEvents Module.passObs m₁ log m₂ → m₂.phase = .events →
            .clock now ∈ log → now.Normal → t.ns ≤ now.ns → ∃ a, .resumed a ∈ log) ∧
    ∀ log m₂, m.fibers.Nodup → m.current = none → (∃ d, m.phase = .waiting d) ∨ m.phase = .clock →
      Lts.Logged Module.next BeforeEvents Module.passObs m log m₂ → m₂.phase = .events →
        ∃ now turns, log = passLog now turns ∧ turns.map Prod.fst = m.fibers ∧
          ∀ a, log.count (.resumed a) ≤ 1 := by
  constructor
  · intro now ok m₁ d hnormal hphase hnext hwait
    obtain ⟨rfl, hsame⟩ := sleeps hphase hnext hwait
    obtain ⟨hsome, hleast⟩ := nearest_least hnormal
    refine ⟨hsome, fun t ht => ?_⟩
    obtain ⟨⟨a, ha, harmed, hdeadline⟩, hmin⟩ := hleast t ht
    refine ⟨⟨a, ha, harmed, hdeadline⟩, hmin, fun log m₂ now hrun hevents hclock hnow hle => ?_⟩
    have hstart : InPass m [] m₁ := .wait (.inl ⟨_, hwait⟩) hsame
    obtain ⟨now', turns, rfl, hlist, hquiet⟩ := (InPass.run hstart hrun).complete hevents
    have heq : now = now' := by
      simp only [passLog, List.mem_cons, PassObs.clock.injEq, List.mem_flatMap] at hclock
      rcases hclock with heq | ⟨p, -, hp⟩
      · exact heq
      · cases hdue : p.2 <;> simp [hdue] at hp
    subst heq
    by_contra hnone
    refine hquiet (fun p hp => ?_) a ha ⟨harmed, ?_⟩
    · cases hdue : p.2 with
      | false => rfl
      | true =>
          obtain ⟨b, due⟩ := p
          obtain rfl : due = true := hdue
          exact absurd ⟨b, resumed_mem_passLog.mpr hp⟩ hnone
    · have hnot : ¬tsLt now (m.fiber a).deadline = true := by
        rw [tsLt_iff hnow (hnormal a ha), hdeadline]
        exact Int.not_lt.mpr hle
      exact Bool.eq_false_iff.mpr hnot
  · intro log m₂ hnodup hcur hphase hrun hevents
    have hstart : InPass m [] m := .wait hphase ⟨hcur, rfl, rfl, rfl⟩
    obtain ⟨now, turns, rfl, hlist, -⟩ := (InPass.run hstart hrun).complete hevents
    refine ⟨now, turns, rfl, hlist, fun a => ?_⟩
    rw [count_resumed_passLog]
    have hturns : turns.Nodup := List.Nodup.of_map Prod.fst (hlist ▸ hnodup)
    exact List.nodup_iff_count_le_one.mp hturns (a, true)

/-- Three sequences wait for 10, 5 and 7 milliseconds. -/
def threeTimersRun : List ModLabel :=
  [.start 1, .start 2, .start 3, .thread 0, .thread 0, .thread 0,
    .thread 0, .fiber (.waitTimeout 10), .thread 0, .fiber (.waitTimeout 5), .thread 0, .fiber (.waitTimeout 7),
    .thread 0]

/-- In the pass at second 1 the first fiber that goes on locks and waits again. -/
def lockingPassRun : List ModLabel :=
  [.thread 0, .thread 1, .thread 1, .fiber .lock, .fiber (.waitTimeout 0), .thread 1, .thread 1, .thread 1]

theorem lockingPassRun_agrees : ∃ m m₁ log m₂, m.phase = .top ∧ m.next (.thread 0) = some m₁ ∧
    Lts.Logged Module.next BeforeEvents Module.passObs m₁ log m₂ ∧
    log = [.clock ⟨1, 0⟩, .turn 2 true, .resumed 2, .turn 1 false, .turn 0 false] ∧
    ((nearest m).isSome = true ↔ ∃ a ∈ m.fibers, m.Armed a) ∧
    (∀ a ∈ m.fibers, m.Armed a → (⟨0, 5000000⟩ : Timespec).ns ≤ (m.fiber a).deadline.ns) ∧
    (∃ a, .resumed a ∈ log) ∧
    ∃ now turns, log = passLog now turns ∧ turns.map Prod.fst = m₁.fibers ∧ ∀ a, log.count (.resumed a) ≤ 1 := by
  obtain ⟨m, m₁, log, m₂, -, hnext, hlog, hm⟩ : ∃ m m₁ log m₂,
      Lts.Run Module.next (fun _ _ => True) (Module.boot 0 ⟨1, false⟩) m ∧ m.next (.thread 0) = some m₁ ∧
        Lts.Logged Module.next BeforeEvents Module.passObs m₁ log m₂ ∧
        decide ((m.phase = .top ∧ (∀ a ∈ m.fibers, (m.fiber a).deadline.Normal) ∧
            nearest m = some ⟨0, 5000000⟩ ∧ m₂.phase = .events ∧
            log = [.clock ⟨1, 0⟩, .turn 2 true, .resumed 2, .turn 1 false, .turn 0 false]) ∧
          (m.next (.thread 0)).any fun m₁ => decide (m₁.fibers.Nodup ∧ m₁.current = none ∧
            m₁.phase = .waiting (nearest m))) = true :=
    Lts.exists_segment threeTimersRun (.thread 0) lockingPassRun (by decide +kernel)
  obtain ⟨⟨htop, hnormal, hd, hevents, hvalue⟩, hm₁⟩ := of_decide_eq_true hm
  rw [hnext] at hm₁
  obtain ⟨hnodup, hcur, hwait⟩ := of_decide_eq_true hm₁
  obtain ⟨hsome, hleast⟩ := (timers_agree m).1 _ _ m₁ _ hnormal htop hnext hwait
  obtain ⟨-, hmin, hresumed⟩ := hleast _ hd
  refine ⟨m, m₁, log, m₂, htop, hnext, hlog, hvalue, hsome, hmin, ?_, ?_⟩
  · exact hresumed log m₂ ⟨1, 0⟩ hlog hevents (by rw [hvalue]; decide) (by decide) (by decide)
  · exact (timers_agree m₁).2 log m₂ hnodup hcur (.inl ⟨_, hwait⟩) hlog hevents

end Coseq
