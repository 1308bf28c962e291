import Coseq.Setup

/-! What a failing `setup` leaves behind. Its two loops undo their work in different ways, and each way that
`setup` can end is told by the list of the pthread calls that have taken effect. -/

namespace Coseq

variable {φ υ : Type} {c c' : Instance φ υ} {fails : Failing} {tbl : Nat → RegEntry φ υ} {n nr : Nat}

/-- The calls of `n` full turns of the first loop of `_setup`. -/
def initOps (n : Nat) : List PthreadOp :=
  (List.range n).flatMap fun i => [.acquire (.mutex i), .acquire (.cond i)]

/-- The calls of `n` full turns of its second loop. -/
def startOps (n : Nat) : List PthreadOp := (List.range n).flatMap fun i => [.acquire (.thread i)]

def signalOps (started : Nat → Bool) (n : Nat) : List PthreadOp :=
  (List.range n).flatMap fun i => if started i then [.use (.mutex i), .use (.cond i)] else []

def joinOps (started : Nat → Bool) (n : Nat) : List PthreadOp :=
  (List.range n).flatMap fun i => if started i then [.release (.thread i)] else []

def destroyOps (n : Nat) : List PthreadOp :=
  (List.range n).flatMap fun i => [.release (.mutex i), .release (.cond i)]

/-- The calls of `stop_modules` when `started` are the threads that run. -/
def stopOps (started : Nat → Bool) (n : Nat) : List PthreadOp :=
  signalOps started n ++ joinOps started n ++ destroyOps n

namespace Instance

def started (c : Instance φ υ) (i : Nat) : Bool := (c.slot i).thStarted

theorem started_setSlot {i j : Nat} {s : Slot φ υ} :
    (c.setSlot i s).started j = if j = i then s.thStarted else c.started j := by
  change (Function.update c.slot i s j).thStarted = _
  by_cases hj : j = i
  · subst hj
    rw [if_pos rfl, Function.update_self]
  · rw [if_neg hj, Function.update_of_ne hj]
    rfl

theorem signalStop_started (c : Instance φ υ) (i : Nat) : (c.signalStop i).started = c.started := by
  funext j
  unfold signalStop
  dsimp only
  split
  · change (setSlot _ i _).started j = _
    rw [started_setSlot]
    split
    · rename_i hj
      rw [hj]
      rfl
    · rfl
  · rfl

theorem signalStops (c : Instance φ υ) (n : Nat) :
    ((List.range n).foldl signalStop c).ops = c.ops ++ signalOps c.started n ∧
      ((List.range n).foldl signalStop c).started = c.started ∧
      ((List.range n).foldl signalStop c).nrModule = c.nrModule := by
  unfold signalOps
  induction n with
  | zero => exact ⟨(List.append_nil _).symm, rfl, rfl⟩
  | succ n ih =>
      obtain ⟨hops, hstarted, hnr⟩ := ih
      rw [List.range_succ, List.foldl_append, List.foldl_cons, List.foldl_nil, List.flatMap_append,
        List.flatMap_singleton, ← List.append_assoc, ← hops]
      refine ⟨?_, (signalStop_started _ n).trans hstarted, ?_⟩
      · rw [← hstarted]
        unfold signalStop started
        dsimp only
        split
        · simp [did, setSlot]
        · rw [List.append_nil]
      · rw [← hnr]
        unfold signalStop
        dsimp only
        split <;> rfl

theorem joins (c : Instance φ υ) (n : Nat) :
    ((List.range n).foldl join c).ops = c.ops ++ joinOps c.started n ∧
      (∀ i, ((List.range n).foldl join c).started i = (c.started i && !decide (i < n))) ∧
      ((List.range n).foldl join c).nrModule = c.nrModule := by
  unfold joinOps
  induction n with
  | zero => exact ⟨(List.append_nil _).symm, by simp, rfl⟩
  | succ n ih =>
      obtain ⟨hops, hstarted, hnr⟩ := ih
      have hn : ((List.range n).foldl join c).started n = c.started n := by
        rw [hstarted]
        simp
      rw [List.range_succ, List.foldl_append, List.foldl_cons, List.foldl_nil, List.flatMap_append,
        List.flatMap_singleton, ← List.append_assoc, ← hops, ← hn, ← hnr]
      have hafter : ∀ i, (c.started i && !decide (i < n + 1)) =
          if i = n then false else ((List.range n).foldl join c).started i := by
        intro i
        rw [hstarted]
        by_cases hi : i = n
        · simp [hi]
        · rw [if_neg hi]
          congr 2
          exact decide_eq_decide.mpr (by omega)
      cases hcase : ((List.range n).foldl join c).started n with
      | true =>
          have hjoin : ((List.range n).foldl join c).join n =
              (((List.range n).foldl join c).did (.release (.thread n))).setSlot n
                { ((List.range n).foldl join c).slot n with thStarted := false } := if_pos hcase
          rw [hjoin]
          exact ⟨rfl, fun i => started_setSlot.trans (hafter i).symm, rfl⟩
      | false =>
          have hjoin : ((List.range n).foldl join c).join n = (List.range n).foldl join c :=
            if_neg (Bool.eq_false_iff.mp hcase)
          rw [hjoin]
          refine ⟨(List.append_nil _).symm, fun i => ?_, rfl⟩
          rw [hafter]
          split
          · rename_i hi
            rw [hi, hcase]
          · rfl

theorem destroys (c : Instance φ υ) (n : Nat) :
    ((List.range n).foldl destroyModule c).ops = c.ops ++ destroyOps n ∧
      ((List.range n).foldl destroyModule c).started = c.started ∧
      ((List.range n).foldl destroyModule c).nrModule = c.nrModule := by
  unfold destroyOps
  induction n with
  | zero => exact ⟨(List.append_nil _).symm, rfl, rfl⟩
  | succ n ih =>
      obtain ⟨hops, hstarted, hnr⟩ := ih
      rw [List.range_succ, List.foldl_append, List.foldl_cons, List.foldl_nil, List.flatMap_append,
        List.flatMap_singleton, ← List.append_assoc, ← hops, ← hstarted, ← hnr]
      exact ⟨List.append_assoc _ _ _, rfl, rfl⟩

/-- `stop_modules` joins the threads that run, and destroys the other objects of all modules. -/
theorem stopModules_spec (c : Instance φ υ) (nr : Nat) :
    (c.stopModules nr).ops = c.ops ++ stopOps c.started nr ∧
      (∀ i < nr, (c.stopModules nr).started i = false) ∧ (c.stopModules nr).nrModule = c.nrModule := by
  obtain ⟨hops, hstarted, hnr⟩ := signalStops c nr
  obtain ⟨hops', hstarted', hnr'⟩ := joins ((List.range nr).foldl signalStop c) nr
  obtain ⟨hops'', hstarted'', hnr''⟩ :=
    destroys ((List.range nr).foldl join ((List.range nr).foldl signalStop c)) nr
  unfold stopModules stopOps
  refine ⟨?_, fun i hi => ?_, hnr''.trans (hnr'.trans hnr)⟩
  · rw [hops'', hops', hops, hstarted]
    simp only [List.append_assoc]
  · rw [hstarted'', hstarted']
    simp [hi]

end Instance

/-! ### The two loops of `_setup` -/

/-- A module after its turn in the first loop. -/
def Slot.boot (i : Nat) (r : RegEntry φ υ) : Slot φ υ := { Slot.fill i r with module := Module.boot i r.reg }

/-- The first `n` modules can be initialised. -/
def Failing.Inits (fails : Failing) (n : Nat) : Prop :=
  ∀ i < n, fails (.mutex i) = false ∧ fails (.cond i) = false

/-- The first `n` threads can be created. -/
def Failing.Starts (fails : Failing) (n : Nat) : Prop := ∀ i < n, fails (.thread i) = false

/-- The first loop has gone through. -/
structure Initialised (fails : Failing) (tbl : Nat → RegEntry φ υ) (n : Nat) (c c' : Instance φ υ) : Prop where
  inits : fails.Inits n
  ops : c'.ops = c.ops ++ initOps n
  nrModule : c'.nrModule = c.nrModule
  filled : ∀ i < n, c'.slot i = Slot.boot i (tbl i)
  others : ∀ i, n ≤ i → c'.slot i = c.slot i

/-- The first loop has returned: `pthread_mutex_init` or `pthread_cond_init` has failed for module `j`. -/
structure InitFailed (fails : Failing) (n : Nat) (c c' : Instance φ υ) (j : Nat) : Prop where
  lt : j < n
  inits : fails.Inits j
  nrModule : c'.nrModule = 0
  failed : fails (.mutex j) = true ∧ c'.ops = c.ops ++ initOps j ∨
    fails (.mutex j) = false ∧ fails (.cond j) = true ∧
      c'.ops = c.ops ++ initOps j ++ [.acquire (.mutex j), .release (.mutex j)]

theorem InitFailed.not_granted {j : Nat} (h : InitFailed fails nr c c' j) :
    ¬(fails (.mutex j) = false ∧ fails (.cond j) = false) := by
  rintro ⟨hmutex, hcond⟩
  rcases h.failed with ⟨hfail, -⟩ | ⟨-, hfail, -⟩
  · rw [hmutex] at hfail
    cases hfail
  · rw [hcond] at hfail
    cases hfail

theorem Failing.Inits.succ (h : fails.Inits n) (hmutex : fails (.mutex n) = false)
    (hcond : fails (.cond n) = false) : fails.Inits (n + 1) := by
  intro i hi
  rcases Nat.lt_succ_iff_lt_or_eq.mp hi with hi | rfl
  · exact h i hi
  · exact ⟨hmutex, hcond⟩

theorem initModule_cases (h : Initialised fails tbl n c c') :
    (∃ c'', initModule fails tbl c' n = .ok c'' ∧ Initialised fails tbl (n + 1) c c'') ∨
      ∃ c'', initModule fails tbl c' n = .error c'' ∧ InitFailed fails (n + 1) c c'' n := by
  unfold initModule
  dsimp only
  cases hmutex : fails (.mutex n) with
  | true => exact .inr ⟨_, rfl, n.lt_succ_self, h.inits, rfl, .inl ⟨hmutex, h.ops⟩⟩
  | false =>
      cases hcond : fails (.cond n) with
      | true =>
          refine .inr ⟨_, rfl, n.lt_succ_self, h.inits, rfl, .inr ⟨hmutex, hcond, ?_⟩⟩
          rw [← h.ops]
          simp [Instance.did, Instance.setSlot]
      | false =>
          refine .inl ⟨_, rfl, h.inits.succ hmutex hcond, ?_, h.nrModule, ?_, ?_⟩
          · unfold initOps
            rw [List.range_succ, List.flatMap_append, List.flatMap_singleton, ← List.append_assoc]
            change (c'.ops ++ _) ++ _ = _
            rw [h.ops, List.append_assoc]
            rfl
          · intro i hi
            simp only [Instance.setSlot, Instance.did]
            by_cases hin : i = n
            · subst hin
              rw [Function.update_self]
              rfl
            · rw [Function.update_of_ne hin, Function.update_of_ne hin]
              exact h.filled i (by omega)
          · intro i hi
            simp only [Instance.setSlot, Instance.did]
            rw [Function.update_of_ne (by omega), Function.update_of_ne (by omega)]
            exact h.others i (by omega)

theorem initModules_cases (fails : Failing) (tbl : Nat → RegEntry φ υ) (c : Instance φ υ) (n : Nat) :
    (∃ c', (List.range n).foldlM (initModule fails tbl) c = .ok c' ∧ Initialised fails tbl n c c') ∨
      ∃ c' j, (List.range n).foldlM (initModule fails tbl) c = .error c' ∧ InitFailed fails n c c' j := by
  induction n with
  | zero => exact .inl ⟨c, rfl, by simp [Failing.Inits], by simp [initOps], rfl, by simp, fun _ _ => rfl⟩
  | succ n ih =>
      rw [List.range_succ, List.foldlM_append]
      rcases ih with ⟨c', hrun, h⟩ | ⟨c', j, hrun, h⟩
      · rw [hrun]
        rcases initModule_cases h with ⟨c'', hturn, h'⟩ | ⟨c'', hturn, h'⟩
        · exact .inl ⟨c'', by simp [bind, Except.bind, hturn, pure, Except.pure], h'⟩
        · exact .inr ⟨c'', n, by simp [bind, Except.bind, hturn], h'⟩
      · rw [hrun]
        exact .inr ⟨c', j, rfl, Nat.lt_succ_of_lt h.lt, h.inits, h.nrModule, h.failed⟩

/-- The second loop has gone through. -/
structure Started (fails : Failing) (tbl : Nat → RegEntry φ υ) (nr n : Nat) (c c' : Instance φ υ) : Prop where
  starts : fails.Starts n
  ops : c'.ops = c.ops ++ startOps n
  nrModule : c'.nrModule = c.nrModule
  running : ∀ i < n, c'.slot i = { Slot.boot i (tbl i) with thStarted := true }
  filled : ∀ i, n ≤ i → i < nr → c'.slot i = Slot.boot i (tbl i)
  others : ∀ i, nr ≤ i → c'.slot i = c.slot i

theorem Started.threads (h : Started fails tbl nr n c c') {i : Nat} (hi : i < nr) :
    c'.started i = decide (i < n) := by
  unfold Instance.started
  by_cases hin : i < n
  · rw [h.running i hin, decide_eq_true hin]
  · rw [h.filled i (Nat.le_of_not_lt hin) hi, decide_eq_false hin]
    rfl

/-- The second loop has rolled back: `pthread_create` has failed for module `k`. -/
structure StartFailed (fails : Failing) (nr : Nat) (c c' : Instance φ υ) (k : Nat) : Prop where
  lt : k < nr
  starts : fails.Starts k
  failed : fails (.thread k) = true
  nrModule : c'.nrModule = 0
  ops : c'.ops = c.ops ++ startOps k ++ stopOps (fun i => decide (i < k)) nr

theorem stopOps_congr {started started' : Nat → Bool} (h : ∀ i < n, started i = started' i) :
    stopOps started n = stopOps started' n := by
  have hloop : ∀ f : Nat → List PthreadOp,
      (List.range n).flatMap (fun i => if started i then f i else []) =
        (List.range n).flatMap fun i => if started' i then f i else [] := by
    intro f
    apply List.flatMap_congr
    intro i hi
    rw [h i (List.mem_range.mp hi)]
  unfold stopOps signalOps joinOps
  rw [hloop, hloop]

theorem startModule_cases (h : Started fails tbl nr n c c') (hn : n < nr) :
    (∃ c'', startModule fails nr c' n = .ok c'' ∧ Started fails tbl nr (n + 1) c c'') ∨
      ∃ c'', startModule fails nr c' n = .error c'' ∧ StartFailed fails nr c c'' n := by
  unfold startModule
  cases hthread : fails (.thread n) with
  | true =>
      obtain ⟨hops, -, -⟩ := c'.stopModules_spec nr
      refine .inr ⟨_, rfl, hn, h.starts, hthread, rfl, ?_⟩
      change (c'.stopModules nr).ops = _
      rw [hops, h.ops, stopOps_congr fun i hi => h.threads hi]
  | false =>
      refine .inl ⟨_, rfl, ?_, ?_, h.nrModule, ?_, ?_, ?_⟩
      · intro i hi
        rcases Nat.lt_succ_iff_lt_or_eq.mp hi with hi | rfl
        · exact h.starts i hi
        · exact hthread
      · unfold startOps
        rw [List.range_succ, List.flatMap_append, List.flatMap_singleton, ← List.append_assoc]
        change c'.ops ++ _ = _
        rw [h.ops]
        rfl
      · intro i hi
        simp only [Instance.setSlot, Instance.did]
        by_cases hin : i = n
        · subst hin
          rw [Function.update_self, h.filled i (Nat.le_refl i) hn]
        · rw [Function.update_of_ne hin]
          exact h.running i (by omega)
      · intro i hi hinr
        simp only [Instance.setSlot, Instance.did]
        rw [Function.update_of_ne (by omega)]
        exact h.filled i (by omega) hinr
      · intro i hi
        simp only [Instance.setSlot, Instance.did]
        rw [Function.update_of_ne (by omega)]
        exact h.others i hi

theorem startModules_cases (h : Started fails tbl nr 0 c c) (hn : n ≤ nr) :
    (∃ c', (List.range n).foldlM (startModule fails nr) c = .ok c' ∧ Started fails tbl nr n c c') ∨
      ∃ c' k, (List.range n).foldlM (startModule fails nr) c = .error c' ∧ StartFailed fails nr c c' k := by
  induction n with
  | zero => exact .inl ⟨c, rfl, h⟩
  | succ n ih =>
      rw [List.range_succ, List.foldlM_append]
      rcases ih (by omega) with ⟨c', hrun, h'⟩ | ⟨c', k, hrun, h'⟩
      · rw [hrun]
        rcases startModule_cases h' hn with ⟨c'', hturn, h''⟩ | ⟨c'', hturn, h''⟩
        · exact .inl ⟨c'', by simp [bind, Except.bind, hturn, pure, Except.pure], h''⟩
        · exact .inr ⟨c'', n, by simp [bind, Except.bind, hturn], h''⟩
      · rw [hrun]
        exact .inr ⟨c', k, rfl, h'⟩

/-- The ways `setup` can end, each with the calls that have taken effect. -/
inductive SetupEnd (fails : Failing) (tbl : Nat → RegEntry φ υ) (nr : Nat) (c : Instance φ υ) :
    Bool → Instance φ υ → Prop where
  | refused (h : maxModule < nr) : SetupEnd fails tbl nr c false c
  | init {j : Nat} {c' : Instance φ υ} (hmax : nr ≤ maxModule) (h : InitFailed fails nr c c' j) :
      SetupEnd fails tbl nr c false c'
  | start {k : Nat} {c' : Instance φ υ} (hmax : nr ≤ maxModule) (hinits : fails.Inits nr) (hk : k < nr)
      (hfailed : fails (.thread k) = true) (hstarts : fails.Starts k) (hnr : c'.nrModule = 0)
      (hops : c'.ops = c.ops ++ (initOps nr ++ startOps k ++ stopOps (fun i => decide (i < k)) nr)) :
      SetupEnd fails tbl nr c false c'
  | done {c' : Instance φ υ} (hmax : nr ≤ maxModule) (hinits : fails.Inits nr) (hstarts : fails.Starts nr)
      (hnr : c'.nrModule = nr) (hops : c'.ops = c.ops ++ (initOps nr ++ startOps nr))
      (hslot : ∀ i < nr, c'.slot i = { Slot.boot i (tbl i) with thStarted := true }) :
      SetupEnd fails tbl nr c true c'

theorem setup_end (fails : Failing) (c : Instance φ υ) (tbl : Nat → RegEntry φ υ) (nr : Nat) :
    SetupEnd fails tbl nr c (setup fails c tbl nr).1 (setup fails c tbl nr).2 := by
  unfold setup
  split
  · rename_i hmax
    exact .refused hmax
  · rename_i hmax
    have hle : nr ≤ maxModule := Nat.le_of_not_lt hmax
    unfold setupModules
    rcases initModules_cases fails tbl { c with nrModule := nr } nr with ⟨c₁, hrun, hinit⟩ | ⟨c₁, j, hrun, hinit⟩
    · have hstart : Started fails tbl nr 0 c₁ c₁ :=
        ⟨by simp [Failing.Starts], by simp [startOps], rfl, by simp, fun i _ hi => hinit.filled i hi, fun _ _ => rfl⟩
      rcases startModules_cases hstart (Nat.le_refl nr) with ⟨c₂, hrun', h⟩ | ⟨c₂, k, hrun', h⟩
      · simp only [hrun, bind, Except.bind, hrun']
        refine .done hle hinit.inits h.starts (h.nrModule.trans hinit.nrModule) ?_ h.running
        rw [h.ops, hinit.ops, List.append_assoc]
      · simp only [hrun, bind, Except.bind, hrun']
        refine .start hle hinit.inits h.lt h.failed h.starts h.nrModule ?_
        rw [h.ops, hinit.ops]
        simp only [List.append_assoc]
    · simp only [hrun, bind, Except.bind]
      exact .init hle ⟨hinit.lt, hinit.inits, hinit.nrModule, hinit.failed⟩

theorem setup_true_iff (fails : Failing) (c : Instance φ υ) (tbl : Nat → RegEntry φ υ) (nr : Nat) :
    (setup fails c tbl nr).1 = true ↔ nr ≤ maxModule ∧ fails.Inits nr ∧ fails.Starts nr := by
  have hend := setup_end fails c tbl nr
  generalize (setup fails c tbl nr).1 = ok at hend ⊢
  generalize (setup fails c tbl nr).2 = c' at hend
  cases hend with
  | refused hmax => exact iff_of_false Bool.false_ne_true fun h => absurd hmax (Nat.not_lt_of_le h.1)
  | @init j _ _ h =>
      refine iff_of_false Bool.false_ne_true fun ⟨_, hinits, _⟩ => ?_
      exact h.not_granted (hinits j h.lt)
  | start _ _ hk hfailed =>
      refine iff_of_false Bool.false_ne_true fun ⟨_, _, hstarts⟩ => ?_
      rw [hstarts _ hk] at hfailed
      cases hfailed
  | done hmax hinits hstarts => exact iff_of_true rfl ⟨hmax, hinits, hstarts⟩

/-- The table that the modules of an instance have been set up with, as the scheduler sees it. -/
def Instance.regs (c : Instance φ υ) : List Reg :=
  (List.range c.nrModule).map fun i => ⟨(c.slot i).module.nrSeq, (c.slot i).module.recvNotify⟩

/-- The modules that a `setup` has started are those the runs of the instance begin with. -/
theorem setup_boots (h : (setup fails c tbl nr).1 = true) : (setup fails c tbl nr).2.nrModule = nr ∧
    ∀ i < nr, (boot (setup fails c tbl nr).2.regs).module i = ((setup fails c tbl nr).2.slot i).module := by
  have hend := setup_end fails c tbl nr
  rw [h] at hend
  generalize (setup fails c tbl nr).2 = c' at hend ⊢
  cases hend with
  | done _ _ _ hnr _ hslot =>
      refine ⟨hnr, fun i hi => ?_⟩
      change Module.boot i (c'.regs.getD i ⟨0, false⟩) = _
      rw [List.getD_eq_getElem?_getD, Instance.regs, List.getElem?_map, List.getElem?_range (by rw [hnr]; exact hi),
        Option.map_some, Option.getD_some, hslot i hi]
      rfl

/-! ### What is held -/

open ResourceLog (run run_trans run_loop run_count Undone)

/-- The mutexes and condition variables of the modules from `lo` to `hi` and the threads from `tlo` to `thi` are
held, and those of the external mailbox if `ext`. -/
def held (ext : Bool) (lo hi tlo thi : Nat) : Pthread → Bool
  | .extMutex | .extCond => ext
  | .mutex i | .cond i => decide (lo ≤ i ∧ i < hi)
  | .thread i => decide (tlo ≤ i ∧ i < thi)

variable {ext : Bool} {k : Nat}

theorem run_initOps (ext : Bool) (n : Nat) :
    run (held ext 0 0 0 0) (initOps n) = some (held ext 0 n 0 0) := by
  refine run_loop (S := fun i => held ext 0 i 0 0) fun i _ => ?_
  have hmutex : held ext 0 i 0 0 (.mutex i) = false := by simp [held]
  have hcond : Function.update (held ext 0 i 0 0) (.mutex i) true (.cond i) = false := by simp [held]
  simp only [run, ResourceLog.Op.step, hmutex, hcond, Bool.false_eq_true, if_false, Option.bind_some]
  congr 1
  funext r
  rw [Bool.eq_iff_iff]
  cases r <;> simp [Function.update_apply, held] <;> omega

theorem run_startOps (ext : Bool) (nr n : Nat) :
    run (held ext 0 nr 0 0) (startOps n) = some (held ext 0 nr 0 n) := by
  refine run_loop (S := fun i => held ext 0 nr 0 i) fun i _ => ?_
  have hthread : held ext 0 nr 0 i (.thread i) = false := by simp [held]
  simp only [run, ResourceLog.Op.step, hthread, Bool.false_eq_true, if_false, Option.bind_some]
  congr 1
  funext r
  rw [Bool.eq_iff_iff]
  cases r <;> simp [Function.update_apply, held]
  omega

theorem run_signalOps (ext : Bool) (nr k : Nat) :
    run (held ext 0 nr 0 k) (signalOps (fun i => decide (i < k)) nr) = some (held ext 0 nr 0 k) := by
  refine run_loop (S := fun _ => held ext 0 nr 0 k) fun i hi => ?_
  have hmutex : held ext 0 nr 0 k (.mutex i) = true := by simp [held, hi]
  have hcond : held ext 0 nr 0 k (.cond i) = true := by simp [held, hi]
  split
  · simp [run, ResourceLog.Op.step, hmutex, hcond]
  · rfl

theorem run_joinOps (ext : Bool) (hk : k ≤ nr) :
    run (held ext 0 nr 0 k) (joinOps (fun i => decide (i < k)) nr) = some (held ext 0 nr 0 0) := by
  have hend : held ext 0 nr nr k = held ext 0 nr 0 0 := by
    funext r
    rw [Bool.eq_iff_iff]
    cases r <;> simp [held]
    omega
  rw [← hend]
  refine run_loop (S := fun i => held ext 0 nr i k) fun i hi => ?_
  split
  · rename_i hik
    have hthread : held ext 0 nr i k (.thread i) = true := by simpa [held] using hik
    simp only [run, ResourceLog.Op.step, hthread, if_true, Option.bind_some]
    congr 1
    funext r
    rw [Bool.eq_iff_iff]
    cases r <;> simp [Function.update_apply, held]
    omega
  · rename_i hik
    have hik : k ≤ i := by simpa using hik
    rw [run]
    congr 1
    funext r
    rw [Bool.eq_iff_iff]
    cases r <;> simp [held]
    omega

theorem run_destroyOps (ext : Bool) (nr : Nat) :
    run (held ext 0 nr 0 0) (destroyOps nr) = some (held ext 0 0 0 0) := by
  have hend : held ext nr nr 0 0 = held ext 0 0 0 0 := by
    funext r
    rw [Bool.eq_iff_iff]
    cases r <;> simp [held]
  rw [← hend]
  refine run_loop (S := fun i => held ext i nr 0 0) fun i hi => ?_
  have hmutex : held ext i nr 0 0 (.mutex i) = true := by simp [held, hi]
  have hcond : Function.update (held ext i nr 0 0) (.mutex i) false (.cond i) = true := by simp [held, hi]
  simp only [run, ResourceLog.Op.step, hmutex, hcond, if_true, Option.bind_some]
  congr 1
  funext r
  rw [Bool.eq_iff_iff]
  cases r <;> simp [Function.update_apply, held] <;> omega

theorem run_stopOps (ext : Bool) (hk : k ≤ nr) :
    run (held ext 0 nr 0 k) (stopOps (fun i => decide (i < k)) nr) = some (held ext 0 0 0 0) :=
  run_trans (run_trans (run_signalOps ext nr k) (run_joinOps ext hk)) (run_destroyOps ext nr)

theorem held_nothing : held false 0 0 0 0 = ResourceLog.nothing := by
  funext r
  cases r <;> simp [held, ResourceLog.nothing]

theorem run_initFailed {j : Nat} (h : InitFailed fails nr c c' j) :
    ∃ ops, c'.ops = c.ops ++ ops ∧ ∀ ext, run (held ext 0 0 0 0) ops = some (held ext 0 j 0 0) := by
  rcases h.failed with ⟨-, hops⟩ | ⟨-, -, hops⟩
  · exact ⟨_, hops, fun ext => run_initOps ext j⟩
  · refine ⟨_, by rw [hops, List.append_assoc], fun ext => run_trans (run_initOps ext j) ?_⟩
    exact ResourceLog.run_undo (by simp [held])

/-! ### What a failed `setup` leaves -/

/-- The call that has made `c'` of `c` has left nothing behind. -/
def Instance.Undone (c c' : Instance φ υ) : Prop :=
  c'.nrModule = 0 ∧ ∃ ops, c'.ops = c.ops ++ ops ∧ ResourceLog.Undone ops

/-- The first `pthread_mutex_init` or `pthread_cond_init` to fail, if any, is one for module 0. -/
def Failing.AtFirst (fails : Failing) (nr : Nat) : Prop :=
  ∀ j, 0 < j → j < nr → fails.Inits j → fails (.mutex j) = false ∧ fails (.cond j) = false

theorem InitFailed.first {j : Nat} (h : InitFailed fails nr c c' j) (hfirst : fails.AtFirst nr) : j = 0 := by
  by_contra hne
  exact h.not_granted (hfirst j (by omega) h.lt h.inits)

/-- No thread is acquired twice, and no other object, in a whole rollback. -/
theorem acquired_once (nr k : Nat) (r : Pthread) :
    (initOps nr ++ startOps k ++ stopOps (fun i => decide (i < k)) nr).count (.acquire r) ≤ 1 := by
  have hstop : (stopOps (fun i => decide (i < k)) nr).count (.acquire r) = 0 := by
    apply List.count_eq_zero_of_not_mem
    intro hmem
    unfold stopOps signalOps joinOps destroyOps at hmem
    simp only [List.mem_append, List.mem_flatMap] at hmem
    rcases hmem with (⟨i, -, hi⟩ | ⟨i, -, hi⟩) | ⟨i, -, hi⟩
    · split at hi <;> simp at hi
    · split at hi <;> simp at hi
    · simp at hi
  have hrelease : (initOps nr ++ startOps k).count (.release r) = 0 := by
    apply List.count_eq_zero_of_not_mem
    intro hmem
    unfold initOps startOps at hmem
    simp only [List.mem_append, List.mem_flatMap] at hmem
    rcases hmem with ⟨i, -, hi⟩ | ⟨i, -, hi⟩ <;> simp at hi
  have hrun := run_count (run_trans (run_initOps false nr) (run_startOps false nr k)) r
  rw [List.count_append, hstop]
  have hone := Bool.toNat_le (held false 0 nr 0 k r)
  omega

/-- A call with a matched log. -/
theorem undone_of_run {ops : List PthreadOp} (hrun : run (held false 0 0 0 0) ops = some (held false 0 0 0 0))
    (honce : ∀ r, ops.count (.acquire r) ≤ 1) : Undone ops where
  ordered := held_nothing ▸ hrun
  once := honce
  released r := by
    have hcount := run_count hrun r
    omega

/-- A `setup` that fails has destroyed what it had made, each object once and in order, exactly when no mutex and no
condition variable of a module but the first is the first to fail. -/
theorem failed_setup_undone_iff (fails : Failing) (c : Instance φ υ) (tbl : Nat → RegEntry φ υ) {nr : Nat}
    (hmax : nr ≤ maxModule) :
    ((setup fails c tbl nr).1 = false → c.Undone (setup fails c tbl nr).2) ↔ fails.AtFirst nr := by
  have hend := setup_end fails c tbl nr
  generalize (setup fails c tbl nr).1 = ok at hend ⊢
  generalize (setup fails c tbl nr).2 = c' at hend ⊢
  cases hend with
  | refused hrefused => exact absurd hmax (Nat.not_le_of_lt hrefused)
  | @init j _ _ h =>
      obtain ⟨ops, hops, hrun⟩ := run_initFailed h
      constructor
      · intro hundone j' hpos hlt hinits
        obtain ⟨-, ops', hops', hu⟩ := hundone rfl
        obtain rfl : ops = ops' := List.append_cancel_left (hops.symm.trans hops')
        have hcount := run_count (hrun false) (.mutex 0)
        have hreleased := hu.released (.mutex 0)
        have hzero : held false 0 0 0 0 (.mutex 0) = false := rfl
        rw [hzero, hreleased] at hcount
        have hj : ¬0 < j := by
          intro hj
          have hheld : held false 0 j 0 0 (.mutex 0) = true := by simp [held, hj]
          rw [hheld] at hcount
          simp at hcount
        exact absurd (hinits j (by omega)) h.not_granted
      · intro hfirst _
        obtain rfl := h.first hfirst
        refine ⟨h.nrModule, ops, hops, undone_of_run (hrun false) fun r => ?_⟩
        rcases h.failed with ⟨-, heq⟩ | ⟨-, -, heq⟩
        · rw [List.append_cancel_left (hops.symm.trans heq)]
          exact Nat.zero_le 1
        · rw [List.append_assoc] at heq
          rw [List.append_cancel_left (hops.symm.trans heq)]
          simp [initOps, List.count_cons]
          split <;> omega
  | start _ hinits hk _ _ hnr hops =>
      refine iff_of_true (fun _ => ⟨hnr, _, hops, ?_⟩) fun j _ hj _ => hinits j hj
      exact undone_of_run (run_trans (run_trans (run_initOps false nr) (run_startOps false nr _))
        (run_stopOps false hk.le)) (acquired_once nr _)
  | done _ hinits => exact iff_of_true (fun h => by cases h) fun j _ hj _ => hinits j hj

/-- An instance as `create_coseq` makes it, and a table of modules with one sequence each. -/
def freshInstance (φ υ : Type) : Instance φ υ where
  slot _ := Slot.zero φ υ
  nrModule := 0
  ops := [.acquire .extMutex, .acquire .extCond]

def plainTable (_ : Nat) : RegEntry Unit Unit := ⟨none, 8, [⟨(), []⟩], 1, none, none⟩

/-- The second thread cannot be created: `stop_modules` gives back what the first loop has made. -/
theorem create_rollback_undone : (setup (· == .thread 1) (freshInstance Unit Unit) plainTable 2).1 = false ∧
    (freshInstance Unit Unit).Undone (setup (· == .thread 1) (freshInstance Unit Unit) plainTable 2).2 := by
  have hfalse : (setup (· == .thread 1) (freshInstance Unit Unit) plainTable 2).1 = false := by decide
  have hmax : 2 ≤ maxModule := by decide
  refine ⟨hfalse, (failed_setup_undone_iff (· == .thread 1) (freshInstance Unit Unit) plainTable hmax).mpr ?_ hfalse⟩
  exact fun _ _ _ _ => ⟨rfl, rfl⟩

/-- The second mutex cannot be initialised: the mutex and the condition variable of the first module stay. -/
theorem mutex_init_leaks : (setup (· == .mutex 1) (freshInstance Unit Unit) plainTable 2).1 = false ∧
    (setup (· == .mutex 1) (freshInstance Unit Unit) plainTable 2).2.ops =
      (freshInstance Unit Unit).ops ++ [.acquire (.mutex 0), .acquire (.cond 0)] ∧
    ¬(freshInstance Unit Unit).Undone (setup (· == .mutex 1) (freshInstance Unit Unit) plainTable 2).2 := by
  have hops : (setup (· == .mutex 1) (freshInstance Unit Unit) plainTable 2).2.ops =
      (freshInstance Unit Unit).ops ++ [.acquire (.mutex 0), .acquire (.cond 0)] := by decide
  refine ⟨by decide, hops, fun ⟨_, ops, hops', hundone⟩ => ?_⟩
  have hreleased := hundone.released (.mutex 0)
  rw [List.append_cancel_left (hops'.symm.trans hops)] at hreleased
  exact absurd hreleased (by decide)

/-! ### The life of an instance -/

/-- A call of a method by the thread that owns the instance. -/
inductive Method (φ υ : Type) where
  | setup (fails : Failing) (tbl : Nat → RegEntry φ υ) (nrTbl : Nat)
  | teardown

def Instance.call (c : Instance φ υ) : Method φ υ → Option (Instance φ υ)
  | .setup fails tbl nrTbl => some (Coseq.setup fails c tbl nrTbl).2
  | .teardown => some (Coseq.teardown c)

/-- `setup` is called with no running modules, and does not fail in the middle of its first loop. -/
def Method.Clean (c : Instance φ υ) : Method φ υ → Prop
  | .setup fails _ nrTbl => c.nrModule = 0 ∧ fails.AtFirst nrTbl
  | .teardown => True

/-- The instance holds the objects of its running modules and those of the external mailbox, and what it has
ever done to any of them was in order. -/
structure Instance.Owns (c : Instance φ υ) : Prop where
  started : ∀ i < c.nrModule, c.started i = true
  ops : run ResourceLog.nothing c.ops = some (held true 0 c.nrModule 0 c.nrModule)

theorem stopModules_run {n : Nat} (hstarted : ∀ i < n, c.started i = true)
    (hops : run ResourceLog.nothing c.ops = some (held true 0 n 0 n)) :
    run ResourceLog.nothing (c.stopModules n).ops = some (held true 0 0 0 0) := by
  obtain ⟨heq, -, -⟩ := c.stopModules_spec n
  have hall : ∀ i < n, c.started i = decide (i < n) := fun i hi => by rw [hstarted i hi, decide_eq_true hi]
  rw [heq, stopOps_congr hall]
  exact run_trans hops (run_stopOps true (Nat.le_refl n))

namespace Instance.Owns

theorem teardown (h : c.Owns) : (Coseq.teardown c).Owns ∧ (Coseq.teardown c).nrModule = 0 := by
  unfold Coseq.teardown
  split
  · rename_i hzero
    exact ⟨h, hzero⟩
  · have hnr := (stopModules_spec { c with nrModule := 0 } c.nrModule).2.2
    refine ⟨⟨fun i hi => absurd hi (by rw [hnr]; exact Nat.not_lt_zero i), ?_⟩, hnr⟩
    rw [hnr]
    exact stopModules_run (c := { c with nrModule := 0 }) h.started h.ops

theorem setup (h : c.Owns) (hzero : c.nrModule = 0) (hfirst : fails.AtFirst nr) :
    (Coseq.setup fails c tbl nr).2.Owns := by
  have hnone := h.ops
  rw [hzero] at hnone
  have hend := setup_end fails c tbl nr
  generalize (Coseq.setup fails c tbl nr).1 = ok at hend
  generalize (Coseq.setup fails c tbl nr).2 = c' at hend ⊢
  cases hend with
  | refused => exact h
  | @init j _ _ hfailed =>
      obtain ⟨ops, hops, hrun⟩ := run_initFailed hfailed
      obtain rfl := hfailed.first hfirst
      refine ⟨fun i hi => absurd hi (by rw [hfailed.nrModule]; exact Nat.not_lt_zero i), ?_⟩
      rw [hfailed.nrModule, hops]
      exact run_trans hnone (hrun true)
  | start _ _ hk _ _ hnr hops =>
      refine ⟨fun i hi => absurd hi (by rw [hnr]; exact Nat.not_lt_zero i), ?_⟩
      rw [hnr, hops]
      exact run_trans hnone (run_trans (run_trans (run_initOps true nr) (run_startOps true nr _))
        (run_stopOps true hk.le))
  | done _ _ _ hnr hops hslot =>
      refine ⟨fun i hi => ?_, ?_⟩
      · rw [hnr] at hi
        rw [Instance.started, hslot i hi]
      · rw [hnr, hops]
        exact run_trans hnone (run_trans (run_initOps true nr) (run_startOps true nr nr))

end Instance.Owns

theorem createCoseq_run (fails : Failing) : match createCoseq φ υ fails with
    | .ok c => c.nrModule = 0 ∧ c.Owns
    | .error c => run ResourceLog.nothing c.ops = some ResourceLog.nothing := by
  unfold createCoseq
  dsimp only
  split
  · rename_i hcase
    split at hcase
    · cases hcase
    · split at hcase
      · cases hcase
      · obtain rfl := Except.ok.inj hcase
        refine ⟨rfl, fun i hi => absurd hi (Nat.not_lt_zero i), ?_⟩
        rw [← held_nothing]
        change run (held false 0 0 0 0) [.acquire .extMutex, .acquire .extCond] = some (held true 0 0 0 0)
        simp only [run, ResourceLog.Op.step, held, Function.update_apply, reduceCtorEq, Bool.false_eq_true, if_false,
          Option.bind_some]
        congr 1
        funext r
        cases r <;> simp [held]
  · rename_i hcase
    split at hcase
    · obtain rfl := Except.error.inj hcase
      rfl
    · split at hcase
      · obtain rfl := Except.error.inj hcase
        exact ResourceLog.run_undo rfl
      · cases hcase

/-- Over any number of setups and teardowns the instance holds exactly the objects of its running modules. -/
theorem lifetime_owns {c₀ : Instance φ υ} (hcreate : createCoseq φ υ fails = .ok c₀)
    (hrun : Lts.Run Instance.call Method.Clean c₀ c) : c.Owns := by
  refine hrun.invariant (P := Instance.Owns) ?_ ?_
  · have hstart := createCoseq_run (φ := φ) (υ := υ) fails
    rw [hcreate] at hstart
    exact hstart.2
  · intro c m c' _ h hclean hcall
    cases m with
    | setup fails tbl nrTbl =>
        obtain rfl := Option.some.inj hcall
        exact h.setup hclean.1 hclean.2
    | teardown =>
        obtain rfl := Option.some.inj hcall
        exact h.teardown.1

/-- `destroy` leaves nothing of it. -/
theorem destroy_releases (h : c.Owns) : run ResourceLog.nothing (destroy c).ops = some ResourceLog.nothing := by
  obtain ⟨howns, hzero⟩ := h.teardown
  have hops := howns.ops
  rw [hzero] at hops
  change run _ (((teardown c).ops ++ [.release .extMutex]) ++ [.release .extCond]) = _
  rw [List.append_assoc]
  refine run_trans hops ?_
  simp only [List.singleton_append, run, ResourceLog.Op.step, held, Function.update_apply, reduceCtorEq, if_true,
    if_false, Option.bind_some]
  congr 1
  funext r
  cases r <;> simp [held, ResourceLog.nothing]

end Coseq
