import Coseq.EventQueue
import Coseq.ModuleLedger
import Coseq.Tally

/-! The START of a request, followed through the system. A request posts at most one START; it waits in
the queues of one module until it begins there or is refused, and is not copied on the way. A request
to a module that does not exist posts none. -/

namespace Coseq

open Tally (total)

/-- The START of the request `r` of `o`. -/
def Ev.startsFor (o : Origin) (r : Nat) (e : Ev) : Bool := e.type = .start ∧ e.requester = o ∧ e.reqId = r

/-- A fiber is made for the request `r` of `o`. -/
def Obs.begins (o : Origin) (r : Nat) : Obs → Bool
  | .started _ o' r' _ => o' = o ∧ r' = r
  | _ => false

/-- The START of the request `r` of `o` is dropped. -/
def Obs.refuses (o : Origin) (r : Nat) : Obs → Bool
  | .rejected o' r' _ | .notStarted o' r' _ => o' = o ∧ r' = r
  | _ => false

/-- A request takes the id `r`. -/
def Obs.issues (r : Nat) : Obs → Bool
  | .issued _ _ r' _ _ => r' = r
  | _ => false

/-- A request with the id `r` names none of the `n` modules. -/
def Obs.strays (n r : Nat) : Obs → Bool
  | .issued _ _ r' dst _ => r' = r ∧ n ≤ dst
  | _ => false

/-- How often the module holds or has met the START of the request `r` of `o`. -/
def Module.starts (o : Origin) (r : Nat) (m : Module) : Nat :=
  m.queue.countP (Ev.startsFor o r) + m.trace.countP (Obs.begins o r) + m.trace.countP (Obs.refuses o r)

/-- What an effect adds to a count over the `n` modules in which an event posted to module `d` counts
`c d e`. -/
def Effect.load (n : Nat) (c : Nat → Ev → Nat) : Effect → Nat
  | .post d (some e) => if d < n then c d e else 0
  | _ => 0

theorem Effect.load_none {n : Nat} {c : Nat → Ev → Nat} : Effect.none.load n c = 0 := rfl

theorem total_delivered {w : Nat → Module → Nat} {c : Nat → Ev → Nat}
    (h : ∀ d m e, w d (m.enqueue e) = w d m + c d e) (n : Nat) (modules : Nat → Module) (eff : Effect) :
    total n w (delivered n modules eff) = total n w modules + eff.load n c := by
  cases eff with
  | post d e =>
      cases e with
      | none => rfl
      | some e =>
          rw [delivered, Effect.load]
          by_cases hd : d < n
          · have hsum := Tally.total_update (w := w) (f := modules) hd ((modules d).enqueue e)
            rw [h] at hsum
            rw [if_pos hd, if_pos hd]
            omega
          · rw [if_neg hd, if_neg hd, Nat.add_zero]
  | _ => rfl

section Move

variable {m m' : Module} {o : Origin} {r : Nat}

theorem Obs.OfCall.no_start {x : Obs} (h : x.OfCall) : x.begins o r = false ∧ x.refuses o r = false := by
  cases x <;> first | exact h.elim | exact ⟨rfl, rfl⟩

theorem wakeObs_no_start {f : Fiber} {a : FiberRef} {why : Wake} :
    ∀ x ∈ f.wakeObs a why, x.begins o r = false ∧ x.refuses o r = false := by
  intro x hx
  rcases Fiber.wakeObs_kind x hx with rfl | hcall
  · exact ⟨rfl, rfl⟩
  · exact hcall.no_start

/-- Lines of other kinds and events that are kept leave the count as it is. -/
theorem starts_quiet {xs : List Obs} (htrace : m'.trace = m.trace ++ xs)
    (hxs : ∀ x ∈ xs, x.begins o r = false ∧ x.refuses o r = false)
    (hqueue : m'.queue.countP (Ev.startsFor o r) = m.queue.countP (Ev.startsFor o r)) :
    m'.starts o r = m.starts o r := by
  have hbegins : xs.countP (Obs.begins o r) = 0 :=
    List.countP_eq_zero.mpr fun x hx => by simp [(hxs x hx).1]
  have hrefuses : xs.countP (Obs.refuses o r) = 0 :=
    List.countP_eq_zero.mpr fun x hx => by simp [(hxs x hx).2]
  rw [Module.starts, Module.starts, htrace, List.countP_append, List.countP_append, hbegins, hrefuses, hqueue]
  rfl

theorem starts_silent (htrace : m'.trace = m.trace)
    (hqueue : m'.queue.countP (Ev.startsFor o r) = m.queue.countP (Ev.startsFor o r)) :
    m'.starts o r = m.starts o r :=
  starts_quiet (htrace.trans (List.append_nil _).symm) (fun _ hx => absurd hx List.not_mem_nil) hqueue

/-- The head of the batch is no START. -/
theorem starts_skip {e : Ev} {rest : List Ev} {xs : List Obs} (hhead : AtHead m e rest)
    (he : e.type ≠ .start) (htrace : m'.trace = m.trace ++ xs)
    (hxs : ∀ x ∈ xs, x.begins o r = false ∧ x.refuses o r = false)
    (hqueue : m'.queue = m.deferred ++ rest ++ m.inbox) : m'.starts o r = m.starts o r := by
  refine starts_quiet htrace hxs ?_
  rw [hhead.count, hqueue, if_neg (by simp [Ev.startsFor, he]), Nat.add_zero]

/-- The head of the batch is a START and leaves one line about it. -/
theorem starts_serve {e : Ev} {rest : List Ev} {x : Obs} (hhead : AtHead m e rest)
    (hx : ([x].countP (Obs.begins o r)) + [x].countP (Obs.refuses o r) = if e.startsFor o r then 1 else 0)
    (htrace : m'.trace = m.trace ++ [x]) (hqueue : m'.queue = m.deferred ++ rest ++ m.inbox) :
    m'.starts o r = m.starts o r := by
  rw [Module.starts, Module.starts, htrace, List.countP_append, List.countP_append, hhead.count, hqueue, ← hx]
  omega

/-- A move of the module neither loses nor copies a START. -/
theorem Move.starts {act : ModAct} {eff : Effect} (hmove : Move m act eff m') (hmodes : Modes m) :
    m'.starts o r = m.starts o r := by
  have hcalls : ∀ {l : List Obs}, (∀ x ∈ l, x.OfCall) →
      ∀ x ∈ l, x.begins o r = false ∧ x.refuses o r = false := fun hl x hx => (hl x hx).no_start
  have hreply : ∀ {e : Ev}, e.type = .reply → e.type ≠ .start := fun h => by rw [h]; simp
  have hone : ∀ {x : Obs}, x.begins o r = false ∧ x.refuses o r = false →
      ∀ y ∈ [x], y.begins o r = false ∧ y.refuses o r = false := by
    intro x hx y hy
    obtain rfl := List.mem_singleton.mp hy
    exact hx
  cases hmove with
  | park _ _ hmerge _ =>
      obtain ⟨hbatch, hqueue⟩ := hmerge.queue hmodes
      exact starts_silent rfl (by simp [Module.queue, hbatch, hqueue])
  | halt _ hmerge _ =>
      obtain ⟨hbatch, hqueue⟩ := hmerge.queue hmodes
      exact starts_silent rfl (by simp [Module.queue, hbatch, hqueue])
  | take _ hmerge =>
      obtain ⟨hbatch, hqueue⟩ := hmerge.queue hmodes
      exact starts_silent rfl (by simp [Module.queue, hbatch, hqueue])
  | pass => exact starts_silent rfl rfl
  | fire => exact starts_quiet rfl wakeObs_no_start rfl
  | expire => exact starts_quiet rfl wakeObs_no_start rfl
  | defer _ hhead _ => exact starts_silent rfl (hhead.count_defer _)
  | drop _ hhead _ hdrop =>
      cases hdrop with
      | unknown htype _ => exact starts_skip hhead (hreply htype) rfl (by simp) rfl
      | unheard htype => exact starts_skip hhead (by rw [htype]; simp) rfl (by simp) rfl
      | rejected htype _ =>
          exact starts_serve hhead (by simp [Obs.begins, Obs.refuses, Ev.startsFor, htype]) rfl rfl
      | notStarted htype _ _ =>
          exact starts_serve hhead (by simp [Obs.begins, Obs.refuses, Ev.startsFor, htype]) rfl rfl
  | @begin _ _ e _ _ hhead _ htype _ =>
      cases hkind : e.type with
      | start =>
          refine starts_serve hhead ?_ rfl rfl
          simp [Ev.beginObs, Obs.begins, Obs.refuses, Ev.startsFor, hkind]
      | reply => exact absurd hkind htype
      | notify =>
          refine starts_skip hhead (by rw [hkind]; simp) rfl (hone ?_) rfl
          rw [Ev.beginObs, hkind]
          exact ⟨rfl, rfl⟩
  | undefined _ hhead _ htype => exact starts_skip hhead (hreply htype) rfl (hone ⟨rfl, rfl⟩) rfl
  | wake _ hhead _ htype => exact starts_skip hhead (hreply htype) rfl wakeObs_no_start rfl
  | queue _ hhead _ htype => exact starts_skip hhead (hreply htype) (List.append_nil _).symm (by simp) rfl
  | lose _ hhead _ htype => exact starts_skip hhead (hreply htype) rfl (hone ⟨rfl, rfl⟩) rfl
  | reap => exact starts_silent rfl rfl
  | issue => exact starts_quiet rfl (hcalls issueObs_ofCall) rfl
  | «local» _ hcall => exact starts_quiet rfl (hcalls hcall.ofCall) rfl
  | lock => exact starts_quiet rfl (hone ⟨rfl, rfl⟩) rfl
  | unlock => exact starts_quiet rfl (hone ⟨rfl, rfl⟩) rfl
  | ret => exact starts_quiet rfl (hone ⟨rfl, rfl⟩) rfl
  | stop => exact starts_silent rfl rfl

theorem starts_enqueue (m : Module) (e : Ev) :
    (m.enqueue e).starts o r = m.starts o r + if e.startsFor o r then 1 else 0 := by
  have harrived : ∀ e' : Ev, Obs.begins o r (.arrived e') = false ∧ Obs.refuses o r (.arrived e') = false :=
    fun _ => ⟨rfl, rfl⟩
  have hserial : Ev.startsFor o r { e with serial := m.posted } = e.startsFor o r := rfl
  rw [Module.starts, Module.starts, m.count_enqueue, hserial]
  simp only [Module.enqueue, List.countP_append, List.countP_singleton, harrived]
  simp only [Bool.false_eq_true, if_false]
  omega

theorem issueObs_counts {a : FiberRef} {kind : ReqKind} {i s n : Nat} {ok : Alloc} :
    (issueObs m a kind i s ok).countP (Obs.issues r) = (if m.reqId = r then 1 else 0) ∧
      (issueObs m a kind i s ok).countP (Obs.strays n r) = if m.reqId = r ∧ n ≤ i then 1 else 0 := by
  unfold issueObs
  split <;> simp [Obs.issues, Obs.strays, List.countP_cons]

theorem no_issues {xs : List Obs} {n : Nat} (h : xs.filterMap Obs.issueId = []) :
    xs.countP (Obs.issues r) = 0 ∧ xs.countP (Obs.strays n r) = 0 := by
  have hline : ∀ x ∈ xs, x.issues r = false ∧ x.strays n r = false := by
    intro x hx
    have hnone := List.filterMap_eq_nil_iff.mp h x hx
    cases x <;> first | exact ⟨rfl, rfl⟩ | cases hnone
  exact ⟨List.countP_eq_zero.mpr fun x hx => by simp [(hline x hx).1],
    List.countP_eq_zero.mpr fun x hx => by simp [(hline x hx).2]⟩

theorem mem_starts_begun {g : FiberRef} {n : Nat} (hx : .started g o r n ∈ m.trace) :
    0 < m.trace.countP (Obs.begins o r) :=
  List.countP_pos_iff.mpr ⟨_, hx, by simp [Obs.begins]⟩

end Move

/-! ### Runs -/

/-- What the arrival of an event adds to the STARTs of the request `r` of `o`. -/
def startCount (o : Origin) (r _ : Nat) (e : Ev) : Nat := if e.startsFor o r then 1 else 0

theorem starts_delivered {o : Origin} {r : Nat} (n : Nat) (modules : Nat → Module) (eff : Effect) :
    total n (fun _ m => m.starts o r) (delivered n modules eff) =
      total n (fun _ m => m.starts o r) modules + eff.load n (startCount o r) :=
  total_delivered (fun _ m e => starts_enqueue m e) n modules eff

/-- How many STARTs of the request `r` of `o` there are or have been. -/
def Sys.starts (s : Sys) (o : Origin) (r : Nat) : Nat :=
  total s.ctx.nrModule (fun _ m => m.starts o r) s.module

/-- An arrival leaves a line that no count of requests sees. -/
theorem delivered_count {p : Obs → Bool} (hp : ∀ e, p (.arrived e) = false) (n : Nat)
    (modules : Nat → Module) (eff : Effect) (j : Nat) :
    (delivered n modules eff j).trace.countP p = (modules j).trace.countP p := by
  rcases delivered_apply n modules eff j with h | ⟨e, -, -, h⟩
  · rw [h]
  · rw [h]
    simp [Module.enqueue, List.countP_append, hp]

section Load

variable {n r d s rid : Nat} {o o' : Origin} {msg : Bytes} {ok : Alloc}

theorem load_noStart {eff : Effect} (h : eff.NoStart) : eff.load n (startCount o r) = 0 := by
  unfold Effect.load
  split
  · rename_i d e
    have htype := h d e rfl
    simp [startCount, Ev.startsFor, htype]
  · rfl

/-- The post of a START adds one to the STARTs of its request alone, if its module exists. -/
theorem load_start : (Effect.post d (makeEv .start s rid o' .ignore msg ok)).load n (startCount o r) ≤
    if d < n ∧ o' = o ∧ rid = r then 1 else 0 := by
  unfold makeEv
  split
  · rw [Effect.load]
    by_cases hd : d < n
    · simp [hd, startCount, Ev.startsFor]
    · simp [hd]
  · exact Nat.zero_le _

/-- The post of an external START does not touch a count of other events. -/
theorem load_external {c : Nat → Ev → Nat}
    (h : ∀ d e, e.type = .start → e.requester = .external → c d e = 0) :
    (Effect.post d (makeEv .start s rid .external .ignore msg ok)).load n c = 0 := by
  unfold makeEv
  split
  · rw [Effect.load, h _ _ rfl rfl, ite_self]
  · rfl

end Load

/-- In every run a request has at most one START, and none where it named no module. -/
theorem starts_le {ok : Sys → Act → Prop} {tbl : List Reg} {s : Sys} (hrun : Reaches ok tbl s) (q r : Nat) :
    s.starts (.module q) r + (s.module q).trace.countP (Obs.strays s.ctx.nrModule r) ≤
      (s.module q).trace.countP (Obs.issues r) := by
  refine hrun.invariant (P := fun s => s.starts (.module q) r +
    (s.module q).trace.countP (Obs.strays s.ctx.nrModule r) ≤ (s.module q).trace.countP (Obs.issues r))
    ?_ ?_
  · have hzero : (boot tbl).starts (.module q) r = 0 := Tally.total_eq_zero fun _ _ => rfl
    rw [hzero]
    exact Nat.le_refl _
  intro s a s' hrun ih _ hstep
  have hstrays : ∀ e, Obs.strays s.ctx.nrModule r (.arrived e) = false := fun _ => rfl
  have hissues : ∀ e, Obs.issues r (.arrived e) = false := fun _ => rfl
  obtain ⟨hdelta, hnr⟩ := Sys.step_delta hstep
  rw [Sys.starts, hnr]
  rw [Sys.starts] at ih
  cases hdelta with
  | @move i act eff m' _ hi hmove hmodules =>
      have hsame : total s.ctx.nrModule (fun _ m => m.starts (.module q) r)
          (Function.update s.module i m') =
          total s.ctx.nrModule (fun _ m => m.starts (.module q) r) s.module :=
        Tally.total_update_same (hmove.starts (modes hrun i))
      rw [hmodules, starts_delivered, hsame, delivered_count hstrays, delivered_count hissues]
      rcases hmove.issue_cases with ⟨⟨xs, htrace, hxs⟩, -, hno⟩ |
        ⟨_, _, _, ok, f, kind, dst, seq, msg, -, -, htrace, -, rfl⟩
      · rw [load_noStart hno]
        by_cases hq : q = i
        · subst hq
          obtain ⟨hissue, hstray⟩ := no_issues (r := r) (n := s.ctx.nrModule) hxs
          rw [Function.update_self, htrace, List.countP_append, List.countP_append, hissue, hstray]
          exact ih
        · rw [Function.update_of_ne hq]
          exact ih
      · rw [startEv, (setup_fixed hrun).2.1 i]
        have hload : (Effect.post dst (makeEv .start seq (s.module i).reqId (.module i) .ignore msg ok)).load
            s.ctx.nrModule (startCount (.module q) r) ≤
              if dst < s.ctx.nrModule ∧ Origin.module i = .module q ∧ (s.module i).reqId = r then 1 else 0 :=
          load_start
        by_cases hq : q = i
        · subst hq
          obtain ⟨hissue, hstray⟩ :
              (issueObs (s.module q) f kind dst seq ok).countP (Obs.issues r) =
                  (if (s.module q).reqId = r then 1 else 0) ∧
                (issueObs (s.module q) f kind dst seq ok).countP (Obs.strays s.ctx.nrModule r) =
                  if (s.module q).reqId = r ∧ s.ctx.nrModule ≤ dst then 1 else 0 := issueObs_counts
          rw [Function.update_self, htrace, List.countP_append, List.countP_append, hissue, hstray]
          by_cases hr : (s.module q).reqId = r
          · by_cases hd : dst < s.ctx.nrModule
            · simp only [hr, hd, Nat.not_le_of_lt hd, and_self, and_false, if_true, if_false] at hload ⊢
              omega
            · simp only [hr, hd, Nat.le_of_not_lt hd, and_self, false_and, if_true, if_false] at hload ⊢
              omega
          · simp only [hr, and_false, false_and, if_false] at hload ⊢
            omega
        · rw [Function.update_of_ne hq]
          rw [if_neg (fun h => hq (Origin.module.inj h.2.1).symm)] at hload
          omega
  | request _ hmodules =>
      have hexternal : ∀ d e, e.type = .start → e.requester = .external →
          startCount (.module q) r d e = 0 := fun d e _ he => by simp [startCount, Ev.startsFor, he]
      rw [hmodules, starts_delivered, delivered_count hstrays, delivered_count hissues,
        load_external hexternal]
      exact ih
  | idle _ hmodules =>
      rw [hmodules]
      exact ih

/-- A module that has a history is one of the table. -/
theorem inside {ok : Sys → Act → Prop} {tbl : List Reg} {s : Sys} (hrun : Reaches ok tbl s) {j : Nat}
    {x : Obs} (hx : x ∈ (s.module j).trace) : j < s.ctx.nrModule := by
  obtain ⟨hnr, -, houtside⟩ := setup_fixed hrun
  by_contra hj
  rw [houtside j (hnr ▸ Nat.le_of_not_lt hj)] at hx
  cases hx

theorem eq_of_countP_le_one {α : Type*} {p : α → Bool} {l : List α} {x y : α} (h : l.countP p ≤ 1)
    (hx : x ∈ l) (hy : y ∈ l) (hpx : p x = true) (hpy : p y = true) : x = y := by
  rw [List.countP_eq_length_filter] at h
  have hx' := List.mem_filter.mpr ⟨hx, hpx⟩
  have hy' := List.mem_filter.mpr ⟨hy, hpy⟩
  cases hl : l.filter p with
  | nil =>
      rw [hl] at hx'
      cases hx'
  | cons z l' =>
      rw [hl] at h hx' hy'
      obtain rfl : l' = [] := List.length_eq_zero_iff.mp (Nat.le_zero.mp (Nat.le_of_succ_le_succ h))
      exact (List.mem_singleton.mp hx').trans (List.mem_singleton.mp hy').symm

section Unique

variable {ok : Sys → Act → Prop} {tbl : List Reg} {s : Sys} {o : Origin} {q r : Nat}

/-- Where the counter of `q` has not wrapped an id is issued once. -/
theorem issues_le_one (hledger : Ledger (s.module q)) : (s.module q).trace.countP (Obs.issues r) ≤ 1 := by
  have hnodup := hledger.balanced.ids
  rw [ids_books] at hnodup
  have hcount : ∀ l : List Obs, l.countP (Obs.issues r) = (l.filterMap Obs.issueId).count r := by
    intro l
    rw [List.count, List.countP_filterMap]
    refine List.countP_congr fun x _ => ?_
    cases x <;> simp [Obs.issues, Obs.issueId]
  rw [hcount]
  exact List.nodup_iff_count_le_one.mp hnodup r

theorem starts_le_one (hrun : Reaches ok tbl s) (hledger : Ledger (s.module q)) :
    s.starts (.module q) r + (s.module q).trace.countP (Obs.strays s.ctx.nrModule r) ≤ 1 :=
  (starts_le hrun q r).trans (issues_le_one hledger)

/-- A fiber made for a request counts among its STARTs. -/
theorem started_counts (hrun : Reaches ok tbl s) {j : Nat} {g : FiberRef} {n : Nat}
    (hx : .started g o r n ∈ (s.module j).trace) : 0 < s.starts o r := by
  have hle := Tally.le_total (w := fun _ m => Module.starts o r m) (f := s.module) (inside hrun hx)
  have hbegun := mem_starts_begun hx
  rw [Sys.starts]
  simp only [Module.starts] at hle ⊢
  omega

/-- A request with one START is begun by one fiber. -/
theorem started_unique (hrun : Reaches ok tbl s) (hone : s.starts o r ≤ 1) {j j' : Nat}
    {g g' : FiberRef} {n n' : Nat} (hx : .started g o r n ∈ (s.module j).trace)
    (hy : .started g' o r n' ∈ (s.module j').trace) : j' = j ∧ g' = g ∧ n' = n := by
  have hpos : ∀ {m : Module}, 0 < m.trace.countP (Obs.begins o r) → 0 < m.starts o r := by
    intro m h
    rw [Module.starts]
    omega
  obtain rfl : j' = j := Tally.unique_of_le_one hone (inside hrun hy) (inside hrun hx)
    (hpos (mem_starts_begun hy)) (hpos (mem_starts_begun hx))
  have hbegun : (s.module j').trace.countP (Obs.begins o r) ≤ 1 := by
    have hle := Tally.le_total (w := fun _ m => Module.starts o r m) (f := s.module) (inside hrun hx)
    rw [Sys.starts] at hone
    rw [Module.starts] at hle
    omega
  obtain ⟨rfl, -, -, rfl⟩ := Obs.started.inj
    (eq_of_countP_le_one hbegun hy hx (by simp [Obs.begins]) (by simp [Obs.begins]))
  exact ⟨rfl, rfl, rfl⟩

end Unique

end Coseq
