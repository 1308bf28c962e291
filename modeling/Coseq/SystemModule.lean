import Coseq.System
import Coseq.ModuleMove

/-! What a step of the system does to the modules: a move of one module, whose post may reach an inbox,
or the post of an external thread, or nothing. Facts about one module follow from its moves alone. -/

namespace Coseq

/-- The modules after an effect: a post appends its event to the inbox of an existing module. -/
def delivered (n : Nat) (modules : Nat → Module) : Effect → Nat → Module
  | .post d (some e) => if d < n then Function.update modules d ((modules d).enqueue e) else modules
  | _ => modules

theorem delivered_apply (n : Nat) (modules : Nat → Module) (eff : Effect) (j : Nat) :
    delivered n modules eff j = modules j ∨
      ∃ e, eff = .post j (some e) ∧ j < n ∧ delivered n modules eff j = (modules j).enqueue e := by
  unfold delivered
  split
  · rename_i d e
    split
    · rename_i hd
      by_cases hj : j = d
      · subst hj
        exact .inr ⟨e, rfl, hd, Function.update_self _ _ _⟩
      · exact .inl (Function.update_of_ne hj _ _)
    · exact .inl rfl
  · exact .inl rfl

namespace Ctx

variable (c : Ctx)

@[simp] theorem setModule_self (i : Nat) (m : Module) : (c.setModule i m).modules i = m := by
  simp only [setModule, Function.update_self]

theorem post_delivered (d : Nat) (e : Option Ev) :
    (c.post d e).modules = delivered c.nrModule c.modules (.post d e) ∧
      (c.post d e).nrModule = c.nrModule := by
  cases e with
  | none => exact ⟨rfl, rfl⟩
  | some e =>
      rw [post, delivered]
      by_cases hd : d < c.nrModule
      · rw [if_neg (Nat.not_le_of_lt hd), if_pos hd]
        exact ⟨rfl, rfl⟩
      · rw [if_pos (Nat.le_of_not_lt hd), if_neg hd]
        exact ⟨rfl, rfl⟩

theorem effect_delivered (ok : Alloc) (eff : Effect) :
    (c.effect ok eff).modules = delivered c.nrModule c.modules eff ∧
      (c.effect ok eff).nrModule = c.nrModule := by
  cases eff with
  | none => exact ⟨rfl, rfl⟩
  | post d e => exact c.post_delivered d e
  | extDeliver rid r msg =>
      rw [effect, extDeliver]
      split <;> exact ⟨rfl, rfl⟩
  | nextClientId id => exact ⟨rfl, rfl⟩

end Ctx

/-- What a step does, with the guards of `Sys.step`. A thread that wakes up without a reply sleeps on. -/
inductive SysMove (s s' : Sys) : Act → Prop where
  | tick {now : Timespec} (hs' : s' = { s with clock := now }) : SysMove s s' (.tick now)
  | sched {i : Nat} {ok : Alloc} (hstep : s.stepModule i (.sched s.clock ok) ok = some s') :
      SysMove s s' (.sched i ok)
  | call {i : Nat} {c : Call} {ok : Alloc}
      (hstep : s.stepModule i (.call c s.clock s.ctx.nextClientId ok) ok = some s') : SysMove s s' (.call i c ok)
  | stop {i : Nat} (hstep : s.stepModule i .stop (fun _ => true) = some s') : SysMove s s' (.stop i)
  | requestSync {t i seq : Nat} {msg : Bytes} {ok : Alloc} (hidle : (s.threads t).point = .idle)
      (hs' : s' = { s with ctx := Coseq.requestSync s.ctx t i seq msg ok }.setThread t
        { s.threads t with point := .waiting s.ctx.rid i seq }) : SysMove s s' (.requestSync t i seq msg ok)
  | wakeup {t rid i seq : Nat} {ok : Alloc} (hwaiting : (s.threads t).point = .waiting rid i seq)
      (hready : s.ctx.extReady = true)
      (hs' : s' = { s with ctx := (syncReturn s.ctx (s.threads t) t rid i seq ok).1 }.setThread t
        (syncReturn s.ctx (s.threads t) t rid i seq ok).2) : SysMove s s' (.wakeup t ok)
  | sleep {t rid i seq : Nat} {ok : Alloc} (hwaiting : (s.threads t).point = .waiting rid i seq)
      (hready : ¬s.ctx.extReady = true) (hs' : s' = s) : SysMove s s' (.wakeup t ok)
  | requestAsync {t i seq : Nat} {msg : Bytes} (hidle : (s.threads t).point = .idle)
      (hs' : s' = { s with ctx := { s.ctx with extId := s.ctx.extId + 1 } }.setThread t
        { s.threads t with point := .posting s.ctx.rid i seq msg }) : SysMove s s' (.requestAsync t i seq msg)
  | asyncPost {t rid i seq : Nat} {msg : Bytes} {ok : Alloc}
      (hposting : (s.threads t).point = .posting rid i seq msg)
      (hs' : s' = { s with ctx := s.ctx.extStart i seq rid msg ok }.setThread t
        { s.threads t with point := .idle }) : SysMove s s' (.asyncPost t ok)

namespace Sys

variable {s s' : Sys} {a : Act}

theorem step_sysMove (h : s.step a = some s') : SysMove s s' a := by
  cases a with
  | tick now => exact .tick (Option.some.inj h).symm
  | sched i ok => exact .sched h
  | call i c ok => exact .call h
  | stop i => exact .stop h
  | requestSync t i seq msg ok =>
      rw [step] at h
      split at h
      · rename_i hidle
        exact .requestSync hidle (Option.some.inj h).symm
      · cases h
  | wakeup t ok =>
      rw [step] at h
      split at h
      · rename_i hwaiting
        split at h
        · rename_i hready
          exact .wakeup hwaiting hready (Option.some.inj h).symm
        · rename_i hready
          exact .sleep hwaiting hready (Option.some.inj h).symm
      · cases h
  | requestAsync t i seq msg =>
      rw [step] at h
      split at h
      · rename_i hidle
        exact .requestAsync hidle (Option.some.inj h).symm
      · cases h
  | asyncPost t ok =>
      rw [step] at h
      split at h
      · rename_i hposting
        exact .asyncPost hposting (Option.some.inj h).symm
      · cases h

/-- What a step does to the modules. -/
inductive Delta (s : Sys) (a : Act) (s' : Sys) : Prop where
  | move {i : Nat} {act : ModAct} {eff : Effect} {m' : Module}
      (hact : ∀ j, s.localAct j a = if i = j then some act else none) (hi : i < s.ctx.nrModule)
      (hmove : Move (s.module i) act eff m')
      (hmodules : s'.module = delivered s.ctx.nrModule (Function.update s.module i m') eff)
  | request {d seq rid : Nat} {msg : Bytes} {ok : Alloc} (hact : ∀ j, s.localAct j a = none)
      (hmodules : s'.module = delivered s.ctx.nrModule s.module
        (.post d (makeEv .start seq rid .external .ignore msg ok)))
  | idle (hact : ∀ j, s.localAct j a = none) (hmodules : s'.module = s.module)

theorem stepModule_delta {i : Nat} {act : ModAct} {ok : Alloc}
    (hact : ∀ j, s.localAct j a = if i = j then some act else none)
    (h : s.stepModule i act ok = some s') : Delta s a s' ∧ s'.ctx.nrModule = s.ctx.nrModule := by
  unfold stepModule at h
  split at h
  · rename_i hi
    obtain ⟨⟨m', eff⟩, hstep, rfl⟩ := Option.map_eq_some_iff.mp h
    obtain ⟨hmodules, hnr⟩ := (s.ctx.setModule i m').effect_delivered ok eff
    exact ⟨.move hact hi (Module.step_move hstep) hmodules, hnr⟩
  · cases h

theorem step_delta (h : s.step a = some s') : Delta s a s' ∧ s'.ctx.nrModule = s.ctx.nrModule := by
  cases step_sysMove h with
  | tick hs' =>
      subst hs'
      exact ⟨.idle (fun _ => rfl) rfl, rfl⟩
  | sched hstep => exact stepModule_delta (fun _ => rfl) hstep
  | call hstep => exact stepModule_delta (fun _ => rfl) hstep
  | stop hstep => exact stepModule_delta (fun _ => rfl) hstep
  | @requestSync t i seq msg ok _ hs' =>
      subst hs'
      obtain ⟨hmodules, hnr⟩ := Ctx.post_delivered _ i (makeEv .start seq s.ctx.rid .external .ignore msg ok)
      exact ⟨.request (fun _ => rfl) hmodules, hnr⟩
  | wakeup _ _ hs' =>
      subst hs'
      exact ⟨.idle (fun _ => rfl) rfl, rfl⟩
  | sleep _ _ hs' =>
      subst hs'
      exact ⟨.idle (fun _ => rfl) rfl, rfl⟩
  | requestAsync _ hs' =>
      subst hs'
      exact ⟨.idle (fun _ => rfl) rfl, rfl⟩
  | @asyncPost t rid i seq msg ok _ hs' =>
      subst hs'
      obtain ⟨hmodules, hnr⟩ := s.ctx.post_delivered i (makeEv .start seq rid .external .ignore msg ok)
      exact ⟨.request (fun _ => rfl) hmodules, hnr⟩

/-- The module after its own move and before an event reaches its inbox. -/
inductive Moved (s : Sys) (a : Act) (j : Nat) : Module → Prop where
  | stay (h : s.localAct j a = none) : Moved s a j (s.module j)
  | move {act : ModAct} {eff : Effect} {m' : Module} (h : s.localAct j a = some act)
      (hmove : Move (s.module j) act eff m') : Moved s a j m'

theorem step_moved (h : s.step a = some s') (j : Nat) :
    ∃ m₁, Moved s a j m₁ ∧ (s'.module j = m₁ ∨ ∃ e, s'.module j = m₁.enqueue e) := by
  cases (step_delta h).1 with
  | @move i act eff m' hact _ hmove hmodules =>
      have hdel := delivered_apply s.ctx.nrModule (Function.update s.module i m') eff j
      rw [← hmodules] at hdel
      have hcases : s'.module j = Function.update s.module i m' j ∨
          ∃ e, s'.module j = (Function.update s.module i m' j).enqueue e :=
        hdel.imp id fun ⟨e, _, _, he⟩ => ⟨e, he⟩
      by_cases hij : i = j
      · subst hij
        rw [Function.update_self] at hcases
        exact ⟨m', .move (by rw [hact, if_pos rfl]) hmove, hcases⟩
      · rw [Function.update_of_ne (Ne.symm hij)] at hcases
        exact ⟨s.module j, .stay (by rw [hact, if_neg hij]), hcases⟩
  | request hact hmodules =>
      refine ⟨s.module j, .stay (hact j), ?_⟩
      rw [hmodules]
      exact (delivered_apply _ _ _ j).imp id fun ⟨e, _, _, he⟩ => ⟨e, he⟩
  | idle hact hmodules => exact ⟨s.module j, .stay (hact j), .inl (by rw [hmodules])⟩

theorem localAct_sched {j : Nat} {now : Timespec} {ok : Alloc} (h : s.localAct j a = some (.sched now ok)) :
    a = .sched j ok ∧ now = s.clock := by
  cases a with
  | sched i ok' =>
      obtain ⟨rfl, hact⟩ := Option.ite_none_right_eq_some.mp h
      obtain ⟨rfl, rfl⟩ := ModAct.sched.inj (Option.some.inj hact)
      exact ⟨rfl, rfl⟩
  | call i c ok' =>
      obtain ⟨-, hact⟩ := Option.ite_none_right_eq_some.mp h
      cases hact
  | stop i =>
      obtain ⟨-, hact⟩ := Option.ite_none_right_eq_some.mp h
      cases hact
  | _ => cases h

/-- The instance after module `i` has become `m'`, with the effect of the step. -/
def after (s : Sys) (i : Nat) (m' : Module) (eff : Effect) (ok : Alloc) : Sys :=
  { s with ctx := (s.ctx.setModule i m').effect ok eff }

theorem stepModule_eq {i : Nat} {act : ModAct} {ok : Alloc} (h : s.stepModule i act ok = some s') :
    i < s.ctx.nrModule ∧ ∃ m' eff, (s.module i).step act = some (m', eff) ∧ s' = s.after i m' eff ok := by
  unfold stepModule at h
  split at h
  · rename_i hi
    obtain ⟨⟨m', eff⟩, hstep, rfl⟩ := Option.map_eq_some_iff.mp h
    exact ⟨hi, m', eff, hstep, rfl⟩
  · cases h

theorem step_of_call {i : Nat} {c : Call} {ok : Alloc} {a : FiberRef} {m' : Module} {eff : Effect}
    (hi : i < s.ctx.nrModule) (hcur : (s.module i).current = some a)
    (hcall : Coseq.call (s.module i) a c s.clock s.ctx.nextClientId ok = some (m', eff)) :
    s.step (.call i c ok) = some (s.after i m' eff ok) := by
  rw [step, stepModule, if_pos hi, Module.step, hcur, Option.bind_some, hcall, Option.map_some]
  rfl

/-- A post to another module. -/
theorem after_post {i d : Nat} (m' : Module) (e : Ev) (ok : Alloc) (hd : d < s.ctx.nrModule) (hne : d ≠ i) :
    (s.after i m' (.post d (some e)) ok).module =
      Function.update (Function.update s.module i m') d ((s.module d).enqueue e) := by
  have hother : (s.ctx.setModule i m').modules d = s.module d := Function.update_of_ne hne _ _
  have hmodules := ((s.ctx.setModule i m').effect_delivered ok (.post d (some e))).1
  rw [delivered, hother] at hmodules
  exact hmodules.trans (if_pos hd)

/-- Only its own post changes the module after its step. -/
theorem after_module (s : Sys) (i : Nat) (m' : Module) (eff : Effect) (ok : Alloc) :
    (s.after i m' eff ok).module i = m' ∨
      ∃ e, eff = .post i (some e) ∧ (s.after i m' eff ok).module i = m'.enqueue e := by
  have hself : (s.ctx.setModule i m').modules i = m' := s.ctx.setModule_self i m'
  have hmodules := ((s.ctx.setModule i m').effect_delivered ok eff).1
  change ((s.ctx.setModule i m').effect ok eff).modules i = m' ∨ ∃ e, _ ∧
    ((s.ctx.setModule i m').effect ok eff).modules i = m'.enqueue e
  rw [hmodules]
  rcases delivered_apply (s.ctx.setModule i m').nrModule (s.ctx.setModule i m').modules eff i with
    heq | ⟨e, heff, -, heq⟩
  · exact .inl (heq.trans hself)
  · exact .inr ⟨e, heff, heq.trans (congrArg (Module.enqueue · e) hself)⟩

/-- What the arrival of an event leaves alone changes in module `i` only. -/
theorem after_field {β : Type*} {F : Module → β} (hF : ∀ m e, F (m.enqueue e) = F m) {i : Nat} {m' : Module}
    {eff : Effect} {ok : Alloc} (j : Nat) :
    F ((s.after i m' eff ok).module j) = F (Function.update s.module i m' j) := by
  have hmodules := ((s.ctx.setModule i m').effect_delivered ok eff).1
  change F (((s.ctx.setModule i m').effect ok eff).modules j) = _
  rw [hmodules]
  rcases delivered_apply (s.ctx.setModule i m').nrModule (s.ctx.setModule i m').modules eff j with
    heq | ⟨e, -, -, heq⟩
  · rw [heq]
    rfl
  · rw [heq, hF]
    rfl

/-- Only a tick moves the clock. -/
theorem step_clock (h : s.step a = some s') : s'.clock = match a with
    | .tick now => now
    | _ => s.clock := by
  have hmodule : ∀ {i act ok}, s.stepModule i act ok = some s' → s'.clock = s.clock := by
    intro i act ok h
    obtain ⟨-, _, _, -, rfl⟩ := stepModule_eq h
    rfl
  cases step_sysMove h with
  | tick hs' =>
      subst hs'
      rfl
  | sched hstep => exact hmodule hstep
  | call hstep => exact hmodule hstep
  | stop hstep => exact hmodule hstep
  | requestSync _ hs' =>
      subst hs'
      rfl
  | wakeup _ _ hs' =>
      subst hs'
      rfl
  | sleep _ _ hs' =>
      subst hs'
      rfl
  | requestAsync _ hs' =>
      subst hs'
      rfl
  | asyncPost _ hs' =>
      subst hs'
      rfl

/-- The module after its own step, as the step function computes it, and before an event reaches its
inbox. -/
inductive Stepped (s : Sys) (a : Act) (j : Nat) : Module → Prop where
  | stay (h : s.localAct j a = none) : Stepped s a j (s.module j)
  | step {act : ModAct} {eff : Effect} {m' : Module} (h : s.localAct j a = some act)
      (hstep : (s.module j).step act = some (m', eff)) : Stepped s a j m'

theorem stepModule_stepped {i : Nat} {act : ModAct} {ok : Alloc}
    (hact : ∀ j, s.localAct j a = if i = j then some act else none)
    (h : s.stepModule i act ok = some s') (j : Nat) :
    ∃ m₁, Stepped s a j m₁ ∧ (s'.module j = m₁ ∨ ∃ e, s'.module j = m₁.enqueue e) := by
  obtain ⟨-, m', eff, hstep, rfl⟩ := stepModule_eq h
  have hmodules := ((s.ctx.setModule i m').effect_delivered ok eff).1
  have hdel := delivered_apply s.ctx.nrModule (Function.update s.ctx.modules i m') eff j
  have hcases : ((s.ctx.setModule i m').effect ok eff).modules j = Function.update s.ctx.modules i m' j ∨
      ∃ e, ((s.ctx.setModule i m').effect ok eff).modules j =
        (Function.update s.ctx.modules i m' j).enqueue e := by
    rw [hmodules]
    exact hdel.imp id fun ⟨e, _, _, he⟩ => ⟨e, he⟩
  by_cases hij : i = j
  · subst hij
    rw [Function.update_self] at hcases
    exact ⟨m', .step (by rw [hact, if_pos rfl]) hstep, hcases⟩
  · rw [Function.update_of_ne (Ne.symm hij)] at hcases
    exact ⟨s.module j, .stay (by rw [hact, if_neg hij]), hcases⟩

theorem step_stepped (h : s.step a = some s') (j : Nat) :
    ∃ m₁, Stepped s a j m₁ ∧ (s'.module j = m₁ ∨ ∃ e, s'.module j = m₁.enqueue e) := by
  have hquiet : (∀ j, s.localAct j a = none) →
      ∃ m₁, Stepped s a j m₁ ∧ (s'.module j = m₁ ∨ ∃ e, s'.module j = m₁.enqueue e) := by
    intro hnone
    obtain ⟨m₁, hm₁, hs'⟩ := step_moved h j
    cases hm₁ with
    | stay hstay => exact ⟨s.module j, .stay hstay, hs'⟩
    | move hact =>
        rw [hnone j] at hact
        cases hact
  cases a with
  | sched i ok => exact stepModule_stepped (fun _ => rfl) h j
  | call i c ok => exact stepModule_stepped (fun _ => rfl) h j
  | stop i => exact stepModule_stepped (fun _ => rfl) h j
  | tick now => exact hquiet fun _ => rfl
  | requestSync t i seq msg ok => exact hquiet fun _ => rfl
  | wakeup t ok => exact hquiet fun _ => rfl
  | requestAsync t i seq msg => exact hquiet fun _ => rfl
  | asyncPost t ok => exact hquiet fun _ => rfl

/-- The histories only grow. -/
theorem step_grows (h : s.step a = some s') (j : Nat) :
    ∃ xs, (s'.module j).trace = (s.module j).trace ++ xs := by
  obtain ⟨m₁, hm₁, hs'⟩ := step_moved h j
  have hgrow : ∃ xs, m₁.trace = (s.module j).trace ++ xs := by
    cases hm₁ with
    | stay => exact ⟨[], (List.append_nil _).symm⟩
    | move _ hmove => exact hmove.grows.2.2
  obtain ⟨xs, hxs⟩ := hgrow
  rcases hs' with heq | ⟨e, heq⟩
  · rw [heq]
    exact ⟨xs, hxs⟩
  · rw [heq]
    exact ⟨xs ++ _, by rw [← List.append_assoc, ← hxs]; rfl⟩

/-- What `setup` has fixed stays, and only the modules of the table take part. -/
theorem step_fixed (h : s.step a = some s') (j : Nat) :
    (s'.module j).idx = (s.module j).idx ∧ (s'.module j).nrSeq = (s.module j).nrSeq := by
  obtain ⟨m₁, hm₁, hs'⟩ := step_moved h j
  have hfixed : m₁.idx = (s.module j).idx ∧ m₁.nrSeq = (s.module j).nrSeq := by
    cases hm₁ with
    | stay => exact ⟨rfl, rfl⟩
    | move _ hmove => exact ⟨hmove.grows.2.1, hmove.grows.1⟩
  rcases hs' with heq | ⟨e, heq⟩ <;> rw [heq] <;> exact hfixed

theorem step_outside (h : s.step a = some s') {j : Nat} (hj : s.ctx.nrModule ≤ j) :
    s'.module j = s.module j := by
  have hdelivered : ∀ (modules : Nat → Module) (eff : Effect),
      delivered s.ctx.nrModule modules eff j = modules j := fun modules eff =>
    (delivered_apply s.ctx.nrModule modules eff j).resolve_right
      fun ⟨_, _, hlt, _⟩ => absurd hj (Nat.not_le_of_lt hlt)
  cases (step_delta h).1 with
  | move _ hi _ hmodules =>
      rw [hmodules, hdelivered, Function.update_of_ne (Nat.ne_of_gt (Nat.lt_of_lt_of_le hi hj))]
  | request _ hmodules => rw [hmodules, hdelivered]
  | idle _ hmodules => rw [hmodules]

theorem step_trace (h : s.step a = some s') {j : Nat} {x : Obs} (hx : x ∈ (s.module j).trace) :
    x ∈ (s'.module j).trace := by
  obtain ⟨xs, hxs⟩ := step_grows h j
  rw [hxs]
  exact List.mem_append_left _ hx

end Sys

/-- A condition on the moves of every module, as one on the steps of the system. -/
def EveryModule (G : Module → ModAct → Prop) (s : Sys) (a : Act) : Prop :=
  ∀ j act, s.localAct j a = some act → G (s.module j) act

instance {G : Module → ModAct → Prop} [∀ m act, Decidable (G m act)] (s : Sys) (a : Act) :
    Decidable (EveryModule G s a) :=
  match a with
  | .sched i ok => decidable_of_iff (G (s.module i) (.sched s.clock ok))
      (by simp [EveryModule, Sys.localAct])
  | .call i c ok => decidable_of_iff (G (s.module i) (.call c s.clock s.ctx.nextClientId ok))
      (by simp [EveryModule, Sys.localAct])
  | .stop i => decidable_of_iff (G (s.module i) .stop) (by simp [EveryModule, Sys.localAct])
  | .tick _ => .isTrue (by simp [EveryModule, Sys.localAct])
  | .requestSync .. => .isTrue (by simp [EveryModule, Sys.localAct])
  | .wakeup .. => .isTrue (by simp [EveryModule, Sys.localAct])
  | .requestAsync .. => .isTrue (by simp [EveryModule, Sys.localAct])
  | .asyncPost .. => .isTrue (by simp [EveryModule, Sys.localAct])

/-- The table of the instance is that of its `setup`. -/
theorem setup_fixed {ok : Sys → Act → Prop} {tbl : List Reg} {s : Sys} (hrun : Reaches ok tbl s) :
    s.ctx.nrModule = tbl.length ∧ (∀ j, (s.module j).idx = j) ∧
      ∀ j, tbl.length ≤ j → s.module j = Module.boot j ⟨0, false⟩ := by
  refine hrun.invariant (P := fun s => s.ctx.nrModule = tbl.length ∧ (∀ j, (s.module j).idx = j) ∧
    ∀ j, tbl.length ≤ j → s.module j = Module.boot j ⟨0, false⟩)
    ⟨rfl, fun _ => rfl, fun j hj => ?_⟩ ?_
  · change Module.boot j (tbl.getD j ⟨0, false⟩) = _
    rw [List.getD_eq_getElem?_getD, List.getElem?_eq_none hj, Option.getD_none]
  · intro s a s' _ ⟨hnr, hidx, houtside⟩ _ hstep
    refine ⟨(Sys.step_delta hstep).2.trans hnr, fun j => (Sys.step_fixed hstep j).1.trans (hidx j),
      fun j hj => ?_⟩
    rw [Sys.step_outside hstep (hnr ▸ hj)]
    exact houtside j hj

/-- The invariant rule for facts about one module: the moves that the condition allows and the
arrival of any event keep it. -/
theorem module_invariant {ok : Sys → Act → Prop} {G : Module → ModAct → Prop} {P : Module → Prop}
    {tbl : List Reg} {s : Sys} (hrun : Reaches ok tbl s) (hok : ∀ s a, ok s a → EveryModule G s a)
    (hboot : ∀ i reg, P (Module.boot i reg))
    (hmove : ∀ m act eff m', P m → G m act → Move m act eff m' → P m')
    (harrive : ∀ m e, P m → P (m.enqueue e)) (j : Nat) : P (s.module j) := by
  revert j
  refine hrun.invariant (P := fun s => ∀ j, P (s.module j)) (fun j => hboot j _) ?_
  intro s a s' _ ih hs hstep j
  obtain ⟨m₁, hm₁, hs'⟩ := Sys.step_moved hstep j
  have hP : P m₁ := by
    cases hm₁ with
    | stay => exact ih j
    | move hact hmv => exact hmove _ _ _ _ (ih j) (hok s a hs j _ hact) hmv
  rcases hs' with h | ⟨e, h⟩
  · rw [h]
    exact hP
  · rw [h]
    exact harrive _ _ hP

end Coseq
