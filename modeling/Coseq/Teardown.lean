import Coseq.FiberModes

/-! The end of an instance. `_teardown` first sets `nr_module` to 0: from then on every post is dropped, while the
threads of the modules go on until they see `stop`. The steps before it are those of the running instance. `post`
looks at `nr_module` and appends in one step, so a post of an external thread that has looked at it just before
`_teardown` sets it to 0, and appends afterwards, is not among the runs. -/

namespace Coseq

/-- What happens to an instance: a step of one of its threads, or the first line of `_teardown`. -/
inductive LifeAct where
  | act (a : Act)
  | teardown

namespace Sys

variable (s : Sys)

/-- A step of one of the `n` modules that `setup` has started, whatever `nr_module` is by now. -/
def stepStarted (n i : Nat) (act : ModAct) (ok : Alloc) : Option Sys :=
  if i < n then ((s.module i).step act).map fun r => s.after i r.1 r.2 ok else none

def stepLife (n : Nat) : LifeAct → Option Sys
  | .teardown => some { s with ctx := { s.ctx with nrModule := 0 } }
  | .act (.sched i ok) => s.stepStarted n i (.sched s.clock ok) ok
  | .act (.call i c ok) => s.stepStarted n i (.call c s.clock s.ctx.nextClientId ok) ok
  | .act (.stop i) => s.stepStarted n i .stop fun _ => true
  | .act a => s.step a

variable {s} {s' : Sys} {n : Nat}

theorem stepStarted_eq {i : Nat} {act : ModAct} {ok : Alloc} (h : s.stepStarted n i act ok = some s') :
    i < n ∧ ∃ m' eff, (s.module i).step act = some (m', eff) ∧ s' = s.after i m' eff ok := by
  unfold stepStarted at h
  split at h
  · rename_i hi
    obtain ⟨⟨m', eff⟩, hstep, rfl⟩ := Option.map_eq_some_iff.mp h
    exact ⟨hi, m', eff, hstep, rfl⟩
  · cases h

/-- What a step of an instance does to one of its modules, before and after `_teardown`. -/
inductive LifeMoved (s : Sys) (a : LifeAct) (j : Nat) : Module → Prop where
  | stay : LifeMoved s a j (s.module j)
  | move {b : Act} {act : ModAct} {eff : Effect} {m' : Module} (ha : a = .act b) (hact : s.localAct j b = some act)
      (hmove : Move (s.module j) act eff m') : LifeMoved s a j m'

theorem started_moved {i : Nat} {b : Act} {act : ModAct} {ok : Alloc} (hact : s.localAct i b = some act)
    (h : s.stepStarted n i act ok = some s') (j : Nat) :
    ∃ m₁, LifeMoved s (.act b) j m₁ ∧ (s'.module j = m₁ ∨ ∃ e, s'.module j = m₁.enqueue e) := by
  obtain ⟨-, m', eff, hstep, rfl⟩ := stepStarted_eq h
  have hmodules := ((s.ctx.setModule i m').effect_delivered ok eff).1
  have hdel := delivered_apply (s.ctx.setModule i m').nrModule (s.ctx.setModule i m').modules eff j
  rw [← hmodules] at hdel
  have hcases := hdel.imp id fun ⟨e, _, _, he⟩ => (⟨e, he⟩ : ∃ e, _ = _)
  by_cases hij : j = i
  · subst hij
    rw [Ctx.setModule_self] at hcases
    exact ⟨m', .move rfl hact (Module.step_move hstep), hcases⟩
  · have hother : (s.ctx.setModule i m').modules j = s.module j := Function.update_of_ne hij _ _
    rw [hother] at hcases
    exact ⟨s.module j, .stay, hcases⟩

theorem life_moved {a : LifeAct} (h : s.stepLife n a = some s') (j : Nat) :
    ∃ m₁, LifeMoved s a j m₁ ∧ (s'.module j = m₁ ∨ ∃ e, s'.module j = m₁.enqueue e) := by
  have hstep : ∀ b, s.step b = some s' →
      ∃ m₁, LifeMoved s (.act b) j m₁ ∧ (s'.module j = m₁ ∨ ∃ e, s'.module j = m₁.enqueue e) := by
    intro b hb
    obtain ⟨m₁, hm₁, hs'⟩ := step_moved hb j
    refine ⟨m₁, ?_, hs'⟩
    cases hm₁ with
    | stay => exact .stay
    | move hact hmove => exact .move rfl hact hmove
  cases a with
  | teardown =>
      obtain rfl := Option.some.inj h
      exact ⟨s.module j, .stay, .inl rfl⟩
  | act b =>
      cases b with
      | sched i ok =>
          have hact : s.localAct i (.sched i ok) = some (.sched s.clock ok) := if_pos rfl
          exact started_moved hact h j
      | call i c ok =>
          have hact : s.localAct i (.call i c ok) = some (.call c s.clock s.ctx.nextClientId ok) := if_pos rfl
          exact started_moved hact h j
      | stop i =>
          have hact : s.localAct i (.stop i) = some (.stop) := if_pos rfl
          exact started_moved hact h j
      | tick now => exact hstep (.tick now) h
      | requestSync t d seq msg ok => exact hstep (.requestSync t d seq msg ok) h
      | wakeup t ok => exact hstep (.wakeup t ok) h
      | requestAsync t d seq msg => exact hstep (.requestAsync t d seq msg) h
      | asyncPost t ok => exact hstep (.asyncPost t ok) h

end Sys

/-- The states that an instance with the table `tbl` reaches, its end included. -/
abbrev Lives (ok : Sys → LifeAct → Prop) (tbl : List Reg) : Sys → Prop :=
  Lts.Run (fun s a => s.stepLife tbl.length a) ok (boot tbl)

/-- A module's invariant holds over the whole life of the instance. -/
theorem life_invariant {ok : Sys → LifeAct → Prop} {G : Module → ModAct → Prop} {P : Module → Prop} {tbl : List Reg}
    {s : Sys} (hrun : Lives ok tbl s) (hok : ∀ s b, ok s (.act b) → EveryModule G s b)
    (hboot : ∀ i reg, P (Module.boot i reg)) (hmove : ∀ m act eff m', P m → G m act → Move m act eff m' → P m')
    (harrive : ∀ m e, P m → P (m.enqueue e)) (j : Nat) : P (s.module j) := by
  revert j
  refine hrun.invariant (P := fun s => ∀ j, P (s.module j)) (fun j => hboot j _) ?_
  intro s a s' _ ih hs hstep j
  obtain ⟨m₁, hm₁, hs'⟩ := Sys.life_moved hstep j
  have hP : P m₁ := by
    cases hm₁ with
    | stay => exact ih j
    | move ha hact hmv =>
        subst ha
        exact hmove _ _ _ _ (ih j) (hok s _ hs j _ hact) hmv
  rcases hs' with h | ⟨e, h⟩
  · rw [h]
    exact hP
  · rw [h]
    exact harrive _ _ hP

theorem life_modes {ok : Sys → LifeAct → Prop} {tbl : List Reg} {s : Sys} (hrun : Lives ok tbl s) (j : Nat) :
    Modes (s.module j) :=
  life_invariant (G := fun _ _ => True) hrun (fun _ _ _ _ _ _ => trivial) Modes.boot
    (fun _ _ _ _ h _ hmove => h.move hmove) (fun _ e h => h.enqueue e) j

/-- A thread that has left its loop leaves no fiber running and no event in its batch. -/
theorem stopped_idle {ok : Sys → LifeAct → Prop} {tbl : List Reg} {s : Sys} (hrun : Lives ok tbl s) (j : Nat)
    (hstopped : (s.module j).phase = .stopped) : (s.module j).current = none ∧ (s.module j).batch = [] := by
  have hall : Modes (s.module j) ∧
      ((s.module j).phase = .stopped → (s.module j).current = none ∧ (s.module j).batch = []) := by
    refine life_invariant (G := fun _ _ => True) (P := fun m => Modes m ∧
      (m.phase = .stopped → m.current = none ∧ m.batch = [])) hrun (fun _ _ _ _ _ _ => trivial)
      (fun i reg => ⟨Modes.boot i reg, fun h => by cases h⟩) ?_ (fun _ e h => ⟨h.1.enqueue e, h.2⟩) j
    intro m act eff m' ⟨hmodes, hidle⟩ _ hmove
    have hawake : ∀ a, m.current = some a → m.phase ≠ .stopped := fun a hcur hphase =>
      Option.some_ne_none a (hcur.symm.trans (hidle hphase).1)
    refine ⟨hmodes.move hmove, fun hphase => ?_⟩
    cases hmove with
    | halt hcur hmerge =>
        refine ⟨hcur, ?_⟩
        cases hmerge with
        | kept hkept => exact (hmodes.swept (hkept.elim .inr fun h => .inl h.1)).1
        | spliced htop => exact (hmodes.swept (.inl htop)).1
    | pass _ hpass => cases hpass <;> cases hphase
    | fire _ hwas => cases hphase
    | expire _ hwas => cases hphase
    | defer _ hhead => exact absurd (hhead.phase.symm.trans hphase) (by simp)
    | drop _ hhead => exact absurd (hhead.phase.symm.trans hphase) (by simp)
    | begin _ hhead => exact absurd (hhead.phase.symm.trans hphase) (by simp)
    | wake _ hhead => exact absurd (hhead.phase.symm.trans hphase) (by simp)
    | queue _ hhead => exact absurd (hhead.phase.symm.trans hphase) (by simp)
    | lose _ hhead => exact absurd (hhead.phase.symm.trans hphase) (by simp)
    | issue hcur => exact absurd hphase (hawake _ hcur)
    | «local» hcur => exact absurd hphase (hawake _ hcur)
    | lock hcur => exact absurd hphase (hawake _ hcur)
    | unlock hcur => exact absurd hphase (hawake _ hcur)
    | ret hcur => exact absurd hphase (hawake _ hcur)
    | stop => exact hidle hphase
    | _ => cases hphase
  exact hall.2 hstopped

end Coseq
