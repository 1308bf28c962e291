import Mathlib.Data.List.Count
import Mathlib.Data.Option.Basic

/-! Runs of a labelled step function: the states reached when each step is one an `ok` allows, with a log
of what the steps emit, the invariant rules, and the execution of a given list of labels. -/

namespace Lts

variable {σ α : Type*}

/-- The states reached from `s₀` by steps that `ok` allows. -/
inductive Run (step : σ → α → Option σ) (ok : σ → α → Prop) (s₀ : σ) : σ → Prop where
  | refl : Run step ok s₀ s₀
  | tail {s s' : σ} {a : α} : Run step ok s₀ s → ok s a → step s a = some s' → Run step ok s₀ s'

variable {step : σ → α → Option σ} {ok ok' : σ → α → Prop} {s₀ s s' : σ}

theorem Run.mono (h : ∀ s a, ok s a → ok' s a) (hrun : Run step ok s₀ s) : Run step ok' s₀ s := by
  induction hrun with
  | refl => exact .refl
  | tail _ hok hstep ih => exact ih.tail (h _ _ hok) hstep

/-- A condition that every step of the run turns out to meet. -/
theorem Run.meets (hrun : Run step ok s₀ s)
    (h : ∀ s a s', Run step ok s₀ s → ok s a → step s a = some s' → ok' s a) : Run step ok' s₀ s := by
  induction hrun with
  | refl => exact .refl
  | tail hr hok hstep ih => exact ih.tail (h _ _ _ hr hok hstep) hstep

/-- What holds at the start and survives every allowed step holds in every state reached. -/
theorem Run.invariant {P : σ → Prop} (hrun : Run step ok s₀ s) (hstart : P s₀)
    (hpres : ∀ s a s', Run step ok s₀ s → P s → ok s a → step s a = some s' → P s') : P s := by
  induction hrun with
  | refl => exact hstart
  | tail hr hok hstep ih => exact hpres _ _ _ hr ih hok hstep

/-- The state after a list of labels, if each is allowed and enabled. -/
def exec (step : σ → α → Option σ) (ok : σ → α → Prop) [∀ s a, Decidable (ok s a)] :
    σ → List α → Option σ
  | s, [] => some s
  | s, a :: as => if ok s a then (step s a).bind fun s' => exec step ok s' as else none

theorem Run.exec [∀ s a, Decidable (ok s a)] {as : List α} (hrun : Run step ok s₀ s)
    (h : Lts.exec step ok s as = some s') : Run step ok s₀ s' := by
  induction as generalizing s with
  | nil =>
      obtain rfl : s = s' := Option.some.inj h
      exact hrun
  | cons a as ih =>
      rw [Lts.exec] at h
      split at h
      · rename_i hok
        obtain ⟨s₁, hs₁, h⟩ := Option.bind_eq_some_iff.mp h
        exact ih (hrun.tail hok hs₁) h
      · cases h

theorem run_of_exec [∀ s a, Decidable (ok s a)] {as : List α}
    (h : exec step ok s₀ as = some s) : Run step ok s₀ s := Run.refl.exec h

/-- A state with a given property, reached by a given list of labels. -/
theorem exists_run [∀ s a, Decidable (ok s a)] (as : List α) {p : σ → Bool}
    (h : (exec step ok s₀ as).any p = true) : ∃ s, Run step ok s₀ s ∧ p s = true := by
  cases hs : exec step ok s₀ as with
  | none =>
      rw [hs] at h
      cases h
  | some s =>
      rw [hs] at h
      exact ⟨s, run_of_exec hs, h⟩

theorem Run.trans {s₁ : σ} (hrun : Run step ok s₀ s₁) (hrun' : Run step ok s₁ s) : Run step ok s₀ s := by
  induction hrun' with
  | refl => exact hrun
  | tail _ hok hstep ih => exact ih.tail hok hstep

/-- A state with a given property, reached by a first label that `ok` allows and labels that a condition allows which
can be decided. -/
theorem exists_run_after [∀ s a, Decidable (ok' s a)] (h' : ∀ s a, ok' s a → ok s a) {a : α} (hok : ok s₀ a)
    (as : List α) {p : σ → Bool} (h : ((step s₀ a).bind fun s => exec step ok' s as).any p = true) :
    ∃ s, Run step ok s₀ s ∧ p s = true := by
  cases hs : (step s₀ a).bind fun s => exec step ok' s as with
  | none =>
      rw [hs] at h
      cases h
  | some s =>
      rw [hs] at h
      obtain ⟨s₁, hstep, hexec⟩ := Option.bind_eq_some_iff.mp hs
      have hfirst : Run step ok s₀ s₁ := Run.refl.tail hok hstep
      exact ⟨s, hfirst.trans ((run_of_exec hexec).mono h'), h⟩

/-! ### Runs with a log -/

variable {β : Type*}

/-- The states reached from `s₀`, each with the log of what the steps to it have emitted. -/
inductive Logged (step : σ → α → Option σ) (ok : σ → α → Prop) (emit : σ → α → List β) (s₀ : σ) :
    List β → σ → Prop where
  | refl : Logged step ok emit s₀ [] s₀
  | tail {l : List β} {s s' : σ} {a : α} : Logged step ok emit s₀ l s → ok s a → step s a = some s' →
      Logged step ok emit s₀ (l ++ emit s a) s'

variable {emit : σ → α → List β} {l : List β}

theorem Logged.run (hrun : Logged step ok emit s₀ l s) : Run step ok s₀ s := by
  induction hrun with
  | refl => exact .refl
  | tail _ hok hstep ih => exact ih.tail hok hstep

/-- What holds at the start of an empty log and survives every allowed step holds of every state with its
log. -/
theorem Logged.invariant {P : List β → σ → Prop} (hrun : Logged step ok emit s₀ l s) (hstart : P [] s₀)
    (hpres : ∀ l s a s', Logged step ok emit s₀ l s → P l s → ok s a → step s a = some s' →
      P (l ++ emit s a) s') : P l s := by
  induction hrun with
  | refl => exact hstart
  | tail hr hok hstep ih => exact hpres _ _ _ _ hr ih hok hstep

/-- The projection rule: a run with the list of its labels, seen by an observer who is shown some of them. The
observer's system makes a step for each label that is shown, and the others leave the relation as it is. -/
theorem Logged.project {τ γ : Type*} {step' : τ → γ → Option τ} {ok' : τ → γ → Prop} {t₀ : τ} {f : α → Option γ}
    {R : σ → τ → Prop} {as : List α} (hrun : Logged step ok (fun _ a => [a]) s₀ as s) (hstart : R s₀ t₀)
    (hskip : ∀ s a s' t, R s t → ok s a → step s a = some s' → f a = none → R s' t)
    (hshow : ∀ s a s' t b, R s t → ok s a → step s a = some s' → f a = some b →
      ∃ t', ok' t b ∧ step' t b = some t' ∧ R s' t') :
    ∃ t, Logged step' ok' (fun _ b => [b]) t₀ (as.filterMap f) t ∧ R s t := by
  induction hrun with
  | refl => exact ⟨t₀, .refl, hstart⟩
  | @tail l s s' a _ hok hstep ih =>
      obtain ⟨t, hrun', hR⟩ := ih
      cases hf : f a with
      | none =>
          refine ⟨t, ?_, hskip s a s' t hR hok hstep hf⟩
          rw [List.filterMap_append, List.filterMap_cons_none hf, List.filterMap_nil, List.append_nil]
          exact hrun'
      | some b =>
          obtain ⟨t', hok', hstep', hR'⟩ := hshow s a s' t b hR hok hstep hf
          refine ⟨t', ?_, hR'⟩
          rw [List.filterMap_append, List.filterMap_cons_some hf, List.filterMap_nil]
          exact hrun'.tail hok' hstep'

/-- The ranking rule: no step raises the rank, and a step with a counted label lowers it. So a run has no more counted
labels than the rank it starts from. -/
theorem Logged.ranked (rank : σ → Nat) (p : α → Bool) {as : List α}
    (hrun : Logged step ok (fun _ a => [a]) s₀ as s)
    (hstep : ∀ s a s', Run step ok s₀ s → ok s a → step s a = some s' → rank s' + (p a).toNat ≤ rank s) :
    rank s + as.countP p ≤ rank s₀ := by
  induction hrun with
  | refl => exact Nat.le_refl _
  | @tail as s s' a hlog hok hs' ih =>
      have hlower := hstep s a s' hlog.run hok hs'
      have hcount : [a].countP p = (p a).toNat := by cases h : p a <;> simp [h]
      calc rank s' + (as ++ [a]).countP p
          = (rank s' + (p a).toNat) + as.countP p := by
            rw [List.countP_append, hcount]
            omega
        _ ≤ rank s + as.countP p := Nat.add_le_add_right hlower _
        _ ≤ rank s₀ := ih

/-- What a list of labels emits. -/
def collect (step : σ → α → Option σ) (emit : σ → α → List β) : σ → List α → List β
  | _, [] => []
  | s, a :: as => emit s a ++ ((step s a).elim [] fun s' => collect step emit s' as)

theorem Logged.exec [∀ s a, Decidable (ok s a)] {as : List α} (hrun : Logged step ok emit s₀ l s)
    (h : Lts.exec step ok s as = some s') : Logged step ok emit s₀ (l ++ collect step emit s as) s' := by
  induction as generalizing s l with
  | nil =>
      obtain rfl : s = s' := Option.some.inj h
      rwa [collect, List.append_nil]
  | cons a as ih =>
      rw [Lts.exec] at h
      split at h
      · rename_i hok
        obtain ⟨s₁, hs₁, h⟩ := Option.bind_eq_some_iff.mp h
        rw [collect, hs₁, Option.elim_some, ← List.append_assoc]
        exact ih (hrun.tail hok hs₁) h
      · cases h

/-- A state and a log with a given property, reached by a given list of labels. -/
theorem exists_logged [∀ s a, Decidable (ok s a)] (as : List α) {p : List β → σ → Bool}
    (h : (exec step ok s₀ as).any (p (collect step emit s₀ as)) = true) :
    ∃ l s, Logged step ok emit s₀ l s ∧ p l s = true := by
  cases hs : exec step ok s₀ as with
  | none =>
      rw [hs] at h
      cases h
  | some s =>
      rw [hs] at h
      have hstart : Logged step ok emit s₀ [] s₀ := .refl
      exact ⟨_, s, hstart.exec hs, h⟩

theorem Logged.labels [∀ s a, Decidable (ok s a)] {as bs : List α}
    (hrun : Logged step ok (fun _ a => [a]) s₀ bs s) (h : Lts.exec step ok s as = some s') :
    Logged step ok (fun _ a => [a]) s₀ (bs ++ as) s' := by
  induction as generalizing s bs with
  | nil =>
      obtain rfl : s = s' := Option.some.inj h
      rwa [List.append_nil]
  | cons a as ih =>
      rw [Lts.exec] at h
      split at h
      · rename_i hok
        obtain ⟨s₁, hs₁, h⟩ := Option.bind_eq_some_iff.mp h
        rw [List.append_cons]
        exact ih (hrun.tail hok hs₁) h
      · cases h

/-- A state with a given property, reached by exactly the given list of labels. -/
theorem exists_labelled [∀ s a, Decidable (ok s a)] (as : List α) {p : σ → Bool}
    (h : (exec step ok s₀ as).any p = true) :
    ∃ s, Logged step ok (fun _ a => [a]) s₀ as s ∧ p s = true := by
  cases hs : exec step ok s₀ as with
  | none =>
      rw [hs] at h
      cases h
  | some s =>
      rw [hs] at h
      have hstart : Logged step ok (fun _ a => [a]) s₀ [] s₀ := .refl
      exact ⟨s, hstart.labels hs, h⟩

/-- A run, a step and a logged run after it, by given lists of labels. -/
theorem exists_segment [∀ s a, Decidable (ok s a)] [∀ s a, Decidable (ok' s a)] (as : List α) (a : α)
    (bs : List α) {p : σ → List β → σ → Bool}
    (h : ((exec step ok s₀ as).any fun s₁ => (step s₁ a).any fun s₂ =>
      (exec step ok' s₂ bs).any (p s₁ (collect step emit s₂ bs))) = true) :
    ∃ s₁ s₂ l s, Run step ok s₀ s₁ ∧ step s₁ a = some s₂ ∧ Logged step ok' emit s₂ l s ∧ p s₁ l s = true := by
  obtain ⟨s₁, hrun, h⟩ := exists_run as h
  cases hs₂ : step s₁ a with
  | none =>
      rw [hs₂] at h
      cases h
  | some s₂ =>
      rw [hs₂] at h
      obtain ⟨l, s, hlog, h⟩ := exists_logged bs h
      exact ⟨s₁, s₂, l, s, hrun, hs₂, hlog, h⟩

/-- A run and a run after it, by given lists of labels. -/
theorem exists_continued [∀ s a, Decidable (ok s a)] [∀ s a, Decidable (ok' s a)] (as bs : List α)
    {p : σ → σ → Bool} (h : ((exec step ok s₀ as).any fun s₁ => (exec step ok' s₁ bs).any (p s₁)) = true) :
    ∃ s₁ s, Run step ok s₀ s₁ ∧ Logged step ok' (fun _ a => [a]) s₁ bs s ∧ p s₁ s = true := by
  obtain ⟨s₁, hrun, h⟩ := exists_run as h
  obtain ⟨s, hlog, h⟩ := exists_labelled bs h
  exact ⟨s₁, s, hrun, hlog, h⟩

/-! ### Watched runs -/

variable {γ : Type*} {note : σ → α → σ → γ → γ} {g₀ : γ} {p p' : σ × γ} {a : α}

/-- The steps of a system together with a record that is kept of them and that no step depends on. -/
def watch (step : σ → α → Option σ) (note : σ → α → σ → γ → γ) (p : σ × γ) (a : α) : Option (σ × γ) :=
  (step p.1 a).map fun s => (s, note p.1 a s p.2)

theorem watch_eq (h : watch step note p a = some p') :
    step p.1 a = some p'.1 ∧ p'.2 = note p.1 a p'.1 p.2 := by
  obtain ⟨s, hstep, rfl⟩ := Option.map_eq_some_iff.mp h
  exact ⟨hstep, rfl⟩

/-- Every run can be watched. -/
theorem Run.watched (hrun : Run step ok s₀ s) (g₀ : γ) :
    ∃ g, Run (watch step note) (fun p a => ok p.1 a) (s₀, g₀) (s, g) := by
  induction hrun with
  | refl => exact ⟨g₀, .refl⟩
  | @tail s s' a _ hok hstep ih =>
      obtain ⟨g, hrun⟩ := ih
      refine ⟨note s a s' g, hrun.tail hok ?_⟩
      rw [watch, hstep]
      rfl

/-- What is watched is a run. -/
theorem Run.unwatch (hrun : Run (watch step note) (fun p a => ok p.1 a) (s₀, g₀) p) : Run step ok s₀ p.1 := by
  induction hrun with
  | refl => exact .refl
  | tail _ hok hstep ih => exact ih.tail hok (watch_eq hstep).1

end Lts
