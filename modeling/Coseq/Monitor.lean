import Coseq.RunTransition
import Mathlib.Logic.Function.Basic

/-! Monitors with one consumer. The threads share a state behind a mutex and a condition variable on which only the
consumer waits. Their programs are given point by point, and any interleaving of single instructions is a run. A proof
outline says what holds at each point of a critical section, and the rule for outlines turns it into an invariant of
all runs and a refinement: what the threads do to the shared state is a run of a system of atomic steps. -/

namespace Monitor

/-- The instruction at a point. `away` is code outside the mutex, `inside` an assignment under it. -/
inductive Instr where
  | away
  | lock
  | inside
  | signal
  | wait
  | unlock
  deriving DecidableEq

/-- The points between taking the mutex and giving it back. -/
def Instr.held : Instr → Bool
  | .away | .lock => false
  | _ => true

/-- A program over the shared state `σ`. `run` says what an `away` or `inside` instruction does, given a choice of the
environment, and `next` where the others lead. -/
structure Code (σ P γ : Type*) where
  instr : P → Instr
  next : P → P
  run : P → γ → σ → Option (P × σ)

/-- The mutex is taken by `lock` and given back by `unlock` and `wait` only. -/
structure Code.Guarded {σ P γ : Type*} (code : Code σ P γ) : Prop where
  lock : ∀ p, code.instr p = .lock → (code.instr (code.next p)).held = true
  signal : ∀ p, code.instr p = .signal → (code.instr (code.next p)).held = true
  wait : ∀ p, code.instr p = .wait → (code.instr (code.next p)).held = false
  unlock : ∀ p, code.instr p = .unlock → (code.instr (code.next p)).held = false
  run : ∀ p c σ p' σ', code.run p c σ = some (p', σ') → (code.instr p').held = (code.instr p).held

inductive Owner (τ : Type*) where
  | nobody
  | consumer
  | producer (t : τ)
  deriving DecidableEq

structure State (σ Q P τ : Type*) where
  shared : σ
  owner : Owner τ
  consumer : Q
  producer : τ → P
  asleep : Bool

/-- One instruction of the consumer or of a producer, or the end of the consumer's sleep without a signal. -/
inductive Label (τ γ δ : Type*) where
  | consumer (c : γ)
  | producer (t : τ) (d : δ)
  | wake

section Step

variable {σ Q P τ γ δ : Type*} [DecidableEq τ] (cc : Code σ Q γ) (pc : Code σ P δ)

/-- The consumer takes the mutex only when it has been woken. -/
def consumerStep (s : State σ Q P τ) (c : γ) : Option (State σ Q P τ) :=
  match cc.instr s.consumer with
  | .away | .inside => (cc.run s.consumer c s.shared).map fun r => { s with consumer := r.1, shared := r.2 }
  | .lock =>
      if s.owner = .nobody ∧ s.asleep = false then
        some { s with owner := .consumer, consumer := cc.next s.consumer }
      else none
  | .signal => some { s with asleep := false, consumer := cc.next s.consumer }
  | .wait => some { s with owner := .nobody, asleep := true, consumer := cc.next s.consumer }
  | .unlock => some { s with owner := .nobody, consumer := cc.next s.consumer }

def producerStep (s : State σ Q P τ) (t : τ) (d : δ) : Option (State σ Q P τ) :=
  let s' : State σ Q P τ := { s with producer := Function.update s.producer t (pc.next (s.producer t)) }
  match pc.instr (s.producer t) with
  | .away | .inside =>
      (pc.run (s.producer t) d s.shared).map fun r =>
        { s with producer := Function.update s.producer t r.1, shared := r.2 }
  | .lock => if s.owner = .nobody then some { s' with owner := .producer t } else none
  | .signal => some { s' with asleep := false }
  | .wait => none
  | .unlock => some { s' with owner := .nobody }

def step (s : State σ Q P τ) : Label τ γ δ → Option (State σ Q P τ)
  | .consumer c => consumerStep cc s c
  | .producer t d => producerStep pc s t d
  | .wake => if s.asleep then some { s with asleep := false } else none

end Step

/-! ### Proof outlines -/

variable {σ Q P τ γ δ α β : Type*}

/-- A step of the atomic system, or none. -/
def Within (astep : α → β → Option α) (a a' : α) : Prop := a' = a ∨ ∃ b, astep a b = some a'

/-- What holds at each point, of the shared state, of the consumer's sleep and of the atomic system's state: `free`
while nobody has the mutex, by the point of the consumer; `consuming` and `producing` while it is taken. -/
structure Outline (cc : Code σ Q γ) (pc : Code σ P δ) (astep : α → β → Option α) (reach : α → Prop) where
  free : Q → σ → Bool → α → Prop
  consuming : Q → σ → α → Prop
  producing : Q → P → σ → Bool → α → Prop
  consumer_lock : ∀ q σ a, cc.instr q = .lock → reach a → free q σ false a → consuming (cc.next q) σ a
  consumer_run : ∀ q c σ q' σ' a, cc.instr q = .inside → cc.run q c σ = some (q', σ') → reach a → consuming q σ a →
    ∃ a', Within astep a a' ∧ consuming q' σ' a'
  consumer_signal : ∀ q σ a, cc.instr q = .signal → consuming q σ a → consuming (cc.next q) σ a
  consumer_wait : ∀ q σ a, cc.instr q = .wait → consuming q σ a → free (cc.next q) σ true a
  consumer_unlock : ∀ q σ a, cc.instr q = .unlock → consuming q σ a → free (cc.next q) σ false a
  consumer_free : ∀ q c σ z q' σ' a, cc.instr q = .away → cc.run q c σ = some (q', σ') → reach a → free q σ z a →
    ∃ a', Within astep a a' ∧ free q' σ' z a'
  consumer_away : ∀ q p c σ z q' σ' a, cc.instr q = .away → cc.run q c σ = some (q', σ') → reach a →
    producing q p σ z a → ∃ a', Within astep a a' ∧ producing q' p σ' z a'
  producer_lock : ∀ q p σ z a, pc.instr p = .lock → free q σ z a → producing q (pc.next p) σ z a
  producer_run : ∀ q p d σ z p' σ' a, pc.instr p = .inside → pc.run p d σ = some (p', σ') → reach a →
    producing q p σ z a → ∃ a', Within astep a a' ∧ producing q p' σ' z a'
  producer_signal : ∀ q p σ z a, pc.instr p = .signal → producing q p σ z a → producing q (pc.next p) σ false a
  producer_unlock : ∀ q p σ z a, pc.instr p = .unlock → producing q p σ z a → free q σ z a
  producer_away : ∀ p d σ p' σ', pc.instr p = .away → pc.run p d σ = some (p', σ') → σ' = σ
  wake_free : ∀ q σ a, free q σ true a → free q σ false a
  wake_producing : ∀ q p σ a, producing q p σ true a → producing q p σ false a

namespace Outline

variable {cc : Code σ Q γ} {pc : Code σ P δ} {astep : α → β → Option α} {reach : α → Prop}

/-- Nobody but the owner is inside, and the outline holds of the point where the owner is. -/
def Matches (o : Outline cc pc astep reach) (s : State σ Q P τ) (a : α) : Prop :=
  match s.owner with
  | .nobody => (cc.instr s.consumer).held = false ∧ (∀ t, (pc.instr (s.producer t)).held = false) ∧
      o.free s.consumer s.shared s.asleep a
  | .consumer => (cc.instr s.consumer).held = true ∧ (∀ t, (pc.instr (s.producer t)).held = false) ∧
      s.asleep = false ∧ o.consuming s.consumer s.shared a
  | .producer t => (cc.instr s.consumer).held = false ∧ (∀ u, (pc.instr (s.producer u)).held = true ↔ u = t) ∧
      o.producing s.consumer (s.producer t) s.shared s.asleep a

variable {o : Outline cc pc astep reach} {s s' : State σ Q P τ} {a : α}

theorem Matches.owner_consumer (h : o.Matches s a) (hc : (cc.instr s.consumer).held = true) :
    s.owner = .consumer := by
  unfold Matches at h
  split at h
  · exact absurd hc (by rw [h.1]; simp)
  · rename_i howner
    exact howner
  · exact absurd hc (by rw [h.1]; simp)

theorem Matches.owner_producer (h : o.Matches s a) {t : τ} (hp : (pc.instr (s.producer t)).held = true) :
    s.owner = .producer t := by
  unfold Matches at h
  split at h
  · exact absurd hp (by rw [h.2.1 t]; simp)
  · exact absurd hp (by rw [h.2.1 t]; simp)
  · rename_i u howner
    rw [howner, (h.2.1 t).mp hp]

/-- The parts of `Matches` by owner. -/
theorem matches_of_nobody (howner : s.owner = .nobody) : o.Matches s a ↔ (cc.instr s.consumer).held = false ∧
    (∀ t, (pc.instr (s.producer t)).held = false) ∧ o.free s.consumer s.shared s.asleep a := by
  unfold Matches
  rw [howner]

theorem matches_of_consumer (howner : s.owner = .consumer) : o.Matches s a ↔ (cc.instr s.consumer).held = true ∧
    (∀ t, (pc.instr (s.producer t)).held = false) ∧ s.asleep = false ∧ o.consuming s.consumer s.shared a := by
  unfold Matches
  rw [howner]

theorem matches_of_producer {t : τ} (howner : s.owner = .producer t) : o.Matches s a ↔
    (cc.instr s.consumer).held = false ∧ (∀ u, (pc.instr (s.producer u)).held = true ↔ u = t) ∧
      o.producing s.consumer (s.producer t) s.shared s.asleep a := by
  unfold Matches
  rw [howner]

theorem at_nobody (howner : s.owner = .nobody) (hc : (cc.instr s.consumer).held = false)
    (hp : ∀ t, (pc.instr (s.producer t)).held = false) (hfree : o.free s.consumer s.shared s.asleep a) :
    o.Matches s a := (matches_of_nobody howner).mpr ⟨hc, hp, hfree⟩

theorem at_consumer (howner : s.owner = .consumer) (hc : (cc.instr s.consumer).held = true)
    (hp : ∀ t, (pc.instr (s.producer t)).held = false) (hawake : s.asleep = false)
    (hcons : o.consuming s.consumer s.shared a) : o.Matches s a :=
  (matches_of_consumer howner).mpr ⟨hc, hp, hawake, hcons⟩

theorem at_producer {t : τ} (howner : s.owner = .producer t) (hc : (cc.instr s.consumer).held = false)
    (hp : ∀ u, (pc.instr (s.producer u)).held = true ↔ u = t)
    (hproducing : o.producing s.consumer (s.producer t) s.shared s.asleep a) : o.Matches s a :=
  (matches_of_producer howner).mpr ⟨hc, hp, hproducing⟩

theorem Matches.consumer_step [DecidableEq τ] (hcc : cc.Guarded) (hreach : reach a) (h : o.Matches s a) {c : γ}
    (hstep : consumerStep cc s c = some s') : ∃ a', Within astep a a' ∧ o.Matches s' a' := by
  unfold consumerStep at hstep
  cases hinstr : cc.instr s.consumer with
  | away =>
      rw [hinstr] at hstep
      obtain ⟨⟨q', σ'⟩, hrun, rfl⟩ := Option.map_eq_some_iff.mp hstep
      have hheld : (cc.instr q').held = false := by rw [hcc.run _ _ _ _ _ hrun, hinstr]; rfl
      cases howner : s.owner with
      | nobody =>
          obtain ⟨-, hp, hfree⟩ := (matches_of_nobody howner).mp h
          obtain ⟨a', hwithin, hfree'⟩ := o.consumer_free _ _ _ _ _ _ _ hinstr hrun hreach hfree
          exact ⟨a', hwithin, at_nobody rfl hheld hp hfree'⟩
      | consumer =>
          obtain ⟨hc, -⟩ := (matches_of_consumer howner).mp h
          exact absurd hc (by rw [hinstr]; simp [Instr.held])
      | producer t =>
          obtain ⟨-, hp, hproducing⟩ := (matches_of_producer howner).mp h
          obtain ⟨a', hwithin, hproducing'⟩ := o.consumer_away _ _ _ _ _ _ _ _ hinstr hrun hreach hproducing
          exact ⟨a', hwithin, at_producer rfl hheld hp hproducing'⟩
  | lock =>
      rw [hinstr] at hstep
      obtain ⟨⟨howner, hawake⟩, heq⟩ := Option.ite_none_right_eq_some.mp hstep
      obtain rfl := Option.some.inj heq
      obtain ⟨-, hp, hfree⟩ := (matches_of_nobody howner).mp h
      rw [hawake] at hfree
      have hcons := o.consumer_lock _ _ _ hinstr hreach hfree
      exact ⟨a, .inl rfl, at_consumer rfl (hcc.lock _ hinstr) hp hawake hcons⟩
  | inside =>
      rw [hinstr] at hstep
      obtain ⟨⟨q', σ'⟩, hrun, rfl⟩ := Option.map_eq_some_iff.mp hstep
      have howner := h.owner_consumer (by rw [hinstr]; rfl)
      obtain ⟨-, hp, hawake, hcons⟩ := (matches_of_consumer howner).mp h
      obtain ⟨a', hwithin, hcons'⟩ := o.consumer_run _ _ _ _ _ _ hinstr hrun hreach hcons
      have hheld : (cc.instr q').held = true := by rw [hcc.run _ _ _ _ _ hrun, hinstr]; rfl
      exact ⟨a', hwithin, at_consumer howner hheld hp hawake hcons'⟩
  | signal =>
      rw [hinstr] at hstep
      obtain rfl := Option.some.inj hstep
      have howner := h.owner_consumer (by rw [hinstr]; rfl)
      obtain ⟨-, hp, -, hcons⟩ := (matches_of_consumer howner).mp h
      have hcons' := o.consumer_signal _ _ _ hinstr hcons
      exact ⟨a, .inl rfl, at_consumer howner (hcc.signal _ hinstr) hp rfl hcons'⟩
  | wait =>
      rw [hinstr] at hstep
      obtain rfl := Option.some.inj hstep
      have howner := h.owner_consumer (by rw [hinstr]; rfl)
      obtain ⟨-, hp, -, hcons⟩ := (matches_of_consumer howner).mp h
      have hfree := o.consumer_wait _ _ _ hinstr hcons
      exact ⟨a, .inl rfl, at_nobody rfl (hcc.wait _ hinstr) hp hfree⟩
  | unlock =>
      rw [hinstr] at hstep
      obtain rfl := Option.some.inj hstep
      have howner := h.owner_consumer (by rw [hinstr]; rfl)
      obtain ⟨-, hp, hawake, hcons⟩ := (matches_of_consumer howner).mp h
      have hfree := o.consumer_unlock _ _ _ hinstr hcons
      rw [← hawake] at hfree
      exact ⟨a, .inl rfl, at_nobody rfl (hcc.unlock _ hinstr) hp hfree⟩

theorem Matches.producer_step [DecidableEq τ] (hpc : pc.Guarded) (hreach : reach a) (h : o.Matches s a) {t : τ} {d : δ}
    (hstep : producerStep pc s t d = some s') : ∃ a', Within astep a a' ∧ o.Matches s' a' := by
  -- the points after an instruction that leads inside, and after one that leads outside
  have hinside : ∀ {p'}, s.owner = .producer t → (pc.instr p').held = true →
      ∀ u, (pc.instr (Function.update s.producer t p' u)).held = true ↔ u = t := by
    intro p' howner hp' u
    obtain ⟨-, hp, -⟩ := (matches_of_producer howner).mp h
    by_cases hu : u = t
    · subst hu
      simp [hp']
    · rw [Function.update_of_ne hu]
      exact hp u
  have houtside : ∀ {p'}, (∀ u, u ≠ t → (pc.instr (s.producer u)).held = false) → (pc.instr p').held = false →
      ∀ u, (pc.instr (Function.update s.producer t p' u)).held = false := by
    intro p' hothers hp' u
    by_cases hu : u = t
    · subst hu
      rw [Function.update_self]
      exact hp'
    · rw [Function.update_of_ne hu]
      exact hothers u hu
  unfold producerStep at hstep
  dsimp only at hstep
  cases hinstr : pc.instr (s.producer t) with
  | away =>
      rw [hinstr] at hstep
      obtain ⟨⟨p', σ'⟩, hrun, rfl⟩ := Option.map_eq_some_iff.mp hstep
      obtain rfl := o.producer_away _ _ _ _ _ hinstr hrun
      have hp' : (pc.instr p').held = false := by rw [hpc.run _ _ _ _ _ hrun, hinstr]; rfl
      refine ⟨a, .inl rfl, ?_⟩
      cases howner : s.owner with
      | nobody =>
          obtain ⟨hc, hp, hfree⟩ := (matches_of_nobody howner).mp h
          exact at_nobody rfl hc (houtside (fun u _ => hp u) hp') hfree
      | consumer =>
          obtain ⟨hc, hp, hawake, hcons⟩ := (matches_of_consumer howner).mp h
          exact at_consumer rfl hc (houtside (fun u _ => hp u) hp') hawake hcons
      | producer v =>
          obtain ⟨hc, hp, hproducing⟩ := (matches_of_producer howner).mp h
          have hvt : v ≠ t := by
            rintro rfl
            have hheld := (hp v).mpr rfl
            rw [hinstr] at hheld
            cases hheld
          refine at_producer rfl hc (fun u => ?_) ?_
          · by_cases hu : u = t
            · subst hu
              simp [hp', hvt.symm]
            · dsimp only
              rw [Function.update_of_ne hu]
              exact hp u
          · dsimp only
            rw [Function.update_of_ne hvt]
            exact hproducing
  | lock =>
      rw [hinstr] at hstep
      obtain ⟨howner, heq⟩ := Option.ite_none_right_eq_some.mp hstep
      obtain rfl := Option.some.inj heq
      obtain ⟨hc, hp, hfree⟩ := (matches_of_nobody howner).mp h
      refine ⟨a, .inl rfl, at_producer rfl hc (fun u => ?_) ?_⟩
      · by_cases hu : u = t
        · subst hu
          simp [hpc.lock _ hinstr]
        · dsimp only
          rw [Function.update_of_ne hu, hp u]
          simp [hu]
      · dsimp only
        rw [Function.update_self]
        exact o.producer_lock _ _ _ _ _ hinstr hfree
  | inside =>
      rw [hinstr] at hstep
      obtain ⟨⟨p', σ'⟩, hrun, rfl⟩ := Option.map_eq_some_iff.mp hstep
      have howner := h.owner_producer (by rw [hinstr]; rfl)
      obtain ⟨hc, -, hproducing⟩ := (matches_of_producer howner).mp h
      obtain ⟨a', hwithin, hproducing'⟩ := o.producer_run _ _ _ _ _ _ _ _ hinstr hrun hreach hproducing
      have hp' : (pc.instr p').held = true := by rw [hpc.run _ _ _ _ _ hrun, hinstr]; rfl
      refine ⟨a', hwithin, at_producer howner hc (hinside howner hp') ?_⟩
      dsimp only
      rw [Function.update_self]
      exact hproducing'
  | signal =>
      rw [hinstr] at hstep
      obtain rfl := Option.some.inj hstep
      have howner := h.owner_producer (by rw [hinstr]; rfl)
      obtain ⟨hc, -, hproducing⟩ := (matches_of_producer howner).mp h
      refine ⟨a, .inl rfl, at_producer howner hc (hinside howner (hpc.signal _ hinstr)) ?_⟩
      dsimp only
      rw [Function.update_self]
      exact o.producer_signal _ _ _ _ _ hinstr hproducing
  | wait =>
      rw [hinstr] at hstep
      cases hstep
  | unlock =>
      rw [hinstr] at hstep
      obtain rfl := Option.some.inj hstep
      have howner := h.owner_producer (by rw [hinstr]; rfl)
      obtain ⟨hc, hp, hproducing⟩ := (matches_of_producer howner).mp h
      refine ⟨a, .inl rfl, at_nobody rfl hc (houtside (fun u hu => ?_) (hpc.unlock _ hinstr)) ?_⟩
      · exact Bool.eq_false_iff.mpr fun hheld => hu ((hp u).mp hheld)
      · exact o.producer_unlock _ _ _ _ _ hinstr hproducing

theorem Matches.step [DecidableEq τ] (hcc : cc.Guarded) (hpc : pc.Guarded) (hreach : reach a) (h : o.Matches s a)
    {l : Label τ γ δ} (hstep : Monitor.step cc pc s l = some s') : ∃ a', Within astep a a' ∧ o.Matches s' a' := by
  cases l with
  | consumer c => exact h.consumer_step hcc hreach hstep
  | producer t d => exact h.producer_step hpc hreach hstep
  | wake =>
      obtain ⟨hasleep, heq⟩ := Option.ite_none_right_eq_some.mp hstep
      obtain rfl := Option.some.inj heq
      refine ⟨a, .inl rfl, ?_⟩
      cases howner : s.owner with
      | nobody =>
          obtain ⟨hc, hp, hfree⟩ := (matches_of_nobody howner).mp h
          rw [hasleep] at hfree
          exact at_nobody rfl hc hp (o.wake_free _ _ _ hfree)
      | consumer =>
          obtain ⟨-, -, hawake, -⟩ := (matches_of_consumer howner).mp h
          exact absurd (hasleep.symm.trans hawake) (by simp)
      | producer t =>
          obtain ⟨hc, hp, hproducing⟩ := (matches_of_producer howner).mp h
          rw [hasleep] at hproducing
          exact at_producer rfl hc hp (o.wake_producing _ _ _ _ hproducing)

/-- The rule for outlines: a run of single instructions is matched by a run of the atomic system. -/
theorem sound [DecidableEq τ] (o : Outline cc pc astep reach) (hcc : cc.Guarded) (hpc : pc.Guarded)
    {s₀ : State σ Q P τ} {a₀ : α}
    {ok : State σ Q P τ → Label τ γ δ → Prop} (hstart : o.Matches s₀ a₀)
    (hreach : ∀ a, Lts.Run astep (fun _ _ => True) a₀ a → reach a) (hrun : Lts.Run (Monitor.step cc pc) ok s₀ s) :
    ∃ a, Lts.Run astep (fun _ _ => True) a₀ a ∧ o.Matches s a := by
  refine hrun.invariant (P := fun s => ∃ a, Lts.Run astep (fun _ _ => True) a₀ a ∧ o.Matches s a)
    ⟨a₀, .refl, hstart⟩ ?_
  rintro s l s' - ⟨a, harun, hmatches⟩ - hstep
  obtain ⟨a', hwithin, hmatches'⟩ := hmatches.step hcc hpc (hreach a harun) hstep
  rcases hwithin with rfl | ⟨b, hb⟩
  · exact ⟨a', harun, hmatches'⟩
  · exact ⟨a', harun.tail trivial hb, hmatches'⟩

/-- Mutual exclusion. -/
theorem Matches.alone (h : o.Matches s a) : (∀ t u, (pc.instr (s.producer t)).held = true →
    (pc.instr (s.producer u)).held = true → t = u) ∧
      ((cc.instr s.consumer).held = true → ∀ t, (pc.instr (s.producer t)).held = false) := by
  refine ⟨fun t u ht hu => ?_, fun hc t => ?_⟩
  · have howner := (h.owner_producer ht).symm.trans (h.owner_producer hu)
    exact Owner.producer.inj howner
  · exact ((matches_of_consumer (h.owner_consumer hc)).mp h).2.1 t

end Outline

end Monitor
