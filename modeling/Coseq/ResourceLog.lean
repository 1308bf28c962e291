import Mathlib.Data.List.Count
import Mathlib.Data.List.Range
import Mathlib.Logic.Function.Basic

/-! Logs of what a program does to the resources it acquires: a monitor of their proper use, and the count of
what is acquired and released. -/

namespace ResourceLog

inductive Op (ρ : Type*) where
  | acquire (r : ρ)
  | use (r : ρ)
  | release (r : ρ)
  deriving DecidableEq

variable {ρ : Type*} [DecidableEq ρ]

/-- What is held after one operation. It is misused when a held resource is acquired, or one that is not held is
used or released. -/
def Op.step (held : ρ → Bool) : Op ρ → Option (ρ → Bool)
  | .acquire r => if held r then none else some (Function.update held r true)
  | .use r => if held r then some held else none
  | .release r => if held r then some (Function.update held r false) else none

def run (held : ρ → Bool) : List (Op ρ) → Option (ρ → Bool)
  | [] => some held
  | op :: ops => (op.step held).bind fun h => run h ops

/-- Nothing is held. -/
def nothing : ρ → Bool := fun _ => false

/-- Everything that is acquired is released, and no resource is acquired or released twice. Each is acquired before it
is used or released, and not used any more once it has been released. -/
structure Undone (ops : List (Op ρ)) : Prop where
  ordered : run nothing ops = some nothing
  once : ∀ r, ops.count (.acquire r) ≤ 1
  released : ∀ r, ops.count (.release r) = ops.count (.acquire r)

variable {held held₁ held₂ : ρ → Bool} {ops ops' : List (Op ρ)} {r : ρ}

theorem run_append : run held (ops ++ ops') = (run held ops).bind fun h => run h ops' := by
  induction ops generalizing held with
  | nil => rfl
  | cons op ops ih =>
      rw [List.cons_append, run, run, Option.bind_assoc]
      congr 1
      funext h
      exact ih

/-- Two logs, one after the other. -/
theorem run_trans (h : run held ops = some held₁) (h' : run held₁ ops' = some held₂) :
    run held (ops ++ ops') = some held₂ := by
  rw [run_append, h]
  exact h'

theorem run_undo (h : held r = false) : run held [.acquire r, .release r] = some held := by
  have hback : Function.update (Function.update held r true) r false = held := by
    rw [Function.update_idem, ← h, Function.update_eq_self]
  simp [run, Op.step, h, hback]

/-- A loop whose turns take the resources from one state of a sequence to the next. -/
theorem run_loop {n : Nat} {turn : Nat → List (Op ρ)} {S : Nat → ρ → Bool}
    (h : ∀ i < n, run (S i) (turn i) = some (S (i + 1))) :
    run (S 0) ((List.range n).flatMap turn) = some (S n) := by
  induction n with
  | zero => rfl
  | succ n ih =>
      rw [List.range_succ, List.flatMap_append, List.flatMap_singleton]
      exact run_trans (ih fun i hi => h i (by omega)) (h n (by omega))

/-- What is acquired and not held at the end has been released. -/
theorem run_count (h : run held ops = some held₁) (r : ρ) :
    (held r).toNat + ops.count (.acquire r) = ops.count (.release r) + (held₁ r).toNat := by
  induction ops generalizing held with
  | nil =>
      obtain rfl : held = held₁ := Option.some.inj h
      simp
  | cons op ops ih =>
      obtain ⟨held₀, hstep, hrun⟩ := Option.bind_eq_some_iff.mp h
      have hrest := ih hrun
      rw [List.count_cons, List.count_cons]
      cases op with
      | acquire s =>
          obtain ⟨hs, rfl⟩ : held s = false ∧ Function.update held s true = held₀ := by
            simpa [Op.step] using hstep
          by_cases hrs : r = s
          · subst hrs
            rw [Function.update_self] at hrest
            simp [hs] at hrest ⊢
            omega
          · rw [Function.update_of_ne hrs] at hrest
            simp [Ne.symm hrs, hrest]
      | use s =>
          obtain ⟨-, rfl⟩ : held s = true ∧ held = held₀ := by simpa [Op.step] using hstep
          simpa using hrest
      | release s =>
          obtain ⟨hs, rfl⟩ : held s = true ∧ Function.update held s false = held₀ := by
            simpa [Op.step] using hstep
          by_cases hrs : r = s
          · subst hrs
            rw [Function.update_self] at hrest
            simp [hs] at hrest ⊢
            omega
          · rw [Function.update_of_ne hrs] at hrest
            simp [Ne.symm hrs, hrest]

end ResourceLog
