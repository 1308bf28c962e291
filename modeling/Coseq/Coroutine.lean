import Mathlib.Logic.Basic

/-! Coroutines and what is proved of one of them. The code of a coroutine makes calls and goes on with their answers;
its loops are jumps to labelled blocks. A contract gives every call a precondition and a postcondition over a ghost
state. The code of one coroutine is checked against the contract alone, block by block, and what is checked holds of
the coroutine wherever it stands while others run. -/

namespace Coroutine

/-- `check` is an assertion. -/
inductive Code (Call Answer Label : Type*) where
  | ret
  | call (c : Call) (k : Answer → Code Call Answer Label)
  | check (b : Bool) (k : Code Call Answer Label)
  | goto (l : Label)

/-- A coroutine runs, or is in a call. -/
inductive State (Call Answer Label : Type*) where
  | ready (code : Code Call Answer Label)
  | within (c : Call) (k : Answer → Code Call Answer Label)

variable {Call Answer Label Γ : Type*}

namespace Code

/-- The code after the assertions that hold. -/
def advance : Code Call Answer Label → Code Call Answer Label
  | .check true k => k.advance
  | code => code

variable (blocks : Label → Code Call Answer Label)

/-- The code from its next call on. A block does not begin with a jump. -/
def head (code : Code Call Answer Label) : Code Call Answer Label :=
  match code.advance with
  | .goto l => (blocks l).advance
  | code => code

/-- The next thing the code does is to fail an assertion. -/
def Fails (code : Code Call Answer Label) : Prop := ∃ k, code.head blocks = .check false k

end Code

namespace State

variable (blocks : Label → Code Call Answer Label)

/-- The call that comes next; `some none` is the return. -/
def next : State Call Answer Label → Option (Option Call)
  | .ready code =>
      match code.head blocks with
      | .ret => some none
      | .call c _ => some (some c)
      | _ => none
  | .within _ _ => none

def enter : State Call Answer Label → State Call Answer Label
  | .ready code =>
      match code.head blocks with
      | .call c k => .within c k
      | code => .ready code
  | st => st

/-- The call returns. -/
def answer (a : Answer) : State Call Answer Label → State Call Answer Label
  | .within _ k => .ready (k a)
  | st => st

def Fails : State Call Answer Label → Prop
  | .ready code => code.Fails blocks
  | .within _ _ => False

end State

/-! ### Contracts -/

/-- What a call demands of the ghost state, what it promises of its answer and of the ghost state after it, and what
is demanded on return. -/
structure Contract (Call Answer Γ : Type*) where
  pre : Γ → Call → Prop
  post : Γ → Call → Answer → Γ → Prop
  done : Γ → Prop

section Contract

variable (K : Contract Call Answer Γ) (inv : Label → Γ → Prop)

/-- The code meets the contract from the ghost state on. `inv` is what holds where a block begins. -/
def Code.Safe : Code Call Answer Label → Γ → Prop
  | .ret, g => K.done g
  | .call c k, g => K.pre g c ∧ ∀ a g', K.post g c a g' → (k a).Safe g'
  | .check b k, g => b = true ∧ k.Safe g
  | .goto l, g => inv l g

/-- The coroutine meets the contract wherever it stands. -/
def State.Safe : State Call Answer Label → Γ → Prop
  | .ready code, g => code.Safe K inv g
  | .within c k, g => ∀ a g', K.post g c a g' → (k a).Safe K inv g'

/-- Each block meets the contract from what holds where it begins. -/
def BlocksSafe (blocks : Label → Code Call Answer Label) : Prop := ∀ l g, inv l g → (blocks l).Safe K inv g

end Contract

variable {K : Contract Call Answer Γ} {inv : Label → Γ → Prop} {blocks : Label → Code Call Answer Label} {g g' : Γ}

theorem Code.Safe.advance {code : Code Call Answer Label} (h : code.Safe K inv g) : code.advance.Safe K inv g := by
  induction code with
  | check b k ih =>
      obtain ⟨rfl, hk⟩ := h
      exact ih hk
  | ret => exact h
  | call c k _ => exact h
  | goto l => exact h

theorem Code.Safe.head {code : Code Call Answer Label} (hblocks : BlocksSafe K inv blocks) (h : code.Safe K inv g) :
    (code.head blocks).Safe K inv g := by
  have hadvance := h.advance
  unfold Code.head
  cases hcode : code.advance with
  | goto l =>
      rw [hcode] at hadvance
      exact (hblocks l g hadvance).advance
  | ret => rwa [hcode] at hadvance
  | call c k => rwa [hcode] at hadvance
  | check b k => rwa [hcode] at hadvance

namespace State.Safe

variable {st : State Call Answer Label} {c : Call} {a : Answer}

/-- No assertion fails. -/
theorem not_fails (hblocks : BlocksSafe K inv blocks) (h : st.Safe K inv g) : ¬st.Fails blocks := by
  intro hfails
  cases st with
  | within c k => exact hfails
  | ready code =>
      obtain ⟨k, hk⟩ := hfails
      have hhead : (code.head blocks).Safe K inv g := Code.Safe.head hblocks h
      rw [hk] at hhead
      exact Bool.false_ne_true hhead.1

/-- A call is made where the contract allows it, and the coroutine meets the contract inside the call. -/
theorem calls (hblocks : BlocksSafe K inv blocks) (h : st.Safe K inv g) (hnext : st.next blocks = some (some c)) :
    K.pre g c ∧ ∃ k, st.enter blocks = .within c k ∧ (State.within c k).Safe K inv g := by
  cases st with
  | within c k => cases hnext
  | ready code =>
      have hhead : (code.head blocks).Safe K inv g := Code.Safe.head hblocks h
      unfold State.next at hnext
      unfold State.enter
      dsimp only at hnext ⊢
      cases hcode : code.head blocks with
      | call c' k =>
          rw [hcode] at hnext hhead
          obtain rfl := Option.some.inj (Option.some.inj hnext)
          exact ⟨hhead.1, k, rfl, hhead.2⟩
      | ret =>
          rw [hcode] at hnext
          cases Option.some.inj hnext
      | check b k =>
          rw [hcode] at hnext
          cases hnext
      | goto l =>
          rw [hcode] at hnext
          cases hnext

theorem returns (hblocks : BlocksSafe K inv blocks) (h : st.Safe K inv g) (hnext : st.next blocks = some none) :
    K.done g := by
  cases st with
  | within c k => cases hnext
  | ready code =>
      have hhead : (code.head blocks).Safe K inv g := Code.Safe.head hblocks h
      unfold State.next at hnext
      dsimp only at hnext
      cases hcode : code.head blocks with
      | ret =>
          rw [hcode] at hhead
          exact hhead
      | call c k =>
          rw [hcode] at hnext
          cases Option.some.inj hnext
      | check b k =>
          rw [hcode] at hnext
          cases hnext
      | goto l =>
          rw [hcode] at hnext
          cases hnext

/-- The coroutine meets the contract when the call returns as it promises. -/
theorem answered {k : Answer → Code Call Answer Label} (h : (State.within c k).Safe K inv g) (hpost : K.post g c a g') :
    ((State.within c k).answer a).Safe K inv g' := h a g' hpost

end State.Safe

end Coroutine
