import Mathlib.Data.Set.Finite.Basic
import Mathlib.Logic.Relation
import Mathlib.Order.WellFounded

/-! Who waits for whom. A set each of whose members waits for a member of it contains a cycle of waits when it
is finite, and is empty when every wait leads down in a well-founded order. -/

namespace WaitGraph

variable {α : Type*}

/-- Every member waits for another member. -/
def Stuck (W : α → α → Prop) (S : Set α) : Prop := ∀ x ∈ S, ∃ y ∈ S, W x y

/-- The waits inside a set. -/
def Inside (W : α → α → Prop) (S : Set α) (x y : α) : Prop := x ∈ S ∧ y ∈ S ∧ W x y

/-- A member waits, over other members, for itself. -/
def Cycle (W : α → α → Prop) (S : Set α) : Prop := ∃ x ∈ S, Relation.TransGen (Inside W S) x x

variable {W : α → α → Prop} {S : Set α}

/-- From every member a wait leads down in the order: then there is none. -/
theorem Stuck.eq_empty {r : α → α → Prop} (h : Stuck W S) (hwf : WellFounded r)
    (hdown : ∀ x ∈ S, ∀ y ∈ S, W x y → r y x) : S = ∅ := by
  refine Set.eq_empty_of_forall_notMem fun x => ?_
  induction x using hwf.induction with
  | h x ih =>
      intro hx
      obtain ⟨y, hy, hxy⟩ := h x hx
      exact ih y (hdown x hx y hy hxy) hy

/-- A rank that falls along every wait. -/
theorem Stuck.eq_empty_of_rank (h : Stuck W S) (rank : α → Nat)
    (hdown : ∀ x ∈ S, ∀ y ∈ S, W x y → rank y < rank x) : S = ∅ :=
  h.eq_empty (InvImage.wf rank Nat.lt_wfRel.wf) hdown

/-- Finitely many that all wait for each other wait in a circle. -/
theorem Stuck.cycle (h : Stuck W S) (hfin : S.Finite) (hne : S.Nonempty) : Cycle W S := by
  by_contra hno
  have : Finite S := hfin
  have htrans : IsTrans S fun y x => Relation.TransGen (Inside W S) x y :=
    ⟨fun _ _ _ hxy hyz => hyz.trans hxy⟩
  have hirrefl : Std.Irrefl fun (y x : S) => Relation.TransGen (Inside W S) (x : α) y :=
    ⟨fun x hx => hno ⟨x, x.2, hx⟩⟩
  have hwf : WellFounded fun (y x : S) => Relation.TransGen (Inside W S) (x : α) y :=
    Finite.wellFounded_of_trans_of_irrefl _
  have hstuck : Stuck (fun x y : S => Inside W S x y) Set.univ := by
    intro x _
    obtain ⟨y, hy, hxy⟩ := h x x.2
    exact ⟨⟨y, hy⟩, trivial, x.2, hy, hxy⟩
  have hempty := hstuck.eq_empty hwf fun x _ y _ hxy => Relation.TransGen.single hxy
  obtain ⟨x, hx⟩ := hne
  exact Set.eq_empty_iff_forall_notMem.mp hempty ⟨x, hx⟩ trivial

end WaitGraph
