import Mathlib.Algebra.BigOperators.Group.List.Basic
import Mathlib.Algebra.Group.Pi.Basic
import Mathlib.Data.List.Count
import Mathlib.Data.Nat.Basic
import Mathlib.Logic.Function.Basic
import Mathlib.Tactic.Abel

/-! What a program does to the heap, and triples about it. A heap says how many allocated blocks of each name the
program holds and how many it has lost: a block whose last pointer is given up stays allocated and can never be freed.
To free a block that is not held is misuse. A triple says what a stretch of code makes of its own blocks whatever else
is held or lost, so triples compose and ignore their frame. -/

namespace HeapLog

/-- One operation: a block is allocated, freed, or lost with the last pointer to it. -/
inductive Op (β : Type*) where
  | alloc (b : β)
  | free (b : β)
  | drop (b : β)
  deriving DecidableEq

variable {β : Type*} [DecidableEq β]

/-- One block. -/
def one (b : β) : β → Nat := Pi.single b 1

/-- The allocated blocks: those that something still points to, and those that nothing does. -/
structure Heap (β : Type*) where
  held : β → Nat
  lost : β → Nat

/-- The heap of a program that has allocated nothing. -/
def Heap.empty : Heap β := ⟨0, 0⟩

/-- What is allocated and has not been freed. -/
def Heap.allocated (h : Heap β) : β → Nat := h.held + h.lost

def Op.step (h : Heap β) : Op β → Option (Heap β)
  | .alloc b => some { h with held := h.held + one b }
  | .free b => if 0 < h.held b then some { h with held := h.held - one b } else none
  | .drop b => if 0 < h.held b then some ⟨h.held - one b, h.lost + one b⟩ else none

def run (h : Heap β) : List (Op β) → Option (Heap β)
  | [] => some h
  | op :: ops => (op.step h).bind fun h' => run h' ops

/-- The blocks that the operations lose. -/
def lost (ops : List (Op β)) : β → Nat := fun b => ops.count (.drop b)

/-- With the blocks `pre`, and whatever else, the operations leave the blocks `post` and the rest, and what they lose
comes on top of what has been lost before. -/
def Triple (pre : β → Nat) (ops : List (Op β)) (post : β → Nat) : Prop :=
  ∀ rest gone, run ⟨rest + pre, gone⟩ ops = some ⟨rest + post, gone + lost ops⟩

variable {pre post mid : β → Nat} {h h' h'' : Heap β} {ops ops' : List (Op β)} {b : β}

@[simp] theorem one_self : one b b = 1 := Pi.single_eq_same b 1

theorem one_of_ne {c : β} (hne : c ≠ b) : one b c = 0 := Pi.single_eq_of_ne hne 1

theorem one_apply (b c : β) : one b c = if b = c then 1 else 0 := by
  by_cases hbc : b = c
  · subst hbc
    rw [one_self, if_pos rfl]
  · rw [one_of_ne fun heq => hbc heq.symm, if_neg hbc]

/-- A block of which there is one is a part of what there is. -/
theorem one_le {f : β → Nat} (hpos : 0 < f b) (c : β) : one b c ≤ f c := by
  rw [one_apply]
  split
  · rename_i hbc
    exact hbc ▸ hpos
  · exact Nat.zero_le _

@[simp] theorem lost_nil : lost ([] : List (Op β)) = 0 := funext fun _ => List.count_nil

theorem lost_append : lost (ops ++ ops') = lost ops + lost ops' := funext fun _ => List.count_append

@[simp] theorem lost_alloc : lost [Op.alloc b] = 0 := funext fun _ => List.count_eq_zero.mpr (by simp)

@[simp] theorem lost_free : lost [Op.free b] = 0 := funext fun _ => List.count_eq_zero.mpr (by simp)

@[simp] theorem lost_drop : lost [Op.drop b] = one b := by
  funext c
  by_cases hc : c = b
  · subst hc
    rw [one_self, lost, List.count_singleton_self]
  · rw [one_of_ne hc, lost, List.count_eq_zero]
    simpa using hc

theorem run_append : run h (ops ++ ops') = (run h ops).bind fun h' => run h' ops' := by
  induction ops generalizing h with
  | nil => rfl
  | cons op ops ih =>
      rw [List.cons_append, run, run, Option.bind_assoc]
      congr 1
      funext h'
      exact ih

theorem run_trans (h₁ : run h ops = some h') (h₂ : run h' ops' = some h'') : run h (ops ++ ops') = some h'' := by
  rw [run_append, h₁]
  exact h₂

namespace Triple

theorem nil : Triple pre [] pre := by
  intro rest gone
  rw [lost_nil, add_zero]
  rfl

theorem append (h₁ : Triple pre ops mid) (h₂ : Triple mid ops' post) : Triple pre (ops ++ ops') post := by
  intro rest gone
  rw [lost_append, ← add_assoc]
  exact run_trans (h₁ rest gone) (h₂ rest (gone + lost ops))

/-- The frame rule. -/
theorem frame (h : Triple pre ops post) (more : β → Nat) : Triple (more + pre) ops (more + post) := by
  intro rest gone
  rw [← add_assoc, ← add_assoc]
  exact h (rest + more) gone

theorem frame_right (h : Triple pre ops post) (more : β → Nat) : Triple (pre + more) ops (post + more) := by
  rw [add_comm pre, add_comm post]
  exact h.frame more

/-- Operations that make something of nothing come on top of what is there. -/
theorem gains (h : Triple 0 ops post) (pre : β → Nat) : Triple pre ops (pre + post) := by
  have hframe := h.frame pre
  rwa [add_zero] at hframe

/-- Operations that give something back leave the rest. -/
theorem gives (h : Triple pre ops 0) : Triple (post + pre) ops post := by
  have hframe := h.frame post
  rwa [add_zero] at hframe

/-- Two stretches that each give their own back. -/
theorem gives_both {pre' : β → Nat} (h : Triple pre ops 0) (h' : Triple pre' ops' 0) :
    Triple (pre + pre') (ops ++ ops') 0 := (h.frame_right pre').append h'.gives

theorem alloc : Triple 0 [.alloc b] (one b) := by
  intro rest gone
  rw [lost_alloc, add_zero, add_zero]
  rfl

/-- A block that is held can be taken out. -/
theorem take_one (rest : β → Nat) (b : β) : 0 < (rest + one b) b ∧ rest + one b - one b = rest := by
  refine ⟨?_, ?_⟩
  · rw [Pi.add_apply, one_self]
    exact Nat.succ_pos _
  · funext c
    exact Nat.add_sub_cancel (rest c) (one b c)

theorem free : Triple (one b) [.free b] 0 := by
  intro rest gone
  obtain ⟨hpos, htake⟩ := take_one rest b
  rw [run, Op.step, if_pos hpos, htake, lost_free, add_zero, add_zero]
  rfl

theorem drop : Triple (one b) [.drop b] 0 := by
  intro rest gone
  obtain ⟨hpos, htake⟩ := take_one rest b
  rw [run, Op.step, if_pos hpos, htake, lost_drop, add_zero]
  rfl

/-- What operations make of an empty heap. -/
theorem from_empty (h : Triple 0 ops post) : run .empty ops = some ⟨post, lost ops⟩ := by
  have hrun := h 0 0
  rwa [add_zero, zero_add, zero_add] at hrun

/-- A loop over a list: each turn does its part. -/
theorem flatMap {α : Type*} {l : List α} {f g : α → β → Nat} {turn : α → List (Op β)}
    (h : ∀ x ∈ l, Triple (f x) (turn x) (g x)) : Triple (l.map f).sum (l.flatMap turn) (l.map g).sum := by
  induction l with
  | nil => exact nil
  | cons x l ih =>
      rw [List.map_cons, List.sum_cons, List.map_cons, List.sum_cons, List.flatMap_cons]
      have hhead : Triple (f x) (turn x) (g x) := h x List.mem_cons_self
      have htail := ih fun y hy => h y (List.mem_cons_of_mem x hy)
      exact (hhead.frame_right _).append (htail.frame _)

/-- A loop that gives everything of a list back. -/
theorem flatMap_nothing {α : Type*} {l : List α} {f : α → β → Nat} {turn : α → List (Op β)}
    (h : ∀ x ∈ l, Triple (f x) (turn x) 0) : Triple (l.map f).sum (l.flatMap turn) 0 := by
  have hall := flatMap (g := fun _ => 0) h
  have hzero : (l.map fun _ => (0 : β → Nat)).sum = 0 := List.sum_eq_zero fun x hx => by
    obtain ⟨-, -, rfl⟩ := List.mem_map.mp hx
    rfl
  rwa [hzero] at hall

/-- The first element that `p` holds of is taken out of a list, with what it owns. -/
theorem eraseP {α : Type*} {own : α → β → Nat} {turn : α → List (Op β)} {p : α → Bool}
    (h : ∀ x, Triple (own x) (turn x) 0) (l : List α) :
    Triple (l.map own).sum ((l.find? p).elim [] turn) ((l.eraseP p).map own).sum := by
  induction l with
  | nil => exact nil
  | cons x l ih =>
      rw [List.map_cons, List.sum_cons]
      by_cases hx : p x = true
      · rw [List.find?_cons_of_pos hx, List.eraseP_cons_of_pos hx, add_comm]
        exact (h x).gives
      · rw [List.find?_cons_of_neg hx, List.eraseP_cons_of_neg hx, List.map_cons, List.sum_cons]
        exact ih.frame _

omit [DecidableEq β] in
/-- Among several owners, what one owns comes on top of what the others do. -/
theorem owners {ι α : Type*} [DecidableEq ι] {l : List ι} (own : ι → α → β → Nat) (f : ι → α) {i : ι}
    (hnodup : l.Nodup) (hi : i ∈ l) :
    ∃ others, ∀ x, (l.map fun j => own j (Function.update f i x j)).sum = others + own i x := by
  refine ⟨((l.erase i).map fun j => own j (f j)).sum, fun x => ?_⟩
  have hothers : ((l.erase i).map fun j => own j (Function.update f i x j)).sum =
      ((l.erase i).map fun j => own j (f j)).sum := by
    congr 1
    refine List.map_congr_left fun j hj => ?_
    rw [Function.update_of_ne (hnodup.mem_erase_iff.mp hj).1]
  rw [← List.sum_map_erase (fun j => own j (Function.update f i x j)) hi, hothers, Function.update_self, add_comm]

/-- One of several owners does its part, and the others keep theirs. -/
theorem update {ι α : Type*} [DecidableEq ι] {l : List ι} (own : ι → α → β → Nat) {f : ι → α} {i : ι} {x : α}
    {extra : β → Nat} (h : Triple (own i (f i)) ops (own i x + extra)) (hnodup : l.Nodup) (hi : i ∈ l) :
    Triple (l.map fun j => own j (f j)).sum ops ((l.map fun j => own j (Function.update f i x j)).sum + extra) := by
  obtain ⟨others, hsum⟩ := owners own f hnodup hi
  have hself := hsum (f i)
  rw [Function.update_eq_self] at hself
  rw [hself, hsum x, add_assoc]
  exact h.frame others

end Triple

/-- Operations that lose nothing. -/
def Keeps (ops : List (Op β)) : Prop := ∀ b, Op.drop b ∉ ops

section Keeps

omit [DecidableEq β]

@[simp] theorem keeps_nil : Keeps ([] : List (Op β)) := fun _ => List.not_mem_nil

@[simp] theorem keeps_append : Keeps (ops ++ ops') ↔ Keeps ops ∧ Keeps ops' := by
  refine ⟨fun h => ⟨fun b hb => h b (List.mem_append_left _ hb), fun b hb => h b (List.mem_append_right _ hb)⟩, ?_⟩
  rintro ⟨h, h'⟩ b hb
  exact (List.mem_append.mp hb).elim (h b) (h' b)

@[simp] theorem keeps_alloc : Keeps (.alloc b :: ops) ↔ Keeps ops := by simp [Keeps]

@[simp] theorem keeps_free : Keeps (.free b :: ops) ↔ Keeps ops := by simp [Keeps]

theorem keeps_flatMap {α : Type*} {l : List α} {turn : α → List (Op β)} (h : ∀ x ∈ l, Keeps (turn x)) :
    Keeps (l.flatMap turn) := by
  intro b hb
  obtain ⟨x, hx, hturn⟩ := List.mem_flatMap.mp hb
  exact h x hx b hturn

theorem Keeps.lost [DecidableEq β] (h : Keeps ops) : lost ops = 0 := funext fun b => List.count_eq_zero.mpr (h b)

end Keeps

/-- An operation changes what is allocated by what it allocates and frees. -/
theorem step_count {op : Op β} (hstep : op.step h = some h') (b : β) :
    h.allocated b + [op].count (.alloc b) = [op].count (.free b) + h'.allocated b := by
  cases op with
  | alloc c =>
      obtain rfl := Option.some.inj hstep
      have hone := one_apply c b
      simp only [Heap.allocated, Pi.add_apply, List.count_singleton, beq_iff_eq, Op.alloc.injEq, reduceCtorEq, if_false]
      omega
  | free c =>
      obtain ⟨hpos, heq⟩ := Option.ite_none_right_eq_some.mp hstep
      obtain rfl := Option.some.inj heq
      have hone := one_apply c b
      have hle := one_le hpos b
      simp only [Heap.allocated, Pi.add_apply, Pi.sub_apply, List.count_singleton, beq_iff_eq, Op.free.injEq,
        reduceCtorEq, if_false]
      omega
  | drop c =>
      obtain ⟨hpos, heq⟩ := Option.ite_none_right_eq_some.mp hstep
      obtain rfl := Option.some.inj heq
      have hle := one_le hpos b
      simp only [Heap.allocated, Pi.add_apply, Pi.sub_apply, List.count_singleton, beq_iff_eq, reduceCtorEq, if_false]
      omega

/-- What has been allocated has been freed or is still allocated. -/
theorem run_count (hrun : run h ops = some h') (b : β) :
    h.allocated b + ops.count (.alloc b) = ops.count (.free b) + h'.allocated b := by
  induction ops generalizing h with
  | nil =>
      obtain rfl : h = h' := Option.some.inj hrun
      simp
  | cons op ops ih =>
      obtain ⟨h₁, hstep, hrest⟩ := Option.bind_eq_some_iff.mp hrun
      have hfirst := step_count hstep b
      have hothers := ih hrest
      rw [← List.singleton_append, List.count_append, List.count_append]
      omega

/-- Operations that lose nothing and leave nothing free each block as often as they allocate it. -/
theorem Keeps.balanced (hkeeps : Keeps ops) (htriple : Triple 0 ops post) (hnone : post b = 0) :
    ops.count (.alloc b) = ops.count (.free b) := by
  have hcount := run_count htriple.from_empty b
  have hstart : (Heap.empty : Heap β).allocated b = 0 := rfl
  have hend : Heap.allocated ⟨post, HeapLog.lost ops⟩ b = 0 := by
    rw [Heap.allocated, hkeeps.lost, add_zero]
    exact hnone
  rw [hstart, hend] at hcount
  omega

end HeapLog
