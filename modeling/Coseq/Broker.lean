import Mathlib.Data.List.Basic

/-! What a history of registrations and publications owes each listener. An entry is active from its
registration until its id is given up; a publication owes one delivery for each active entry of its category,
with the id of that entry. -/

namespace Broker

universe u v w x

variable {κ : Type u} {ι : Type v} {l : Type w} {μ : Type x}

structure Entry (κ : Type u) (ι : Type v) (l : Type w) where
  category : κ
  listener : l
  id : ι
  deriving DecidableEq

inductive Op (κ : Type u) (ι : Type v) (l : Type w) (μ : Type x) where
  | register (e : Entry κ ι l)
  | unregister (c : κ) (i : ι)
  | publish (c : κ) (msg : μ)
  deriving DecidableEq

/-- What one listener gets. -/
structure Delivery (κ : Type u) (ι : Type v) (μ : Type x) where
  category : κ
  id : ι
  msg : μ
  deriving DecidableEq

variable [DecidableEq κ] [DecidableEq ι] [DecidableEq l]

/-- The active entries after one operation. -/
def Op.apply (es : List (Entry κ ι l)) : Op κ ι l μ → List (Entry κ ι l)
  | .register e => e :: es
  | .unregister c i => es.filter fun e => !(e.category == c && e.id == i)
  | .publish _ _ => es

/-- The entries made and not given up, the latest first. -/
def active (ops : List (Op κ ι l μ)) : List (Entry κ ι l) := ops.foldl Op.apply []

/-- What a publication owes the listener `p`, one delivery for each entry. -/
def deliveries (es : List (Entry κ ι l)) (c : κ) (msg : μ) (p : l) : List (Delivery κ ι μ) :=
  (es.filter fun e => e.category == c && e.listener == p).map fun e => ⟨c, e.id, msg⟩

def Op.owes (es : List (Entry κ ι l)) (p : l) : Op κ ι l μ → List (Delivery κ ι μ)
  | .publish c msg => deliveries es c msg p
  | _ => []

/-- What the publications of a history owe the listener `p`, in their order. -/
def dueFrom (p : l) : List (Entry κ ι l) → List (Op κ ι l μ) → List (Delivery κ ι μ)
  | _, [] => []
  | es, op :: ops => op.owes es p ++ dueFrom p (op.apply es) ops

def due (p : l) (ops : List (Op κ ι l μ)) : List (Delivery κ ι μ) := dueFrom p [] ops

variable {es : List (Entry κ ι l)} {e : Entry κ ι l} {ops ops' : List (Op κ ι l μ)} {op : Op κ ι l μ} {p : l}
  {c : κ} {i : ι} {msg : μ}

omit [DecidableEq l] in
theorem active_append : active (ops ++ ops') = ops'.foldl Op.apply (active ops) := List.foldl_append

omit [DecidableEq l] in
@[simp] theorem active_concat : active (ops ++ [op]) = op.apply (active ops) := active_append

theorem dueFrom_append : dueFrom p es (ops ++ ops') = dueFrom p es ops ++ dueFrom p (ops.foldl Op.apply es) ops' := by
  induction ops generalizing es with
  | nil => rfl
  | cons op ops ih =>
      rw [List.cons_append, dueFrom, dueFrom, ih, List.append_assoc]
      rfl

/-- The last operation owes what it owes with the entries active before it. -/
@[simp] theorem due_concat : due p (ops ++ [op]) = due p ops ++ op.owes (active ops) p := by
  rw [due, dueFrom_append, dueFrom, dueFrom, List.append_nil]
  rfl

omit [DecidableEq ι] in
theorem deliveries_cons : deliveries (e :: es) c msg p =
    (if e.category = c ∧ e.listener = p then [⟨c, e.id, msg⟩] else []) ++ deliveries es c msg p := by
  unfold deliveries
  by_cases h : e.category = c ∧ e.listener = p
  · rw [if_pos h, List.filter_cons_of_pos (by simp [h.1, h.2])]
    rfl
  · rw [if_neg h, List.filter_cons_of_neg (by simpa using h)]
    rfl

end Broker
