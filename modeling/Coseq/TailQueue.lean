import Mathlib.Data.List.Nodup
import Mathlib.Logic.Function.Basic

/-! Singly linked queues with a head and a tail pointer, in a heap of nodes. A chain is the list of the
addresses that the `next` pointers lead through. Appending a node and splicing one queue in front of
another each write one `next` pointer, and are a list append on the chains. -/

namespace TailQueue

universe u

variable {α : Type u}

abbrev Addr := Nat

structure Node (α : Type u) where
  val : α
  next : Option Addr

/-- The allocated nodes. -/
abbrev Heap (α : Type u) := Addr → Option (Node α)

/-- The head and the tail pointer of a queue. -/
structure Ends where
  head : Option Addr
  tail : Option Addr
  deriving DecidableEq

def Ends.empty : Ends := ⟨none, none⟩

def Heap.setNext (h : Heap α) (a : Addr) (p : Option Addr) : Heap α :=
  Function.update h a ((h a).map fun n => { n with next := p })

def Heap.free (h : Heap α) (a : Addr) : Heap α := Function.update h a none

/-- The node `a` goes to the end of the queue. -/
def append (h : Heap α) (q : Ends) (a : Addr) : Heap α × Ends :=
  let h := h.setNext a none
  match q.tail with
  | some t => (h.setNext t (some a), ⟨q.head, some a⟩)
  | none => (h, ⟨some a, some a⟩)

/-- The nodes of the queue `d`, whose tail is `t`, go in front of those of `q`. -/
def splice (h : Heap α) (d q : Ends) (t : Addr) : Heap α × Ends :=
  (h.setNext t q.head, ⟨d.head, if q.tail = none then some t else q.tail⟩)

/-- The pointer leads through the nodes at the addresses `l`, the last of which ends the list. -/
inductive Chain (h : Heap α) : Option Addr → List Addr → Prop where
  | nil : Chain h none []
  | cons {a : Addr} {n : Node α} {l : List Addr} (hnode : h a = some n) (hrest : Chain h n.next l) :
      Chain h (some a) (a :: l)

/-- The queue is well formed and holds the nodes at the addresses `l`. -/
structure Denotes (h : Heap α) (q : Ends) (l : List Addr) : Prop where
  chain : Chain h q.head l
  tail : q.tail = l.getLast?

/-- The values of the nodes at the addresses `l`. -/
def vals (h : Heap α) (l : List Addr) : List α := l.filterMap fun a => (h a).map Node.val

/-! ### Chains -/

section Chain

variable {h h' : Heap α} {p q : Option Addr} {a t : Addr} {l l₁ l₂ : List Addr}

theorem Chain.unique (h₁ : Chain h p l₁) (h₂ : Chain h p l₂) : l₁ = l₂ := by
  induction h₁ generalizing l₂ with
  | nil =>
      cases h₂
      rfl
  | cons hnode _ ih =>
      cases h₂ with
      | cons hnode' hrest' =>
          obtain rfl := Option.some.inj (hnode.symm.trans hnode')
          rw [ih hrest']

/-- The rest of a chain is a chain. -/
theorem Chain.suffix (hc : Chain h p (l₁ ++ a :: l₂)) : Chain h (some a) (a :: l₂) := by
  induction l₁ generalizing p with
  | nil =>
      cases hc with
      | cons hnode hrest => exact .cons hnode hrest
  | cons b l₁ ih =>
      cases hc with
      | cons _ hrest => exact ih hrest

/-- A chain that ends does not come back to a node. -/
theorem Chain.nodup (hc : Chain h p l) : l.Nodup := by
  induction hc with
  | nil => exact List.nodup_nil
  | @cons a n l hnode hrest ih =>
      refine List.nodup_cons.mpr ⟨fun hmem => ?_, ih⟩
      obtain ⟨l₁, l₂, rfl⟩ := List.append_of_mem hmem
      have heq := (Chain.cons hnode hrest).unique hrest.suffix
      have hlen := congrArg List.length heq
      simp at hlen
      omega

theorem Chain.node (hc : Chain h p l) (ha : a ∈ l) : ∃ n, h a = some n := by
  obtain ⟨l₁, l₂, rfl⟩ := List.append_of_mem ha
  cases hc.suffix with
  | cons hnode _ => exact ⟨_, hnode⟩

/-- A chain depends on its own nodes alone. -/
theorem Chain.congr (hc : Chain h p l) (hsame : ∀ a ∈ l, h' a = h a) : Chain h' p l := by
  induction hc with
  | nil => exact .nil
  | cons hnode _ ih =>
      refine .cons ((hsame _ List.mem_cons_self).trans hnode) (ih fun b hb => ?_)
      exact hsame b (List.mem_cons_of_mem _ hb)

theorem setNext_of_ne {b : Addr} (hb : b ≠ a) : h.setNext a p b = h b := Function.update_of_ne hb _ _

theorem setNext_self {n : Node α} (hn : h a = some n) : h.setNext a p a = some { n with next := p } := by
  rw [Heap.setNext, Function.update_self, hn]
  rfl

theorem Chain.setNext (hc : Chain h p l) (ha : a ∉ l) : Chain (h.setNext a q) p l :=
  hc.congr fun _ hb => setNext_of_ne (ne_of_mem_of_not_mem hb ha)

/-- A write to the last node of a chain links another chain behind it. -/
theorem Chain.link (hc : Chain h p (l₁ ++ [t])) (hq : Chain h q l₂) (ht : t ∉ l₂) :
    Chain (h.setNext t q) p (l₁ ++ [t] ++ l₂) := by
  induction l₁ generalizing p with
  | nil =>
      cases hc with
      | cons hnode _ => exact .cons (setNext_self hnode) (hq.setNext ht)
  | cons a l₁ ih =>
      have hne : a ≠ t := by
        have hnodup := hc.nodup
        rintro rfl
        simp at hnodup
      cases hc with
      | cons hnode hrest => exact .cons ((setNext_of_ne hne).trans hnode) (ih hrest)

theorem vals_append : vals h (l₁ ++ l₂) = vals h l₁ ++ vals h l₂ := List.filterMap_append

/-- A write to a `next` pointer leaves the values. -/
theorem setNext_val (b : Addr) : (h.setNext a p b).map Node.val = (h b).map Node.val := by
  by_cases hb : b = a
  · subst hb
    rw [Heap.setNext, Function.update_self, Option.map_map]
    rfl
  · rw [setNext_of_ne hb]

theorem vals_setNext : vals (h.setNext a p) l = vals h l := List.filterMap_congr fun b _ => setNext_val b

theorem Chain.vals_eq_nil (hc : Chain h p l) : vals h l = [] ↔ l = [] := by
  cases hc with
  | nil => simp [vals]
  | cons hnode => simp [vals, hnode]

theorem vals_congr (hsame : ∀ a ∈ l, h' a = h a) : vals h' l = vals h l :=
  List.filterMap_congr fun b hb => by rw [hsame b hb]

end Chain

/-! ### Queues -/

namespace Denotes

variable {h h' : Heap α} {q d : Ends} {a t : Addr} {l l₁ l₂ : List Addr}

theorem empty : Denotes h .empty [] := ⟨.nil, rfl⟩

theorem congr (hd : Denotes h q l) (hsame : ∀ a ∈ l, h' a = h a) : Denotes h' q l :=
  ⟨hd.chain.congr hsame, hd.tail⟩

/-- The head pointer is null exactly when the queue is empty. -/
theorem head_eq_none (hd : Denotes h q l) : q.head = none ↔ l = [] := by
  have hchain := hd.chain
  constructor
  · intro hnone
    rw [hnone] at hchain
    cases hchain
    rfl
  · intro hnil
    rw [hnil] at hchain
    generalize q.head = p at hchain ⊢
    cases hchain
    rfl

theorem tail_eq_none (hd : Denotes h q l) : q.tail = none ↔ l = [] := by
  rw [hd.tail, List.getLast?_eq_none_iff]

/-- The tail pointer of a queue that is not empty is its last node. -/
theorem eq_concat (hd : Denotes h q l) (ht : q.tail = some t) : ∃ l₁, l = l₁ ++ [t] := by
  rw [hd.tail] at ht
  exact List.getLast?_eq_some_iff.mp ht

theorem append {n : Node α} (hd : Denotes h q l) (ha : a ∉ l) (hn : h a = some n) :
    Denotes (append h q a).1 (append h q a).2 (l ++ [a]) := by
  have hsingle : Chain (h.setNext a none) (some a) [a] := .cons (setNext_self hn) .nil
  have hold := hd.chain.setNext (q := none) ha
  unfold TailQueue.append
  dsimp only
  split
  · rename_i t ht
    obtain ⟨l₁, rfl⟩ := hd.eq_concat ht
    have hta : t ∉ [a] := fun hmem =>
      ha (List.mem_append_right _ (List.mem_singleton.mpr (List.mem_singleton.mp hmem).symm))
    exact ⟨hold.link hsingle hta, by simp⟩
  · rename_i ht
    obtain rfl := hd.tail_eq_none.mp ht
    exact ⟨hsingle, rfl⟩

theorem splice (hd : Denotes h d l₁) (hq : Denotes h q l₂) (ht : d.tail = some t) (hdisj : ∀ b ∈ l₁, b ∉ l₂) :
    Denotes (splice h d q t).1 (splice h d q t).2 (l₁ ++ l₂) := by
  obtain ⟨l, rfl⟩ := hd.eq_concat ht
  refine ⟨hd.chain.link hq.chain (hdisj t (by simp)), ?_⟩
  unfold TailQueue.splice
  dsimp only
  split
  · rename_i hnone
    obtain rfl := hq.tail_eq_none.mp hnone
    simp
  · rename_i hsome
    rw [hq.tail] at hsome ⊢
    rw [List.getLast?_append]
    cases hl : l₂.getLast? with
    | none => exact absurd hl hsome
    | some b => rfl

end Denotes

/-- Only the nodes of the queue and the new node are written. -/
theorem append_frame {h : Heap α} {q : Ends} {a b : Addr} {l : List Addr} (hd : Denotes h q l) (hb : b ∉ l)
    (hne : b ≠ a) : (append h q a).1 b = h b := by
  unfold append
  dsimp only
  split
  · rename_i t ht
    have hbt : b ≠ t := by
      rintro rfl
      obtain ⟨l₁, rfl⟩ := hd.eq_concat ht
      simp at hb
    exact (setNext_of_ne hbt).trans (setNext_of_ne hne)
  · exact setNext_of_ne hne

theorem append_val {h : Heap α} {q : Ends} {a : Addr} (b : Addr) :
    ((append h q a).1 b).map Node.val = (h b).map Node.val := by
  unfold append
  dsimp only
  split
  · exact (setNext_val b).trans (setNext_val b)
  · exact setNext_val b

theorem splice_vals {h : Heap α} {d q : Ends} {t : Addr} {l : List Addr} :
    vals (splice h d q t).1 l = vals h l :=
  vals_setNext

theorem append_vals {h : Heap α} {q : Ends} {a : Addr} {l : List Addr} :
    vals (append h q a).1 l = vals h l :=
  List.filterMap_congr fun b _ => append_val b

end TailQueue
