import Mathlib.Data.List.Basic

/-! Blocks of memory as a C program sees them: cells that hold nothing until they are written, `NULL`, allocation,
and the copy of `n` cells, which is defined only inside both blocks. -/

namespace MemoryBlock

/-- `NULL` or the start of a block, with the cells of the block. A cell that has not been written is `none`. -/
abbrev Ptr (α : Type*) := Option (List (Option α))

variable {α : Type*}

namespace Ptr

def cells (p : Ptr α) : List (Option α) := p.getD []

/-- A block with the contents `l`. -/
def holding (l : List α) : Ptr α := some (l.map some)

/-- The block starts with `l`. -/
def Reads (p : Ptr α) (l : List α) : Prop := l.map some <+: p.cells

end Ptr

def malloc (n : Nat) : Ptr α := some (List.replicate n none)

/-- The cells of the old block, as far as they fit, and new ones. -/
def realloc (p : Ptr α) (n : Nat) : Ptr α :=
  some (p.cells.take n ++ List.replicate (n - p.cells.length) none)

def memcpy (dst src : Ptr α) (n : Nat) : Option (Ptr α) :=
  match dst, src with
  | some d, some s => if n ≤ d.length ∧ n ≤ s.length then some (some (s.take n ++ d.drop n)) else none
  | _, _ => none

variable {p dst src : Ptr α} {l : List α} {n : Nat}

namespace Ptr

theorem reads_nil : p.Reads [] := List.nil_prefix

theorem reads_holding : (holding l).Reads l := List.prefix_refl _

theorem Reads.length_le (h : p.Reads l) : l.length ≤ p.cells.length := by
  have hle := List.IsPrefix.length_le h
  rwa [List.length_map] at hle

/-- Something is read from no `NULL`. -/
theorem Reads.isSome (h : p.Reads l) (hl : l ≠ []) : p.isSome = true := by
  cases p with
  | none =>
      have hle := h.length_le
      exact absurd (List.eq_nil_of_length_eq_zero (Nat.le_zero.mp hle)) hl
  | some d => rfl

theorem Reads.take_cells (h : p.Reads l) (hn : n ≤ l.length) : p.cells.take n = (l.take n).map some := by
  obtain ⟨t, ht⟩ := h
  rw [← ht, List.take_append_of_le_length (by rwa [List.length_map]), List.map_take]

end Ptr

theorem malloc_length : (malloc n : Ptr α).cells.length = n := List.length_replicate

theorem realloc_length : (realloc p n).cells.length = n := by
  have hlen : (p.cells.take n ++ List.replicate (n - p.cells.length) none).length = n := by
    rw [List.length_append, List.length_take, List.length_replicate]
    omega
  exact hlen

/-- A copy inside both blocks. -/
theorem memcpy_reads (hdst : dst.isSome = true) (hroom : n ≤ dst.cells.length) (hsrc : src.isSome = true)
    (h : src.Reads l) (hn : n ≤ l.length) :
    memcpy dst src n = some (some ((l.take n).map some ++ dst.cells.drop n)) := by
  obtain ⟨d, rfl⟩ := Option.isSome_iff_exists.mp hdst
  obtain ⟨c, rfl⟩ := Option.isSome_iff_exists.mp hsrc
  have hlen : n ≤ c.length := Nat.le_trans hn h.length_le
  have htake : c.take n = (l.take n).map some := h.take_cells hn
  rw [memcpy, if_pos ⟨hroom, hlen⟩, htake]
  rfl

/-- A copy of everything that the source holds into a block of that size. -/
theorem memcpy_all (hdst : dst.isSome = true) (hroom : dst.cells.length = l.length) (hsrc : src.isSome = true)
    (h : src.Reads l) : memcpy dst src l.length = some (Ptr.holding l) := by
  rw [memcpy_reads hdst (Nat.le_of_eq hroom.symm) hsrc h (Nat.le_refl _), List.take_length,
    List.drop_of_length_le (Nat.le_of_eq hroom), List.append_nil]
  rfl

end MemoryBlock
