import Coseq.ModuleMove
import Mathlib.Data.List.Nodup

/-! The pending list as a finite map: with distinct ids `pending_peek` finds the one entry of an id,
and `pending_take` removes the entries of that id and no other. -/

namespace Coseq

variable {l : List Pending} {p : Pending} {r : Nat} {a : FiberRef}

/-- No two entries carry one id. -/
def Distinct (l : List Pending) : Prop := (l.map Pending.reqId).Nodup

theorem distinct_nil : Distinct [] := List.nodup_nil

theorem distinct_cons : Distinct (p :: l) ↔ (∀ q ∈ l, q.reqId ≠ p.reqId) ∧ Distinct l := by
  unfold Distinct
  rw [List.map_cons, List.nodup_cons]
  refine and_congr_left' ⟨fun h q hq heq => h (heq ▸ List.mem_map_of_mem hq), fun h hmem => ?_⟩
  obtain ⟨q, hq, heq⟩ := List.mem_map.mp hmem
  exact h q hq heq

theorem Distinct.sublist {l' : List Pending} (h : Distinct l) (hsub : List.Sublist l' l) :
    Distinct l' :=
  List.Nodup.sublist (hsub.map _) h

theorem pendingTake_sublist : List.Sublist (pendingTake l r) l := List.eraseP_sublist

theorem mem_of_take (h : p ∈ pendingTake l r) : p ∈ l := pendingTake_sublist.subset h

theorem Distinct.take (h : Distinct l) : Distinct (pendingTake l r) := h.sublist pendingTake_sublist

theorem mem_of_peek (h : pendingPeek l r = some a) : ⟨r, a⟩ ∈ l := by
  obtain ⟨p, hp, rfl⟩ := Option.map_eq_some_iff.mp h
  have hid : p.reqId = r := by simpa using List.find?_some hp
  subst hid
  exact List.mem_of_find?_eq_some hp

theorem peek_eq_none : pendingPeek l r = none ↔ ∀ p ∈ l, p.reqId ≠ r := by
  simp [pendingPeek]

namespace Distinct

theorem unique (h : Distinct l) {q : Pending} (hp : p ∈ l) (hq : q ∈ l) (hid : p.reqId = q.reqId) :
    p = q := by
  induction l with
  | nil => cases hp
  | cons x l ih =>
      obtain ⟨hx, hl⟩ := distinct_cons.mp h
      rcases List.mem_cons.mp hp with hpx | hpl <;> rcases List.mem_cons.mp hq with hqx | hql
      · exact hpx.trans hqx.symm
      · exact absurd (hid.symm.trans (congrArg Pending.reqId hpx)) (hx q hql)
      · exact absurd (hid.trans (congrArg Pending.reqId hqx)) (hx p hpl)
      · exact ih hl hpl hql

theorem peek_iff (h : Distinct l) : pendingPeek l r = some a ↔ ⟨r, a⟩ ∈ l := by
  refine ⟨mem_of_peek, fun hmem => ?_⟩
  cases hpeek : pendingPeek l r with
  | none => exact absurd rfl (peek_eq_none.mp hpeek _ hmem)
  | some b =>
      obtain ⟨-, rfl⟩ := Pending.mk.inj (h.unique (mem_of_peek hpeek) hmem rfl)
      rfl

theorem take_eq (h : Distinct l) : pendingTake l r = l.filter fun p => p.reqId != r := by
  induction l with
  | nil => rfl
  | cons x l ih =>
      obtain ⟨hx, hl⟩ := distinct_cons.mp h
      by_cases hr : x.reqId = r
      · subst hr
        have hrest : l.filter (fun p => p.reqId != x.reqId) = l :=
          List.filter_eq_self.mpr fun p hp => by simpa using hx p hp
        rw [List.filter_cons_of_neg (by simp), hrest]
        exact List.eraseP_cons_of_pos (by simp)
      · rw [List.filter_cons_of_pos (by simpa using hr), ← ih hl]
        exact List.eraseP_cons_of_neg (by simpa using hr)

/-- Exactly the entries of other ids remain. -/
theorem mem_take (h : Distinct l) : p ∈ pendingTake l r ↔ p ∈ l ∧ p.reqId ≠ r := by
  rw [h.take_eq]
  simp

end Distinct

/-- A request either adds its entry or adds nothing. -/
theorem mem_issuePending {m : Module} {kind : ReqKind} {ok : Alloc}
    (h : p ∈ issuePending m a kind ok) : p = ⟨m.reqId, a⟩ ∧ kind.awaited = true ∨ p ∈ m.pending := by
  unfold issuePending at h
  split at h
  · rename_i hadd
    exact (List.mem_cons.mp h).imp (fun hp => ⟨hp, (Bool.and_eq_true_iff.mp hadd).1⟩) id
  · exact .inr h

theorem issuePending_subset {m : Module} {kind : ReqKind} {ok : Alloc} (h : p ∈ m.pending) :
    p ∈ issuePending m a kind ok := by
  unfold issuePending
  split
  · exact List.mem_cons_of_mem _ h
  · exact h

/-- A fresh id keeps the ids distinct. -/
theorem Distinct.issue {m : Module} {kind : ReqKind} {ok : Alloc} (h : Distinct m.pending)
    (hfresh : kind.awaited = true → ∀ p ∈ m.pending, p.reqId ≠ m.reqId) :
    Distinct (issuePending m a kind ok) := by
  unfold issuePending
  split
  · rename_i hadd
    exact distinct_cons.mpr ⟨hfresh (Bool.and_eq_true_iff.mp hadd).1, h⟩
  · exact h

end Coseq
