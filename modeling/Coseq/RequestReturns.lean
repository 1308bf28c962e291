import Coseq.ModuleLedger
import Coseq.ReplySource

/-! The calls of a module's fibers that return for a request: each for a request that its fiber issued,
with an id that no other call returns for, and after which the id is registered no more. -/

namespace Coseq

/-- Ids and memory do not run out. -/
def Ample (m : Module) (act : ModAct) : Prop := NoWrap m act ∧ AllocOk m act

instance (m : Module) (act : ModAct) : Decidable (Ample m act) :=
  inferInstanceAs (Decidable (NoWrap m act ∧ AllocOk m act))

def Obs.returnId : Obs → Option Nat
  | .returned _ _ _ _ rid _ _ => some rid
  | _ => none

/-- The ids of the requests a module's calls have returned from, each as often as that happened. -/
def returnIds (l : List Obs) : List Nat := l.filterMap Obs.returnId

/-- The request of kind `kind` with id `rid` was issued by `f`. -/
def Issued (f : FiberRef) (kind : ReqKind) (rid : Nat) (l : List Obs) : Prop :=
  ∃ dst seq, .issued f kind rid dst seq ∈ l

theorem issued_books {m : Module} {f : FiberRef} {k : Requests.Kind (Option Timespec)} {rid : Nat} :
    .issued f k rid ∈ m.books.log ↔ ∃ kind, kind.ledger = k ∧ Issued f kind rid m.trace := by
  simp only [Module.books, List.mem_filterMap]
  constructor
  · rintro ⟨x, hx, heq⟩
    cases x with
    | issued f' kind rid' dst seq =>
        obtain ⟨rfl, rfl, rfl⟩ := Requests.Entry.issued.inj (Option.some.inj heq)
        exact ⟨kind, rfl, dst, seq, hx⟩
    | returned => cases heq
    | lost => cases heq
    | _ => cases heq
  · rintro ⟨kind, rfl, dst, seq, hx⟩
    exact ⟨_, hx, rfl⟩

theorem returned_books {m : Module} {f : FiberRef} {kind : ReqKind} {why : Wake} {g : Bool} {rid : Nat}
    {r : Result} {msg : Bytes} (h : .returned f kind why g rid r msg ∈ m.trace) :
    .returned f kind.ledger rid ∈ m.books.log :=
  List.mem_filterMap.mpr ⟨_, h, rfl⟩

namespace Ledger

variable {m : Module} {f f' : FiberRef} {kind kind' : ReqKind} {why : Wake} {g : Bool} {rid : Nat}
  {r : Result} {msg : Bytes}

theorem issued_unique (h : Ledger m) (hx : Issued f kind rid m.trace) (hy : Issued f' kind' rid m.trace) :
    f = f' ∧ kind = kind' := by
  obtain ⟨hf, hk⟩ := Requests.issued_unique h.balanced.ids (issued_books.mpr ⟨kind, rfl, hx⟩)
    (issued_books.mpr ⟨kind', rfl, hy⟩)
  exact ⟨hf, ledger_injective hk⟩

/-- A call returns for a request that its fiber issued by the same kind of call. -/
theorem returned_issued (h : Ledger m) (hret : .returned f kind why g rid r msg ∈ m.trace) :
    Issued f kind rid m.trace ∧ kind.awaited = true := by
  obtain ⟨hissued, hk⟩ := h.balanced.returned _ _ _ (returned_books hret)
  obtain ⟨kind', hkind, hmem⟩ := issued_books.mp hissued
  obtain rfl := ledger_injective hkind
  refine ⟨hmem, ?_⟩
  cases kind' <;> first | rfl | exact absurd rfl hk

/-- At most one call of the module returns for an id. -/
theorem returnIds_nodup (h : Ledger m) : (returnIds m.trace).Nodup := by
  have hnodup := h.balanced.returned_nodup
  rw [Module.books, List.filterMap_filterMap] at hnodup
  have heq : returnIds m.trace =
      m.trace.filterMap fun x => (Obs.ledger x).bind Requests.Entry.returnedId := by
    unfold returnIds
    congr 1
    funext x
    cases x <;> rfl
  rw [heq]
  exact hnodup

/-- The id of a request that has returned is registered no more. -/
theorem returned_closed (h : Ledger m) (hret : .returned f kind why g rid r msg ∈ m.trace) :
    (∀ p ∈ m.pending, p.reqId ≠ rid) ∧ ∀ a, ∀ rr ∈ (m.fiber a).rq, rr.reqId ≠ rid := by
  refine ⟨fun p hp heq => ?_, fun a rr hrr heq => ?_⟩
  · refine (h.balanced.returned_closed (returned_books hret) p.f).1 ?_
    exact List.mem_map.mpr ⟨p, hp, by rw [heq]⟩
  · refine (h.balanced.returned_closed (returned_books hret) a).2 ?_
    exact List.mem_map.mpr ⟨rr, hrr, heq⟩

end Ledger

end Coseq
