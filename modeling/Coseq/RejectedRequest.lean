import Coseq.ReplyAddress
import Coseq.RequestReturns
import Coseq.StartTokens

/-! Requests whose START is rejected: by `post`, because the module does not exist, or by the scheduler of
the target, because the sequence does not. The requester has registered the id before, and neither
rejection tells it, so it waits for a reply that nothing in the system will send. -/

namespace Coseq

/-- The START of the request `r` of fiber `f` of module `q` has been rejected. -/
def Rejected (s : Sys) (q : Nat) (f : FiberRef) (kind : ReqKind) (r : Nat) : Prop :=
  ∃ dst seq, .issued f kind r dst seq ∈ (s.module q).trace ∧
    (s.ctx.nrModule ≤ dst ∨ ∃ j n, .rejected (.module q) r n ∈ (s.module j).trace)

/-- A reply to the request is on its way to the module. -/
def OnItsWay (s : Sys) (q r : Nat) : Prop := ∃ e ∈ (s.module q).queue, e.type = .reply ∧ e.reqId = r

def Obs.asyncIssued (f : FiberRef) (r : Nat) : Obs → Bool
  | .issued f' .async r' _ _ => f' = f ∧ r' ≠ r
  | _ => false

def Obs.asyncReturned (f : FiberRef) (r : Nat) : Obs → Bool
  | .returned f' .async _ _ r' _ _ => f' = f ∧ r' ≠ r
  | _ => false

/-- The asynchronous requests of `f`, other than `r`, that it has not collected. -/
def asyncDue (f : FiberRef) (r : Nat) (l : List Obs) : Int :=
  l.countP (Obs.asyncIssued f r) - l.countP (Obs.asyncReturned f r)

/-- The registration of the request is undone: the pending list and `async_outstanding` are what they
would be without it. -/
def Restored (m : Module) (f : FiberRef) (r : Nat) : Prop :=
  (∀ p ∈ m.pending, p.reqId ≠ r) ∧ (m.fiber f).asyncOutstanding = asyncDue f r m.trace

/-- The fiber is parked until a reply with the id comes. -/
def AwaitsReply (m : Module) (f : FiberRef) (r : Nat) : Prop :=
  f ∈ m.fibers ∧ (m.fiber f).done = false ∧ (m.fiber f).waitingReply = true ∧ (m.fiber f).waitReqId = r

instance (m : Module) (f : FiberRef) (r : Nat) : Decidable (AwaitsReply m f r) :=
  inferInstanceAs (Decidable (_ ∧ _))

/-- An event or a fiber of the system can still bring a reply to the request. -/
def Producible (s : Sys) (q r : Nat) : Prop :=
  OnItsWay s q r ∨ (∃ j, ∃ e ∈ (s.module j).queue, e.startsFor (.module q) r = true) ∨
    ∃ j, ∃ g ∈ (s.module j).fibers, ((s.module j).fiber g).replyTo = .module q ∧
      ((s.module j).fiber g).replyReqId = r

/-- A rejected request does not strand its requester. -/
def NotStranded (s : Sys) (q : Nat) (f : FiberRef) (r : Nat) : Prop :=
  (OnItsWay s q r ∨ Restored (s.module q) f r) ∧ (AwaitsReply (s.module q) f r → Producible s q r)

section Rejection

variable {ok : Sys → Act → Prop} {tbl : List Reg} {s : Sys} {q r : Nat} {f : FiberRef} {kind : ReqKind}

/-- A rejected START is the only one of its request: no other waits and none has begun. -/
theorem rejected_only (hrun : Reaches ok tbl s) (hledger : Ledger (s.module q))
    (hrej : Rejected s q f kind r) (j : Nat) :
    (∀ e ∈ (s.module j).queue, e.startsFor (.module q) r = false) ∧
      ∀ g n, .started g (.module q) r n ∉ (s.module j).trace := by
  have hone := starts_le_one (r := r) hrun hledger
  have hnone : (s.module j).queue.countP (Ev.startsFor (.module q) r) = 0 ∧
      (s.module j).trace.countP (Obs.begins (.module q) r) = 0 := by
    by_cases hj : j < s.ctx.nrModule
    · have hle := Tally.le_total (w := fun _ m => Module.starts (.module q) r m) (f := s.module) hj
      obtain ⟨dst, seq, hissued, hdst | ⟨k, n, hk⟩⟩ := hrej
      · have hstray : 0 < (s.module q).trace.countP (Obs.strays s.ctx.nrModule r) :=
          List.countP_pos_iff.mpr ⟨_, hissued, by simp [Obs.strays, hdst]⟩
        rw [Sys.starts] at hone
        simp only [Module.starts] at hle hone
        omega
      · have hrefused : 0 < (s.module k).trace.countP (Obs.refuses (.module q) r) :=
          List.countP_pos_iff.mpr ⟨_, hk, by simp [Obs.refuses]⟩
        have hstarts : s.starts (.module q) r ≤ 1 := Nat.le_of_add_right_le hone
        by_cases hpos : 0 < (s.module j).starts (.module q) r
        · obtain rfl : j = k := Tally.unique_of_le_one hstarts hj (inside hrun hk) hpos
            (by rw [Module.starts]; omega)
          rw [Sys.starts] at hstarts
          simp only [Module.starts] at hle hstarts
          omega
        · rw [Module.starts] at hpos
          omega
    · obtain ⟨hnr, -, houtside⟩ := setup_fixed hrun
      rw [houtside j (hnr ▸ Nat.le_of_not_lt hj)]
      exact ⟨rfl, rfl⟩
  refine ⟨fun e he => ?_, fun g n hx => ?_⟩
  · simpa using List.countP_eq_zero.mp hnone.1 e he
  · exact Nat.ne_of_gt (mem_starts_begun hx) hnone.2

theorem rejected_no_reply (hrun : Reaches ok tbl s) (hledger : Ledger (s.module q))
    (hrej : Rejected s q f kind r) (res : Result) (msg : Bytes) : ¬s.RepliesTo q r res msg := by
  rintro ⟨j, g, hreply⟩
  obtain ⟨-, n, hstart⟩ := (addressed hrun j).replied_started hreply (.inl (by simp))
  exact (rejected_only hrun hledger hrej j).2 g n hstart

theorem rejected_not_on_way (hrun : Reaches ok tbl s) (hledger : Ledger (s.module q))
    (hrej : Rejected s q f kind r) : ¬OnItsWay s q r := by
  rintro ⟨e, he, htype, rfl⟩
  obtain ⟨msg, hreply⟩ := (replies_known hrun q).queue e he htype
  exact rejected_no_reply hrun hledger hrej _ _ hreply

theorem rejected_not_producible (hrun : Reaches ok tbl s) (hledger : Ledger (s.module q))
    (hrej : Rejected s q f kind r) : ¬Producible s q r := by
  rintro (hreply | ⟨j, e, he, hstart⟩ | ⟨j, g, hg, hto, hid⟩)
  · exact rejected_not_on_way hrun hledger hrej hreply
  · rw [(rejected_only hrun hledger hrej j).1 e he] at hstart
    cases hstart
  · obtain ⟨n, hn⟩ := (addressed hrun j).started_module ((modes hrun j).born g hg) hto
    rw [hid] at hn
    exact (rejected_only hrun hledger hrej j).2 g n hn

/-- No call returns for a rejected request without a deadline. -/
theorem rejected_no_return (hrun : Reaches ok tbl s) (hledger : Ledger (s.module q))
    (hrej : Rejected s q f kind r) (hkind : kind = .request ∨ kind = .async) :
    .returned f kind.ledger r ∉ (s.module q).books.log := by
  intro hmem
  obtain ⟨x, hx, heq⟩ := List.mem_filterMap.mp hmem
  cases x with
  | returned f' kind' why g rid res msg =>
      obtain ⟨rfl, hk, rfl⟩ := Requests.Entry.returned.inj (Option.some.inj heq)
      obtain rfl := ledger_injective hk
      have hsourced := (replies_known hrun q).returns _ hx
      have hno := rejected_no_reply hrun hledger hrej
      cases why with
      | reply => exact hsourced.elim fun msg' h => hno _ _ h
      | queued => exact hsourced.elim fun msg' h => hno _ _ h
      | expired now =>
          obtain ⟨-, -, d, rfl, -⟩ := hsourced
          rcases hkind with h | h <;> cases h
      | timer now => exact hsourced
  | issued => cases heq
  | lost => cases heq
  | _ => cases heq

/-- The requester of a rejected `coseq_request` stays in it. -/
theorem rejected_awaits (hrun : Reaches ok tbl s) (hledger : Ledger (s.module q))
    (hrej : Rejected s q f .request r) : AwaitsReply (s.module q) f r := by
  have hno := rejected_no_return hrun hledger hrej (.inl rfl)
  obtain ⟨dst, seq, hissued, -⟩ := hrej
  have hone := hledger.balanced.stop_once f none r (issued_books.mpr ⟨.request, rfl, dst, seq, hissued⟩)
  have hstopped : ((s.module q).books.account f).stopped = some (none, r) := by
    by_contra hne
    rw [Requests.Books.stops, if_neg hne, Nat.add_zero] at hone
    exact hno (List.count_pos_iff.mp (hone ▸ Nat.one_pos))
  change ((s.module q).fiber f).stopped = some (none, r) at hstopped
  have hreply : ((s.module q).fiber f).waitingReply = true := by
    by_contra hne
    rw [stopped_of_not_reply (by simpa using hne)] at hstopped
    cases hstopped
  refine ⟨hledger.modes.listed (.inl hreply), hledger.modes.not_done (.inl hreply), hreply, ?_⟩
  unfold Fiber.stopped at hstopped
  rw [if_pos hreply] at hstopped
  split at hstopped
  · exact (Prod.mk.inj (Option.some.inj hstopped)).2
  · cases hstopped
  · cases hstopped

theorem asyncDue_books (m : Module) (f : FiberRef) (r : Nat) :
    asyncDue f r m.trace = (Requests.dueIds f m.books.log).countP (· ≠ r) -
      (Requests.collectedIds f m.books.log).countP (· ≠ r) := by
  rw [asyncDue, Requests.dueIds, Requests.collectedIds, Module.books, List.filterMap_filterMap,
    List.filterMap_filterMap, List.countP_filterMap, List.countP_filterMap]
  congr 2
  · refine List.countP_congr fun x _ => ?_
    cases x with
    | issued f' kind rid dst seq =>
        cases kind <;> by_cases hf : f' = f <;>
          simp [Obs.asyncIssued, Obs.ledger, ReqKind.ledger, Requests.Entry.dueId, hf]
    | _ => simp [Obs.asyncIssued, Obs.ledger, Requests.Entry.dueId]
  · refine List.countP_congr fun x _ => ?_
    cases x with
    | returned f' kind why g rid res msg =>
        cases kind <;> by_cases hf : f' = f <;>
          simp [Obs.asyncReturned, Obs.ledger, ReqKind.ledger, Requests.Entry.collectedId, hf]
    | _ => simp [Obs.asyncReturned, Obs.ledger, Requests.Entry.collectedId]

/-- `async_outstanding` goes on counting a rejected `coseq_request_async`. -/
theorem rejected_counted (hrun : Reaches ok tbl s) (hledger : Ledger (s.module q))
    (hrej : Rejected s q f .async r) :
    ((s.module q).fiber f).asyncOutstanding = asyncDue f r (s.module q).trace + 1 := by
  have hno := rejected_no_return hrun hledger hrej (.inr rfl)
  obtain ⟨dst, seq, hissued, -⟩ := hrej
  have hdue : ((s.module q).fiber f).asyncOutstanding = _ := hledger.balanced.due f
  have hsplit : ∀ l : List Nat, (l.length : Int) = l.countP (· ≠ r) + l.count r := by
    intro l
    rw [List.length_eq_countP_add_countP (· ≠ r), List.count]
    push_cast
    congr 2
    exact List.countP_congr fun x _ => by simp
  have hone : (Requests.dueIds f (s.module q).books.log).count r = 1 :=
    List.count_eq_one_of_mem (hledger.balanced.ids.sublist Requests.dueIds_sublist)
      (Requests.mem_dueIds.mpr (issued_books.mpr ⟨.async, rfl, dst, seq, hissued⟩))
  have hzero : (Requests.collectedIds f (s.module q).books.log).count r = 0 :=
    List.count_eq_zero.mpr fun h => hno (Requests.mem_collectedIds.mp h)
  rw [hdue, asyncDue_books, hsplit, hsplit (Requests.collectedIds f _), hone, hzero]
  omega

end Rejection

/-- As long as ids do not wrap, every rejected `coseq_request` and `coseq_request_async` strands its
requester. -/
theorem rejected_stranded {tbl : List Reg} {s : Sys} (hrun : Reaches (EveryModule NoWrap) tbl s) {q r : Nat}
    {f : FiberRef} {kind : ReqKind} (hkind : kind = .request ∨ kind = .async)
    (hrej : Rejected s q f kind r) : ¬NotStranded s q f r := by
  have hledger := ledger hrun (fun _ _ h => h) q
  rintro ⟨hfirst, hsecond⟩
  rcases hkind with rfl | rfl
  · exact rejected_not_producible hrun hledger hrej (hsecond (rejected_awaits hrun hledger hrej))
  · rcases hfirst with hreply | ⟨-, hcount⟩
    · exact rejected_not_on_way hrun hledger hrej hreply
    · rw [rejected_counted hrun hledger hrej] at hcount
      omega

/-- A fiber makes an asynchronous request to module 7 of 1 and waits for the reply. -/
def noModuleRun : List Act :=
  [.requestAsync 0 0 0 [], .asyncPost 0 .granted, .thread 0, .thread 0, .thread 0, .thread 0,
    .fiber 0 (.requestAsync 7 0 []), .fiber 0 .waitReply, .thread 0, .thread 0]

theorem noModuleRun_stranded : ∃ s, Reaches (EveryModule NoWrap) [⟨1, false⟩] s ∧
    (s.module 0).phase = .waiting none ∧ ((s.module 0).fiber 0).waitingAny = true ∧
    Rejected s 0 0 .async 1 ∧ ¬NotStranded s 0 0 1 := by
  obtain ⟨s, hrun, hs⟩ : ∃ s, Reaches (EveryModule NoWrap) [⟨1, false⟩] s ∧
      decide (((s.module 0).phase = .waiting none ∧ ((s.module 0).fiber 0).waitingAny = true) ∧
        .issued 0 .async 1 7 0 ∈ (s.module 0).trace ∧ s.ctx.nrModule ≤ 7) = true :=
    Lts.exists_run noModuleRun (by decide +kernel)
  obtain ⟨⟨hphase, hwaits⟩, hissued, hdst⟩ := of_decide_eq_true hs
  have hrej : Rejected s 0 0 .async 1 := ⟨7, 0, hissued, .inl hdst⟩
  exact ⟨s, hrun, hphase, hwaits, hrej, rejected_stranded hrun (.inr rfl) hrej⟩

/-- A fiber requests sequence 5 of a module that has one. -/
def noSequenceRun : List Act :=
  [.requestAsync 0 0 0 [], .asyncPost 0 .granted, .thread 0, .thread 0, .thread 0, .thread 0,
    .fiber 0 (.request 1 5 []), .thread 1, .thread 1, .thread 1, .thread 1, .thread 1, .thread 1,
    .thread 0, .thread 0]

/-- The target drops the START and waits for events; the requester waits with it. -/
theorem requester_stranded : ∃ s, Reaches (EveryModule NoWrap) [⟨1, false⟩, ⟨1, false⟩] s ∧
    ((s.module 0).phase = .waiting none ∧ (s.module 1).phase = .waiting none) ∧
    Rejected s 0 0 .request 1 ∧ ¬NotStranded s 0 0 1 := by
  obtain ⟨s, hrun, hs⟩ : ∃ s, Reaches (EveryModule NoWrap) [⟨1, false⟩, ⟨1, false⟩] s ∧
      decide (((s.module 0).phase = .waiting none ∧ (s.module 1).phase = .waiting none) ∧
        AwaitsReply (s.module 0) 0 1 ∧ .issued 0 .request 1 1 5 ∈ (s.module 0).trace ∧
        .rejected (.module 0) 1 0 ∈ (s.module 1).trace) = true :=
    Lts.exists_run noSequenceRun (by decide +kernel)
  obtain ⟨hphases, hawaits, hissued, hrejected⟩ := of_decide_eq_true hs
  have hrej : Rejected s 0 0 .request 1 := ⟨1, 5, hissued, .inr ⟨1, 0, hrejected⟩⟩
  have hledger := ledger hrun (fun _ _ h => h) 0
  exact ⟨s, hrun, hphases, hrej, fun h => rejected_not_producible hrun hledger hrej (h.2 hawaits)⟩

end Coseq
