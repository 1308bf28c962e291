import Coseq.ReplyAddress
import Coseq.RequestReturns
import Coseq.StartTokens

/-! A reply reaches the call that asked for it. The id of a request names its owner and its kind in the
module that issued it, the fiber that replies has the address of the one START posted for that id, and
the first delivery closes the id. -/

namespace Coseq

/-- The reply with which a call of fiber `f` of module `i` returns for its request `rid`. -/
structure Correlated (s : Sys) (i : Nat) (f : FiberRef) (kind : ReqKind) (rid : Nat) (r : Result)
    (msg : Bytes) : Prop where
  issued : Issued f kind rid (s.module i).trace ∧ kind.awaited = true
  owner : ∀ f' kind', Issued f' kind' rid (s.module i).trace → f' = f ∧ kind' = kind
  replied : ∃ j g n, .started g (.module i) rid n ∈ (s.module j).trace ∧
    .replied g (.module i) rid r msg ∈ (s.module j).trace ∧
    ∀ j' g' n', .started g' (.module i) rid n' ∈ (s.module j').trace → j' = j ∧ g' = g ∧ n' = n
  once : (returnIds (s.module i).trace).count rid = 1
  closed : (∀ p ∈ (s.module i).pending, p.reqId ≠ rid) ∧
    ∀ a, ∀ rr ∈ ((s.module i).fiber a).rq, rr.reqId ≠ rid

/-- In every run in which ids and memory do not run out, a call that returns with a reply returns with
the one reply to its own request, and a fiber replies to the requester of its START alone. -/
theorem reply_correlated {tbl : List Reg} {s : Sys} (hrun : Reaches (EveryModule Ample) tbl s) :
    (∀ i f kind why g rid r msg, .returned f kind why g rid r msg ∈ (s.module i).trace →
      (∀ now, why ≠ .expired now) → Correlated s i f kind rid r msg) ∧
    ∀ j g o o' rid rid' n r msg, .started g o rid n ∈ (s.module j).trace →
      .replied g o' rid' r msg ∈ (s.module j).trace → o' = o ∧ rid' = rid := by
  refine ⟨fun i f kind why g rid r msg hret hwhy => ?_, fun j g o o' rid rid' n r msg hstart hreply =>
    (addressed hrun j).one_address hstart hreply⟩
  have hledger := ledger hrun (fun _ _ h i act hact => (h i act hact).1) i
  have hsourced := (replies_sourced hrun (fun _ _ h i act hact => (h i act hact).2) i).returns _ hret
  obtain ⟨hissued, hawaited⟩ := hledger.returned_issued hret
  have hreply : s.RepliesTo i rid r msg := by
    cases why with
    | reply => exact hsourced
    | queued => exact hsourced
    | expired now => exact absurd rfl (hwhy now)
    | timer now => exact hsourced.elim
  obtain ⟨j, g', hreply⟩ := hreply
  obtain ⟨-, n, hstart⟩ := (addressed hrun j).replied_started hreply (.inl (by simp))
  have hone : s.starts (.module i) rid ≤ 1 := Nat.le_of_add_right_le (starts_le_one hrun hledger)
  exact {
    issued := ⟨hissued, hawaited⟩
    owner := fun f' kind' h => hledger.issued_unique h hissued
    replied := ⟨j, g', n, hstart, hreply, fun j' g'' n' h => started_unique hrun hone hstart h⟩
    once := List.count_eq_one_of_mem hledger.returnIds_nodup (List.mem_filterMap.mpr ⟨_, hret, rfl⟩)
    closed := hledger.returned_closed hret }

/-- A fiber makes an asynchronous, a forgotten and a blocking request; the first responder makes a
request of its own before it replies, the last one replies twice. -/
def nestedRun : List Act :=
  [.requestAsync 0 0 0 [], .asyncPost 0 .granted, .thread 0, .thread 0, .thread 0, .thread 0,
    .fiber 0 (.requestAsync 1 0 [7]), .fiber 0 (.send 1 0 []), .fiber 0 (.request 1 0 []),
    .thread 1, .thread 1, .thread 1, .thread 1, .fiber 1 (.request 2 0 []),
    .thread 1, .fiber 1 (.reply .success [2]), .fiber 1 .ret,
    .thread 1, .fiber 1 (.reply .error [9]), .fiber 1 (.reply .success []), .fiber 1 .ret, .thread 1,
    .thread 2, .thread 2, .thread 2, .thread 2, .fiber 2 (.reply .success [5]), .fiber 2 .ret,
    .thread 1, .thread 1, .thread 1, .thread 1, .thread 1, .fiber 1 (.reply .success [1]), .fiber 1 .ret,
    .thread 0, .thread 0, .thread 0, .thread 0, .thread 0, .thread 0, .thread 0, .fiber 0 .waitReply,
    .thread 0, .thread 0]

theorem nestedRun_correlated : ∃ s,
    Reaches (EveryModule Ample) [⟨1, false⟩, ⟨1, false⟩, ⟨1, false⟩] s ∧
    .returned 0 .request .reply false 3 .error [9] ∈ (s.module 0).trace ∧
    .returned 0 .async .reply false 1 .success [1] ∈ (s.module 0).trace ∧
    Correlated s 0 0 .request 3 .error [9] ∧ Correlated s 0 0 .async 1 .success [1] := by
  obtain ⟨s, hrun, hs⟩ : ∃ s, Reaches (EveryModule Ample) [⟨1, false⟩, ⟨1, false⟩, ⟨1, false⟩] s ∧
      decide (.returned 0 .request .reply false 3 .error [9] ∈ (s.module 0).trace ∧
        .returned 0 .async .reply false 1 .success [1] ∈ (s.module 0).trace) = true :=
    Lts.exists_run nestedRun (by decide +kernel)
  obtain ⟨hrequest, hasync⟩ := of_decide_eq_true hs
  refine ⟨s, hrun, hrequest, hasync, ?_, ?_⟩
  · exact (reply_correlated hrun).1 _ _ _ _ _ _ _ _ hrequest (by simp)
  · exact (reply_correlated hrun).1 _ _ _ _ _ _ _ _ hasync (by simp)

end Coseq
