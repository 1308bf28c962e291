import Coseq.RequestReturns

/-! A request with a deadline has one outcome: a reply to its own id, or the timeout. Whichever comes
first closes the pending entry, and a reply that comes later finds none. -/

namespace Coseq

/-- A reply whose id is not registered changes no fiber and no pending entry when its turn comes. -/
theorem late_reply {m m' : Module} {now : Timespec} {ok : Alloc} {eff : Effect} {e : Ev} {rest : List Ev}
    (hnone : ∀ p ∈ m.pending, p.reqId ≠ e.reqId) (hhead : AtHead m e rest) (htype : e.type = .reply)
    (hstep : m.step (.sched now ok) = some (m', eff)) :
    m'.fiber = m.fiber ∧ m'.fibers = m.fibers ∧ m'.pending = m.pending := by
  have hphase : ∀ {p : Phase}, m.phase = p → p = .events := fun hp => hp.symm.trans hhead.phase
  have hmerged : ∀ {inbox deferred : List Ev}, ¬Merged m inbox deferred := by
    intro inbox deferred hmerge
    cases hmerge with
    | kept hw =>
        rcases hw with ⟨d, hw⟩ | ⟨hw, -⟩
        · cases hphase hw
        · cases hphase hw
    | spliced hw _ => cases hphase hw
  have hsame : ∀ {e' : Ev} {rest' : List Ev}, AtHead m e' rest' → e' = e := fun h =>
    (List.cons.inj (h.batch.symm.trans hhead.batch)).1
  have hpeek : ∀ {e' : Ev} {rest' : List Ev} {a : FiberRef}, AtHead m e' rest' →
      pendingPeek m.pending e'.reqId ≠ some a := by
    intro e' rest' a h hpeek
    rw [hsame h] at hpeek
    exact hnone _ (mem_of_peek hpeek) rfl
  have hmove := Module.step_move hstep
  cases hmove with
  | park _ hp _ _ => cases hphase hp
  | halt _ hmerge _ => exact absurd hmerge hmerged
  | take _ hmerge => exact absurd hmerge hmerged
  | pass _ hpass =>
      cases hpass with
      | clock _ hp => cases hphase hp
      | timersDone hp => cases hphase hp
      | skip hp => cases hphase hp
  | fire _ hp => cases hphase hp
  | expire _ hp => cases hphase hp
  | defer => exact ⟨rfl, rfl, rfl⟩
  | drop => exact ⟨rfl, rfl, rfl⟩
  | begin _ hhead' _ hother _ =>
      rw [hsame hhead'] at hother
      exact absurd htype hother
  | undefined _ hhead' _ _ hp _ => exact absurd hp (hpeek hhead')
  | wake _ hhead' _ _ hp _ _ => exact absurd hp (hpeek hhead')
  | queue _ hhead' _ _ hp _ _ => exact absurd hp (hpeek hhead')
  | lose _ hhead' _ _ hp _ => exact absurd hp (hpeek hhead')
  | reap _ _ hbatch =>
      rw [hhead.batch] at hbatch
      cases hbatch

/-- The outcome of a request with deadline `d` and id `rid` of module `j`. -/
def TimedOutcome (s : Sys) (j : Nat) (d : Timespec) (why : Wake) (rid : Nat) (r : Result)
    (msg : Bytes) : Prop :=
  (∃ i g, .replied g (.module j) rid r msg ∈ (s.module i).trace) ∨
    ∃ now, why = .expired now ∧ r = .reqTimeout ∧ msg = [] ∧ tsLt now d = false

/-- In every run in which ids and memory do not run out, a `coseq_request_timeout` that returns does so
for its own request, once, with a reply to it or after its deadline, and from then on a reply to it
changes nothing. -/
theorem timed_request_outcome {tbl : List Reg} {s : Sys} (hrun : Reaches (EveryModule Ample) tbl s)
    {j : Nat} {f : FiberRef} {d : Timespec} {why : Wake} {g : Bool} {rid : Nat} {r : Result} {msg : Bytes}
    (hret : .returned f (.timed d) why g rid r msg ∈ (s.module j).trace) :
    Issued f (.timed d) rid (s.module j).trace ∧ TimedOutcome s j d why rid r msg ∧
      (returnIds (s.module j).trace).count rid = 1 ∧
      ∀ now ok m' eff e rest, AtHead (s.module j) e rest → e.type = .reply → e.reqId = rid →
        (s.module j).step (.sched now ok) = some (m', eff) →
        m'.fiber = (s.module j).fiber ∧ m'.fibers = (s.module j).fibers ∧
          m'.pending = (s.module j).pending := by
  have hledger := ledger hrun (fun _ _ h i act hact => (h i act hact).1) j
  have hsourced := (replies_sourced hrun (fun _ _ h i act hact => (h i act hact).2) j).returns _ hret
  refine ⟨(hledger.returned_issued hret).1, ?_, ?_, ?_⟩
  · cases why with
    | reply => exact .inl hsourced
    | queued => exact .inl hsourced
    | expired now =>
        obtain ⟨hr, hmsg, d', hd', hdue⟩ := hsourced
        obtain rfl := ReqKind.timed.inj hd'
        exact .inr ⟨now, rfl, hr, hmsg, hdue⟩
    | timer now => exact absurd hsourced id
  · exact List.count_eq_one_of_mem hledger.returnIds_nodup (List.mem_filterMap.mpr ⟨_, hret, rfl⟩)
  · intro now ok m' eff e rest hhead htype hid hstep
    refine late_reply (fun p hp heq => ?_) hhead htype hstep
    exact (hledger.returned_closed hret).1 p hp (heq.trans hid)

/-- A request times out; the reply arrives while the fiber waits for an asynchronous one. -/
def timedOutRun : List Act :=
  [.requestAsync 0 0 0 [], .asyncPost 0 .granted, .thread 0, .thread 0, .thread 0, .thread 0,
    .fiber 0 (.requestTimeout 1 0 [] 5), .thread 0, .thread 1, .thread 1, .thread 1, .thread 1,
    .fiber 1 (.waitTimeout 9), .tick ⟨0, 6000000⟩, .thread 0, .thread 0, .thread 0, .thread 0,
    .fiber 0 (.requestAsync 1 0 []), .fiber 0 .waitReply, .thread 0, .thread 0,
    .tick ⟨0, 9000000⟩, .thread 1, .thread 1, .thread 1, .thread 1, .fiber 1 (.reply .success []),
    .fiber 1 .ret, .thread 0, .thread 0, .thread 0, .thread 0]

theorem timedOutRun_outcome : ∃ s, Reaches (EveryModule Ample) [⟨1, false⟩, ⟨1, false⟩] s ∧
    ((s.module 0).batch.map Ev.reqId = [1] ∧ (s.module 0).pending = [⟨2, 0⟩]) ∧
    .returned 0 (.timed ⟨0, 5000000⟩) (.expired ⟨0, 6000000⟩) false 1 .reqTimeout []
      ∈ (s.module 0).trace ∧
    Issued 0 (.timed ⟨0, 5000000⟩) 1 (s.module 0).trace ∧
      TimedOutcome s 0 ⟨0, 5000000⟩ (.expired ⟨0, 6000000⟩) 1 .reqTimeout [] ∧
      (returnIds (s.module 0).trace).count 1 = 1 ∧
      ∀ now ok m' eff e rest, AtHead (s.module 0) e rest → e.type = .reply → e.reqId = 1 →
        (s.module 0).step (.sched now ok) = some (m', eff) →
        m'.fiber = (s.module 0).fiber ∧ m'.fibers = (s.module 0).fibers ∧
          m'.pending = (s.module 0).pending := by
  obtain ⟨s, hrun, hs⟩ : ∃ s, Reaches (EveryModule Ample) [⟨1, false⟩, ⟨1, false⟩] s ∧
      decide (((s.module 0).batch.map Ev.reqId = [1] ∧ (s.module 0).pending = [⟨2, 0⟩]) ∧
        .returned 0 (.timed ⟨0, 5000000⟩) (.expired ⟨0, 6000000⟩) false 1 .reqTimeout []
          ∈ (s.module 0).trace) = true :=
    Lts.exists_run timedOutRun (by decide +kernel)
  obtain ⟨hstate, hret⟩ := of_decide_eq_true hs
  exact ⟨s, hrun, hstate, hret, timed_request_outcome hrun hret⟩

end Coseq
