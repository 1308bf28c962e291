import Coseq.SyncTerms

/-! The sample application of the repository: its table, the code of its sequences as the calls they make, and what
they promise. What they print is left out. Each sequence is checked alone. -/

namespace Coseq.Sample

open Coroutine (Code BlocksSafe)

abbrev modA : Nat := 0
abbrev modB : Nat := 1
abbrev modC : Nat := 2

abbrev aEchoIdx : Nat := 0
abbrev aChainIdx : Nat := 1
abbrev aSubIdx : Nat := 2
abbrev aReqtoIdx : Nat := 3
abbrev aFanoutIdx : Nat := 4
abbrev aGatherIdx : Nat := 5
abbrev bChainIdx : Nat := 0
abbrev bSlowIdx : Nat := 1
abbrev cLoopIdx : Nat := 0
abbrev cRegisterIdx : Nat := 1
abbrev cWorkIdx : Nat := 2

abbrev notifyCat1 : Nat := 0

/-- The loops without a bound: that of `coseq_gather`, the `for` of `c_loop` with its counter, and that of
`coseq_notify` inside it. -/
inductive Label where
  | gather
  | tick (n : Nat)
  | notify (n : Nat)

abbrev Seq := SeqCode Label

/-- `coseq_reply` with `COSEQ_RSLT_SUCCESS`, and the return. -/
def succeed (msg : Bytes) : Seq := .call (.reply .success msg) fun _ => .ret

def aEcho (s : Answer) : Seq := succeed s.msg

def aChain : Seq :=
  .call .lock fun _ =>
  .call (.request modB bChainIdx []) fun _ =>
  .call .unlock fun _ =>
  succeed []

def aSub : Seq :=
  .call (.request modC cRegisterIdx []) fun _ =>
  succeed []

def aReqto : Seq :=
  .call (.requestTimeout modB bSlowIdx [] 100) fun _ =>
  succeed []

/-- The `for` of `a_fanout`, which reads through the pointer that `coseq_wait_reply` returns. -/
def collectReplies : Nat → Seq
  | 0 => succeed []
  | i + 1 => .call .waitReply fun r => .check r.value.isSome (collectReplies i)

def aFanout : Seq :=
  .call (.requestAsync modB bSlowIdx []) fun _ =>
  .call (.requestAsync modC cWorkIdx []) fun _ =>
  collectReplies 2

/-- The loop of `coseq_gather` after a `coseq_wait_reply`. -/
def gathered (r : Answer) : Seq := if r.value.isSome then .goto .gather else succeed []

def aGather : Seq :=
  .call (.requestAsync modB bSlowIdx []) fun _ =>
  .call (.requestAsync modC cWorkIdx []) fun _ =>
  .call .gather gathered

def aRecvNotify : Seq := .ret

def bChain : Seq :=
  .call (.request modC cWorkIdx []) fun _ =>
  succeed []

def bSlow : Seq :=
  .call (.waitTimeout 300) fun _ =>
  succeed []

/-- The text that `snprintf` makes of `"notify #%d"`. -/
def tickText (n : Nat) : Bytes :=
  (['n', 'o', 't', 'i', 'f', 'y', ' ', '#'] ++ Nat.toDigits 10 n).map fun c => UInt8.ofNat c.toNat

def cLoop : Seq :=
  .call (.reply .success []) fun _ =>
  .goto (.tick 0)

def cRegister : Seq :=
  .call (.regNotify notifyCat1) fun r =>
  match r.value with
  | some clientId => succeed [UInt8.ofNat clientId]
  | none => .call (.reply .error []) fun _ => .ret

def cWork : Seq :=
  .call (.waitTimeout 100) fun _ =>
  succeed []

def tbl : List Reg := [⟨6, true⟩, ⟨2, false⟩, ⟨3, false⟩]

def entry : Nat → Fn → Answer → Seq
  | 0, .seq 0, s => aEcho s
  | 0, .seq 1, _ => aChain
  | 0, .seq 2, _ => aSub
  | 0, .seq 3, _ => aReqto
  | 0, .seq 4, _ => aFanout
  | 0, .seq 5, _ => aGather
  | 0, .recvNotify, _ => aRecvNotify
  | 1, .seq 0, _ => bChain
  | 1, .seq 1, _ => bSlow
  | 2, .seq 0, _ => cLoop
  | 2, .seq 1, _ => cRegister
  | 2, .seq 2, _ => cWork
  | _, _, _ => .ret

def blocks : Label → Seq
  | .gather => .call .gatherNext gathered
  | .tick n =>
      .call (.waitTimeout 300) fun _ =>
      .call (.notify notifyCat1 (tickText (n + 1))) fun _ =>
      .goto (.notify (n + 1))
  | .notify n => .call .notifyNext fun r => if r.value.isSome then .goto (.notify n) else .goto (.tick n)

def app : App Label := ⟨entry, blocks⟩

/-! ### What the sequences promise -/

/-- The echo is the message, a registration is a client id or an error, and every other reply is an empty success. -/
def Meets (ask : Ask) (r : Result) (msg : Bytes) : Prop :=
  if (ask.target, ask.seq) = (modA, aEchoIdx) then r = .success ∧ msg = ask.msg
  else if (ask.target, ask.seq) = (modC, cRegisterIdx) then r = .success ∧ msg.length = 1 ∨ r = .error ∧ msg = []
  else r = .success ∧ msg = []

/-- Module A calls B and C, and B calls C; only A takes a lock. -/
def terms : Terms where
  meets := Meets
  tbl := tbl
  rank i _ := 2 - i
  limit i := if i = modA then 2 else 0

/-- What holds where a loop begins: `a_gather` still owes its reply, and `c_loop` owes nothing and never returns. -/
def inv : Label → Local → Prop
  | .gather, g => ∃ ask, g.owed = some ask ∧ Meets ask .success []
  | .tick _, _ => True
  | .notify _, _ => True

/-- What the sample names exists. -/
theorem named : terms.Exists modB bChainIdx ∧ terms.Exists modB bSlowIdx ∧ terms.Exists modC cRegisterIdx ∧
    terms.Exists modC cWorkIdx := by
  unfold Terms.Exists
  decide

/-- Every module is above those after it. -/
theorem below {g : Local} {j q : Nat} (hlt : g.self.1 < j) (hj : j ≤ 2) : terms.Below g j q := by
  have hlimit : terms.limit j = 0 := if_neg (Nat.ne_of_gt (Nat.zero_lt_of_lt hlt))
  unfold Terms.Below
  rw [hlimit]
  dsimp only [terms]
  omega

section Safe

variable {g : Local} {ask : Ask}

theorem succeed_safe {msg : Bytes} (howed : g.owed = some ask) (hmeets : Meets ask .success msg)
    (hasks : g.asks = []) : (succeed msg).Safe terms.contract inv g := by
  refine ⟨⟨ask, howed, hmeets⟩, fun _ g' hg' => ?_⟩
  obtain rfl := hg'
  exact ⟨rfl, hasks⟩

/-- As many replies as are owed are handed out, and no pointer is `NULL`. -/
theorem collectReplies_safe (g : Local) (ask : Ask) (howed : g.owed = some ask) (hmeets : Meets ask .success []) :
    (collectReplies g.asks.length).Safe terms.contract inv g := by
  generalize hn : g.asks.length = n
  induction n generalizing g with
  | zero => exact succeed_safe howed hmeets (List.length_eq_zero_iff.mp hn)
  | succ n ih =>
      refine ⟨trivial, fun r g' hpost => ?_⟩
      rcases hpost with ⟨hnil, -, -⟩ | ⟨x, hx, hvalue, -, -, rfl⟩
      · rw [hnil] at hn
        cases hn
      · refine ⟨by rw [hvalue]; rfl, ih _ howed ?_⟩
        dsimp only
        rw [List.length_erase_of_mem hx, hn]
        rfl

theorem gathered_safe {r : Answer} (howed : g.owed = some ask) (hmeets : Meets ask .success [])
    (hnull : r.value = none → g.asks = []) : (gathered r).Safe terms.contract inv g := by
  unfold gathered
  cases hvalue : r.value with
  | some _ => exact ⟨ask, howed, hmeets⟩
  | none => exact succeed_safe howed hmeets (hnull hvalue)

/-- After a `coseq_wait_reply` of the loop. -/
theorem collect_gathered (ask : Ask) {c : Call} (hc : c = .gather ∨ c = .gatherNext) (howed : g.owed = some ask)
    (hmeets : Meets ask .success []) {r : Answer} {g' : Local} (hpost : terms.contract.post g c r g') :
    (gathered r).Safe terms.contract inv g' := by
  have hcases : (g.asks = [] ∧ r.value = none ∧ g' = g) ∨
      ∃ x ∈ g.asks, r.value = some 0 ∧ r.src.reqId = x.1 ∧ Meets x.2 r.src.result r.msg ∧
        g' = { g with asks := g.asks.erase x } := by
    rcases hc with rfl | rfl <;> exact hpost
  rcases hcases with ⟨hnil, -, rfl⟩ | ⟨x, -, hvalue, -, -, rfl⟩
  · exact gathered_safe howed hmeets fun _ => hnil
  · refine gathered_safe howed hmeets fun hnone => ?_
    rw [hvalue] at hnone
    cases hnone

theorem blocks_safe : BlocksSafe terms.contract inv blocks := by
  intro l g hinv
  cases l with
  | gather =>
      obtain ⟨ask, howed, hmeets⟩ := hinv
      exact ⟨trivial, fun _ _ hpost => collect_gathered ask (.inr rfl) howed hmeets hpost⟩
  | tick n => exact ⟨trivial, fun _ _ _ => ⟨trivial, fun _ _ _ => trivial⟩⟩
  | notify n =>
      refine ⟨trivial, fun r _ _ => ?_⟩
      dsimp only
      split <;> trivial

/-- The two requests of `a_fanout` and `a_gather`. -/
theorem fanOut_safe {i q : Nat} {s : Answer} {k : Seq} (hself : i = modA) (hmeets : Meets ⟨i, q, s.msg⟩ .success [])
    (hk : ∀ asks : List (Nat × Ask), asks.length = 2 →
      k.Safe terms.contract inv ⟨(i, .seq q), some ⟨i, q, s.msg⟩, asks⟩) :
    (Code.call (.requestAsync modB bSlowIdx []) fun _ => .call (.requestAsync modC cWorkIdx []) fun _ => k).Safe
      terms.contract inv (Terms.begins i s.msg (.seq q)) := by
  subst hself
  refine ⟨⟨named.2.1, below (Nat.zero_lt_succ _) (by decide)⟩, fun _ g' hpost => ?_⟩
  obtain ⟨r, -, -, rfl⟩ := hpost
  refine ⟨⟨named.2.2.2, below (Nat.zero_lt_succ _) (by decide)⟩, fun _ g' hpost => ?_⟩
  obtain ⟨r', -, -, rfl⟩ := hpost
  exact hk _ rfl

/-- A request or a timer, and the reply. -/
theorem callThenSucceed_safe {i q : Nat} {s : Answer} {c : Call}
    (hpre : terms.contract.pre (Terms.begins i s.msg (.seq q)) c)
    (hpost : ∀ g r g', terms.contract.post g c r g' → g' = g) (hmeets : Meets ⟨i, q, s.msg⟩ .success []) :
    (Code.call c fun _ => succeed []).Safe terms.contract inv (Terms.begins i s.msg (.seq q)) := by
  refine ⟨hpre, fun r g' h => ?_⟩
  obtain rfl := hpost _ r g' h
  exact succeed_safe rfl hmeets rfl

theorem aChain_safe (s : Answer) :
    aChain.Safe terms.contract inv (Terms.begins modA s.msg (.seq aChainIdx)) := by
  refine ⟨⟨le_rfl, rfl⟩, fun _ g' hlock => ?_⟩
  obtain rfl := hlock
  refine ⟨⟨named.1, below (Nat.zero_lt_succ _) (by decide)⟩, fun _ g' hrequest => ?_⟩
  obtain ⟨-, rfl⟩ := hrequest
  refine ⟨trivial, fun _ g' hunlock => ?_⟩
  obtain rfl := hunlock
  exact succeed_safe rfl ⟨rfl, rfl⟩ rfl

theorem cRegister_safe (s : Answer) :
    cRegister.Safe terms.contract inv (Terms.begins modC s.msg (.seq cRegisterIdx)) := by
  refine ⟨trivial, fun r g' hregister => ?_⟩
  obtain rfl := hregister
  cases hvalue : r.value with
  | some clientId =>
      dsimp only
      rw [hvalue]
      exact succeed_safe rfl (.inl ⟨rfl, rfl⟩) rfl
  | none =>
      dsimp only
      rw [hvalue]
      refine ⟨⟨_, rfl, .inr ⟨rfl, rfl⟩⟩, fun _ g' hreply => ?_⟩
      obtain rfl := hreply
      exact ⟨rfl, rfl⟩

end Safe

theorem entry_handler (j : Nat) (ans : Answer) : entry j .recvNotify ans = .ret := by
  unfold entry
  split <;> first | rfl | simp_all

section Entry

variable {q : Nat} (ans : Answer)

theorem modA_safe (hq : q < 6) :
    (entry modA (.seq q) ans).Safe terms.contract inv (Terms.begins modA ans.msg (.seq q)) := by
  obtain rfl | rfl | rfl | rfl | rfl | rfl : q = aEchoIdx ∨ q = aChainIdx ∨ q = aSubIdx ∨ q = aReqtoIdx ∨
      q = aFanoutIdx ∨ q = aGatherIdx := by
    dsimp only [aEchoIdx, aChainIdx, aSubIdx, aReqtoIdx, aFanoutIdx, aGatherIdx]
    omega
  · exact succeed_safe rfl ⟨rfl, rfl⟩ rfl
  · exact aChain_safe ans
  · have hpre : terms.Exists modC cRegisterIdx ∧
        terms.Below (Terms.begins modA ans.msg (.seq aSubIdx)) modC cRegisterIdx :=
      ⟨named.2.2.1, below (Nat.zero_lt_succ _) (by decide)⟩
    exact callThenSucceed_safe hpre (fun _ _ _ h => h.2) ⟨rfl, rfl⟩
  · exact callThenSucceed_safe named.2.1 (fun _ _ _ h => h.2) ⟨rfl, rfl⟩
  · refine fanOut_safe rfl ⟨rfl, rfl⟩ fun asks hasks => ?_
    have hsafe := collectReplies_safe ⟨(modA, .seq aFanoutIdx), some ⟨modA, aFanoutIdx, ans.msg⟩, asks⟩
      ⟨modA, aFanoutIdx, ans.msg⟩ rfl ⟨rfl, rfl⟩
    rwa [hasks] at hsafe
  · refine fanOut_safe rfl ⟨rfl, rfl⟩ fun asks _ => ⟨trivial, fun r g' hpost => ?_⟩
    exact collect_gathered ⟨modA, aGatherIdx, ans.msg⟩ (.inl rfl) rfl ⟨rfl, rfl⟩ hpost

theorem modB_safe (hq : q < 2) :
    (entry modB (.seq q) ans).Safe terms.contract inv (Terms.begins modB ans.msg (.seq q)) := by
  obtain rfl | rfl : q = bChainIdx ∨ q = bSlowIdx := by
    dsimp only [bChainIdx, bSlowIdx]
    omega
  · have hpre : terms.Exists modC cWorkIdx ∧ terms.Below (Terms.begins modB ans.msg (.seq bChainIdx)) modC cWorkIdx :=
      ⟨named.2.2.2, below (Nat.one_lt_succ_succ _) (by decide)⟩
    exact callThenSucceed_safe hpre (fun _ _ _ h => h.2) ⟨rfl, rfl⟩
  · exact callThenSucceed_safe trivial (fun _ _ _ h => h) ⟨rfl, rfl⟩

theorem modC_safe (hq : q < 3) :
    (entry modC (.seq q) ans).Safe terms.contract inv (Terms.begins modC ans.msg (.seq q)) := by
  obtain rfl | rfl | rfl : q = cLoopIdx ∨ q = cRegisterIdx ∨ q = cWorkIdx := by
    dsimp only [cLoopIdx, cRegisterIdx, cWorkIdx]
    omega
  · exact ⟨⟨_, rfl, ⟨rfl, rfl⟩⟩, fun _ _ _ => trivial⟩
  · exact cRegister_safe ans
  · exact callThenSucceed_safe trivial (fun _ _ _ h => h) ⟨rfl, rfl⟩

end Entry

/-- Every sequence of the sample, taken alone, keeps the terms, whatever its calls answer. -/
theorem keeps : app.Keeps terms inv where
  entry j fn ans hexists := by
    change (entry j fn ans).Safe terms.contract inv (Terms.begins j ans.msg fn)
    cases fn with
    | recvNotify =>
        rw [entry_handler]
        exact ⟨rfl, rfl⟩
    | seq q =>
        have hj : j < 3 := (hexists q rfl).1
        have hq : q < (tbl.getD j ⟨0, false⟩).nrSeq := (hexists q rfl).2
        obtain rfl | rfl | rfl : j = modA ∨ j = modB ∨ j = modC := by
          dsimp only [modA, modB, modC]
          omega
        · exact modA_safe ans hq
        · exact modB_safe ans hq
        · exact modC_safe ans hq
  blocks := blocks_safe

/-- `request_sync` of `a_chain`: A holds its lock while B asks C, and all three go back to sleep. -/
def chainRun : List Act :=
  [.requestSync 0 modA aChainIdx [] .granted, .thread 0, .thread 0, .thread 0, .thread 0, .fiber 0 .lock,
    .fiber 0 (.request modB bChainIdx []), .thread 1, .thread 1, .thread 1, .thread 1,
    .fiber 1 (.request modC cWorkIdx []), .thread 2, .thread 2, .thread 2, .thread 2, .fiber 2 (.waitTimeout 100),
    .thread 2, .thread 2, .tick ⟨0, 100000000⟩, .thread 2, .thread 2, .thread 2, .fiber 2 (.reply .success []),
    .fiber 2 .ret, .thread 2, .thread 2, .thread 2, .thread 1, .thread 1, .thread 1, .thread 1, .thread 1, .thread 1,
    .fiber 1 (.reply .success []), .fiber 1 .ret, .thread 1, .thread 1, .thread 0, .thread 0, .thread 0, .thread 0,
    .thread 0, .thread 0, .fiber 0 .unlock, .fiber 0 (.reply .success []), .fiber 0 .ret, .thread 0, .thread 0,
    .wakeup 0 .granted]

theorem chainRun_terms : ∃ p, AppRun app terms.tbl p ∧
    .returned 0 .request .reply false 1 .success [] ∈ (p.1.module modA).trace ∧
    ∃ ask, p.2.asked modA 1 = some ask ∧ .issued 0 .request 1 ask.target ask.seq ∈ (p.1.module modA).trace ∧
      Meets ask .success [] := by
  obtain ⟨p, hrun, hp⟩ : ∃ p, AppRun app terms.tbl p ∧
      decide (.returned 0 .request .reply false 1 .success [] ∈ (p.1.module modA).trace) = true :=
    Lts.exists_run chainRun (by decide +kernel)
  have hreturned := of_decide_eq_true hp
  obtain ⟨ask, hasked, hissued, hmeets⟩ := (terms_kept keeps hrun modA).2.2.2 _ _ _ _ _ _ _ hreturned
  refine ⟨p, hrun, hreturned, ask, hasked, hissued, hmeets.resolve_right ?_⟩
  rintro ⟨_, _, hwhy, -⟩
  cases hwhy

theorem chainRun_unstuck : ∃ p, AppRun app terms.tbl p ∧ p.1.Standstill ∧ .locked 0 ∈ (p.1.module modA).trace ∧
    ∀ i < p.1.ctx.nrModule, (p.1.module i).fibers = [] ∧ (p.1.module i).pending = [] ∧
      (p.1.module i).lockedBy = none ∧ (p.1.module i).queue = [] := by
  obtain ⟨p, hrun, hp⟩ : ∃ p, AppRun app terms.tbl p ∧
      decide ((p.1.ctx.nrModule = 3 ∧
          ∀ i ∈ List.range 3, (p.1.module i).phase = .waiting none ∧ (p.1.module i).inbox = []) ∧
        .locked 0 ∈ (p.1.module modA).trace) = true :=
    Lts.exists_run chainRun (by decide +kernel)
  obtain ⟨⟨hnr, hasleep⟩, hlocked⟩ := of_decide_eq_true hp
  have hstill : p.1.Standstill := fun i hi => by
    have hmem : i ∈ List.range 3 := List.mem_range.mpr (hnr ▸ hi)
    exact ⟨(hasleep i hmem).1, (hasleep i hmem).2⟩
  exact ⟨p, hrun, hstill, hlocked, terms_never_stuck keeps hrun hstill⟩

/-- `request_sync` of `a_echo`. -/
def echoRun : List Act :=
  [.requestSync 0 modA aEchoIdx [7] .granted, .thread 0, .thread 0, .thread 0, .thread 0,
    .fiber 0 (.reply .success [7]), .fiber 0 .ret, .wakeup 0 .granted]

theorem echoRun_synced : ∃ p, AppTurns app terms.tbl p ∧ .returned 0 1 .success [7] ∈ p.1.ctx.extTrace ∧
    p.2.called 1 = some ⟨modA, aEchoIdx, [7]⟩ ∧ ∃ ask, p.2.called 1 = some ask ∧ Meets ask .success [7] := by
  obtain ⟨p, hrun, hp⟩ : ∃ p, AppTurns app terms.tbl p ∧
      decide (.returned 0 1 .success [7] ∈ p.1.ctx.extTrace ∧ p.2.called 1 = some ⟨modA, aEchoIdx, [7]⟩) = true :=
    Lts.exists_run echoRun (by decide +kernel)
  obtain ⟨hreturned, hcalled⟩ := of_decide_eq_true hp
  exact ⟨p, hrun, hreturned, hcalled, sync_terms keeps hrun hreturned⟩

end Coseq.Sample
