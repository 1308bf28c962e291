import Coseq.ModuleLedger
import Coseq.RunHistory

/-! Fan-out and gather. What `coseq_wait_reply` and `coseq_gather` deliver to a fiber is read off the
history: every asynchronous id at most once, nothing else, and all of them by the time the wait
returns `NULL`. The counter of a `coseq_gather` in progress is the number of its deliveries so far. -/

namespace Coseq

open History

def Obs.asyncIssue (a : FiberRef) : Obs → Option Nat
  | .issued f .async rid _ _ => if f = a then some rid else none
  | _ => none

def Obs.delivery (a : FiberRef) : Obs → Option Nat
  | .returned f .async _ _ rid _ _ => if f = a then some rid else none
  | _ => none

/-- The ids `coseq_request_async` has returned to `a`. -/
def asyncIds (a : FiberRef) (l : List Obs) : List Nat := l.filterMap (Obs.asyncIssue a)

/-- The ids `coseq_wait_reply` has delivered to `a`, directly or for `coseq_gather`. -/
def deliveries (a : FiberRef) (l : List Obs) : List Nat := l.filterMap (Obs.delivery a)

def bump : List Nat → List Nat
  | n :: rest => (n + 1) :: rest
  | [] => []

def Obs.gatherStep (a : FiberRef) (st : List Nat) : Obs → List Nat
  | .gathering f => if f = a then 0 :: st else st
  | .returned f .async _ true _ _ _ => if f = a then bump st else st
  | .gathered f _ => if f = a then st.tail else st
  | _ => st

/-- For each `coseq_gather` that `a` is in, innermost first, the number of replies it has delivered. -/
def gatherCounts (a : FiberRef) (l : List Obs) : List Nat := l.foldl (Obs.gatherStep a) []

/-- What may stand after a history, as far as the deliveries to `a` go. -/
def Delivers (a : FiberRef) (pre : List Obs) : Obs → Prop
  | .returned f .async _ _ rid _ _ => f = a → rid ∈ asyncIds a pre ∧ rid ∉ deliveries a pre
  | .noReply f => f = a → ∀ rid ∈ asyncIds a pre, rid ∈ deliveries a pre
  | .gathered f n => f = a → (∀ rid ∈ asyncIds a pre, rid ∈ deliveries a pre) ∧
      (gatherCounts a pre).head? = some n
  | _ => True

/-- An entry that takes part in the deliveries to `a`. -/
def Obs.Gathers (a : FiberRef) : Obs → Prop
  | .issued f .async _ _ _ | .returned f .async _ _ _ _ _ | .noReply f | .gathering f
  | .gathered f _ => f = a
  | _ => False

section Lists

variable {a : FiberRef} {l xs : List Obs}

theorem asyncIds_append : asyncIds a (l ++ xs) = asyncIds a l ++ asyncIds a xs := List.filterMap_append

theorem deliveries_append : deliveries a (l ++ xs) = deliveries a l ++ deliveries a xs :=
  List.filterMap_append

theorem gatherCounts_append : gatherCounts a (l ++ xs) = xs.foldl (Obs.gatherStep a) (gatherCounts a l) :=
  List.foldl_append

theorem Obs.calm {x : Obs} (h : ¬x.Gathers a) :
    x.asyncIssue a = none ∧ x.delivery a = none ∧ (∀ st, Obs.gatherStep a st x = st) ∧
      ∀ pre, Delivers a pre x := by
  unfold Obs.Gathers at h
  split at h
  · simp [Obs.asyncIssue, Obs.delivery, Obs.gatherStep, Delivers, h]
  · rename_i f why g rid r msg
    cases g <;> simp [Obs.asyncIssue, Obs.delivery, Obs.gatherStep, Delivers, h]
  · simp [Obs.asyncIssue, Obs.delivery, Obs.gatherStep, Delivers, h]
  · simp [Obs.asyncIssue, Obs.delivery, Obs.gatherStep, Delivers, h]
  · simp [Obs.asyncIssue, Obs.delivery, Obs.gatherStep, Delivers, h]
  · rename_i h1 h2 h3 h4 h5
    cases x with
    | issued f kind rid dst seq =>
        cases kind <;> first | exact absurd rfl (h1 _ _ _ _) | exact ⟨rfl, rfl, fun _ => rfl, fun _ => trivial⟩
    | returned f kind why g rid r msg =>
        cases kind <;>
          first | exact absurd rfl (h2 _ _ _ _ _ _) | exact ⟨rfl, rfl, fun _ => rfl, fun _ => trivial⟩
    | noReply f => exact absurd rfl (h3 _)
    | gathering f => exact absurd rfl (h4 _)
    | gathered f n => exact absurd rfl (h5 _ _)
    | _ => exact ⟨rfl, rfl, fun _ => rfl, fun _ => trivial⟩

/-- Entries that take no part leave everything as it was. -/
theorem calm_append (hxs : ∀ x ∈ xs, ¬x.Gathers a) :
    asyncIds a (l ++ xs) = asyncIds a l ∧ deliveries a (l ++ xs) = deliveries a l ∧
      gatherCounts a (l ++ xs) = gatherCounts a l := by
  refine ⟨?_, ?_, ?_⟩
  · have hnil : asyncIds a xs = [] := List.filterMap_eq_nil_iff.mpr fun x hx => (Obs.calm (hxs x hx)).1
    rw [asyncIds_append, hnil, List.append_nil]
  · have hnil : deliveries a xs = [] := List.filterMap_eq_nil_iff.mpr fun x hx => (Obs.calm (hxs x hx)).2.1
    rw [deliveries_append, hnil, List.append_nil]
  · rw [gatherCounts_append]
    generalize gatherCounts a l = st
    induction xs with
    | nil => rfl
    | cons x xs ih =>
        rw [List.foldl_cons, (Obs.calm (hxs x List.mem_cons_self)).2.2.1]
        exact ih fun y hy => hxs y (List.mem_cons_of_mem x hy)

theorem calm_each (hl : Each (Delivers a) l) (hxs : ∀ x ∈ xs, ¬x.Gathers a) : Each (Delivers a) (l ++ xs) :=
  hl.append fun x hx => (Obs.calm (hxs x hx)).2.2.2

end Lists

/-- The deliveries of the gathers in progress, by their counters: a gather whose callback runs has
delivered one reply more than its counter says. `fetching` holds of a fiber inside the
`coseq_wait_reply` of its innermost gather. -/
def Fiber.counting (f : Fiber) (fetching : Bool) : List Nat :=
  match fetching, f.gathers with
  | true, n :: rest => n :: rest.map (· + 1)
  | _, gathers => gathers.map (· + 1)

theorem Fiber.counting_false (f : Fiber) : f.counting false = f.gathers.map (· + 1) := rfl

def Fiber.fetching (f : Fiber) : Bool := f.waitingAny && f.ctx == .waitReply true

def Fiber.delivered (f : Fiber) : List Nat := f.counting f.fetching

theorem Fiber.Idle.delivered {f : Fiber} (h : f.Idle) : f.delivered = f.gathers.map (· + 1) := by
  simp [Fiber.delivered, Fiber.fetching, h.any, Fiber.counting]

theorem delivered_congr {f g : Fiber} (hany : f.waitingAny = g.waitingAny) (hctx : f.ctx = g.ctx)
    (hgathers : f.gathers = g.gathers) : f.delivered = g.delivered := by
  simp [Fiber.delivered, Fiber.fetching, Fiber.counting, hany, hctx, hgathers]

theorem bump_counting (f : Fiber) : bump (f.counting true) = f.counting false := by
  cases h : f.gathers <;> simp [Fiber.counting, h, bump]

/-! ### The ledger in terms of the history -/

theorem dueIds_books (m : Module) (a : FiberRef) : Requests.dueIds a m.books.log = asyncIds a m.trace := by
  rw [Requests.dueIds, Module.books, List.filterMap_filterMap]
  unfold asyncIds
  congr 1
  funext x
  cases x with
  | issued f kind rid dst seq => cases kind <;> rfl
  | _ => rfl

theorem collectedIds_books (m : Module) (a : FiberRef) :
    Requests.collectedIds a m.books.log = deliveries a m.trace := by
  rw [Requests.collectedIds, Module.books, List.filterMap_filterMap]
  unfold deliveries
  congr 1
  funext x
  cases x with
  | returned f kind why g rid r msg => cases kind <;> rfl
  | _ => rfl

namespace Ledger

variable {m : Module}

theorem delivered_issued (h : Ledger m) {a : FiberRef} {r : Nat} (hr : r ∈ deliveries a m.trace) :
    r ∈ asyncIds a m.trace := by
  rw [← collectedIds_books] at hr
  rw [← dueIds_books]
  exact Requests.mem_dueIds.mpr (h.balanced.returned a .collects r (Requests.mem_collectedIds.mp hr)).1

theorem deliveries_nodup (h : Ledger m) (a : FiberRef) : (deliveries a m.trace).Nodup := by
  rw [← collectedIds_books]
  exact h.balanced.collected_nodup a

theorem none_due (h : Ledger m) {a : FiberRef} (hout : (m.fiber a).asyncOutstanding = 0) :
    ∀ r ∈ asyncIds a m.trace, r ∈ deliveries a m.trace := by
  rw [← dueIds_books, ← collectedIds_books]
  exact h.balanced.all_collected hout

/-- The last entry of a history delivers an id that was issued and not delivered before. -/
theorem last_delivery (h : Ledger m) {a : FiberRef} {l : List Obs} {why : Wake} {g : Bool} {rid : Nat}
    {r : Result} {msg : Bytes} (htrace : m.trace = l ++ [.returned a .async why g rid r msg]) :
    rid ∈ asyncIds a l ∧ rid ∉ deliveries a l := by
  have hdel : deliveries a m.trace = deliveries a l ++ [rid] := by
    rw [htrace, deliveries_append]
    simp [deliveries, Obs.delivery]
  have hissue : asyncIds a m.trace = asyncIds a l := by
    rw [htrace, asyncIds_append]
    simp [asyncIds, Obs.asyncIssue]
  refine ⟨hissue ▸ h.delivered_issued (by rw [hdel]; simp), fun hmem => ?_⟩
  have hnodup := h.deliveries_nodup a
  rw [hdel] at hnodup
  exact (List.nodup_append.mp hnodup).2.2 rid hmem rid (List.mem_singleton.mpr rfl) rfl

end Ledger

/-! ### The invariant -/

/-- Deliveries are in order, and the counters of the gathers in progress count them. -/
structure Gathered (m : Module) : Prop where
  each : ∀ a, Each (Delivers a) m.trace
  counts : ∀ a, gatherCounts a m.trace = (m.fiber a).delivered

namespace Gathered

variable {m m' : Module} {xs : List Obs} {a : FiberRef}

theorem quiet (h : Gathered m) (htrace : m'.trace = m.trace ++ xs)
    (hxs : ∀ a, ∀ x ∈ xs, ¬x.Gathers a) (hfiber : ∀ a, (m'.fiber a).delivered = (m.fiber a).delivered) :
    Gathered m' := by
  refine ⟨fun a => ?_, fun a => ?_⟩
  · rw [htrace]
    exact calm_each (h.each a) (hxs a)
  · rw [htrace, (calm_append (hxs a)).2.2, hfiber]
    exact h.counts a

theorem silent (h : Gathered m) (htrace : m'.trace = m.trace)
    (hfiber : ∀ a, (m'.fiber a).delivered = (m.fiber a).delivered) : Gathered m' :=
  h.quiet (htrace.trans (List.append_nil _).symm) (fun _ _ hx => absurd hx List.not_mem_nil) hfiber

/-- A step of the fiber `a`, whose entries take no part in the deliveries to others. -/
theorem act (h : Gathered m) {f : Fiber} (htrace : m'.trace = m.trace ++ xs)
    (hfiber : m'.fiber = Function.update m.fiber a f) (hxs : ∀ b ≠ a, ∀ x ∈ xs, ¬x.Gathers b)
    (heach : Each (Delivers a) (m.trace ++ xs)) (hcounts : gatherCounts a (m.trace ++ xs) = f.delivered) :
    Gathered m' := by
  refine ⟨fun b => ?_, fun b => ?_⟩
  · rw [htrace]
    by_cases hb : b = a
    · subst hb
      exact heach
    · exact calm_each (h.each b) (hxs b hb)
  · rw [htrace, hfiber]
    by_cases hb : b = a
    · subst hb
      rw [Function.update_self]
      exact hcounts
    · rw [Function.update_of_ne hb, (calm_append (hxs b hb)).2.2]
      exact h.counts b

theorem update_delivered {f : Fiber} (hf : f.delivered = (m.fiber a).delivered) (b : FiberRef) :
    (Function.update m.fiber a f b).delivered = (m.fiber b).delivered :=
  Fiber.update_related (R := fun g g' => g'.delivered = g.delivered) (fun _ => rfl) hf b

/-- Delivering a reply to the fiber `a`, which has `counting g` deliveries so far. -/
theorem deliver {l : List Obs} {f : Fiber} {why : Wake} {g : Bool} {rid : Nat} {r : Result} {msg : Bytes}
    (heach : Each (Delivers a) l) (hcounts : gatherCounts a l = f.counting g)
    (hnew : rid ∈ asyncIds a l ∧ rid ∉ deliveries a l) :
    Each (Delivers a) (l ++ [.returned a .async why g rid r msg]) ∧
      gatherCounts a (l ++ [.returned a .async why g rid r msg]) = f.counting false := by
  refine ⟨each_concat.mpr ⟨heach, fun _ => hnew⟩, ?_⟩
  rw [gatherCounts_append, hcounts]
  cases g with
  | false => rfl
  | true => simp [Obs.gatherStep, bump_counting]

/-- A resumption of the fiber `a`. -/
theorem wake (h : Gathered m) {f : Fiber} {why : Wake} (hledger : Ledger m') (hwaits : f.Waits)
    (hdel : f.delivered = (m.fiber a).delivered) (htrace : m'.trace = m.trace ++ f.wakeObs a why)
    (hfiber : m'.fiber = Function.update m.fiber a f.wake) : Gathered m' := by
  have hidle : f.wake.delivered = f.counting false := by
    rw [Fiber.Idle.delivered (Modes.resumed_idle f)]
    rfl
  have hrest : f.fetching = false → (∀ b, ∀ x ∈ f.wakeObs a why, ¬x.Gathers b) → Gathered m' := by
    intro hfetch hcalm
    refine h.quiet htrace hcalm fun b => ?_
    rw [hfiber]
    refine update_delivered ?_ b
    rw [hidle, ← hdel, Fiber.delivered, hfetch]
  cases hwaits with
  | request hctx _ _ hany =>
      refine hrest (by simp [Fiber.fetching, hany]) fun b x hx => ?_
      rw [Fiber.wakeObs, hctx] at hx
      rcases List.mem_pair.mp hx with rfl | rfl <;> exact id
  | timed hctx _ _ _ hany =>
      refine hrest (by simp [Fiber.fetching, hany]) fun b x hx => ?_
      rw [Fiber.wakeObs, hctx] at hx
      rcases List.mem_pair.mp hx with rfl | rfl <;> exact id
  | waitTimeout hctx _ _ hany =>
      refine hrest (by simp [Fiber.fetching, hany]) fun b x hx => ?_
      rw [Fiber.wakeObs, hctx] at hx
      obtain rfl := List.mem_singleton.mp hx
      exact id
  | @waitReply g hctx _ _ hany _ _ =>
      have hobs : f.wakeObs a why =
          [.resumed a why] ++ [.returned a .async why g f.src.reqId f.src.result f.message] := by
        rw [Fiber.wakeObs, hctx]
        rfl
      have hcalm : ∀ b, ∀ x ∈ [Obs.resumed a why], ¬x.Gathers b := fun b x hx => by
        obtain rfl := List.mem_singleton.mp hx
        exact id
      have hfetch : f.fetching = g := by cases g <;> simp [Fiber.fetching, hctx, hany]
      have htrace' := htrace
      rw [hobs, ← List.append_assoc] at htrace'
      have hcounts : gatherCounts a (m.trace ++ [.resumed a why]) = f.counting g := by
        rw [(calm_append (hcalm a)).2.2, h.counts, ← hdel, Fiber.delivered, hfetch]
      obtain ⟨heach, hcounts'⟩ := deliver (calm_each (h.each a) (hcalm a)) hcounts
        (hledger.last_delivery htrace')
      refine h.act htrace hfiber (fun b hb x hx => ?_) ?_ ?_
      · rw [hobs] at hx
        rcases List.mem_append.mp hx with hx | hx
        · exact hcalm b x hx
        · obtain rfl := List.mem_singleton.mp hx
          exact Ne.symm hb
      · rw [hobs, ← List.append_assoc]
        exact heach
      · rw [hobs, ← List.append_assoc, hcounts', hidle]

theorem not_fetching {f : Fiber} (h : f.waitingAny = false) : f.delivered = f.counting false := by
  simp [Fiber.delivered, Fiber.fetching, h]

/-- `coseq_wait_reply` is called by a running fiber. -/
theorem enter {f f₁ : Fiber} {c : Call} {obs l : List Obs} {g : Bool} (henter : EnterWait f a c f₁ obs g)
    (heach : Each (Delivers a) l) (hcounts : gatherCounts a l = f.counting false) :
    Each (Delivers a) (l ++ obs) ∧ gatherCounts a (l ++ obs) = f₁.counting g ∧
      asyncIds a (l ++ obs) = asyncIds a l ∧ deliveries a (l ++ obs) = deliveries a l ∧
      ∀ b ≠ a, ∀ x ∈ obs, ¬x.Gathers b := by
  cases henter with
  | waitReply =>
      rw [List.append_nil]
      exact ⟨heach, hcounts, rfl, rfl, fun _ _ _ hx => absurd hx List.not_mem_nil⟩
  | gather =>
      refine ⟨each_concat.mpr ⟨heach, trivial⟩, ?_, ?_, ?_, ?_⟩
      · rw [gatherCounts_append, hcounts]
        simp [Obs.gatherStep, Fiber.counting]
      · simp [asyncIds, Obs.asyncIssue]
      · simp [deliveries, Obs.delivery]
      · intro b hb x hx
        obtain rfl := List.mem_singleton.mp hx
        exact Ne.symm hb
  | gatherNext hgathers =>
      rw [List.append_nil]
      refine ⟨heach, ?_, rfl, rfl, fun _ _ _ hx => absurd hx List.not_mem_nil⟩
      rw [hcounts]
      simp [Fiber.counting, hgathers]

/-- The wait returns `NULL` with every reply delivered, and the gather that called it its counter. -/
theorem null {f f' : Fiber} {obs l : List Obs} {g : Bool} (hnull : NullReturn f a g f' obs)
    (heach : Each (Delivers a) l) (hcounts : gatherCounts a l = f.counting g)
    (hall : ∀ r ∈ asyncIds a l, r ∈ deliveries a l) :
    Each (Delivers a) (l ++ obs) ∧ gatherCounts a (l ++ obs) = f'.counting false ∧
      ∀ b ≠ a, ∀ x ∈ obs, ¬x.Gathers b := by
  cases hnull with
  | plain =>
      refine ⟨each_concat.mpr ⟨heach, fun _ => hall⟩, ?_, ?_⟩
      · rw [gatherCounts_append]
        exact hcounts
      · intro b hb x hx
        obtain rfl := List.mem_singleton.mp hx
        exact Ne.symm hb
  | @gather n rest hgathers =>
      have hfirst : Each (Delivers a) (l ++ [.noReply a]) := each_concat.mpr ⟨heach, fun _ => hall⟩
      have hcounts' : gatherCounts a (l ++ [.noReply a]) = n :: rest.map (· + 1) := by
        rw [gatherCounts_append]
        refine hcounts.trans ?_
        simp [Fiber.counting, hgathers]
      have hids : asyncIds a (l ++ [.noReply a]) = asyncIds a l ∧
          deliveries a (l ++ [.noReply a]) = deliveries a l := by
        simp [asyncIds, deliveries, Obs.asyncIssue, Obs.delivery]
      have hsplit : l ++ [.noReply a, .gathered a n] = (l ++ [.noReply a]) ++ [.gathered a n] := by simp
      refine ⟨?_, ?_, ?_⟩
      · rw [hsplit]
        refine each_concat.mpr ⟨hfirst, fun _ => ⟨?_, by rw [hcounts']; rfl⟩⟩
        rw [hids.1, hids.2]
        exact hall
      · rw [hsplit, gatherCounts_append, hcounts']
        simp [Obs.gatherStep, Fiber.counting]
      · intro b hb x hx
        rcases List.mem_pair.mp hx with rfl | rfl <;> exact Ne.symm hb

theorem local_call (h : Gathered m) (hledger : Ledger m) (hledger' : Ledger m') {now : Timespec}
    {ok : Alloc} {c : Call} {f : Fiber} {obs : List Obs} {cur : Option FiberRef} {eff : Effect}
    (hcur : m.current = some a) (hcall : LocalCall m a now ok c f obs cur eff)
    (htrace : m'.trace = m.trace ++ obs) (hfiber : m'.fiber = Function.update m.fiber a f) :
    Gathered m' := by
  have hidle := (hledger.modes.running a hcur).2.2.1
  have hcounts : gatherCounts a m.trace = (m.fiber a).counting false :=
    (h.counts a).trans (not_fetching hidle.any)
  have hquiet : (∀ b, ∀ x ∈ obs, ¬x.Gathers b) → f.delivered = (m.fiber a).delivered → Gathered m' :=
    fun hcalm hf => h.quiet htrace hcalm fun b => by rw [hfiber]; exact update_delivered hf b
  cases hcall with
  | null henter hout _ hnull =>
      obtain ⟨heach, hcounts₁, hissue, hdel, hothers⟩ := enter henter (h.each a) hcounts
      obtain ⟨_, rfl⟩ := henter.same
      have hall := hledger.none_due hout
      rw [← hissue, ← hdel] at hall
      obtain ⟨heach', hcounts', hothers'⟩ := null hnull heach hcounts₁ hall
      obtain ⟨_, rfl⟩ := hnull.same
      refine h.act htrace hfiber (fun b hb x hx => ?_) ?_ ?_
      · exact (List.mem_append.mp hx).elim (hothers b hb x) (hothers' b hb x)
      · rw [← List.append_assoc]
        exact heach'
      · rw [← List.append_assoc, hcounts']
        refine (not_fetching ?_).symm
        exact hidle.any
  | @queued _ f₁ obs₁ g rr rest henter _ =>
      obtain ⟨heach, hcounts₁, -, -, hothers⟩ := enter henter (h.each a) hcounts
      obtain ⟨_, rfl⟩ := henter.same
      rw [← List.append_assoc] at htrace
      obtain ⟨heach', hcounts'⟩ := deliver heach hcounts₁ (hledger'.last_delivery htrace)
      rw [List.append_assoc] at htrace
      refine h.act htrace hfiber (fun b hb x hx => ?_) ?_ ?_
      · rcases List.mem_append.mp hx with hx | hx
        · exact hothers b hb x hx
        · obtain rfl := List.mem_singleton.mp hx
          exact Ne.symm hb
      · rw [← List.append_assoc]
        exact heach'
      · rw [← List.append_assoc, hcounts']
        refine (not_fetching ?_).symm
        exact hidle.any
  | @park _ f₁ _ g henter _ _ =>
      obtain ⟨heach, hcounts₁, -, -, hothers⟩ := enter henter (h.each a) hcounts
      refine h.act htrace hfiber hothers heach ?_
      rw [hcounts₁]
      cases g <;> simp [Fiber.delivered, Fiber.fetching, Fiber.counting]
  | waitTimeout =>
      refine hquiet (fun _ _ hx => absurd hx List.not_mem_nil) ?_
      refine (not_fetching ?_).trans (not_fetching hidle.any).symm
      exact hidle.any
  | reply =>
      refine hquiet (fun b x hx => ?_) rfl
      obtain rfl := List.mem_singleton.mp hx
      exact id
  | registered =>
      refine hquiet (fun b x hx => ?_) rfl
      obtain rfl := List.mem_singleton.mp hx
      exact id
  | unregistered =>
      refine hquiet (fun b x hx => ?_) rfl
      obtain rfl := List.mem_singleton.mp hx
      exact id
  | idle => exact hquiet (fun _ _ hx => absurd hx List.not_mem_nil) rfl
  | notifying => exact hquiet (fun _ _ hx => absurd hx List.not_mem_nil) rfl
  | notified =>
      refine hquiet (fun b x hx => ?_) rfl
      obtain rfl := List.mem_singleton.mp hx
      exact id

theorem issue (h : Gathered m) (hledger : Ledger m) {kind : ReqKind} {i s : Nat} {ok : Alloc}
    (hcur : m.current = some a) (htrace : m'.trace = m.trace ++ issueObs m a kind i s ok)
    (hfiber : m'.fiber = Function.update m.fiber a ((m.fiber a).issued kind m.reqId)) : Gathered m' := by
  have hidle := (hledger.modes.running a hcur).2.2.1
  have hstep : ∀ x ∈ issueObs m a kind i s ok, ∀ st, Obs.gatherStep a st x = st := by
    intro x hx st
    rcases issueObs_mem hx with rfl | rfl <;> rfl
  refine h.act htrace hfiber (fun b hb x hx => ?_) ?_ ?_
  · rcases issueObs_mem hx with rfl | rfl
    · cases kind <;> first | exact Ne.symm hb | exact id
    · exact id
  · refine (h.each a).append fun x hx pre => ?_
    rcases issueObs_mem hx with rfl | rfl <;> trivial
  · have hsame : gatherCounts a (m.trace ++ issueObs m a kind i s ok) = gatherCounts a m.trace := by
      rw [gatherCounts_append]
      generalize gatherCounts a m.trace = st
      exact List.foldlRecOn (motive := fun st' => st' = st) _ _ rfl fun st' hst' x hx => by
        rw [hstep x hx, hst']
    have hany : ((m.fiber a).issued kind m.reqId).waitingAny = false := by
      cases kind <;> exact hidle.any
    have hgathers : ((m.fiber a).issued kind m.reqId).gathers = (m.fiber a).gathers := by
      cases kind <;> rfl
    rw [hsame, h.counts, not_fetching hidle.any, not_fetching hany, Fiber.counting_false,
      Fiber.counting_false, hgathers]

theorem move {act : ModAct} {eff : Effect} (h : Gathered m) (hledger : Ledger m) (hledger' : Ledger m')
    (hmove : Move m act eff m') : Gathered m' := by
  have hone : ∀ {x : Obs}, (∀ b, ¬x.Gathers b) → ∀ b, ∀ y ∈ [x], ¬y.Gathers b := by
    intro x hx b y hy
    obtain rfl := List.mem_singleton.mp hy
    exact hx b
  cases hmove with
  | park => exact h.silent rfl fun _ => rfl
  | halt => exact h.silent rfl fun _ => rfl
  | take => exact h.silent rfl fun _ => rfl
  | pass => exact h.silent rfl fun _ => rfl
  | fire hcur _ _ htimer _ _ =>
      exact h.wake hledger' (hledger.modes.waits hcur (.inr (.inl htimer))).2 rfl rfl rfl
  | expire hcur _ _ htimer _ _ =>
      exact h.wake (f := (m.fiber _).timedOut _) hledger'
        ((hledger.modes.waits hcur (.inr (.inl htimer))).2.setSrc _ _ _ _ _ _ _) rfl rfl rfl
  | defer => exact h.silent rfl fun _ => rfl
  | drop _ _ _ hdrop =>
      refine h.quiet rfl (fun b x hx => ?_) fun _ => rfl
      cases hdrop with
      | unknown => cases hx
      | unheard => cases hx
      | rejected => exact hone (fun _ => id) b x hx
      | notStarted => exact hone (fun _ => id) b x hx
  | @begin _ ok e _ _ _ _ _ _ =>
      refine h.quiet rfl (hone fun b => ?_) (update_delivered ?_)
      · unfold Ev.beginObs
        split <;> exact id
      · rw [hledger.modes.unborn _ (Nat.le_refl _)]
        unfold Ev.fiber
        split <;> rfl
  | undefined => exact h.quiet rfl (hone fun _ => id) fun _ => rfl
  | wake hcur _ _ _ _ _ hwait =>
      exact h.wake (f := (m.fiber _).answered _ _) hledger'
        ((hledger.modes.waits hcur (hwait.imp (fun h => h.1) .inr)).2.setSrc _ _ _ _ _ _ _) rfl rfl rfl
  | queue => exact h.silent rfl (update_delivered (delivered_congr rfl rfl rfl))
  | lose => exact h.quiet rfl (hone fun _ => id) fun _ => rfl
  | reap => exact h.silent rfl fun _ => rfl
  | issue hcur _ => exact h.issue hledger hcur rfl rfl
  | «local» hcur hcall => exact h.local_call hledger hledger' hcur hcall rfl rfl
  | lock => exact h.quiet rfl (hone fun _ => id) fun _ => rfl
  | unlock => exact h.quiet rfl (hone fun _ => id) fun _ => rfl
  | ret => exact h.quiet rfl (hone fun _ => id) (update_delivered (delivered_congr rfl rfl rfl))
  | stop => exact h.silent rfl fun _ => rfl

theorem enqueue (h : Gathered m) (e : Ev) : Gathered (m.enqueue e) :=
  h.quiet rfl (fun b x hx => by obtain rfl := List.mem_singleton.mp hx; exact id) fun _ => rfl

theorem boot (i : Nat) (reg : Reg) : Gathered (Module.boot i reg) := ⟨fun _ => each_nil, fun _ => rfl⟩

end Gathered

/-- In every run in which no id counter wraps, `coseq_wait_reply` and `coseq_gather` deliver the
asynchronous replies of every fiber exactly once. -/
theorem gather_exactly_once {tbl : List Reg} {s : Sys} (hrun : Reaches (EveryModule NoWrap) tbl s)
    (j : Nat) (a : FiberRef) : Each (Delivers a) (s.module j).trace := by
  have h : Ledger (s.module j) ∧ Gathered (s.module j) := module_invariant (G := NoWrap)
    (P := fun m => Ledger m ∧ Gathered m) hrun (fun _ _ h => h)
    (fun i reg => ⟨Ledger.boot i reg, Gathered.boot i reg⟩)
    (fun _ _ _ _ h hok hmove =>
      have hledger := h.1.move hok hmove
      ⟨hledger, h.2.move h.1 hledger hmove⟩)
    (fun _ e h => ⟨h.1.enqueue e, h.2.enqueue e⟩) j
  exact h.2.each a

/-- Two requests are issued; the first reply is queued while the fiber sleeps, the second wakes it inside
its `coseq_gather`. -/
def fanOutRun : List Act :=
  [.requestAsync 0 0 0 [], .asyncPost 0 .granted, .thread 0, .thread 0, .thread 0, .thread 0,
    .fiber 0 (.requestAsync 1 0 []), .fiber 0 (.requestAsync 1 0 []), .fiber 0 (.waitTimeout 5),
    .thread 0, .thread 1, .thread 1, .thread 1, .thread 1, .fiber 1 (.reply .success []),
    .fiber 1 .ret, .thread 0, .thread 0, .thread 0, .thread 0, .thread 0, .thread 0, .thread 0,
    .tick ⟨1, 0⟩, .thread 0, .thread 0, .thread 0, .fiber 0 .gather, .fiber 0 .gatherNext,
    .thread 0, .thread 0, .thread 1, .fiber 1 (.reply .success []), .fiber 1 .ret,
    .thread 0, .thread 0, .thread 0, .thread 0, .thread 0, .fiber 0 .gatherNext]

theorem fanOutRun_delivers : ∃ s, Reaches (EveryModule NoWrap) [⟨1, false⟩, ⟨1, false⟩] s ∧
    (asyncIds 0 (s.module 0).trace = [1, 2] ∧ .gathered 0 2 ∈ (s.module 0).trace) ∧
      Each (Delivers 0) (s.module 0).trace := by
  obtain ⟨s, hrun, hs⟩ : ∃ s, Reaches (EveryModule NoWrap) [⟨1, false⟩, ⟨1, false⟩] s ∧
      decide (asyncIds 0 (s.module 0).trace = [1, 2] ∧ .gathered 0 2 ∈ (s.module 0).trace) = true :=
    Lts.exists_run fanOutRun (by decide +kernel)
  exact ⟨s, hrun, of_decide_eq_true hs, gather_exactly_once hrun 0 0⟩

end Coseq
