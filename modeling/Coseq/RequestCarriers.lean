import Coseq.RequestReturns
import Coseq.SingleReply
import Coseq.StartTokens

/-! Conservation of requests. While a request is registered something in the system carries it: its START
on the way to a module, the fiber made from that START until it replies, or the reply on the way back.
Taking an id makes one carrier, every other step hands a carrier on, and only the delivery of the reply
uses one up. -/

namespace Coseq

open Tally (total)

/-- A reply with the id `r`. -/
def Ev.repliesTo (r : Nat) (e : Ev) : Bool := e.type = .reply ∧ e.reqId = r

/-- The fiber is to reply to the request `r` of module `q`. -/
def Module.owes (m : Module) (q r : Nat) (a : FiberRef) : Bool :=
  !(m.fiber a).done && ((m.fiber a).replyTo = .module q ∧ (m.fiber a).replyReqId = r) && !m.hasReplied a

/-- The carriers of the request `r` of module `q` that module `i` holds. -/
def Module.carriers (q r i : Nat) (m : Module) : Nat :=
  m.queue.countP (Ev.startsFor (.module q) r) + m.fibers.countP (m.owes q r) +
    if i = q then m.queue.countP (Ev.repliesTo r) else 0

def Sys.carriers (s : Sys) (q r : Nat) : Nat := total s.ctx.nrModule (Module.carriers q r) s.module

/-- A pending entry has the id `r`. -/
def Registered (m : Module) (r : Nat) : Prop := ∃ p ∈ m.pending, p.reqId = r

/-- The module and the sequence a request names. -/
def Call.target : Call → Option (Nat × Nat)
  | .request i s _ | .requestTimeout i s _ _ | .requestAsync i s _ | .send i s _ => some (i, s)
  | _ => none

/-- A request names a module of the instance and one of its sequences. -/
def Named (s : Sys) : Act → Prop
  | .call _ c _ => ∀ t ∈ c.target, t.1 < s.ctx.nrModule ∧ t.2 < (s.module t.1).nrSeq
  | _ => True

instance (s : Sys) (a : Act) : Decidable (Named s a) :=
  match a with
  | .call _ c _ =>
      inferInstanceAs (Decidable (∀ t ∈ c.target, t.1 < s.ctx.nrModule ∧ t.2 < (s.module t.1).nrSeq))
  | .tick .. | .sched .. | .stop .. | .requestSync .. | .wakeup .. | .requestAsync .. | .asyncPost .. =>
      .isTrue trivial

/-- Ids and memory do not run out, requests name what exists, and every sequence replies once. -/
def Conserving (s : Sys) (a : Act) : Prop :=
  EveryModule (fun m act => Ample m act ∧ RepliesOnce m act) s a ∧ Named s a

instance (s : Sys) (a : Act) : Decidable (Conserving s a) := inferInstanceAs (Decidable (_ ∧ _))

/-- What the arrival of an event at module `d` adds to the carriers. -/
def carries (q r d : Nat) (e : Ev) : Nat :=
  (if e.startsFor (.module q) r then 1 else 0) + if d = q ∧ e.repliesTo r then 1 else 0

/-- A move of module `i` and what it posts, as the carriers of one request see it. -/
inductive Carried (n i q r : Nat) (m : Module) (eff : Effect) (m' : Module) : Prop where
  | kept (hcount : m'.carriers q r i + eff.load n (carries q r) = m.carriers q r i)
      (hregistered : i = q → Registered m' r → Registered m r)
  | answered (hcount : m'.carriers q r i + eff.load n (carries q r) ≤ m.carriers q r i) (hi : i = q)
      (hregistered : ¬Registered m' r)
  | issued (hcount : m'.carriers q r i + eff.load n (carries q r) = m.carriers q r i + 1) (hi : i = q)
      (hissues : m'.trace.countP (Obs.issues r) = m.trace.countP (Obs.issues r) + 1)

section Move

variable {m m' : Module} {n i q r : Nat} {a : FiberRef} {xs : List Obs}

theorem registered_mono (hpending : ∀ p ∈ m'.pending, p ∈ m.pending) :
    i = q → Registered m' r → Registered m r := by
  rintro - ⟨p, hp, hid⟩
  exact ⟨p, hpending p hp, hid⟩

theorem carriers_eq (hfibers : m'.fibers.countP (m'.owes q r) = m.fibers.countP (m.owes q r))
    (hqueue : ∀ p : Ev → Bool, m'.queue.countP p = m.queue.countP p) :
    m'.carriers q r i = m.carriers q r i := by
  rw [Module.carriers, Module.carriers, hfibers, hqueue, hqueue]

theorem hasReplied_append (htrace : m'.trace = m.trace ++ xs) (hxs : ∀ x ∈ xs, ∀ b, x.repliedBy b = false)
    (b : FiberRef) : m'.hasReplied b = m.hasReplied b := by
  rw [Module.hasReplied, Module.hasReplied, htrace, List.any_append]
  have hnone : xs.any (Obs.repliedBy b) = false := List.any_eq_false.mpr fun x hx => by simp [hxs x hx b]
  rw [hnone, Bool.or_false]

/-- A fiber of the same make that is as far with its reply owes the same. -/
theorem owes_congr {b : FiberRef} (hkin : (m.fiber b).Kin (m'.fiber b))
    (hdone : (m'.fiber b).done = (m.fiber b).done) (hreplied : m'.hasReplied b = m.hasReplied b) :
    m'.owes q r b = m.owes q r b := by
  rw [Module.owes, Module.owes, hkin.replyTo, hkin.replyReqId, hdone, hreplied]

/-- A step in which no fiber is made, replies or finishes. -/
theorem fibers_same (hfibers : m'.fibers = m.fibers) (hkin : ∀ b, (m.fiber b).Kin (m'.fiber b))
    (hdone : ∀ b, (m'.fiber b).done = (m.fiber b).done) (htrace : m'.trace = m.trace ++ xs)
    (hxs : ∀ x ∈ xs, ∀ b, x.repliedBy b = false) :
    m'.fibers.countP (m'.owes q r) = m.fibers.countP (m.owes q r) := by
  rw [hfibers]
  refine List.countP_congr fun b _ => ?_
  rw [owes_congr (hkin b) (hdone b) (hasReplied_append htrace hxs b)]

theorem fibers_silent (hfibers : m'.fibers = m.fibers) (hfiber : m'.fiber = m.fiber)
    (htrace : m'.trace = m.trace) :
    m'.fibers.countP (m'.owes q r) = m.fibers.countP (m.owes q r) :=
  fibers_same hfibers (fun b => by rw [hfiber]; exact .refl _) (fun b => by rw [hfiber])
    (htrace.trans (List.append_nil _).symm) fun _ hx => absurd hx List.not_mem_nil

theorem carriers_enqueue (d : Nat) (m : Module) (e : Ev) :
    (m.enqueue e).carriers q r d = m.carriers q r d + carries q r d e := by
  have hfibers : (m.enqueue e).fibers.countP ((m.enqueue e).owes q r) = m.fibers.countP (m.owes q r) :=
    fibers_same rfl (fun _ => .refl _) (fun _ => rfl) rfl (by simp [Obs.repliedBy])
  have hstart : Ev.startsFor (.module q) r { e with serial := m.posted } = e.startsFor (.module q) r := rfl
  have hreply : Ev.repliesTo r { e with serial := m.posted } = e.repliesTo r := rfl
  rw [Module.carriers, Module.carriers, hfibers, m.count_enqueue, m.count_enqueue, hstart, hreply, carries]
  by_cases hd : d = q
  · simp only [hd, if_true, true_and]
    omega
  · simp only [hd, if_false, false_and]
    omega

theorem done_update {f : Fiber} (h : f.done = (m.fiber a).done) (b : FiberRef) :
    (Function.update m.fiber a f b).done = (m.fiber b).done :=
  Fiber.update_related (R := fun g g' => g'.done = g.done) (fun _ => rfl) h b

theorem carries_other {e : Ev} {d : Nat} (htype : e.type = .notify) : carries q r d e = 0 := by
  simp [carries, Ev.startsFor, Ev.repliesTo, htype]

/-- The event at the head of the batch is used up. -/
theorem carriers_head {e : Ev} {rest : List Ev} (hhead : AtHead m e rest)
    (hqueue : m'.queue = m.deferred ++ rest ++ m.inbox) (made : Nat)
    (hfibers : m'.fibers.countP (m'.owes q r) = m.fibers.countP (m.owes q r) + made) :
    m'.carriers q r i + carries q r i e = m.carriers q r i + made := by
  rw [Module.carriers, Module.carriers, hfibers, hhead.count, hhead.count, hqueue, carries]
  by_cases hi : i = q
  · simp only [hi, if_true, true_and]
    omega
  · simp only [hi, if_false, false_and]
    omega

/-- A reply is delivered, or dropped because its id is not registered. -/
theorem carried_reply {e : Ev} {rest : List Ev} (hhead : AtHead m e rest) (htype : e.type = .reply)
    (hqueue : m'.queue = m.deferred ++ rest ++ m.inbox)
    (hfibers : m'.fibers.countP (m'.owes q r) = m.fibers.countP (m.owes q r))
    (hpending : ∀ p ∈ m'.pending, p ∈ m.pending ∧ p.reqId ≠ e.reqId) : Carried n i q r m .none m' := by
  have hcount := carriers_head (i := i) hhead hqueue 0 hfibers
  by_cases hr : i = q ∧ e.reqId = r
  · have hgone : ¬Registered m' r := by
      rintro ⟨p, hp, hid⟩
      exact (hpending p hp).2 (hid.trans hr.2.symm)
    refine .answered ?_ hr.1 hgone
    rw [Effect.load_none]
    omega
  · have hzero : carries q r i e = 0 := by
      simp [carries, Ev.startsFor, Ev.repliesTo, htype]
      exact fun hi hid => hr ⟨hi, hid⟩
    rw [hzero] at hcount
    exact .kept hcount (registered_mono fun p hp => (hpending p hp).1)

/-- A fiber is made from the event at the head of the batch. -/
theorem carried_begin {e : Ev} {rest : List Ev} {ok : Alloc} (hmodes : Modes m) (haddr : Addressed m)
    (hhead : AtHead m e rest) (htype : e.type ≠ .reply) (hqueue : m'.queue = m.deferred ++ rest ++ m.inbox)
    (hlist : m'.fibers = m.nextFiber :: m.fibers)
    (hfiber : m'.fiber = Function.update m.fiber m.nextFiber (e.fiber ok))
    (htrace : m'.trace = m.trace ++ [e.beginObs m.nextFiber]) (hpending : m'.pending = m.pending) :
    Carried n i q r m .none m' := by
  have hlines : ∀ x ∈ [e.beginObs m.nextFiber], ∀ b, x.repliedBy b = false := repliedBy_beginObs e
  have hold : ∀ b ∈ m.fibers, m'.owes q r b = m.owes q r b := by
    intro b hb
    have hne : b ≠ m.nextFiber := Nat.ne_of_lt (hmodes.born b hb)
    have hsame : m'.fiber b = m.fiber b := by rw [hfiber, Function.update_of_ne hne]
    exact owes_congr (by rw [hsame]; exact .refl _) (by rw [hsame]) (hasReplied_append htrace hlines b)
  have hsilent : m'.hasReplied m.nextFiber = false := by
    rw [hasReplied_append htrace hlines]
    refine List.any_eq_false.mpr fun x hx => ?_
    have hline := haddr.lines x hx
    cases x with
    | replied g o rid res msg =>
        have hne : g ≠ m.nextFiber := Nat.ne_of_lt hline.1
        simpa [Obs.repliedBy] using hne
    | _ => simp [Obs.repliedBy]
  have hmade : m'.fibers.countP (m'.owes q r) = m.fibers.countP (m.owes q r) +
      if m'.owes q r m.nextFiber then 1 else 0 := by
    rw [hlist, List.countP_cons]
    congr 1
    exact List.countP_congr fun b hb => by rw [hold b hb]
  have hnew : (if m'.owes q r m.nextFiber then 1 else 0) = carries q r i e := by
    rw [Module.owes, hsilent, hfiber, Function.update_self, e.fiber_done]
    cases hkind : e.type with
    | reply => exact absurd hkind htype
    | notify => simp [carries, Ev.fiber, freshFiber, Fiber.setSrc, Ev.startsFor, Ev.repliesTo, hkind]
    | start => simp [carries, Ev.fiber, freshFiber, Fiber.setSrc, Ev.startsFor, Ev.repliesTo, hkind]
  have hcount := carriers_head (i := i) hhead hqueue _ hmade
  rw [hnew] at hcount
  refine .kept ?_ (registered_mono fun p hp => hpending ▸ hp)
  rw [Effect.load_none]
  omega

/-- A step that keeps the events, and in which no fiber is made, replies or finishes. -/
theorem carried_kept (hqueue : ∀ p : Ev → Bool, m'.queue.countP p = m.queue.countP p)
    (hfibers : m'.fibers.countP (m'.owes q r) = m.fibers.countP (m.owes q r))
    (hpending : ∀ p ∈ m'.pending, p ∈ m.pending) : Carried n i q r m .none m' :=
  .kept (carriers_eq hfibers hqueue) (registered_mono hpending)

theorem carried_issue {ok : Alloc} {kind : ReqKind} {d s : Nat} {msg : Bytes}
    (hok : ok.Succeeds) (hd : d < n) (hidx : m.idx = i)
    (hqueue : m'.queue = m.queue)
    (hfibers : m'.fibers.countP (m'.owes q r) = m.fibers.countP (m.owes q r))
    (hpending : m'.pending = issuePending m a kind ok) (htrace : m'.trace = m.trace ++ issueObs m a kind d s ok) :
    Carried n i q r m (startEv m d s msg ok) m' := by
  have hcount : m'.carriers q r i = m.carriers q r i := carriers_eq hfibers fun p => by rw [hqueue]
  have hload : (startEv m d s msg ok).load n (carries q r) = if i = q ∧ m.reqId = r then 1 else 0 := by
    rw [startEv, makeEv, if_pos (hok .event), Effect.load, if_pos hd, hidx]
    simp [carries, Ev.startsFor, Ev.repliesTo]
  by_cases hr : i = q ∧ m.reqId = r
  · refine .issued ?_ hr.1 ?_
    · rw [hload, if_pos hr, hcount]
    · have hissues : (issueObs m a kind d s ok).countP (Obs.issues r) = if m.reqId = r then 1 else 0 :=
        (issueObs_counts (n := n)).1
      rw [htrace, List.countP_append, hissues, if_pos hr.2]
  · refine .kept ?_ ?_
    · rw [hload, if_neg hr, hcount]
      rfl
    · rintro hi ⟨p, hp, hid⟩
      rw [hpending] at hp
      rcases mem_issuePending hp with ⟨rfl, -⟩ | hp
      · exact absurd ⟨hi, hid⟩ hr
      · exact ⟨p, hp, hid⟩

/-- The carrier of a request passes from the fiber to its reply. -/
theorem carried_replied {o : Origin} {rid : Nat} {res : Result} {msg : Bytes} {eff : Effect}
    (hmodes : Modes m) (hcur : m.current = some a) (hqueue : m'.queue = m.queue)
    (hfibers : m'.fibers = m.fibers) (hfiber : m'.fiber = m.fiber)
    (htrace : m'.trace = m.trace ++ [.replied a o rid res msg]) (hpending : m'.pending = m.pending)
    (hload : eff.load n (carries q r) = if m.owes q r a then 1 else 0) : Carried n i q r m eff m' := by
  have hmem := (hmodes.running a hcur).1
  have hother : ∀ b, b ≠ a → m'.owes q r b = m.owes q r b := by
    intro b hb
    refine owes_congr (by rw [hfiber]; exact .refl _) (by rw [hfiber]) ?_
    rw [Module.hasReplied, Module.hasReplied, htrace, List.any_append]
    simp [Obs.repliedBy, Ne.symm hb]
  have hself : m'.owes q r a = false := by
    have hreplied : m'.hasReplied a = true := by
      rw [Module.hasReplied, htrace, List.any_append]
      simp [Obs.repliedBy]
    rw [Module.owes, hreplied]
    simp
  have hcount : m'.fibers.countP (m'.owes q r) + (if m.owes q r a then 1 else 0) =
      m.fibers.countP (m.owes q r) := by
    obtain ⟨l₁, l₂, hsplit⟩ := List.append_of_mem hmem
    have hnodup := hmodes.nodup
    rw [hfibers, hsplit]
    rw [hsplit] at hnodup
    have hne₁ : ∀ b ∈ l₁, b ≠ a := fun b hb =>
      (List.nodup_append.mp hnodup).2.2 b hb a List.mem_cons_self
    have hne₂ : ∀ b ∈ l₂, b ≠ a := fun b hb hba =>
      (List.nodup_cons.mp (List.nodup_append.mp hnodup).2.1).1 (hba ▸ hb)
    have h₁ : l₁.countP (m'.owes q r) = l₁.countP (m.owes q r) :=
      List.countP_congr fun b hb => by rw [hother b (hne₁ b hb)]
    have h₂ : l₂.countP (m'.owes q r) = l₂.countP (m.owes q r) :=
      List.countP_congr fun b hb => by rw [hother b (hne₂ b hb)]
    simp only [List.countP_append, List.countP_cons, h₁, h₂, hself]
    simp only [Bool.false_eq_true, if_false]
    omega
  refine .kept ?_ (registered_mono fun p hp => hpending ▸ hp)
  rw [Module.carriers, Module.carriers, hload, hqueue, ← hcount]
  omega

/-- A fiber that has not replied yet and is not a handler owes its requester. -/
theorem reply_load {ok : Alloc} {res : Result} {msg : Bytes} (hmodes : Modes m) (haddr : Addressed m)
    (hcur : m.current = some a) (hok : ok.Succeeds)
    (honce : (m.fiber a).fn ≠ .recvNotify → m.hasReplied a = false)
    (hhome : ∀ k, (m.fiber a).replyTo = .module k → k < n) :
    (reply m a res msg ok).2.load n (carries q r) = if m.owes q r a then 1 else 0 := by
  obtain ⟨hmem, hdone, -⟩ := hmodes.running a hcur
  unfold reply
  dsimp only
  split
  · rename_i hto
    simp [Effect.load, Module.owes, hto]
  · rename_i k hto
    have hfn : (m.fiber a).fn ≠ .recvNotify := by
      intro hfn
      rw [(haddr.handler a (hmodes.born a hmem) hfn).1] at hto
      cases hto
    rw [makeEv, if_pos (hok .event), Effect.load, if_pos (hhome k hto), Module.owes, hdone, honce hfn, hto]
    simp [carries, Ev.startsFor, Ev.repliesTo]

/-- A call that replies nothing posts no carrier. -/
theorem mute_load {eff : Effect} (h : eff.Mute) : eff.load n (carries q r) = 0 := by
  cases eff with
  | post d e =>
      cases e with
      | none => rfl
      | some e =>
          rw [Effect.load, carries_other (h e rfl)]
          exact ite_self 0
  | _ => rfl

/-- The fiber that returns owes nobody, so its carriers are as they were. -/
theorem carried_ret (hmodes : Modes m) (haddr : Addressed m) (hcur : m.current = some a)
    (honce : (m.fiber a).fn ≠ .recvNotify → m.hasReplied a = true) (hqueue : m'.queue = m.queue)
    (hfibers : m'.fibers = m.fibers)
    (hfiber : m'.fiber = Function.update m.fiber a { m.fiber a with done := true })
    (htrace : m'.trace = m.trace ++ [.finished a]) (hpending : m'.pending = m.pending) :
    Carried n i q r m .none m' := by
  have hnone : m.owes q r a = false := by
    by_cases hfn : (m.fiber a).fn = .recvNotify
    · have hto := (haddr.handler a (hmodes.born a (hmodes.running a hcur).1) hfn).1
      simp [Module.owes, hto]
    · simp [Module.owes, honce hfn]
  have hsame : ∀ b, m'.owes q r b = m.owes q r b := by
    intro b
    by_cases hb : b = a
    · subst hb
      rw [hnone, Module.owes, hfiber, Function.update_self]
      rfl
    · refine owes_congr ?_ ?_ (hasReplied_append htrace (by simp [Obs.repliedBy]) b)
      · rw [hfiber, Function.update_of_ne hb]
        exact .refl _
      · rw [hfiber, Function.update_of_ne hb]
  refine carried_kept (fun p => by rw [hqueue]) ?_ (fun p hp => hpending ▸ hp)
  rw [hfibers]
  exact List.countP_congr fun b _ => by rw [hsame b]

theorem Issues.target {now : Timespec} {c : Call} {kind : ReqKind} {d s : Nat} {msg : Bytes}
    (h : Issues now c kind d s msg) : c.target = some (d, s) := by
  cases h <;> rfl

theorem Move.carried {act : ModAct} {eff : Effect} (hmove : Move m act eff m') (hledger : Ledger m)
    (haddr : Addressed m) (hok : AllocOk m act) (honce : RepliesOnce m act) (hidx : m.idx = i)
    (hvalid : ∀ e ∈ m.queue, e.type = .start → e.requester = .module q → e.seqIdx < m.nrSeq)
    (hhome : ∀ a < m.nextFiber, ∀ k, (m.fiber a).replyTo = .module k → k < n)
    (hnamed : ∀ c now id ok, act = .call c now id ok → ∀ t ∈ c.target, t.1 < n) :
    Carried n i q r m eff m' := by
  have hmodes := hledger.modes
  have hsame : ∀ b, (m.fiber b).Kin (m.fiber b) := fun b => .refl _
  have hnil : m.trace = m.trace ++ [] := (List.append_nil _).symm
  have htaken : ∀ {rid : Nat}, ∀ p ∈ pendingTake m.pending rid, p ∈ m.pending ∧ p.reqId ≠ rid :=
    fun p hp => (distinct_entries hledger.balanced).mem_take.mp hp
  have hkeep : ∀ p ∈ m.pending, p ∈ m.pending := fun _ hp => hp
  cases hmove with
  | park _ _ hmerge _ =>
      obtain ⟨hbatch, hqueue⟩ := hmerge.queue hmodes
      exact carried_kept (fun p => by simp [Module.queue, hbatch, hqueue]) (fibers_silent rfl rfl rfl) hkeep
  | halt _ hmerge _ =>
      obtain ⟨hbatch, hqueue⟩ := hmerge.queue hmodes
      exact carried_kept (fun p => by simp [Module.queue, hbatch, hqueue]) (fibers_silent rfl rfl rfl) hkeep
  | take _ hmerge =>
      obtain ⟨hbatch, hqueue⟩ := hmerge.queue hmodes
      exact carried_kept (fun p => by simp [Module.queue, hbatch, hqueue]) (fibers_silent rfl rfl rfl) hkeep
  | pass => exact carried_kept (fun _ => rfl) (fibers_silent rfl rfl rfl) hkeep
  | fire =>
      exact carried_kept (fun _ => rfl) (fibers_same rfl (Fiber.kin_update ⟨rfl, rfl, rfl⟩)
        (done_update rfl) rfl repliedBy_wakeObs) hkeep
  | expire =>
      exact carried_kept (fun _ => rfl) (fibers_same rfl (Fiber.kin_update ⟨rfl, rfl, rfl⟩)
        (done_update rfl) rfl repliedBy_wakeObs) fun p hp => mem_of_take hp
  | defer _ hhead _ =>
      exact carried_kept (fun p => hhead.count_defer p) (fibers_silent rfl rfl rfl) hkeep
  | @drop _ _ e rest obs _ hhead _ hdrop =>
      have hfibers : ∀ {m' : Module}, m'.fibers = m.fibers → m'.fiber = m.fiber →
          m'.trace = m.trace ++ obs → m'.fibers.countP (m'.owes q r) = m.fibers.countP (m.owes q r) := by
        intro m' hl hf ht
        exact fibers_same hl (fun b => by rw [hf]; exact .refl _) (fun b => by rw [hf]) ht
          (repliedBy_dropped hdrop)
      have hnothing : carries q r i e = 0 → Carried n i q r m .none
          { m with batch := rest, trace := m.trace ++ obs } := by
        intro hzero
        have hmade : (m.fibers.countP ({ m with batch := rest, trace := m.trace ++ obs }.owes q r)) =
            m.fibers.countP (m.owes q r) + 0 := hfibers rfl rfl rfl
        have hcount := carriers_head (i := i) hhead rfl 0 hmade
        rw [hzero] at hcount
        exact .kept hcount fun _ h => h
      cases hdrop with
      | unknown htype hpeek =>
          exact carried_reply hhead htype rfl (hfibers rfl rfl rfl) fun p hp =>
            ⟨hp, peek_eq_none.mp hpeek p hp⟩
      | unheard htype => exact hnothing (carries_other htype)
      | rejected htype hseq =>
          refine hnothing ?_
          have hother : e.requester ≠ .module q := fun ho =>
            absurd (hvalid e hhead.mem_queue htype ho) (Nat.not_lt_of_ge hseq)
          simp [carries, Ev.startsFor, Ev.repliesTo, htype, hother]
      | notStarted _ _ halloc => exact absurd hok halloc
  | begin _ hhead _ htype _ => exact carried_begin hmodes haddr hhead htype rfl rfl rfl rfl rfl
  | undefined _ hhead _ htype _ _ =>
      exact carried_reply hhead htype rfl (fibers_same rfl hsame (fun _ => rfl) rfl (by simp [Obs.repliedBy]))
        htaken
  | wake _ hhead _ htype _ _ _ =>
      exact carried_reply hhead htype rfl (fibers_same rfl (Fiber.kin_update ⟨rfl, rfl, rfl⟩)
        (done_update rfl) rfl repliedBy_wakeObs) htaken
  | queue _ hhead _ htype _ _ _ =>
      exact carried_reply hhead htype rfl (fibers_same rfl (Fiber.kin_update ⟨rfl, rfl, rfl⟩)
        (done_update rfl) hnil (by simp)) htaken
  | lose _ hhead _ htype _ _ =>
      exact carried_reply hhead htype rfl (fibers_same rfl hsame (fun _ => rfl) rfl (by simp [Obs.repliedBy]))
        htaken
  | reap =>
      refine carried_kept (fun _ => rfl) ?_ hkeep
      change (m.fibers.filter fun a => !(m.fiber a).done).countP (m.owes q r) = _
      rw [List.countP_filter]
      refine List.countP_congr fun b _ => ?_
      simp +contextual [Module.owes]
  | @issue _ _ ok a _ kind _ _ _ _ hissue =>
      refine carried_issue hok (hnamed _ _ _ _ rfl _ hissue.target) hidx rfl ?_ rfl rfl
      refine fibers_same rfl (Fiber.kin_update (Fiber.issued_kin _ _ _)) (done_update ?_) rfl
        repliedBy_issueObs
      cases kind <;> rfl
  | @«local» _ _ ok a c f _ _ _ _ hcur hcall =>
      by_cases hc : ∃ res msg, c = .reply res msg
      · obtain ⟨res, msg, rfl⟩ := hc
        obtain ⟨rfl, rfl, rfl⟩ := hcall.reply_inv
        refine carried_replied hmodes hcur rfl rfl (Function.update_eq_self _ _) rfl rfl ?_
        refine reply_load hmodes haddr hcur hok (honce a hcur) fun k hk => ?_
        exact hhome a (hmodes.born a (hmodes.running a hcur).1) k hk
      · obtain ⟨hobs, hmute⟩ := hcall.silent fun res msg h => hc ⟨res, msg, h⟩
        have hdone := (hcall.turn (hmodes.running a hcur).2.2.1).1
        refine .kept ?_ fun _ h => h
        rw [mute_load hmute, Nat.add_zero]
        exact carriers_eq (fibers_same rfl (Fiber.kin_update hcall.kin) (done_update hdone) rfl hobs)
          fun _ => rfl
  | lock =>
      exact carried_kept (fun _ => rfl) (fibers_same rfl hsame (fun _ => rfl) rfl (by simp [Obs.repliedBy]))
        hkeep
  | unlock =>
      exact carried_kept (fun _ => rfl) (fibers_same rfl hsame (fun _ => rfl) rfl (by simp [Obs.repliedBy]))
        hkeep
  | ret hcur _ => exact carried_ret hmodes haddr hcur (honce _ hcur) rfl rfl rfl rfl rfl
  | stop => exact carried_kept (fun _ => rfl) (fibers_silent rfl rfl rfl) hkeep

/-- A START is posted by a request that names the inbox. -/
theorem Move.posted_start {act : ModAct} {d : Nat} {e : Ev} (hmove : Move m act (.post d (some e)) m')
    (htype : e.type = .start) :
    ∃ c now id ok, act = .call c now id ok ∧ c.target = some (d, e.seqIdx) := by
  rcases hmove.issue_cases with ⟨-, -, hno⟩ | ⟨c, now, id, ok, _, _, d', s, msg, hact, hissue, -, -, heff⟩
  · exact absurd htype (hno d e rfl)
  · obtain ⟨rfl, he⟩ := Effect.post.inj heff
    refine ⟨c, now, id, ok, hact, ?_⟩
    unfold makeEv at he
    split at he
    · obtain rfl := Option.some.inj he
      exact hissue.target
    · cases he

end Move

/-! ### Runs -/

theorem localAct_call {s : Sys} {a : Act} {i : Nat} {c : Call} {now : Timespec} {id : Nat} {ok : Alloc}
    (h : s.localAct i a = some (.call c now id ok)) : a = .call i c ok := by
  cases a with
  | call j c' ok' =>
      rw [Sys.localAct] at h
      split at h
      · rename_i hj
        obtain ⟨rfl, -, -, rfl⟩ := ModAct.call.inj (Option.some.inj h)
        rw [hj]
      · cases h
  | sched j ok' =>
      rw [Sys.localAct] at h
      split at h <;> cases h
  | stop j =>
      rw [Sys.localAct] at h
      split at h <;> cases h
  | _ => cases h

/-- A reply address is a module of the instance. -/
theorem reply_home {ok : Sys → Act → Prop} {tbl : List Reg} {s : Sys} (hrun : Reaches ok tbl s) {j k : Nat}
    {a : FiberRef} (ha : a < (s.module j).nextFiber) (hto : ((s.module j).fiber a).replyTo = .module k) :
    k < s.ctx.nrModule := by
  obtain ⟨n, hn⟩ := (addressed hrun j).started_module ha hto
  have hbegun := started_counts hrun hn
  have hstarts := starts_le hrun k ((s.module j).fiber a).replyReqId
  have hpos : 0 < (s.module k).trace.countP (Obs.issues ((s.module j).fiber a).replyReqId) := by omega
  obtain ⟨x, hx, -⟩ := List.countP_pos_iff.mp hpos
  exact inside hrun hx

/-- Every START that one module sends another names a sequence. -/
theorem starts_named {tbl : List Reg} {s : Sys} (hrun : Reaches Conserving tbl s) (j : Nat) :
    ∀ e ∈ (s.module j).queue, e.type = .start → ∀ q, e.requester = .module q →
      e.seqIdx < (s.module j).nrSeq := by
  revert j
  refine hrun.invariant (P := fun s => ∀ j, ∀ e ∈ (s.module j).queue, e.type = .start → ∀ q,
    e.requester = .module q → e.seqIdx < (s.module j).nrSeq) (fun j e he => absurd he List.not_mem_nil) ?_
  intro s a s' _ ih hok hstep j e he htype q hq
  rw [(Sys.step_fixed hstep j).2]
  cases (Sys.step_delta hstep).1 with
  | @move i act eff m' hact _ hmove hmodules =>
      have hold : ∀ e ∈ (Function.update s.module i m' j).queue, e ∈ (s.module j).queue := by
        by_cases hj : j = i
        · subst hj
          rw [Function.update_self]
          exact hmove.queue_subset
        · rw [Function.update_of_ne hj]
          exact fun _ h => h
      rw [hmodules] at he
      rcases delivered_apply s.ctx.nrModule (Function.update s.module i m') eff j with h | ⟨e', rfl, -, h⟩
      · rw [h] at he
        exact ih j e (hold e he) htype q hq
      · rw [h] at he
        rcases Module.mem_enqueue he with he | rfl
        · exact ih j e (hold e he) htype q hq
        · obtain ⟨c, now, id, ok, rfl, htarget⟩ := hmove.posted_start htype
          obtain rfl := localAct_call ((hact i).trans (if_pos rfl))
          exact (hok.2 _ htarget).2
  | @request d seq rid msg ok _ hmodules =>
      rw [hmodules] at he
      rcases delivered_apply s.ctx.nrModule s.module
        (.post d (makeEv .start seq rid .external .ignore msg ok)) j with h | ⟨e', heff, -, h⟩
      · rw [h] at he
        exact ih j e he htype q hq
      · rw [h] at he
        rcases Module.mem_enqueue he with he | rfl
        · exact ih j e he htype q hq
        · have he' := (Effect.post.inj heff).2
          unfold makeEv at he'
          split at he'
          · obtain rfl := Option.some.inj he'
            cases hq
          · cases he'
  | idle _ hmodules =>
      rw [hmodules] at he
      exact ih j e he htype q hq

/-- The requests of the modules and what carries them. -/
structure Conserved (s : Sys) : Prop where
  bound : ∀ q r, s.carriers q r ≤ (s.module q).trace.countP (Obs.issues r)
  carried : ∀ q r, Registered (s.module q) r → s.carriers q r = 1

theorem issues_mono {s s' : Sys} {a : Act} (hstep : s.step a = some s') (q r : Nat) :
    (s.module q).trace.countP (Obs.issues r) ≤ (s'.module q).trace.countP (Obs.issues r) := by
  obtain ⟨xs, hxs⟩ := Sys.step_grows hstep q
  rw [hxs, List.countP_append]
  exact Nat.le_add_right _ _

theorem registered_delivered {n : Nat} {modules : Nat → Module} {eff : Effect} {q r : Nat} :
    Registered (delivered n modules eff q) r ↔ Registered (modules q) r := by
  rcases delivered_apply n modules eff q with heq | ⟨e, -, -, heq⟩
  · rw [heq]
  · rw [heq]
    rfl

/-- The carriers after a move of module `i`: its own change, and what its effect carries. -/
theorem carriers_move {s s' : Sys} {i : Nat} {m' : Module} {eff : Effect} (hi : i < s.ctx.nrModule)
    (hnr : s'.ctx.nrModule = s.ctx.nrModule)
    (hmodules : s'.module = delivered s.ctx.nrModule (Function.update s.module i m') eff) (q r : Nat) :
    s'.carriers q r + (s.module i).carriers q r i =
      s.carriers q r + m'.carriers q r i + eff.load s.ctx.nrModule (carries q r) := by
  have hupdate := Tally.total_update (w := Module.carriers q r) (f := s.module) hi m'
  rw [Sys.carriers, Sys.carriers, hnr, hmodules, total_delivered (w := Module.carriers q r) carriers_enqueue]
  omega

/-- The START of an external request carries nothing. -/
theorem carriers_request {s s' : Sys} {d seq rid : Nat} {msg : Bytes} {ok : Alloc}
    (hnr : s'.ctx.nrModule = s.ctx.nrModule)
    (hmodules : s'.module = delivered s.ctx.nrModule s.module
      (.post d (makeEv .start seq rid .external .ignore msg ok))) (q r : Nat) :
    s'.carriers q r = s.carriers q r := by
  have hexternal : ∀ d e, e.type = .start → e.requester = .external → carries q r d e = 0 :=
    fun d e htype he => by simp [carries, Ev.startsFor, Ev.repliesTo, htype, he]
  rw [Sys.carriers, Sys.carriers, hnr, hmodules, total_delivered (w := Module.carriers q r) carriers_enqueue,
    load_external hexternal]
  rfl

theorem conserved_move {s s' : Sys} {i : Nat} {m' : Module} {eff : Effect} (h : Conserved s)
    (hi : i < s.ctx.nrModule) (hnr : s'.ctx.nrModule = s.ctx.nrModule)
    (hmodules : s'.module = delivered s.ctx.nrModule (Function.update s.module i m') eff)
    (hissues : ∀ q r, (s.module q).trace.countP (Obs.issues r) ≤ (s'.module q).trace.countP (Obs.issues r))
    (hcarried : ∀ q r, Carried s.ctx.nrModule i q r (s.module i) eff m') (hledger : Ledger (s'.module i)) :
    Conserved s' := by
  have hline : ∀ {r e}, Obs.issues r (.arrived e) = false := rfl
  have hcount : ∀ r, m'.trace.countP (Obs.issues r) = (s'.module i).trace.countP (Obs.issues r) := by
    intro r
    rw [hmodules, delivered_count fun _ => hline, Function.update_self]
  refine ⟨fun q r => ?_, fun q r hreg => ?_⟩
  · have hbound := h.bound q r
    have hs := carriers_move hi hnr hmodules q r
    have hgrow := hissues q r
    cases hcarried q r with
    | kept hc _ => omega
    | answered hc _ _ => omega
    | issued hc hiq hissue =>
        subst hiq
        have hnew := hcount r
        omega
  · have hbound := h.bound q r
    have hs := carriers_move hi hnr hmodules q r
    rw [hmodules, registered_delivered] at hreg
    cases hcarried q r with
    | kept hc hregistered =>
        have hold : Registered (s.module q) r := by
          by_cases hiq : q = i
          · subst hiq
            rw [Function.update_self] at hreg
            exact hregistered rfl hreg
          · rwa [Function.update_of_ne hiq] at hreg
        have hone := h.carried q r hold
        omega
    | answered _ hiq hgone =>
        subst hiq
        rw [Function.update_self] at hreg
        exact absurd hreg hgone
    | issued hc hiq hissue =>
        subst hiq
        have hnew := hcount r
        have hone := issues_le_one (r := r) hledger
        omega

theorem conserved_step {tbl : List Reg} {s s' : Sys} {a : Act} (hrun : Reaches Conserving tbl s)
    (h : Conserved s) (hok : Conserving s a) (hstep : s.step a = some s')
    (hledger' : ∀ j, Ledger (s'.module j)) : Conserved s' := by
  have hledger := ledger hrun (fun _ _ h i act hact => (h.1 i act hact).1.1)
  obtain ⟨hdelta, hnr⟩ := Sys.step_delta hstep
  cases hdelta with
  | @move i act eff m' hact hi hmove hmodules =>
      refine conserved_move h hi hnr hmodules (issues_mono hstep) (fun q r => ?_) (hledger' i)
      have hlocal := (hact i).trans (if_pos rfl)
      have hguard := hok.1 i act hlocal
      refine hmove.carried (hledger i) (addressed hrun i) hguard.1.2 hguard.2 ((setup_fixed hrun).2.1 i)
        (fun e he htype ho => starts_named hrun i e he htype q ho)
        (fun a ha k hto => reply_home hrun ha hto) fun c now id ok heq t ht => ?_
      subst heq
      obtain rfl := localAct_call hlocal
      exact (hok.2 t ht).1
  | @request d seq rid msg ok _ hmodules =>
      have hsame := carriers_request hnr hmodules
      refine ⟨fun q r => ?_, fun q r hreg => ?_⟩
      · rw [hsame]
        exact (h.bound q r).trans (issues_mono hstep q r)
      · rw [hmodules, registered_delivered] at hreg
        rw [hsame]
        exact h.carried q r hreg
  | idle _ hmodules =>
      have hsame : ∀ q r, s'.carriers q r = s.carriers q r := by
        intro q r
        rw [Sys.carriers, Sys.carriers, hnr, hmodules]
      refine ⟨fun q r => ?_, fun q r hreg => ?_⟩
      · rw [hsame, hmodules]
        exact h.bound q r
      · rw [hmodules] at hreg
        rw [hsame]
        exact h.carried q r hreg

theorem conserved {tbl : List Reg} {s : Sys} (hrun : Reaches Conserving tbl s) : Conserved s := by
  refine hrun.invariant (P := Conserved) ⟨fun q r => ?_, ?_⟩ ?_
  · have hzero : (boot tbl).carriers q r = 0 := Tally.total_eq_zero fun j _ => by
      simp [Module.carriers, Module.queue, boot, Sys.module, Module.boot]
    rw [hzero]
    exact Nat.zero_le _
  · rintro q r ⟨p, hp, -⟩
    cases hp
  · intro s a s' hrun ih hok hstep
    exact conserved_step hrun ih hok hstep
      (ledger (hrun.tail hok hstep) fun _ _ h i act hact => (h.1 i act hact).1.1)

/-- In every run in which ids and memory do not run out, requests name what exists and every sequence
replies once, each pending entry has exactly one carrier. -/
theorem request_carried {tbl : List Reg} {s : Sys} (hrun : Reaches Conserving tbl s) {q : Nat} {p : Pending}
    (hp : p ∈ (s.module q).pending) : s.carriers q p.reqId = 1 :=
  (conserved hrun).carried q p.reqId ⟨p, hp, rfl⟩

/-- Of three requests the first has been replied to, the second is being served, the third waits. -/
def threeRequestsRun : List Act :=
  [.requestAsync 0 0 0 [], .asyncPost 0 .granted, .thread 0, .thread 0, .thread 0, .thread 0,
    .fiber 0 (.requestAsync 1 0 []), .fiber 0 (.requestAsync 1 0 []), .fiber 0 (.requestAsync 1 0 []),
    .thread 1, .thread 1, .thread 1, .thread 1, .fiber 1 (.reply .success [1]), .fiber 1 .ret,
    .thread 1, .fiber 1 (.waitTimeout 5)]

theorem threeRequestsRun_carried : ∃ s, Reaches Conserving [⟨1, false⟩, ⟨1, false⟩] s ∧
    ((s.module 0).inbox.map Ev.reqId = [1] ∧ (s.module 1).owes 0 2 1 = true ∧
      (s.module 1).batch.map Ev.reqId = [3]) ∧
    (s.module 0).pending = [⟨3, 0⟩, ⟨2, 0⟩, ⟨1, 0⟩] ∧
    s.carriers 0 1 = 1 ∧ s.carriers 0 2 = 1 ∧ s.carriers 0 3 = 1 := by
  obtain ⟨s, hrun, hs⟩ : ∃ s, Reaches Conserving [⟨1, false⟩, ⟨1, false⟩] s ∧
      decide (((s.module 0).inbox.map Ev.reqId = [1] ∧ (s.module 1).owes 0 2 1 = true ∧
        (s.module 1).batch.map Ev.reqId = [3]) ∧
        (s.module 0).pending = [⟨3, 0⟩, ⟨2, 0⟩, ⟨1, 0⟩]) = true :=
    Lts.exists_run threeRequestsRun (by decide +kernel)
  obtain ⟨hplaces, hpending⟩ := of_decide_eq_true hs
  have hcarried : ∀ r, ⟨r, 0⟩ ∈ (s.module 0).pending → s.carriers 0 r = 1 := fun r hr =>
    request_carried hrun hr
  refine ⟨s, hrun, hplaces, hpending, hcarried 1 ?_, hcarried 2 ?_, hcarried 3 ?_⟩ <;> simp [hpending]

end Coseq
