import Coseq.RequestReturns
import Coseq.SingleReply
import Coseq.UnusedIds

/-! The order in which `coseq_wait_reply` hands out replies. The replies to the async requests of a fiber wait
in the queues of the module and then in the fiber's own queue, and a reply that is deferred under the lock can be
overtaken by a later one of the same batch once the lock is free. As long as no reply of a fiber is handled while
another one of that fiber is deferred, they are handed out as they have arrived. -/

namespace Coseq

/-- A reply that `handle_reply` would give the fiber `a` as one to an async request. -/
def Module.asyncFor (m : Module) (a : FiberRef) (e : Ev) : Bool :=
  e.type == .reply && pendingPeek m.pending e.reqId == some a &&
    !((m.fiber a).waitingReply && (m.fiber a).waitReqId == e.reqId)

/-- The replies to async requests of `a` in the queues of the module. -/
def Module.inQueueFor (m : Module) (a : FiberRef) : List Nat := (m.queue.filter (m.asyncFor a)).map Ev.reqId

/-- The req_id that `coseq_wait_reply` hands out to `a`. -/
def Obs.handedOut (a : FiberRef) : Obs → Option Nat
  | .returned f .async _ _ rid _ _ => if f = a then some rid else none
  | _ => none

/-- The replies handed out to `a`, by `coseq_wait_reply` or by the loop of `coseq_gather`, in that order. -/
def handedOut (a : FiberRef) (l : List Obs) : List Nat := l.filterMap (Obs.handedOut a)

/-- The replies that have arrived in the inbox, in that order. -/
def repliesArrived (l : List Obs) : List Nat := ((accepted l).filter fun e => e.type == .reply).map Ev.reqId

/-- Every fiber is handed out its replies in the order of their arrival. -/
def InArrivalOrder (m : Module) : Prop := ∀ a, (handedOut a m.trace).Sublist (repliesArrived m.trace)

/-- A reply to an async request of a fiber is handled only while none of that fiber is deferred. -/
def NonePassedOver (m : Module) : ModAct → Prop
  | .sched .. => m.phase = .events → ∀ e ∈ m.batch.head?, Admits m e →
      ∀ a ∈ pendingPeek m.pending e.reqId, m.asyncFor a e = true → ∀ d ∈ m.deferred, m.asyncFor a d = false
  | _ => True

instance (m : Module) (act : ModAct) : Decidable (NonePassedOver m act) :=
  match act with
  | .sched .. => inferInstanceAs (Decidable (m.phase = .events → ∀ e ∈ m.batch.head?, Admits m e →
      ∀ a ∈ pendingPeek m.pending e.reqId, m.asyncFor a e = true → ∀ d ∈ m.deferred, m.asyncFor a d = false))
  | .call .. | .stop => .isTrue trivial

/-- No reply is passed over, and requests take unused ids. -/
def InOrder (m : Module) (act : ModAct) : Prop := NonePassedOver m act ∧ OnceWrapped NextUnused m act

instance (m : Module) (act : ModAct) : Decidable (InOrder m act) := inferInstanceAs (Decidable (_ ∧ _))

/-! ### The line of replies -/

section Filter

variable {α : Type*} {l l' : List α} {p p' : α → Bool}

theorem filter_sublist_filter (hl : l'.Sublist l) (hp : ∀ x ∈ l', p' x = true → p x = true) :
    (l'.filter p').Sublist (l.filter p) := by
  have hboth : l'.filter p' = (l'.filter p).filter p' := by
    rw [List.filter_filter]
    refine List.filter_congr fun x hx => ?_
    cases hpx : p' x with
    | false => simp
    | true => simp [hp x hx hpx]
  rw [hboth]
  exact List.filter_sublist.trans (hl.filter p)

end Filter

/-- The replies of each fiber, handed out, in its own queue or in the queues of the module, stand in the order
of their arrival. -/
structure Lined (m : Module) : Prop where
  distinct : Distinct m.pending
  line : ∀ a, (handedOut a m.trace ++ ((m.fiber a).rq.map ReplyRec.reqId ++ m.inQueueFor a)).Sublist
    (repliesArrived m.trace)

theorem asyncFor_iff {m : Module} {a : FiberRef} {e : Ev} : m.asyncFor a e = true ↔
    e.type = .reply ∧ pendingPeek m.pending e.reqId = some a ∧
      ¬((m.fiber a).waitingReply = true ∧ (m.fiber a).waitReqId = e.reqId) := by
  simp only [Module.asyncFor, Bool.and_eq_true, beq_iff_eq, Bool.not_eq_true', and_assoc, Bool.eq_false_iff, ne_eq]

/-- The id stays pending for the fiber, and a fiber that waited for it still does. -/
theorem asyncFor_of {m m' : Module} {a : FiberRef} {e : Ev}
    (h : pendingPeek m'.pending e.reqId = some a → pendingPeek m.pending e.reqId = some a ∧
      ((m.fiber a).waitingReply = true → (m.fiber a).waitReqId = e.reqId →
        (m'.fiber a).waitingReply = true ∧ (m'.fiber a).waitReqId = e.reqId)) :
    m'.asyncFor a e = true → m.asyncFor a e = true := by
  intro hasync
  obtain ⟨htype, hpeek, hnot⟩ := asyncFor_iff.mp hasync
  obtain ⟨hpeek', hwait⟩ := h hpeek
  exact asyncFor_iff.mpr ⟨htype, hpeek', fun hsync => hnot (hwait hsync.1 hsync.2)⟩

theorem peek_take {l : List Pending} {r w : Nat} {a : FiberRef} (h : Distinct l)
    (hpeek : pendingPeek (pendingTake l w) r = some a) : pendingPeek l r = some a ∧ r ≠ w := by
  obtain ⟨hmem, hne⟩ := h.mem_take.mp (mem_of_peek hpeek)
  exact ⟨h.peek_iff.mpr hmem, hne⟩

theorem rq_update {fiber : FiberRef → Fiber} {b : FiberRef} {f : Fiber} (h : f.rq = (fiber b).rq) (a : FiberRef) :
    (Function.update fiber b f a).rq = (fiber a).rq :=
  Fiber.update_related (R := fun g g' => g'.rq = g.rq) (fun _ => rfl) h a

/-! ### History lines -/

theorem wakeObs_handedOut {f f' : Fiber} {a : FiberRef} {why : Wake} (hwaits : f.Waits)
    (hany : f.waitingAny = false) (hctx : f'.ctx = f.ctx) : ∀ x ∈ f'.wakeObs a why, ∀ b, x.handedOut b = none := by
  intro x hx b
  rw [Fiber.wakeObs, hctx] at hx
  cases hwaits with
  | request h =>
      rw [h] at hx
      simp only [List.mem_cons, List.not_mem_nil, or_false] at hx
      rcases hx with rfl | rfl <;> rfl
  | timed h =>
      rw [h] at hx
      simp only [List.mem_cons, List.not_mem_nil, or_false] at hx
      rcases hx with rfl | rfl <;> rfl
  | waitReply _ _ _ h =>
      rw [hany] at h
      cases h
  | waitTimeout h =>
      rw [h] at hx
      obtain rfl := List.mem_singleton.mp hx
      rfl

theorem EnterWait.handedOut {f f' : Fiber} {a : FiberRef} {c : Call} {obs : List Obs} {g : Bool}
    (h : EnterWait f a c f' obs g) : ∀ x ∈ obs, ∀ b, x.handedOut b = none := by
  intro x hx b
  obtain rfl := h.mem hx
  rfl

theorem NullReturn.handedOut {f f' : Fiber} {a : FiberRef} {obs : List Obs} {g : Bool}
    (h : NullReturn f a g f' obs) : ∀ x ∈ obs, ∀ b, x.handedOut b = none := by
  intro x hx b
  rcases h.mem hx with rfl | ⟨_, rfl⟩ <;> rfl

theorem issueObs_handedOut {m : Module} {a : FiberRef} {kind : ReqKind} {i s : Nat} {ok : Alloc} :
    ∀ x ∈ issueObs m a kind i s ok, ∀ b, x.handedOut b = none := by
  intro x hx b
  rcases issueObs_mem hx with rfl | rfl <;> rfl

theorem Dropped.handedOut {m : Module} {e : Ev} {ok : Alloc} {obs : List Obs} (h : Dropped m e ok obs) :
    ∀ x ∈ obs, ∀ b, x.handedOut b = none := by
  intro x hx b
  rcases h.mem hx with rfl | rfl <;> rfl

theorem Ev.beginObs_handedOut {e : Ev} {a : FiberRef} : ∀ x ∈ [e.beginObs a], ∀ b, x.handedOut b = none := by
  intro x hx b
  obtain rfl := List.mem_singleton.mp hx
  unfold Ev.beginObs
  split <;> rfl

theorem handedOut_nil {a : FiberRef} {xs : List Obs} (hxs : ∀ x ∈ xs, ∀ b, x.handedOut b = none) :
    handedOut a xs = [] := List.filterMap_eq_nil_iff.mpr fun x hx => hxs x hx a

/-- A call hands out what it takes from the fiber's queue. -/
theorem LocalCall.handedOut {m : Module} {a : FiberRef} {now : Timespec} {ok : Alloc} {c : Call} {f : Fiber}
    {obs : List Obs} {cur : Option FiberRef} {eff : Effect} (h : LocalCall m a now ok c f obs cur eff) :
    Coseq.handedOut a obs ++ f.rq.map ReplyRec.reqId = (m.fiber a).rq.map ReplyRec.reqId ∧
      ∀ b, b ≠ a → Coseq.handedOut b obs = [] := by
  cases h with
  | @null c f f' obs obs' g henter _ _ hnull =>
      obtain ⟨_, hf⟩ := henter.same
      obtain ⟨_, rfl⟩ := hnull.same
      have hout : ∀ x ∈ obs ++ obs', ∀ b, x.handedOut b = none := fun x hx =>
        (List.mem_append.mp hx).elim (henter.handedOut x) (hnull.handedOut x)
      exact ⟨by rw [handedOut_nil hout, hf]; rfl, fun b _ => handedOut_nil hout⟩
  | @queued c f obs g rr rest henter hrq =>
      obtain ⟨_, hf⟩ := henter.same
      have hrq' : (m.fiber a).rq = rr :: rest := by
        rw [hf] at hrq
        exact hrq
      refine ⟨?_, fun b hb => ?_⟩
      · rw [Coseq.handedOut, List.filterMap_append, ← Coseq.handedOut, handedOut_nil henter.handedOut, hrq']
        simp [Obs.handedOut, Fiber.dequeued, Fiber.setSrc]
      · rw [Coseq.handedOut, List.filterMap_append, ← Coseq.handedOut, handedOut_nil henter.handedOut]
        simp [Obs.handedOut, Ne.symm hb]
  | park henter _ _ =>
      obtain ⟨_, rfl⟩ := henter.same
      exact ⟨by rw [handedOut_nil henter.handedOut]; rfl, fun b _ => handedOut_nil henter.handedOut⟩
  | _ => exact ⟨rfl, fun _ _ => rfl⟩

theorem AtHead.rest_sublist {m : Module} {e : Ev} {rest : List Ev} (h : AtHead m e rest) :
    (m.deferred ++ rest ++ m.inbox).Sublist m.queue := by
  rw [h.queue, List.append_assoc]
  exact (List.Sublist.refl _).append (List.sublist_cons_self _ _)

/-! ### Moves -/

namespace Lined

variable {m m' : Module} {xs : List Obs}

/-- What a step hands out comes from the front of the line. -/
theorem keep (h : Lined m) (hdistinct : Distinct m'.pending) (haccepted : accepted m'.trace = accepted m.trace)
    (htrace : m'.trace = m.trace ++ xs)
    (hline : ∀ a, (handedOut a xs ++ ((m'.fiber a).rq.map ReplyRec.reqId ++ m'.inQueueFor a)).Sublist
      ((m.fiber a).rq.map ReplyRec.reqId ++ m.inQueueFor a)) : Lined m' := by
  refine ⟨hdistinct, fun a => ?_⟩
  have harrived : repliesArrived m'.trace = repliesArrived m.trace := by
    rw [repliesArrived, haccepted, repliesArrived]
  have hout : handedOut a m'.trace = handedOut a m.trace ++ handedOut a xs := by
    rw [htrace, handedOut, List.filterMap_append]
    rfl
  rw [harrived, hout, List.append_assoc]
  exact ((List.Sublist.refl _).append (hline a)).trans (h.line a)

/-- A step that hands out nothing and brings no reply to any fiber. -/
theorem quiet (h : Lined m) (hdistinct : Distinct m'.pending) (haccepted : accepted m'.trace = accepted m.trace)
    (htrace : m'.trace = m.trace ++ xs) (hxs : ∀ x ∈ xs, ∀ a, x.handedOut a = none)
    (hrq : ∀ a, (m'.fiber a).rq = (m.fiber a).rq) (hqueue : m'.queue.Sublist m.queue)
    (hasync : ∀ a, ∀ e ∈ m'.queue, m'.asyncFor a e = true → m.asyncFor a e = true) : Lined m' := by
  refine h.keep hdistinct haccepted htrace fun a => ?_
  have hnone : handedOut a xs = [] := List.filterMap_eq_nil_iff.mpr fun x hx => hxs x hx a
  rw [hnone, List.nil_append, hrq a]
  exact (List.Sublist.refl _).append ((filter_sublist_filter hqueue (hasync a)).map _)

theorem boot (i : Nat) (reg : Reg) : Lined (Module.boot i reg) := ⟨distinct_nil, fun _ => List.Sublist.refl _⟩

theorem enqueue (h : Lined m) (e : Ev) : Lined (m.enqueue e) := by
  refine ⟨h.distinct, fun a => ?_⟩
  have hout : handedOut a (m.enqueue e).trace = handedOut a m.trace := by
    rw [handedOut, Module.enqueue, List.filterMap_append]
    exact List.append_nil _
  have hqueue : (m.enqueue e).inQueueFor a =
      m.inQueueFor a ++ ([{ e with serial := m.posted }].filter (m.asyncFor a)).map Ev.reqId := by
    have hlist : (m.enqueue e).queue = m.queue ++ [{ e with serial := m.posted }] := by
      simp [Module.queue, Module.enqueue]
    rw [Module.inQueueFor, hlist, List.filter_append, List.map_append]
    rfl
  have harrived : repliesArrived (m.enqueue e).trace = repliesArrived m.trace ++
      ([{ e with serial := m.posted }].filter fun e => e.type == .reply).map Ev.reqId := by
    rw [repliesArrived, m.accepted_enqueue, List.filter_append, List.map_append]
    rfl
  change (handedOut a (m.enqueue e).trace ++ ((m.fiber a).rq.map ReplyRec.reqId ++ _)).Sublist _
  rw [hout, hqueue, harrived, ← List.append_assoc, ← List.append_assoc, List.append_assoc (handedOut a m.trace)]
  refine (h.line a).append ((filter_sublist_filter (List.Sublist.refl _) fun x _ hx => ?_).map _)
  simpa using (asyncFor_iff.mp hx).1

/-- A move that takes no entry of the pending list and no wait from a fiber. -/
theorem still (h : Lined m) (hmove : accepted m'.trace = accepted m.trace) (htrace : m'.trace = m.trace ++ xs)
    (hxs : ∀ x ∈ xs, ∀ a, x.handedOut a = none) (hrq : ∀ a, (m'.fiber a).rq = (m.fiber a).rq)
    (hpending : m'.pending = m.pending) (hqueue : m'.queue.Sublist m.queue)
    (hwait : ∀ a, (m.fiber a).KeepsWait (m'.fiber a)) : Lined m' := by
  refine h.quiet (hpending ▸ h.distinct) hmove htrace hxs hrq hqueue fun a e _ => asyncFor_of fun hpeek => ?_
  refine ⟨hpending ▸ hpeek, fun hw hid => ?_⟩
  obtain ⟨hw', hid'⟩ := hwait a hw
  exact ⟨hw', hid'.trans hid⟩

/-- What the pending list loses with the entry `w`. -/
theorem asyncFor_take (h : Lined m) {w : Nat} {a : FiberRef} {e : Ev} (hasync : m'.asyncFor a e = true)
    (hpending : m'.pending = pendingTake m.pending w)
    (hwait : ∀ a, (m.fiber a).KeepsWait (m'.fiber a) ∨
      ((m.fiber a).waitingReply = true → (m.fiber a).waitReqId = w)) : m.asyncFor a e = true := by
  refine asyncFor_of (fun hpeek => ?_) hasync
  rw [hpending] at hpeek
  obtain ⟨hold, hne⟩ := peek_take h.distinct hpeek
  refine ⟨hold, fun hw hid => ?_⟩
  rcases hwait a with hkeeps | hother
  · exact (hkeeps hw).imp id fun h => h.trans hid
  · exact absurd (hid.symm.trans (hother hw)) hne

theorem merged (h : Lined m) (hmodes : Modes m) {inbox deferred : List Ev} (hmerge : Merged m inbox deferred)
    {m' : Module} (htrace : m'.trace = m.trace) (hfiber : m'.fiber = m.fiber) (hpending : m'.pending = m.pending)
    (hqueue : m'.queue = deferred ++ inbox) : Lined m' := by
  obtain ⟨hbatch, hlist⟩ := hmerge.queue hmodes
  refine h.still (by rw [htrace]) (htrace.trans (List.append_nil _).symm) (by simp) (fun a => by rw [hfiber])
    hpending ?_ fun a => by rw [hfiber]; exact fun hw => ⟨hw, rfl⟩
  rw [hqueue, hlist, Module.queue, hbatch, List.append_nil]

/-- The head of the batch goes to its fiber, no other reply of the fiber being deferred. -/
theorem serve (h : Lined m) {e : Ev} {rest : List Ev} {a : FiberRef} (hhead : AtHead m e rest)
    (hasync : m.asyncFor a e = true) (hnone : ∀ d ∈ m.deferred, m.asyncFor a d = false)
    (hpending : m'.pending = pendingTake m.pending e.reqId) (hqueue : m'.queue = m.deferred ++ (rest ++ m.inbox))
    (haccepted : accepted m'.trace = accepted m.trace) (htrace : m'.trace = m.trace ++ xs)
    (hwait : ∀ b, (m.fiber b).KeepsWait (m'.fiber b))
    (hout : handedOut a xs ++ (m'.fiber a).rq.map ReplyRec.reqId = (m.fiber a).rq.map ReplyRec.reqId ++ [e.reqId])
    (hother : ∀ b, b ≠ a → handedOut b xs = [] ∧ (m'.fiber b).rq = (m.fiber b).rq) : Lined m' := by
  have hle : ∀ b d, m'.asyncFor b d = true → m.asyncFor b d = true := fun b d hd =>
    h.asyncFor_take hd hpending fun b => .inl (hwait b)
  refine h.keep (hpending ▸ h.distinct.take) haccepted htrace fun b => ?_
  by_cases hb : b = a
  · subst hb
    have hdeferred : m.deferred.filter (m.asyncFor b) = [] :=
      List.filter_eq_nil_iff.mpr fun d hd => by simp [hnone d hd]
    have hfront : m.inQueueFor b = e.reqId :: ((rest ++ m.inbox).filter (m.asyncFor b)).map Ev.reqId := by
      rw [Module.inQueueFor, hhead.queue, List.filter_append, hdeferred, List.nil_append,
        List.filter_cons_of_pos hasync, List.map_cons]
    have hrest : (m'.inQueueFor b).Sublist (((rest ++ m.inbox).filter (m.asyncFor b)).map Ev.reqId) := by
      have hle' : (m'.queue.filter (m'.asyncFor b)).Sublist
          ((m.deferred ++ (rest ++ m.inbox)).filter (m.asyncFor b)) :=
        filter_sublist_filter (hqueue ▸ List.Sublist.refl _) fun x _ => hle b x
      rw [List.filter_append, hdeferred, List.nil_append] at hle'
      exact hle'.map _
    rw [← List.append_assoc, hout, hfront, List.append_assoc]
    exact (List.Sublist.refl _).append (hrest.cons_cons _)
  · obtain ⟨hnil, hrq⟩ := hother b hb
    rw [hnil, List.nil_append, hrq]
    refine (List.Sublist.refl _).append ((filter_sublist_filter ?_ fun x _ => hle b x).map _)
    rw [hqueue, hhead.queue]
    exact (List.Sublist.refl _).append (List.sublist_cons_self _ _)

/-- A resumption that is not the delivery of an async reply, and the pending entry `w` that it may take. -/
theorem woken (h : Lined m) {a : FiberRef} {f : Fiber} {why : Wake} {w : Nat} (hcur : m.current = none)
    (hmodes : Modes m) (hflag : (m.fiber a).waitingReply = true ∨ (m.fiber a).waitingTimer = true)
    (hw : (m.fiber a).waitingReply = true → (m.fiber a).waitReqId = w) (hctx : f.ctx = (m.fiber a).ctx)
    (hrq : f.rq = (m.fiber a).rq) {n : Module} (hfiber : n.fiber = m.fiber)
    (hpending : n.pending = pendingTake m.pending w ∨ (m.fiber a).waitingReply = false ∧ n.pending = m.pending)
    (htrace : n.trace = m.trace) (hqueue : n.queue.Sublist m.queue) : Lined (n.resumed a f why) := by
  obtain ⟨-, hwaits⟩ := hmodes.waits hcur (hflag.imp id .inl)
  have hxs : ∀ x ∈ f.wakeObs a why, ∀ b, x.handedOut b = none :=
    wakeObs_handedOut hwaits (hwaits.not_any hflag) hctx
  have htrace' : (n.resumed a f why).trace = m.trace ++ f.wakeObs a why := by rw [Module.resumed, htrace]
  have haccepted : accepted (n.resumed a f why).trace = accepted m.trace := by
    rw [htrace']
    exact accepted_append accepted_wakeObs
  have hfiber' : (n.resumed a f why).fiber = Function.update m.fiber a f.wake := by rw [Module.resumed, hfiber]
  have hrq' : ∀ b, ((n.resumed a f why).fiber b).rq = (m.fiber b).rq := by
    rw [hfiber']
    exact rq_update (f := f.wake) hrq
  rcases hpending with hpending | ⟨hidle, hpending⟩
  · have hdistinct : Distinct (n.resumed a f why).pending := hpending ▸ h.distinct.take
    refine h.quiet hdistinct haccepted htrace' hxs hrq' hqueue fun b e _ hasync =>
      h.asyncFor_take hasync hpending fun b => ?_
    rw [hfiber']
    by_cases hb : b = a
    · exact .inr (hb ▸ hw)
    · rw [Function.update_of_ne hb]
      exact .inl fun hw => ⟨hw, rfl⟩
  · refine h.still haccepted htrace' hxs hrq' hpending hqueue ?_
    rw [hfiber']
    exact Fiber.keepsWait_update (Fiber.keepsWait_idle hidle)

/-- A request brings no old reply to its fiber. -/
theorem issue (h : Lined m) (hmodes : Modes m) {a : FiberRef} {kind : ReqKind} {i s : Nat} {ok : Alloc}
    (hcur : m.current = some a) (hunused : kind.awaited = true → NextUnused m) {n : Nat} {cur : Option FiberRef} :
    Lined { m with
      nextReqId := n
      pending := issuePending m a kind ok
      fiber := Function.update m.fiber a ((m.fiber a).issued kind m.reqId)
      current := cur
      trace := m.trace ++ issueObs m a kind i s ok } := by
  obtain ⟨-, -, hidle, -⟩ := hmodes.running a hcur
  have hrq : ((m.fiber a).issued kind m.reqId).rq = (m.fiber a).rq := by cases kind <;> rfl
  refine h.quiet (h.distinct.issue fun hawaited => (hunused hawaited).1)
    (accepted_append fun x hx => (issueObs_ofCall x hx).accepted) rfl issueObs_handedOut (rq_update hrq)
    (List.Sublist.refl _) fun b e he hasync => ?_
  obtain ⟨htype, -, -⟩ := asyncFor_iff.mp hasync
  refine asyncFor_of (fun hpeek => ?_) hasync
  refine ⟨?_, fun hw hid => ?_⟩
  · rcases mem_issuePending (mem_of_peek hpeek) with ⟨hnew, hawaited⟩ | hold
    · exact absurd (congrArg Pending.reqId hnew) ((hunused hawaited).2 e he htype)
    · exact h.distinct.peek_iff.mpr hold
  · obtain ⟨hw', hid'⟩ := Fiber.keepsWait_update (f := (m.fiber a).issued kind m.reqId)
      (Fiber.keepsWait_idle hidle.reply) b hw
    exact ⟨hw', hid'.trans hid⟩

theorem local_call (h : Lined m) (hmodes : Modes m) {a : FiberRef} {now : Timespec} {ok : Alloc} {c : Call}
    {f : Fiber} {ncs : List NotifyClient} {obs : List Obs} {cur : Option FiberRef} {eff : Effect}
    (hcur : m.current = some a) (hcall : LocalCall m a now ok c f obs cur eff) :
    Lined { m with
      notifyClients := ncs
      fiber := Function.update m.fiber a f
      current := cur
      trace := m.trace ++ obs } := by
  obtain ⟨-, -, hidle, -⟩ := hmodes.running a hcur
  obtain ⟨hself, hother⟩ := hcall.handedOut
  refine h.keep h.distinct (accepted_append fun x hx => (hcall.ofCall x hx).accepted) rfl fun b => ?_
  have hqueue : (List.filter (Module.asyncFor { m with
      notifyClients := ncs, fiber := Function.update m.fiber a f, current := cur, trace := m.trace ++ obs } b)
      m.queue).Sublist (m.queue.filter (m.asyncFor b)) := by
    refine filter_sublist_filter (List.Sublist.refl _) fun e _ => asyncFor_of fun hpeek => ?_
    refine ⟨hpeek, fun hw hid => ?_⟩
    obtain ⟨hw', hid'⟩ := Fiber.keepsWait_update (f := f) (Fiber.keepsWait_idle hidle.reply) b hw
    exact ⟨hw', hid'.trans hid⟩
  rw [← List.append_assoc]
  refine List.Sublist.append ?_ (hqueue.map _)
  dsimp only
  by_cases hb : b = a
  · subst hb
    rw [Function.update_self, hself]
  · rw [Function.update_of_ne hb, hother b hb]
    exact List.Sublist.refl _

theorem move {act : ModAct} {eff : Effect} (h : Lined m) (hmodes : Modes m) (hok : NonePassedOver m act)
    (hunused : ∀ c now id ok kind i s msg, act = .call c now id ok → Issues now c kind i s msg →
      kind.awaited = true → NextUnused m) (hmove : Move m act eff m') : Lined m' := by
  have haccepted := hmove.accepted.1
  have hkeep : ∀ a, (m.fiber a).KeepsWait (m.fiber a) := fun a hw => ⟨hw, rfl⟩
  have hnil : m.trace = m.trace ++ [] := (List.append_nil _).symm
  have hsame : ∀ a, (m.fiber a).rq = (m.fiber a).rq := fun _ => rfl
  cases hmove with
  | park hcur hphase hmerge hempty =>
      exact h.merged hmodes hmerge rfl rfl rfl
        (by simp only [Module.queue, (hmerge.queue hmodes).1, List.append_nil])
  | halt hcur hmerge hstop =>
      exact h.merged hmodes hmerge rfl rfl rfl
        (by simp only [Module.queue, (hmerge.queue hmodes).1, List.append_nil])
  | take hcur hmerge => exact h.merged hmodes hmerge rfl rfl rfl (by simp [Module.queue])
  | pass hcur hpass => exact h.still rfl hnil (by simp) hsame rfl (List.Sublist.refl _) hkeep
  | fire hcur hphase _ htimer _ hreply =>
      exact h.woken hcur hmodes (.inr htimer) (fun _ => rfl) rfl rfl rfl (.inr ⟨hreply, rfl⟩) rfl
        (List.Sublist.refl _)
  | @expire now t ok a rest hcur hphase _ htimer _ hreply =>
      exact h.woken (n := { m with
        phase := .timers t rest
        pending := pendingTake m.pending (m.fiber a).waitReqId }) (f := (m.fiber a).timedOut ok) hcur hmodes
        (.inr htimer) (fun _ => rfl) rfl rfl rfl (.inl rfl) rfl (List.Sublist.refl _)
  | @defer now ok e rest hcur hhead _ =>
      have hlined : ∀ a, Module.inQueueFor { m with batch := rest, deferred := m.deferred ++ [e] } a =
          m.inQueueFor a := by
        intro a
        rw [Module.inQueueFor, Module.inQueueFor, hhead.queue]
        simp only [Module.queue, List.append_assoc, List.singleton_append]
        rfl
      exact h.keep h.distinct rfl hnil fun a => by rw [hlined]; exact List.Sublist.refl _
  | drop hcur hhead _ hdrop =>
      exact h.still haccepted rfl hdrop.handedOut hsame rfl hhead.rest_sublist hkeep
  | @begin now ok e rest hcur hhead _ _ _ =>
      have hblank := hmodes.unborn m.nextFiber (Nat.le_refl _)
      have hidle : (m.fiber m.nextFiber).waitingReply = false := by rw [hblank]; rfl
      have hrq : (e.fiber ok).rq = (m.fiber m.nextFiber).rq := by
        rw [hblank]
        unfold Ev.fiber
        split <;> rfl
      exact h.still haccepted rfl Ev.beginObs_handedOut (rq_update hrq) rfl hhead.rest_sublist
        (Fiber.keepsWait_update (Fiber.keepsWait_idle hidle))
  | undefined hcur hhead =>
      exact h.quiet h.distinct.take haccepted rfl (by simp [Obs.handedOut]) hsame hhead.rest_sublist
        fun a e _ hasync => h.asyncFor_take hasync rfl fun b => .inl (hkeep b)
  | @wake now ok e rest a hcur hhead hadmits htype hpeek halive hwait =>
      by_cases hsync : (m.fiber a).waitingReply = true ∧ (m.fiber a).waitReqId = e.reqId
      · exact h.woken (n := { m with batch := rest, pending := pendingTake m.pending e.reqId })
          (f := (m.fiber a).answered e ok) hcur hmodes (.inl hsync.1) (fun _ => hsync.2) rfl rfl rfl (.inl rfl) rfl
          hhead.rest_sublist
      · have hany := hwait.resolve_left hsync
        obtain ⟨-, hwaits⟩ := hmodes.waits hcur (.inr (.inr hany))
        obtain ⟨g, hctx, hreply, hrq⟩ := hwaits.of_any hany
        have hasync := asyncFor_iff.mpr ⟨htype, hpeek, hsync⟩
        have hobs : ((m.fiber a).answered e ok).wakeObs a .reply = [.resumed a .reply,
            .returned a .async .reply g e.reqId e.result ((m.fiber a).answered e ok).message] := by
          unfold Fiber.wakeObs
          rw [show ((m.fiber a).answered e ok).ctx = .waitReply g from hctx]
          rfl
        refine h.serve hhead hasync
          (hok hhead.phase e (by rw [hhead.batch]; rfl) hadmits a hpeek hasync) rfl
          (by simp only [Module.resumed, Module.queue, List.append_assoc]) haccepted rfl
          (Fiber.keepsWait_update (Fiber.keepsWait_idle hreply)) ?_ fun b hb => ⟨?_, ?_⟩
        · have hself : ((Function.update m.fiber a ((m.fiber a).answered e ok).wake) a).rq = (m.fiber a).rq := by
            rw [Function.update_self]
            rfl
          change _ ++ ((Function.update m.fiber a ((m.fiber a).answered e ok).wake) a).rq.map _ = _
          rw [hself, hrq, hobs]
          simp [handedOut, Obs.handedOut, List.filterMap_cons]
        · rw [hobs]
          simp [handedOut, Obs.handedOut, List.filterMap_cons, Ne.symm hb]
        · exact congrArg Fiber.rq (Function.update_of_ne hb _ _)
  | @queue now ok e rest a hcur hhead hadmits htype hpeek halive hbusy =>
      have hasync := asyncFor_iff.mpr ⟨htype, hpeek, hbusy.1⟩
      refine h.serve hhead hasync (hok hhead.phase e (by rw [hhead.batch]; rfl) hadmits a hpeek hasync) rfl
        (by simp only [Module.queue, List.append_assoc]) rfl hnil
        (Fiber.keepsWait_update fun hw => ⟨hw, rfl⟩) ?_ fun b hb => ⟨rfl, ?_⟩
      · simp [handedOut]
      · exact congrArg Fiber.rq (Function.update_of_ne hb _ _)
  | lose hcur hhead =>
      exact h.quiet h.distinct.take haccepted rfl (by simp [Obs.handedOut]) hsame hhead.rest_sublist
        fun a e _ hasync => h.asyncFor_take hasync rfl fun b => .inl (hkeep b)
  | reap hcur => exact h.still rfl hnil (by simp) hsame rfl (List.Sublist.refl _) hkeep
  | issue hcur hissue => exact h.issue hmodes hcur fun hawaited => hunused _ _ _ _ _ _ _ _ rfl hissue hawaited
  | «local» hcur hcall => exact h.local_call hmodes hcur hcall
  | lock hcur => exact h.still haccepted rfl (by simp [Obs.handedOut]) hsame rfl (List.Sublist.refl _) hkeep
  | unlock hcur => exact h.still haccepted rfl (by simp [Obs.handedOut]) hsame rfl (List.Sublist.refl _) hkeep
  | @ret now id ok a hcur _ =>
      exact h.still haccepted rfl (by simp [Obs.handedOut]) (rq_update rfl) rfl (List.Sublist.refl _)
        (Fiber.keepsWait_update fun hw => ⟨hw, rfl⟩)
  | stop => exact h.still rfl hnil (by simp) hsame rfl (List.Sublist.refl _) hkeep

end Lined

/-! ### Runs -/

theorem lined {ok : Sys → Act → Prop} {tbl : List Reg} {s : Sys} (hrun : Reaches ok tbl s)
    (hok : ∀ s a, ok s a → EveryModule InOrder s a) (j : Nat) : Lined (s.module j) := by
  revert j
  refine hrun.invariant (P := fun s => ∀ j, Lined (s.module j)) (fun j => Lined.boot j _) ?_
  intro s a s' hreach ih hs hstep j
  obtain ⟨m₁, hm₁, hs'⟩ := Sys.step_moved hstep j
  have hlined : Lined m₁ := by
    cases hm₁ with
    | stay => exact ih j
    | move hact hmove =>
        obtain ⟨hnone, hunused⟩ := hok s a hs j _ hact
        refine (ih j).move (modes hreach j) hnone ?_ hmove
        rintro c now id ok' kind i seq msg rfl hissue
        exact fun hawaited => hunused.holds hissue hawaited fun hlt => (next_fresh hreach hlt).1
  rcases hs' with heq | ⟨e, heq⟩
  · rw [heq]
    exact hlined
  · rw [heq]
    exact hlined.enqueue e

/-- In every run in which no reply of a fiber is handled while another one of that fiber is deferred, and
requests take unused ids, every fiber is handed out its replies as they have arrived. -/
theorem handed_out_in_order {tbl : List Reg} {s : Sys}
    (hrun : Reaches (EveryModule InOrder) tbl s) (j : Nat) :
    InArrivalOrder (s.module j) := fun a =>
  (List.sublist_append_left _ _).trans ((lined hrun (fun _ _ h => h) j).line a)

/-- A fiber waits for two replies and another one holds the lock while it waits for a third. -/
def twoRepliesRun : List Act :=
  [.requestAsync 0 0 0 [], .asyncPost 0 .granted, .thread 0, .thread 0, .thread 0, .thread 0,
    .fiber 0 (.requestAsync 1 0 []), .fiber 0 (.requestAsync 2 0 []), .fiber 0 .waitReply,
    .requestAsync 0 0 0 [], .asyncPost 0 .granted, .thread 0, .thread 0, .thread 0, .thread 0, .thread 0,
    .thread 0, .fiber 0 .lock, .fiber 0 (.request 3 0 [])]

def answeredBy (j : Nat) : List Act :=
  [.thread j, .thread j, .thread j, .thread j, .fiber j (.reply .success []), .fiber j .ret]

/-- The holder of the lock is answered last. -/
def orderedRun : List Act :=
  twoRepliesRun ++ answeredBy 1 ++ answeredBy 2 ++ answeredBy 3 ++
    [.thread 0, .thread 0, .thread 0, .thread 0, .thread 0, .thread 0, .thread 0, .thread 0, .thread 0,
      .fiber 0 .unlock, .fiber 0 (.reply .success []), .fiber 0 .ret, .thread 0, .thread 0, .thread 0, .thread 0,
      .thread 0, .thread 0, .fiber 0 .waitReply, .thread 0, .fiber 0 .waitReply]

theorem orderedRun_in_order : ∃ s,
    Reaches (EveryModule InOrder)
      [⟨1, false⟩, ⟨1, false⟩, ⟨1, false⟩, ⟨1, false⟩] s ∧
    (repliesArrived (s.module 0).trace = [1, 2, 3] ∧ handedOut 0 (s.module 0).trace = [1, 2]) ∧
    InArrivalOrder (s.module 0) := by
  obtain ⟨s, hrun, hs⟩ : ∃ s, Reaches (EveryModule InOrder)
      [⟨1, false⟩, ⟨1, false⟩, ⟨1, false⟩, ⟨1, false⟩] s ∧
      decide (repliesArrived (s.module 0).trace = [1, 2, 3] ∧ handedOut 0 (s.module 0).trace = [1, 2]) = true :=
    Lts.exists_run orderedRun (by decide +kernel)
  exact ⟨s, hrun, of_decide_eq_true hs, handed_out_in_order hrun 0⟩

/-- The holder of the lock is answered second, in one batch with the others, and gives the lock up. -/
def passedOverRun : List Act :=
  twoRepliesRun ++ answeredBy 1 ++ answeredBy 3 ++ answeredBy 2 ++
    [.thread 0, .thread 0, .thread 0, .thread 0, .thread 0, .thread 0, .thread 0, .thread 0,
      .fiber 0 .unlock, .fiber 0 (.reply .success []), .fiber 0 .ret, .thread 0, .fiber 0 .waitReply,
      .thread 0, .thread 0, .thread 0, .thread 0, .thread 0, .thread 0]

/-- The deferred reply is overtaken by the later one, every request being answered once. -/
theorem reply_overtaken : ∃ s,
    Reaches (EveryModule fun m act => RepliesOnce m act ∧ Ample m act)
      [⟨1, false⟩, ⟨1, false⟩, ⟨1, false⟩, ⟨1, false⟩] s ∧
    (repliesArrived (s.module 0).trace = [1, 3, 2] ∧ handedOut 0 (s.module 0).trace = [2, 1]) ∧
    ¬InArrivalOrder (s.module 0) := by
  obtain ⟨s, hrun, hs⟩ : ∃ s, Reaches (EveryModule fun m act => RepliesOnce m act ∧ Ample m act)
      [⟨1, false⟩, ⟨1, false⟩, ⟨1, false⟩, ⟨1, false⟩] s ∧
      decide (repliesArrived (s.module 0).trace = [1, 3, 2] ∧ handedOut 0 (s.module 0).trace = [2, 1]) = true :=
    Lts.exists_run passedOverRun (by decide +kernel)
  obtain ⟨harrived, hout⟩ := of_decide_eq_true hs
  refine ⟨s, hrun, ⟨harrived, hout⟩, fun h => ?_⟩
  have hsub := h 0
  rw [harrived, hout] at hsub
  exact absurd hsub (by decide)

end Coseq
