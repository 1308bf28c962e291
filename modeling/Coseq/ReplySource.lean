import Coseq.EventQueue

/-! Where replies come from. Every reply event on its way to a module, every queued reply record and
every result a call returns with was passed to `coseq_reply` by some fiber, together with that req_id
and that requester; only an expired deadline makes a result of its own. -/

namespace Coseq

/-- Every allocation of the step succeeds. -/
def AllocOk (_ : Module) : ModAct → Prop
  | .sched _ ok => ok.Succeeds
  | .call _ _ _ ok => ok.Succeeds
  | .stop => True

instance (m : Module) (act : ModAct) : Decidable (AllocOk m act) :=
  match act with
  | .sched _ ok | .call _ _ _ ok => inferInstanceAs (Decidable ok.Succeeds)
  | .stop => .isTrue trivial

/-- Some fiber has replied so to the request `rid` of module `j`. -/
def Sys.RepliesTo (s : Sys) (j rid : Nat) (r : Result) (msg : Bytes) : Prop :=
  ∃ i g, .replied g (.module j) rid r msg ∈ (s.module i).trace

/-- Some fiber has replied with this result; `whole` says that the message is known, too. -/
def Sys.Echoes (whole : Prop) (s : Sys) (j rid : Nat) (r : Result) (msg : Bytes) : Prop :=
  ∃ msg', s.RepliesTo j rid r msg' ∧ (whole → msg' = msg)

/-- A returned result is a reply, or the timeout of a deadline the clock has passed. -/
def Obs.Sourced (R : Nat → Result → Bytes → Prop) : Obs → Prop
  | .returned _ kind why _ rid r msg =>
      match why with
      | .reply | .queued => R rid r msg
      | .expired now => r = .reqTimeout ∧ msg = [] ∧ ∃ d, kind = .timed d ∧ tsLt now d = false
      | .timer _ => False
  | _ => True

/-- The replies a module holds or has returned are among `R`. -/
structure Sourced (R : Nat → Result → Bytes → Prop) (m : Module) : Prop where
  queue : ∀ e ∈ m.queue, e.type = .reply → R e.reqId e.result e.msg
  records : ∀ a, ∀ rr ∈ (m.fiber a).rq, R rr.reqId rr.result rr.msg
  returns : ∀ x ∈ m.trace, x.Sourced R

/-- `R` says nothing about the message. -/
def Blind (R : Nat → Result → Bytes → Prop) : Prop := ∀ rid r msg msg', R rid r msg → R rid r msg'

theorem Fiber.setSrc_message {f : Fiber} {msg : Bytes} {r : Result} {threadIdx seqIdx clientId reqId : Nat}
    {ok : Alloc} (h : ok .srcBuf = true) :
    (f.setSrc msg r threadIdx seqIdx clientId reqId ok).message = msg := by
  simp [Fiber.setSrc, Fiber.message, h]

theorem Fiber.timedOut_message (f : Fiber) (ok : Alloc) : (f.timedOut ok).message = [] := by
  simp [Fiber.timedOut, Fiber.setSrc, Fiber.message]

section Source

variable {R R' : Nat → Result → Bytes → Prop} {m m' : Module} {xs : List Obs} {a : FiberRef}

theorem Obs.Sourced.mono (hR : ∀ rid r msg, R rid r msg → R' rid r msg) {x : Obs} (h : x.Sourced R) :
    x.Sourced R' := by
  cases x with
  | returned f kind why g rid r msg =>
      cases why with
      | reply => exact hR _ _ _ h
      | queued => exact hR _ _ _ h
      | expired now => exact h
      | timer now => exact h
  | _ => trivial

namespace Sourced

theorem mono (h : Sourced R m) (hR : ∀ rid r msg, R rid r msg → R' rid r msg) : Sourced R' m where
  queue := fun e he htype => hR _ _ _ (h.queue e he htype)
  records := fun a rr hrr => hR _ _ _ (h.records a rr hrr)
  returns := fun x hx => (h.returns x hx).mono hR

/-- A step after which no more events wait and the fibers hold no more records. -/
theorem shrink (h : Sourced R m) (hqueue : ∀ e ∈ m'.queue, e ∈ m.queue)
    (hrecords : ∀ a, ∀ rr ∈ (m'.fiber a).rq, rr ∈ (m.fiber a).rq) (htrace : m'.trace = m.trace ++ xs)
    (hxs : ∀ x ∈ xs, x.Sourced R) : Sourced R m' := by
  refine ⟨fun e he => h.queue e (hqueue e he), fun a rr hrr => h.records a rr (hrecords a rr hrr),
    fun x hx => ?_⟩
  rw [htrace] at hx
  exact (List.mem_append.mp hx).elim (h.returns x) (hxs x)

theorem silent (h : Sourced R m) (hqueue : ∀ e ∈ m'.queue, e ∈ m.queue)
    (hrecords : ∀ a, ∀ rr ∈ (m'.fiber a).rq, rr ∈ (m.fiber a).rq) (htrace : m'.trace = m.trace) :
    Sourced R m' :=
  h.shrink hqueue hrecords (htrace.trans (List.append_nil _).symm) fun _ hx => absurd hx List.not_mem_nil

theorem records_update {f : Fiber} (hf : ∀ rr ∈ f.rq, rr ∈ (m.fiber a).rq) (b : FiberRef) :
    ∀ rr ∈ (Function.update m.fiber a f b).rq, rr ∈ (m.fiber b).rq :=
  Fiber.update_related (R := fun g g' => ∀ rr ∈ g'.rq, rr ∈ g.rq) (fun _ _ h => h) hf b

/-- The line of a call that returns with the source record of the resumed fiber. -/
theorem wakeObs_sourced {f : Fiber} {why : Wake}
    (hf : ∀ kind g, (f.ctx = .request kind ∨ f.ctx = .waitReply g ∧ kind = .async) →
      Obs.Sourced R (.returned a kind why g f.src.reqId f.src.result f.message)) :
    ∀ x ∈ f.wakeObs a why, x.Sourced R := by
  intro x hx
  unfold Fiber.wakeObs at hx
  split at hx
  · cases hx
  · rename_i kind hctx
    rcases List.mem_pair.mp hx with rfl | rfl
    · trivial
    · exact hf kind false (.inl hctx)
  · rename_i g hctx
    rcases List.mem_pair.mp hx with rfl | rfl
    · trivial
    · exact hf .async g (.inr ⟨hctx, rfl⟩)
  · obtain rfl := List.mem_singleton.mp hx
    trivial

theorem fire {f : Fiber} {t : Timespec} (hwaits : f.Waits) (htimer : f.waitingTimer = true)
    (hreply : f.waitingReply = false) : ∀ x ∈ f.wakeObs a (.timer t), x.Sourced R := by
  refine wakeObs_sourced fun kind g hctx => ?_
  rw [hwaits.of_timer htimer hreply] at hctx
  rcases hctx with hctx | ⟨hctx, -⟩ <;> cases hctx

theorem expire {f : Fiber} {t : Timespec} {ok : Alloc} (hwaits : f.Waits)
    (htimer : f.waitingTimer = true) (hreply : f.waitingReply = true) (hdue : tsLt t f.deadline = false) :
    ∀ x ∈ (f.timedOut ok).wakeObs a (.expired t), x.Sourced R := by
  refine wakeObs_sourced fun kind g hctx => ⟨rfl, f.timedOut_message ok, ?_⟩
  change f.ctx = .request kind ∨ f.ctx = .waitReply g ∧ kind = .async at hctx
  rw [hwaits.of_deadline htimer hreply] at hctx
  rcases hctx with hctx | ⟨hctx, -⟩
  · cases hctx
    exact ⟨f.deadline, rfl, hdue⟩
  · cases hctx

theorem local_call (h : Sourced R m) {now : Timespec} {ok : Alloc} {c : Call} {f : Fiber}
    {obs : List Obs} {cur : Option FiberRef} {eff : Effect} (hok : ok.Succeeds ∨ Blind R)
    (hcall : LocalCall m a now ok c f obs cur eff) :
    (∀ rr ∈ f.rq, rr ∈ (m.fiber a).rq) ∧ ∀ x ∈ obs, x.Sourced R := by
  have hkeep : ∀ rr ∈ (m.fiber a).rq, rr ∈ (m.fiber a).rq := fun _ hrr => hrr
  have henters : ∀ {f₁ : Fiber} {obs₁ : List Obs} {g : Bool}, EnterWait (m.fiber a) a c f₁ obs₁ g →
      ∀ x ∈ obs₁, x.Sourced R := by
    intro f₁ obs₁ g henter x hx
    obtain rfl := henter.mem hx
    trivial
  cases hcall with
  | null henter _ _ hnull =>
      refine ⟨?_, fun x hx => (List.mem_append.mp hx).elim (henters henter x) fun hx => ?_⟩
      · obtain ⟨_, rfl⟩ := henter.same
        obtain ⟨_, rfl⟩ := hnull.same
        exact hkeep
      · rcases hnull.mem hx with rfl | ⟨_, rfl⟩ <;> trivial
  | @queued _ f₁ _ g rr rest henter hrq =>
      have hrecords : f₁.rq = (m.fiber a).rq := by
        obtain ⟨_, rfl⟩ := henter.same
        rfl
      rw [hrecords] at hrq
      refine ⟨fun rr' hrr' => ?_, fun x hx => (List.mem_append.mp hx).elim (henters henter x) fun hx => ?_⟩
      · rw [hrq]
        exact List.mem_cons_of_mem _ hrr'
      · obtain rfl := List.mem_singleton.mp hx
        have hrecord := h.records a rr (by rw [hrq]; exact List.mem_cons_self)
        change R rr.reqId rr.result (f₁.dequeued rr rest ok).message
        rcases hok with hok | hblind
        · have hmessage : (f₁.dequeued rr rest ok).message = rr.msg :=
            Fiber.setSrc_message (f := { f₁ with rq := rest }) (hok .srcBuf)
          rw [hmessage]
          exact hrecord
        · exact hblind _ _ _ _ hrecord
  | park henter _ _ =>
      refine ⟨?_, henters henter⟩
      obtain ⟨_, rfl⟩ := henter.same
      exact hkeep
  | reply => exact ⟨hkeep, by simp [Obs.Sourced]⟩
  | waitTimeout => exact ⟨hkeep, by simp⟩
  | registered => exact ⟨hkeep, by simp [Obs.Sourced]⟩
  | unregistered => exact ⟨hkeep, by simp [Obs.Sourced]⟩
  | idle => exact ⟨hkeep, by simp⟩
  | notifying => exact ⟨hkeep, by simp⟩
  | notified => exact ⟨hkeep, by simp [Obs.Sourced]⟩

theorem move {act : ModAct} {eff : Effect} (h : Sourced R m) (hmodes : Modes m)
    (hok : AllocOk m act ∨ Blind R) (hmove : Move m act eff m') : Sourced R m' := by
  have hsame : ∀ a, ∀ rr ∈ (m.fiber a).rq, rr ∈ (m.fiber a).rq := fun _ _ hrr => hrr
  have hone : ∀ {x : Obs}, x.Sourced R → ∀ y ∈ [x], y.Sourced R := by
    intro x hx y hy
    obtain rfl := List.mem_singleton.mp hy
    exact hx
  have hqueue := hmove.queue_subset
  cases hmove with
  | park => exact h.silent hqueue hsame rfl
  | halt => exact h.silent hqueue hsame rfl
  | take => exact h.silent hqueue hsame rfl
  | pass => exact h.silent hqueue hsame rfl
  | fire hcur _ _ htimer _ hreply =>
      exact h.shrink hqueue (records_update fun _ hrr => hrr) rfl
        (fire (hmodes.waits hcur (.inr (.inl htimer))).2 htimer hreply)
  | expire hcur _ _ htimer hdue hreply =>
      exact h.shrink hqueue (records_update fun _ hrr => hrr) rfl
        (expire (hmodes.waits hcur (.inr (.inl htimer))).2 htimer hreply hdue)
  | defer => exact h.silent hqueue hsame rfl
  | drop _ _ _ hdrop =>
      refine h.shrink hqueue hsame rfl fun x hx => ?_
      rcases hdrop.mem hx with rfl | rfl <;> trivial
  | @begin _ ok e _ _ _ _ _ _ =>
      refine h.shrink hqueue (records_update ?_) rfl (hone ?_)
      · unfold Ev.fiber
        split <;> exact fun _ hrr => absurd hrr List.not_mem_nil
      · unfold Ev.beginObs
        split <;> trivial
  | undefined => exact h.shrink hqueue hsame rfl (hone trivial)
  | @wake _ ok e _ a _ hhead _ htype _ _ _ =>
      refine h.shrink hqueue (records_update fun _ hrr => hrr) rfl
        (wakeObs_sourced fun kind g _ => ?_)
      have hreply := h.queue e hhead.mem_queue htype
      change R e.reqId e.result ((m.fiber a).answered e ok).message
      rcases hok with hok | hblind
      · rw [Fiber.answered, Fiber.setSrc_message (hok .srcBuf)]
        exact hreply
      · exact hblind _ _ _ _ hreply
  | @queue _ ok e _ a _ hhead _ htype _ _ _ =>
      refine ⟨fun e' he' => h.queue e' (hqueue e' he'), fun b rr hrr => ?_, h.returns⟩
      by_cases hb : b = a
      · subst hb
        simp only [Function.update_self, List.mem_append, List.mem_singleton] at hrr
        rcases hrr with hrr | rfl
        · exact h.records b rr hrr
        · have hreply := h.queue e hhead.mem_queue htype
          rcases hok with hok | hblind
          · rw [hok .replyMsg]
            exact hreply
          · exact hblind _ _ _ _ hreply
      · simp only [Function.update_of_ne hb] at hrr
        exact h.records b rr hrr
  | lose => exact h.shrink hqueue hsame rfl (hone trivial)
  | reap => exact h.silent hqueue hsame rfl
  | @issue _ _ _ a _ kind _ _ _ _ _ =>
      refine h.shrink hqueue (records_update ?_) rfl fun x hx => ?_
      · cases kind <;> exact fun _ hrr => hrr
      · rcases List.mem_cons.mp hx with rfl | hx
        · trivial
        · split at hx
          · obtain rfl := List.mem_singleton.mp hx
            trivial
          · cases hx
  | «local» _ hcall =>
      obtain ⟨hrecords, hobs⟩ := h.local_call hok hcall
      exact h.shrink hqueue (records_update hrecords) rfl hobs
  | lock => exact h.shrink hqueue hsame rfl (hone trivial)
  | unlock => exact h.shrink hqueue hsame rfl (hone trivial)
  | ret => exact h.shrink hqueue (records_update fun _ hrr => hrr) rfl (hone trivial)
  | stop => exact h.silent hqueue hsame rfl

theorem enqueue (h : Sourced R m) {e : Ev} (he : e.type = .reply → R e.reqId e.result e.msg) :
    Sourced R (m.enqueue e) := by
  refine ⟨fun e' he' htype => ?_, h.records, fun x hx => ?_⟩
  · rcases Module.mem_enqueue he' with he' | rfl
    · exact h.queue e' he' htype
    · exact he htype
  · rcases List.mem_append.mp hx with hx | hx
    · exact h.returns x hx
    · obtain rfl := List.mem_singleton.mp hx
      trivial

theorem boot (i : Nat) (reg : Reg) : Sourced R (Module.boot i reg) :=
  ⟨fun _ he => absurd he List.not_mem_nil, fun _ _ hrr => absurd hrr List.not_mem_nil,
    fun _ hx => absurd hx List.not_mem_nil⟩

end Sourced

/-- A reply is posted by the `coseq_reply` of a fiber whose reply address is the inbox. -/
theorem Move.posted_reply {act : ModAct} {d : Nat} {e : Ev} (h : Move m act (.post d (some e)) m')
    (htype : e.type = .reply) :
    ∃ g msg, .replied g (.module d) e.reqId e.result msg ∈ m'.trace ∧ (AllocOk m act → msg = e.msg) := by
  generalize heff : Effect.post d (some e) = eff at h
  cases h with
  | issue =>
      obtain ⟨rfl, he⟩ := Effect.post.inj heff
      have hstart := makeEv_type he.symm
      rw [htype] at hstart
      cases hstart
  | @«local» _ _ ok a _ _ _ _ _ _ _ hcall =>
      cases hcall with
      | @reply r msg =>
          refine ⟨a, msg, ?_⟩
          unfold reply at heff
          dsimp only at heff
          split at heff
          · cases heff
          · rename_i idx hto
            obtain ⟨rfl, he⟩ := Effect.post.inj heff
            unfold makeEv at he
            split at he
            · obtain rfl := Option.some.inj he
              refine ⟨List.mem_append_right _ ?_, fun hok => ?_⟩
              · rw [hto]
                exact List.mem_singleton.mpr rfl
              · exact (if_pos (hok .eventMsg)).symm
            · cases he
      | registered hnext =>
          obtain ⟨_, rfl⟩ := hnext
          cases heff
      | idle _ hnext =>
          rcases hnext with rfl | ⟨_, rfl⟩ <;> cases heff
      | notifying _ hpost =>
          rcases hpost with rfl | ⟨i, e', rfl, he'⟩
          · cases heff
          · obtain ⟨-, rfl⟩ := Effect.post.inj heff
            have hnotify := he' e rfl
            rw [htype] at hnotify
            cases hnotify
      | _ => cases heff
  | _ => cases heff

end Source

/-- In every run what a call returns with, other than by a deadline, was passed to `coseq_reply` for its
req_id by some fiber; where allocations succeed the message is the one that was passed. -/
theorem sourced (whole : Prop) {ok : Sys → Act → Prop} {tbl : List Reg} {s : Sys} (hrun : Reaches ok tbl s)
    (hok : whole → ∀ s a, ok s a → EveryModule AllocOk s a) (j : Nat) :
    Sourced (s.Echoes whole j) (s.module j) := by
  revert j
  refine hrun.invariant (P := fun s => ∀ j, Sourced (s.Echoes whole j) (s.module j))
    (fun j => Sourced.boot _ _) ?_
  intro s a s' hrun ih hs hstep j
  have hold : Sourced (s'.Echoes whole j) (s.module j) :=
    (ih j).mono fun rid r msg ⟨msg', ⟨i, g, hx⟩, hmsg⟩ => ⟨msg', ⟨i, g, Sys.step_trace hstep hx⟩, hmsg⟩
  cases (Sys.step_delta hstep).1 with
  | @move i act eff m' hact _ hmove hmodules =>
      have hok' : whole → AllocOk (s.module i) act := fun hw => hok hw s a hs i act (by rw [hact, if_pos rfl])
      have hmoved : Sourced (s'.Echoes whole j) (Function.update s.module i m' j) := by
        by_cases hj : j = i
        · subst hj
          rw [Function.update_self]
          refine hold.move (modes hrun j) ?_ hmove
          by_cases hw : whole
          · exact .inl (hok' hw)
          · exact .inr fun _ _ _ _ ⟨msg', hx, _⟩ => ⟨msg', hx, fun h => absurd h hw⟩
        · rw [Function.update_of_ne hj]
          exact hold
      rcases delivered_apply s.ctx.nrModule (Function.update s.module i m') eff j with h | ⟨e, rfl, hj, h⟩
      · rw [hmodules, h]
        exact hmoved
      · rw [hmodules, h]
        refine hmoved.enqueue fun htype => ?_
        obtain ⟨g, msg, hg, hmsg⟩ := hmove.posted_reply htype
        refine ⟨msg, ⟨i, g, ?_⟩, fun hw => hmsg (hok' hw)⟩
        rw [hmodules]
        rcases delivered_apply s.ctx.nrModule (Function.update s.module i m') (.post j (some e)) i with
          h' | ⟨e', -, -, h'⟩
        · rw [h', Function.update_self]
          exact hg
        · rw [h', Function.update_self]
          exact List.mem_append_left _ hg
  | @request d seq rid msg ok' _ hmodules =>
      rcases delivered_apply s.ctx.nrModule s.module
        (.post d (makeEv .start seq rid .external .ignore msg ok')) j with h | ⟨e, heff, -, h⟩
      · rw [hmodules, h]
        exact hold
      · rw [hmodules, h]
        refine hold.enqueue fun htype => ?_
        have hstart := makeEv_type (Effect.post.inj heff).2
        rw [htype] at hstart
        cases hstart
  | idle _ hmodules =>
      rw [hmodules]
      exact hold

theorem replies_sourced {ok : Sys → Act → Prop} {tbl : List Reg} {s : Sys} (hrun : Reaches ok tbl s)
    (hok : ∀ s a, ok s a → EveryModule AllocOk s a) (j : Nat) :
    Sourced (s.RepliesTo j) (s.module j) :=
  (sourced True hrun (fun _ => hok) j).mono fun _ _ _ ⟨_, hx, hmsg⟩ => hmsg trivial ▸ hx

/-- Whatever allocations fail, no reply is made up. -/
theorem replies_known {ok : Sys → Act → Prop} {tbl : List Reg} {s : Sys} (hrun : Reaches ok tbl s) (j : Nat) :
    Sourced (fun rid r _ => ∃ msg, s.RepliesTo j rid r msg) (s.module j) :=
  (sourced False hrun (fun h => h.elim) j).mono fun _ _ _ ⟨msg, hx, _⟩ => ⟨msg, hx⟩

end Coseq
