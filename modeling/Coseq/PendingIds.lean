import Coseq.FiberRefs
import Coseq.RequestCarriers
import Coseq.UnusedIds

/-! The ids of pending entries in runs of any length. A reply is answered for whom its req_id says, and after
2 ^ 32 requests an id is taken again. Who made the request that an event or a fiber stands for is noted along
the run, and compared with the entry that the id finds. -/

namespace Coseq

/-- Who made the request that an event of an inbox belongs to, by module and serial, and who made the one that a
fiber serves, by module and fiber. -/
structure Askers where
  event : Nat → Nat → FiberRef
  fiber : Nat → FiberRef → FiberRef

namespace Askers

/-- Who made the request that the next event to be posted belongs to: for a reply the one whom the replying fiber
serves, for a START the running fiber. -/
def sender (g : Askers) (s : Sys) : Act → FiberRef
  | .call i (.reply ..) _ => g.fiber i ((s.module i).current.getD 0)
  | .call i _ _ => (s.module i).current.getD 0
  | _ => 0

/-- The askers after a step: those of the events posted in it and of the fiber made in it, which serves the head of
the batch, are added. -/
def note (s : Sys) (a : Act) (_ : Sys) (g : Askers) : Askers where
  event d n := if n < (s.module d).posted then g.event d n else g.sender s a
  fiber j b := if b < (s.module j).nextFiber then g.fiber j b
    else (s.module j).batch.head?.elim 0 fun e => g.event j e.serial

def start : Askers := ⟨fun _ _ => 0, fun _ _ => 0⟩

end Askers

/-- The runs in which the askers are noted. -/
abbrev AskedRun (ok : Sys → Act → Prop) (tbl : List Reg) : Sys × Askers → Prop :=
  Lts.Run (Lts.watch Sys.step Askers.note) (fun p a => ok p.1 a) (boot tbl, Askers.start)

/-- The request `r` of module `i` that the fiber `a` has made can still be answered: by its START, by a fiber that
serves it, or by a reply on the way. -/
inductive InFlight (s : Sys) (g : Askers) (i r : Nat) : FiberRef → Prop where
  | start {j : Nat} {e : Ev} (hj : j < s.ctx.nrModule) (he : e ∈ (s.module j).queue)
      (hstart : e.startsFor (.module i) r = true) : InFlight s g i r (g.event j e.serial)
  | fiber {j : Nat} {b : FiberRef} (hj : j < s.ctx.nrModule) (hb : b ∈ (s.module j).fibers)
      (hdone : ((s.module j).fiber b).done = false) (hto : ((s.module j).fiber b).replyTo = .module i)
      (hid : ((s.module j).fiber b).replyReqId = r) : InFlight s g i r (g.fiber j b)
  | reply {e : Ev} (he : e ∈ (s.module i).queue) (hreply : e.repliesTo r = true) :
      InFlight s g i r (g.event i e.serial)

/-- No entry of module `i` has its next id. -/
def Sys.IdFree (s : Sys) (i : Nat) : Prop := ∀ p ∈ (s.module i).pending, p.reqId ≠ (s.module i).reqId

/-- No START, unfinished fiber or reply on the way carries the next id of module `i`. -/
def Sys.IdQuiet (s : Sys) (i : Nat) : Prop :=
  (∀ j < s.ctx.nrModule,
    (∀ e ∈ (s.module j).queue, e.startsFor (.module i) (s.module i).reqId = false) ∧
    ∀ b ∈ (s.module j).fibers, ((s.module j).fiber b).done = false →
      ((s.module j).fiber b).replyTo = .module i → ((s.module j).fiber b).replyReqId ≠ (s.module i).reqId) ∧
  ∀ e ∈ (s.module i).queue, e.repliesTo (s.module i).reqId = false

/-- Once the counter of a module has wrapped, it takes an id only when no entry has it, and for a request to be
answered only when nothing on the way carries it. -/
def FreshIds (s : Sys) : Act → Prop
  | .call i (.send ..) _ => 2 ^ 32 ≤ (s.module i).nextReqId → s.IdFree i
  | .call i (.request ..) _ | .call i (.requestTimeout ..) _ | .call i (.requestAsync ..) _ =>
      2 ^ 32 ≤ (s.module i).nextReqId → s.IdFree i ∧ s.IdQuiet i
  | _ => True

instance (s : Sys) (i : Nat) : Decidable (s.IdFree i) := inferInstanceAs (Decidable (∀ _ ∈ _, _))

instance (s : Sys) (i : Nat) : Decidable (s.IdQuiet i) := inferInstanceAs (Decidable (_ ∧ _))

instance (s : Sys) (a : Act) : Decidable (FreshIds s a) :=
  match a with
  | .call _ (.send ..) _ | .call _ (.request ..) _ | .call _ (.requestTimeout ..) _ | .call _ (.requestAsync ..) _ =>
      inferInstanceAs (Decidable (_ → _))
  | .tick .. | .sched .. | .stop .. | .requestSync .. | .wakeup .. | .requestAsync .. | .asyncPost ..
  | .call _ .waitReply _ | .call _ .gather _ | .call _ .gatherNext _ | .call _ (.reply ..) _
  | .call _ (.waitTimeout ..) _ | .call _ (.regNotify ..) _ | .call _ (.unregNotify ..) _ | .call _ (.notify ..) _
  | .call _ .notifyNext _ | .call _ .lock _ | .call _ .unlock _ | .call _ .ret _ => .isTrue trivial

/-- As `FreshIds`, and a sequence returns only when no pending entry names its fiber: such an entry would be found
for the next fiber that gets the block. -/
def ClearIds (s : Sys) (a : Act) : Prop := FreshIds s a ∧ EveryModule ReturnsClear s a

instance (s : Sys) (a : Act) : Decidable (ClearIds s a) := inferInstanceAs (Decidable (_ ∧ _))

/-! ### What a move does to what is on the way -/

section Move

variable {m m' : Module} {act : ModAct} {eff : Effect}

/-- A fiber that has not finished has not finished before, or it has just been made for the head of the batch. -/
theorem Move.fiber_cases (hmove : Move m act eff m') {b : FiberRef} (hb : b ∈ m'.fibers)
    (hdone : (m'.fiber b).done = false) : b ∈ m.fibers ∧ (m.fiber b).done = false ∨
      ∃ e rest ok, AtHead m e rest ∧ e.type ≠ .reply ∧ b = m.nextFiber ∧ m'.fiber b = e.fiber ok := by
  have hsame : ∀ {a : FiberRef} {f : Fiber}, (Function.update m.fiber a f b).done = false →
      f.done = (m.fiber a).done → (m.fiber b).done = false := by
    intro a f hdone hf
    by_cases hba : b = a
    · subst hba
      rw [Function.update_self] at hdone
      exact hf.symm.trans hdone
    · rw [Function.update_of_ne hba] at hdone
      exact hdone
  cases hmove with
  | fire => exact .inl ⟨hb, hsame hdone rfl⟩
  | expire => exact .inl ⟨hb, hsame hdone rfl⟩
  | wake => exact .inl ⟨hb, hsame hdone rfl⟩
  | queue => exact .inl ⟨hb, hsame hdone rfl⟩
  | @begin _ ok e rest _ hhead _ htype =>
      by_cases hnew : b = m.nextFiber
      · refine .inr ⟨e, rest, ok, hhead, htype, hnew, ?_⟩
        subst hnew
        exact Function.update_self ..
      · refine .inl ⟨(List.mem_cons.mp hb).resolve_left hnew, ?_⟩
        dsimp only at hdone
        rwa [Function.update_of_ne hnew] at hdone
  | reap => exact .inl ⟨(List.mem_filter.mp hb).1, hdone⟩
  | issue _ hissue =>
      refine .inl ⟨hb, hsame hdone ?_⟩
      cases hissue <;> rfl
  | «local» _ hcall =>
      refine .inl ⟨hb, hsame hdone ?_⟩
      cases hcall with
      | null henter _ _ hnull =>
          obtain ⟨_, rfl⟩ := henter.same
          obtain ⟨_, rfl⟩ := hnull.same
          rfl
      | queued henter =>
          obtain ⟨_, rfl⟩ := henter.same
          rfl
      | park henter =>
          obtain ⟨_, rfl⟩ := henter.same
          rfl
      | _ => rfl
  | @ret _ _ _ a =>
      by_cases hba : b = a
      · subst hba
        dsimp only at hdone
        rw [Function.update_self] at hdone
        cases hdone
      · dsimp only at hdone
        rw [Function.update_of_ne hba] at hdone
        exact .inl ⟨hb, hdone⟩
  | _ => exact .inl ⟨hb, hdone⟩

/-- What a move posts: a START of the running fiber, its reply to the requester, or a notification. -/
inductive Posts (m : Module) : ModAct → Nat → Ev → Prop where
  | start {a : FiberRef} {c : Call} {now : Timespec} {id d s : Nat} {kind : ReqKind} {msg : Bytes} {ok : Alloc}
      {e : Ev} (hcur : m.current = some a) (hissue : Issues now c kind d s msg) (htype : e.type = .start)
      (hfrom : e.requester = .module m.idx) (hid : e.reqId = m.reqId) : Posts m (.call c now id ok) d e
  | reply {a : FiberRef} {r : Result} {msg : Bytes} {now : Timespec} {id d : Nat} {ok : Alloc} {e : Ev}
      (hcur : m.current = some a) (htype : e.type = .reply) (hto : (m.fiber a).replyTo = .module d)
      (hid : e.reqId = (m.fiber a).replyReqId) : Posts m (.call (.reply r msg) now id ok) d e
  | notify {act : ModAct} {d : Nat} {e : Ev} (htype : e.type = .notify) : Posts m act d e

theorem Move.posts {d : Nat} {e : Ev} (hmove : Move m act (.post d (some e)) m') : Posts m act d e := by
  generalize heff : Effect.post d (some e) = eff at hmove
  cases hmove with
  | issue hcur hissue =>
      obtain ⟨rfl, he⟩ := Effect.post.inj heff
      unfold makeEv at he
      split at he
      · obtain rfl := Option.some.inj he
        exact .start hcur hissue rfl rfl rfl
      · cases he
  | @«local» _ _ ok a _ _ _ _ _ _ hcur hcall =>
      cases hcall with
      | reply =>
          unfold reply at heff
          dsimp only at heff
          split at heff
          · cases heff
          · rename_i idx hto
            obtain ⟨rfl, he⟩ := Effect.post.inj heff
            unfold makeEv at he
            split at he
            · obtain rfl := Option.some.inj he
              exact .reply hcur rfl hto rfl
            · cases he
      | registered hnext =>
          obtain ⟨_, rfl⟩ := hnext
          cases heff
      | idle _ hnext =>
          rcases hnext with rfl | ⟨_, rfl⟩ <;> cases heff
      | notifying _ hpost =>
          rcases hpost with rfl | ⟨i, e', rfl, he'⟩
          · cases heff
          · obtain ⟨-, rfl⟩ := Effect.post.inj heff
            exact .notify (he' e rfl)
      | _ => cases heff
  | _ => cases heff

end Move

/-! ### What a step does to it -/

section Step

variable {s s' : Sys} {act : Act} {g : Askers}

theorem Move.new_event {m m' : Module} {a : ModAct} {eff : Effect} {e₀ e : Ev} (hmove : Move m a eff m')
    (he : e ∈ (m'.enqueue e₀).queue) : e ∈ m.queue ∨ e = { e₀ with serial := m.posted } := by
  rw [← hmove.accepted.2]
  exact (Module.mem_enqueue he).imp (hmove.queue_subset e) id

/-- An event of an inbox has been there before the step, or a move or an external thread has posted it. -/
theorem step_event (hstep : s.step act = some s') {j : Nat} {e : Ev} (he : e ∈ (s'.module j).queue) :
    e ∈ (s.module j).queue ∨ ∃ e₀, e = { e₀ with serial := (s.module j).posted } ∧
      ((∃ i a, s.localAct i act = some a ∧ Posts (s.module i) a j e₀) ∨
        e₀.type = .start ∧ e₀.requester = .external) := by
  cases (Sys.step_delta hstep).1 with
  | @move i a eff m' hact _ hmove hmodules =>
      rw [hmodules] at he
      by_cases hij : j = i
      · subst hij
        rcases delivered_apply s.ctx.nrModule (Function.update s.module j m') eff j with heq | ⟨e₀, rfl, -, heq⟩
        · rw [heq, Function.update_self] at he
          exact .inl (hmove.queue_subset e he)
        · rw [heq, Function.update_self] at he
          refine (hmove.new_event he).imp id fun hnew => ⟨e₀, hnew, .inl ⟨j, a, ?_, hmove.posts⟩⟩
          rw [hact, if_pos rfl]
      · rcases delivered_apply s.ctx.nrModule (Function.update s.module i m') eff j with heq | ⟨e₀, rfl, -, heq⟩
        · rw [heq, Function.update_of_ne hij] at he
          exact .inl he
        · rw [heq, Function.update_of_ne hij] at he
          refine (Module.mem_enqueue he).imp id fun hnew => ⟨e₀, hnew, .inl ⟨i, a, ?_, hmove.posts⟩⟩
          rw [hact, if_pos rfl]
  | @request d q rid msg ok hact hmodules =>
      rw [hmodules] at he
      rcases delivered_apply s.ctx.nrModule s.module (.post d (makeEv .start q rid .external .ignore msg ok)) j with
        heq | ⟨e₀, hpost, -, heq⟩
      · rw [heq] at he
        exact .inl he
      · rw [heq] at he
        refine (Module.mem_enqueue he).imp id fun hnew => ⟨e₀, hnew, .inr ?_⟩
        obtain ⟨-, hmake⟩ := Effect.post.inj hpost
        unfold makeEv at hmake
        split at hmake
        · obtain rfl := Option.some.inj hmake
          exact ⟨rfl, rfl⟩
        · cases hmake
  | idle _ hmodules =>
      rw [hmodules] at he
      exact .inl he

/-- An unfinished fiber has been there before the step, for the same request, or it has been made for the head of
the batch. -/
theorem step_fiber (hstep : s.step act = some s') {j : Nat} (hmodes : Modes (s.module j)) {b : FiberRef}
    (hb : b ∈ (s'.module j).fibers) (hdone : ((s'.module j).fiber b).done = false) :
    (b ∈ (s.module j).fibers ∧ ((s.module j).fiber b).done = false ∧
        ((s.module j).fiber b).Kin ((s'.module j).fiber b)) ∨
      ∃ e rest ok, AtHead (s.module j) e rest ∧ e.type ≠ .reply ∧ b = (s.module j).nextFiber ∧
        (s'.module j).fiber b = e.fiber ok := by
  obtain ⟨m₁, hm₁, hs'⟩ := Sys.step_moved hstep j
  have hfibers : (s'.module j).fibers = m₁.fibers ∧ (s'.module j).fiber = m₁.fiber := by
    rcases hs' with heq | ⟨e, heq⟩ <;> rw [heq] <;> exact ⟨rfl, rfl⟩
  rw [hfibers.1] at hb
  rw [hfibers.2] at hdone ⊢
  cases hm₁ with
  | stay => exact .inl ⟨hb, hdone, .refl _⟩
  | move _ hmove =>
      refine (hmove.fiber_cases hb hdone).imp (fun ⟨hold, hopen⟩ => ⟨hold, hopen, ?_⟩) id
      exact hmove.kin b (hmodes.born b hold)

/-- A request of the running fiber `a` of module `i`. -/
def Asks (s : Sys) (act : Act) (i : Nat) (a : FiberRef) (kind : ReqKind) : Prop :=
  ∃ c ok d q msg, act = .call i c ok ∧ Issues s.clock c kind d q msg ∧ (s.module i).current = some a

theorem Askers.note_event {j n : Nat} (h : n < (s.module j).posted) :
    (Askers.note s act s' g).event j n = g.event j n := if_pos h

theorem Askers.note_new {j : Nat} : (Askers.note s act s' g).event j (s.module j).posted = g.sender s act :=
  if_neg (Nat.lt_irrefl _)

theorem Askers.note_fiber {j b : Nat} (h : b < (s.module j).nextFiber) :
    (Askers.note s act s' g).fiber j b = g.fiber j b := if_pos h

theorem Askers.note_begun {j : Nat} {e : Ev} {rest : List Ev} (hhead : AtHead (s.module j) e rest) :
    (Askers.note s act s' g).fiber j (s.module j).nextFiber = g.event j e.serial := by
  have hnew : (Askers.note s act s' g).fiber j (s.module j).nextFiber =
      (s.module j).batch.head?.elim 0 fun e => g.event j e.serial := if_neg (Nat.lt_irrefl _)
  rw [hnew, hhead.batch]
  rfl

/-- Localised calls carry the clock. -/
theorem localAct_clock {i : Nat} {c : Call} {now : Timespec} {id : Nat} {ok : Alloc}
    (h : s.localAct i act = some (.call c now id ok)) : act = .call i c ok ∧ now = s.clock := by
  have hact := localAct_call h
  subst hact
  rw [Sys.localAct, if_pos rfl] at h
  exact ⟨rfl, (ModAct.call.inj (Option.some.inj h)).2.1.symm⟩

/-- A fiber that is to answer the request `r` of the module `i` was started by that request. -/
theorem startsFor_of_fiber {i r : Nat} {e : Ev} {ok : Alloc} (htype : e.type ≠ .reply)
    (hto : (e.fiber ok).replyTo = .module i) (hid : (e.fiber ok).replyReqId = r) :
    e.startsFor (.module i) r = true := by
  unfold Ev.fiber at hto hid
  cases hcase : e.type with
  | reply => exact absurd hcase htype
  | notify =>
      rw [hcase] at hto
      cases hto
  | start =>
      rw [hcase] at hto hid
      have hfrom : e.requester = .module i := hto
      have hreq : e.reqId = r := hid
      simp [Ev.startsFor, hcase, hfrom, hreq]

/-- Whatever can be answered could be answered before the step, or it is the request made in it. -/
theorem InFlight.back {i r : Nat} {a : FiberRef} (hstep : s.step act = some s')
    (hserial : ∀ j, ∀ e ∈ (s.module j).queue, e.serial < (s.module j).posted) (hmodes : ∀ j, Modes (s.module j))
    (hidx : ∀ j, (s.module j).idx = j) (hrun : ∀ j, (s.module j).current.isSome = true → j < s.ctx.nrModule)
    (h : InFlight s' (Askers.note s act s' g) i r a) :
    InFlight s g i r a ∨ r = (s.module i).reqId ∧ ∃ kind, Asks s act i a kind := by
  have hnr := (Sys.step_delta hstep).2
  cases h with
  | @start j e hj he hstart =>
      rw [hnr] at hj
      rcases step_event hstep he with hold | ⟨e₀, rfl, hpost⟩
      · rw [Askers.note_event (hserial j e hold)]
        exact .inl (.start hj hold hstart)
      · obtain ⟨htype, hfor, hid⟩ : e₀.type = .start ∧ e₀.requester = .module i ∧ e₀.reqId = r := by
          simpa [Ev.startsFor] using hstart
        rcases hpost with ⟨k, a, hact, hposts⟩ | ⟨-, hext⟩
        · cases hposts with
          | @start b c now _ _ _ kind _ ok _ hcur hissue _ hfrom hfresh =>
              obtain rfl : k = i := by
                rw [hidx, hfor] at hfrom
                exact (Origin.module.inj hfrom).symm
              obtain ⟨rfl, rfl⟩ := localAct_clock hact
              have hsender : g.sender s (.call k c ok) = b := by
                cases hissue <;> simp [Askers.sender, hcur]
              dsimp only
              rw [Askers.note_new, hsender]
              exact .inr ⟨hid.symm.trans hfresh, kind, c, ok, _, _, _, rfl, hissue, hcur⟩
          | reply _ hreply =>
              rw [htype] at hreply
              cases hreply
          | notify hnotify =>
              rw [htype] at hnotify
              cases hnotify
        · rw [hfor] at hext
          cases hext
  | @fiber j b hj hb hdone hto hid =>
      rw [hnr] at hj
      rcases step_fiber hstep (hmodes j) hb hdone with ⟨hold, hopen, hkin⟩ | ⟨e, rest, ok, hhead, htype, rfl, hnew⟩
      · rw [Askers.note_fiber ((hmodes j).born b hold)]
        exact .inl (.fiber hj hold hopen (hkin.replyTo.symm.trans hto) (hkin.replyReqId.symm.trans hid))
      · rw [Askers.note_begun hhead]
        rw [hnew] at hto hid
        exact .inl (.start hj hhead.mem_queue (startsFor_of_fiber htype hto hid))
  | @reply e he hreply =>
      rcases step_event hstep he with hold | ⟨e₀, rfl, hpost⟩
      · rw [Askers.note_event (hserial i e hold)]
        exact .inl (.reply hold hreply)
      · obtain ⟨htype, hid⟩ : e₀.type = .reply ∧ e₀.reqId = r := by
          simpa [Ev.repliesTo] using hreply
        rcases hpost with ⟨k, a, hact, hposts⟩ | ⟨hext, -⟩
        · cases hposts with
          | start _ _ hstart =>
              rw [htype] at hstart
              cases hstart
          | @reply b r' msg now _ _ ok _ hcur _ hto hfor =>
              obtain ⟨rfl, -⟩ := localAct_clock hact
              obtain ⟨hmem, hopen, -, -⟩ := (hmodes k).running b hcur
              have hsender : g.sender s (.call k (.reply r' msg) ok) = g.fiber k b := by
                simp [Askers.sender, hcur]
              dsimp only
              rw [Askers.note_new, hsender]
              exact .inl (.fiber (hrun k (by rw [hcur]; rfl)) hmem hopen hto (hfor.symm.trans hid))
          | notify hnotify =>
              rw [htype] at hnotify
              cases hnotify
        · rw [htype] at hext
          cases hext

/-- An entry has been there before the step, or it is that of the request made in it. -/
theorem step_entry (hstep : s.step act = some s') {i : Nat} {p : Pending} (hp : p ∈ (s'.module i).pending) :
    p ∈ (s.module i).pending ∨
      p.reqId = (s.module i).reqId ∧ ∃ kind, kind.awaited = true ∧ Asks s act i p.f kind := by
  obtain ⟨m₁, hm₁, hs'⟩ := Sys.step_moved hstep i
  have hpending : (s'.module i).pending = m₁.pending := by
    rcases hs' with heq | ⟨e, heq⟩ <;> rw [heq]
    rfl
  rw [hpending] at hp
  cases hm₁ with
  | stay => exact .inl hp
  | move hact hmove =>
      rcases hmove.register_cases with ⟨-, hsub⟩ | ⟨c, now, id, ok, a, kind, d, q, msg, rfl, hissue, hcur, -, hnew, -⟩
      · exact .inl (hsub.subset hp)
      · rw [hnew] at hp
        rcases mem_issuePending hp with ⟨rfl, hawaited⟩ | hold
        · obtain ⟨rfl, rfl⟩ := localAct_clock hact
          exact .inr ⟨rfl, kind, hawaited, c, ok, d, q, msg, rfl, hissue, hcur⟩
        · exact .inl hold

theorem step_distinct (hstep : s.step act = some s') {i : Nat} (h : Distinct (s.module i).pending)
    (hfree : ∀ a kind, Asks s act i a kind → kind.awaited = true → s.IdFree i) :
    Distinct (s'.module i).pending := by
  obtain ⟨m₁, hm₁, hs'⟩ := Sys.step_moved hstep i
  have hpending : (s'.module i).pending = m₁.pending := by
    rcases hs' with heq | ⟨e, heq⟩ <;> rw [heq]
    rfl
  rw [hpending]
  cases hm₁ with
  | stay => exact h
  | move hact hmove =>
      rcases hmove.register_cases with ⟨-, hsub⟩ | ⟨c, now, id, ok, a, kind, d, q, msg, rfl, hissue, hcur, -, hnew, -⟩
      · exact h.sublist hsub
      · rw [hnew]
        obtain ⟨rfl, rfl⟩ := localAct_clock hact
        exact h.issue fun hawaited => hfree a kind ⟨c, ok, d, q, msg, rfl, hissue, hcur⟩ hawaited

end Step

/-! ### Runs -/

section Run

variable {ok : Sys → Act → Prop} {tbl : List Reg} {s : Sys}

/-- The events a module holds have been numbered. -/
theorem serials_lt (hrun : Reaches ok tbl s) (j : Nat) :
    ∀ e ∈ (s.module j).queue, e.serial < (s.module j).posted := by
  refine module_invariant (G := fun _ _ => True) (P := fun m => ∀ e ∈ m.queue, e.serial < m.posted) hrun
    (fun _ _ _ _ _ _ => trivial) ?_ ?_ ?_ j
  · rintro i reg e ⟨⟩
  · intro m act eff m' h _ hmove e he
    rw [hmove.accepted.2]
    exact h e (hmove.queue_subset e he)
  · intro m e₀ h e he
    rcases Module.mem_enqueue he with hold | rfl
    · exact Nat.lt_succ_of_lt (h e hold)
    · exact Nat.lt_succ_self _

theorem running_inside (hrun : Reaches ok tbl s) {j : Nat} (h : (s.module j).current.isSome = true) :
    j < s.ctx.nrModule := by
  obtain ⟨hnr, -, houtside⟩ := setup_fixed hrun
  by_contra hj
  rw [houtside j (hnr ▸ Nat.le_of_not_lt hj)] at h
  cases h

/-- Until the counter wraps the next id is carried by nothing. -/
theorem quiet_before_wrap (hrun : Reaches ok tbl s) {i : Nat} (h : (s.module i).nextReqId < 2 ^ 32) :
    s.IdFree i ∧ s.IdQuiet i := by
  obtain ⟨⟨hfree, hreplies⟩, -⟩ := next_fresh hrun h
  have hid : (s.module i).reqId = (s.module i).nextReqId := Nat.mod_eq_of_lt h
  have hnone : s.starts (.module i) (s.module i).reqId = 0 := by
    have hle := starts_le hrun i (s.module i).reqId
    have hissues : (s.module i).trace.countP (Obs.issues (s.module i).reqId) = 0 := by
      rw [List.countP_eq_zero]
      intro x hx hissue
      have htaken : (s.module i).reqId ∈ takenIds (s.module i).trace := by
        refine List.mem_filterMap.mpr ⟨x, hx, ?_⟩
        cases x <;> simp [Obs.issues, Obs.issueId] at hissue ⊢
        exact hissue
      have hlt := (counted hrun i).bound (Nat.le_of_lt h) _ htaken
      omega
    omega
  have hmodule : ∀ j < s.ctx.nrModule, (s.module j).starts (.module i) (s.module i).reqId = 0 := by
    intro j hj
    have hle := Tally.le_total (w := fun _ m => Module.starts (.module i) (s.module i).reqId m) (f := s.module) hj
    rw [Sys.starts] at hnone
    omega
  refine ⟨hfree, fun j hj => ⟨fun e he => ?_, fun b hb _ hto hfor => ?_⟩, fun e he => ?_⟩
  · have hzero := hmodule j hj
    have hqueue : (s.module j).queue.countP (Ev.startsFor (.module i) (s.module i).reqId) = 0 := by
      rw [Module.starts] at hzero
      omega
    exact Bool.eq_false_iff.mpr (List.countP_eq_zero.mp hqueue e he)
  · obtain ⟨n, hn⟩ := (addressed hrun j).started_module ((modes hrun j).born b hb) hto
    rw [hfor] at hn
    have hpos := started_counts hrun hn
    omega
  · rw [Bool.eq_false_iff]
    intro hreply
    obtain ⟨htype, heq⟩ : e.type = .reply ∧ e.reqId = (s.module i).reqId := by simpa [Ev.repliesTo] using hreply
    exact hreplies e he htype heq

theorem Sys.IdQuiet.none {g : Askers} {i : Nat} {a : FiberRef} (h : s.IdQuiet i) :
    ¬InFlight s g i (s.module i).reqId a := by
  intro hflight
  obtain ⟨hmodules, hreplies⟩ := h
  cases hflight with
  | start hj he hstart =>
      rw [(hmodules _ hj).1 _ he] at hstart
      cases hstart
  | fiber hj hb hdone hto hid => exact (hmodules _ hj).2 _ hb hdone hto hid
  | reply he hreply =>
      rw [hreplies _ he] at hreply
      cases hreply

/-- What the condition gives for a request. -/
theorem FreshIds.asks (hrun : Reaches ok tbl s) {act : Act} (hfresh : FreshIds s act) {i : Nat} {a : FiberRef}
    {kind : ReqKind} (hasks : Asks s act i a kind) : s.IdFree i ∧ (kind.awaited = true → s.IdQuiet i) := by
  obtain ⟨c, al, d, q, msg, rfl, hissue, -⟩ := hasks
  by_cases hwrap : (s.module i).nextReqId < 2 ^ 32
  · obtain ⟨hfree, hquiet⟩ := quiet_before_wrap hrun hwrap
    exact ⟨hfree, fun _ => hquiet⟩
  · have hle : 2 ^ 32 ≤ (s.module i).nextReqId := Nat.le_of_not_lt hwrap
    cases hissue with
    | request =>
        obtain ⟨hfree, hquiet⟩ := hfresh hle
        exact ⟨hfree, fun _ => hquiet⟩
    | requestTimeout =>
        obtain ⟨hfree, hquiet⟩ := hfresh hle
        exact ⟨hfree, fun _ => hquiet⟩
    | requestAsync =>
        obtain ⟨hfree, hquiet⟩ := hfresh hle
        exact ⟨hfree, fun _ => hquiet⟩
    | send => exact ⟨hfresh hle, fun h => by cases h⟩

/-- No two entries of a module have one id, and what can be answered is answered for the fiber of its entry. -/
structure Resolved (s : Sys) (g : Askers) : Prop where
  distinct : ∀ i, Distinct (s.module i).pending
  owner : ∀ i r a, InFlight s g i r a → ∀ p ∈ (s.module i).pending, p.reqId = r → p.f = a

theorem Resolved.step {s' : Sys} {g : Askers} {act : Act} (h : Resolved s g) (hrun : Reaches ok tbl s)
    (hfresh : FreshIds s act) (hstep : s.step act = some s') : Resolved s' (Askers.note s act s' g) where
  distinct i := step_distinct hstep (h.distinct i) fun _ _ hasks _ => (hfresh.asks hrun hasks).1
  owner i r a hflight p hp hid := by
    have hback := hflight.back hstep (serials_lt hrun) (modes hrun) (setup_fixed hrun).2.1
      fun j hj => running_inside hrun hj
    rcases hback, step_entry hstep hp with ⟨hold | ⟨hr, kind, hasks⟩, hentry | ⟨hpid, kind', hawaited, hasks'⟩⟩
    · exact h.owner i r a hold p hentry hid
    · refine absurd hold ?_
      rw [← hid, hpid]
      exact ((hfresh.asks hrun hasks').2 hawaited).none
    · exact absurd (hid.trans hr) ((hfresh.asks hrun hasks).1 p hentry)
    · obtain ⟨_, _, _, _, _, -, -, hcur⟩ := hasks
      obtain ⟨_, _, _, _, _, -, -, hcur'⟩ := hasks'
      exact Option.some.inj (hcur'.symm.trans hcur)

theorem resolved {g : Askers} (hrun : AskedRun FreshIds tbl (s, g)) : Resolved s g := by
  have hstart : Resolved (boot tbl) Askers.start := by
    refine ⟨fun _ => distinct_nil, ?_⟩
    rintro i r a _ p ⟨⟩
  refine hrun.invariant (P := fun p => Resolved p.1 p.2) hstart ?_
  intro p act p' hrun h hfresh hstep
  obtain ⟨hstep, hnote⟩ := Lts.watch_eq hstep
  rw [hnote]
  exact h.step hrun.unwatch hfresh hstep

end Run

/-- In every run that meets the condition, of any length, the entries of a module have distinct ids and name fibers
that have not finished, a reply in its queues that finds an entry finds that of the fiber whose request it answers, and
each entry is found and taken by its id alone. -/
theorem pending_resolved {tbl : List Reg} {s : Sys} {g : Askers} (hrun : AskedRun ClearIds tbl (s, g)) (i : Nat) :
    Distinct (s.module i).pending ∧
    (∀ e ∈ (s.module i).queue, e.type = .reply → ∀ a, pendingPeek (s.module i).pending e.reqId = some a →
      a = g.event i e.serial) ∧
    ∀ p ∈ (s.module i).pending, (p.f ∈ (s.module i).fibers ∧ ((s.module i).fiber p.f).done = false) ∧
      pendingPeek (s.module i).pending p.reqId = some p.f ∧
      ∀ q, q ∈ pendingTake (s.module i).pending p.reqId ↔ q ∈ (s.module i).pending ∧ q ≠ p := by
  have hfresh : AskedRun FreshIds tbl (s, g) := hrun.mono fun _ _ h => h.1
  have hclear : Reaches (EveryModule ReturnsClear) tbl s := hrun.unwatch.mono fun _ _ h => h.2
  have hres := resolved hfresh
  have hdistinct := hres.distinct i
  refine ⟨hdistinct, fun e he htype a hpeek => ?_, fun p hp => ⟨(live_refs hclear i).2.pending p hp, ?_, fun q => ?_⟩⟩
  · have hreply : e.repliesTo e.reqId = true := by simp [Ev.repliesTo, htype]
    exact hres.owner i e.reqId _ (.reply he hreply) _ (mem_of_peek hpeek) rfl
  · exact hdistinct.peek_iff.mpr hp
  · rw [hdistinct.mem_take]
    exact and_congr_right fun hq => not_congr ⟨hdistinct.unique hq hp, congrArg Pending.reqId⟩

/-- A sequence of module 0 waits for three replies of module 1; the one to the second request has come first. -/
def threeAskedRun : List Act :=
  [.requestAsync 0 0 0 [], .asyncPost 0 .granted, .thread 0, .thread 0, .thread 0, .thread 0,
    .fiber 0 (.requestAsync 1 0 []), .fiber 0 (.requestAsync 1 0 []), .fiber 0 (.request 1 0 []),
    .thread 1, .thread 1, .thread 1, .thread 1, .fiber 1 (.waitTimeout 5),
    .thread 1, .fiber 1 (.reply .success [7])]

theorem threeAskedRun_resolved : ∃ s g, AskedRun ClearIds [⟨1, false⟩, ⟨1, false⟩] (s, g) ∧
    ((s.module 0).pending = [⟨3, 0⟩, ⟨2, 0⟩, ⟨1, 0⟩] ∧ (s.module 0).queue.map Ev.reqId = [2]) ∧
    Distinct (s.module 0).pending ∧
    (∀ e ∈ (s.module 0).queue, e.type = .reply → ∀ a, pendingPeek (s.module 0).pending e.reqId = some a →
      a = g.event 0 e.serial) ∧
    ∀ p ∈ (s.module 0).pending, (p.f ∈ (s.module 0).fibers ∧ ((s.module 0).fiber p.f).done = false) ∧
      pendingPeek (s.module 0).pending p.reqId = some p.f ∧
      ∀ q, q ∈ pendingTake (s.module 0).pending p.reqId ↔ q ∈ (s.module 0).pending ∧ q ≠ p := by
  obtain ⟨⟨s, g⟩, hrun, hs⟩ : ∃ p, AskedRun ClearIds [⟨1, false⟩, ⟨1, false⟩] p ∧
      decide ((p.1.module 0).pending = [⟨3, 0⟩, ⟨2, 0⟩, ⟨1, 0⟩] ∧ (p.1.module 0).queue.map Ev.reqId = [2]) = true :=
    Lts.exists_run threeAskedRun (by decide +kernel)
  exact ⟨s, g, hrun, of_decide_eq_true hs, pending_resolved hrun 0⟩

/-! ### Wrapping -/

/-- The thread of a module, or its running fiber with a call, goes on without an effect outside. -/
def Module.own (now : Timespec) (id : Nat) (m : Module) (c : Option Call) : Option Module :=
  match m.step (c.elim (.sched now .granted) fun c => .call c now id .granted) with
  | some (m', .none) => some m'
  | _ => none

/-- The module has nothing to do and one sequence. -/
structure Rests (m : Module) : Prop where
  phase : ∃ d, m.phase = .waiting d
  inbox : m.inbox = []
  deferred : m.deferred = []
  batch : m.batch = []
  fibers : m.fibers = []
  current : m.current = none
  lockedBy : m.lockedBy = none
  stop : m.stop = false
  nrSeq : m.nrSeq = 1

/-- The module has one sequence, which is running and has called nothing yet. -/
structure Serving (m : Module) (a : FiberRef) : Prop where
  phase : m.phase = .events
  inbox : m.inbox = []
  deferred : m.deferred = []
  batch : m.batch = []
  fibers : m.fibers = [a]
  current : m.current = some a
  lockedBy : m.lockedBy = none
  stop : m.stop = false
  nrSeq : m.nrSeq = 1
  outside : (m.fiber a).notifying = none
  gathers : (m.fiber a).gathers = []

/-- A START is served by a sequence. -/
theorem Rests.begin {m : Module} (h : Rests m) (now : Timespec) (id rid : Nat) (o : Origin) :
    ∃ m', Lts.exec (Module.own now id) (fun _ _ => True) (m.enqueue ⟨.start, 0, rid, o, .ignore, 0, 0, [], 0⟩)
      [none, none, none, none] = some m' ∧ Serving m' m.nextFiber := by
  obtain ⟨idx, nrSeq, recvNotify, inbox, stop, fibers, fiber, nextFiber, pending, clients, nextReqId, current,
    lockedBy, deferred, batch, phase, posted, trace⟩ := m
  obtain ⟨⟨d, hphase⟩, hinbox, hdeferred, hbatch, hfibers, hcurrent, hlock, hstop, hnr⟩ := h
  dsimp only at hphase hinbox hdeferred hbatch hfibers hcurrent hlock hstop hnr
  subst hphase hinbox hdeferred hbatch hfibers hcurrent hlock hstop hnr
  refine ⟨_, rfl, rfl, rfl, rfl, rfl, rfl, rfl, rfl, rfl, rfl, ?_, ?_⟩
  · change (Function.update (Function.update fiber nextFiber _) nextFiber
      (Fiber.wake (Function.update fiber nextFiber _ nextFiber)) nextFiber).notifying = none
    rw [Function.update_self, Function.update_self]
    rfl
  · change (Function.update (Function.update fiber nextFiber _) nextFiber
      (Fiber.wake (Function.update fiber nextFiber _ nextFiber)) nextFiber).gathers = []
    rw [Function.update_self, Function.update_self]
    rfl

/-- The sequence returns, and the module rests. -/
theorem Serving.finish {m : Module} {a : FiberRef} (h : Serving m a) (now : Timespec) (id : Nat) :
    ∃ m', Lts.exec (Module.own now id) (fun _ _ => True) m [some .ret, none, none] = some m' ∧ Rests m' := by
  obtain ⟨idx, nrSeq, recvNotify, inbox, stop, fibers, fiber, nextFiber, pending, clients, nextReqId, current,
    lockedBy, deferred, batch, phase, posted, trace⟩ := m
  obtain ⟨hphase, hinbox, hdeferred, hbatch, hfibers, hcurrent, hlock, hstop, hnr, houtside, hgathers⟩ := h
  dsimp only at hphase hinbox hdeferred hbatch hfibers hcurrent hlock hstop hnr houtside hgathers
  subst hphase hinbox hdeferred hbatch hfibers hcurrent hlock hstop hnr
  obtain ⟨m, hm⟩ : ∃ m : Module, m = ⟨idx, 1, recvNotify, [], false, [a], fiber, nextFiber, pending, clients,
    nextReqId, some a, none, [], [], .events, posted, trace⟩ := ⟨_, rfl⟩
  rw [← hm]
  have hret : Module.own now id m (some .ret) = some (ret m a) := by
    have hcall : Coseq.call m a .ret now id .granted = some (ret m a, .none) := by
      rw [hm]
      simp only [Coseq.call, houtside, hgathers, if_true]
    have hstep : m.step (.call .ret now id .granted) = some (ret m a, .none) := by
      rw [← hcall, hm]
      rfl
    exact congrArg (fun r => match r with | some (m', .none) => some m' | _ => none) hstep
  have hreap : Module.own now id (ret m a) none = some { ret m a with fibers := [], phase := .top } := by
    have hdone : (reapDone (ret m a)).fibers = [] := by
      rw [hm]
      simp [reapDone, ret, Module.setFiber, Module.log]
    have hreaped : reapDone (ret m a) = { ret m a with fibers := [] } := by
      rw [← hdone, hm]
      rfl
    rw [hm] at hreaped ⊢
    exact congrArg (fun m => some { m with phase := .top }) hreaped
  refine ⟨{ ret m a with fibers := [], phase := .waiting none }, ?_, ?_⟩
  · rw [Lts.exec, if_pos trivial, hret, Option.bind_some, Lts.exec, if_pos trivial, hreap, Option.bind_some, hm]
    rfl
  · rw [hm]
    exact ⟨⟨_, rfl⟩, rfl, rfl, rfl, rfl, rfl, rfl, rfl, rfl⟩

section Wrap

variable {s s' : Sys} {g g' : Askers}

/-- Such steps of one module are steps of the system. -/
theorem Sys.run_own {i : Nat} (hi : i < s.ctx.nrModule) {cs : List (Option Call)} {m' : Module}
    (h : Lts.exec (Module.own s.clock s.ctx.nextClientId) (fun _ _ => True) (s.module i) cs = some m') :
    ∃ s', Lts.Run Sys.step (fun _ _ => True) s s' ∧ s'.module i = m' ∧ (∀ j, j ≠ i → s'.module j = s.module j) ∧
      s'.ctx.nrModule = s.ctx.nrModule := by
  induction cs generalizing s with
  | nil =>
      obtain rfl := Option.some.inj h
      exact ⟨s, .refl, rfl, fun _ _ => rfl, rfl⟩
  | cons c cs ih =>
      rw [Lts.exec, if_pos trivial] at h
      obtain ⟨m₁, hown, hrest⟩ := Option.bind_eq_some_iff.mp h
      unfold Module.own at hown
      split at hown
      · rename_i m₂ hstep
        obtain rfl := Option.some.inj hown
        have hself : ({ s with ctx := s.ctx.setModule i m₂ } : Sys).module i = m₂ := s.ctx.setModule_self i m₂
        have hact : s.step (c.elim (.thread i) (.fiber i)) = some { s with ctx := s.ctx.setModule i m₂ } := by
          cases c with
          | none =>
              change s.stepModule i (.sched s.clock .granted) .granted = _
              rw [Sys.stepModule, if_pos hi]
              exact congrArg (Option.map _) hstep
          | some c =>
              change s.stepModule i (.call c s.clock s.ctx.nextClientId .granted) .granted = _
              rw [Sys.stepModule, if_pos hi]
              exact congrArg (Option.map _) hstep
        rw [← hself] at hrest
        obtain ⟨s', hrun, hm', hothers, hnr⟩ := ih (s := { s with ctx := s.ctx.setModule i m₂ }) hi hrest
        have hfirst : Lts.Run Sys.step (fun _ _ => True) s { s with ctx := s.ctx.setModule i m₂ } :=
          Lts.Run.refl.tail trivial hact
        refine ⟨s', hfirst.trans hrun, hm', fun j hj => (hothers j hj).trans ?_, hnr⟩
        exact Function.update_of_ne hj _ _
      · cases hown

/-- Module 0 has issued the ids below `k` and is otherwise as in `m`; module 1 rests. -/
structure Sends (m : Module) (k : Nat) (s : Sys) : Prop where
  two : s.ctx.nrModule = 2
  sender : ∃ l, s.module 0 = { m with nextReqId := k, trace := l }
  rests : Rests (s.module 1)

variable {m : Module} {a : FiberRef} {k : Nat}

theorem Sends.next (h : Sends m k s) (hcur : m.current = some a) (hnot : (m.fiber a).notifying = none) :
    ∃ s', Lts.Run Sys.step (fun _ _ => True) s s' ∧ Sends m (k + 1) s' := by
  obtain ⟨htwo, ⟨l, hsender⟩, hrests⟩ := h
  have hcall : Coseq.call (s.module 0) a (.send 1 0 []) s.clock s.ctx.nextClientId .granted =
      some (takeReqId (s.module 0) a .send 1 0, startEv (s.module 0) 1 0 [] .granted) := by
    rw [hsender]
    simp only [Coseq.call, hnot]
    rfl
  have hcurrent : (s.module 0).current = some a := by
    rw [hsender]
    exact hcur
  have hstep := Sys.step_of_call (by omega) hcurrent hcall
  have hmodules := Sys.after_post (s := s) (i := 0) (d := 1) (takeReqId (s.module 0) a .send 1 0)
    ⟨.start, 0, (s.module 0).reqId, .module (s.module 0).idx, .ignore, 0, 0, [], 0⟩ .granted (by omega) (by omega)
  generalize hs₁ : s.after 0 (takeReqId (s.module 0) a .send 1 0) (startEv (s.module 0) 1 0 [] .granted) .granted =
    s₁ at hstep
  have htwo₁ : s₁.ctx.nrModule = 2 := (Sys.step_delta hstep).2.trans htwo
  have hmodules₁ : s₁.module = _ := (congrArg Sys.module hs₁.symm).trans hmodules
  obtain ⟨m₁, hbegin, hserving⟩ := hrests.begin s₁.clock s₁.ctx.nextClientId (s.module 0).reqId
    (.module (s.module 0).idx)
  have hreceiver : s₁.module 1 = _ := (congrFun hmodules₁ 1).trans (Function.update_self ..)
  rw [← hreceiver] at hbegin
  obtain ⟨s₂, hrun₂, hm₁, hothers₂, hnr₂⟩ := Sys.run_own (by omega) hbegin
  obtain ⟨m₂, hfinish, hrests₂⟩ := hserving.finish s₂.clock s₂.ctx.nextClientId
  rw [← hm₁] at hfinish
  obtain ⟨s₃, hrun₃, hm₂, hothers₃, hnr₃⟩ := Sys.run_own (by omega) hfinish
  have hfirst : Lts.Run Sys.step (fun _ _ => True) s s₁ := Lts.Run.refl.tail trivial hstep
  refine ⟨s₃, (hfirst.trans hrun₂).trans hrun₃, hnr₃.trans (hnr₂.trans htwo₁),
    ⟨(takeReqId (s.module 0) a .send 1 0).trace, ?_⟩, hm₂.symm ▸ hrests₂⟩
  calc s₃.module 0 = s₂.module 0 := hothers₃ 0 (by omega)
    _ = s₁.module 0 := hothers₂ 0 (by omega)
    _ = takeReqId (s.module 0) a .send 1 0 := by
        rw [hmodules₁, Function.update_of_ne (by omega), Function.update_self]
    _ = _ := by
        rw [takeReqId, hsender]

/-- Any number of sends, each served before the next. -/
theorem Sends.rounds (h : Sends m k s) (hcur : m.current = some a) (hnot : (m.fiber a).notifying = none) (n : Nat) :
    ∃ s', Lts.Run Sys.step (fun _ _ => True) s s' ∧ Sends m (k + n) s' := by
  induction n with
  | zero => exact ⟨s, .refl, h⟩
  | succ n ih =>
      obtain ⟨s₁, hrun, h₁⟩ := ih
      obtain ⟨s₂, hrun', h₂⟩ := h₁.next hcur hnot
      exact ⟨s₂, hrun.trans hrun', h₂⟩

/-- Who is noted for a posted event stays. -/
theorem event_kept (ok : Sys → Act → Prop) {j n : Nat} (hn : n < (s.module j).posted)
    (hrun : Lts.Run (Lts.watch Sys.step Askers.note) (fun p a => ok p.1 a) (s, g) (s', g')) :
    g'.event j n = g.event j n := by
  have hkept : n < (s'.module j).posted ∧ g'.event j n = g.event j n := by
    refine hrun.invariant (P := fun p => n < (p.1.module j).posted ∧ p.2.event j n = g.event j n) ⟨hn, rfl⟩ ?_
    rintro p act p' - ⟨hlt, hsame⟩ - hstep
    obtain ⟨hstep, hnote⟩ := Lts.watch_eq hstep
    constructor
    · obtain ⟨m₁, hm₁, hs'⟩ := Sys.step_moved hstep j
      have hposted : m₁.posted = (p.1.module j).posted := by
        cases hm₁ with
        | stay => rfl
        | move _ hmove => exact hmove.accepted.2
      rcases hs' with heq | ⟨e, heq⟩ <;> rw [heq]
      · omega
      · change n < m₁.posted + 1
        omega
    · rw [hnote, Askers.note_event hlt]
      exact hsame
  exact hkept.2

end Wrap

/-- A sequence of module 0 waits for the reply to its request with the id 1. The reply is in the queue behind a START,
whose sequence is running. -/
def replyBehindRun : List Act :=
  [.requestAsync 0 0 0 [], .asyncPost 0 .granted, .thread 0, .thread 0, .thread 0, .thread 0,
    .fiber 0 (.request 1 0 []), .thread 1, .thread 1, .thread 1, .thread 1,
    .requestAsync 0 0 0 [], .asyncPost 0 .granted, .thread 0, .thread 0, .thread 0, .thread 0, .thread 0, .thread 0,
    .fiber 1 (.reply .success [7]), .fiber 1 .ret, .thread 1, .thread 1]

/-- The state after `replyBehindRun`. -/
def Overtaken (p : Sys × Askers) : Prop :=
  (p.1.ctx.nrModule = 2 ∧ (p.1.module 0).nextReqId = 2 ∧ (p.1.module 0).current = some 1 ∧
    ((p.1.module 0).fiber 1).notifying = none ∧ (p.1.module 0).pending = [⟨1, 0⟩]) ∧
  ((p.1.module 0).queue = [⟨.reply, 0, 1, .module 1, .success, 0, 0, [7], 2⟩] ∧ (p.1.module 0).posted = 3 ∧
    p.2.event 0 2 = 0) ∧
  (p.1.module 1).phase = .waiting none ∧ (p.1.module 1).inbox = [] ∧ (p.1.module 1).deferred = [] ∧
    (p.1.module 1).batch = [] ∧ (p.1.module 1).fibers = [] ∧ (p.1.module 1).current = none ∧
    (p.1.module 1).lockedBy = none ∧ (p.1.module 1).stop = false ∧ (p.1.module 1).nrSeq = 1

instance (p : Sys × Askers) : Decidable (Overtaken p) := inferInstanceAs (Decidable (_ ∧ _ ∧ _))

/-- After 2 ^ 32 - 1 sends the running sequence takes the id 1 again. The reply to the other one's request finds the
new entry. -/
theorem ids_collide : ∃ s g, AskedRun (fun _ _ => True) [⟨1, false⟩, ⟨1, false⟩] (s, g) ∧
    ¬Distinct (s.module 0).pending ∧ ∃ e ∈ (s.module 0).queue, e.type = .reply ∧ e.msg = [7] ∧
      pendingPeek (s.module 0).pending e.reqId = some 1 ∧ g.event 0 e.serial = 0 := by
  obtain ⟨⟨s₀, g₀⟩, hrun₀, hp⟩ : ∃ p, AskedRun (fun _ _ => True) [⟨1, false⟩, ⟨1, false⟩] p ∧
      decide (Overtaken p) = true := Lts.exists_run replyBehindRun (by decide +kernel)
  obtain ⟨⟨htwo, hnext, hcur, hnot, hpending⟩, ⟨hqueue, hposted, hasked⟩, hphase, hinbox, hdeferred, hbatch, hfibers,
    hidle, hlock, hstop, hnr⟩ := of_decide_eq_true hp
  have hsends : Sends (s₀.module 0) 2 s₀ := by
    refine ⟨htwo, ⟨(s₀.module 0).trace, ?_⟩, ⟨⟨none, hphase⟩, hinbox, hdeferred, hbatch, hfibers, hidle, hlock, hstop,
      hnr⟩⟩
    rw [← hnext]
  obtain ⟨s₁, hrun₁, h₁⟩ := hsends.rounds hcur hnot (2 ^ 32 - 1)
  obtain ⟨g₁, hwatched⟩ : ∃ g₁, Lts.Run (Lts.watch Sys.step Askers.note) (fun _ _ => True) (s₀, g₀) (s₁, g₁) :=
    hrun₁.watched g₀
  have hkept : g₁.event 0 2 = g₀.event 0 2 :=
    event_kept (fun _ _ => True) (by rw [hposted]; omega) hwatched
  obtain ⟨l, hmodule⟩ := h₁.sender
  have hcur₁ : (s₁.module 0).current = some 1 := (congrArg Module.current hmodule).trans hcur
  have hnot₁ : ((s₁.module 0).fiber 1).notifying = none :=
    (congrArg (fun m => (Module.fiber m 1).notifying) hmodule).trans hnot
  have hid : (s₁.module 0).reqId = 1 := by
    have hnext₁ : (s₁.module 0).nextReqId = 2 + (2 ^ 32 - 1) := congrArg Module.nextReqId hmodule
    rw [Module.reqId, hnext₁]
    omega
  obtain ⟨m₂, hm₂⟩ : ∃ m₂, m₂ = (requestAsync (s₁.module 0) 1 1 0 [] .granted).1 := ⟨_, rfl⟩
  have hcall : Coseq.call (s₁.module 0) 1 (.requestAsync 1 0 []) s₁.clock s₁.ctx.nextClientId .granted =
      some (m₂, startEv (s₁.module 0) 1 0 [] .granted) := by
    simp only [Coseq.call, hnot₁, hm₂]
    rfl
  have hstep := Sys.step_of_call (by rw [h₁.two]; omega) hcur₁ hcall
  have hmodules : (s₁.after 0 m₂ (startEv (s₁.module 0) 1 0 [] .granted) .granted).module 0 = m₂ := by
    have hpost := Sys.after_post (s := s₁) (i := 0) (d := 1) m₂
      ⟨.start, 0, (s₁.module 0).reqId, .module (s₁.module 0).idx, .ignore, 0, 0, [], 0⟩ .granted
      (by rw [h₁.two]; omega) (by omega)
    refine (congrFun hpost 0).trans ?_
    rw [Function.update_of_ne (by omega), Function.update_self]
  have hpending₂ : m₂.pending = [⟨1, 1⟩, ⟨1, 0⟩] := by
    calc m₂.pending = ⟨(s₁.module 0).reqId, 1⟩ :: (s₁.module 0).pending := by rw [hm₂]; rfl
      _ = ⟨1, 1⟩ :: (s₀.module 0).pending := by rw [hid, hmodule]
      _ = [⟨1, 1⟩, ⟨1, 0⟩] := by rw [hpending]
  have hqueue₂ : m₂.queue = (s₀.module 0).queue := by
    calc m₂.queue = (s₁.module 0).queue := by rw [hm₂]; rfl
      _ = (s₀.module 0).queue := by rw [hmodule]; rfl
  have hlast : Lts.watch Sys.step Askers.note (s₁, g₁) (.fiber 0 (.requestAsync 1 0 [])) = some
      (s₁.after 0 m₂ (startEv (s₁.module 0) 1 0 [] .granted) .granted, Askers.note s₁
        (.fiber 0 (.requestAsync 1 0 []))
        (s₁.after 0 m₂ (startEv (s₁.module 0) 1 0 [] .granted) .granted) g₁) := by
    rw [Lts.watch]
    exact congrArg (Option.map _) hstep
  refine ⟨_, _, (hrun₀.trans hwatched).tail trivial hlast, ?_, ⟨.reply, 0, 1, .module 1, .success, 0, 0, [7], 2⟩, ?_,
    rfl, rfl, ?_, ?_⟩
  · rw [hmodules, hpending₂]
    simp [Distinct]
  · rw [hmodules, hqueue₂, hqueue]
    exact List.mem_singleton_self _
  · rw [hmodules, hpending₂]
    rfl
  · have hlt : 2 < (s₁.module 0).posted := by
      rw [hmodule, hposted]
      omega
    rw [Askers.note_event hlt, hkept]
    exact hasked

end Coseq
