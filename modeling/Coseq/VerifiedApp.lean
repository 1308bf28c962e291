import Coseq.Contracts

/-! Runs of a verified application. Each step keeps that every fiber stands where its code says and that every reply
meets the terms, so no assertion of a sequence fails and no request is answered otherwise than its target promises. -/

namespace Coseq

/-- An event on its way was accepted. -/
theorem queue_arrived {ok : Sys → Act → Prop} {tbl : List Reg} {s : Sys} (hrun : Reaches ok tbl s) (j : Nat) :
    ∀ e ∈ (s.module j).queue, .arrived e ∈ (s.module j).trace := by
  refine module_invariant (G := fun _ _ => True) (P := fun m => ∀ e ∈ m.queue, .arrived e ∈ m.trace) hrun
    (fun _ _ _ _ _ _ => trivial) (fun _ _ e he => absurd he List.not_mem_nil) ?_ ?_ j
  · intro m act eff m' h _ hmove e he
    obtain ⟨-, -, xs, hxs⟩ := hmove.grows
    rw [hxs]
    exact List.mem_append_left _ (h e (hmove.queue_subset e he))
  · intro m e' h e he
    rcases Module.mem_enqueue he with hold | rfl
    · exact List.mem_append_left _ (h e hold)
    · exact List.mem_append_right _ (List.mem_singleton.mpr rfl)

/-- The sequences of a module are those of the table. -/
theorem table_fixed {ok : Sys → Act → Prop} {tbl : List Reg} {s : Sys} (hrun : Reaches ok tbl s) (j : Nat) :
    (s.module j).nrSeq = (tbl.getD j ⟨0, false⟩).nrSeq :=
  hrun.invariant (P := fun s => (s.module j).nrSeq = (tbl.getD j ⟨0, false⟩).nrSeq) rfl
    fun _ _ _ _ h _ hstep => (Sys.step_fixed hstep j).2.trans h

theorem Terms.exists_of_lt {T : Terms} {ok : Sys → Act → Prop} {s : Sys} (hrun : Reaches ok T.tbl s) {j q : Nat}
    (hq : q < (s.module j).nrSeq) : T.Exists j q := by
  rw [table_fixed hrun] at hq
  refine ⟨?_, hq⟩
  by_contra hj
  rw [List.getD_eq_getElem?_getD, List.getElem?_eq_none (Nat.le_of_not_lt hj)] at hq
  exact absurd hq (Nat.not_lt_zero q)

theorem Terms.named {T : Terms} {ok : Sys → Act → Prop} {s : Sys} (hrun : Reaches ok T.tbl s) {j q : Nat}
    (h : T.Exists j q) : j < s.ctx.nrModule ∧ q < (s.module j).nrSeq := by
  rw [(setup_fixed hrun).1, table_fixed hrun]
  exact h

/-! ### What is noted in a step -/

section Note

variable {Label : Type*} {app : App Label} {s s' : Sys} {act : Act} {g : Control Label} {i : Nat} {a : FiberRef}

theorem note_asked_cases (app : App Label) (s : Sys) (act : Act) (s' : Sys) (g : Control Label) :
    (Control.note app s act s' g).asked = g.asked ∨
    ∃ i c ok b q, act = .call i c ok ∧ (s.module i).current = some b ∧ c.ask = some q ∧
      (Control.note app s act s' g).asked =
        Function.update g.asked i (Function.update (g.asked i) (s.module i).reqId (some q)) := by
  cases act with
  | sched i ok =>
      refine .inl ?_
      unfold Control.note
      dsimp only
      split <;> rfl
  | call i c ok =>
      unfold Control.note
      dsimp only
      cases hcur : (s.module i).current with
      | none => exact .inl rfl
      | some b =>
          cases hask : c.ask with
          | none =>
              refine .inl ?_
              dsimp only [Control.call]
              rw [hask]
          | some q =>
              refine .inr ⟨i, c, ok, b, q, rfl, hcur, hask, ?_⟩
              dsimp only [Control.call]
              rw [hask]
  | _ => exact .inl rfl

theorem note_other (hsched : ∀ ok, act = .sched i ok → (s'.module i).current ≠ some a)
    (hcall : ∀ c ok, act = .call i c ok → (s.module i).current ≠ some a) :
    (Control.note app s act s' g).state i a = g.state i a := by
  have hset : ∀ {j b : Nat} {st : SeqState Label}, (j = i → b ≠ a) → (g.setState j b st).state i a = g.state i a := by
    intro j b st hne
    dsimp only [Control.setState]
    by_cases hj : j = i
    · subst hj
      rw [Function.update_self, Function.update_of_ne (hne rfl).symm]
    · rw [Function.update_of_ne (Ne.symm hj)]
  cases act with
  | sched j ok =>
      unfold Control.note
      dsimp only
      cases hcur : (s'.module j).current with
      | none => rfl
      | some b =>
          refine hset fun hj hb => ?_
          subst hj hb
          exact hsched ok rfl hcur
  | call j c ok =>
      unfold Control.note
      dsimp only
      cases hcur : (s.module j).current with
      | none => rfl
      | some b =>
          refine hset fun hj hb => ?_
          subst hj hb
          exact hcall c ok rfl hcur
  | _ => rfl

theorem note_sched (app : App Label) (g : Control Label) {ok : Alloc} (hcur : (s'.module i).current = some a) :
    (Control.note app s (.sched i ok) s' g).state i a =
      if a < (s.module i).nextFiber then (g.state i a).answer ((s'.module i).answer a (some 0))
      else .ready (app.entry i ((s'.module i).fiber a).fn ((s'.module i).answer a (some 0))) := by
  simp only [Control.note, hcur, Control.resume, Control.setState, Function.update_self]

theorem note_call {c : Call} {ok : Alloc} (hcur : (s.module i).current = some a) :
    (Control.note app s (.call i c ok) s' g).state i a =
      c.made app.blocks (s.module i) (s'.module i) a (g.state i a) := by
  simp only [Control.note, hcur, Control.call, Control.setState, Function.update_self]

end Note

/-! ### The invariant -/

/-- What holds in the runs of a verified application. -/
structure TermsKept {Label : Type*} (T : Terms) (inv : Label → Local → Prop) (p : Sys × Control Label) : Prop where
  stands : ∀ i, ∀ a ∈ (p.1.module i).fibers, ((p.1.module i).fiber a).done = false →
    Stands T inv p.2.asked (p.1.module i) i a (p.2.state i a)
  starts : ∀ j, ∀ e ∈ (p.1.module j).queue, e.type = .start → ∀ i, e.requester = .module i →
    p.2.asked i e.reqId = some ⟨j, e.seqIdx, e.msg⟩
  replied : ∀ j b o r res msg, .replied b o r res msg ∈ (p.1.module j).trace →
    ∃ ask, (p.1.module j).Serves j b ask ∧ T.meets ask res msg ∧ ∀ i, o = .module i → p.2.asked i r = some ask
  issued : ∀ i a kind r j q, .issued a kind r j q ∈ (p.1.module i).trace → ∃ msg, p.2.asked i r = some ⟨j, q, msg⟩
  fresh : ∀ i r q, p.2.asked i r = some q → r < (p.1.module i).nextReqId

section Step

variable {Label : Type*} {app : App Label} {T : Terms} {inv : Label → Local → Prop} {p p' : Sys × Control Label}
  {act : Act} {i : Nat} {a : FiberRef} {c : Call} {ok : Alloc}

theorem Call.ask_noWrap {m : Module} {now : Timespec} {id : Nat} {q : Ask} (h : NoWrap m (.call c now id ok))
    (hask : c.ask = some q) : m.reqId = m.nextReqId := by
  have hlt : m.nextReqId < 2 ^ 32 := by cases c <;> first | exact h | cases hask
  exact Nat.mod_eq_of_lt hlt

theorem Plays.ample (hplays : Plays app p (.call i c ok)) :
    NoWrap (p.1.module i) (.call c p.1.clock p.1.ctx.nextClientId ok) ∧ ok.Succeeds :=
  hplays.1 i _ (if_pos rfl)

/-- The runs of an application are runs. -/
theorem AppRun.reaches {tbl : List Reg} (hrun : AppRun app tbl p) : Reaches (EveryModule Ample) tbl p.1 := by
  have hample : Lts.Run (Lts.watch Sys.step (Control.note app)) (fun p a => EveryModule Ample p.1 a)
      (boot tbl, Control.start) p := hrun.mono fun _ _ h => h.1
  exact hample.unwatch

/-- The running fiber is where its contract allows the call that it makes. -/
theorem TermsKept.makes (h : TermsKept T inv p) (hkeeps : app.Keeps T inv) (hmodes : Modes (p.1.module i))
    (hcur : (p.1.module i).current = some a) (hnext : (p.2.state i a).next app.blocks = some (some c)) :
    ∃ g : Local, g.Fits p.2.asked (p.1.module i) i a ∧ T.contract.pre g c := by
  obtain ⟨hmem, hdone, -⟩ := hmodes.running a hcur
  obtain ⟨g, hfits, hsafe⟩ := (h.stands i a hmem hdone).safe
  exact ⟨g, hfits, (hsafe.calls hkeeps.blocks hnext).1⟩

/-- The running fiber returns with nothing owed on either side. -/
theorem TermsKept.returns (h : TermsKept T inv p) (hkeeps : app.Keeps T inv) (hmodes : Modes (p.1.module i))
    (hcur : (p.1.module i).current = some a) (hnext : (p.2.state i a).next app.blocks = some none) :
    ∃ g : Local, g.Fits p.2.asked (p.1.module i) i a ∧ g.owed = none ∧ g.asks = [] := by
  obtain ⟨hmem, hdone, -⟩ := hmodes.running a hcur
  obtain ⟨g, hfits, hsafe⟩ := (h.stands i a hmem hdone).safe
  exact ⟨g, hfits, hsafe.returns hkeeps.blocks hnext⟩

/-- No entry of a request is overwritten. -/
theorem TermsKept.asked_grows (h : TermsKept T inv p) (hplays : Plays app p act)
    (hstep : Lts.watch Sys.step (Control.note app) p act = some p') :
    ∀ j r q, p.2.asked j r = some q → p'.2.asked j r = some q := by
  intro j r q hq
  rw [(Lts.watch_eq hstep).2]
  rcases note_asked_cases app p.1 act p'.1 p.2 with
    heq | ⟨i, c, ok, b, q', rfl, -, hask, heq⟩
  · rw [heq]
    exact hq
  · rw [heq]
    have hid := Call.ask_noWrap hplays.ample.1 hask
    by_cases hj : j = i
    · subst hj
      have hne : r ≠ (p.1.module j).reqId := Nat.ne_of_lt (hid ▸ h.fresh j r q hq)
      rw [Function.update_self, Function.update_of_ne hne]
      exact hq
    · rw [Function.update_of_ne hj]
      exact hq

/-- A request is entered under the id that it takes. -/
theorem note_enters {s s' : Sys} {g : Control Label} {q : Ask} (hcur : (s.module i).current = some a)
    (hask : c.ask = some q) :
    (Control.note app s (.call i c ok) s' g).asked i (s.module i).reqId = some q := by
  simp only [Control.note, hcur, Control.call, hask, Function.update_self]

theorem Call.ask_issues {q : Ask} (hask : c.ask = some q) (now : Timespec) :
    ∃ kind, Issues now c kind q.target q.seq q.msg := by
  cases c with
  | request =>
      obtain rfl := Option.some.inj hask
      exact ⟨_, .request⟩
  | requestTimeout =>
      obtain rfl := Option.some.inj hask
      exact ⟨_, .requestTimeout⟩
  | requestAsync =>
      obtain rfl := Option.some.inj hask
      exact ⟨_, .requestAsync⟩
  | send =>
      obtain rfl := Option.some.inj hask
      exact ⟨_, .send⟩
  | _ => cases hask

theorem Issues.ask {now : Timespec} {kind : ReqKind} {j q : Nat} {msg : Bytes} (h : Issues now c kind j q msg) :
    c.ask = some ⟨j, q, msg⟩ := by
  cases h <;> rfl

theorem Move.takes_id {m m' : Module} {now : Timespec} {id : Nat} {eff : Effect} {q : Ask}
    (hmove : Move m (.call c now id ok) eff m') (hask : c.ask = some q) : m'.nextReqId = m.nextReqId + 1 := by
  obtain ⟨kind, hissue⟩ := Call.ask_issues hask now
  obtain ⟨a, -, htrace, -⟩ := hmove.issuer hissue
  rcases hmove.issueIds with ⟨hsame, -⟩ | ⟨-, hnext⟩
  · rw [htrace, List.filterMap_append, issueObs_issueIds] at hsame
    exact absurd (List.append_right_eq_self.mp hsame) (List.cons_ne_nil _ _)
  · exact hnext

theorem step_nextReqId {s s' : Sys} (hstep : s.step act = some s') (i : Nat) :
    (s.module i).nextReqId ≤ (s'.module i).nextReqId := by
  obtain ⟨m₁, hm₁, hs'⟩ := Sys.step_moved hstep i
  have hgrow : (s.module i).nextReqId ≤ m₁.nextReqId := by
    cases hm₁ with
    | stay => exact le_rfl
    | move _ hmove =>
        rcases hmove.issueIds with ⟨-, hnext⟩ | ⟨-, hnext⟩
        · exact hnext.ge
        · exact hnext ▸ Nat.le_succ _
  rcases hs' with heq | ⟨e, heq⟩ <;> rw [heq] <;> exact hgrow

theorem TermsKept.fresh_step (h : TermsKept T inv p) (hplays : Plays app p act)
    (hstep : Lts.watch Sys.step (Control.note app) p act = some p') :
    ∀ i r q, p'.2.asked i r = some q → r < (p'.1.module i).nextReqId := by
  obtain ⟨hs, hnote⟩ := Lts.watch_eq hstep
  intro i r q hq
  rw [hnote] at hq
  have hgrow := step_nextReqId hs i
  rcases note_asked_cases app p.1 act p'.1 p.2 with
    heq | ⟨j, c, ok, b, q', rfl, -, hask, heq⟩
  · rw [heq] at hq
    exact Nat.lt_of_lt_of_le (h.fresh i r q hq) hgrow
  · rw [heq] at hq
    by_cases hnew : i = j ∧ r = (p.1.module j).reqId
    · obtain ⟨rfl, rfl⟩ := hnew
      have hid := Call.ask_noWrap hplays.ample.1 hask
      obtain ⟨m₁, hm₁, hs'⟩ := Sys.step_moved hs i
      have hnext : m₁.nextReqId = (p.1.module i).nextReqId + 1 := by
        cases hm₁ with
        | stay hstay => cases hstay.symm.trans (if_pos rfl)
        | move hact hmove =>
            obtain rfl := Option.some.inj ((if_pos rfl).symm.trans hact)
            exact hmove.takes_id hask
      have hnext' : (p'.1.module i).nextReqId = m₁.nextReqId := by
        rcases hs' with heq' | ⟨e, heq'⟩
        · rw [heq']
        · rw [heq']
          rfl
      omega
    · have hold : p.2.asked i r = some q := by
        by_cases hj : i = j
        · subst hj
          rw [Function.update_self, Function.update_of_ne fun hr => hnew ⟨rfl, hr⟩] at hq
          exact hq
        · rw [Function.update_of_ne hj] at hq
          exact hq
      exact Nat.lt_of_lt_of_le (h.fresh i r q hold) hgrow

theorem Follows.next (h : Follows app p (.call i c ok)) (hcur : (p.1.module i).current = some a) (hret : c ≠ .ret) :
    (p.2.state i a).next app.blocks = some (some c) := by
  have hnext := h a hcur
  rwa [if_neg hret] at hnext

theorem TermsKept.replied_step (h : TermsKept T inv p) (hkeeps : app.Keeps T inv) (hmodes : ∀ i, Modes (p.1.module i))
    (hplays : Plays app p act) (hstep : Lts.watch Sys.step (Control.note app) p act = some p') :
    ∀ j b o r res msg, .replied b o r res msg ∈ (p'.1.module j).trace →
      ∃ ask, (p'.1.module j).Serves j b ask ∧ T.meets ask res msg ∧ ∀ i, o = .module i → p'.2.asked i r = some ask := by
  obtain ⟨hs, -⟩ := Lts.watch_eq hstep
  have hasked := h.asked_grows hplays hstep
  intro j b o r res msg hx
  have hgrow := Sys.step_grows hs j
  have hold : .replied b o r res msg ∈ (p.1.module j).trace →
      ∃ ask, (p'.1.module j).Serves j b ask ∧ T.meets ask res msg ∧ ∀ i, o = .module i → p'.2.asked i r = some ask := by
    intro hx
    obtain ⟨ask, hserves, hmeets, hto⟩ := h.replied j b o r res msg hx
    exact ⟨ask, hserves.grows hgrow, hmeets, fun i ho => hasked _ _ _ (hto i ho)⟩
  obtain ⟨m₁, hm₁, hs'⟩ := Sys.step_moved hs j
  have hx₁ : .replied b o r res msg ∈ m₁.trace := by
    rcases hs' with heq | ⟨e, heq⟩
    · rwa [heq] at hx
    · rw [heq] at hx
      refine (List.mem_append.mp hx).resolve_right fun hx => ?_
      cases List.mem_singleton.mp hx
  cases hm₁ with
  | stay => exact hold hx₁
  | move hact hmove =>
      rcases hmove.reply_cases with ⟨⟨xs, htrace, hxs⟩, -⟩ | ⟨now, id, ok, a, res', msg', rfl, hcur, htrace, -⟩
      · rw [htrace] at hx₁
        refine hold ((List.mem_append.mp hx₁).resolve_right fun hx => ?_)
        have hno := hxs _ hx b
        simp [Obs.repliedBy] at hno
      · rw [htrace] at hx₁
        rcases List.mem_append.mp hx₁ with hx | hx
        · exact hold hx
        · obtain ⟨rfl, rfl, rfl, rfl, rfl⟩ := Obs.replied.inj (List.mem_singleton.mp hx)
          obtain rfl := localAct_call hact
          obtain ⟨g, hfits, ask, hask, hmeets⟩ := h.makes hkeeps (hmodes j) hcur
            (Follows.next hplays.2 hcur Call.noConfusion)
          obtain ⟨-, hserves, hto⟩ := hfits.owed ask hask
          exact ⟨ask, hserves.grows hgrow, hmeets, fun i ho => hasked _ _ _ (hto i ho)⟩

theorem TermsKept.starts_step (h : TermsKept T inv p) (hidx : ∀ i, (p.1.module i).idx = i) (hplays : Plays app p act)
    (hstep : Lts.watch Sys.step (Control.note app) p act = some p') :
    ∀ j, ∀ e ∈ (p'.1.module j).queue, e.type = .start → ∀ i, e.requester = .module i →
      p'.2.asked i e.reqId = some ⟨j, e.seqIdx, e.msg⟩ := by
  obtain ⟨hs, hnote⟩ := Lts.watch_eq hstep
  intro j e he htype i hfrom
  have hold : e ∈ (p.1.module j).queue → p'.2.asked i e.reqId = some ⟨j, e.seqIdx, e.msg⟩ := fun he =>
    h.asked_grows hplays hstep _ _ _ (h.starts j e he htype i hfrom)
  cases (Sys.step_delta hs).1 with
  | @move k mact eff m' hact _ hmove hmodules =>
      have hqueue : ∀ e ∈ (Function.update p.1.module k m' j).queue, e ∈ (p.1.module j).queue := by
        by_cases hj : j = k
        · subst hj
          rw [Function.update_self]
          exact hmove.queue_subset
        · rw [Function.update_of_ne hj]
          exact fun _ h => h
      rw [hmodules] at he
      rcases delivered_apply p.1.ctx.nrModule (Function.update p.1.module k m') eff j with heq | ⟨e', rfl, -, heq⟩
      · rw [heq] at he
        exact hold (hqueue e he)
      · rw [heq] at he
        rcases Module.mem_enqueue he with hmem | rfl
        · exact hold (hqueue e hmem)
        · rcases hmove.issue_cases with ⟨-, -, hno⟩ | ⟨c, now, id, ok, b, kind, d, q, msg, rfl, hissue, -, -, heff⟩
          · exact absurd htype (hno j e' rfl)
          · obtain ⟨a, hcur, -⟩ := hmove.issuer hissue
            obtain rfl := localAct_call ((hact k).trans (if_pos rfl))
            obtain ⟨rfl, hmake⟩ := Effect.post.inj heff
            have hok : ok.Succeeds := hplays.ample.2
            simp only [makeEv, hok .event, hok .eventMsg, if_true, Option.some.injEq] at hmake
            obtain rfl := hmake
            obtain rfl : k = i := by
              have hto : Origin.module (p.1.module k).idx = .module i := hfrom
              rw [hidx] at hto
              exact Origin.module.inj hto
            rw [hnote]
            exact note_enters hcur hissue.ask
  | @request d q rid msg ok _ hmodules =>
      rw [hmodules] at he
      rcases delivered_apply p.1.ctx.nrModule p.1.module (.post d (makeEv .start q rid .external .ignore msg ok)) j
        with heq | ⟨e', hpost, -, heq⟩
      · rw [heq] at he
        exact hold he
      · rw [heq] at he
        rcases Module.mem_enqueue he with hmem | rfl
        · exact hold hmem
        · have hmake := (Effect.post.inj hpost).2
          unfold makeEv at hmake
          split at hmake
          · obtain rfl := Option.some.inj hmake
            cases hfrom
          · cases hmake
  | idle _ hmodules =>
      rw [hmodules] at he
      exact hold he

theorem TermsKept.issued_step (h : TermsKept T inv p) (hplays : Plays app p act)
    (hstep : Lts.watch Sys.step (Control.note app) p act = some p') :
    ∀ i a kind r j q, .issued a kind r j q ∈ (p'.1.module i).trace → ∃ msg, p'.2.asked i r = some ⟨j, q, msg⟩ := by
  obtain ⟨hs, hnote⟩ := Lts.watch_eq hstep
  intro i a kind r j q hx
  have hold : .issued a kind r j q ∈ (p.1.module i).trace → ∃ msg, p'.2.asked i r = some ⟨j, q, msg⟩ := by
    intro hx
    obtain ⟨msg, hmsg⟩ := h.issued i a kind r j q hx
    exact ⟨msg, h.asked_grows hplays hstep _ _ _ hmsg⟩
  obtain ⟨m₁, hm₁, hs'⟩ := Sys.step_moved hs i
  have hx₁ : .issued a kind r j q ∈ m₁.trace := by
    rcases hs' with heq | ⟨e, heq⟩
    · rwa [heq] at hx
    · rw [heq] at hx
      refine (List.mem_append.mp hx).resolve_right fun hx => ?_
      cases List.mem_singleton.mp hx
  cases hm₁ with
  | stay => exact hold hx₁
  | move hact hmove =>
      rcases hmove.issued_cases hx₁ with hx | ⟨c, now, id, ok, msg, rfl, hissue, hcur, rfl⟩
      · exact hold hx
      · obtain rfl := localAct_call hact
        rw [hnote]
        exact ⟨msg, note_enters hcur hissue.ask⟩

/-- A fiber that is new in the list has just begun to run. -/
theorem Move.newborn {m m' : Module} {mact : ModAct} {eff : Effect} (hmove : Move m mact eff m')
    (hmem : a ∈ m'.fibers) (hnew : a ∉ m.fibers) :
    (∃ now ok, mact = .sched now ok) ∧ m'.current = some a ∧ a = m.nextFiber := by
  cases hmove with
  | begin =>
      obtain rfl := (List.mem_cons.mp hmem).resolve_right hnew
      exact ⟨⟨_, _, rfl⟩, rfl, rfl⟩
  | reap => exact absurd (List.mem_filter.mp hmem).1 hnew
  | _ => exact absurd hmem hnew

theorem Move.sched_idle {m m' : Module} {now : Timespec} {eff : Effect} (hmove : Move m (.sched now ok) eff m') :
    m.current = none := by
  cases hmove <;> assumption

theorem Move.unfinished {m m' : Module} {mact : ModAct} {eff : Effect} (hmove : Move m mact eff m')
    (hmodes : Modes m) (hmem : a ∈ m'.fibers) (hdone : (m'.fiber a).done = false) (hold : a ∈ m.fibers) :
    (m.fiber a).done = false := by
  rcases hmove.fiber_cases hmem hdone with ⟨-, hopen⟩ | ⟨_, _, _, -, -, rfl, -⟩
  · exact hopen
  · exact absurd (hmodes.born _ hold) (Nat.lt_irrefl _)

theorem Move.ret_done {m m' : Module} {now : Timespec} {id : Nat} {eff : Effect}
    (hmove : Move m (.call .ret now id ok) eff m') (hcur : m.current = some a) : (m'.fiber a).done = true := by
  cases hmove with
  | issue _ hissue => cases hissue
  | «local» _ hcall =>
      cases hcall with
      | null henter => cases henter
      | queued henter => cases henter
      | park henter => cases henter
      | idle hcall => rcases hcall with ⟨_, h⟩ | ⟨_, _, h⟩ <;> cases h
      | notifying hcall => rcases hcall with h | ⟨_, _, h⟩ <;> cases h
  | ret hcur' =>
      obtain rfl := Option.some.inj (hcur.symm.trans hcur')
      dsimp only
      rw [Function.update_self]

section Stands

variable {s' : Sys} {m' : Module} (h : TermsKept T inv p) (hkeeps : app.Keeps T inv) (hrun : AppRun app T.tbl p)
  (hasked : ∀ j r q, p.2.asked j r = some q → p'.2.asked j r = some q)
include h

/-- What answers a request of module `i` was promised for it. -/
theorem TermsKept.promised (r : Nat) (res : Result) (msg : Bytes) (hreply : p.1.RepliesTo i r res msg) :
    T.Promised p.2.asked i r res msg := by
  obtain ⟨j, b, hx⟩ := hreply
  obtain ⟨ask, -, hmeets, hto⟩ := h.replied j b _ r res msg hx
  exact ⟨ask, hto i rfl, hmeets⟩

include hasked

/-- Nothing happens at the module, or its stop flag is set. -/
theorem TermsKept.stands_idle (hstate : p'.2.state i a = p.2.state i a) (hfibers : m'.fibers = (p.1.module i).fibers)
    (hfiber : m'.fiber = (p.1.module i).fiber) (hcur : m'.current = (p.1.module i).current)
    (htrace : m'.trace = (p.1.module i).trace) (hmem : a ∈ m'.fibers) (hdone : (m'.fiber a).done = false) :
    Stands T inv p'.2.asked m' i a (p'.2.state i a) := by
  rw [hfibers] at hmem
  rw [hfiber] at hdone
  rw [hstate]
  exact (h.stands i a hmem hdone).frame hasked (congrFun hfiber a) hcur (htrace.trans (List.append_nil _).symm)
    fun _ hx => absurd hx List.not_mem_nil

include hkeeps hrun

/-- The thread of the module goes on: it wakes the fiber up, makes it, or passes it by. -/
theorem TermsKept.stands_sched {now : Timespec} {eff : Effect} (hok : ok.Succeeds)
    (hmove : Move (p.1.module i) (.sched now ok) eff m') (hmem : a ∈ m'.fibers) (hdone : (m'.fiber a).done = false)
    (hstate : m'.current = some a → p'.2.state i a =
      if a < (p.1.module i).nextFiber then (p.2.state i a).answer (m'.answer a (some 0))
      else .ready (app.entry i (m'.fiber a).fn (m'.answer a (some 0))))
    (hother : m'.current ≠ some a → p'.2.state i a = p.2.state i a) :
    Stands T inv p'.2.asked m' i a (p'.2.state i a) := by
  have hreach : Reaches (EveryModule Ample) T.tbl p.1 := AppRun.reaches hrun
  have hmodes := modes hreach i
  have hledger : Ledger (p.1.module i) := ledger hreach (fun _ _ h j act hact => (h j act hact).1) i
  have hsourced := replies_sourced hreach (fun _ _ h j act hact => (h j act hact).2) i
  have hwrap : NoWrap (p.1.module i) (.sched now ok) := trivial
  have hidle : (p.1.module i).current ≠ some a := by
    rw [hmove.sched_idle]
    exact (Option.some_ne_none a).symm
  by_cases hold : a ∈ (p.1.module i).fibers
  · have hopen := hmove.unfinished hmodes hmem hdone hold
    have hstands := h.stands i a hold hopen
    by_cases hcur : m'.current = some a
    · rw [hstate hcur, if_pos (hmodes.born a hold)]
      have hwoken := hstands.resumes hmove hmodes (hledger.move hwrap hmove) hok hold hopen hcur
        fun e he htype => h.promised _ _ _ (hsourced.queue e he htype)
      exact hwoken.mono hasked
    · rw [hother hcur]
      exact hstands.stays hmove hmodes hold hopen hidle hcur hasked
  · obtain ⟨-, hcur, hnew⟩ := hmove.newborn hmem hold
    rw [hstate hcur, if_neg (by rw [hnew]; exact Nat.lt_irrefl _)]
    have hmade := Stands.begins hkeeps hmove hok (addressed hreach i) (issued_born hreach i)
      (fun q hq => T.exists_of_lt hreach hq) (queue_arrived hreach i) (h.starts i) hmem hold
    exact hmade.mono hasked

/-- The fiber makes its next call, or another fiber of the module does. -/
theorem TermsKept.stands_call {id : Nat} {now : Timespec} {eff : Effect} (hplays : Plays app p (.call i c ok))
    (hwrap : NoWrap (p.1.module i) (.call c now id ok)) (hok : ok.Succeeds)
    (hmove : Move (p.1.module i) (.call c now id ok) eff m') (hmem : a ∈ m'.fibers)
    (hdone : (m'.fiber a).done = false)
    (hentered : (p.1.module i).current = some a → ∀ q, c.ask = some q →
      p'.2.asked i (p.1.module i).reqId = some q)
    (hstate : (p.1.module i).current = some a →
      p'.2.state i a = c.made app.blocks (p.1.module i) m' a (p.2.state i a))
    (hother : (p.1.module i).current ≠ some a → p'.2.state i a = p.2.state i a) :
    Stands T inv p'.2.asked m' i a (p'.2.state i a) := by
  have hreach : Reaches (EveryModule Ample) T.tbl p.1 := AppRun.reaches hrun
  have hmodes := modes hreach i
  have hledger : Ledger (p.1.module i) := ledger hreach (fun _ _ h j act hact => (h j act hact).1) i
  have hsourced := replies_sourced hreach (fun _ _ h j act hact => (h j act hact).2) i
  have hold : a ∈ (p.1.module i).fibers := by
    by_contra hnew
    obtain ⟨⟨_, _, hsched⟩, -⟩ := hmove.newborn hmem hnew
    cases hsched
  have hopen := hmove.unfinished hmodes hmem hdone hold
  have hstands := h.stands i a hold hopen
  by_cases hcur : (p.1.module i).current = some a
  · have hret : c ≠ .ret := by
      rintro rfl
      exact Bool.false_ne_true (hdone.symm.trans (hmove.ret_done hcur))
    rw [hstate hcur]
    exact hstands.calls hkeeps.blocks (Follows.next hplays.2 hcur hret) hret hmodes hledger
      (hledger.move hwrap hmove) hwrap ⟨hasked, hentered hcur⟩ hok hcur hmove
      fun rr hrr => h.promised _ _ _ (hsourced.records a rr hrr)
  · have hnot : m'.current ≠ some a := by
      intro hcur'
      obtain ⟨_, _, hsched, -⟩ := hmove.resumes hmodes hold hcur hcur'
      cases hsched
    rw [hother hcur]
    exact hstands.stays hmove hmodes hold hopen hcur hnot hasked

end Stands

theorem TermsKept.stands_step (h : TermsKept T inv p) (hkeeps : app.Keeps T inv) (hrun : AppRun app T.tbl p)
    (hplays : Plays app p act) (hstep : Lts.watch Sys.step (Control.note app) p act = some p') :
    ∀ i, ∀ a ∈ (p'.1.module i).fibers, ((p'.1.module i).fiber a).done = false →
      Stands T inv p'.2.asked (p'.1.module i) i a (p'.2.state i a) := by
  obtain ⟨hs, hnote⟩ := Lts.watch_eq hstep
  have hasked := h.asked_grows hplays hstep
  intro i a hmem hdone
  obtain ⟨m₁, hm₁, hs'⟩ := Sys.step_moved hs i
  -- an event that arrives in the same step changes none of these
  have hsame : (p'.1.module i).fibers = m₁.fibers ∧ (p'.1.module i).fiber = m₁.fiber ∧
      (p'.1.module i).current = m₁.current ∧ (∀ v, (p'.1.module i).answer a v = m₁.answer a v) ∧
      ∀ (c : Call) st, c.made app.blocks (p.1.module i) (p'.1.module i) a st =
        c.made app.blocks (p.1.module i) m₁ a st := by
    rcases hs' with heq | ⟨e, heq⟩ <;> rw [heq] <;> exact ⟨rfl, rfl, rfl, fun _ => rfl, fun _ _ => rfl⟩
  obtain ⟨hfibers, hfiber, hcurrent, hanswer, hmade⟩ := hsame
  rw [hfibers] at hmem
  rw [hfiber] at hdone
  have hidle : p.1.localAct i act = none ∨ p.1.localAct i act = some .stop →
      p'.2.state i a = p.2.state i a := by
    intro hact
    rw [hnote]
    refine note_other (fun ok heq => ?_) fun c ok heq => ?_
    · subst heq
      rcases hact with hact | hact <;> cases hact.symm.trans (if_pos rfl)
    · subst heq
      rcases hact with hact | hact <;> cases hact.symm.trans (if_pos rfl)
  have hstands : Stands T inv p'.2.asked m₁ i a (p'.2.state i a) := by
    cases hm₁ with
    | stay hstay => exact h.stands_idle hasked (hidle (.inl hstay)) rfl rfl rfl rfl hmem hdone
    | @move mact eff _ hact hmove =>
        cases mact with
        | stop =>
            cases hmove with
            | stop => exact h.stands_idle hasked (hidle (.inr hact)) rfl rfl rfl rfl hmem hdone
        | sched now ok =>
            obtain ⟨rfl, rfl⟩ := Sys.localAct_sched hact
            refine h.stands_sched hkeeps hrun hasked (hplays.1 i _ hact).2 hmove hmem hdone (fun hcur => ?_)
              fun hcur => ?_
            · rw [hnote, note_sched app p.2 (hcurrent.trans hcur), hfiber, hanswer]
            · rw [hnote]
              refine note_other (fun _ _ => hcurrent ▸ hcur) fun _ _ hcall => ?_
              cases hcall
        | call c now id ok =>
            obtain rfl := localAct_call hact
            obtain ⟨hwrap, hok⟩ := hplays.1 i _ hact
            refine h.stands_call hkeeps hrun hasked hplays hwrap hok hmove hmem hdone (fun hcur q hq => ?_)
              (fun hcur => ?_) fun hcur => ?_
            · rw [hnote]
              exact note_enters hcur hq
            · rw [hnote, note_call hcur, hmade]
            · rw [hnote]
              refine note_other (fun _ hsched => ?_) fun _ _ _ => hcur
              cases hsched
  rcases hs' with heq | ⟨e, heq⟩
  · rw [heq]
    exact hstands
  · rw [heq]
    refine hstands.frame (fun _ _ _ => id) rfl rfl rfl fun x hx => ?_
    obtain rfl := List.mem_singleton.mp hx
    exact Obs.unconcerned rfl

end Step

/-- Every run of a verified application keeps the terms. -/
theorem termsKept {Label : Type*} {app : App Label} {T : Terms} {inv : Label → Local → Prop} {p : Sys × Control Label}
    (hkeeps : app.Keeps T inv) (hrun : AppRun app T.tbl p) : TermsKept T inv p := by
  refine hrun.invariant (P := TermsKept T inv) ⟨fun i a ha => absurd ha List.not_mem_nil,
    fun j e he => absurd he List.not_mem_nil, fun j b o r res msg hx => absurd hx List.not_mem_nil,
    fun i a kind r j q hx => absurd hx List.not_mem_nil, fun i r q hq => by cases hq⟩ ?_
  intro p act p' hrun h hplays hstep
  have hreach : Reaches (EveryModule Ample) T.tbl p.1 := AppRun.reaches hrun
  exact ⟨h.stands_step hkeeps hrun hplays hstep, h.starts_step (setup_fixed hreach).2.1 hplays hstep,
    h.replied_step hkeeps (modes hreach) hplays hstep, h.issued_step hplays hstep,
    h.fresh_step hplays hstep⟩

end Coseq
