import Coseq.PendingIds

/-! Where the STARTs come from. Every START that a module sends and every fiber made from one goes back to a line
of the sender's history: the request, with its id, that named this module and this sequence. -/

namespace Coseq

section Move

variable {m m' : Module} {act : ModAct} {eff : Effect}

/-- A call that issues a request does nothing else. -/
theorem Move.issuer {c : Call} {now : Timespec} {id : Nat} {ok : Alloc} {kind : ReqKind} {d q : Nat} {msg : Bytes}
    (hmove : Move m (.call c now id ok) eff m') (hissue : Issues now c kind d q msg) :
    ∃ a, m.current = some a ∧ m'.trace = m.trace ++ issueObs m a kind d q ok ∧ eff = startEv m d q msg ok := by
  cases hmove with
  | @issue _ _ _ a _ _ _ _ _ hcur hissue' =>
      cases hissue <;> cases hissue' <;> exact ⟨a, hcur, rfl, rfl⟩
  | «local» _ hcall =>
      cases hissue <;> cases hcall with
        | null henter => cases henter
        | queued henter => cases henter
        | park henter => cases henter
        | idle hcall => rcases hcall with ⟨_, h⟩ | ⟨_, _, h⟩ <;> cases h
        | notifying hcall => rcases hcall with h | ⟨_, _, h⟩ <;> cases h
  | lock => cases hissue
  | unlock => cases hissue
  | ret => cases hissue

/-- A request in the history is an old one, or the running fiber has just made it. -/
theorem Move.issued_cases (hmove : Move m act eff m') {a : FiberRef} {kind : ReqKind} {r d q : Nat}
    (hx : .issued a kind r d q ∈ m'.trace) : .issued a kind r d q ∈ m.trace ∨
      ∃ c now id ok msg, act = .call c now id ok ∧ Issues now c kind d q msg ∧ m.current = some a ∧ r = m.reqId := by
  rcases hmove.issue_cases with ⟨⟨xs, htrace, hxs⟩, -⟩ | ⟨c, now, id, ok, _, kind', d', q', msg, rfl, hissue, -⟩
  · rw [htrace] at hx
    refine .inl ((List.mem_append.mp hx).resolve_right fun hx => ?_)
    exact absurd (List.filterMap_eq_nil_iff.mp hxs _ hx) (Option.some_ne_none r)
  · obtain ⟨b, hcur, htrace, -⟩ := hmove.issuer hissue
    rw [htrace] at hx
    refine (List.mem_append.mp hx).imp_right fun hx => ?_
    rcases issueObs_mem hx with heq | heq
    · obtain ⟨rfl, rfl, rfl, rfl, rfl⟩ := Obs.issued.inj heq
      exact ⟨c, now, id, ok, msg, rfl, hissue, hcur, rfl⟩
    · cases heq

/-- A START that a move posts is that of a request it enters in the history. -/
theorem Move.start_issued {d : Nat} {e : Ev} (hmove : Move m act (.post d (some e)) m') (htype : e.type = .start) :
    e.requester = .module m.idx ∧ ∃ a kind, .issued a kind e.reqId d e.seqIdx ∈ m'.trace := by
  rcases hmove.issue_cases with ⟨-, -, hno⟩ | ⟨c, now, id, ok, a, kind, d', q, msg, -, -, htrace, -, heff⟩
  · exact absurd htype (hno d e rfl)
  · obtain ⟨rfl, he⟩ := Effect.post.inj heff
    unfold makeEv at he
    split at he
    · obtain rfl := Option.some.inj he
      refine ⟨rfl, a, kind, ?_⟩
      rw [htrace]
      exact List.mem_append_right _ List.mem_cons_self
    · cases he

end Move

/-- The request `r` of module `i` names sequence `q` of module `j`. -/
def Sys.Requests (s : Sys) (i r j q : Nat) : Prop := ∃ a kind, .issued a kind r j q ∈ (s.module i).trace

/-- What is on the way to a request is on the way to one that was made. -/
structure Requested (s : Sys) : Prop where
  start : ∀ j, ∀ e ∈ (s.module j).queue, e.type = .start → ∀ i, e.requester = .module i →
    s.Requests i e.reqId j e.seqIdx
  fiber : ∀ j, ∀ b ∈ (s.module j).fibers, ((s.module j).fiber b).done = false →
    ∀ i, ((s.module j).fiber b).replyTo = .module i →
      ∃ q, ((s.module j).fiber b).fn = .seq q ∧ s.Requests i ((s.module j).fiber b).replyReqId j q

section Step

variable {s s' : Sys} {act : Act}

theorem Sys.Requests.step {i r j q : Nat} (h : s.Requests i r j q) (hstep : s.step act = some s') :
    s'.Requests i r j q := by
  obtain ⟨a, kind, h⟩ := h
  exact ⟨a, kind, Sys.step_trace hstep h⟩

/-- A START of a module has been in the inbox before the step, or its request is made in it. -/
theorem step_start (hstep : s.step act = some s') (hidx : ∀ i, (s.module i).idx = i) {j i : Nat} {e : Ev}
    (he : e ∈ (s'.module j).queue) (htype : e.type = .start) (hfrom : e.requester = .module i) :
    e ∈ (s.module j).queue ∨ s'.Requests i e.reqId j e.seqIdx := by
  cases (Sys.step_delta hstep).1 with
  | @move k act eff m' _ _ hmove hmodules =>
      have hold : ∀ e ∈ (Function.update s.module k m' j).queue, e ∈ (s.module j).queue := by
        by_cases hj : j = k
        · subst hj
          rw [Function.update_self]
          exact hmove.queue_subset
        · rw [Function.update_of_ne hj]
          exact fun _ h => h
      rw [hmodules] at he
      rcases delivered_apply s.ctx.nrModule (Function.update s.module k m') eff j with heq | ⟨e', rfl, -, heq⟩
      · rw [heq] at he
        exact .inl (hold e he)
      · rw [heq] at he
        refine (Module.mem_enqueue he).imp (hold e) ?_
        rintro rfl
        obtain ⟨hto, a, kind, hissued⟩ := hmove.start_issued htype
        obtain rfl : k = i := by
          rw [hidx] at hto
          exact Origin.module.inj (hto.symm.trans hfrom)
        refine ⟨a, kind, ?_⟩
        rw [hmodules]
        rcases delivered_apply s.ctx.nrModule (Function.update s.module k m') (.post j (some e')) k with
          heq' | ⟨e'', -, -, heq'⟩
        · rw [heq', Function.update_self]
          exact hissued
        · rw [heq', Function.update_self]
          exact List.mem_append_left _ hissued
  | @request d q rid msg ok _ hmodules =>
      rw [hmodules] at he
      rcases delivered_apply s.ctx.nrModule s.module (.post d (makeEv .start q rid .external .ignore msg ok)) j with
        heq | ⟨e', hpost, -, heq⟩
      · rw [heq] at he
        exact .inl he
      · rw [heq] at he
        refine (Module.mem_enqueue he).imp id ?_
        rintro rfl
        have hmake := (Effect.post.inj hpost).2
        unfold makeEv at hmake
        split at hmake
        · obtain rfl := Option.some.inj hmake
          cases hfrom
        · cases hmake
  | idle _ hmodules =>
      rw [hmodules] at he
      exact .inl he

/-- A fiber that serves a module was made from its START. -/
theorem Ev.fiber_serves {e : Ev} {ok : Alloc} {i : Nat} (htype : e.type ≠ .reply)
    (hto : (e.fiber ok).replyTo = .module i) :
    e.type = .start ∧ e.requester = .module i ∧ (e.fiber ok).fn = .seq e.seqIdx ∧
      (e.fiber ok).replyReqId = e.reqId := by
  unfold Ev.fiber at hto ⊢
  cases hcase : e.type with
  | reply => exact absurd hcase htype
  | notify =>
      rw [hcase] at hto
      cases hto
  | start =>
      rw [hcase] at hto
      exact ⟨rfl, hto, rfl, rfl⟩

theorem Requested.step (h : Requested s) (hmodes : ∀ j, Modes (s.module j)) (hidx : ∀ i, (s.module i).idx = i)
    (hstep : s.step act = some s') : Requested s' where
  start := by
    intro j e he htype i hfrom
    rcases step_start hstep hidx he htype hfrom with hold | hnew
    · exact (h.start j e hold htype i hfrom).step hstep
    · exact hnew
  fiber := by
    intro j b hb hdone i hto
    rcases step_fiber hstep (hmodes j) hb hdone with ⟨hold, hopen, hkin⟩ | ⟨e, rest, ok, hhead, htype, rfl, hnew⟩
    · obtain ⟨q, hfn, hreq⟩ := h.fiber j b hold hopen i (hkin.replyTo.symm.trans hto)
      refine ⟨q, hkin.fn.trans hfn, ?_⟩
      rw [hkin.replyReqId]
      exact hreq.step hstep
    · rw [hnew] at hto ⊢
      obtain ⟨hstart, hfrom, hfn, hid⟩ := Ev.fiber_serves htype hto
      refine ⟨e.seqIdx, hfn, ?_⟩
      rw [hid]
      exact (h.start j e hhead.mem_queue hstart i hfrom).step hstep

end Step

/-- In every run every START between modules, and every fiber made from one, goes back to a request. -/
theorem requested {ok : Sys → Act → Prop} {tbl : List Reg} {s : Sys} (hrun : Reaches ok tbl s) : Requested s := by
  refine hrun.invariant (P := Requested)
    ⟨fun j e he => absurd he List.not_mem_nil, fun j b hb => absurd hb List.not_mem_nil⟩ ?_
  intro s a s' hreach h _ hstep
  exact h.step (modes hreach) (setup_fixed hreach).2.1 hstep

end Coseq
