import Coseq.AppDiscipline
import Coseq.SyncCalls

/-! The callers of a verified application. A START of an external thread carries what the thread has asked for under
its id, so a `request_sync` returns with what the terms promise for its own request. -/

namespace Coseq

/-- External threads find memory for their events. -/
def Act.PostsWhole : Act → Prop
  | .requestSync _ _ _ _ ok | .asyncPost _ ok => ok.Succeeds
  | _ => True

instance (act : Act) : Decidable act.PostsWhole :=
  match act with
  | .requestSync _ _ _ _ ok | .asyncPost _ ok => inferInstanceAs (Decidable ok.Succeeds)
  | .tick .. | .sched .. | .call .. | .stop .. | .wakeup .. | .requestAsync .. => .isTrue trivial

/-- A step of an application whose callers take turns. -/
def PlaysInTurn {Label : Type*} (app : App Label) (p : Sys × Control Label) (act : Act) : Prop :=
  Plays app p act ∧ OneCaller p.1 act ∧ act.PostsWhole

instance {Label : Type*} (app : App Label) (p : Sys × Control Label) (act : Act) : Decidable (PlaysInTurn app p act) :=
  inferInstanceAs (Decidable (_ ∧ _))

/-- What an external thread has asked for under an id is what it posts, and what arrives. -/
structure Called {Label : Type*} (p : Sys × Control Label) : Prop where
  arrived : ∀ j e, .arrived e ∈ (p.1.module j).trace → e.type = .start → e.requester = .external →
    p.2.called e.reqId = some ⟨j, e.seqIdx, e.msg⟩
  posting : ∀ t rid j q msg, (p.1.threads t).point = .posting rid j q msg → p.2.called rid = some ⟨j, q, msg⟩
  fresh : ∀ rid ask, p.2.called rid = some ask → rid < p.1.ctx.extId

section Step

variable {Label : Type*} {app : App Label} {p p' : Sys × Control Label} {act : Act}

/-- A module posts no external START, and its step leaves the external threads alone. -/
theorem Called.module_step (h : Called p) {i : Nat} {mact : ModAct} {ok : Alloc}
    (hstep : p.1.stepModule i mact ok = some p'.1) (hcalled : p'.2.called = p.2.called) : Called p' := by
  obtain ⟨eff, m', hmove, hmodules, -, hthreads, hid, -⟩ := stepModule_frame hstep
  refine ⟨fun j e hx htype hfrom => ?_, fun t rid j q msg hpoint => ?_, fun rid ask hask => ?_⟩
  · rw [hcalled]
    refine h.arrived j e ?_ htype hfrom
    have hmoved : .arrived e ∈ (Function.update p.1.module i m' j).trace → .arrived e ∈ (p.1.module j).trace := by
      intro hx
      by_cases hj : j = i
      · subst hj
        rw [Function.update_self] at hx
        have hmem : e ∈ accepted m'.trace := List.mem_filterMap.mpr ⟨_, hx, rfl⟩
        rw [hmove.accepted.1] at hmem
        obtain ⟨x, hx, heq⟩ := List.mem_filterMap.mp hmem
        cases x <;> cases heq
        exact hx
      · rwa [Function.update_of_ne hj] at hx
    rw [hmodules] at hx
    rcases delivered_apply p.1.ctx.nrModule (Function.update p.1.module i m') eff j with heq | ⟨e', rfl, -, heq⟩
    · rw [heq] at hx
      exact hmoved hx
    · rw [heq] at hx
      refine (List.mem_append.mp hx).elim hmoved fun hx => ?_
      obtain rfl := Obs.arrived.inj (List.mem_singleton.mp hx)
      have hto := (hmove.start_issued htype).1
      cases hto.symm.trans hfrom
  · rw [hcalled]
    rw [hthreads] at hpoint
    exact h.posting t rid j q msg hpoint
  · rw [hcalled] at hask
    rw [hid]
    exact h.fresh rid ask hask

/-- A START of an external thread arrives as the thread has posted it. -/
theorem Called.post_arrived (h : Called p) {d q rid : Nat} {msg : Bytes} {ok : Alloc} (hok : ok.Succeeds)
    (hmodules : p'.1.module = delivered p.1.ctx.nrModule p.1.module
      (.post d (makeEv .start q rid .external .ignore msg ok)))
    (hcalled : ∀ r ask, p.2.called r = some ask → p'.2.called r = some ask)
    (hnew : p'.2.called rid = some ⟨d, q, msg⟩) {j : Nat} {e : Ev} (hx : .arrived e ∈ (p'.1.module j).trace)
    (htype : e.type = .start) (hfrom : e.requester = .external) :
    p'.2.called e.reqId = some ⟨j, e.seqIdx, e.msg⟩ := by
  rw [hmodules] at hx
  rcases delivered_apply p.1.ctx.nrModule p.1.module (.post d (makeEv .start q rid .external .ignore msg ok)) j with
    heq | ⟨e', hpost, -, heq⟩
  · rw [heq] at hx
    exact hcalled _ _ (h.arrived j e hx htype hfrom)
  · rw [heq] at hx
    rcases List.mem_append.mp hx with hx | hx
    · exact hcalled _ _ (h.arrived j e hx htype hfrom)
    · obtain rfl := Obs.arrived.inj (List.mem_singleton.mp hx)
      obtain ⟨rfl, hmake⟩ := Effect.post.inj hpost
      simp only [makeEv, hok .event, hok .eventMsg, if_true, Option.some.injEq] at hmake
      obtain rfl := hmake
      exact hnew

/-- The point of an external thread after a step that moves one of them. -/
theorem posting_setThread {s s₁ : Sys} {t t' rid j q : Nat} {msg : Bytes} {th : ExtThread}
    (hthreads : s₁.threads = s.threads) (hpoint : ((s₁.setThread t th).threads t').point = .posting rid j q msg) :
    (t' = t ∧ th.point = .posting rid j q msg) ∨ (s.threads t').point = .posting rid j q msg := by
  dsimp only [Sys.setThread] at hpoint
  by_cases ht : t' = t
  · subst ht
    rw [Function.update_self] at hpoint
    exact .inl ⟨rfl, hpoint⟩
  · rw [Function.update_of_ne ht, hthreads] at hpoint
    exact .inr hpoint

/-- Nothing is posted and nothing is asked for. -/
theorem Called.quiet (h : Called p) (hmodules : p'.1.module = p.1.module) (hid : p'.1.ctx.extId = p.1.ctx.extId)
    (hcalled : p'.2.called = p.2.called)
    (hposting : ∀ t rid j q msg, (p'.1.threads t).point = .posting rid j q msg →
      (p.1.threads t).point = .posting rid j q msg) : Called p' where
  arrived := by
    rw [hmodules, hcalled]
    exact h.arrived
  posting t rid j q msg hpoint := by
    rw [hcalled]
    exact h.posting t rid j q msg (hposting t rid j q msg hpoint)
  fresh := by
    rw [hcalled, hid]
    exact h.fresh

/-- A thread takes an id for what it asks for. -/
theorem Called.entered (h : Called p) {ask : Ask} (hwrap : p.1.ctx.extId < 2 ^ 32)
    (hcalled : p'.2.called = Function.update p.2.called p.1.ctx.rid (some ask))
    (hid : p'.1.ctx.extId = p.1.ctx.extId + 1) :
    (∀ r ask, p.2.called r = some ask → p'.2.called r = some ask) ∧ p'.2.called p.1.ctx.rid = some ask ∧
      ∀ r ask, p'.2.called r = some ask → r < p'.1.ctx.extId := by
  have hrid : p.1.ctx.rid = p.1.ctx.extId := Nat.mod_eq_of_lt hwrap
  rw [hcalled, hid]
  refine ⟨fun r ask' hr => ?_, Function.update_self .., fun r ask' hr => ?_⟩
  · have hne : r ≠ p.1.ctx.rid := hrid ▸ Nat.ne_of_lt (h.fresh r ask' hr)
    rw [Function.update_of_ne hne]
    exact hr
  · by_cases hne : r = p.1.ctx.rid
    · rw [hne, hrid]
      exact Nat.lt_succ_self _
    · rw [Function.update_of_ne hne] at hr
      exact Nat.lt_succ_of_lt (h.fresh r ask' hr)

theorem note_called_sched (s s' : Sys) (g : Control Label) (i : Nat) (ok : Alloc) :
    (Control.note app s (.sched i ok) s' g).called = g.called := by
  dsimp only [Control.note]
  split <;> rfl

theorem note_called_call (s s' : Sys) (g : Control Label) (i : Nat) (c : Call) (ok : Alloc) :
    (Control.note app s (.call i c ok) s' g).called = g.called := by
  dsimp only [Control.note]
  split <;> rfl

theorem Called.step (h : Called p) (hplays : PlaysInTurn app p act)
    (hstep : Lts.watch Sys.step (Control.note app) p act = some p') : Called p' := by
  obtain ⟨hs, hnote⟩ := Lts.watch_eq hstep
  cases Sys.step_sysMove hs with
  | tick hs' =>
      exact h.quiet (by rw [hs']; rfl) (by rw [hs']) (by rw [hnote]; rfl) fun _ _ _ _ _ hp => by rwa [hs'] at hp
  | sched hstep' => exact h.module_step hstep' (by rw [hnote, note_called_sched])
  | call hstep' => exact h.module_step hstep' (by rw [hnote, note_called_call])
  | stop hstep' => exact h.module_step hstep' (by rw [hnote]; rfl)
  | @requestSync t i q msg ok hidle hs' =>
      obtain ⟨hmodules, -⟩ := requestSync_frame hs'
      have hid : p'.1.ctx.extId = p.1.ctx.extId + 1 := by
        rw [hs']
        exact (requestSync_mailbox p.1.ctx t i q msg ok).2
      have hcalled : p'.2.called = Function.update p.2.called p.1.ctx.rid (some ⟨i, q, msg⟩) := by rw [hnote]; rfl
      obtain ⟨hold, hnew, hfresh⟩ := h.entered hplays.2.1.2 hcalled hid
      refine ⟨fun j e hx htype hfrom => h.post_arrived hplays.2.2 hmodules hold hnew hx htype hfrom,
        fun t' rid j q' msg' hpoint => ?_, hfresh⟩
      rw [hs'] at hpoint
      rcases posting_setThread rfl hpoint with ⟨-, hpoint⟩ | hpoint
      · cases hpoint
      · exact hold _ _ (h.posting t' rid j q' msg' hpoint)
  | wakeup hwaiting hready hs' =>
      refine h.quiet (by rw [hs']; rfl) (by rw [hs']; rfl) (by rw [hnote]; rfl) fun t rid j q msg hpoint => ?_
      rw [hs'] at hpoint
      rcases posting_setThread rfl hpoint with ⟨-, hpoint⟩ | hpoint
      · cases hpoint
      · exact hpoint
  | sleep hwaiting hready hs' =>
      exact h.quiet (by rw [hs']) (by rw [hs']) (by rw [hnote]; rfl) fun _ _ _ _ _ hp => by rwa [hs'] at hp
  | @requestAsync t i q msg hidle hs' =>
      have hmodules : p'.1.module = p.1.module := by rw [hs']; rfl
      have hid : p'.1.ctx.extId = p.1.ctx.extId + 1 := by rw [hs']; rfl
      have hcalled : p'.2.called = Function.update p.2.called p.1.ctx.rid (some ⟨i, q, msg⟩) := by rw [hnote]; rfl
      obtain ⟨hold, hnew, hfresh⟩ := h.entered hplays.2.1 hcalled hid
      refine ⟨fun j e hx htype hfrom => ?_, fun t' rid j q' msg' hpoint => ?_, hfresh⟩
      · rw [hmodules] at hx
        exact hold _ _ (h.arrived j e hx htype hfrom)
      · rw [hs'] at hpoint
        rcases posting_setThread rfl hpoint with ⟨-, hpoint⟩ | hpoint
        · obtain ⟨rfl, rfl, rfl, rfl⟩ := ExtPoint.posting.inj hpoint
          exact hnew
        · exact hold _ _ (h.posting t' rid j q' msg' hpoint)
  | @asyncPost t rid i q msg ok hposting hs' =>
      obtain ⟨hmodules, -⟩ := asyncPost_frame hs'
      have hcalled : p'.2.called = p.2.called := by rw [hnote]; rfl
      have hid : p'.1.ctx.extId = p.1.ctx.extId := by
        rw [hs']
        exact (post_mailbox p.1.ctx i _).2
      have hold : ∀ r ask, p.2.called r = some ask → p'.2.called r = some ask := fun r ask hr => by rwa [hcalled]
      have hnew : p'.2.called rid = some ⟨i, q, msg⟩ := hold _ _ (h.posting t rid i q msg hposting)
      refine ⟨fun j e hx htype hfrom => h.post_arrived hplays.2.2 hmodules hold hnew hx htype hfrom,
        fun t' rid' j q' msg' hpoint => ?_, ?_⟩
      · rw [hs'] at hpoint
        rcases posting_setThread rfl hpoint with ⟨-, hpoint⟩ | hpoint
        · cases hpoint
        · exact hold _ _ (h.posting t' rid' j q' msg' hpoint)
      · rw [hcalled, hid]
        exact h.fresh

end Step

/-- The runs of an application whose callers take turns. -/
abbrev AppTurns {Label : Type*} (app : App Label) (tbl : List Reg) : Sys × Control Label → Prop :=
  Lts.Run (Lts.watch Sys.step (Control.note app)) (PlaysInTurn app) (boot tbl, Control.start)

section Run

variable {Label : Type*} {app : App Label} {T : Terms} {inv : Label → Local → Prop} {p : Sys × Control Label}

theorem called_noted {tbl : List Reg} (hrun : AppTurns app tbl p) : Called p := by
  have hstart : Called (boot tbl, (Control.start : Control Label)) := by
    refine ⟨fun j e hx => absurd hx List.not_mem_nil, fun t rid j q msg hp => ?_, fun rid ask hask => ?_⟩
    · cases hp
    · cases hask
  refine hrun.invariant (P := Called) hstart ?_
  intro p act p' _ h hplays hstep
  exact h.step hplays hstep

/-- Where external threads take turns, and ids and memory do not run out, `request_sync` returns with what the terms
promise for what was asked for. -/
theorem sync_terms (hkeeps : app.Keeps T inv) (hrun : AppTurns app T.tbl p) {t rid : Nat} {r : Result} {msg : Bytes}
    (hreturned : .returned t rid r msg ∈ p.1.ctx.extTrace) :
    ∃ ask, p.2.called rid = some ask ∧ T.meets ask r msg := by
  have happ : AppRun app T.tbl p := hrun.mono fun _ _ h => h.1
  have hturns : Reaches InTurn T.tbl p.1 := by
    have hmeets : Lts.Run (Lts.watch Sys.step (Control.note app)) (fun p a => InTurn p.1 a)
        (boot T.tbl, Control.start) p := by
      refine hrun.meets fun q act q' hreach hplays hstep => ⟨?_, hplays.2.1⟩
      have hq : AppRun app T.tbl q := hreach.mono fun _ _ h => h.1
      have horderly := (termsKept hkeeps hq).orderly hkeeps hq hplays.1 hstep
      exact fun j mact hact => (horderly.1.1.1 j mact hact).2
    exact hmeets.unwatch
  obtain ⟨hpos, j, b, hreply⟩ := (sync_kept hturns).kept.returned t rid r msg hreturned
  obtain ⟨ask, ⟨e, harrived, htype, hstarted, rfl⟩, hmeets, -⟩ := (termsKept hkeeps happ).replied j b _ rid r msg hreply
  obtain ⟨hto, rfl⟩ := (addressed hturns j).one_address hstarted hreply
  exact ⟨_, (called_noted hrun).arrived j e harrived htype hto.symm, hmeets⟩

end Run

end Coseq
