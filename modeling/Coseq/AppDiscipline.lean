import Coseq.VerifiedApp

/-! What a verified application does not do. Its calls are checked before the run, one sequence at a time; in the run
every request names what exists and goes down, every sequence replies once, and nothing is left outstanding where a
lock is taken or a sequence returns. So replies meet the terms and nothing deadlocks. -/

namespace Coseq

section Step

variable {Label : Type*} {app : App Label} {T : Terms} {inv : Label → Local → Prop} {p p' : Sys × Control Label}
  {act : Act} {i : Nat} {a : FiberRef} {c : Call} {ok : Alloc}

/-- A running fiber that is owed no reply has no entry in the pending list. -/
theorem Local.Fits.unregistered {g : Local} {asked : Nat → Nat → Option Ask} {m : Module} (h : g.Fits asked m i a)
    (hledger : Ledger m) (hcur : m.current = some a) (hasks : g.asks = []) : ∀ p ∈ m.pending, p.f ≠ a := by
  rintro p hp rfl
  have hentry : (p.reqId, p.f) ∈ m.books.entries := List.mem_map.mpr ⟨p, hp, rfl⟩
  rcases hledger.balanced.entry p.reqId p.f hentry with hdue | ⟨d, hstopped⟩
  · have hissued : p.reqId ∈ asyncIds p.f m.trace := by
      rw [← dueIds_books]
      exact Requests.mem_dueIds.mpr hdue
    have hopen : p.reqId ∉ deliveries p.f m.trace := by
      intro hmem
      rw [← collectedIds_books] at hmem
      exact (hledger.balanced.returned_closed (Requests.mem_collectedIds.mp hmem) p.f).1 hentry
    have hmem := (h.open_iff p.reqId).mpr ⟨hissued, hopen⟩
    rw [hasks] at hmem
    cases hmem
  · have hidle := (hledger.modes.running p.f hcur).2.2.1
    have hnone : (m.fiber p.f).stopped = some (d, p.reqId) := hstopped
    rw [hidle.stopped] at hnone
    cases hnone

theorem Move.call_current {m m' : Module} {now : Timespec} {id : Nat} {eff : Effect}
    (hmove : Move m (.call c now id ok) eff m') : ∃ a, m.current = some a := by
  cases hmove <;> exact ⟨_, ‹_›⟩

/-- A condition on calls only. -/
theorem everyModule_of_call {G : Module → ModAct → Prop} {s : Sys} (hsched : ∀ m now ok, G m (.sched now ok))
    (hstop : ∀ m, G m .stop)
    (hcall : ∀ i c ok, act = .call i c ok → G (s.module i) (.call c s.clock s.ctx.nextClientId ok)) :
    EveryModule G s act := by
  intro j mact hact
  cases mact with
  | sched now ok => exact hsched _ _ _
  | stop => exact hstop _
  | call c now id ok =>
      obtain rfl := localAct_call hact
      have hmade : ModAct.call c s.clock s.ctx.nextClientId ok = .call c now id ok :=
        Option.some.inj ((if_pos rfl).symm.trans hact)
      rw [← hmade]
      exact hcall j c ok rfl

/-- The running fiber of an enabled call. -/
theorem step_call_current {s s' : Sys} (hstep : s.step (.call i c ok) = some s') :
    ∃ a, (s.module i).current = some a := by
  obtain ⟨m₁, hm₁, -⟩ := Sys.step_moved hstep i
  cases hm₁ with
  | stay hstay => cases hstay.symm.trans (if_pos rfl)
  | move hact hmove =>
      obtain rfl := Option.some.inj ((if_pos rfl).symm.trans hact)
      exact hmove.call_current

/-- No pending entry and no reply on the way has the id that a request takes. -/
theorem TermsKept.id_unused (h : TermsKept T inv p) (hrun : AppRun app T.tbl p)
    (hid : (p.1.module i).reqId = (p.1.module i).nextReqId) : IdUnused (p.1.module i) := by
  have hreach : Reaches (EveryModule Ample) T.tbl p.1 := AppRun.reaches hrun
  have hledger : Ledger (p.1.module i) := ledger hreach (fun _ _ h j act hact => (h j act hact).1) i
  have hsourced := replies_sourced hreach (fun _ _ h j act hact => (h j act hact).2) i
  refine ⟨fun e he => ?_, fun e he htype => ?_⟩
  · have hentry : (e.reqId, e.f) ∈ (p.1.module i).books.entries := List.mem_map.mpr ⟨e, he, rfl⟩
    obtain ⟨k, hissued⟩ := hledger.balanced.issued_of_entry hentry
    have hlt := hledger.bound e.reqId (Requests.mem_ids.mpr ⟨e.f, k, hissued⟩)
    exact hid ▸ Nat.ne_of_lt hlt
  · have hqueue : e ∈ (p.1.module i).queue := List.mem_append_left _ (List.mem_append_left _ he)
    obtain ⟨j, b, hx⟩ := hsourced.queue e hqueue htype
    obtain ⟨ask, -, -, hto⟩ := h.replied j b _ _ _ _ hx
    exact hid ▸ Nat.ne_of_lt (h.fresh i e.reqId ask (hto i rfl))

section Running

variable (h : TermsKept T inv p) (hkeeps : app.Keeps T inv) (hrun : AppRun app T.tbl p)
  (hplays : Plays app p (.call i c ok)) (hcur : (p.1.module i).current = some a)
include h hkeeps hrun hplays hcur

/-- The call is one that the contract allows. -/
theorem TermsKept.allowed (hret : c ≠ .ret) :
    ∃ g : Local, g.Fits p.2.asked (p.1.module i) i a ∧ T.contract.pre g c :=
  h.makes hkeeps (modes (AppRun.reaches hrun) i) hcur (Follows.next hplays.2 hcur hret)

theorem TermsKept.call_replies :
    RepliesOnce (p.1.module i) (.call c p.1.clock p.1.ctx.nextClientId ok) := by
  cases c with
  | reply r msg =>
      intro b hb _
      obtain rfl := Option.some.inj (hcur.symm.trans hb)
      obtain ⟨g, hfits, ask, hask, -⟩ := h.allowed hkeeps hrun hplays hcur Call.noConfusion
      exact (hfits.owed ask hask).1
  | ret =>
      intro b hb hfn
      obtain rfl := Option.some.inj (hcur.symm.trans hb)
      obtain ⟨g, hfits, howed, -⟩ := h.returns hkeeps (modes (AppRun.reaches hrun) i) hcur (hplays.2 a hcur)
      exact (hfits.settled howed).resolve_right hfn
  | _ => trivial

theorem TermsKept.call_named : Named p.1 (.call i c ok) := by
  have hexists : ∀ j q, c.target = some (j, q) → c ≠ .ret → T.Exists j q := by
    intro j q htarget hret
    obtain ⟨g, -, hpre⟩ := h.allowed hkeeps hrun hplays hcur hret
    cases c with
    | request =>
        obtain ⟨rfl, rfl⟩ := Prod.mk.inj (Option.some.inj htarget)
        exact hpre.1
    | requestAsync =>
        obtain ⟨rfl, rfl⟩ := Prod.mk.inj (Option.some.inj htarget)
        exact hpre.1
    | requestTimeout =>
        obtain ⟨rfl, rfl⟩ := Prod.mk.inj (Option.some.inj htarget)
        exact hpre
    | send =>
        obtain ⟨rfl, rfl⟩ := Prod.mk.inj (Option.some.inj htarget)
        exact hpre
    | _ => cases htarget
  rintro ⟨j, q⟩ htarget
  refine Terms.named (AppRun.reaches hrun) (hexists j q htarget ?_)
  rintro rfl
  cases htarget

theorem TermsKept.call_descends : Descends T.rank T.limit p.1 (.call i c ok) := by
  cases c with
  | request =>
      intro b hb
      obtain rfl := Option.some.inj (hcur.symm.trans hb)
      obtain ⟨g, hfits, -, hbelow⟩ := h.allowed hkeeps hrun hplays hcur Call.noConfusion
      rwa [Terms.Below, hfits.self] at hbelow
  | requestAsync =>
      intro b hb
      obtain rfl := Option.some.inj (hcur.symm.trans hb)
      obtain ⟨g, hfits, -, hbelow⟩ := h.allowed hkeeps hrun hplays hcur Call.noConfusion
      rwa [Terms.Below, hfits.self] at hbelow
  | lock =>
      intro b hb
      obtain rfl := Option.some.inj (hcur.symm.trans hb)
      obtain ⟨g, hfits, hle, -⟩ := h.allowed hkeeps hrun hplays hcur Call.noConfusion
      rwa [hfits.self] at hle
  | _ => trivial

theorem TermsKept.call_clear : LocksClear (p.1.module i) (.call c p.1.clock p.1.ctx.nextClientId ok) ∧
    ReturnsClear (p.1.module i) (.call c p.1.clock p.1.ctx.nextClientId ok) := by
  have hledger : Ledger (p.1.module i) :=
    ledger (AppRun.reaches hrun) (fun _ _ h j act hact => (h j act hact).1) i
  have hunused : (p.1.module i).reqId = (p.1.module i).nextReqId → IdUnused (p.1.module i) :=
    h.id_unused hrun
  cases c with
  | request => exact ⟨hunused (Call.ask_noWrap hplays.ample.1 rfl), trivial⟩
  | requestTimeout => exact ⟨hunused (Call.ask_noWrap hplays.ample.1 rfl), trivial⟩
  | requestAsync => exact ⟨hunused (Call.ask_noWrap hplays.ample.1 rfl), trivial⟩
  | lock =>
      refine ⟨fun b hb e he htype hmem => ?_, trivial⟩
      obtain rfl := Option.some.inj (hcur.symm.trans hb)
      obtain ⟨g, hfits, -, hasks⟩ := h.allowed hkeeps hrun hplays hcur Call.noConfusion
      exact hfits.unregistered hledger hcur hasks _ hmem rfl
  | ret =>
      refine ⟨trivial, fun b hb => ?_⟩
      obtain rfl := Option.some.inj (hcur.symm.trans hb)
      obtain ⟨g, hfits, -, hasks⟩ := h.returns hkeeps (modes (AppRun.reaches hrun) i) hcur (hplays.2 a hcur)
      exact hfits.unregistered hledger hcur hasks
  | _ => exact ⟨trivial, trivial⟩

end Running

/-- Every step of a verified application is orderly. -/
theorem TermsKept.orderly (h : TermsKept T inv p) (hkeeps : app.Keeps T inv) (hrun : AppRun app T.tbl p)
    (hplays : Plays app p act) (hstep : Lts.watch Sys.step (Control.note app) p act = some p') :
    Orderly T.rank T.limit p.1 act := by
  obtain ⟨hs, -⟩ := Lts.watch_eq hstep
  have hcalls : ∀ {G : Module → ModAct → Prop}, (∀ m now ok, G m (.sched now ok)) → (∀ m, G m .stop) →
      (∀ i c ok a, act = .call i c ok → (p.1.module i).current = some a →
        G (p.1.module i) (.call c p.1.clock p.1.ctx.nextClientId ok)) → EveryModule G p.1 act := by
    intro G hsched hstop hcall
    refine everyModule_of_call hsched hstop fun i c ok hact => ?_
    subst hact
    obtain ⟨a, hcur⟩ := step_call_current hs
    exact hcall i c ok a rfl hcur
  have hreplies : EveryModule RepliesOnce p.1 act :=
    hcalls (fun _ _ _ => trivial) (fun _ => trivial) fun i c ok a hact hcur => by
      subst hact
      exact h.call_replies hkeeps hrun hplays hcur
  have hlocks : EveryModule LocksClear p.1 act :=
    hcalls (fun _ _ _ => trivial) (fun _ => trivial) fun i c ok a hact hcur => by
      subst hact
      exact (h.call_clear hkeeps hrun hplays hcur).1
  have hreturns : EveryModule ReturnsClear p.1 act :=
    hcalls (fun _ _ _ => trivial) (fun _ => trivial) fun i c ok a hact hcur => by
      subst hact
      exact (h.call_clear hkeeps hrun hplays hcur).2
  have hrest : Named p.1 act ∧ Descends T.rank T.limit p.1 act := by
    cases act with
    | call i c ok =>
        obtain ⟨a, hcur⟩ := step_call_current hs
        exact ⟨h.call_named hkeeps hrun hplays hcur, h.call_descends hkeeps hrun hplays hcur⟩
    | _ => exact ⟨trivial, trivial⟩
  have hconserving : Conserving p.1 act :=
    ⟨fun j mact hact => ⟨hplays.1 j mact hact, hreplies j mact hact⟩, hrest.1⟩
  exact ⟨⟨hconserving, hreturns⟩, hlocks, hrest.2⟩

end Step

section Run

variable {Label : Type*} {app : App Label} {T : Terms} {inv : Label → Local → Prop} {p : Sys × Control Label}

/-- The runs of a verified application are orderly. -/
theorem AppRun.orderly (hkeeps : app.Keeps T inv) (hrun : AppRun app T.tbl p) :
    Reaches (Orderly T.rank T.limit) T.tbl p.1 := by
  have hmeets : Lts.Run (Lts.watch Sys.step (Control.note app)) (fun p a => Orderly T.rank T.limit p.1 a)
      (boot T.tbl, Control.start) p :=
    hrun.meets fun p a p' hrun hplays hstep => (termsKept hkeeps hrun).orderly hkeeps hrun hplays hstep
  exact hmeets.unwatch

/-- The code of each sequence, checked alone, keeps the terms; then every run of all of them keeps them. No module
touches a freed fiber and no assertion fails; every reply meets the terms for the request that started its sequence,
and every call that returns for a request returns with what the terms promise for that request, or after its
deadline. -/
theorem terms_kept (hkeeps : app.Keeps T inv) (hrun : AppRun app T.tbl p) (i : Nat) :
    (p.1.module i).phase ≠ .undefined ∧
      (∀ a ∈ (p.1.module i).fibers, ((p.1.module i).fiber a).done = false → ¬(p.2.state i a).Fails app.blocks) ∧
      (∀ b o r res msg, .replied b o r res msg ∈ (p.1.module i).trace →
        ∃ e, .arrived e ∈ (p.1.module i).trace ∧ e.type = .start ∧
          .started b o r e.serial ∈ (p.1.module i).trace ∧ T.meets ⟨i, e.seqIdx, e.msg⟩ res msg) ∧
      ∀ a kind why gth r res msg, .returned a kind why gth r res msg ∈ (p.1.module i).trace →
        ∃ ask, p.2.asked i r = some ask ∧ .issued a kind r ask.target ask.seq ∈ (p.1.module i).trace ∧
          (T.meets ask res msg ∨
            ∃ now d, why = .expired now ∧ kind = .timed d ∧ tsLt now d = false ∧ res = .reqTimeout ∧ msg = []) := by
  have h := termsKept hkeeps hrun
  have hreach : Reaches (EveryModule Ample) T.tbl p.1 := AppRun.reaches hrun
  have hclear : Reaches (EveryModule ReturnsClear) T.tbl p.1 :=
    (AppRun.orderly hkeeps hrun).mono fun _ _ h => h.1.2
  refine ⟨(live_refs hclear i).2.defined, fun a hmem hdone => ?_, fun b o r res msg hx => ?_,
    fun a kind why gth r res msg hx => ?_⟩
  · obtain ⟨g, -, hsafe⟩ := (h.stands i a hmem hdone).safe
    exact hsafe.not_fails hkeeps.blocks
  · obtain ⟨ask, ⟨e, harrived, htype, hstarted, rfl⟩, hmeets, -⟩ := h.replied i b o r res msg hx
    obtain ⟨rfl, rfl⟩ := (addressed hreach i).one_address hstarted hx
    exact ⟨e, harrived, htype, hstarted, hmeets⟩
  · have hledger : Ledger (p.1.module i) := ledger hreach (fun _ _ h j act hact => (h j act hact).1) i
    obtain ⟨⟨j, q, hissued⟩, -⟩ := hledger.returned_issued hx
    obtain ⟨text, hasked⟩ := h.issued i a kind r j q hissued
    refine ⟨_, hasked, hissued, ?_⟩
    have hreplied : p.1.RepliesTo i r res msg → T.meets ⟨j, q, text⟩ res msg := by
      rintro ⟨k, b, hreply⟩
      obtain ⟨ask, -, hmeets, hto⟩ := h.replied k b _ r res msg hreply
      obtain rfl := Option.some.inj (hasked.symm.trans (hto i rfl))
      exact hmeets
    have hsource := (replies_sourced hreach (fun _ _ h j act hact => (h j act hact).2) i).returns _ hx
    cases why with
    | reply => exact .inl (hreplied hsource)
    | queued => exact .inl (hreplied hsource)
    | expired now =>
        obtain ⟨rfl, rfl, d, rfl, hdue⟩ := hsource
        exact .inr ⟨now, d, rfl, rfl, hdue, rfl, rfl⟩
    | timer => exact absurd hsource not_false

/-- Applications whose sequences keep the terms do not deadlock: in every standstill of every run in which ids and
memory do not run out all sequences have returned, no request is open, no lock is held and no event is kept back. -/
theorem terms_never_stuck (hkeeps : app.Keeps T inv) (hrun : AppRun app T.tbl p) (hstill : p.1.Standstill) :
    ∀ i < p.1.ctx.nrModule, (p.1.module i).fibers = [] ∧ (p.1.module i).pending = [] ∧
      (p.1.module i).lockedBy = none ∧ (p.1.module i).queue = [] := by
  have horderly : Reaches (Orderly T.rank T.limit) T.tbl p.1 := AppRun.orderly hkeeps hrun
  exact standstill_clean (horderly.mono fun _ _ h => h.1) hstill (ordered_unfinished horderly hstill)

end Run

end Coseq
