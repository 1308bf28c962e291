import Coseq.ReplySource
import Mathlib.Data.List.Nodup

/-! How a listener hears. A notification passes the lock, so it is never deferred: it waits in the inbox and
in the batch, behind those that came before it, until its handler starts. -/

namespace Coseq

def Ev.isNotify (e : Ev) : Bool := e.type == .notify

/-- The notification whose handler starts here. -/
def Obs.heard : Obs → Option Nat
  | .notified _ serial => some serial
  | _ => none

/-- The notifications whose handlers have started, in that order. -/
def heard (l : List Obs) : List Nat := l.filterMap Obs.heard

/-- The notifications that have arrived, in that order. -/
def notices (l : List Obs) : List Ev := (accepted l).filter Ev.isNotify

/-- The notifications that wait for their handlers. -/
def Module.unheard (m : Module) : List Ev := (m.batch ++ m.inbox).filter Ev.isNotify

/-- What has arrived has been heard or waits, in that order, and nothing is heard twice. -/
structure Heard (m : Module) : Prop where
  split : ∃ done, notices m.trace = done ++ m.unheard ∧ heard m.trace = done.map Ev.serial
  held : ∀ e ∈ m.deferred, e.isNotify = false
  nodup : ((accepted m.trace).map Ev.serial).Nodup
  bound : ∀ e ∈ accepted m.trace, e.serial < m.posted

theorem Obs.OfCall.unheard {x : Obs} (h : x.OfCall) : x.heard = none ∧ x.accepted = none := by
  cases x <;> first | exact h.elim | exact ⟨rfl, rfl⟩

theorem wakeObs_unheard {f : Fiber} {a : FiberRef} {why : Wake} :
    ∀ x ∈ f.wakeObs a why, x.heard = none ∧ x.accepted = none := by
  intro x hx
  rcases Fiber.wakeObs_kind x hx with rfl | hcall
  · exact ⟨rfl, rfl⟩
  · exact hcall.unheard

/-- The handler of the notification at the head of the batch starts, whoever holds the lock. -/
theorem Module.step_notify {m m' : Module} {e : Ev} {rest : List Ev} {now : Timespec} {ok : Alloc} {eff : Effect}
    (hhead : AtHead m e rest) (htype : e.type = .notify) (hears : m.recvNotify = true) (hok : ok.Succeeds)
    (hstep : m.step (.sched now ok) = some (m', eff)) :
    m' = { m with
      batch := rest
      nextFiber := m.nextFiber + 1
      fibers := m.nextFiber :: m.fibers
      fiber := Function.update m.fiber m.nextFiber (e.fiber ok)
      current := some m.nextFiber
      trace := m.trace ++ [.notified m.nextFiber e.serial] } := by
  rw [Module.step] at hstep
  split at hstep
  · cases hstep
  · obtain ⟨rfl, -⟩ := Prod.mk.inj (Option.some.inj hstep)
    rw [sched, hhead.phase, hhead.batch]
    dsimp only
    rw [dispatch, if_neg (fun h => h.2 htype), htype]
    dsimp only
    rw [startNotify]
    dsimp only
    rw [if_pos hears]
    split
    · rename_i hnone
      exact absurd hok (newFiber_none hnone)
    · rename_i m₁ a hnew
      obtain ⟨rfl, hres⟩ := resume_newFiber (.notified a e.serial) .reply hnew
      rw [hres, Ev.fiber, htype]

namespace Heard

variable {m m' : Module} {xs : List Obs}

/-- A step that keeps the waiting notifications and starts no handler. -/
theorem quiet (h : Heard m) (htrace : m'.trace = m.trace ++ xs)
    (hxs : ∀ x ∈ xs, x.heard = none ∧ x.accepted = none) (hposted : m'.posted = m.posted)
    (hunheard : m'.unheard = m.unheard) (hheld : ∀ e ∈ m'.deferred, e.isNotify = false) : Heard m' := by
  have hheard : heard m'.trace = heard m.trace := by
    rw [htrace, heard, List.filterMap_append, List.filterMap_eq_nil_iff.mpr fun x hx => (hxs x hx).1,
      List.append_nil]
    rfl
  have haccepted : accepted m'.trace = accepted m.trace := by
    rw [htrace, accepted_append fun x hx => (hxs x hx).2]
  refine ⟨?_, hheld, ?_, ?_⟩
  · rw [notices, haccepted, hunheard, hheard]
    exact h.split
  · rw [haccepted]
    exact h.nodup
  · rw [haccepted, hposted]
    exact h.bound

/-- An event of another kind leaves the batch. -/
theorem skip (h : Heard m) {e : Ev} {rest : List Ev} (hhead : AtHead m e rest) (he : e.isNotify = false)
    (htrace : m'.trace = m.trace ++ xs) (hxs : ∀ x ∈ xs, x.heard = none ∧ x.accepted = none)
    (hposted : m'.posted = m.posted) (hbatch : m'.batch = rest) (hinbox : m'.inbox = m.inbox)
    (hheld : ∀ e ∈ m'.deferred, e.isNotify = false) : Heard m' := by
  refine h.quiet htrace hxs hposted ?_ hheld
  rw [Module.unheard, Module.unheard, hbatch, hinbox, hhead.batch, List.cons_append,
    List.filter_cons_of_neg (by simp [he])]

/-- The handler of the first that waits starts. -/
theorem hear (h : Heard m) {e : Ev} {rest : List Ev} {a : FiberRef} (hhead : AtHead m e rest)
    (he : e.isNotify = true) (htrace : m'.trace = m.trace ++ [.notified a e.serial])
    (hposted : m'.posted = m.posted) (hbatch : m'.batch = rest) (hinbox : m'.inbox = m.inbox)
    (hdeferred : m'.deferred = m.deferred) : Heard m' := by
  have haccepted : accepted m'.trace = accepted m.trace := by
    rw [htrace, accepted_append (by simp [Obs.accepted])]
  have hunheard : m.unheard = e :: m'.unheard := by
    rw [Module.unheard, Module.unheard, hbatch, hinbox, hhead.batch, List.cons_append, List.filter_cons_of_pos he]
  obtain ⟨done, hsplit, hheard⟩ := h.split
  refine ⟨⟨done ++ [e], ?_, ?_⟩, hdeferred ▸ h.held, ?_, ?_⟩
  · rw [notices, haccepted, List.append_assoc]
    exact hsplit.trans (congrArg _ hunheard)
  · rw [htrace, heard, List.filterMap_append, List.map_append, ← hheard]
    rfl
  · rw [haccepted]
    exact h.nodup
  · rw [haccepted, hposted]
    exact h.bound

theorem enqueue (h : Heard m) (e : Ev) : Heard (m.enqueue e) := by
  have haccepted := m.accepted_enqueue e
  have hheard : heard (m.enqueue e).trace = heard m.trace := by
    rw [heard, Module.enqueue, List.filterMap_append]
    exact List.append_nil _
  have hunheard : (m.enqueue e).unheard = m.unheard ++ [{ e with serial := m.posted }].filter Ev.isNotify := by
    rw [Module.unheard, Module.unheard, ← List.filter_append, List.append_assoc]
    rfl
  obtain ⟨done, hsplit, hdone⟩ := h.split
  refine ⟨⟨done, ?_, hheard.trans hdone⟩, h.held, ?_, fun e' he' => ?_⟩
  · rw [notices, haccepted, List.filter_append, hunheard, ← List.append_assoc]
    exact congrArg (· ++ _) hsplit
  · rw [haccepted, List.map_append]
    refine h.nodup.append (List.nodup_singleton _) fun n hn hn' => ?_
    obtain ⟨e', he', rfl⟩ := List.mem_map.mp hn
    exact absurd (h.bound e' he') (by rw [List.mem_singleton.mp hn']; exact Nat.lt_irrefl _)
  · rw [haccepted] at he'
    rcases List.mem_append.mp he' with he' | he'
    · exact Nat.lt_succ_of_lt (h.bound e' he')
    · rw [List.mem_singleton.mp he']
      exact Nat.lt_succ_self _

theorem boot (i : Nat) (reg : Reg) : Heard (Module.boot i reg) :=
  ⟨⟨[], rfl, rfl⟩, fun _ he => absurd he List.not_mem_nil, List.nodup_nil, fun _ he => absurd he List.not_mem_nil⟩

/-- The splice keeps the notifications in their order, for none of them is deferred. -/
theorem merged (h : Heard m) {inbox deferred : List Ev} (hmerge : Merged m inbox deferred) :
    inbox.filter Ev.isNotify = m.inbox.filter Ev.isNotify ∧ ∀ e ∈ deferred, e.isNotify = false := by
  cases hmerge with
  | kept => exact ⟨rfl, h.held⟩
  | spliced =>
      refine ⟨?_, fun _ he => absurd he List.not_mem_nil⟩
      rw [List.filter_append, List.filter_eq_nil_iff.mpr fun e he => by simp [h.held e he], List.nil_append]

theorem reply_not_notify {e : Ev} (htype : e.type = .reply) : e.isNotify = false := by
  simp [Ev.isNotify, htype]

/-- Every step but the start of a handler. -/
theorem move {act : ModAct} {eff : Effect} (h : Heard m) (hmodes : Modes m) (hmove : Move m act eff m')
    (hother : ∀ e rest, AtHead m e rest → m.current = none → (∃ now ok, act = .sched now ok) →
      e.isNotify = false) : Heard m' := by
  have hcalls : ∀ {l : List Obs}, (∀ x ∈ l, x.OfCall) → ∀ x ∈ l, x.heard = none ∧ x.accepted = none :=
    fun hl x hx => (hl x hx).unheard
  have hnil : m.trace = m.trace ++ [] := (List.append_nil _).symm
  have hnone : ∀ x ∈ ([] : List Obs), x.heard = none ∧ x.accepted = none := fun _ hx => absurd hx List.not_mem_nil
  cases hmove with
  | park _ hphase hmerge _ =>
      obtain ⟨hinbox, hheld⟩ := h.merged hmerge
      refine h.quiet hnil hnone rfl ?_ hheld
      simp only [Module.unheard, List.filter_append, hinbox]
  | halt _ hmerge _ =>
      obtain ⟨hinbox, hheld⟩ := h.merged hmerge
      refine h.quiet hnil hnone rfl ?_ hheld
      simp only [Module.unheard, List.filter_append, hinbox]
  | take _ hmerge =>
      obtain ⟨hinbox, hheld⟩ := h.merged hmerge
      obtain ⟨hbatch, -⟩ := hmerge.queue hmodes
      refine h.quiet hnil hnone rfl ?_ hheld
      simp only [Module.unheard, hinbox, hbatch, List.append_nil, List.nil_append]
  | pass => exact h.quiet hnil hnone rfl rfl h.held
  | fire => exact h.quiet rfl wakeObs_unheard rfl rfl h.held
  | expire => exact h.quiet rfl wakeObs_unheard rfl rfl h.held
  | defer hcur hhead _ =>
      have he := hother _ _ hhead hcur ⟨_, _, rfl⟩
      refine h.skip hhead he hnil hnone rfl rfl rfl fun e' he' => ?_
      rcases List.mem_append.mp he' with he' | he'
      · exact h.held e' he'
      · rw [List.mem_singleton.mp he']
        exact he
  | drop hcur hhead _ hdrop =>
      refine h.skip hhead (hother _ _ hhead hcur ⟨_, _, rfl⟩) rfl (fun x hx => ?_) rfl rfl rfl h.held
      rcases hdrop.mem hx with rfl | rfl <;> exact ⟨rfl, rfl⟩
  | begin hcur hhead _ htype _ =>
      have he := hother _ _ hhead hcur ⟨_, _, rfl⟩
      refine h.skip hhead he rfl ?_ rfl rfl rfl h.held
      intro x hx
      obtain rfl := List.mem_singleton.mp hx
      unfold Ev.beginObs
      split
      · rename_i hnotify
        rw [Ev.isNotify, hnotify] at he
        cases he
      · exact ⟨rfl, rfl⟩
  | undefined _ hhead _ htype =>
      exact h.skip hhead (reply_not_notify htype) rfl (by simp [Obs.heard, Obs.accepted]) rfl rfl rfl h.held
  | wake _ hhead _ htype => exact h.skip hhead (reply_not_notify htype) rfl wakeObs_unheard rfl rfl rfl h.held
  | queue _ hhead _ htype => exact h.skip hhead (reply_not_notify htype) hnil hnone rfl rfl rfl h.held
  | lose _ hhead _ htype =>
      exact h.skip hhead (reply_not_notify htype) rfl (by simp [Obs.heard, Obs.accepted]) rfl rfl rfl h.held
  | reap => exact h.quiet hnil hnone rfl rfl h.held
  | issue => exact h.quiet rfl (hcalls issueObs_ofCall) rfl rfl h.held
  | «local» _ hcall => exact h.quiet rfl (hcalls hcall.ofCall) rfl rfl h.held
  | lock => exact h.quiet rfl (by simp [Obs.heard, Obs.accepted]) rfl rfl h.held
  | unlock => exact h.quiet rfl (by simp [Obs.heard, Obs.accepted]) rfl rfl h.held
  | ret => exact h.quiet rfl (by simp [Obs.heard, Obs.accepted]) rfl rfl h.held
  | stop => exact h.quiet hnil hnone rfl rfl h.held

theorem step {act : ModAct} {eff : Effect} (h : Heard m) (hmodes : Modes m) (hears : m.recvNotify = true)
    (hok : AllocOk m act) (hstep : m.step act = some (m', eff)) : Heard m' := by
  by_cases hnotify : ∃ e rest now ok, AtHead m e rest ∧ e.type = .notify ∧ act = .sched now ok
  · obtain ⟨e, rest, now, ok, hhead, htype, rfl⟩ := hnotify
    obtain rfl := Module.step_notify hhead htype hears hok hstep
    exact h.hear hhead (by simp [Ev.isNotify, htype]) rfl rfl rfl rfl rfl
  · refine h.move hmodes (Module.step_move hstep) fun e rest hhead _ hact => ?_
    obtain ⟨now, ok, rfl⟩ := hact
    refine Bool.eq_false_iff.mpr fun he => hnotify ⟨e, rest, now, ok, hhead, ?_, rfl⟩
    simpa [Ev.isNotify] using he

end Heard

theorem Move.recvNotify {m m' : Module} {act : ModAct} {eff : Effect} (h : Move m act eff m') :
    m'.recvNotify = m.recvNotify := by
  cases h <;> rfl

/-- Every module with a handler hears all notifications in their order. -/
theorem heard_in_order {ok : Sys → Act → Prop} {tbl : List Reg} {s : Sys} (hrun : Reaches ok tbl s)
    (hok : ∀ s a, ok s a → EveryModule AllocOk s a) (j : Nat) :
    (s.module j).recvNotify = true → Heard (s.module j) := by
  revert j
  refine hrun.invariant (P := fun s => ∀ j, (s.module j).recvNotify = true → Heard (s.module j))
    (fun j _ => Heard.boot j _) ?_
  intro s a s' hr ih hs hstep j hears
  obtain ⟨m₁, hm₁, hs'⟩ := Sys.step_stepped hstep j
  have hrecv : m₁.recvNotify = true := by
    rcases hs' with heq | ⟨e, heq⟩ <;> rw [heq] at hears <;> exact hears
  have hheard : Heard m₁ := by
    cases hm₁ with
    | stay => exact ih j hrecv
    | step hact hstep₁ =>
        have hold : (s.module j).recvNotify = true := (Module.step_move hstep₁).recvNotify.symm.trans hrecv
        exact (ih j hold).step (modes hr j) hold (hok s a hs j _ hact) hstep₁
  rcases hs' with heq | ⟨e, heq⟩
  · rw [heq]
    exact hheard
  · rw [heq]
    exact hheard.enqueue e

end Coseq
