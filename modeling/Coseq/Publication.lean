import Coseq.Broker
import Coseq.ClientIds
import Coseq.NotifyOrder
import Coseq.RequestCarriers

/-! What `coseq_notify` posts. The history of registrations and publications of each module is logged along
the run; the listeners of the module are the active entries of that history, and each listener has been
posted what the publications owe it, in their order, but for the rest of the one in progress. -/

namespace Coseq

open Broker (Entry Delivery)

abbrev NotifyOp := Broker.Op Nat Nat Origin Bytes

def NotifyClient.entry (nc : NotifyClient) : Entry Nat Nat Origin := ⟨nc.category, nc.listenerModule, nc.clientId⟩

/-- What a listener is told by an event. -/
def Ev.delivery (e : Ev) : Delivery Nat Nat Bytes := ⟨e.category, e.clientId, e.msg⟩

/-- The notifications of module `p` that have reached the inbox of `m`, in that order. -/
def received (p : Nat) (m : Module) : List (Delivery Nat Nat Bytes) :=
  ((accepted m.trace).filter fun e => e.type == .notify && e.requester == .module p).map Ev.delivery

/-- The notification of module `p` that an effect brings to module `j`. -/
def Effect.delivers (n p j : Nat) : Effect → List (Delivery Nat Nat Bytes)
  | .post d (some e) => if d = j ∧ d < n ∧ e.type = .notify ∧ e.requester = .module p then [e.delivery] else []
  | _ => []

section Received

variable {m : Module} {p n j : Nat} {eff : Effect}

theorem received_enqueue (e : Ev) : received p (m.enqueue e) =
    received p m ++ if e.type = .notify ∧ e.requester = .module p then [e.delivery] else [] := by
  unfold received
  rw [Module.accepted_enqueue, List.filter_append, List.map_append]
  congr 1
  by_cases h : e.type = .notify ∧ e.requester = .module p
  · rw [if_pos h, List.filter_cons_of_pos (by simp [h.1, h.2])]
    rfl
  · rw [if_neg h, List.filter_cons_of_neg (by simpa using h)]
    rfl

theorem Effect.Unpublished.delivers (h : eff.Unpublished) : eff.delivers n p j = [] := by
  unfold Effect.delivers
  split
  · rename_i d e
    exact if_neg fun hc => h.post d e rfl hc.2.2.1
  · rfl

theorem received_delivered (n : Nat) (modules : Nat → Module) (eff : Effect) (j : Nat) :
    received p (delivered n modules eff j) = received p (modules j) ++ eff.delivers n p j := by
  cases eff with
  | post d e =>
      cases e with
      | none => exact (List.append_nil _).symm
      | some e =>
          simp only [delivered, Effect.delivers]
          by_cases hd : d < n
          · rw [if_pos hd]
            by_cases hj : j = d
            · subst hj
              rw [Function.update_self, received_enqueue]
              simp [hd]
            · rw [Function.update_of_ne hj, if_neg fun hc => hj hc.1.symm, List.append_nil]
          · rw [if_neg hd, if_neg fun hc => hd hc.2.1, List.append_nil]
  | none => exact (List.append_nil _).symm
  | extDeliver => exact (List.append_nil _).symm
  | nextClientId => exact (List.append_nil _).symm

end Received

/-- The `coseq_notify` in progress at the module. -/
def Module.publishing (m : Module) : Option NotifyLoop := m.current.bind fun a => (m.fiber a).notifying

/-- What the rest of it is still to post to module `j`. -/
def Module.unposted (m : Module) (j : Nat) : List (Delivery Nat Nat Bytes) :=
  match m.publishing with
  | some l => Broker.deliveries (l.rest.map NotifyClient.entry) l.category l.msg (.module j)
  | none => []

/-- Only the running fiber is in a `coseq_notify`. -/
def Module.Alone (m : Module) : Prop := ∀ b l, (m.fiber b).notifying = some l → m.current = some b

theorem Module.Alone.none {m : Module} (h : m.Alone) (hnone : m.publishing = none) (b : FiberRef) :
    (m.fiber b).notifying = none := by
  cases hb : (m.fiber b).notifying with
  | none => rfl
  | some l =>
      rw [publishing, h b l hb, Option.bind_some, hb] at hnone
      cases hnone

section Loop

variable {m m' : Module} {act : ModAct} {eff : Effect} {a : FiberRef} {l : NotifyLoop}

theorem publishing_of (hcur : m.current = some a) : m.publishing = (m.fiber a).notifying := by
  rw [Module.publishing, hcur, Option.bind_some]

/-- Inside `coseq_notify` the module does nothing else. -/
theorem publishing_step (hpub : m.publishing = some l) (hstep : m.step act = some (m', eff)) :
    (∃ now id ok, act = .call .notifyNext now id ok) ∨ act = .stop := by
  obtain ⟨a, hcur, hnotifying⟩ := Option.bind_eq_some_iff.mp hpub
  cases act with
  | stop => exact .inr rfl
  | sched now ok =>
      rw [Module.step, hcur] at hstep
      cases hstep
  | call c now id ok =>
      rw [Module.step, hcur, Option.bind_some] at hstep
      cases c with
      | notifyNext => exact .inl ⟨now, id, ok, rfl⟩
      | _ =>
          simp only [call, hnotifying] at hstep
          cases hstep

/-- A step outside the notification interface keeps the loop. -/
theorem quiet_publishing (hmodes : Modes m) (halone : m.Alone) (hstep : m.step act = some (m', eff))
    (hc : ∀ c now id ok, act = .call c now id ok → ¬c.OfNotify) :
    m'.publishing = m.publishing ∧ m'.Alone := by
  have hsame := step_notifying hmodes hstep hc
  cases hpub : m.publishing with
  | some l =>
      rcases publishing_step hpub hstep with ⟨now, id, ok, rfl⟩ | rfl
      · exact absurd trivial (hc _ _ _ _ rfl)
      · obtain ⟨rfl, -⟩ := Prod.mk.inj (Option.some.inj hstep)
        exact ⟨hpub, halone⟩
  | none =>
      have hnone : ∀ b, (m'.fiber b).notifying = none := fun b => (hsame b).trans (halone.none hpub b)
      refine ⟨?_, fun b l hb => by rw [hnone b] at hb; cases hb⟩
      cases hcur : m'.current with
      | none => rw [Module.publishing, hcur, Option.bind_none]
      | some b => rw [publishing_of hcur, hnone b]

end Loop

/-! ### The history -/

/-- What a step adds to the history of its module. -/
def Sys.notifyOps (s : Sys) : Act → List (Nat × NotifyOp)
  | .call i (.regNotify category) ok =>
      match (s.module i).current with
      | some a =>
          if ((s.module i).fiber a).replyTo ≠ .external ∧ ok .notifyClient = true then
            [(i, .register ⟨category, ((s.module i).fiber a).replyTo, s.ctx.takenId⟩)]
          else []
      | none => []
  | .call i (.unregNotify category cid) _ => [(i, .unregister category cid)]
  | .call i (.notify category msg) _ => [(i, .publish category msg)]
  | _ => []

/-- The history of module `p`. -/
def opsOf (p : Nat) (log : List (Nat × NotifyOp)) : List NotifyOp :=
  (log.filter fun x => x.1 == p).map Prod.snd

def isRegister (x : Nat × NotifyOp) : Bool :=
  match x.2 with
  | .register _ => true
  | _ => false

/-- The number of registrations ever made. -/
def registrations (log : List (Nat × NotifyOp)) : Nat := log.countP isRegister

section History

variable {p i : Nat} {op : NotifyOp} {log log' : List (Nat × NotifyOp)}

theorem opsOf_self : opsOf i (log ++ [(i, op)]) = opsOf i log ++ [op] := by
  simp [opsOf]

theorem opsOf_of_ne (h : p ≠ i) : opsOf p (log ++ [(i, op)]) = opsOf p log := by
  simp [opsOf, h.symm]

theorem registrations_append : registrations (log ++ log') = registrations log + registrations log' :=
  List.countP_append

end History

/-- The step leaves the loops of `coseq_notify` and what has been posted by them. -/
structure Still (s s' : Sys) : Prop where
  nrModule : s'.ctx.nrModule = s.ctx.nrModule
  publishing : ∀ p, (s'.module p).publishing = (s.module p).publishing
  alone : ∀ p, (s'.module p).Alone
  received : ∀ p k, received p (s'.module k) = received p (s.module k)

/-- The listeners of each module are the active entries of its history, with distinct ids and the index of a
module, and what its publications owe has been posted, but for the rest of the one in progress. -/
structure Brokered (log : List (Nat × NotifyOp)) (s : Sys) : Prop where
  counter : s.ctx.nextClientId = registrations log
  clients : ∀ p, (s.listeners p).map NotifyClient.entry = Broker.active (opsOf p log)
  fresh : ∀ p, ∀ nc ∈ s.listeners p, nc.clientId < s.ctx.nextClientId
  unique : s.UniqueIds
  home : ∀ p, ∀ nc ∈ s.listeners p, ∃ k < s.ctx.nrModule, nc.listenerModule = .module k
  alone : ∀ p, (s.module p).Alone
  rest : ∀ p l, (s.module p).publishing = some l →
    ∀ nc ∈ l.rest, ∃ k < s.ctx.nrModule, nc.listenerModule = .module k
  count : ∀ p l, (s.module p).publishing = some l →
    l.n + l.rest.countP (fun nc => nc.category == l.category) =
      (s.listeners p).countP fun nc => nc.category == l.category
  posted : ∀ p, ∀ k < s.ctx.nrModule,
    received p (s.module k) ++ (s.module p).unposted k = Broker.due (.module k) (opsOf p log)

theorem unposted_congr {m m' : Module} (h : m'.publishing = m.publishing) (k : Nat) :
    m'.unposted k = m.unposted k := by
  rw [Module.unposted, h, Module.unposted]

theorem unposted_none {m : Module} (h : m.publishing = none) (k : Nat) : m.unposted k = [] := by
  rw [Module.unposted, h]

section Step

variable {s s' : Sys} {log : List (Nat × NotifyOp)} {act : Act} {i : Nat}

theorem received_after {m' : Module} {eff : Effect} {ok : Alloc} (p j : Nat) :
    received p ((s.after i m' eff ok).module j) =
      received p (Function.update s.module i m' j) ++ eff.delivers s.ctx.nrModule p j := by
  have hmodules := ((s.ctx.setModule i m').effect_delivered ok eff).1
  change received p (((s.ctx.setModule i m').effect ok eff).modules j) = _
  rw [hmodules]
  exact received_delivered _ _ _ _

theorem after_nrModule {m' : Module} {eff : Effect} {ok : Alloc} :
    (s.after i m' eff ok).ctx.nrModule = s.ctx.nrModule :=
  ((s.ctx.setModule i m').effect_delivered ok eff).2

theorem update_same {β : Type*} {F : Module → β} {m' : Module} (h : F m' = F (s.module i)) (j : Nat) :
    F (Function.update s.module i m' j) = F (s.module j) := by
  by_cases hj : j = i
  · subst hj
    rw [Function.update_self, h]
  · rw [Function.update_of_ne hj]

theorem publishing_enqueue (m : Module) (e : Ev) : (m.enqueue e).publishing = m.publishing := rfl

/-- A step of one module that leaves its loop and posts no notification. -/
theorem still_after {m' : Module} {eff : Effect} {ok : Alloc} (halone : ∀ p, (s.module p).Alone)
    (hpub : m'.publishing = (s.module i).publishing) (halone' : m'.Alone)
    (haccepted : accepted m'.trace = accepted (s.module i).trace)
    (heff : ∀ p k, eff.delivers s.ctx.nrModule p k = []) : Still s (s.after i m' eff ok) := by
  refine ⟨after_nrModule, fun p => ?_, fun p => ?_, fun p k => ?_⟩
  · exact (Sys.after_field publishing_enqueue p).trans (update_same hpub p)
  · have hp : ((s.after i m' eff ok).module p).Alone = (Function.update s.module i m' p).Alone :=
      Sys.after_field (F := Module.Alone) (fun _ _ => rfl) p
    rw [hp]
    by_cases hpi : p = i
    · subst hpi
      rwa [Function.update_self]
    · rw [Function.update_of_ne hpi]
      exact halone p
  · rw [received_after, heff, List.append_nil]
    refine update_same (F := fun m => received p m) ?_ k
    unfold received
    rw [haccepted]

/-- What an external thread does. -/
theorem still_outside (halone : ∀ p, (s.module p).Alone) (hact : ∀ j, s.localAct j act = none)
    (h : s.step act = some s') : Still s s' := by
  obtain ⟨hdelta, hnr⟩ := Sys.step_delta h
  cases hdelta with
  | @move i mact _ _ hlocal =>
      have hi := hlocal i
      rw [hact i, if_pos rfl] at hi
      cases hi
  | @request d seq rid msg ok _ hmodules =>
      have hfield : ∀ {β : Type} {F : Module → β}, (∀ m e, F (m.enqueue e) = F m) →
          ∀ j, F (s'.module j) = F (s.module j) := by
        intro β F hF j
        rw [hmodules]
        rcases delivered_apply s.ctx.nrModule s.module _ j with heq | ⟨e, -, -, heq⟩
        · rw [heq]
        · rw [heq, hF]
      refine ⟨hnr, hfield publishing_enqueue, fun p => ?_, fun p k => ?_⟩
      · rw [hfield (F := Module.Alone) (fun _ _ => rfl) p]
        exact halone p
      · rw [hmodules, received_delivered]
        have hnone : (Effect.post d (makeEv .start seq rid .external .ignore msg ok)).Unpublished := by
          refine ⟨fun _ h => (by cases h), fun d' e h => ?_⟩
          rw [makeEv_type (Effect.post.inj h).2]
          simp
        rw [hnone.delivers, List.append_nil]
  | idle _ hmodules =>
      refine ⟨hnr, fun p => by rw [hmodules], fun p => ?_, fun p k => by rw [hmodules]⟩
      rw [hmodules]
      exact halone p

/-- A step that is no call of the notification interface. -/
theorem still_step {tbl : List Reg} {ok : Sys → Act → Prop} (hrun : Reaches ok tbl s)
    (halone : ∀ p, (s.module p).Alone) (hc : ∀ i c al, act = .call i c al → ¬c.OfNotify)
    (h : s.step act = some s') : Still s s' := by
  have hmodule : ∀ {i : Nat} {mact : ModAct} {al : Alloc},
      (∀ c now id ok, mact = .call c now id ok → ¬c.OfNotify) → s.stepModule i mact al = some s' →
      Still s s' := by
    intro i mact al hquiet h
    obtain ⟨-, m', eff, hstep, rfl⟩ := Sys.stepModule_eq h
    obtain ⟨hpub, halone'⟩ := quiet_publishing (modes hrun i) (halone i) hstep hquiet
    exact still_after halone hpub halone' (Module.step_move hstep).accepted.1
      fun p k => (step_unpublished hstep hquiet).2.delivers
  cases act with
  | sched i al => exact hmodule (by simp) h
  | call i c al =>
      refine hmodule (fun c' now id ok heq => ?_) h
      obtain ⟨rfl, -⟩ := ModAct.call.inj heq
      exact hc i c al rfl
  | stop i => exact hmodule (by simp) h
  | _ => exact still_outside halone (fun _ => rfl) h

end Step

namespace Brokered

variable {s s' : Sys} {log log' : List (Nat × NotifyOp)} {i : Nat} {op : NotifyOp} {ncs : List NotifyClient}

theorem still (h : Brokered log s) (hstill : Still s s') (hl : ∀ j, s'.listeners j = s.listeners j)
    (hnext : s'.ctx.nextClientId = s.ctx.nextClientId) : Brokered log s' where
  counter := hnext.trans h.counter
  clients := fun p => by rw [hl p]; exact h.clients p
  fresh := fun p nc hnc => by rw [hnext]; exact h.fresh p nc (hl p ▸ hnc)
  unique := h.unique.congr hl
  home := fun p nc hnc => by rw [hstill.nrModule]; exact h.home p nc (hl p ▸ hnc)
  alone := hstill.alone
  rest := fun p l hpub => by rw [hstill.nrModule]; exact h.rest p l (hstill.publishing p ▸ hpub)
  count := fun p l hpub => by rw [hl p]; exact h.count p l (hstill.publishing p ▸ hpub)
  posted := fun p k hk => by
    rw [hstill.received, unposted_congr (hstill.publishing p)]
    exact h.posted p k (hstill.nrModule ▸ hk)

/-- A registration is made or given up at module `i`. -/
theorem relist (h : Brokered log s) (hstill : Still s s') (hidle : (s.module i).publishing = none)
    (hl : ∀ j, s'.listeners j = Function.update s.listeners i ncs j)
    (hactive : ncs.map NotifyClient.entry = op.apply (Broker.active (opsOf i log)))
    (howes : ∀ k, op.owes (Broker.active (opsOf i log)) (.module k) = [])
    (hcounter : s'.ctx.nextClientId = registrations (log ++ [(i, op)]))
    (hle : s.ctx.nextClientId ≤ s'.ctx.nextClientId) (hfresh : ∀ nc ∈ ncs, nc.clientId < s'.ctx.nextClientId)
    (hunique : s'.UniqueIds) (hhome : ∀ nc ∈ ncs, ∃ k < s.ctx.nrModule, nc.listenerModule = .module k) :
    Brokered (log ++ [(i, op)]) s' := by
  have hself : s'.listeners i = ncs := (hl i).trans (Function.update_self _ _ _)
  have hother : ∀ p, p ≠ i → s'.listeners p = s.listeners p := fun p hp =>
    (hl p).trans (Function.update_of_ne hp _ _)
  refine ⟨hcounter, fun p => ?_, fun p nc hnc => ?_, hunique, fun p nc hnc => ?_, hstill.alone,
    fun p l hpub => ?_, fun p l hpub => ?_, fun p k hk => ?_⟩
  · by_cases hp : p = i
    · subst hp
      rw [hself, opsOf_self, Broker.active_concat, hactive]
    · rw [hother p hp, opsOf_of_ne hp]
      exact h.clients p
  · by_cases hp : p = i
    · subst hp
      exact hfresh nc (hself ▸ hnc)
    · exact Nat.lt_of_lt_of_le (h.fresh p nc (hother p hp ▸ hnc)) hle
  · rw [hstill.nrModule]
    by_cases hp : p = i
    · subst hp
      exact hhome nc (hself ▸ hnc)
    · exact h.home p nc (hother p hp ▸ hnc)
  · rw [hstill.nrModule]
    exact h.rest p l (hstill.publishing p ▸ hpub)
  · rw [hstill.publishing p] at hpub
    have hp : p ≠ i := by
      rintro rfl
      rw [hidle] at hpub
      cases hpub
    rw [hother p hp]
    exact h.count p l hpub
  · rw [hstill.nrModule] at hk
    rw [hstill.received, unposted_congr (hstill.publishing p), h.posted p k hk]
    by_cases hp : p = i
    · subst hp
      rw [opsOf_self, Broker.due_concat, howes, List.append_nil]
    · rw [opsOf_of_ne hp]

end Brokered

section Turn

variable {s : Sys} {i : Nat} {m m' : Module} {eff : Effect} {ok : Alloc} {a : FiberRef}

theorem publishing_after (p : Nat) :
    ((s.after i m' eff ok).module p).publishing = (Function.update s.module i m' p).publishing :=
  Sys.after_field publishing_enqueue p

theorem alone_after (halone : ∀ p, (s.module p).Alone) (halone' : m'.Alone) (p : Nat) :
    ((s.after i m' eff ok).module p).Alone := by
  rw [Sys.after_field (F := Module.Alone) (fun _ _ => rfl) p]
  by_cases hp : p = i
  · subst hp
    rwa [Function.update_self]
  · rw [Function.update_of_ne hp]
    exact halone p

/-- Only the loop of the running fiber changes. -/
theorem setFiber_alone (halone : m.Alone) (hcur : m.current = some a) (f : Fiber) : (m.setFiber a f).Alone := by
  intro b l hb
  by_cases hba : b = a
  · subst hba
    exact hcur
  · refine halone b l ?_
    have hsame : (m.setFiber a f).fiber b = m.fiber b := Function.update_of_ne hba _ _
    rwa [hsame] at hb

theorem setFiber_publishing (hcur : m.current = some a) (f : Fiber) : (m.setFiber a f).publishing = f.notifying := by
  have hself : (m.setFiber a f).fiber a = f := Function.update_self _ _ _
  rw [publishing_of (m := m.setFiber a f) hcur, hself]

end Turn

namespace Brokered

variable {s : Sys} {log log' : List (Nat × NotifyOp)} {i : Nat} {m' : Module} {eff : Effect} {ok : Alloc}
  {a : FiberRef} {l : NotifyLoop}

/-- `coseq_notify` at module `i` goes on. -/
theorem turn (h : Brokered log s) (hother : ∀ p, p ≠ i → opsOf p log' = opsOf p log)
    (hregistrations : registrations log' = registrations log)
    (hactive : Broker.active (opsOf i log') = Broker.active (opsOf i log))
    (hclients : m'.notifyClients = s.listeners i) (hnext : ∀ id, eff ≠ .nextClientId id) (halone' : m'.Alone)
    (haccepted : accepted m'.trace = accepted (s.module i).trace)
    (heff : ∀ p, p ≠ i → ∀ k, eff.delivers s.ctx.nrModule p k = [])
    (hloop : ∀ l, m'.publishing = some l →
      (∀ nc ∈ l.rest, ∃ k < s.ctx.nrModule, nc.listenerModule = .module k) ∧
      l.n + l.rest.countP (fun nc => nc.category == l.category) =
        (s.listeners i).countP fun nc => nc.category == l.category)
    (hposted : ∀ k < s.ctx.nrModule,
      received i (s.module k) ++ (eff.delivers s.ctx.nrModule i k ++ m'.unposted k) =
        Broker.due (.module k) (opsOf i log')) : Brokered log' (s.after i m' eff ok) := by
  have hl : ∀ j, (s.after i m' eff ok).listeners j = s.listeners j := Sys.module_listeners_same hclients
  have hcounter : (s.after i m' eff ok).ctx.nextClientId = s.ctx.nextClientId := Sys.effect_counter hnext
  have hself : ((s.after i m' eff ok).module i).publishing = m'.publishing := by
    rw [publishing_after, Function.update_self]
  have hpublishing : ∀ p, p ≠ i → ((s.after i m' eff ok).module p).publishing = (s.module p).publishing := by
    intro p hp
    rw [publishing_after, Function.update_of_ne hp]
  have hreceived : ∀ p k, received p ((s.after i m' eff ok).module k) =
      received p (s.module k) ++ eff.delivers s.ctx.nrModule p k := by
    intro p k
    rw [received_after]
    congr 1
    refine update_same (F := fun m => received p m) ?_ k
    unfold received
    rw [haccepted]
  refine ⟨?_, fun p => ?_, fun p nc hnc => ?_, h.unique.congr hl, fun p nc hnc => ?_,
    alone_after h.alone halone', fun p l hpub => ?_, fun p l hpub => ?_, fun p k hk => ?_⟩
  · rw [hcounter, hregistrations]
    exact h.counter
  · rw [hl p]
    by_cases hp : p = i
    · subst hp
      rw [hactive]
      exact h.clients p
    · rw [hother p hp]
      exact h.clients p
  · rw [hcounter]
    exact h.fresh p nc (hl p ▸ hnc)
  · rw [after_nrModule]
    exact h.home p nc (hl p ▸ hnc)
  · rw [after_nrModule]
    by_cases hp : p = i
    · subst hp
      exact (hloop l (hself ▸ hpub)).1
    · exact h.rest p l (hpublishing p hp ▸ hpub)
  · rw [hl p]
    by_cases hp : p = i
    · subst hp
      exact (hloop l (hself ▸ hpub)).2
    · exact h.count p l (hpublishing p hp ▸ hpub)
  · rw [after_nrModule] at hk
    rw [hreceived]
    by_cases hp : p = i
    · subst hp
      rw [unposted_congr hself, List.append_assoc]
      exact hposted k hk
    · rw [heff p hp, List.append_nil, unposted_congr (hpublishing p hp), hother p hp]
      exact h.posted p k hk

/-- `coseq_notify` begins. -/
theorem notify (h : Brokered log s) (hcur : (s.module i).current = some a)
    (hnone : ((s.module i).fiber a).notifying = none) (category : Nat) (msg : Bytes) :
    Brokered (log ++ [(i, .publish category msg)])
      (s.after i (Coseq.notify (s.module i) a category msg) .none ok) := by
  have hself : (Coseq.notify (s.module i) a category msg).publishing = some ⟨category, msg, 0, s.listeners i⟩ :=
    setFiber_publishing hcur _
  refine h.turn (fun p hp => opsOf_of_ne hp) ?_ ?_ rfl (fun _ h => by cases h)
    (setFiber_alone (h.alone i) hcur _) rfl (fun p _ k => Effect.Unpublished.none.delivers) (fun l hl => ?_)
    fun k hk => ?_
  · rw [registrations_append]
    rfl
  · rw [opsOf_self, Broker.active_concat]
    rfl
  · obtain rfl := Option.some.inj (hself.symm.trans hl)
    exact ⟨h.home i, Nat.zero_add _⟩
  · have hold := h.posted i k hk
    rw [unposted_none ((publishing_of hcur).trans hnone), List.append_nil] at hold
    rw [hold, opsOf_self, Broker.due_concat, Effect.Unpublished.none.delivers, Module.unposted, hself]
    simp only [List.nil_append, ← h.clients i]
    rfl

/-- The listener at the head of the rest of the loop. -/
theorem unposted_cons {m : Module} {nc : NotifyClient} {rest : List NotifyClient} (hpub : m.publishing = some l)
    (hrest : l.rest = nc :: rest) (k : Nat) : m.unposted k =
      (if nc.category = l.category ∧ nc.listenerModule = .module k then [⟨l.category, nc.clientId, l.msg⟩] else []) ++
        Broker.deliveries (rest.map NotifyClient.entry) l.category l.msg (.module k) := by
  rw [Module.unposted, hpub]
  dsimp only
  rw [hrest, List.map_cons, Broker.deliveries_cons]
  rfl

/-- The loop ends, skips a listener of another category, or posts to one of its category. -/
inductive Turned (m : Module) (a : FiberRef) (l : NotifyLoop) : Module → Effect → Prop where
  | finished (hrest : l.rest = []) :
      Turned m a l ((m.setFiber a { m.fiber a with notifying := none }).log (.published a l.category l.n)) .none
  | skipped {nc : NotifyClient} {rest : List NotifyClient} (hrest : l.rest = nc :: rest)
      (hcategory : nc.category ≠ l.category) :
      Turned m a l (m.setFiber a { m.fiber a with notifying := some { l with rest := rest } }) .none
  | posted {nc : NotifyClient} {rest : List NotifyClient} {k : Nat} {e : Ev} (hrest : l.rest = nc :: rest)
      (hcategory : nc.category = l.category) (hlistener : nc.listenerModule = .module k) (htype : e.type = .notify)
      (hrequester : e.requester = .module m.idx) (hdelivery : e.delivery = ⟨l.category, nc.clientId, l.msg⟩) :
      Turned m a l (m.setFiber a { m.fiber a with notifying := some { l with rest := rest, n := l.n + 1 } })
        (.post k (some e))

theorem notifyNext_turned {m : Module} (hok : ok.Succeeds)
    (hhome : ∀ nc ∈ l.rest, ∃ k, nc.listenerModule = .module k) :
    Turned m a l (Coseq.notifyNext m a l ok).1 (Coseq.notifyNext m a l ok).2 := by
  unfold Coseq.notifyNext
  dsimp only
  split
  · rename_i hrest
    exact .finished hrest
  · rename_i nc rest hrest
    split
    · rename_i hcategory
      exact .skipped hrest hcategory
    · rename_i hcategory
      obtain ⟨k, hk⟩ := hhome nc (by rw [hrest]; exact List.mem_cons_self)
      simp only [hk, makeEv, hok .event, hok .eventMsg, if_true, Option.map_some]
      exact .posted hrest (not_not.mp hcategory) hk rfl rfl rfl

/-- One turn of the loop. -/
theorem notifyNext (h : Brokered log s) (hidx : (s.module i).idx = i) (hcur : (s.module i).current = some a)
    (hl : ((s.module i).fiber a).notifying = some l) (hturn : Turned (s.module i) a l m' eff) :
    Brokered log (s.after i m' eff ok) := by
  have hpub : (s.module i).publishing = some l := (publishing_of hcur).trans hl
  have hcount := h.count i l hpub
  have hhome := h.rest i l hpub
  have hposted := h.posted i
  cases hturn with
  | finished hrest =>
      have hself : (((s.module i).setFiber a { (s.module i).fiber a with notifying := none }).log
          (.published a l.category l.n)).publishing = none := setFiber_publishing hcur _
      refine h.turn (i := i) (fun _ _ => rfl) rfl rfl rfl (fun _ h => by cases h)
        (setFiber_alone (h.alone i) hcur _) (accepted_append (by simp [Obs.accepted]))
        (fun p _ k => Effect.Unpublished.none.delivers) (fun l' hl' => ?_) fun k hk => ?_
      · rw [hself] at hl'
        cases hl'
      · have hold := hposted k hk
        rw [Module.unposted, hpub] at hold
        rw [Effect.Unpublished.none.delivers, unposted_none hself, ← hold]
        simp [hrest, Broker.deliveries]
  | @skipped nc rest hrest hcategory =>
      have hself : ((s.module i).setFiber a { (s.module i).fiber a with
          notifying := some { l with rest := rest } }).publishing = some { l with rest := rest } :=
        setFiber_publishing hcur _
      refine h.turn (i := i) (fun _ _ => rfl) rfl rfl rfl (fun _ h => by cases h)
        (setFiber_alone (h.alone i) hcur _) rfl (fun p _ k => Effect.Unpublished.none.delivers)
        (fun l' hl' => ?_) fun k hk => ?_
      · obtain rfl := Option.some.inj (hself.symm.trans hl')
        refine ⟨fun nc' hnc' => hhome nc' (hrest ▸ List.mem_cons_of_mem _ hnc'), ?_⟩
        rw [hrest, List.countP_cons_of_neg (by simpa using hcategory)] at hcount
        exact hcount
      · have hold := hposted k hk
        rw [unposted_cons hpub hrest, if_neg fun hc => hcategory hc.1] at hold
        rw [Effect.Unpublished.none.delivers, Module.unposted, hself]
        exact hold
  | @posted nc rest k₀ e hrest hcategory hlistener htype hrequester hdelivery =>
      have hself : ((s.module i).setFiber a { (s.module i).fiber a with
          notifying := some { l with rest := rest, n := l.n + 1 } }).publishing =
            some { l with rest := rest, n := l.n + 1 } := setFiber_publishing hcur _
      obtain ⟨k₁, hk₁, heq⟩ := hhome nc (by rw [hrest]; exact List.mem_cons_self)
      obtain rfl : k₀ = k₁ := Origin.module.inj (hlistener.symm.trans heq)
      rw [hidx] at hrequester
      refine h.turn (i := i) (fun _ _ => rfl) rfl rfl rfl (fun _ h => by cases h)
        (setFiber_alone (h.alone i) hcur _) rfl (fun p hp k => ?_) (fun l' hl' => ?_) fun k hk => ?_
      · refine if_neg fun hc => hp ?_
        exact Origin.module.inj (hc.2.2.2.symm.trans hrequester)
      · obtain rfl := Option.some.inj (hself.symm.trans hl')
        refine ⟨fun nc' hnc' => hhome nc' (hrest ▸ List.mem_cons_of_mem _ hnc'), ?_⟩
        rw [hrest, List.countP_cons_of_pos (by simpa using hcategory)] at hcount
        change l.n + 1 + rest.countP (fun nc => nc.category == l.category) =
          (s.listeners i).countP fun nc => nc.category == l.category
        omega
      · have hold := hposted k hk
        rw [unposted_cons hpub hrest] at hold
        have hdelivers : (Effect.post k₀ (some e)).delivers s.ctx.nrModule i k =
            if nc.category = l.category ∧ nc.listenerModule = .module k then
              [⟨l.category, nc.clientId, l.msg⟩] else [] := by
          simp [Effect.delivers, hk₁, htype, hrequester, hcategory, hlistener, hdelivery]
        rw [hdelivers, Module.unposted, hself]
        exact hold

end Brokered

/-! ### Runs -/

section Run

variable {s s' : Sys} {log : List (Nat × NotifyOp)} {act : Act} {ok : Alloc} {i : Nat} {tbl : List Reg}

/-- A call that only edits the list of listeners. -/
theorem still_edit {m' : Module} {eff : Effect} (halone : ∀ p, (s.module p).Alone)
    (hfiber : m'.fiber = (s.module i).fiber) (hcur : m'.current = (s.module i).current)
    (haccepted : accepted m'.trace = accepted (s.module i).trace)
    (heff : ∀ p k, eff.delivers s.ctx.nrModule p k = []) : Still s (s.after i m' eff ok) := by
  refine still_after halone ?_ (fun b l hb => ?_) haccepted heff
  · rw [Module.publishing, hcur, hfiber, Module.publishing]
  · rw [hcur]
    exact halone i b l (hfiber ▸ hb)

theorem still_register {category : Nat} (halone : ∀ p, (s.module p).Alone)
    (hstep : s.step (.call i (.regNotify category) ok) = some s') : Still s s' := by
  obtain ⟨-, m', eff, hm, rfl⟩ := Sys.stepModule_eq hstep
  obtain ⟨a, -, hcall⟩ := Option.bind_eq_some_iff.mp hm
  obtain ⟨hreg, -⟩ := call_regNotify hcall
  unfold regNotify at hreg
  dsimp only at hreg
  split at hreg
  · obtain ⟨rfl, rfl⟩ := Prod.mk.inj hreg
    exact still_edit halone rfl rfl rfl fun _ _ => rfl
  · split at hreg
    · obtain ⟨rfl, rfl⟩ := Prod.mk.inj hreg
      exact still_edit halone rfl rfl (accepted_append (by simp [Obs.accepted])) fun _ _ => rfl
    · obtain ⟨rfl, rfl⟩ := Prod.mk.inj hreg
      exact still_edit halone rfl rfl rfl fun _ _ => rfl

theorem still_unregister {category cid : Nat} (halone : ∀ p, (s.module p).Alone)
    (hstep : s.step (.call i (.unregNotify category cid) ok) = some s') : Still s s' := by
  obtain ⟨-, m', eff, hm, rfl⟩ := Sys.stepModule_eq hstep
  obtain ⟨a, -, hcall⟩ := Option.bind_eq_some_iff.mp hm
  obtain ⟨rfl, rfl, -⟩ := call_unregNotify hcall
  unfold unregNotify
  dsimp only
  split
  · exact still_edit halone rfl rfl (accepted_append (by simp [Obs.accepted])) fun _ _ => rfl
  · exact still_edit halone rfl rfl rfl fun _ _ => rfl

theorem notifyOps_register {category : Nat} :
    s.registers (.call i (.regNotify category) ok) = false →
      s.notifyOps (.call i (.regNotify category) ok) = [] := by
  intro hreg
  rw [Sys.registers] at hreg
  cases hcur : (s.module i).current with
  | none => simp only [Sys.notifyOps, hcur]
  | some a =>
      rw [hcur, Option.any_some] at hreg
      simp only [Sys.notifyOps, hcur]
      refine if_neg fun hc => ?_
      simp [hc.1, hc.2] at hreg

namespace Brokered

variable {guard : Sys → Act → Prop}

theorem register (h : Brokered log s) (hrun : Reaches guard tbl s) (hok : ok.Succeeds) {category : Nat}
    (hstep : s.step (.call i (.regNotify category) ok) = some s')
    (hlog : registrations (log ++ s.notifyOps (.call i (.regNotify category) ok)) < 255) :
    Brokered (log ++ s.notifyOps (.call i (.regNotify category) ok)) s' := by
  have hstill := still_register h.alone hstep
  cases Sys.step_listeners hstep with
  | same htakes hl hnext =>
      rw [notifyOps_register (Sys.not_registers htakes), List.append_nil]
      exact h.still hstill hl hnext
  | spent hact _ hno =>
      obtain ⟨-, -, rfl⟩ := Act.call.inj hact
      rw [hok .notifyClient] at hno
      cases hno
  | @added _ _ _ a hact _ hcur hlistener hgranted hl hnext =>
      obtain ⟨rfl, hcall, rfl⟩ := Act.call.inj hact
      obtain rfl := Call.regNotify.inj hcall
      have hops : s.notifyOps (.call i (.regNotify category) ok) =
          [(i, .register ⟨category, ((s.module i).fiber a).replyTo, s.ctx.takenId⟩)] := by
        simp only [Sys.notifyOps, hcur]
        exact if_pos ⟨hlistener, hgranted⟩
      rw [hops] at hlog ⊢
      have hcount := hlog
      rw [registrations_append, ← h.counter] at hcount
      change s.ctx.nextClientId + 1 < 255 at hcount
      have htaken : s.ctx.takenId = s.ctx.nextClientId := if_neg (by omega)
      have hidle : (s.module i).publishing = none := by
        obtain ⟨-, _, _, hm, -⟩ := Sys.stepModule_eq hstep
        obtain ⟨b, hb, hcall⟩ := Option.bind_eq_some_iff.mp hm
        exact (publishing_of hb).trans (call_regNotify hcall).2
      have hfree : ∀ j, ∀ x ∈ s.listeners j, x.clientId ≠ s.ctx.takenId := by
        intro j x hx
        rw [htaken]
        exact Nat.ne_of_lt (h.fresh j x hx)
      refine h.relist hstill hidle hl ?_ (fun _ => rfl) ?_ (by omega) (fun nc hnc => ?_)
        ((h.unique.add_iff hl).mpr hfree) fun nc hnc => ?_
      · rw [List.map_cons, h.clients i]
        rfl
      · rw [registrations_append, ← h.counter, hnext, htaken]
        rfl
      · rw [hnext, htaken]
        rcases List.mem_cons.mp hnc with rfl | hnc
        · exact htaken ▸ Nat.lt_succ_self _
        · exact Nat.lt_succ_of_lt (h.fresh i nc hnc)
      · rcases List.mem_cons.mp hnc with rfl | hnc
        · cases hto : ((s.module i).fiber a).replyTo with
          | external => exact absurd hto hlistener
          | module k =>
              obtain ⟨hmem, -⟩ := (modes hrun i).running a hcur
              exact ⟨k, reply_home hrun ((modes hrun i).born a hmem) hto, rfl⟩
        · exact h.home i nc hnc
  | removed hact => cases hact

theorem unregister (h : Brokered log s) {category cid : Nat}
    (hstep : s.step (.call i (.unregNotify category cid) ok) = some s') :
    Brokered (log ++ [(i, .unregister category cid)]) s' := by
  have hstill := still_unregister h.alone hstep
  have hl := Sys.unregNotify_listeners hstep
  have hnext := Sys.unregNotify_counter hstep
  have hidle : (s.module i).publishing = none := by
    obtain ⟨-, _, _, hm, -⟩ := Sys.stepModule_eq hstep
    obtain ⟨b, hb, hcall⟩ := Option.bind_eq_some_iff.mp hm
    exact (publishing_of hb).trans (call_unregNotify hcall).2.2
  have hsub : ∀ nc ∈ (s.listeners i).eraseP (fun nc => nc.category == category && nc.clientId == cid),
      nc ∈ s.listeners i := fun nc hnc => List.eraseP_sublist.subset hnc
  refine h.relist hstill hidle hl ?_ (fun _ => rfl) ?_ (Nat.le_of_eq hnext.symm) (fun nc hnc => ?_)
    (h.unique.remove hl) fun nc hnc => h.home i nc (hsub nc hnc)
  · rw [Sys.erase_eq_filter (h.unique.within i), ← h.clients i, Broker.Op.apply, List.filter_map]
    rfl
  · rw [registrations_append, hnext, h.counter]
    rfl
  · rw [hnext]
    exact h.fresh i nc (hsub nc hnc)

/-- Every step keeps the listeners and the posts in line with the history. -/
theorem step (h : Brokered log s) (hrun : Reaches guard tbl s) (hok : EveryModule AllocOk s act)
    (hstep : s.step act = some s') (hlog : registrations (log ++ s.notifyOps act) < 255) :
    Brokered (log ++ s.notifyOps act) s' := by
  by_cases hc : ∃ i c al, act = .call i c al ∧ c.OfNotify
  · obtain ⟨i, c, al, rfl, hc⟩ := hc
    have hal : al.Succeeds := hok i (.call c s.clock s.ctx.nextClientId al) (if_pos rfl)
    cases c with
    | regNotify category => exact h.register hrun hal hstep hlog
    | unregNotify category cid => exact h.unregister hstep
    | notify category msg =>
        obtain ⟨-, m', eff, hm, rfl⟩ := Sys.stepModule_eq hstep
        obtain ⟨a, hcur, hcall⟩ := Option.bind_eq_some_iff.mp hm
        obtain ⟨rfl, rfl, hnone⟩ := call_notify hcall
        exact h.notify hcur hnone category msg
    | notifyNext =>
        obtain ⟨-, m', eff, hm, rfl⟩ := Sys.stepModule_eq hstep
        obtain ⟨a, hcur, hcall⟩ := Option.bind_eq_some_iff.mp hm
        obtain ⟨l, hl, hnext⟩ := call_notifyNext hcall
        have hhome := h.rest i l ((publishing_of hcur).trans hl)
        have hturn := notifyNext_turned (m := s.module i) (a := a) hal
          fun nc hnc => (hhome nc hnc).imp fun _ hk => hk.2
        rw [hnext] at hturn
        rw [show s.notifyOps (.call i .notifyNext al) = [] from rfl, List.append_nil]
        exact h.notifyNext ((setup_fixed hrun).2.1 i) hcur hl hturn
    | _ => exact hc.elim
  · have hquiet : ∀ i c al, act = .call i c al → ¬c.OfNotify := fun i c al hact hn => hc ⟨i, c, al, hact, hn⟩
    have hops : s.notifyOps act = [] := by
      cases act with
      | call i c al =>
          have hn := hquiet i c al rfl
          cases c with
          | regNotify => exact absurd trivial hn
          | unregNotify => exact absurd trivial hn
          | notify => exact absurd trivial hn
          | _ => rfl
      | _ => rfl
    rw [hops, List.append_nil]
    cases Sys.step_listeners hstep with
    | same _ hl hnext => exact h.still (still_step hrun h.alone hquiet hstep) hl hnext
    | spent hact => exact absurd trivial (hquiet _ _ _ hact)
    | added hact => exact absurd trivial (hquiet _ _ _ hact)
    | removed hact => exact absurd trivial (hquiet _ _ _ hact)

theorem boot (tbl : List Reg) : Brokered [] (boot tbl) where
  counter := rfl
  clients := fun _ => rfl
  fresh := fun _ _ hnc => absurd hnc List.not_mem_nil
  unique := ⟨fun _ => List.nodup_nil, fun _ _ _ _ hx => absurd hx List.not_mem_nil⟩
  home := fun _ _ hnc => absurd hnc List.not_mem_nil
  alone := fun _ _ _ h => by cases h
  rest := fun _ _ h => by cases h
  count := fun _ _ h => by cases h
  posted := fun _ _ _ => rfl

end Brokered

/-- In every run with fewer than 255 registrations. -/
theorem brokered (hrun : Lts.Logged Sys.step (EveryModule AllocOk) Sys.notifyOps (boot tbl) log s) :
    registrations log < 255 → Brokered log s := by
  refine hrun.invariant (P := fun log s => registrations log < 255 → Brokered log s)
    (fun _ => Brokered.boot tbl) fun log s act s' hr ih hok hstep hlog => ?_
  have hle : registrations log < 255 := by
    rw [registrations_append] at hlog
    omega
  exact (ih hle).step hr.run hok hstep hlog

/-- The count that a `coseq_notify` ends with is that of the active registrations of its category. -/
theorem Brokered.published (h : Brokered log s) (hok : ok.Succeeds) {a : FiberRef} {category n : Nat}
    (hstep : s.step (.call i .notifyNext ok) = some s')
    (htrace : (s'.module i).trace = (s.module i).trace ++ [.published a category n]) :
    n = (Broker.active (opsOf i log)).countP fun e => e.category == category := by
  obtain ⟨-, m', eff, hm, rfl⟩ := Sys.stepModule_eq hstep
  obtain ⟨b, hcur, hcall⟩ := Option.bind_eq_some_iff.mp hm
  obtain ⟨l, hl, hnext⟩ := call_notifyNext hcall
  have hpub := (publishing_of hcur).trans hl
  have hcount := h.count i l hpub
  have hturn := notifyNext_turned (m := s.module i) (a := b) hok
    fun nc hnc => (h.rest i l hpub nc hnc).imp fun _ hk => hk.2
  rw [hnext] at hturn
  have hself : (s.after i m' .none ok).module i = m' := s.ctx.setModule_self i m'
  have hnot : (s.module i).trace ≠ (s.module i).trace ++ [.published a category n] := fun heq => by
    simpa using congrArg List.length heq
  cases hturn with
  | finished hrest =>
      rw [hself] at htrace
      obtain ⟨-, hline⟩ := List.append_inj' htrace rfl
      obtain ⟨rfl, rfl, rfl⟩ := Obs.published.inj (List.singleton_injective hline)
      rw [hrest, List.countP_nil, Nat.add_zero] at hcount
      rw [← h.clients i, List.countP_map, hcount]
      rfl
  | skipped =>
      rw [hself] at htrace
      exact absurd htrace hnot
  | @posted nc rest k e hrest =>
      have hmodules := ((s.ctx.setModule i ((s.module i).setFiber b { (s.module i).fiber b with
        notifying := some { l with rest := rest, n := l.n + 1 } })).effect_delivered ok (.post k (some e))).1
      have hmodule := congrFun hmodules i
      rcases delivered_apply _ _ (.post k (some e)) i with heq | ⟨e', -, -, heq⟩
      · rw [heq, s.ctx.setModule_self] at hmodule
        exact absurd ((congrArg Module.trace hmodule).symm.trans htrace) hnot
      · rw [heq, s.ctx.setModule_self] at hmodule
        have hlines := (congrArg Module.trace hmodule).symm.trans htrace
        obtain ⟨-, hline⟩ := List.append_inj' hlines rfl
        cases List.singleton_injective hline

end Run

/-- What the publications have brought about, with the history `log`. -/
structure Published (log : List (Nat × NotifyOp)) (s : Sys) : Prop where
  /-- Every active registration names a module of the instance, and no two share an id. -/
  listeners : ∀ p, (∀ e ∈ Broker.active (opsOf p log), ∃ k < s.ctx.nrModule, e.listener = .module k) ∧
    ((Broker.active (opsOf p log)).map Entry.id).Nodup
  /-- Each module has been posted what the publications owe it, but for the rest of the one in progress. -/
  posted : ∀ p, ∀ k < s.ctx.nrModule,
    received p (s.module k) ++ (s.module p).unposted k = Broker.due (.module k) (opsOf p log)
  /-- `coseq_notify` returns whether it has posted, and does so if there is a registration. -/
  returned : ∀ p (ok : Alloc) s' a category n, ok.Succeeds → s.step (.call p .notifyNext ok) = some s' →
    (s'.module p).trace = (s.module p).trace ++ [.published a category n] →
      (0 < n ↔ ∃ e ∈ Broker.active (opsOf p log), e.category = category)
  /-- The handlers have started in the order of the posts, once each. -/
  heard : ∀ k, (s.module k).recvNotify = true → Heard (s.module k)
  /-- The next handler starts in the next step of the event loop, with the id and the message of its event. -/
  handled : ∀ k e rest (ok : Alloc) s', (s.module k).recvNotify = true → AtHead (s.module k) e rest →
    e.type = .notify → ok.Succeeds → s.step (.sched k ok) = some s' →
      ∃ a, (s'.module k).current = some a ∧ (s'.module k).trace = (s.module k).trace ++ [.notified a e.serial] ∧
        ((s'.module k).fiber a).src.clientId = e.clientId ∧ ((s'.module k).fiber a).message = e.msg

/-- In every run in which memory does not run out and fewer than 255 registrations are made, `coseq_notify`
posts to the active registrations of its category and to no others, and the listeners hear it once and in
order. -/
theorem notify_exact {tbl : List Reg} {log : List (Nat × NotifyOp)} {s : Sys}
    (hrun : Lts.Logged Sys.step (EveryModule AllocOk) Sys.notifyOps (boot tbl) log s)
    (hfew : registrations log < 255) : Published log s := by
  have h := brokered hrun hfew
  have hr := hrun.run
  refine ⟨fun p => ⟨fun e he => ?_, ?_⟩, h.posted, ?_, fun k => heard_in_order hr (fun _ _ h => h) k, ?_⟩
  · rw [← h.clients p] at he
    obtain ⟨nc, hnc, rfl⟩ := List.mem_map.mp he
    exact h.home p nc hnc
  · rw [← h.clients p, List.map_map]
    exact h.unique.within p
  · intro p ok s' a category n hok hstep htrace
    rw [h.published hok hstep htrace, List.countP_pos_iff]
    simp only [beq_iff_eq]
  · intro k e rest ok s' hears hhead htype hok hstep
    obtain ⟨-, m', eff, hm, rfl⟩ := Sys.stepModule_eq hstep
    have hm' := Module.step_notify hhead htype hears hok hm
    have heff : eff = .none := by
      rw [Module.step] at hm
      split at hm
      · cases hm
      · exact (Prod.mk.inj (Option.some.inj hm)).2.symm
    subst heff
    have hself : (s.after k m' .none ok).module k = m' := s.ctx.setModule_self k m'
    rw [hself, hm']
    refine ⟨_, rfl, rfl, ?_, ?_⟩
    · simp [Ev.fiber, htype, freshFiber, Fiber.setSrc]
    · simp only [Function.update_self, Ev.fiber, htype]
      exact Fiber.setSrc_message (hok .srcBuf)

/-- Module 0 waits with the lock held and a START deferred; module 1 has registered it three times, has given
up one registration, and publishes. -/
def publishRun : List Act :=
  [.requestAsync 0 0 0 [], .asyncPost 0 .granted, .thread 0, .thread 0, .thread 0, .thread 0, .fiber 0 .lock,
    .fiber 0 (.send 1 0 []), .fiber 0 (.waitTimeout 1000), .requestAsync 0 0 0 [], .asyncPost 0 .granted,
    .thread 1, .thread 1, .thread 1, .thread 1, .fiber 1 (.regNotify 0), .fiber 1 (.regNotify 1),
    .fiber 1 (.regNotify 0), .fiber 1 (.unregNotify 0 0), .fiber 1 (.notify 0 [7]), .fiber 1 .notifyNext,
    .fiber 1 .notifyNext, .thread 0, .thread 0, .thread 0, .thread 0, .thread 0, .thread 0, .thread 0]

theorem publishRun_exact : ∃ log s,
    Lts.Logged Sys.step (EveryModule AllocOk) Sys.notifyOps (boot [⟨1, true⟩, ⟨1, false⟩]) log s ∧
      (s.module 0).lockedBy = some 0 ∧ (s.module 0).deferred.map Ev.type = [.start] ∧
      received 1 (s.module 0) = [⟨0, 2, [7]⟩] ∧ heard (s.module 0).trace = [2] ∧ Published log s := by
  obtain ⟨log, s, hrun, hs⟩ : ∃ log s,
      Lts.Logged Sys.step (EveryModule AllocOk) Sys.notifyOps (boot [⟨1, true⟩, ⟨1, false⟩]) log s ∧
        decide (registrations log < 255 ∧ (s.module 0).lockedBy = some 0 ∧
          (s.module 0).deferred.map Ev.type = [.start] ∧ received 1 (s.module 0) = [⟨0, 2, [7]⟩] ∧
          heard (s.module 0).trace = [2]) = true :=
    Lts.exists_logged publishRun (by decide +kernel)
  obtain ⟨hfew, hlock, hdeferred, hreceived, hheard⟩ := of_decide_eq_true hs
  exact ⟨log, s, hrun, hlock, hdeferred, hreceived, hheard, notify_exact hrun hfew⟩

end Coseq
