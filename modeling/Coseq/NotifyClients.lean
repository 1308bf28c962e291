import Coseq.EventQueue

/-! The calls that read and write the listeners of a module, `coseq_reg_notify`, `coseq_unreg_notify` and the
loop of `coseq_notify`, and that no other step touches the listeners, the loop or the instance's
`next_client_id`. -/

namespace Coseq

/-- The calls of the notification interface. -/
def Call.OfNotify : Call → Prop
  | .regNotify _ | .unregNotify .. | .notify .. | .notifyNext => True
  | _ => False

instance (c : Call) : Decidable c.OfNotify :=
  match c with
  | .regNotify _ | .unregNotify .. | .notify .. | .notifyNext => .isTrue trivial
  | .request .. | .requestTimeout .. | .requestAsync .. | .send .. | .waitReply | .gather | .gatherNext
  | .reply .. | .waitTimeout _ | .lock | .unlock | .ret => .isFalse id

/-- The step takes no client id and posts no notification. -/
structure Effect.Unpublished (eff : Effect) : Prop where
  counter : ∀ id, eff ≠ .nextClientId id
  post : ∀ d e, eff = .post d (some e) → e.type ≠ .notify

section Calls

variable {m m' : Module} {a : FiberRef} {now : Timespec} {id : Nat} {ok : Alloc} {c : Call} {eff : Effect}

theorem waitReply_clients {g : Bool} : (waitReply m a g ok).notifyClients = m.notifyClients := by
  unfold waitReply
  dsimp only
  split
  · unfold noReply
    dsimp only
    split <;> rfl
  · split <;> rfl

theorem pendingAdd_clients {rid : Nat} : (pendingAdd m rid a ok).notifyClients = m.notifyClients := by
  unfold pendingAdd
  split <;> rfl

theorem gatherNext_clients (h : gatherNext m a ok = some m') : m'.notifyClients = m.notifyClients := by
  unfold gatherNext at h
  dsimp only at h
  split at h
  · obtain rfl := Option.some.inj h
    exact waitReply_clients
  · cases h

theorem call_clients (h : call m a c now id ok = some (m', eff)) (hc : ¬c.OfNotify) :
    m'.notifyClients = m.notifyClients := by
  have hresult : ∀ r : Module × Effect, call m a c now id ok = some r →
      r.1.notifyClients = m.notifyClients → m'.notifyClients = m.notifyClients := by
    intro r hr heq
    obtain rfl := Option.some.inj (h.symm.trans hr)
    exact heq
  cases hnotifying : (m.fiber a).notifying with
  | some l =>
      cases c with
      | notifyNext => exact absurd trivial hc
      | _ =>
          simp only [call, hnotifying] at h
          cases h
  | none =>
      cases c with
      | request i s msg => exact hresult (request m a i s msg ok) (by simp only [call, hnotifying]) pendingAdd_clients
      | requestTimeout i s msg t =>
          exact hresult (requestTimeout m a i s msg t now ok) (by simp only [call, hnotifying]) pendingAdd_clients
      | requestAsync i s msg =>
          exact hresult (requestAsync m a i s msg ok) (by simp only [call, hnotifying]) pendingAdd_clients
      | send i s msg => exact hresult (send m a i s msg ok) (by simp only [call, hnotifying]) rfl
      | waitReply => exact hresult (waitReply m a false ok, .none) (by simp only [call, hnotifying]) waitReply_clients
      | gather => exact hresult (gather m a ok, .none) (by simp only [call, hnotifying]) waitReply_clients
      | gatherNext =>
          simp only [call, hnotifying] at h
          obtain ⟨m₁, hm₁, heq⟩ := Option.map_eq_some_iff.mp h
          obtain ⟨rfl, -⟩ := Prod.mk.inj heq
          exact gatherNext_clients hm₁
      | reply r msg =>
          refine hresult (reply m a r msg ok) (by simp only [call, hnotifying]) ?_
          unfold reply
          dsimp only
          split <;> rfl
      | waitTimeout t => exact hresult (waitTimeout m a t now, .none) (by simp only [call, hnotifying]) rfl
      | lock => exact hresult (lock m a, .none) (by simp only [call, hnotifying]) rfl
      | unlock =>
          refine hresult (unlock m a, .none) (by simp only [call, hnotifying]) ?_
          unfold unlock
          split <;> rfl
      | ret =>
          simp only [call, hnotifying] at h
          split at h
          · obtain ⟨rfl, -⟩ := Prod.mk.inj (Option.some.inj h)
            rfl
          · cases h
      | regNotify => exact absurd trivial hc
      | unregNotify => exact absurd trivial hc
      | notify => exact absurd trivial hc
      | notifyNext => exact absurd trivial hc

end Calls

/-! ### The other steps -/

section Quiet

variable {m m' : Module} {act : ModAct} {eff : Effect}

theorem Effect.Unpublished.none : Effect.Unpublished .none :=
  ⟨fun _ h => (by cases h), fun _ _ h => (by cases h)⟩

theorem startEv_unpublished {i s : Nat} {msg : Bytes} {ok : Alloc} : (startEv m i s msg ok).Unpublished := by
  refine ⟨fun _ h => (by cases h), fun d e h => ?_⟩
  obtain ⟨-, hev⟩ := Effect.post.inj h
  rw [makeEv_type hev]
  simp

theorem reply_unpublished {a : FiberRef} {r : Result} {msg : Bytes} {ok : Alloc} :
    (reply m a r msg ok).2.Unpublished := by
  unfold reply
  dsimp only
  split
  · exact ⟨fun _ h => (by cases h), fun _ _ h => (by cases h)⟩
  · refine ⟨fun _ h => (by cases h), fun d e h => ?_⟩
    obtain ⟨-, hev⟩ := Effect.post.inj h
    rw [makeEv_type hev]
    simp

theorem notifying_update {a : FiberRef} {f : Fiber} (h : f.notifying = (m.fiber a).notifying) (b : FiberRef) :
    (Function.update m.fiber a f b).notifying = (m.fiber b).notifying :=
  Fiber.update_related (R := fun g g' => g'.notifying = g.notifying) (fun _ => rfl) h b

theorem Ev.fiber_notifying (e : Ev) (ok : Alloc) : (e.fiber ok).notifying = none := by
  unfold Ev.fiber
  split <;> rfl

theorem Fiber.issued_notifying (f : Fiber) (kind : ReqKind) (rid : Nat) :
    (f.issued kind rid).notifying = f.notifying := by
  cases kind <;> rfl

/-- A local call outside the notification interface. -/
theorem LocalCall.unpublished {a : FiberRef} {now : Timespec} {ok : Alloc} {c : Call} {f : Fiber}
    {obs : List Obs} {cur : Option FiberRef} (h : LocalCall m a now ok c f obs cur eff) (hc : ¬c.OfNotify) :
    f.notifying = (m.fiber a).notifying ∧ eff.Unpublished := by
  cases h with
  | null henter _ _ hnull =>
      obtain ⟨_, rfl⟩ := henter.same
      obtain ⟨_, rfl⟩ := hnull.same
      exact ⟨rfl, .none⟩
  | queued henter _ =>
      obtain ⟨_, rfl⟩ := henter.same
      exact ⟨rfl, .none⟩
  | park henter _ _ =>
      obtain ⟨_, rfl⟩ := henter.same
      exact ⟨rfl, .none⟩
  | reply => exact ⟨rfl, reply_unpublished⟩
  | waitTimeout => exact ⟨rfl, .none⟩
  | registered => exact absurd trivial hc
  | unregistered => exact absurd trivial hc
  | idle hcall =>
      rcases hcall with ⟨_, rfl⟩ | ⟨_, _, rfl⟩
      · exact absurd trivial hc
      · exact absurd trivial hc
  | notifying hcall =>
      rcases hcall with rfl | ⟨_, _, rfl⟩
      · exact absurd trivial hc
      · exact absurd trivial hc
  | notified => exact absurd trivial hc

/-- A step that is no call of the notification interface leaves the listeners, and publishes nothing. -/
theorem step_unpublished (hstep : m.step act = some (m', eff))
    (hc : ∀ c now id ok, act = .call c now id ok → ¬c.OfNotify) :
    m'.notifyClients = m.notifyClients ∧ eff.Unpublished := by
  constructor
  · cases act with
    | sched now ok => cases Module.step_move hstep <;> rfl
    | call c now id ok =>
        obtain ⟨a, hcur, hcall⟩ := Option.bind_eq_some_iff.mp hstep
        exact call_clients hcall (hc c now id ok rfl)
    | stop =>
        cases Module.step_move hstep
        rfl
  · cases Module.step_move hstep with
    | issue => exact startEv_unpublished
    | «local» _ hcall => exact (hcall.unpublished (hc _ _ _ _ rfl)).2
    | _ => exact .none

/-- Nor does it touch the loop of a `coseq_notify`. -/
theorem step_notifying (hmodes : Modes m) (hstep : m.step act = some (m', eff))
    (hc : ∀ c now id ok, act = .call c now id ok → ¬c.OfNotify) :
    ∀ b, (m'.fiber b).notifying = (m.fiber b).notifying := by
  cases Module.step_move hstep with
  | fire => exact notifying_update rfl
  | expire => exact notifying_update rfl
  | wake => exact notifying_update rfl
  | queue => exact notifying_update rfl
  | begin =>
      refine notifying_update ?_
      rw [Ev.fiber_notifying, hmodes.unborn _ (Nat.le_refl _)]
      rfl
  | issue => exact notifying_update (Fiber.issued_notifying _ _ _)
  | «local» _ hcall => exact notifying_update (hcall.unpublished (hc _ _ _ _ rfl)).1
  | ret => exact notifying_update rfl
  | _ => exact fun _ => rfl

end Quiet

/-! ### The calls themselves -/

section Calls

variable {m m' : Module} {a : FiberRef} {now : Timespec} {id : Nat} {ok : Alloc} {eff : Effect}

theorem call_regNotify {category : Nat} (h : call m a (.regNotify category) now id ok = some (m', eff)) :
    regNotify m a category id ok = (m', eff) ∧ (m.fiber a).notifying = none := by
  cases hnotifying : (m.fiber a).notifying with
  | some l =>
      simp only [call, hnotifying] at h
      cases h
  | none =>
      simp only [call, hnotifying] at h
      exact ⟨Option.some.inj h, rfl⟩

theorem call_unregNotify {category cid : Nat}
    (h : call m a (.unregNotify category cid) now id ok = some (m', eff)) :
    m' = unregNotify m a category cid ∧ eff = .none ∧ (m.fiber a).notifying = none := by
  cases hnotifying : (m.fiber a).notifying with
  | some l =>
      simp only [call, hnotifying] at h
      cases h
  | none =>
      simp only [call, hnotifying] at h
      obtain ⟨rfl, rfl⟩ := Prod.mk.inj (Option.some.inj h)
      exact ⟨rfl, rfl, rfl⟩

theorem call_notify {category : Nat} {msg : Bytes} (h : call m a (.notify category msg) now id ok = some (m', eff)) :
    m' = notify m a category msg ∧ eff = .none ∧ (m.fiber a).notifying = none := by
  cases hnotifying : (m.fiber a).notifying with
  | some l =>
      simp only [call, hnotifying] at h
      cases h
  | none =>
      simp only [call, hnotifying] at h
      obtain ⟨rfl, rfl⟩ := Prod.mk.inj (Option.some.inj h)
      exact ⟨rfl, rfl, rfl⟩

theorem call_notifyNext (h : call m a .notifyNext now id ok = some (m', eff)) :
    ∃ l, (m.fiber a).notifying = some l ∧ notifyNext m a l ok = (m', eff) := by
  cases hnotifying : (m.fiber a).notifying with
  | some l =>
      simp only [call, hnotifying] at h
      exact ⟨l, rfl, Option.some.inj h⟩
  | none =>
      simp only [call, hnotifying] at h
      cases h

/-- The listeners after `coseq_unreg_notify`: the first with this category and id is gone. -/
theorem unregNotify_clients {category cid : Nat} : (unregNotify m a category cid).notifyClients =
    m.notifyClients.eraseP fun nc => nc.category == category && nc.clientId == cid := by
  unfold unregNotify
  dsimp only
  split
  · rfl
  · rename_i hany
    refine (List.eraseP_of_forall_not fun nc hnc hhit => hany ?_).symm
    exact List.any_eq_true.mpr ⟨nc, hnc, hhit⟩

theorem notifyNext_clients {l : NotifyLoop} : (notifyNext m a l ok).1.notifyClients = m.notifyClients := by
  unfold notifyNext
  dsimp only
  split
  · rfl
  · split <;> rfl

theorem notifyNext_counter {l : NotifyLoop} (n : Nat) : (notifyNext m a l ok).2 ≠ .nextClientId n := by
  unfold notifyNext
  dsimp only
  split
  · exact fun h => by cases h
  · split
    · exact fun h => by cases h
    · split <;> exact fun h => by cases h

end Calls

end Coseq
