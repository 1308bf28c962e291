import Coseq.PendingList
import Coseq.ReplyAddress
import Coseq.ReplySource
import Coseq.StartTokens

/-! The ids a module may take. Until its counter wraps the next id is registered for no fiber, no fiber waits
for it, and no reply in the queues of the module carries it, whatever the other modules and the external
threads do. -/

namespace Coseq

/-- No pending entry and no reply in the queues has the next id. -/
def NextUnused (m : Module) : Prop :=
  (∀ p ∈ m.pending, p.reqId ≠ m.reqId) ∧ ∀ e ∈ m.queue, e.type = .reply → e.reqId ≠ m.reqId

instance (m : Module) : Decidable (NextUnused m) := inferInstanceAs (Decidable (_ ∧ _))

/-- The next id is unused and no fiber waits for it. -/
def NextFresh (m : Module) : Prop :=
  NextUnused m ∧ ∀ a ∈ m.fibers, (m.fiber a).waitingReply = true → (m.fiber a).waitReqId ≠ m.reqId

instance (m : Module) : Decidable (NextFresh m) := inferInstanceAs (Decidable (_ ∧ _))

/-- Once the counter has wrapped, a request that is to be answered is made where `P` holds. -/
def OnceWrapped (P : Module → Prop) (m : Module) : ModAct → Prop
  | .call (.request ..) _ _ _ | .call (.requestTimeout ..) _ _ _ | .call (.requestAsync ..) _ _ _ =>
      2 ^ 32 ≤ m.nextReqId → P m
  | _ => True

instance {P : Module → Prop} [∀ m, Decidable (P m)] (m : Module) (act : ModAct) :
    Decidable (OnceWrapped P m act) :=
  match act with
  | .call (.request ..) .. | .call (.requestTimeout ..) .. | .call (.requestAsync ..) .. =>
      inferInstanceAs (Decidable (_ → _))
  | .sched .. | .stop | .call (.send ..) .. | .call .waitReply .. | .call .gather .. | .call .gatherNext ..
  | .call (.reply ..) .. | .call (.waitTimeout ..) .. | .call (.regNotify ..) ..
  | .call (.unregNotify ..) .. | .call (.notify ..) .. | .call .notifyNext .. | .call .lock ..
  | .call .unlock .. | .call .ret .. => .isTrue trivial

theorem OnceWrapped.holds {P : Module → Prop} {m : Module} {c : Call} {now : Timespec} {id : Nat} {ok : Alloc}
    {kind : ReqKind} {i s : Nat} {msg : Bytes} (hok : OnceWrapped P m (.call c now id ok))
    (hissue : Issues now c kind i s msg) (hawaited : kind.awaited = true)
    (hbefore : m.nextReqId < 2 ^ 32 → P m) : P m := by
  by_cases hwrap : m.nextReqId < 2 ^ 32
  · exact hbefore hwrap
  · cases hissue with
    | request => exact hok (Nat.le_of_not_lt hwrap)
    | requestTimeout => exact hok (Nat.le_of_not_lt hwrap)
    | requestAsync => exact hok (Nat.le_of_not_lt hwrap)
    | send => cases hawaited

/-! ### Waits and entries -/

/-- The record of a fiber keeps the request it waits in. -/
def Fiber.KeepsWait (f f' : Fiber) : Prop :=
  f.waitingReply = true → f'.waitingReply = true ∧ f'.waitReqId = f.waitReqId

theorem Fiber.keepsWait_refl (f : Fiber) : f.KeepsWait f := fun h => ⟨h, rfl⟩

theorem Fiber.keepsWait_update {fiber : FiberRef → Fiber} {b : FiberRef} {f : Fiber} (h : (fiber b).KeepsWait f)
    (a : FiberRef) : (fiber a).KeepsWait (Function.update fiber b f a) :=
  Fiber.update_related (R := Fiber.KeepsWait) Fiber.keepsWait_refl h a

theorem Fiber.keepsWait_of_update {fiber : FiberRef → Fiber} {b : FiberRef} {f : Fiber} (h : f.KeepsWait (fiber b))
    (a : FiberRef) : (Function.update fiber b f a).KeepsWait (fiber a) :=
  Fiber.update_related (R := fun g g' => g'.KeepsWait g) Fiber.keepsWait_refl h a

theorem Fiber.keepsWait_idle {f f' : Fiber} (h : f.waitingReply = false) : f.KeepsWait f' := by
  intro hw
  rw [h] at hw
  cases hw

section Move

variable {m m' : Module} {act : ModAct} {eff : Effect}

theorem LocalCall.keepsWait {a : FiberRef} {now : Timespec} {ok : Alloc} {c : Call} {f : Fiber} {obs : List Obs}
    {cur : Option FiberRef} (h : LocalCall m a now ok c f obs cur eff) : f.KeepsWait (m.fiber a) := by
  cases h with
  | null henter _ _ hnull =>
      obtain ⟨_, rfl⟩ := henter.same
      obtain ⟨_, rfl⟩ := hnull.same
      exact fun hw => ⟨hw, rfl⟩
  | queued henter _ =>
      obtain ⟨_, rfl⟩ := henter.same
      exact fun hw => ⟨hw, rfl⟩
  | park henter _ _ =>
      obtain ⟨_, rfl⟩ := henter.same
      exact fun hw => ⟨hw, rfl⟩
  | _ => exact fun hw => ⟨hw, rfl⟩

/-- A move takes waits and entries away, or it issues one request. -/
theorem Move.register_cases (h : Move m act eff m') :
    ((∀ b, (m'.fiber b).KeepsWait (m.fiber b)) ∧ m'.pending.Sublist m.pending) ∨
      ∃ c now id ok a kind i s msg, act = .call c now id ok ∧ Issues now c kind i s msg ∧ m.current = some a ∧
        m'.fiber = Function.update m.fiber a ((m.fiber a).issued kind m.reqId) ∧
        m'.pending = issuePending m a kind ok ∧ m'.trace = m.trace ++ issueObs m a kind i s ok := by
  have hidle : ∀ {f f' : Fiber}, f.wake.KeepsWait f' := Fiber.keepsWait_idle rfl
  have hsame : ∀ b, (m.fiber b).KeepsWait (m.fiber b) := fun b => (m.fiber b).keepsWait_refl
  have hall : m.pending.Sublist m.pending := List.Sublist.refl _
  cases h with
  | fire => exact .inl ⟨Fiber.keepsWait_of_update hidle, hall⟩
  | expire => exact .inl ⟨Fiber.keepsWait_of_update hidle, pendingTake_sublist⟩
  | @begin _ ok e =>
      have hnew : (e.fiber ok).waitingReply = false := (e.fiber_idle ok).reply
      exact .inl ⟨Fiber.keepsWait_of_update (Fiber.keepsWait_idle hnew), hall⟩
  | undefined => exact .inl ⟨hsame, pendingTake_sublist⟩
  | wake => exact .inl ⟨Fiber.keepsWait_of_update hidle, pendingTake_sublist⟩
  | queue => exact .inl ⟨Fiber.keepsWait_of_update fun hw => ⟨hw, rfl⟩, pendingTake_sublist⟩
  | lose => exact .inl ⟨hsame, pendingTake_sublist⟩
  | issue hcur hissue => exact .inr ⟨_, _, _, _, _, _, _, _, _, rfl, hissue, hcur, rfl, rfl, rfl⟩
  | «local» _ hcall => exact .inl ⟨Fiber.keepsWait_of_update hcall.keepsWait, hall⟩
  | ret => exact .inl ⟨Fiber.keepsWait_of_update fun hw => ⟨hw, rfl⟩, hall⟩
  | _ => exact .inl ⟨hsame, hall⟩

end Move

theorem Fiber.issued_waits {f : Fiber} {kind : ReqKind} {rid : Nat} (hidle : f.waitingReply = false)
    (h : (f.issued kind rid).waitingReply = true) : (f.issued kind rid).waitReqId = rid ∧ kind.awaited = true := by
  cases kind with
  | request => exact ⟨rfl, rfl⟩
  | timed => exact ⟨rfl, rfl⟩
  | async => exact absurd (hidle.symm.trans h) Bool.false_ne_true
  | send => exact absurd (hidle.symm.trans h) Bool.false_ne_true

/-! ### The ids taken -/

/-- The ids a module has taken. -/
def takenIds (l : List Obs) : List Nat := l.filterMap Obs.issueId

/-- What is registered or waited for has been taken, and until the counter wraps it is past every id taken. -/
structure Counted (m : Module) : Prop where
  modes : Modes m
  pending : ∀ p ∈ m.pending, p.reqId ∈ takenIds m.trace
  waits : ∀ a, (m.fiber a).waitingReply = true → (m.fiber a).waitReqId ∈ takenIds m.trace
  bound : m.nextReqId ≤ 2 ^ 32 → ∀ r ∈ takenIds m.trace, r < m.nextReqId

namespace Counted

variable {m m' : Module} {act : ModAct} {eff : Effect}

theorem move (h : Counted m) (hmove : Move m act eff m') : Counted m' := by
  have hids := hmove.issueIds
  rw [← takenIds, ← takenIds] at hids
  have hgrow : ∀ r ∈ takenIds m.trace, r ∈ takenIds m'.trace := by
    intro r hr
    rcases hids with ⟨hids, -⟩ | ⟨hids, -⟩ <;> rw [hids]
    · exact hr
    · exact List.mem_append_left _ hr
  have hbound : m'.nextReqId ≤ 2 ^ 32 → ∀ r ∈ takenIds m'.trace, r < m'.nextReqId := by
    intro hwrap r hr
    rcases hids with ⟨hids, hnext⟩ | ⟨hids, hnext⟩
    · rw [hids] at hr
      rw [hnext] at hwrap ⊢
      exact h.bound hwrap r hr
    · rw [hids] at hr
      rw [hnext] at hwrap ⊢
      rcases List.mem_append.mp hr with hr | hr
      · exact Nat.lt_succ_of_lt (h.bound (Nat.le_of_succ_le hwrap) r hr)
      · obtain rfl := List.mem_singleton.mp hr
        exact Nat.lt_succ_of_le (Nat.mod_le _ _)
  rcases hmove.register_cases with ⟨hwait, hpending⟩ |
    ⟨c, now, id, ok, a, kind, i, s, msg, rfl, hissue, hcur, hfiber, hpending, htrace⟩
  · refine ⟨h.modes.move hmove, fun p hp => hgrow _ (h.pending p (hpending.subset hp)), fun b hb => ?_, hbound⟩
    obtain ⟨hb', hid⟩ := hwait b hb
    rw [← hid]
    exact hgrow _ (h.waits b hb')
  · have hnew : m.reqId ∈ takenIds m'.trace := by
      rw [takenIds, htrace, List.filterMap_append, issueObs_issueIds]
      exact List.mem_append_right _ List.mem_cons_self
    obtain ⟨-, -, hidle, -⟩ := h.modes.running a hcur
    refine ⟨h.modes.move hmove, fun p hp => ?_, fun b hb => ?_, hbound⟩
    · rw [hpending] at hp
      rcases mem_issuePending hp with ⟨rfl, -⟩ | hold
      · exact hnew
      · exact hgrow _ (h.pending p hold)
    · rw [hfiber] at hb ⊢
      by_cases hba : b = a
      · subst hba
        rw [Function.update_self] at hb ⊢
        rw [(Fiber.issued_waits hidle.reply hb).1]
        exact hnew
      · rw [Function.update_of_ne hba] at hb ⊢
        exact hgrow _ (h.waits b hb)

theorem enqueue (h : Counted m) (e : Ev) : Counted (m.enqueue e) := by
  have hids : takenIds (m.enqueue e).trace = takenIds m.trace := by
    rw [takenIds, Module.enqueue, List.filterMap_append]
    exact List.append_nil _
  refine ⟨h.modes.enqueue e, ?_, ?_, ?_⟩
  · rw [hids]
    exact h.pending
  · rw [hids]
    exact h.waits
  · rw [hids]
    exact h.bound

theorem boot (i : Nat) (reg : Reg) : Counted (Module.boot i reg) := by
  refine ⟨Modes.boot i reg, ?_, ?_, fun _ => ?_⟩
  · rintro p ⟨⟩
  · rintro a ⟨⟩
  · rintro r ⟨⟩

end Counted

section Run

variable {ok : Sys → Act → Prop} {tbl : List Reg} {s : Sys}

theorem counted (hrun : Reaches ok tbl s) (j : Nat) : Counted (s.module j) :=
  module_invariant (G := fun _ _ => True) hrun (fun _ _ _ _ _ _ => trivial) Counted.boot
    (fun _ _ _ _ h _ hmove => h.move hmove) (fun _ e h => h.enqueue e) j

/-- Every reply in the queues of a module answers a request the module has made. -/
theorem reply_taken (hrun : Reaches ok tbl s) {j : Nat} {e : Ev} (he : e ∈ (s.module j).queue)
    (htype : e.type = .reply) : e.reqId ∈ takenIds (s.module j).trace := by
  obtain ⟨msg, k, g, hreply⟩ := (replies_known hrun j).queue e he htype
  obtain ⟨-, n, hstart⟩ := (addressed hrun k).replied_started hreply (.inl (by simp))
  have hbegun := started_counts hrun hstart
  have hstarts := starts_le hrun j e.reqId
  have hpos : 0 < (s.module j).trace.countP (Obs.issues e.reqId) := by omega
  obtain ⟨x, hx, hissues⟩ := List.countP_pos_iff.mp hpos
  refine List.mem_filterMap.mpr ⟨x, hx, ?_⟩
  cases x <;> simp [Obs.issues, Obs.issueId] at hissues ⊢
  exact hissues

theorem next_fresh (hrun : Reaches ok tbl s) {j : Nat} (h : (s.module j).nextReqId < 2 ^ 32) :
    NextFresh (s.module j) := by
  have hcounted := counted hrun j
  have hid : (s.module j).reqId = (s.module j).nextReqId := Nat.mod_eq_of_lt h
  have hne : ∀ r ∈ takenIds (s.module j).trace, r ≠ (s.module j).reqId := by
    intro r hr
    rw [hid]
    exact Nat.ne_of_lt (hcounted.bound (Nat.le_of_lt h) r hr)
  exact ⟨⟨fun p hp => hne _ (hcounted.pending p hp), fun e he htype => hne _ (reply_taken hrun he htype)⟩,
    fun a _ ha => hne _ (hcounted.waits a ha)⟩

end Run

end Coseq
