import Coseq.FiberModes

/-! The reply address of a fiber. It is set once, when the fiber is made from its START; no request of
the fiber and no reply to it changes it, and `coseq_reply` uses it. -/

namespace Coseq

/-- What a fiber is made for, as two of its records agree on it. -/
structure Fiber.Kin (f f' : Fiber) : Prop where
  fn : f'.fn = f.fn
  replyTo : f'.replyTo = f.replyTo
  replyReqId : f'.replyReqId = f.replyReqId

theorem Fiber.Kin.refl (f : Fiber) : f.Kin f := ⟨rfl, rfl, rfl⟩

theorem Fiber.kin_update {fiber : FiberRef → Fiber} {a : FiberRef} {f : Fiber} (h : (fiber a).Kin f)
    (b : FiberRef) : (fiber b).Kin (Function.update fiber a f b) :=
  Fiber.update_related (R := Fiber.Kin) Fiber.Kin.refl h b

theorem LocalCall.kin {m : Module} {a : FiberRef} {now : Timespec} {ok : Alloc} {c : Call} {f : Fiber}
    {obs : List Obs} {cur : Option FiberRef} {eff : Effect}
    (h : LocalCall m a now ok c f obs cur eff) : (m.fiber a).Kin f := by
  cases h with
  | null henter _ _ hnull =>
      obtain ⟨_, rfl⟩ := henter.same
      obtain ⟨_, rfl⟩ := hnull.same
      exact ⟨rfl, rfl, rfl⟩
  | queued henter _ =>
      obtain ⟨_, rfl⟩ := henter.same
      exact ⟨rfl, rfl, rfl⟩
  | park henter _ _ =>
      obtain ⟨_, rfl⟩ := henter.same
      exact ⟨rfl, rfl, rfl⟩
  | _ => exact ⟨rfl, rfl, rfl⟩

theorem Fiber.issued_kin (f : Fiber) (kind : ReqKind) (rid : Nat) : f.Kin (f.issued kind rid) := by
  cases kind <;> exact ⟨rfl, rfl, rfl⟩

/-- A fiber stays what it was made for. -/
theorem Move.kin {m m' : Module} {act : ModAct} {eff : Effect} (hmove : Move m act eff m') :
    ∀ g < m.nextFiber, (m.fiber g).Kin (m'.fiber g) := by
  have hupdate : ∀ {a : FiberRef} {f : Fiber}, (m.fiber a).Kin f →
      ∀ g < m.nextFiber, (m.fiber g).Kin (Function.update m.fiber a f g) :=
    fun h g _ => Fiber.kin_update h g
  cases hmove with
  | fire => exact hupdate ⟨rfl, rfl, rfl⟩
  | expire => exact hupdate ⟨rfl, rfl, rfl⟩
  | begin =>
      intro g hg
      dsimp only
      rw [Function.update_of_ne (Nat.ne_of_lt hg)]
      exact .refl _
  | wake => exact hupdate ⟨rfl, rfl, rfl⟩
  | queue => exact hupdate ⟨rfl, rfl, rfl⟩
  | issue => exact hupdate (Fiber.issued_kin _ _ _)
  | «local» _ hcall => exact hupdate hcall.kin
  | ret => exact hupdate ⟨rfl, rfl, rfl⟩
  | _ => exact fun g _ => .refl _

/-- The addresses in a line of the history are those of the fiber it names. -/
def Obs.Addressed (m : Module) : Obs → Prop
  | .started g o rid _ | .replied g o rid _ _ =>
      g < m.nextFiber ∧ (m.fiber g).replyTo = o ∧ (m.fiber g).replyReqId = rid
  | _ => True

/-- Every fiber has the address of the START it was made from. -/
structure Addressed (m : Module) : Prop where
  lines : ∀ x ∈ m.trace, x.Addressed m
  started : ∀ g < m.nextFiber, (m.fiber g).fn ≠ .recvNotify →
    ∃ n, .started g (m.fiber g).replyTo (m.fiber g).replyReqId n ∈ m.trace
  handler : ∀ g < m.nextFiber, (m.fiber g).fn = .recvNotify →
    (m.fiber g).replyTo = .external ∧ (m.fiber g).replyReqId = 0

namespace Addressed

variable {m m' : Module} {xs : List Obs}

/-- A step that makes no fiber. -/
theorem keep (h : Addressed m) (hfiber : ∀ b, (m.fiber b).Kin (m'.fiber b))
    (hnext : m'.nextFiber = m.nextFiber) (htrace : m'.trace = m.trace ++ xs)
    (hxs : ∀ x ∈ xs, x.Addressed m) : Addressed m' := by
  have hline : ∀ x : Obs, x.Addressed m → x.Addressed m' := by
    intro x hx
    cases x with
    | started g o rid n =>
        obtain ⟨hg, ho, hrid⟩ := hx
        exact ⟨hnext ▸ hg, (hfiber g).replyTo.trans ho, (hfiber g).replyReqId.trans hrid⟩
    | replied g o rid r msg =>
        obtain ⟨hg, ho, hrid⟩ := hx
        exact ⟨hnext ▸ hg, (hfiber g).replyTo.trans ho, (hfiber g).replyReqId.trans hrid⟩
    | _ => trivial
  refine ⟨fun x hx => hline x ?_, fun g hg hfn => ?_, fun g hg hfn => ?_⟩
  · rw [htrace] at hx
    exact (List.mem_append.mp hx).elim (h.lines x) (hxs x)
  · rw [(hfiber g).fn] at hfn
    obtain ⟨n, hn⟩ := h.started g (hnext ▸ hg) hfn
    rw [(hfiber g).replyTo, (hfiber g).replyReqId, htrace]
    exact ⟨n, List.mem_append_left _ hn⟩
  · rw [(hfiber g).fn] at hfn
    rw [(hfiber g).replyTo, (hfiber g).replyReqId]
    exact h.handler g (hnext ▸ hg) hfn

/-- A step that leaves the history alone. -/
theorem silent (h : Addressed m) (hfiber : ∀ b, (m.fiber b).Kin (m'.fiber b))
    (hnext : m'.nextFiber = m.nextFiber) (htrace : m'.trace = m.trace) : Addressed m' :=
  h.keep hfiber hnext (htrace.trans (List.append_nil _).symm) fun _ hx => absurd hx List.not_mem_nil

theorem begin (h : Addressed m) {e : Ev} {ok : Alloc} (htype : e.type ≠ .reply)
    (hfiber : m'.fiber = Function.update m.fiber m.nextFiber (e.fiber ok))
    (hnext : m'.nextFiber = m.nextFiber + 1) (htrace : m'.trace = m.trace ++ [e.beginObs m.nextFiber]) :
    Addressed m' := by
  have hold : ∀ g < m.nextFiber, m'.fiber g = m.fiber g := fun g hg => by
    rw [hfiber, Function.update_of_ne (Nat.ne_of_lt hg)]
  have hnew : m'.fiber m.nextFiber = e.fiber ok := by rw [hfiber, Function.update_self]
  have hline : ∀ x : Obs, x.Addressed m → x.Addressed m' := by
    intro x hx
    cases x with
    | started g o rid n =>
        rw [Obs.Addressed, hnext, hold g hx.1]
        exact ⟨Nat.lt_succ_of_lt hx.1, hx.2⟩
    | replied g o rid r msg =>
        rw [Obs.Addressed, hnext, hold g hx.1]
        exact ⟨Nat.lt_succ_of_lt hx.1, hx.2⟩
    | _ => trivial
  have hcases : ∀ g < m'.nextFiber, g < m.nextFiber ∨ g = m.nextFiber := fun g hg => by
    rw [hnext] at hg
    exact Nat.lt_succ_iff_lt_or_eq.mp hg
  refine ⟨fun x hx => ?_, fun g hg hfn => ?_, fun g hg hfn => ?_⟩
  · rw [htrace] at hx
    rcases List.mem_append.mp hx with hx | hx
    · exact hline x (h.lines x hx)
    · obtain rfl := List.mem_singleton.mp hx
      cases hkind : e.type with
      | reply => exact absurd hkind htype
      | notify =>
          rw [Ev.beginObs, hkind]
          trivial
      | start =>
          simp only [Ev.beginObs, hkind]
          rw [Obs.Addressed, hnext, hnew, Ev.fiber, hkind]
          exact ⟨Nat.lt_succ_self _, rfl, rfl⟩
  · rw [htrace]
    rcases hcases g hg with hlt | rfl
    · rw [hold g hlt] at hfn ⊢
      obtain ⟨n, hn⟩ := h.started g hlt hfn
      exact ⟨n, List.mem_append_left _ hn⟩
    · rw [hnew] at hfn ⊢
      cases hkind : e.type with
      | reply => exact absurd hkind htype
      | notify =>
          rw [Ev.fiber, hkind] at hfn
          exact absurd rfl hfn
      | start =>
          rw [Ev.fiber, Ev.beginObs, hkind]
          exact ⟨e.serial, List.mem_append_right _ (List.mem_singleton.mpr rfl)⟩
  · rcases hcases g hg with hlt | rfl
    · rw [hold g hlt] at hfn ⊢
      exact h.handler g hlt hfn
    · rw [hnew] at hfn ⊢
      cases hkind : e.type with
      | reply => exact absurd hkind htype
      | notify =>
          rw [Ev.fiber, hkind]
          exact ⟨rfl, rfl⟩
      | start =>
          rw [Ev.fiber, hkind] at hfn
          cases hfn

theorem local_call (hmodes : Modes m) {a : FiberRef} {now : Timespec} {ok : Alloc} {c : Call} {f : Fiber}
    {obs : List Obs} {cur : Option FiberRef} {eff : Effect} (hcur : m.current = some a)
    (hcall : LocalCall m a now ok c f obs cur eff) : ∀ x ∈ obs, x.Addressed m := by
  have henters : ∀ {f₁ : Fiber} {obs₁ : List Obs} {g : Bool}, EnterWait (m.fiber a) a c f₁ obs₁ g →
      ∀ x ∈ obs₁, x.Addressed m := by
    intro f₁ obs₁ g henter x hx
    obtain rfl := henter.mem hx
    trivial
  cases hcall with
  | null henter _ _ hnull =>
      refine fun x hx => (List.mem_append.mp hx).elim (henters henter x) fun hx => ?_
      rcases hnull.mem hx with rfl | ⟨_, rfl⟩ <;> trivial
  | queued henter _ =>
      refine fun x hx => (List.mem_append.mp hx).elim (henters henter x) fun hx => ?_
      obtain rfl := List.mem_singleton.mp hx
      trivial
  | park henter _ _ => exact henters henter
  | reply =>
      intro x hx
      obtain rfl := List.mem_singleton.mp hx
      exact ⟨hmodes.born a (hmodes.running a hcur).1, rfl, rfl⟩
  | waitTimeout => simp
  | registered => simp [Obs.Addressed]
  | unregistered => simp [Obs.Addressed]
  | idle => simp
  | notifying => simp
  | notified => simp [Obs.Addressed]

theorem move {act : ModAct} {eff : Effect} (h : Addressed m) (hmodes : Modes m)
    (hmove : Move m act eff m') : Addressed m' := by
  have hsame : ∀ b, (m.fiber b).Kin (m.fiber b) := fun b => .refl _
  have hone : ∀ {x : Obs}, x.Addressed m → ∀ y ∈ [x], y.Addressed m := by
    intro x hx y hy
    obtain rfl := List.mem_singleton.mp hy
    exact hx
  have hwake : ∀ {f : Fiber} {a : FiberRef} {why : Wake}, ∀ x ∈ f.wakeObs a why, x.Addressed m := by
    intro f a why x hx
    rcases Fiber.wakeObs_mem hx with rfl | ⟨_, _, rfl⟩ <;> trivial
  cases hmove with
  | park => exact h.silent hsame rfl rfl
  | halt => exact h.silent hsame rfl rfl
  | take => exact h.silent hsame rfl rfl
  | pass => exact h.silent hsame rfl rfl
  | fire => exact h.keep (Fiber.kin_update ⟨rfl, rfl, rfl⟩) rfl rfl hwake
  | expire => exact h.keep (Fiber.kin_update ⟨rfl, rfl, rfl⟩) rfl rfl hwake
  | defer => exact h.silent hsame rfl rfl
  | drop _ _ _ hdrop =>
      refine h.keep hsame rfl rfl fun x hx => ?_
      rcases hdrop.mem hx with rfl | rfl <;> trivial
  | begin _ _ _ htype _ => exact h.begin htype rfl rfl rfl
  | undefined => exact h.keep hsame rfl rfl (hone trivial)
  | wake => exact h.keep (Fiber.kin_update ⟨rfl, rfl, rfl⟩) rfl rfl hwake
  | queue => exact h.silent (Fiber.kin_update ⟨rfl, rfl, rfl⟩) rfl rfl
  | lose => exact h.keep hsame rfl rfl (hone trivial)
  | reap => exact h.silent hsame rfl rfl
  | issue =>
      refine h.keep (Fiber.kin_update (Fiber.issued_kin _ _ _)) rfl rfl fun x hx => ?_
      rcases issueObs_mem hx with rfl | rfl <;> trivial
  | «local» hcur hcall =>
      exact h.keep (Fiber.kin_update hcall.kin) rfl rfl (local_call hmodes hcur hcall)
  | lock => exact h.keep hsame rfl rfl (hone trivial)
  | unlock => exact h.keep hsame rfl rfl (hone trivial)
  | ret => exact h.keep (Fiber.kin_update ⟨rfl, rfl, rfl⟩) rfl rfl (hone trivial)
  | stop => exact h.silent hsame rfl rfl

theorem enqueue (h : Addressed m) (e : Ev) : Addressed (m.enqueue e) :=
  h.keep (fun _ => .refl _) rfl rfl (by simp [Obs.Addressed])

theorem boot (i : Nat) (reg : Reg) : Addressed (Module.boot i reg) :=
  ⟨fun _ hx => absurd hx List.not_mem_nil, fun g hg => absurd hg (Nat.not_lt_zero g),
    fun g hg => absurd hg (Nat.not_lt_zero g)⟩

/-- Only a sequence has a module to reply to. -/
theorem seq_of_module (h : Addressed m) {g q : Nat} (hg : g < m.nextFiber)
    (hto : (m.fiber g).replyTo = .module q) : (m.fiber g).fn ≠ .recvNotify := by
  intro hfn
  rw [(h.handler g hg hfn).1] at hto
  cases hto

theorem started_module (h : Addressed m) {g q : Nat} (hg : g < m.nextFiber)
    (hto : (m.fiber g).replyTo = .module q) : ∃ n, .started g (.module q) (m.fiber g).replyReqId n ∈ m.trace :=
  hto ▸ h.started g hg (h.seq_of_module hg hto)

/-- A fiber replies to the requester of its START; only a handler, which has none, replies to no id. -/
theorem replied_started (h : Addressed m) {g rid : Nat} {o : Origin} {r : Result} {msg : Bytes}
    (hreply : .replied g o rid r msg ∈ m.trace) (ho : o ≠ .external ∨ rid ≠ 0) :
    (m.fiber g).fn ≠ .recvNotify ∧ ∃ n, .started g o rid n ∈ m.trace := by
  obtain ⟨hg, rfl, rfl⟩ := h.lines _ hreply
  have hfn : (m.fiber g).fn ≠ .recvNotify := by
    intro hfn
    obtain ⟨hto, hid⟩ := h.handler g hg hfn
    exact ho.elim (fun h => h hto) fun h => h hid
  exact ⟨hfn, h.started g hg hfn⟩

/-- All replies of a fiber go to the requester of its START. -/
theorem one_address (h : Addressed m) {g : FiberRef} {o o' : Origin} {rid rid' n : Nat} {r : Result}
    {msg : Bytes} (hstart : .started g o rid n ∈ m.trace) (hreply : .replied g o' rid' r msg ∈ m.trace) :
    o' = o ∧ rid' = rid := by
  obtain ⟨-, hto, hid⟩ := h.lines _ hstart
  obtain ⟨-, hto', hid'⟩ := h.lines _ hreply
  exact ⟨hto'.symm.trans hto, hid'.symm.trans hid⟩

end Addressed

/-- In every run every fiber has the address of the START it was made from. -/
theorem addressed {ok : Sys → Act → Prop} {tbl : List Reg} {s : Sys} (hrun : Reaches ok tbl s) (j : Nat) :
    Addressed (s.module j) :=
  (module_invariant (G := fun _ _ => True) (P := fun m => Modes m ∧ Addressed m) hrun
    (fun _ _ _ _ _ _ => trivial) (fun i reg => ⟨Modes.boot i reg, Addressed.boot i reg⟩)
    (fun _ _ _ _ h _ hmove => ⟨h.1.move hmove, h.2.move h.1 hmove⟩)
    (fun _ e h => ⟨h.1.enqueue e, h.2.enqueue e⟩) j).2

end Coseq
