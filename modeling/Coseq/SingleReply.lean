import Coseq.ReplyAddress

/-! The calls of `coseq_reply` in the history of a module, and what it means that every sequence replies
once before it returns. -/

namespace Coseq

/-- A `coseq_reply` of the fiber `a`. -/
def Obs.repliedBy (a : FiberRef) : Obs → Bool
  | .replied f _ _ _ _ => f = a
  | _ => false

def Module.hasReplied (m : Module) (a : FiberRef) : Bool := m.trace.any (Obs.repliedBy a)

/-- A sequence replies once before it returns. -/
def RepliesOnce (m : Module) : ModAct → Prop
  | .call (.reply ..) _ _ _ => ∀ a ∈ m.current, (m.fiber a).fn ≠ .recvNotify → m.hasReplied a = false
  | .call .ret _ _ _ => ∀ a ∈ m.current, (m.fiber a).fn ≠ .recvNotify → m.hasReplied a = true
  | _ => True

instance (m : Module) (act : ModAct) : Decidable (RepliesOnce m act) :=
  match act with
  | .call (.reply ..) .. =>
      inferInstanceAs (Decidable (∀ a ∈ m.current, (m.fiber a).fn ≠ .recvNotify → m.hasReplied a = false))
  | .call .ret .. =>
      inferInstanceAs (Decidable (∀ a ∈ m.current, (m.fiber a).fn ≠ .recvNotify → m.hasReplied a = true))
  | .sched .. | .stop | .call (.request ..) .. | .call (.requestTimeout ..) ..
  | .call (.requestAsync ..) .. | .call (.send ..) .. | .call .waitReply .. | .call .gather ..
  | .call .gatherNext .. | .call (.waitTimeout ..) .. | .call (.regNotify ..) ..
  | .call (.unregNotify ..) .. | .call (.notify ..) .. | .call .notifyNext .. | .call .lock ..
  | .call .unlock .. => .isTrue trivial

variable {m m' : Module} {a : FiberRef} {xs : List Obs}

theorem repliedBy_wakeObs {f : Fiber} {why : Wake} : ∀ x ∈ f.wakeObs a why, ∀ b, x.repliedBy b = false := by
  intro x hx b
  rcases Fiber.wakeObs_mem hx with rfl | ⟨_, _, rfl⟩ <;> rfl

theorem repliedBy_issueObs {kind : ReqKind} {i s : Nat} {ok : Alloc} :
    ∀ x ∈ issueObs m a kind i s ok, ∀ b, x.repliedBy b = false := by
  intro x hx b
  rcases issueObs_mem hx with rfl | rfl <;> rfl

theorem repliedBy_dropped {e : Ev} {ok : Alloc} (h : Dropped m e ok xs) :
    ∀ x ∈ xs, ∀ b, x.repliedBy b = false := by
  intro x hx b
  rcases h.mem hx with rfl | rfl <;> rfl

theorem repliedBy_beginObs (e : Ev) : ∀ x ∈ [e.beginObs a], ∀ b, x.repliedBy b = false := by
  intro x hx b
  obtain rfl := List.mem_singleton.mp hx
  unfold Ev.beginObs
  split <;> rfl

/-- Nothing is delivered to the external mailbox, and only notifications are posted. -/
def Effect.Mute : Effect → Prop
  | .none | .nextClientId _ => True
  | .post _ e => ∀ e' ∈ e, e'.type = .notify
  | .extDeliver .. => False

theorem LocalCall.silent {now : Timespec} {ok : Alloc} {c : Call} {f : Fiber} {obs : List Obs}
    {cur : Option FiberRef} {eff : Effect} (hcall : LocalCall m a now ok c f obs cur eff)
    (hc : ∀ r msg, c ≠ .reply r msg) :
    (∀ x ∈ obs, ∀ b, x.repliedBy b = false) ∧ eff.Mute := by
  have henters : ∀ {f₁ : Fiber} {obs₁ : List Obs} {g : Bool}, EnterWait (m.fiber a) a c f₁ obs₁ g →
      ∀ x ∈ obs₁, ∀ b, x.repliedBy b = false := by
    intro f₁ obs₁ g henter x hx b
    obtain rfl := henter.mem hx
    rfl
  cases hcall with
  | null henter _ _ hnull =>
      refine ⟨fun x hx => (List.mem_append.mp hx).elim (henters henter x) fun hx b => ?_, trivial⟩
      rcases hnull.mem hx with rfl | ⟨_, rfl⟩ <;> rfl
  | queued henter _ =>
      refine ⟨fun x hx => (List.mem_append.mp hx).elim (henters henter x) fun hx => ?_, trivial⟩
      obtain rfl := List.mem_singleton.mp hx
      exact fun b => rfl
  | park henter _ _ => exact ⟨henters henter, trivial⟩
  | reply => exact absurd rfl (hc _ _)
  | waitTimeout => exact ⟨by simp, trivial⟩
  | registered hnext =>
      obtain ⟨_, rfl⟩ := hnext
      exact ⟨by simp [Obs.repliedBy], trivial⟩
  | unregistered => exact ⟨by simp [Obs.repliedBy], trivial⟩
  | idle _ hnext =>
      rcases hnext with rfl | ⟨_, rfl⟩
      · exact ⟨by simp, trivial⟩
      · exact ⟨by simp, trivial⟩
  | notifying _ hpost =>
      rcases hpost with rfl | ⟨d, e, rfl, he⟩
      · exact ⟨by simp, trivial⟩
      · exact ⟨by simp, fun e' he' => he e' he'⟩
  | notified => exact ⟨by simp [Obs.repliedBy], trivial⟩

theorem LocalCall.reply_inv {now : Timespec} {ok : Alloc} {r : Result} {msg : Bytes} {f : Fiber}
    {obs : List Obs} {cur : Option FiberRef} {eff : Effect}
    (hcall : LocalCall m a now ok (.reply r msg) f obs cur eff) :
    f = m.fiber a ∧ obs = [.replied a (m.fiber a).replyTo (m.fiber a).replyReqId r msg] ∧
      eff = (Coseq.reply m a r msg ok).2 := by
  cases hcall with
  | reply => exact ⟨rfl, rfl, rfl⟩
  | null henter => cases henter
  | queued henter => cases henter
  | park henter => cases henter
  | idle hcall => rcases hcall with ⟨_, h⟩ | ⟨_, _, h⟩ <;> cases h
  | notifying hcall => rcases hcall with h | ⟨_, _, h⟩ <;> cases h

/-- A move makes no reply and delivers nothing to the mailbox, or it is one `coseq_reply`. -/
theorem Move.reply_cases {act : ModAct} {eff : Effect} (hmove : Move m act eff m') :
    ((∃ xs, m'.trace = m.trace ++ xs ∧ ∀ x ∈ xs, ∀ b, x.repliedBy b = false) ∧
        ∀ rid r msg, eff ≠ .extDeliver rid r msg) ∨
      ∃ now id ok a r msg, act = .call (.reply r msg) now id ok ∧ m.current = some a ∧
        m'.trace = m.trace ++ [.replied a (m.fiber a).replyTo (m.fiber a).replyReqId r msg] ∧
        eff = (Coseq.reply m a r msg ok).2 := by
  have hnone : ∀ rid r msg, Effect.none ≠ .extDeliver rid r msg := fun _ _ _ h => by cases h
  have hnil : ∃ xs, m.trace = m.trace ++ xs ∧ ∀ x ∈ xs, ∀ b, x.repliedBy b = false :=
    ⟨[], (List.append_nil _).symm, by simp⟩
  cases hmove with
  | fire => exact .inl ⟨⟨_, rfl, repliedBy_wakeObs⟩, hnone⟩
  | expire => exact .inl ⟨⟨_, rfl, repliedBy_wakeObs⟩, hnone⟩
  | wake => exact .inl ⟨⟨_, rfl, repliedBy_wakeObs⟩, hnone⟩
  | drop _ _ _ hdrop => exact .inl ⟨⟨_, rfl, repliedBy_dropped hdrop⟩, hnone⟩
  | @begin _ _ e => exact .inl ⟨⟨_, rfl, repliedBy_beginObs e⟩, hnone⟩
  | issue => exact .inl ⟨⟨_, rfl, repliedBy_issueObs⟩, fun _ _ _ h => by cases h⟩
  | @«local» now id ok a c _ _ _ _ _ hcur hcall =>
      by_cases hc : ∃ r msg, c = .reply r msg
      · obtain ⟨r, msg, rfl⟩ := hc
        obtain ⟨-, rfl, rfl⟩ := hcall.reply_inv
        exact .inr ⟨now, id, ok, a, r, msg, rfl, hcur, rfl, rfl⟩
      · obtain ⟨hobs, hmute⟩ := hcall.silent fun r msg h => hc ⟨r, msg, h⟩
        refine .inl ⟨⟨_, rfl, hobs⟩, fun rid r msg heff => ?_⟩
        rw [heff] at hmute
        exact hmute
  | undefined => exact .inl ⟨⟨_, rfl, by simp [Obs.repliedBy]⟩, hnone⟩
  | lose => exact .inl ⟨⟨_, rfl, by simp [Obs.repliedBy]⟩, hnone⟩
  | lock => exact .inl ⟨⟨_, rfl, by simp [Obs.repliedBy]⟩, hnone⟩
  | unlock => exact .inl ⟨⟨_, rfl, by simp [Obs.repliedBy]⟩, hnone⟩
  | ret => exact .inl ⟨⟨_, rfl, by simp [Obs.repliedBy]⟩, hnone⟩
  | _ => exact .inl ⟨hnil, hnone⟩

/-- A fiber that is not made yet has not replied. -/
theorem Addressed.unborn (h : Addressed m) {g : FiberRef} (hg : m.nextFiber ≤ g) :
    m.trace.countP (Obs.repliedBy g) = 0 := by
  refine List.countP_eq_zero.mpr fun x hx => ?_
  have hline := h.lines x hx
  cases x with
  | replied f o rid r msg =>
      have hne : f ≠ g := Nat.ne_of_lt (Nat.lt_of_lt_of_le hline.1 hg)
      simpa [Obs.repliedBy] using hne
  | _ => simp [Obs.repliedBy]

/-- No sequence has replied twice. -/
def SingleReply (m : Module) : Prop :=
  ∀ g < m.nextFiber, (m.fiber g).fn ≠ .recvNotify → m.trace.countP (Obs.repliedBy g) ≤ 1

theorem SingleReply.move {act : ModAct} {eff : Effect} (h : SingleReply m) (haddr : Addressed m)
    (hok : RepliesOnce m act) (hmove : Move m act eff m') : SingleReply m' := by
  intro g hg hfn
  have hold : m.trace.countP (Obs.repliedBy g) ≤ 1 := by
    by_cases hlt : g < m.nextFiber
    · exact h g hlt fun hno => hfn ((hmove.kin g hlt).fn.trans hno)
    · rw [haddr.unborn (Nat.le_of_not_lt hlt)]
      exact Nat.zero_le _
  rcases hmove.reply_cases with ⟨⟨xs, htrace, hxs⟩, -⟩ | ⟨_, _, _, a, r, msg, rfl, hcur, htrace, -⟩
  · have hnone : xs.countP (Obs.repliedBy g) = 0 := List.countP_eq_zero.mpr fun x hx => by simp [hxs x hx g]
    rw [htrace, List.countP_append, hnone]
    exact hold
  · rw [htrace, List.countP_append, List.countP_singleton]
    by_cases hga : a = g
    · subst hga
      have hzero : m.trace.countP (Obs.repliedBy a) = 0 := by
        by_cases hlt : a < m.nextFiber
        · have hsilent := hok a hcur fun hno => hfn ((hmove.kin a hlt).fn.trans hno)
          exact List.countP_eq_zero.mpr fun x hx => List.any_eq_false.mp hsilent x hx
        · exact haddr.unborn (Nat.le_of_not_lt hlt)
      rw [hzero]
      split <;> simp
    · rw [if_neg (by simpa [Obs.repliedBy] using hga)]
      exact hold

/-- Where sequences reply once every sequence has at most one reply in the history. -/
theorem single_reply {ok : Sys → Act → Prop} {tbl : List Reg} {s : Sys} (hrun : Reaches ok tbl s)
    (hok : ∀ s a, ok s a → EveryModule RepliesOnce s a) (j : Nat) : SingleReply (s.module j) :=
  (module_invariant (P := fun m => Modes m ∧ Addressed m ∧ SingleReply m) hrun hok
    (fun i reg => ⟨Modes.boot i reg, Addressed.boot i reg, fun g hg => absurd hg (Nat.not_lt_zero g)⟩)
    (fun _ _ _ _ h hok hmove => ⟨h.1.move hmove, h.2.1.move h.1 hmove, h.2.2.move h.2.1 hok hmove⟩)
    (fun m e h => ⟨h.1.enqueue e, h.2.1.enqueue e, fun g hg hfn => by
      rw [Module.enqueue, List.countP_append]
      exact h.2.2 g hg hfn⟩) j).2.2

end Coseq
