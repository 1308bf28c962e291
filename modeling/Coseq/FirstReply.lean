import Coseq.SyncCalls

/-! Which reply a `request_sync` returns when its sequence replies more than once. The slot stays armed until
the caller wakes up, and a later reply to the same id goes into it like the first: the caller returns with the
first one exactly when no other is stored over it. -/

namespace Coseq

/-- The fiber made from the START of the external request `rid` has replied, and first of all so. -/
def Sys.FirstReply (s : Sys) (rid : Nat) (r : Result) (msg : Bytes) : Prop :=
  ∃ j g n, .started g .external rid n ∈ (s.module j).trace ∧
    (s.module j).trace.find? (Obs.repliedBy g) = some (.replied g .external rid r msg)

/-- Some fiber has replied to the external request `rid`. -/
def Sys.Answered (s : Sys) (rid : Nat) : Prop := ∃ r msg, s.AnswersExternal rid r msg

/-- What a `request_sync` gets, however late its thread wakes up. -/
structure FirstReplies (s : Sys) : Prop where
  own : ∀ rid j g n j' g' n', .started g .external rid n ∈ (s.module j).trace →
    .started g' .external rid n' ∈ (s.module j').trace → j' = j ∧ g' = g
  returned : ∀ t rid r msg, .returned t rid r msg ∈ s.ctx.extTrace → s.FirstReply rid r msg
  ready : ∀ t rid, (s.threads t).Waiting rid → s.ctx.extReady = true →
    s.FirstReply rid s.ctx.extResult s.ctx.extMsg

/-- At most one `request_sync` is in progress, and fewer than `2 ^ 32 - 1` external ids are issued. -/
def OneAtATime (s : Sys) : Act → Prop
  | .requestSync .. => AllReturned s.ctx.extTrace ∧ s.ctx.extId < 2 ^ 32 - 1
  | .requestAsync .. => s.ctx.extId < 2 ^ 32 - 1
  | _ => True

instance (s : Sys) (a : Act) : Decidable (OneAtATime s a) :=
  match a with
  | .requestSync .. => inferInstanceAs (Decidable (_ ∧ _))
  | .requestAsync .. => inferInstanceAs (Decidable (_ < _))
  | .tick .. | .sched .. | .call .. | .stop .. | .wakeup .. | .asyncPost .. => .isTrue trivial

/-- The message that `ext_deliver` stores. -/
def storedMsg (msg : Bytes) (ok : Alloc) : Bytes := if ok .extMsg then msg else []

/-- A reply to the waiting call finds the slot empty and is copied whole, or changes nothing in the slot; and
the waiting thread finds memory for its own copy. -/
def StoresFirst (s : Sys) : Act → Prop
  | .call i (.reply r msg) ok => ∀ a ∈ (s.module i).current, ((s.module i).fiber a).replyTo = .external →
      ((s.module i).fiber a).replyReqId = s.ctx.extWaitRid →
        if s.ctx.extReady then r = s.ctx.extResult ∧ storedMsg msg ok = s.ctx.extMsg
        else storedMsg msg ok = msg
  | .wakeup t ok => s.ctx.extReady = true →
      s.ctx.extMsg.length ≤ (s.threads t).buf.length ∨ ok .syncBuf = true
  | _ => True

instance (s : Sys) (a : Act) : Decidable (StoresFirst s a) :=
  match a with
  | .call i (.reply r msg) ok =>
      inferInstanceAs (Decidable (∀ a ∈ (s.module i).current, ((s.module i).fiber a).replyTo = .external →
        ((s.module i).fiber a).replyReqId = s.ctx.extWaitRid →
          if s.ctx.extReady then r = s.ctx.extResult ∧ storedMsg msg ok = s.ctx.extMsg
          else storedMsg msg ok = msg))
  | .wakeup t ok => inferInstanceAs (Decidable (s.ctx.extReady = true →
      s.ctx.extMsg.length ≤ (s.threads t).buf.length ∨ ok .syncBuf = true))
  | .call _ (.request ..) _ | .call _ (.requestTimeout ..) _ | .call _ (.requestAsync ..) _ | .call _ (.send ..) _
  | .call _ .waitReply _ | .call _ .gather _ | .call _ .gatherNext _ | .call _ (.waitTimeout _) _
  | .call _ (.regNotify _) _ | .call _ (.unregNotify ..) _ | .call _ (.notify ..) _ | .call _ .notifyNext _
  | .call _ .lock _ | .call _ .unlock _ | .call _ .ret _ | .tick .. | .sched .. | .stop .. | .requestSync ..
  | .requestAsync .. | .asyncPost .. => .isTrue trivial

/-! ### The slot -/

/-- The slot serves its caller with what `F` says is first; `A` are the requests that are answered. -/
structure Serves (b : Mailbox) (A : Nat → Prop) (F : Nat → Result → Bytes → Prop) (W : Nat → Nat → Prop) :
    Prop where
  returned : ∀ t rid r msg, .returned t rid r msg ∈ b.log → F rid r msg
  discarded : ∀ rid r msg, .discarded rid r msg ∈ b.log → A rid
  alone : ∀ t t' rid rid', W t rid → W t' rid' → t' = t
  waiting : ∀ t rid, W t rid → Held b F t rid
  armed : b.waitRid ≠ 2 ^ 32 - 1 → ∃ t, W t b.waitRid

namespace Serves

variable {b b' : Mailbox} {A A' : Nat → Prop} {F F' : Nat → Result → Bytes → Prop} {W W' : Nat → Nat → Prop}
  {t rid : Nat} {r : Result} {msg : Bytes}

theorem arm (h : Serves b A F W) (hpos : 0 < rid) (hfresh : ¬A rid) (hFA : ∀ r msg, F rid r msg → A rid)
    (hA : ∀ rid, A rid → A' rid) (hF : ∀ rid r msg, F rid r msg → F' rid r msg)
    (hnone : ∀ r msg, ¬F' rid r msg) (hW : ∀ t' rid', W' t' rid' ↔ t' = t ∧ rid' = rid) :
    Serves (b.arm t rid) A' F' W' := by
  have hold : ∀ x : ExtObs, x ≠ .called t rid → x ∈ (b.arm t rid).log → x ∈ b.log := by
    intro x hne hx
    exact (List.mem_append.mp hx).resolve_right fun h => hne (List.mem_singleton.mp h)
  refine ⟨fun t' rid' r msg hx => hF _ _ _ (h.returned t' rid' r msg (hold _ (by simp) hx)),
    fun rid' r msg hx => hA _ (h.discarded rid' r msg (hold _ (by simp) hx)), fun t₁ t₂ r₁ r₂ h₁ h₂ => ?_,
    fun t' rid' hw => ?_, fun _ => ⟨t, (hW _ _).mpr ⟨rfl, rfl⟩⟩⟩
  · exact ((hW _ _).mp h₂).1.trans ((hW _ _).mp h₁).1.symm
  · obtain ⟨rfl, rfl⟩ := (hW _ _).mp hw
    exact Held.arm hpos hnone (fun r msg hx => hfresh (hFA r msg (h.returned _ _ r msg hx)))
      fun r msg hx => hfresh (h.discarded _ r msg hx)

/-- A reply goes into the slot and does not change what is first. -/
theorem accept (h : Serves b A F W) (hlog : b'.log = b.log ++ [.accepted rid r msg])
    (hslot : b'.waitRid = b.waitRid) (hready : b'.ready = true) (hA : ∀ rid, A rid → A' rid)
    (hF : ∀ rid r msg, F rid r msg → F' rid r msg)
    (hnew : ∀ t, W t b.waitRid → F' b.waitRid b'.result b'.msg) : Serves b' A' F' W := by
  have hold : ∀ x : ExtObs, x ≠ .accepted rid r msg → x ∈ b'.log → x ∈ b.log := by
    intro x hne hx
    rw [hlog] at hx
    exact (List.mem_append.mp hx).resolve_right fun h => hne (List.mem_singleton.mp h)
  refine ⟨fun t' rid' r' msg' hx => hF _ _ _ (h.returned t' rid' r' msg' (hold _ (by simp) hx)),
    fun rid' r' msg' hx => hA _ (h.discarded rid' r' msg' (hold _ (by simp) hx)), h.alone, fun t' rid' hw => ?_,
    fun hne => hslot ▸ h.armed (hslot ▸ hne)⟩
  have hheld := h.waiting t' rid' hw
  refine hheld.accept hlog hslot hready ?_
  rw [← hheld.slot]
  exact hnew t' (hheld.slot.symm ▸ hw)

/-- A reply to another request passes by. -/
theorem discard (h : Serves b A F W) (hslot : rid ≠ b.waitRid) (hA : ∀ rid, A rid → A' rid) (hnew : A' rid)
    (hF : ∀ rid r msg, F rid r msg → F' rid r msg)
    (hsame : ∀ t rid', W t rid' → ∀ r msg, F' rid' r msg ↔ F rid' r msg) :
    Serves (b.deliver rid r msg) A' F' W := by
  have hdeliver : b.deliver rid r msg = { b with log := b.log ++ [.discarded rid r msg] } := if_neg hslot
  have hold : ∀ x : ExtObs, x ≠ .discarded rid r msg → x ∈ (b.deliver rid r msg).log → x ∈ b.log := by
    intro x hne hx
    rw [hdeliver] at hx
    exact (List.mem_append.mp hx).resolve_right fun h => hne (List.mem_singleton.mp h)
  refine ⟨fun t' rid' r' msg' hx => hF _ _ _ (h.returned t' rid' r' msg' (hold _ (by simp) hx)),
    fun rid' r' msg' hx => ?_, h.alone,
    fun t' rid' hw => (h.waiting t' rid' hw).discard hslot (hsame t' rid' hw), ?_⟩
  · by_cases heq : ExtObs.discarded rid' r' msg' = .discarded rid r msg
    · rw [(ExtObs.discarded.inj heq).1]
      exact hnew
    · exact hA _ (h.discarded rid' r' msg' (hold _ heq hx))
  · rw [hdeliver]
    exact h.armed

theorem take (h : Serves b A F W) (hw : W t rid) (hready : b.ready = true)
    (hW : ∀ t' rid', W' t' rid' → W t' rid' ∧ t' ≠ t) : Serves (b.take t rid) A F W' := by
  have hold : ∀ x : ExtObs, x ≠ .returned t rid b.result b.msg → x ∈ (b.take t rid).log → x ∈ b.log := by
    intro x hne hx
    exact (List.mem_append.mp hx).resolve_right fun h => hne (List.mem_singleton.mp h)
  have hnone : ∀ t' rid', ¬W' t' rid' := fun t' rid' hw' =>
    (hW t' rid' hw').2 (h.alone t t' rid rid' hw (hW t' rid' hw').1)
  refine ⟨fun t' rid' r' msg' hx => ?_, fun rid' r' msg' hx => h.discarded rid' r' msg' (hold _ (by simp) hx),
    fun _ _ _ _ h₁ => absurd h₁ (hnone _ _), fun _ _ h₁ => absurd h₁ (hnone _ _), fun hne => absurd rfl hne⟩
  by_cases heq : ExtObs.returned t' rid' r' msg' = .returned t rid b.result b.msg
  · obtain ⟨rfl, rfl, rfl, rfl⟩ := ExtObs.returned.inj heq
    exact (h.waiting _ _ hw).answer hready
  · exact h.returned t' rid' r' msg' (hold _ heq hx)

/-- Steps elsewhere. -/
theorem same (h : Serves b A F W) (hA : ∀ rid, A rid → A' rid) (hF : ∀ rid r msg, F rid r msg → F' rid r msg)
    (hsame : ∀ t rid, W t rid → ∀ r msg, F' rid r msg ↔ F rid r msg)
    (hW : ∀ t rid, W' t rid ↔ W t rid) : Serves b A' F' W' :=
  ⟨fun t rid r msg hx => hF _ _ _ (h.returned t rid r msg hx), fun rid r msg hx => hA _ (h.discarded rid r msg hx),
    fun t t' rid rid' hw hw' => h.alone t t' rid rid' ((hW _ _).mp hw) ((hW _ _).mp hw'),
    fun t rid hw => (h.waiting t rid ((hW _ _).mp hw)).same (hsame t rid ((hW _ _).mp hw)),
    fun hne => (h.armed hne).imp fun _ hw => (hW _ _).mpr hw⟩

end Serves

/-! ### First replies along a run -/

section Reply

variable {ok : Sys → Act → Prop} {tbl : List Reg} {s s' : Sys} {a : Act} {rid : Nat} {r r' : Result}
  {msg msg' : Bytes}

/-- What is first stays first. -/
theorem firstReply_step (hstep : s.step a = some s') (h : s.FirstReply rid r msg) : s'.FirstReply rid r msg := by
  obtain ⟨j, g, n, hstart, hfirst⟩ := h
  obtain ⟨xs, hxs⟩ := Sys.step_grows hstep j
  refine ⟨j, g, n, ?_, ?_⟩
  · rw [hxs]
    exact List.mem_append_left _ hstart
  · rw [hxs, List.find?_append, hfirst]
    rfl

theorem firstReply_answered (h : s.FirstReply rid r msg) : s.AnswersExternal rid r msg := by
  obtain ⟨j, g, -, -, hfirst⟩ := h
  exact ⟨j, g, List.mem_of_find?_eq_some hfirst⟩

/-- A request has one first reply. -/
theorem firstReply_unique (hrun : Reaches ok tbl s) (hids : ExtIds s) (h : s.FirstReply rid r msg)
    (h' : s.FirstReply rid r' msg') : r' = r ∧ msg' = msg := by
  obtain ⟨j, g, n, hstart, hfirst⟩ := h
  obtain ⟨j', g', n', hstart', hfirst'⟩ := h'
  obtain ⟨rfl, rfl, -⟩ := started_unique hrun (hids.one rid) hstart hstart'
  obtain ⟨-, -, -, rfl, rfl⟩ := Obs.replied.inj (Option.some.inj (hfirst.symm.trans hfirst'))
  exact ⟨rfl, rfl⟩

/-- An answered request has a first reply. -/
theorem answered_first (hrun : Reaches ok tbl s) (hpos : 0 < rid) (h : s.AnswersExternal rid r msg) :
    ∃ r' msg', s.FirstReply rid r' msg' := by
  obtain ⟨j, g, hx⟩ := h
  obtain ⟨-, n, hstart⟩ := (addressed hrun j).replied_started hx (.inr (Nat.ne_of_gt hpos))
  have hsome : ((s.module j).trace.find? (Obs.repliedBy g)).isSome = true :=
    List.find?_isSome.mpr ⟨_, hx, by simp [Obs.repliedBy]⟩
  obtain ⟨y, hy⟩ := Option.isSome_iff_exists.mp hsome
  have hline := List.find?_some hy
  have hmem := List.mem_of_find?_eq_some hy
  cases y with
  | replied f o rid' r' msg' =>
      obtain rfl : f = g := by simpa [Obs.repliedBy] using hline
      obtain ⟨rfl, rfl⟩ := (addressed hrun j).one_address hstart hmem
      exact ⟨r', msg', j, f, n, hstart, hy⟩
  | _ => simp [Obs.repliedBy] at hline

/-- A step without a new reply to the request leaves its first reply, or that it has none. -/
theorem firstReply_iff (hrun : Reaches ok tbl s) (hrun' : Reaches ok tbl s') (hids : ExtIds s') (hpos : 0 < rid)
    (hstep : s.step a = some s') (hanswers : s'.Answered rid → s.Answered rid) (r : Result) (msg : Bytes) :
    s'.FirstReply rid r msg ↔ s.FirstReply rid r msg := by
  refine ⟨fun h => ?_, firstReply_step hstep⟩
  obtain ⟨r₀, msg₀, h₀⟩ := hanswers ⟨r, msg, firstReply_answered h⟩
  obtain ⟨r₁, msg₁, h₁⟩ := answered_first hrun hpos h₀
  obtain ⟨rfl, rfl⟩ := firstReply_unique hrun' hids (firstReply_step hstep h₁) h
  exact h₁

end Reply

/-! ### Steps -/

/-- The ids, the slot and the first replies are in order. -/
structure FirstKept (s : Sys) : Prop where
  ids : ExtIds s
  bound : s.ctx.extId ≤ 2 ^ 32 - 1
  serves : Serves s.ctx.mailbox s.Answered s.FirstReply fun t rid => (s.threads t).Waiting rid

theorem extDeliver_accept {c : Ctx} {rid : Nat} (r : Result) (msg : Bytes) (ok : Alloc) (h : rid = c.extWaitRid) :
    (c.extDeliver rid r msg ok).mailbox =
      { c.mailbox with
        ready := true
        result := r
        msg := storedMsg msg ok
        log := c.extTrace ++ [.accepted rid r msg] } := by
  rw [Ctx.extDeliver, if_pos h]
  rfl

theorem extDeliver_discard {c : Ctx} {rid : Nat} (r : Result) (msg : Bytes) (ok : Alloc) (h : rid ≠ c.extWaitRid) :
    (c.extDeliver rid r msg ok).mailbox = c.mailbox.deliver rid r msg := by
  have hslot : rid ≠ c.mailbox.waitRid := h
  rw [Ctx.extDeliver, if_neg h, Mailbox.deliver, if_neg hslot]
  rfl

theorem answered_mono {s s' : Sys} {a : Act} (hstep : s.step a = some s') (rid : Nat) :
    s.Answered rid → s'.Answered rid := by
  rintro ⟨r, msg, j, g, hx⟩
  obtain ⟨xs, hxs⟩ := Sys.step_grows hstep j
  exact ⟨r, msg, j, g, by rw [hxs]; exact List.mem_append_left _ hx⟩

namespace FirstKept

variable {ok : Sys → Act → Prop} {tbl : List Reg} {s s' : Sys} {a : Act}

/-- A step that delivers nothing to the slot, arms it for nobody and lets nobody go. -/
theorem quiet (h : FirstKept s) (hrun : Reaches ok tbl s) (hrun' : Reaches ok tbl s') (hids : ExtIds s')
    (hstep : s.step a = some s') (hanswers : ∀ rid, s'.Answered rid → s.Answered rid)
    (hmailbox : s'.ctx.mailbox = s.ctx.mailbox)
    (hwaiting : ∀ t rid, (s'.threads t).Waiting rid ↔ (s.threads t).Waiting rid) :
    Serves s'.ctx.mailbox s'.Answered s'.FirstReply fun t rid => (s'.threads t).Waiting rid := by
  rw [hmailbox]
  refine h.serves.same (answered_mono hstep) (fun _ _ _ => firstReply_step hstep) (fun t rid hw => ?_) hwaiting
  exact firstReply_iff hrun hrun' hids (h.serves.waiting t rid hw).positive hstep (hanswers rid)

/-- The first reply to the waiting call is that of the fiber that replies now. -/
theorem reply_first (hrun : Reaches ok tbl s') {i g rid : Nat} {r : Result} {msg : Bytes} (hpos : 0 < rid)
    (hunanswered : ¬s.Answered rid)
    (htrace : (s'.module i).trace = (s.module i).trace ++ [.replied g .external rid r msg]) :
    s'.FirstReply rid r msg := by
  have hmem : .replied g .external rid r msg ∈ (s'.module i).trace := by
    rw [htrace]
    exact List.mem_append_right _ (List.mem_singleton.mpr rfl)
  obtain ⟨-, n, hstart⟩ := (addressed hrun i).replied_started hmem (.inr (Nat.ne_of_gt hpos))
  refine ⟨i, g, n, hstart, ?_⟩
  have hnone : (s.module i).trace.find? (Obs.repliedBy g) = none := by
    refine List.find?_eq_none.mpr fun x hx hby => hunanswered ?_
    cases x with
    | replied f o rid' r' msg' =>
        obtain rfl : f = g := by simpa [Obs.repliedBy] using hby
        have hold : .replied f o rid' r' msg' ∈ (s'.module i).trace := by
          rw [htrace]
          exact List.mem_append_left _ hx
        obtain ⟨rfl, rfl⟩ := (addressed hrun i).one_address hstart hold
        exact ⟨r', msg', i, f, hx⟩
    | _ => simp [Obs.repliedBy] at hby
  rw [htrace, List.find?_append, hnone]
  simp [Obs.repliedBy]

/-- What a reply to an external request does: its line in the history, and the delivery. -/
theorem reply_step {i : Nat} {r : Result} {msg : Bytes} {al : Alloc} {g : FiberRef}
    (hstep : s.step (.call i (.reply r msg) al) = some s') (hcur : (s.module i).current = some g)
    (hto : ((s.module i).fiber g).replyTo = .external) :
    (s'.module i).trace =
        (s.module i).trace ++ [.replied g .external ((s.module i).fiber g).replyReqId r msg] ∧
      s'.threads = s.threads ∧
      s'.ctx.mailbox = (s.ctx.extDeliver ((s.module i).fiber g).replyReqId r msg al).mailbox ∧
      ∀ rid, s'.Answered rid → s.Answered rid ∨ rid = ((s.module i).fiber g).replyReqId := by
  obtain ⟨-, m', eff, hm, rfl⟩ := Sys.stepModule_eq hstep
  rw [Module.step, hcur, Option.bind_some] at hm
  have hcall : Coseq.reply (s.module i) g r msg al = (m', eff) := by
    cases hnotifying : ((s.module i).fiber g).notifying with
    | some l =>
        simp only [Coseq.call, hnotifying] at hm
        cases hm
    | none =>
        simp only [Coseq.call, hnotifying] at hm
        exact Option.some.inj hm
  have hmove : Move (s.module i) (.call (.reply r msg) s.clock s.ctx.nextClientId al) eff m' := by
    have hreply : Move (s.module i) (.call (.reply r msg) s.clock s.ctx.nextClientId al)
        (Coseq.reply (s.module i) g r msg al).2 (Coseq.reply (s.module i) g r msg al).1 := reply_move hcur
    rwa [hcall] at hreply
  have hmodules : (s.after i m' eff al).module =
      delivered s.ctx.nrModule (Function.update s.module i m') eff :=
    ((s.ctx.setModule i m').effect_delivered al eff).1
  rw [Coseq.reply, hto] at hcall
  obtain ⟨rfl, rfl⟩ := Prod.mk.inj hcall
  refine ⟨?_, rfl, ?_, fun rid => ?_⟩
  · exact (congrArg Module.trace (congrFun hmodules i)).trans
      (congrArg Module.trace (s.ctx.setModule_self i _))
  · change ((s.ctx.setModule i _).extDeliver _ r msg al).mailbox = _
    by_cases hslot : ((s.module i).fiber g).replyReqId = s.ctx.extWaitRid
    · rw [extDeliver_accept r msg al hslot, extDeliver_accept (c := s.ctx.setModule i _) r msg al hslot]
      rfl
    · rw [extDeliver_discard r msg al hslot, extDeliver_discard (c := s.ctx.setModule i _) r msg al hslot]
      rfl
  · rintro ⟨r', msg', hx⟩
    rcases (module_answers hmove hmodules rid r' msg').mp hx with hx | heff
    · exact .inl ⟨r', msg', hx⟩
    · exact .inr (Effect.extDeliver.inj heff).1.symm

theorem reply_external (h : FirstKept s) (hrun : Reaches ok tbl s) (hrun' : Reaches ok tbl s') (hids : ExtIds s')
    {i : Nat} {r : Result} {msg : Bytes} {al : Alloc} {g : FiberRef}
    (hstep : s.step (.call i (.reply r msg) al) = some s') (hcur : (s.module i).current = some g)
    (hto : ((s.module i).fiber g).replyTo = .external) (hstores : StoresFirst s (.call i (.reply r msg) al)) :
    Serves s'.ctx.mailbox s'.Answered s'.FirstReply fun t rid => (s'.threads t).Waiting rid := by
  obtain ⟨htrace, hthreads, hmailbox, hanswers⟩ := reply_step hstep hcur hto
  rw [hmailbox, hthreads]
  by_cases hslot : ((s.module i).fiber g).replyReqId = s.ctx.extWaitRid
  · have hcond := hstores g hcur hto hslot
    rw [extDeliver_accept r msg al hslot]
    refine h.serves.accept rfl rfl rfl (answered_mono hstep) (fun _ _ _ => firstReply_step hstep) fun t hw => ?_
    have hheld := h.serves.waiting t _ hw
    change s'.FirstReply s.ctx.extWaitRid r (storedMsg msg al)
    split at hcond
    · rename_i hready
      rw [hcond.1, hcond.2]
      exact firstReply_step hstep (hheld.answer hready)
    · rename_i hempty
      rw [hcond]
      refine reply_first hrun' hheld.positive ?_ (hslot ▸ htrace)
      rintro ⟨r₀, msg₀, h₀⟩
      obtain ⟨r₁, msg₁, h₁⟩ := answered_first hrun hheld.positive h₀
      rcases hheld.reply with ⟨hready, -⟩ | ⟨-, hno⟩
      · exact hempty hready
      · exact hno r₁ msg₁ h₁
  · rw [extDeliver_discard r msg al hslot]
    have hnew : s'.Answered ((s.module i).fiber g).replyReqId :=
      ⟨r, msg, i, g, by rw [htrace]; exact List.mem_append_right _ (List.mem_singleton.mpr rfl)⟩
    refine h.serves.discard hslot (answered_mono hstep) hnew (fun _ _ _ => firstReply_step hstep)
      fun t rid hw => ?_
    have hheld := h.serves.waiting t rid hw
    refine firstReply_iff hrun hrun' hids hheld.positive hstep fun hx => (hanswers rid hx).resolve_right ?_
    exact fun heq => hslot (heq.symm.trans hheld.slot.symm)

/-- A step of a module. -/
theorem module_step (h : FirstKept s) (hrun : Reaches ok tbl s) (hrun' : Reaches ok tbl s') (hids : ExtIds s')
    {i : Nat} {act : ModAct} {al : Alloc} (hstep : s.step a = some s') (hmodule : s.stepModule i act al = some s')
    (hact : ∀ c now id al', act = .call c now id al' → a = .call i c al') (hstores : StoresFirst s a) :
    Serves s'.ctx.mailbox s'.Answered s'.FirstReply fun t rid => (s'.threads t).Waiting rid := by
  obtain ⟨eff, m', hmove, hmodules, -, hthreads, -, hquiet, -⟩ := stepModule_frame hmodule
  by_cases heff : ∃ rid r msg, eff = .extDeliver rid r msg
  · obtain ⟨rid, r, msg, rfl⟩ := heff
    rcases hmove.reply_cases with ⟨-, hno⟩ | ⟨now, id, al', g, r', msg', rfl, hcur, -, heff⟩
    · exact absurd rfl (hno rid r msg)
    · obtain rfl := hact _ _ _ _ rfl
      refine h.reply_external hrun hrun' hids hstep hcur ?_ hstores
      unfold reply at heff
      dsimp only at heff
      split at heff
      · assumption
      · cases heff
  · have hother : ∀ rid r msg, eff ≠ .extDeliver rid r msg := fun rid r msg heq => heff ⟨rid, r, msg, heq⟩
    refine h.quiet hrun hrun' hids hstep (fun rid => ?_) (hquiet hother) fun t rid => by rw [hthreads]
    rintro ⟨r, msg, hx⟩
    exact ⟨r, msg, ((module_answers hmove hmodules rid r msg).mp hx).resolve_right (hother rid r msg)⟩

/-- A thread that does not call leaves the slot and those who wait. -/
theorem aside (h : FirstKept s) (hrun : Reaches ok tbl s) (hrun' : Reaches ok tbl s') (hids : ExtIds s')
    (hstep : s.step a = some s') {t : Nat} {p : ExtPoint} (hanswers : ∀ rid, s'.Answered rid → s.Answered rid)
    (hmailbox : s'.ctx.mailbox = s.ctx.mailbox) (hat : ThreadAt s s' t p) (hp : ∀ rid i seq, p ≠ .waiting rid i seq)
    (ht : ∀ rid, ¬(s.threads t).Waiting rid) :
    Serves s'.ctx.mailbox s'.Answered s'.FirstReply fun t rid => (s'.threads t).Waiting rid := by
  refine h.quiet hrun hrun' hids hstep hanswers hmailbox fun t' rid => hat.waiting.trans ?_
  constructor
  · rintro (⟨-, i, seq, heq⟩ | ⟨-, hw⟩)
    · exact absurd heq (hp rid i seq)
    · exact hw
  · intro hw
    refine .inr ⟨?_, hw⟩
    rintro rfl
    exact ht rid hw

/-- A `request_sync` arms the slot for its fresh id. -/
theorem call_step (h : FirstKept s) (hrun : Reaches ok tbl s) {t i seq : Nat} {msg : Bytes} {al : Alloc}
    {th : ExtThread} (hone : OneAtATime s (.requestSync t i seq msg al))
    (hstep : s.step (.requestSync t i seq msg al) = some s')
    (hs' : s' = { s with ctx := requestSync s.ctx t i seq msg al }.setThread t th)
    (hth : th.point = .waiting s.ctx.rid i seq) :
    Serves s'.ctx.mailbox s'.Answered s'.FirstReply fun t rid => (s'.threads t).Waiting rid := by
  have hrid : s.ctx.rid = s.ctx.extId := Nat.mod_eq_of_lt (Nat.lt_of_lt_of_le hone.2 (Nat.sub_le _ _))
  have hat : ThreadAt s s' t (.waiting s.ctx.rid i seq) := hth ▸ hs' ▸ threadAt_set _ t _ rfl
  have hmailbox : s'.ctx.mailbox = s.ctx.mailbox.arm t s.ctx.rid :=
    hs' ▸ (requestSync_mailbox s.ctx t i seq msg al).1
  obtain ⟨hmodules, hnr⟩ := requestSync_frame hs'
  have hanswers := (post_frame hmodules hnr).2
  have hfresh : ∀ rid, s.ctx.rid = rid → ¬s.Answered rid := by
    rintro rid rfl ⟨r, msg, hx⟩
    exact Nat.lt_irrefl _ (hrid ▸ answered_lt hrun h.ids hx)
  rw [hmailbox]
  refine h.serves.arm (hrid ▸ h.ids.positive) (hfresh _ rfl) (fun r msg hx => ⟨r, msg, firstReply_answered hx⟩)
    (answered_mono hstep) (fun _ _ _ => firstReply_step hstep) (fun r msg hx => ?_) fun t' rid' => ?_
  · exact hfresh _ rfl ⟨r, msg, (hanswers _ _ _).mp (firstReply_answered hx)⟩
  · refine hat.waiting.trans ⟨?_, ?_⟩
    · rintro (⟨ht, i', seq', heq⟩ | ⟨-, hw⟩)
      · exact ⟨ht, (ExtPoint.waiting.inj heq).1.symm⟩
      · exact ((h.serves.waiting t' rid' hw).not_returned hone.1).elim
    · rintro ⟨ht, rfl⟩
      exact .inl ⟨ht, i, seq, rfl⟩

/-- The caller takes the reply and goes. -/
theorem return_step (h : FirstKept s) {t i seq rid : Nat} {al : Alloc} (hstores : StoresFirst s (.wakeup t al))
    (hw : (s.threads t).point = .waiting rid i seq) (hready : s.ctx.extReady = true)
    (hs' : s' = { s with ctx := (syncReturn s.ctx (s.threads t) t rid i seq al).1 }.setThread t
      (syncReturn s.ctx (s.threads t) t rid i seq al).2) :
    Serves s'.ctx.mailbox s'.Answered s'.FirstReply fun t rid => (s'.threads t).Waiting rid := by
  have hat : ThreadAt s s' t .idle := hs' ▸ threadAt_set _ t _ rfl
  have hmailbox : s'.ctx.mailbox = s.ctx.mailbox.take t rid :=
    hs' ▸ syncReturn_mailbox s.ctx _ t rid i seq (hstores hready)
  have htrace : s'.module = s.module := hs' ▸ rfl
  have hfirst : s'.FirstReply = s.FirstReply := by
    funext r res msg
    rw [Sys.FirstReply, htrace]
    rfl
  have hanswered : s'.Answered = s.Answered := by
    funext r
    unfold Sys.Answered Sys.AnswersExternal
    rw [htrace]
  rw [hmailbox, hfirst, hanswered]
  refine h.serves.take ⟨i, seq, hw⟩ hready fun t' rid' hw' => ?_
  rcases hat.waiting.mp hw' with ⟨-, _, _, hno⟩ | ⟨ht, hold⟩
  · cases hno
  · exact ⟨hold, ht⟩

theorem step (h : FirstKept s) (hrun : Reaches ok tbl s) (hrun' : Reaches ok tbl s') (hone : OneAtATime s a)
    (hstores : StoresFirst s a) (hstep : s.step a = some s') : FirstKept s' := by
  have hlt : a.takesExtId = true → s.ctx.extId < 2 ^ 32 - 1 := by
    intro ha
    cases a with
    | requestSync => exact hone.2
    | requestAsync => exact hone
    | _ => cases ha
  have hids : ExtIds s' := h.ids.step hrun (fun ha => Nat.lt_of_lt_of_le (hlt ha) (Nat.sub_le _ _)) hstep
  refine ⟨hids, ?_, ?_⟩
  · rw [ExtIds.step_counter hstep]
    split
    · exact hlt ‹_›
    · exact h.bound
  · have hmodule : ∀ {i act al}, s.stepModule i act al = some s' →
        (∀ c now id al', act = .call c now id al' → a = .call i c al') →
        Serves s'.ctx.mailbox s'.Answered s'.FirstReply fun t rid => (s'.threads t).Waiting rid :=
      fun hm hact => h.module_step hrun hrun' hids hstep hm hact hstores
    cases Sys.step_sysMove hstep with
    | tick hs' =>
        subst hs'
        exact h.serves
    | sched hm => exact hmodule hm fun _ _ _ _ hact => by cases hact
    | call hm => exact hmodule hm fun _ _ _ _ hact => by cases hact; rfl
    | stop hm => exact hmodule hm fun _ _ _ _ hact => by cases hact
    | requestSync _ hs' => exact h.call_step hrun hone hstep hs' rfl
    | wakeup hw hready hs' => exact h.return_step hstores hw hready hs'
    | sleep _ _ hs' =>
        subst hs'
        exact h.serves
    | @requestAsync t i seq msg hp hs' =>
        have hat : ThreadAt s s' t (.posting s.ctx.rid i seq msg) := hs' ▸ threadAt_set _ t _ rfl
        refine h.aside hrun hrun' hids hstep (fun rid hx => ?_) (hs' ▸ rfl) hat (fun _ _ _ hno => by cases hno) ?_
        · subst hs'
          exact hx
        · rintro rid' ⟨i', seq', hw⟩
          rw [hp] at hw
          cases hw
    | @asyncPost t rid i seq msg al hp hs' =>
        have hat : ThreadAt s s' t .idle := hs' ▸ threadAt_set _ t _ rfl
        have hmailbox : s'.ctx.mailbox = s.ctx.mailbox :=
          hs' ▸ (post_mailbox s.ctx i (makeEv .start seq rid .external .ignore msg al)).1
        obtain ⟨hmodules, hnr⟩ := asyncPost_frame hs'
        have hanswers := (post_frame hmodules hnr).2
        refine h.aside hrun hrun' hids hstep (fun rid hx => ?_) hmailbox hat (fun _ _ _ hno => by cases hno) ?_
        · obtain ⟨r, msg, hx⟩ := hx
          exact ⟨r, msg, (hanswers _ _ _).mp hx⟩
        · rintro rid' ⟨i', seq', hw⟩
          rw [hp] at hw
          cases hw

theorem boot (tbl : List Reg) : FirstKept (boot tbl) := by
  refine ⟨ExtIds.boot tbl, (show 1 ≤ 2 ^ 32 - 1 by decide), ?_, ?_, ?_, ?_, fun hne => absurd rfl hne⟩
  · rintro t rid r msg ⟨⟩
  · rintro rid r msg ⟨⟩
  · rintro t t' rid rid' ⟨_, _, ⟨⟩⟩
  · rintro t rid ⟨_, _, ⟨⟩⟩

theorem replies (h : FirstKept s) (hrun : Reaches ok tbl s) : FirstReplies s where
  own := by
    intro rid j g n j' g' n' hx hy
    obtain ⟨hj, hg, -⟩ := started_unique hrun (h.ids.one rid) hx hy
    exact ⟨hj, hg⟩
  returned := h.serves.returned
  ready := fun t rid hw => (h.serves.waiting t rid hw).answer

/-- A reply that leaves another content in the slot of a waiting call is not its first. -/
theorem stores_reply (h : FirstKept s) (hrun : Reaches ok tbl s) (hrun' : Reaches ok tbl s') (hids : ExtIds s')
    {i : Nat} {r : Result} {msg : Bytes} {al : Alloc} (hstep : s.step (.call i (.reply r msg) al) = some s')
    (hreplies : FirstReplies s') : StoresFirst s (.call i (.reply r msg) al) := by
  intro g hcur hto hslot
  obtain ⟨htrace, hthreads, hmailbox, -⟩ := reply_step hstep hcur hto
  rw [hslot] at htrace
  rw [extDeliver_accept r msg al hslot] at hmailbox
  have hnew : s'.AnswersExternal s.ctx.extWaitRid r msg :=
    ⟨i, g, by rw [htrace]; exact List.mem_append_right _ (List.mem_singleton.mpr rfl)⟩
  have hslotid : s.ctx.extWaitRid ≠ 2 ^ 32 - 1 := by
    have hlt := answered_lt hrun' hids hnew
    rw [ExtIds.step_counter hstep] at hlt
    exact Nat.ne_of_lt (Nat.lt_of_lt_of_le hlt h.bound)
  obtain ⟨t, hw⟩ := h.serves.armed hslotid
  have hheld := h.serves.waiting t _ hw
  have hslot' : s'.FirstReply s.ctx.extWaitRid r (storedMsg msg al) := by
    have hready : s'.ctx.extReady = true := congrArg Mailbox.ready hmailbox
    have hresult : s'.ctx.extResult = r := congrArg Mailbox.result hmailbox
    have hmsg : s'.ctx.extMsg = storedMsg msg al := congrArg Mailbox.msg hmailbox
    have hfirst := hreplies.ready t s.ctx.extWaitRid (by rw [hthreads]; exact hw) hready
    rwa [hresult, hmsg] at hfirst
  split
  · rename_i hready
    exact firstReply_unique hrun' hids (firstReply_step hstep (hheld.answer hready)) hslot'
  · rename_i hempty
    have hunanswered : ¬s.Answered s.ctx.extWaitRid := by
      rintro ⟨r₀, msg₀, h₀⟩
      obtain ⟨r₁, msg₁, h₁⟩ := answered_first hrun hheld.positive h₀
      rcases hheld.reply with ⟨hready, -⟩ | ⟨-, hno⟩
      · exact hempty hready
      · exact hno r₁ msg₁ h₁
    exact (firstReply_unique hrun' hids (reply_first hrun' hheld.positive hunanswered htrace) hslot').2

/-- A caller without memory for its copy returns with an empty message. -/
theorem stores_wakeup (h : FirstKept s) (hrun' : Reaches ok tbl s') (hids : ExtIds s') {t : Nat} {al : Alloc}
    (hstep : s.step (.wakeup t al) = some s') (hreplies : FirstReplies s') : StoresFirst s (.wakeup t al) := by
  intro hready
  by_contra hno
  obtain ⟨hlt, hal⟩ := not_or.mp hno
  have hfail : (s.threads t).buf.length < s.ctx.extMsg.length ∧ al .syncBuf = false :=
    ⟨Nat.lt_of_not_le hlt, Bool.eq_false_iff.mpr hal⟩
  cases Sys.step_sysMove hstep with
  | sleep _ hno _ => exact absurd hready hno
  | @wakeup t rid i seq _ hw _ hs' =>
      have hreturned : .returned t rid s.ctx.extResult [] ∈ s'.ctx.extTrace := by
        rw [hs']
        change _ ∈ (syncReturn s.ctx (s.threads t) t rid i seq al).1.extTrace
        rw [syncReturn]
        dsimp only
        rw [if_pos hfail, List.take_zero]
        exact List.mem_append_right _ (List.mem_singleton.mpr rfl)
      have hheld := h.serves.waiting t rid ⟨i, seq, hw⟩
      obtain ⟨-, hmsg⟩ := firstReply_unique hrun' hids (hreplies.returned t rid _ _ hreturned)
        (firstReply_step hstep (hheld.answer hready))
      have hempty : s.ctx.extMsg = [] := hmsg
      rw [hempty] at hfail
      exact absurd hfail.1 (Nat.not_lt_zero _)

end FirstKept

/-- The replies to calls in turn are kept as they come first. -/
def FirstTaken (s : Sys) (a : Act) : Prop := OneAtATime s a ∧ StoresFirst s a

instance (s : Sys) (a : Act) : Decidable (FirstTaken s a) := inferInstanceAs (Decidable (_ ∧ _))

theorem first_kept {tbl : List Reg} {s : Sys} (hrun : Reaches FirstTaken tbl s) : FirstKept s :=
  hrun.invariant (P := FirstKept) (FirstKept.boot tbl) fun _ _ _ hr h hok hstep =>
    h.step hr (hr.tail hok hstep) hok.1 hok.2 hstep

/-- In every run with one `request_sync` at a time in which no later reply is stored over the first, each
`request_sync` returns with the first reply of the sequence it has started, and nothing else completes it; and
the first step that breaks this stores something else than the first reply. -/
theorem first_reply_iff {tbl : List Reg} {s : Sys} (hrun : Reaches FirstTaken tbl s) :
    FirstReplies s ∧
      ∀ a s', OneAtATime s a → s.step a = some s' → (FirstReplies s' ↔ StoresFirst s a) := by
  have h := first_kept hrun
  refine ⟨h.replies hrun, fun a s' hone hstep => ?_⟩
  have hr : Reaches (fun _ _ => True) tbl s := hrun.mono fun _ _ _ => trivial
  have hr' : Reaches (fun _ _ => True) tbl s' := hr.tail trivial hstep
  constructor
  · intro hreplies
    have hids : ExtIds s' := by
      refine h.ids.step hr (fun ha => ?_) hstep
      cases a with
      | requestSync => exact Nat.lt_of_lt_of_le hone.2 (Nat.sub_le _ _)
      | requestAsync => exact Nat.lt_of_lt_of_le hone (Nat.sub_le _ _)
      | _ => cases ha
    cases a with
    | call i c al =>
        cases c with
        | reply r msg => exact h.stores_reply hr hr' hids hstep hreplies
        | _ => exact trivial
    | wakeup t al => exact h.stores_wakeup hr' hids hstep hreplies
    | _ => exact trivial
  · intro hstores
    exact (h.step hrun (hrun.tail ⟨hone, hstores⟩ hstep) hone hstores hstep).replies hr'

/-- A sequence replies once more after its caller has returned, and a request without a caller is answered
while the next call waits. -/
def lateReplyRun : List Act :=
  [.requestSync 0 0 0 [] .granted, .requestAsync 2 0 0 [], .thread 0, .thread 0, .thread 0, .thread 0,
    .asyncPost 2 .granted, .wakeup 0 .granted, .fiber 0 (.reply .success [1]), .wakeup 0 .granted,
    .requestSync 1 0 0 [] .granted, .fiber 0 (.reply .error [2]), .fiber 0 .ret, .thread 0, .thread 0, .thread 0,
    .thread 0, .thread 0, .fiber 0 (.reply .error [3]), .fiber 0 .ret, .thread 0,
    .fiber 0 (.reply .success [4])]

theorem lateReplyRun_first : ∃ s, Reaches FirstTaken [⟨1, false⟩] s ∧
    (.returned 0 1 .success [1] ∈ s.ctx.extTrace ∧ .discarded 1 .error [2] ∈ s.ctx.extTrace ∧
      .discarded 2 .error [3] ∈ s.ctx.extTrace) ∧ ((s.threads 1).point = .waiting 3 0 0 ∧ s.ctx.extMsg = [4]) ∧
    FirstReplies s ∧ ∀ a s', OneAtATime s a → s.step a = some s' → (FirstReplies s' ↔ StoresFirst s a) := by
  obtain ⟨s, hrun, hs⟩ : ∃ s, Reaches FirstTaken [⟨1, false⟩] s ∧
      decide ((.returned 0 1 .success [1] ∈ s.ctx.extTrace ∧ .discarded 1 .error [2] ∈ s.ctx.extTrace ∧
        .discarded 2 .error [3] ∈ s.ctx.extTrace) ∧
          (s.threads 1).point = .waiting 3 0 0 ∧ s.ctx.extMsg = [4]) = true :=
    Lts.exists_run lateReplyRun (by decide +kernel)
  obtain ⟨hpast, hwaits⟩ := of_decide_eq_true hs
  exact ⟨s, hrun, hpast, hwaits, first_reply_iff hrun⟩

/-- The sequence replies twice before the caller wakes up. -/
def twiceRun : List Act :=
  [.requestSync 0 0 0 [] .granted, .thread 0, .thread 0, .thread 0, .thread 0, .fiber 0 (.reply .success [1]),
    .fiber 0 (.reply .error [2]), .wakeup 0 .granted]

/-- The caller returns with the second reply. -/
theorem first_reply_overwritten : ∃ s, Reaches OneAtATime [⟨1, false⟩] s ∧
    (.started 0 .external 1 0 ∈ (s.module 0).trace ∧
      (s.module 0).trace.find? (Obs.repliedBy 0) = some (.replied 0 .external 1 .success [1]) ∧
      .returned 0 1 .error [2] ∈ s.ctx.extTrace) ∧ ¬FirstReplies s := by
  obtain ⟨s, hrun, hs⟩ : ∃ s, Reaches OneAtATime [⟨1, false⟩] s ∧
      decide (.started 0 .external 1 0 ∈ (s.module 0).trace ∧
        (s.module 0).trace.find? (Obs.repliedBy 0) = some (.replied 0 .external 1 .success [1]) ∧
        .returned 0 1 .error [2] ∈ s.ctx.extTrace) = true :=
    Lts.exists_run twiceRun (by decide +kernel)
  obtain ⟨hstart, hfirst, hreturned⟩ := of_decide_eq_true hs
  refine ⟨s, hrun, ⟨hstart, hfirst, hreturned⟩, fun h => ?_⟩
  obtain ⟨j, g, n, hstart', hfirst'⟩ := h.returned 0 1 .error [2] hreturned
  obtain ⟨rfl, rfl⟩ := h.own 1 0 0 0 j g n hstart hstart'
  rw [hfirst] at hfirst'
  cases hfirst'

end Coseq
