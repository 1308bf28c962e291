import Coseq.Mailbox
import Coseq.SingleReply
import Coseq.StartTokens

/-! The calls of `request_sync`. All external threads share one mailbox, and arming it for a call takes it
away from the call before. So a call returns with the reply to its own id as long as each is made after
the others have returned, and not when two of them overlap. -/

namespace Coseq

open Tally (total)

def Ctx.mailbox (c : Ctx) : Mailbox := ⟨c.extReady, c.extWaitRid, c.extResult, c.extMsg, c.extTrace⟩

/-- The thread has taken the id and has not posted its START yet. -/
def ExtThread.Posting (th : ExtThread) (rid : Nat) : Prop := ∃ i seq msg, th.point = .posting rid i seq msg

/-- The thread waits for the reply to the id. -/
def ExtThread.Waiting (th : ExtThread) (rid : Nat) : Prop := ∃ i seq, th.point = .waiting rid i seq

/-- Some fiber has replied so to the external request `rid`. -/
def Sys.AnswersExternal (s : Sys) (rid : Nat) (r : Result) (msg : Bytes) : Prop :=
  ∃ j g, .replied g .external rid r msg ∈ (s.module j).trace

/-- What callers of `request_sync` rely on. -/
structure SyncCorrect (s : Sys) : Prop where
  returned : ∀ t rid r msg, .returned t rid r msg ∈ s.ctx.extTrace →
    ∃ j g, .replied g .external rid r msg ∈ (s.module j).trace ∧
      ∀ j' g' r' msg', .replied g' .external rid r' msg' ∈ (s.module j').trace →
        j' = j ∧ g' = g ∧ r' = r ∧ msg' = msg
  kept : ∀ t rid, (s.threads t).Waiting rid → (∀ r msg, .discarded rid r msg ∉ s.ctx.extTrace) ∧
    ∀ j g r msg, .replied g .external rid r msg ∈ (s.module j).trace →
      s.ctx.extReady = true ∧ s.ctx.extResult = r ∧ s.ctx.extMsg = msg

/-- `request_sync` is called when no call of it is in progress, external ids have not wrapped, and the
copies of the reply find memory. -/
def OneCaller (s : Sys) : Act → Prop
  | .requestSync .. => AllReturned s.ctx.extTrace ∧ s.ctx.extId < 2 ^ 32
  | .requestAsync .. => s.ctx.extId < 2 ^ 32
  | .call _ _ ok => ok .extMsg = true
  | .wakeup _ ok => ok .syncBuf = true
  | _ => True

instance (s : Sys) (a : Act) : Decidable (OneCaller s a) :=
  match a with
  | .requestSync .. => inferInstanceAs (Decidable (_ ∧ _))
  | .requestAsync .. => inferInstanceAs (Decidable (_ < _))
  | .call .. | .wakeup .. => inferInstanceAs (Decidable (_ = _))
  | .tick .. | .sched .. | .stop .. | .asyncPost .. => .isTrue trivial

/-- Sequences reply once, and external calls do not overlap. -/
def InTurn (s : Sys) (a : Act) : Prop := EveryModule RepliesOnce s a ∧ OneCaller s a

instance (s : Sys) (a : Act) : Decidable (InTurn s a) := inferInstanceAs (Decidable (_ ∧ _))

/-! ### The code of the mailbox -/

theorem post_mailbox (c : Ctx) (d : Nat) (e : Option Ev) :
    (c.post d e).mailbox = c.mailbox ∧ (c.post d e).extId = c.extId := by
  cases e with
  | none => exact ⟨rfl, rfl⟩
  | some e =>
      rw [Ctx.post]
      split <;> exact ⟨rfl, rfl⟩

theorem requestSync_mailbox (c : Ctx) (t i seq : Nat) (msg : Bytes) (ok : Alloc) :
    (requestSync c t i seq msg ok).mailbox = c.mailbox.arm t c.rid ∧
      (requestSync c t i seq msg ok).extId = c.extId + 1 :=
  post_mailbox _ i _

theorem extDeliver_mailbox (c : Ctx) (rid : Nat) (r : Result) (msg : Bytes) {ok : Alloc}
    (hok : ok .extMsg = true) : (c.extDeliver rid r msg ok).mailbox = c.mailbox.deliver rid r msg := by
  rw [Ctx.extDeliver, Mailbox.deliver, hok]
  change Ctx.mailbox (if rid = c.extWaitRid then _ else _) = if rid = c.extWaitRid then _ else _
  split <;> rfl

/-- A caller that finds memory for its copy takes the whole reply. -/
theorem syncReturn_mailbox (c : Ctx) (th : ExtThread) (t rid i seq : Nat) {ok : Alloc}
    (hok : c.extMsg.length ≤ th.buf.length ∨ ok .syncBuf = true) :
    (syncReturn c th t rid i seq ok).1.mailbox = c.mailbox.take t rid := by
  have hroom : ¬(th.buf.length < c.extMsg.length ∧ ok .syncBuf = false) := by
    rintro ⟨hlt, hno⟩
    rcases hok with hle | hyes
    · exact Nat.not_le_of_lt hlt hle
    · rw [hyes] at hno
      cases hno
  simp [syncReturn, hroom, Ctx.mailbox, Mailbox.take]

/-! ### External ids -/

/-- The ids that external threads have taken, and their STARTs. -/
structure ExtIds (s : Sys) : Prop where
  positive : 0 < s.ctx.extId
  fresh : ∀ rid, s.ctx.extId ≤ rid → s.starts .external rid = 0
  one : ∀ rid, s.starts .external rid ≤ 1
  posting : ∀ t rid, (s.threads t).Posting rid → rid < s.ctx.extId ∧ s.starts .external rid = 0
  distinct : ∀ t t' rid, (s.threads t).Posting rid → (s.threads t').Posting rid → t' = t

namespace ExtIds

variable {s s' : Sys}

/-- A step that posts no external START and takes no external id. -/
theorem same (h : ExtIds s) (hid : s'.ctx.extId = s.ctx.extId)
    (hstarts : ∀ rid, s'.starts .external rid = s.starts .external rid)
    (hthreads : ∀ t rid, (s'.threads t).Posting rid → (s.threads t).Posting rid) : ExtIds s' where
  positive := hid ▸ h.positive
  fresh := fun rid hrid => (hstarts rid).trans (h.fresh rid (hid ▸ hrid))
  one := fun rid => hstarts rid ▸ h.one rid
  posting := fun t rid hp => by
    rw [hid, hstarts]
    exact h.posting t rid (hthreads t rid hp)
  distinct := fun t t' rid hp hp' => h.distinct t t' rid (hthreads t rid hp) (hthreads t' rid hp')

/-- A thread takes an id, to post its START later. -/
theorem take (h : ExtIds s) {t : Nat} (hid : s'.ctx.extId = s.ctx.extId + 1)
    (hstarts : ∀ rid, s'.starts .external rid = s.starts .external rid)
    (hthreads : ∀ t' rid, (s'.threads t').Posting rid →
      (s.threads t').Posting rid ∨ t' = t ∧ rid = s.ctx.extId) : ExtIds s' := by
  refine ⟨hid ▸ Nat.succ_pos _, fun rid hrid => ?_, fun rid => hstarts rid ▸ h.one rid, fun t' rid hp => ?_,
    fun t₁ t₂ rid h₁ h₂ => ?_⟩
  · rw [hstarts]
    exact h.fresh rid (by omega)
  · rw [hid, hstarts]
    rcases hthreads t' rid hp with hp | ⟨-, rfl⟩
    · obtain ⟨hlt, hzero⟩ := h.posting t' rid hp
      exact ⟨Nat.lt_succ_of_lt hlt, hzero⟩
    · exact ⟨Nat.lt_succ_self _, h.fresh _ (Nat.le_refl _)⟩
  · rcases hthreads t₁ rid h₁ with h₁ | ⟨rfl, rfl⟩
    · rcases hthreads t₂ rid h₂ with h₂ | ⟨-, rfl⟩
      · exact h.distinct t₁ t₂ rid h₁ h₂
      · exact absurd (h.posting t₁ _ h₁).1 (Nat.lt_irrefl _)
    · rcases hthreads t₂ _ h₂ with h₂ | ⟨rfl, -⟩
      · exact absurd (h.posting t₂ _ h₂).1 (Nat.lt_irrefl _)
      · rfl

/-- A thread posts the START of an id that has none. -/
theorem post (h : ExtIds s) {rid : Nat} (hid : s.ctx.extId ≤ s'.ctx.extId) (hrid : rid < s'.ctx.extId)
    (hzero : s.starts .external rid = 0)
    (hstarts : ∀ r, s'.starts .external r ≤ s.starts .external r + if rid = r then 1 else 0)
    (hthreads : ∀ t r, (s'.threads t).Posting r → (s.threads t).Posting r ∧ r ≠ rid) : ExtIds s' := by
  have hother : ∀ r, rid ≠ r → s'.starts .external r ≤ s.starts .external r := fun r hne => by
    have hle := hstarts r
    rwa [if_neg hne] at hle
  refine ⟨Nat.lt_of_lt_of_le h.positive hid, fun r hr => ?_, fun r => ?_, fun t r hp => ?_,
    fun t t' r hp hp' => h.distinct t t' r (hthreads t r hp).1 (hthreads t' r hp').1⟩
  · refine Nat.le_zero.mp ((hother r (Nat.ne_of_lt (Nat.lt_of_lt_of_le hrid hr))).trans ?_)
    rw [h.fresh r (Nat.le_trans hid hr)]
  · by_cases hr : rid = r
    · subst hr
      have hle := hstarts rid
      rwa [hzero, if_pos rfl, Nat.zero_add] at hle
    · exact (hother r hr).trans (h.one r)
  · obtain ⟨hp, hne⟩ := hthreads t r hp
    obtain ⟨hlt, hr⟩ := h.posting t r hp
    exact ⟨Nat.lt_of_lt_of_le hlt hid, Nat.le_zero.mp (hr ▸ hother r (Ne.symm hne))⟩

end ExtIds

/-! ### Steps -/

theorem delivered_mem {x : Obs} (hx : ∀ e, x ≠ .arrived e) (n : Nat) (modules : Nat → Module) (eff : Effect)
    (j : Nat) : x ∈ (delivered n modules eff j).trace ↔ x ∈ (modules j).trace := by
  rcases delivered_apply n modules eff j with h | ⟨e, -, -, h⟩
  · rw [h]
  · rw [h]
    simp [Module.enqueue, hx]

section Step

variable {s s' : Sys}

/-- What the step of a module does to the rest of the instance. -/
theorem stepModule_frame {i : Nat} {act : ModAct} {ok : Alloc} (h : s.stepModule i act ok = some s') :
    ∃ eff m', Move (s.module i) act eff m' ∧
      s'.module = delivered s.ctx.nrModule (Function.update s.module i m') eff ∧
      s'.ctx.nrModule = s.ctx.nrModule ∧ s'.threads = s.threads ∧ s'.ctx.extId = s.ctx.extId ∧
      ((∀ rid r msg, eff ≠ .extDeliver rid r msg) → s'.ctx.mailbox = s.ctx.mailbox) ∧
      ∀ rid r msg, eff = .extDeliver rid r msg → ok .extMsg = true →
        s'.ctx.mailbox = s.ctx.mailbox.deliver rid r msg := by
  unfold Sys.stepModule at h
  split at h
  · obtain ⟨⟨m', eff⟩, hstep, rfl⟩ := Option.map_eq_some_iff.mp h
    obtain ⟨hmodules, hnr⟩ := (s.ctx.setModule i m').effect_delivered ok eff
    refine ⟨eff, m', Module.step_move hstep, hmodules, hnr, rfl, ?_, ?_, ?_⟩
    · cases eff with
      | none => rfl
      | post d e => exact (post_mailbox _ d e).2
      | extDeliver rid r msg =>
          change (Ctx.extDeliver _ rid r msg ok).extId = _
          rw [Ctx.extDeliver]
          split <;> rfl
      | nextClientId id => rfl
    · intro hother
      cases eff with
      | none => rfl
      | post d e => exact (post_mailbox _ d e).1
      | extDeliver rid r msg => exact absurd rfl (hother rid r msg)
      | nextClientId id => rfl
    · rintro rid r msg rfl hok
      exact extDeliver_mailbox _ rid r msg hok
  · cases h

/-- A module posts no external START. -/
theorem module_starts {i : Nat} {act : ModAct} {eff : Effect} {m' : Module} (hmodes : Modes (s.module i))
    (hmove : Move (s.module i) act eff m')
    (hmodules : s'.module = delivered s.ctx.nrModule (Function.update s.module i m') eff)
    (hnr : s'.ctx.nrModule = s.ctx.nrModule) (rid : Nat) :
    s'.starts .external rid = s.starts .external rid := by
  have hload : eff.load s.ctx.nrModule (startCount .external rid) = 0 := by
    rcases hmove.issue_cases with ⟨-, -, hno⟩ | ⟨_, _, _, ok, _, _, d, seq, msg, -, -, -, -, rfl⟩
    · exact load_noStart hno
    · have hle : (startEv (s.module i) d seq msg ok).load s.ctx.nrModule
          (startCount .external rid) ≤ if d < s.ctx.nrModule ∧ Origin.module (s.module i).idx = .external ∧
            (s.module i).reqId = rid then 1 else 0 := load_start
      rw [if_neg (fun h => by cases h.2.1)] at hle
      exact Nat.le_zero.mp hle
  rw [Sys.starts, hnr, hmodules, starts_delivered, hload, Nat.add_zero]
  exact Tally.total_update_same (hmove.starts hmodes)

/-- The external replies are those delivered to the mailbox. -/
theorem module_answers {i : Nat} {act : ModAct} {eff : Effect} {m' : Module}
    (hmove : Move (s.module i) act eff m')
    (hmodules : s'.module = delivered s.ctx.nrModule (Function.update s.module i m') eff)
    (rid : Nat) (r : Result) (msg : Bytes) :
    s'.AnswersExternal rid r msg ↔ s.AnswersExternal rid r msg ∨ eff = .extDeliver rid r msg := by
  have hmem : ∀ j g, .replied g .external rid r msg ∈ (s'.module j).trace ↔
      .replied g .external rid r msg ∈ (Function.update s.module i m' j).trace := fun j g => by
    rw [hmodules]
    exact delivered_mem (by simp) _ _ _ j
  have hline : ∀ g, .replied g .external rid r msg ∈ m'.trace →
      .replied g .external rid r msg ∈ (s.module i).trace ∨ eff = .extDeliver rid r msg := by
    intro g hx
    rcases hmove.reply_cases with ⟨⟨xs, htrace, hxs⟩, -⟩ | ⟨_, _, ok, a, r', msg', -, -, htrace, heff⟩
    · rw [htrace] at hx
      refine .inl ((List.mem_append.mp hx).resolve_right fun hx => ?_)
      have hno := hxs _ hx g
      simp [Obs.repliedBy] at hno
    · rw [htrace] at hx
      refine (List.mem_append.mp hx).imp id fun hx => ?_
      obtain ⟨rfl, hto, rfl, rfl, rfl⟩ := Obs.replied.inj (List.mem_singleton.mp hx)
      rw [heff, reply, ← hto]
  constructor
  · rintro ⟨j, g, hx⟩
    have hx := (hmem j g).mp hx
    by_cases hj : j = i
    · subst hj
      rw [Function.update_self] at hx
      exact (hline g hx).imp (fun hx => ⟨j, g, hx⟩) id
    · rw [Function.update_of_ne hj] at hx
      exact .inl ⟨j, g, hx⟩
  · rintro (⟨j, g, hx⟩ | rfl)
    · refine ⟨j, g, (hmem j g).mpr ?_⟩
      by_cases hj : j = i
      · subst hj
        rw [Function.update_self]
        obtain ⟨-, -, xs, hxs⟩ := hmove.grows
        rw [hxs]
        exact List.mem_append_left _ hx
      · rw [Function.update_of_ne hj]
        exact hx
    · rcases hmove.reply_cases with ⟨-, hno⟩ | ⟨_, _, ok, a, r', msg', -, -, htrace, heff⟩
      · exact absurd rfl (hno rid r msg)
      · refine ⟨i, a, (hmem i a).mpr ?_⟩
        rw [Function.update_self, htrace]
        unfold reply at heff
        dsimp only at heff
        split at heff
        · rename_i hto
          obtain ⟨rfl, rfl, rfl⟩ := Effect.extDeliver.inj heff
          rw [hto]
          exact List.mem_append_right _ (List.mem_singleton.mpr rfl)
        · cases heff

/-- An external thread posts one START and answers nothing. -/
theorem post_frame {d seq rid : Nat} {msg : Bytes} {ok : Alloc}
    (hmodules : s'.module = delivered s.ctx.nrModule s.module
      (.post d (makeEv .start seq rid .external .ignore msg ok))) (hnr : s'.ctx.nrModule = s.ctx.nrModule) :
    (∀ r, s'.starts .external r ≤ s.starts .external r + if rid = r then 1 else 0) ∧
      ∀ r res msg, s'.AnswersExternal r res msg ↔ s.AnswersExternal r res msg := by
  refine ⟨fun r => ?_, fun r res msg' => ?_⟩
  · have hle : (Effect.post d (makeEv .start seq rid .external .ignore msg ok)).load s.ctx.nrModule
        (startCount .external r) ≤ if d < s.ctx.nrModule ∧ Origin.external = .external ∧ rid = r then 1 else 0 :=
      load_start
    rw [Sys.starts, hnr, hmodules, starts_delivered]
    refine Nat.add_le_add_left (hle.trans ?_) _
    by_cases hr : rid = r
    · rw [if_pos hr]
      split <;> simp
    · rw [if_neg (fun h => hr h.2.2)]
      exact Nat.zero_le _
  · refine exists_congr fun j => exists_congr fun g => ?_
    rw [hmodules]
    exact delivered_mem (by simp) _ _ _ j

/-- The START of a `request_sync` is posted when the mailbox is armed. -/
theorem requestSync_frame {t i seq : Nat} {msg : Bytes} {ok : Alloc} {th : ExtThread}
    (h : s' = { s with ctx := requestSync s.ctx t i seq msg ok }.setThread t th) :
    s'.module = delivered s.ctx.nrModule s.module
        (.post i (makeEv .start seq s.ctx.rid .external .ignore msg ok)) ∧
      s'.ctx.nrModule = s.ctx.nrModule := by
  subst h
  exact Ctx.post_delivered _ i (makeEv .start seq s.ctx.rid .external .ignore msg ok)

theorem asyncPost_frame {t i seq rid : Nat} {msg : Bytes} {ok : Alloc} {th : ExtThread}
    (h : s' = { s with ctx := s.ctx.extStart i seq rid msg ok }.setThread t th) :
    s'.module = delivered s.ctx.nrModule s.module (.post i (makeEv .start seq rid .external .ignore msg ok)) ∧
      s'.ctx.nrModule = s.ctx.nrModule := by
  subst h
  exact s.ctx.post_delivered i (makeEv .start seq rid .external .ignore msg ok)

end Step

/-- The step takes an external id. -/
def Act.takesExtId : Act → Bool
  | .requestSync .. | .requestAsync .. => true
  | _ => false

/-- A step of thread `t`, which then is at `p`. -/
def ThreadAt (s s' : Sys) (t : Nat) (p : ExtPoint) : Prop :=
  ∀ t', t' = t ∧ (s'.threads t').point = p ∨ t' ≠ t ∧ s'.threads t' = s.threads t'

theorem threadAt_set (s₁ : Sys) (t : Nat) (th : ExtThread) (hs : s₁.threads = s.threads) :
    ThreadAt s (s₁.setThread t th) t th.point := by
  intro t'
  have hset : (s₁.setThread t th).threads = Function.update s₁.threads t th := rfl
  rw [hset, hs]
  by_cases ht : t' = t
  · subst ht
    rw [Function.update_self]
    exact .inl ⟨rfl, rfl⟩
  · exact .inr ⟨ht, Function.update_of_ne ht th s.threads⟩

theorem ThreadAt.waiting {s s' : Sys} {t t' r : Nat} {p : ExtPoint} (h : ThreadAt s s' t p) :
    (s'.threads t').Waiting r ↔
      (t' = t ∧ ∃ i seq, p = .waiting r i seq) ∨ t' ≠ t ∧ (s.threads t').Waiting r := by
  rcases h t' with ⟨ht, heq⟩ | ⟨ht, heq⟩
  · rw [ExtThread.Waiting, heq]
    exact ⟨fun hp => .inl ⟨ht, hp⟩, fun hp => hp.elim (fun h => h.2) fun h => absurd ht h.1⟩
  · rw [heq]
    exact ⟨fun hp => .inr ⟨ht, hp⟩, fun hp => hp.elim (fun h => absurd h.1 ht) fun h => h.2⟩

theorem ThreadAt.posting {s s' : Sys} {t t' r : Nat} {p : ExtPoint} (h : ThreadAt s s' t p)
    (hp : (s'.threads t').Posting r) :
    (t' = t ∧ ∃ i seq msg, p = .posting r i seq msg) ∨ t' ≠ t ∧ (s.threads t').Posting r := by
  obtain ⟨i, seq, msg, hp⟩ := hp
  rcases h t' with ⟨ht, heq⟩ | ⟨ht, heq⟩
  · exact .inl ⟨ht, i, seq, msg, heq.symm.trans hp⟩
  · exact .inr ⟨ht, i, seq, msg, heq ▸ hp⟩

namespace ExtIds

variable {ok : Sys → Act → Prop} {tbl : List Reg} {s s' : Sys} {a : Act}

/-- External ids are taken once and their STARTs are posted once. -/
theorem step (h : ExtIds s) (hrun : Reaches ok tbl s)
    (hlt : a.takesExtId = true → s.ctx.extId < 2 ^ 32) (hstep : s.step a = some s') : ExtIds s' := by
  have hmodule : ∀ {i act al}, s.stepModule i act al = some s' → ExtIds s' := by
    intro i act al hstep
    obtain ⟨eff, m', hmove, hmodules, hnr, hthreads, hid, -⟩ := stepModule_frame hstep
    exact h.same hid (module_starts (modes hrun i) hmove hmodules hnr) fun t rid hp => hthreads ▸ hp
  cases Sys.step_sysMove hstep with
  | tick hs' =>
      subst hs'
      exact h.same rfl (fun _ => rfl) fun _ _ hp => hp
  | sched hstep' => exact hmodule hstep'
  | call hstep' => exact hmodule hstep'
  | stop hstep' => exact hmodule hstep'
  | @requestSync t i seq msg al _ hs' =>
      have hrid : s.ctx.rid = s.ctx.extId := Nat.mod_eq_of_lt (hlt rfl)
      have hat : ThreadAt s s' t (.waiting s.ctx.rid i seq) := hs' ▸ threadAt_set _ t _ rfl
      have hframe := requestSync_frame hs'
      have hid : s'.ctx.extId = s.ctx.extId + 1 := hs' ▸ (requestSync_mailbox s.ctx t i seq msg al).2
      obtain ⟨hstarts, -⟩ := post_frame hframe.1 hframe.2
      rw [hrid] at hstarts
      refine h.post (Nat.le_trans (Nat.le_succ _) hid.ge) (Nat.lt_of_lt_of_le (Nat.lt_succ_self _) hid.ge)
        (h.fresh _ (Nat.le_refl _)) hstarts fun t' r hp => ?_
      rcases hat.posting hp with ⟨-, _, _, _, hno⟩ | ⟨-, hold⟩
      · cases hno
      · exact ⟨hold, Nat.ne_of_lt (h.posting t' r hold).1⟩
  | @wakeup t _ _ _ _ _ _ hs' =>
      have hat : ThreadAt s s' t .idle := hs' ▸ threadAt_set _ t _ rfl
      subst hs'
      refine h.same rfl (fun _ => rfl) fun t' r hp => ?_
      rcases hat.posting hp with ⟨-, _, _, _, hno⟩ | ⟨-, hold⟩
      · cases hno
      · exact hold
  | sleep _ _ hs' => exact hs' ▸ h
  | @requestAsync t i seq msg _ hs' =>
      have hrid : s.ctx.rid = s.ctx.extId := Nat.mod_eq_of_lt (hlt rfl)
      have hat : ThreadAt s s' t (.posting s.ctx.rid i seq msg) := hs' ▸ threadAt_set _ t _ rfl
      subst hs'
      refine h.take (t := t) rfl (fun _ => rfl) fun t' r hp => ?_
      rcases hat.posting hp with ⟨ht, _, _, _, heq⟩ | ⟨-, hold⟩
      · exact .inr ⟨ht, (ExtPoint.posting.inj heq).1.symm.trans hrid⟩
      · exact .inl hold
  | @asyncPost t rid i seq msg al hp₀ hs' =>
      have hat : ThreadAt s s' t .idle := hs' ▸ threadAt_set _ t _ rfl
      have hframe := asyncPost_frame hs'
      have hid : s'.ctx.extId = s.ctx.extId :=
        hs' ▸ (post_mailbox s.ctx i (makeEv .start seq rid .external .ignore msg al)).2
      have hposting : (s.threads t).Posting rid := ⟨_, _, _, hp₀⟩
      obtain ⟨hrid, hzero⟩ := h.posting t rid hposting
      obtain ⟨hstarts, -⟩ := post_frame hframe.1 hframe.2
      refine h.post hid.ge (Nat.lt_of_lt_of_le hrid hid.ge) hzero hstarts fun t' r hp => ?_
      rcases hat.posting hp with ⟨-, _, _, _, hno⟩ | ⟨ht, hold⟩
      · cases hno
      · exact ⟨hold, fun hr => ht (h.distinct t t' rid hposting (hr ▸ hold))⟩

/-- The counter moves on with each id that is taken. -/
theorem step_counter (hstep : s.step a = some s') :
    s'.ctx.extId = if a.takesExtId then s.ctx.extId + 1 else s.ctx.extId := by
  have hmodule : ∀ {i act al}, s.stepModule i act al = some s' → s'.ctx.extId = s.ctx.extId := by
    intro i act al hstep
    obtain ⟨-, -, -, -, -, -, hid, -⟩ := stepModule_frame hstep
    exact hid
  cases Sys.step_sysMove hstep with
  | tick hs' =>
      subst hs'
      rfl
  | sched hstep' => exact hmodule hstep'
  | call hstep' => exact hmodule hstep'
  | stop hstep' => exact hmodule hstep'
  | @requestSync t i seq msg al _ hs' =>
      subst hs'
      exact (requestSync_mailbox s.ctx t i seq msg al).2
  | wakeup _ _ hs' =>
      subst hs'
      rfl
  | sleep _ _ hs' =>
      subst hs'
      rfl
  | requestAsync _ hs' =>
      subst hs'
      rfl
  | asyncPost _ hs' =>
      subst hs'
      exact (post_mailbox s.ctx _ _).2

theorem boot (tbl : List Reg) : ExtIds (boot tbl) := by
  have hstarts : ∀ rid, (Coseq.boot tbl).starts .external rid = 0 := fun rid =>
    Tally.total_eq_zero fun _ _ => rfl
  refine ⟨Nat.one_pos, fun rid _ => hstarts rid, fun rid => by rw [hstarts]; exact Nat.zero_le _, ?_, ?_⟩
  · rintro t rid ⟨_, _, _, ⟨⟩⟩
  · rintro t t' rid ⟨_, _, _, ⟨⟩⟩

end ExtIds

/-- A reply has the id of a call that was made. -/
theorem answered_lt {ok : Sys → Act → Prop} {tbl : List Reg} {s : Sys} (hrun : Reaches ok tbl s)
    (hids : ExtIds s) {rid : Nat} {r : Result} {msg : Bytes} (h : s.AnswersExternal rid r msg) :
    rid < s.ctx.extId := by
  obtain ⟨j, g, hx⟩ := h
  by_cases hzero : rid = 0
  · rw [hzero]
    exact hids.positive
  · obtain ⟨-, n, hn⟩ := (addressed hrun j).replied_started hx (.inr hzero)
    by_contra hle
    have hnone := hids.fresh rid (Nat.le_of_not_lt hle)
    exact Nat.ne_of_gt (started_counts hrun hn) hnone

/-- The external ids and the mailbox are in order. -/
structure SyncKept (s : Sys) : Prop where
  ids : ExtIds s
  kept : Kept s.ctx.mailbox s.AnswersExternal fun t rid => (s.threads t).Waiting rid

namespace SyncKept

variable {ok : Sys → Act → Prop} {tbl : List Reg} {s s' : Sys}

theorem module_step (h : SyncKept s) {i : Nat} {act : ModAct} {al : Alloc}
    (hstep : s.stepModule i act al = some s')
    (hal : (∃ c now id ok, act = .call c now id ok) → al .extMsg = true) :
    Kept s'.ctx.mailbox s'.AnswersExternal fun t rid => (s'.threads t).Waiting rid := by
  obtain ⟨eff, m', hmove, hmodules, -, hthreads, -, hquiet, hdeliver⟩ := stepModule_frame hstep
  have hanswers := module_answers hmove hmodules
  rw [hthreads]
  by_cases heff : ∃ rid r msg, eff = .extDeliver rid r msg
  · obtain ⟨rid, r, msg, rfl⟩ := heff
    have hcall : ∃ c now id ok, act = .call c now id ok := by
      rcases hmove.reply_cases with ⟨-, hno⟩ | ⟨now, id, ok, _, r', msg', hact, -⟩
      · exact absurd rfl (hno rid r msg)
      · exact ⟨_, now, id, ok, hact⟩
    rw [hdeliver rid r msg rfl (hal hcall)]
    refine h.kept.deliver fun rid' r' msg' => (hanswers rid' r' msg').trans (or_congr_right ?_)
    constructor
    · intro heq
      obtain ⟨rfl, rfl, rfl⟩ := Effect.extDeliver.inj heq
      exact ⟨rfl, rfl, rfl⟩
    · rintro ⟨rfl, rfl, rfl⟩
      rfl
  · have hother : ∀ rid r msg, eff ≠ .extDeliver rid r msg := fun rid r msg heq => heff ⟨rid, r, msg, heq⟩
    rw [hquiet hother]
    exact h.kept.same (fun rid r msg => (hanswers rid r msg).trans
      (or_iff_left (hother rid r msg))) fun _ _ hw => hw

/-- A thread arms the mailbox and posts its START. -/
theorem call (h : SyncKept s) (hrun : Reaches ok tbl s) {t i seq : Nat} {msg : Bytes} {al : Alloc}
    (hall : AllReturned s.ctx.extTrace) (hlt : s.ctx.extId < 2 ^ 32)
    (hmodules : s'.module = delivered s.ctx.nrModule s.module
      (.post i (makeEv .start seq s.ctx.rid .external .ignore msg al)))
    (hnr : s'.ctx.nrModule = s.ctx.nrModule) (hmailbox : s'.ctx.mailbox = s.ctx.mailbox.arm t s.ctx.rid)
    (hthreads : ThreadAt s s' t (.waiting s.ctx.rid i seq)) :
    Kept s'.ctx.mailbox s'.AnswersExternal fun t rid => (s'.threads t).Waiting rid := by
  have hrid : s.ctx.rid = s.ctx.extId := Nat.mod_eq_of_lt hlt
  have hfree := h.kept.free hall
  obtain ⟨-, hanswers⟩ := post_frame hmodules hnr
  rw [hrid] at hmailbox hthreads
  rw [hmailbox]
  refine Kept.same (h.kept.arm h.ids.positive ?_ ?_) hanswers fun _ _ hw => hw
  · exact fun r msg' hx => Nat.lt_irrefl _ (answered_lt hrun h.ids hx)
  · rintro t' r ⟨i', seq', hw⟩
    rcases hthreads t' with ⟨ht, heq⟩ | ⟨-, heq⟩
    · rw [heq] at hw
      exact ⟨ht, (ExtPoint.waiting.inj hw).1.symm⟩
    · rw [heq] at hw
      exact absurd ⟨i', seq', hw⟩ (hfree t' r)

/-- The thread that finds the reply returns with it. -/
theorem wakeup (h : SyncKept s) {t rid : Nat} (hw : (s.threads t).Waiting rid)
    (hready : s.ctx.extReady = true) (hmodules : s'.module = s.module)
    (hmailbox : s'.ctx.mailbox = s.ctx.mailbox.take t rid) (hthreads : ThreadAt s s' t .idle) :
    Kept s'.ctx.mailbox s'.AnswersExternal fun t rid => (s'.threads t).Waiting rid := by
  rw [hmailbox]
  have hanswers : ∀ r res msg, s'.AnswersExternal r res msg ↔ s.AnswersExternal r res msg := by
    intro r res msg
    rw [Sys.AnswersExternal, hmodules]
    rfl
  refine Kept.same (h.kept.take hw hready ?_) hanswers fun _ _ hw' => hw'
  rintro t' r ⟨i', seq', hw'⟩
  rcases hthreads t' with ⟨-, heq⟩ | ⟨ht, heq⟩
  · rw [heq] at hw'
    cases hw'
  · exact ⟨⟨i', seq', heq ▸ hw'⟩, ht⟩

/-- A thread that takes an id or posts a START leaves the mailbox alone and does not wait. -/
theorem aside (h : SyncKept s) {t : Nat} {p : ExtPoint}
    (hanswers : ∀ r res msg, s'.AnswersExternal r res msg ↔ s.AnswersExternal r res msg)
    (hmailbox : s'.ctx.mailbox = s.ctx.mailbox) (hthreads : ThreadAt s s' t p)
    (hp : ∀ rid i seq, p ≠ .waiting rid i seq) :
    Kept s'.ctx.mailbox s'.AnswersExternal fun t rid => (s'.threads t).Waiting rid := by
  rw [hmailbox]
  refine h.kept.same hanswers ?_
  rintro t' r ⟨i', seq', hw⟩
  rcases hthreads t' with ⟨-, heq⟩ | ⟨-, heq⟩
  · exact absurd (heq.symm.trans hw) (hp r i' seq')
  · exact ⟨i', seq', heq ▸ hw⟩

theorem step (h : SyncKept s) (hrun : Reaches ok tbl s) {a : Act} (hguard : OneCaller s a)
    (hstep : s.step a = some s') : SyncKept s' := by
  refine ⟨h.ids.step hrun (fun ha => ?_) hstep, ?_⟩
  · cases a with
    | requestSync => exact hguard.2
    | requestAsync => exact hguard
    | _ => cases ha
  · cases Sys.step_sysMove hstep with
    | tick hs' =>
        subst hs'
        exact h.kept
    | sched =>
        refine h.module_step hstep ?_
        rintro ⟨_, _, _, _, ⟨⟩⟩
    | call => exact h.module_step hstep fun _ => hguard
    | stop => exact h.module_step hstep fun _ => rfl
    | @requestSync t i seq msg al _ hs' =>
        have hframe := requestSync_frame hs'
        subst hs'
        obtain ⟨hmailbox, -⟩ := requestSync_mailbox s.ctx t i seq msg al
        exact h.call hrun hguard.1 hguard.2 hframe.1 hframe.2 hmailbox (threadAt_set _ t _ rfl)
    | @wakeup t rid i seq _ hw hready hs' =>
        subst hs'
        exact h.wakeup ⟨_, _, hw⟩ hready rfl (syncReturn_mailbox s.ctx _ t rid i seq (.inr hguard))
          (threadAt_set _ t _ rfl)
    | sleep _ _ hs' => exact hs' ▸ h.kept
    | @requestAsync t _ _ _ _ hs' =>
        subst hs'
        exact h.aside (fun _ _ _ => Iff.rfl) rfl (threadAt_set _ t _ rfl) fun _ _ _ hp => by cases hp
    | @asyncPost t rid i seq msg al _ hs' =>
        have hframe := asyncPost_frame hs'
        subst hs'
        obtain ⟨hmailbox, -⟩ := post_mailbox s.ctx i (makeEv .start seq rid .external .ignore msg al)
        exact h.aside (post_frame hframe.1 hframe.2).2 hmailbox (threadAt_set _ t _ rfl) fun _ _ _ hp => by cases hp

theorem boot (tbl : List Reg) : SyncKept (boot tbl) := by
  refine ⟨ExtIds.boot tbl, ?_, ?_, ?_, ?_⟩
  · rintro t rid r msg ⟨⟩
  · rintro rid r msg ⟨⟩
  · rintro t t' rid rid' ⟨_, _, ⟨⟩⟩
  · rintro t rid ⟨_, _, ⟨⟩⟩

end SyncKept

theorem sync_kept {tbl : List Reg} {s : Sys} (hrun : Reaches InTurn tbl s) : SyncKept s :=
  hrun.invariant (SyncKept.boot tbl) fun _ _ _ hrun h hok hstep => h.step hrun hok.2 hstep

/-- An external request has one reply. -/
theorem answer_unique {tbl : List Reg} {s : Sys} (hrun : Reaches InTurn tbl s) {rid j j' : Nat}
    {g g' : FiberRef} {r r' : Result} {msg msg' : Bytes} (hpos : 0 < rid)
    (hx : .replied g .external rid r msg ∈ (s.module j).trace)
    (hy : .replied g' .external rid r' msg' ∈ (s.module j').trace) :
    j' = j ∧ g' = g ∧ r' = r ∧ msg' = msg := by
  have hne : rid ≠ 0 := Nat.ne_of_gt hpos
  obtain ⟨hfn, n, hn⟩ := (addressed hrun j).replied_started hx (.inr hne)
  obtain ⟨-, n', hn'⟩ := (addressed hrun j').replied_started hy (.inr hne)
  obtain ⟨rfl, rfl, -⟩ := started_unique hrun ((sync_kept hrun).ids.one rid) hn hn'
  have hborn := ((addressed hrun j').lines _ hx).1
  have hone := single_reply hrun (fun _ _ h => h.1) j' g' hborn hfn
  have heq := eq_of_countP_le_one hone hx hy (by simp [Obs.repliedBy]) (by simp [Obs.repliedBy])
  obtain ⟨-, -, -, rfl, rfl⟩ := Obs.replied.inj heq
  exact ⟨rfl, rfl, rfl, rfl⟩

/-- In every run in which sequences reply once and external calls do not overlap, each `request_sync`
returns with the reply to its own id, and no reply to a waiting call is lost. -/
theorem sync_correct {tbl : List Reg} {s : Sys} (hrun : Reaches InTurn tbl s) : SyncCorrect s := by
  have hkept := (sync_kept hrun).kept
  constructor
  · intro t rid r msg hret
    obtain ⟨hpos, j, g, hx⟩ := hkept.returned t rid r msg hret
    exact ⟨j, g, hx, fun j' g' r' msg' hy => answer_unique hrun hpos hx hy⟩
  · intro t rid hw
    have hheld := hkept.waiting t rid hw
    refine ⟨hheld.undiscarded, fun j g r msg hx => ?_⟩
    rcases hheld.reply with ⟨hready, j', g', hy⟩ | ⟨-, hno⟩
    · obtain ⟨-, -, hr, hmsg⟩ := answer_unique hrun hheld.positive hx hy
      exact ⟨hready, hr, hmsg⟩
    · exact absurd ⟨j, g, hx⟩ (hno r msg)

/-- Two calls in turn, and between them the reply to a `request_async` that nobody waits for. -/
def turnsRun : List Act :=
  [.requestSync 0 0 0 [] .granted, .requestAsync 2 0 0 [], .thread 0, .thread 0, .thread 0, .thread 0,
    .asyncPost 2 .granted, .wakeup 0 .granted, .fiber 0 (.reply .success [1]), .fiber 0 .ret,
    .wakeup 0 .granted, .requestSync 1 0 0 [] .granted, .thread 0, .thread 0, .thread 0, .thread 0, .thread 0,
    .fiber 0 (.reply .error [2]), .fiber 0 .ret, .thread 0, .fiber 0 (.reply .success [3]), .fiber 0 .ret]

theorem turnsRun_correct : ∃ s, Reaches InTurn [⟨1, false⟩] s ∧
    (.returned 0 1 .success [1] ∈ s.ctx.extTrace ∧ .discarded 2 .error [2] ∈ s.ctx.extTrace) ∧
    ((s.threads 1).point = .waiting 3 0 0 ∧ s.ctx.extMsg = [3]) ∧ SyncCorrect s := by
  obtain ⟨s, hrun, hs⟩ : ∃ s, Reaches InTurn [⟨1, false⟩] s ∧
      decide ((.returned 0 1 .success [1] ∈ s.ctx.extTrace ∧
        .discarded 2 .error [2] ∈ s.ctx.extTrace) ∧
        (s.threads 1).point = .waiting 3 0 0 ∧ s.ctx.extMsg = [3]) = true :=
    Lts.exists_run turnsRun (by decide +kernel)
  obtain ⟨hpast, hwaits⟩ := of_decide_eq_true hs
  exact ⟨s, hrun, hpast, hwaits, sync_correct hrun⟩

/-- The second call arms the mailbox while the first still waits. -/
def overlapRun : List Act :=
  [.requestSync 0 0 0 [] .granted, .requestSync 1 0 0 [] .granted, .thread 0, .thread 0, .thread 0, .thread 0,
    .fiber 0 (.reply .success [1]), .fiber 0 .ret, .thread 0, .fiber 0 (.reply .success [2]), .fiber 0 .ret,
    .wakeup 0 .granted]

/-- The reply to the first call is discarded, and the first caller returns with the reply to the second. -/
theorem reply_swapped : ∃ s, Reaches (EveryModule RepliesOnce) [⟨1, false⟩] s ∧
    (.discarded 1 .success [1] ∈ s.ctx.extTrace ∧ .returned 0 1 .success [2] ∈ s.ctx.extTrace) ∧
    ¬SyncCorrect s := by
  obtain ⟨s, hrun, hs⟩ : ∃ s, Reaches (EveryModule RepliesOnce) [⟨1, false⟩] s ∧
      decide ((.discarded 1 .success [1] ∈ s.ctx.extTrace ∧
        .returned 0 1 .success [2] ∈ s.ctx.extTrace) ∧
        .replied 0 .external 1 .success [1] ∈ (s.module 0).trace) = true :=
    Lts.exists_run overlapRun (by decide +kernel)
  obtain ⟨hpast, hreply⟩ := of_decide_eq_true hs
  refine ⟨s, hrun, hpast, fun h => ?_⟩
  obtain ⟨j, g, -, hunique⟩ := h.returned 0 1 .success [2] hpast.2
  obtain ⟨-, -, -, hmsg⟩ := hunique 0 0 .success [1] hreply
  cases hmsg

end Coseq
