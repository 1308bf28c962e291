import Coseq.EventQueue
import Coseq.HeapBalance

/-! The heap of a whole instance. Whatever the sequences call, whatever fails and in whatever order the threads run,
no block is freed that is not owned, and what has been allocated and neither freed nor lost is what is owned. -/

namespace Coseq

open HeapLog (one Triple)

/-- What the context owns: its `n` modules and `ext_msg`. -/
def Ctx.blocks (n : Nat) (c : Ctx) : Block → Nat :=
  ((List.range n).map fun j => (c.modules j).blocks j).sum + msgBlock .extMsg c.extMsg

/-- The event in the hand of the thread of module `i`. -/
def heldBlocks (i : Nat) (held : Option Ev) : Block → Nat := held.elim 0 (Ev.blocks (.module i))

def handBlocks (n : Nat) (hand : Nat → Option Ev) : Block → Nat :=
  ((List.range n).map fun i => heldBlocks i (hand i)).sum

/-- The buffers of the external threads. -/
def bufBlocks (threads : Nat → ExtThread) : Block → Nat
  | .syncBuf t => if (threads t).buf = [] then 0 else 1
  | _ => 0

/-- What the `n` modules of an instance, their threads and the external threads own. -/
def Sys.owned (n : Nat) (s : Sys) (hand : Nat → Option Ev) : Block → Nat :=
  s.ctx.blocks n + handBlocks n hand + bufBlocks s.threads

section Parts

variable {c : Ctx} {i n t : Nat} {m : Module} {ops : List HeapOp} {extra : Block → Nat} {ok : Alloc}
  {hand : Nat → Option Ev} {threads : Nat → ExtThread}

theorem Ctx.setModule_heap (hi : i < n) (h : Triple ((c.modules i).blocks i) ops (m.blocks i + extra)) :
    Triple (c.blocks n) ops ((c.setModule i m).blocks n + extra) := by
  have hmodules := Triple.update (fun j m => Module.blocks j m) h List.nodup_range (List.mem_range.mpr hi)
  have hframed := hmodules.frame_right (msgBlock .extMsg c.extMsg)
  rwa [add_right_comm] at hframed

theorem enqueue_heap (m : Module) (e : Ev) :
    Triple (m.blocks i) (makeEvHeap (.module i) m.posted (some e)) ((m.enqueue e).blocks i) := by
  have hqueue : (m.enqueue e).blocks i = m.blocks i + { e with serial := m.posted }.blocks (.module i) := by
    simp only [Module.blocks, Module.enqueue, eventBlocks_queue, eventBlocks_append, eventBlocks_cons,
      show eventBlocks i [] = 0 from rfl]
    abel
  rw [hqueue]
  exact (makeEv_heap _ _ e).gains _

theorem Ctx.post_heap (c : Ctx) (hn : c.nrModule ≤ n) (d : Nat) (e : Option Ev) :
    Triple (c.blocks n) (c.postHeap d e) ((c.post d e).blocks n) := by
  cases e with
  | none => exact .nil
  | some e =>
      unfold postHeap post
      by_cases hd : d ≥ c.nrModule
      · dsimp only
        rw [if_pos hd, if_pos hd]
        have hgain := (makeEv_freed (.module d) (c.modules d).posted e).gains (c.blocks n)
        rwa [add_zero] at hgain
      · dsimp only
        rw [if_neg hd, if_neg hd, List.append_nil]
        have hpost : Triple ((c.modules d).blocks d) (makeEvHeap (.module d) (c.modules d).posted (some e))
            (((c.modules d).enqueue e).blocks d + 0) := enqueue_heap _ e
        exact Ctx.setModule_heap (Nat.lt_of_lt_of_le (Nat.lt_of_not_le hd) hn) hpost

theorem Ctx.extDeliver_heap (c : Ctx) (r : Nat) (result : Result) (msg : Bytes) (ok : Alloc) :
    Triple (c.blocks n) (c.extDeliverHeap r msg ok) ((c.extDeliver r result msg ok).blocks n) := by
  unfold extDeliverHeap extDeliver
  split
  · have hmsg : Triple (msgBlock .extMsg c.extMsg)
        (freeMsg .extMsg c.extMsg ++ allocMsg .extMsg (if ok .extMsg then msg else []))
        (msgBlock .extMsg (if ok .extMsg then msg else [])) := freeMsg_heap.append allocMsg_heap
    exact hmsg.frame _
  · exact .nil

theorem Ctx.effect_heap (c : Ctx) (hn : c.nrModule ≤ n) (ok : Alloc) (eff : Effect) :
    Triple (c.blocks n) (c.effectHeap ok eff) ((c.effect ok eff).blocks n) := by
  cases eff with
  | none => exact .nil
  | post d e => exact c.post_heap hn d e
  | extDeliver r result msg => exact c.extDeliver_heap r result msg ok
  | nextClientId id => exact .nil

/-! ### Hands and buffers -/

/-- A hand that was empty takes an event, or gives one up. -/
theorem hand_update (hand : Nat → Option Ev) (hi : i < n) (hempty : hand i = none) (held : Option Ev) :
    handBlocks n (Function.update hand i held) = handBlocks n hand + heldBlocks i held := by
  obtain ⟨others, hsum⟩ := HeapLog.Triple.owners heldBlocks hand List.nodup_range (List.mem_range.mpr hi)
  have hself : handBlocks n hand = others := by
    have hempty := hsum (hand i)
    rw [Function.update_eq_self] at hempty
    rw [handBlocks, hempty, ‹hand i = none›]
    rfl
  rw [handBlocks, hsum, hself]

theorem hand_taken (hand : Nat → Option Ev) (hi : i < n) :
    handBlocks n hand = handBlocks n (Function.update hand i none) + heldBlocks i (hand i) := by
  have hback := hand_update (Function.update hand i none) hi (Function.update_self _ _ _) (hand i)
  rwa [Function.update_idem, Function.update_eq_self] at hback

theorem buf_update (threads : Nat → ExtThread) (t : Nat) (th : ExtThread) :
    bufBlocks (Function.update threads t th) =
      bufBlocks (Function.update threads t ExtThread.fresh) + msgBlock (.syncBuf t) th.buf := by
  have hmsg : ∀ b : Block, b ≠ .syncBuf t → msgBlock (.syncBuf t) th.buf b = 0 := fun b hne => by
    unfold msgBlock
    split
    · rfl
    · exact HeapLog.one_of_ne hne
  funext b
  rw [Pi.add_apply]
  cases b with
  | syncBuf u =>
      by_cases hu : u = t
      · subst hu
        simp only [bufBlocks, Function.update_self, ExtThread.fresh, if_true, Nat.zero_add]
        unfold msgBlock
        split
        · rfl
        · exact HeapLog.one_self.symm
      · have hne : Block.syncBuf u ≠ .syncBuf t := fun heq => hu (Block.syncBuf.inj heq)
        rw [hmsg _ hne, Nat.add_zero, bufBlocks, bufBlocks, Function.update_of_ne hu, Function.update_of_ne hu]
  | _ => rw [hmsg _ (by simp)]; rfl

theorem buf_same {th : ExtThread} (h : th.buf = (threads t).buf) :
    bufBlocks (Function.update threads t th) = bufBlocks threads := by
  have hold := buf_update threads t (threads t)
  rw [Function.update_eq_self] at hold
  rw [hold, buf_update threads t th, h]

end Parts

/-! ### Steps and runs -/

/-- A thread holds an event only while the fiber runs that it has resumed for it. -/
def HandsBusy (s : Sys) (hand : Nat → Option Ev) : Prop := ∀ i, (s.module i).current = none → hand i = none

section Steps

variable {s s' : Sys} {g : HeapNotes} {n i : Nat} {ok : Alloc} {a : Act}

/-- What a step notes comes after what has been noted, and is sound. -/
def Sound (n : Nat) (s s' : Sys) (g g' : HeapNotes) : Prop :=
  ∃ ops, g'.log = g.log ++ ops ∧ Triple (s.owned n g.hand) ops (s'.owned n g'.hand)

theorem sound_ctx {c : Ctx} {ops : List HeapOp} {extra : Block → Nat}
    (h : Triple (s.ctx.blocks n) ops (c.blocks n + extra)) :
    Triple (s.owned n g.hand) ops ({ s with ctx := c }.owned n g.hand + extra) := by
  have hframed := (h.frame_right (handBlocks n g.hand)).frame_right (bufBlocks s.threads)
  have hpost : { s with ctx := c }.owned n g.hand + extra =
      c.blocks n + extra + handBlocks n g.hand + bufBlocks s.threads := by
    rw [Sys.owned]
    abel
  rw [hpost]
  exact hframed

/-- An effect does to the heap what it did before the call that it follows. -/
theorem effectHeap_kept {m' : Module} {eff : Effect} (hposted : m'.posted = (s.module i).posted) :
    (s.ctx.setModule i m').effectHeap ok eff = s.ctx.effectHeap ok eff := by
  have hall : ∀ d, ((s.ctx.setModule i m').modules d).posted = (s.ctx.modules d).posted := fun d => by
    by_cases hd : d = i
    · rw [hd, Ctx.setModule_self]
      exact hposted
    · exact congrArg Module.posted (Function.update_of_ne hd _ _)
  cases eff with
  | post d e =>
      change (s.ctx.setModule i m').postHeap d e = s.ctx.postHeap d e
      unfold Ctx.postHeap
      rw [hall d]
      rfl
  | _ => rfl

theorem sched_sound (hmodes : Modes (s.module i)) (hbusy : HandsBusy s g.hand)
    (h : s.stepStarted n i (.sched s.clock ok) ok = some s') :
    Sound n s s' g (g.sched (s.module i) (s'.module i) i ok) ∧
      HandsBusy s' (g.sched (s.module i) (s'.module i) i ok).hand := by
  obtain ⟨hi, m', eff, hstep, rfl⟩ := Sys.stepStarted_eq h
  obtain ⟨hfree, heq⟩ := Option.ite_none_left_eq_some.mp hstep
  obtain ⟨rfl, rfl⟩ := Prod.mk.inj (Option.some.inj heq)
  have hcur : (s.module i).current = none := by
    cases hcur : (s.module i).current with
    | none => rfl
    | some a => exact absurd (.inl (by rw [hcur]; rfl)) hfree
  have hempty : g.hand i = none := hbusy i hcur
  let m' := Coseq.sched (s.module i) s.clock ok
  have hself : (s.after i m' .none ok).module i = m' := s.ctx.setModule_self i m'
  have hother : ∀ j, j ≠ i → (s.after i m' .none ok).module j = s.module j := fun j hj => Function.update_of_ne hj _ _
  have hkept : HandsBusy (s.after i m' .none ok) g.hand := fun j hj => by
    by_cases hji : j = i
    · rw [hji]
      exact hempty
    · exact hbusy j (by rw [← hother j hji]; exact hj)
  have hops : Triple (s.owned n g.hand) (schedHeap i (s.module i) ok)
      ((s.after i m' .none ok).owned n g.hand + (s.module i).spentBlocks i) :=
    sound_ctx (c := s.ctx.setModule i m') (Ctx.setModule_heap hi (sched_heap hmodes))
  change Sound n s (s.after i m' .none ok) g (g.sched (s.module i) ((s.after i m' .none ok).module i) i ok) ∧
    HandsBusy (s.after i m' .none ok) (g.sched (s.module i) ((s.after i m' .none ok).module i) i ok).hand
  rw [hself]
  unfold HeapNotes.sched
  dsimp only
  cases hspent : (s.module i).spent with
  | none =>
      have hnothing : (s.module i).spentBlocks i = 0 := by rw [Module.spentBlocks, hspent]
      rw [hnothing, add_zero] at hops
      exact ⟨⟨_, rfl, hops⟩, hkept⟩
  | some e =>
      have hblocks : (s.module i).spentBlocks i = e.blocks (.module i) := by rw [Module.spentBlocks, hspent]
      rw [hblocks] at hops
      dsimp only
      by_cases hrun : m'.current = none
      · rw [if_pos hrun]
        exact ⟨⟨_, rfl, hops.append (freeEv_heap _ e).gives⟩, hkept⟩
      · rw [if_neg hrun]
        refine ⟨⟨_, rfl, ?_⟩, fun j hj => ?_⟩
        · have hhand := hand_update g.hand hi hempty (some e)
          have hpost : (s.after i m' .none ok).owned n (Function.update g.hand i (some e)) =
              (s.after i m' .none ok).owned n g.hand + e.blocks (.module i) := by
            change (s.ctx.setModule i m').blocks n + handBlocks n _ + bufBlocks s.threads =
              (s.ctx.setModule i m').blocks n + handBlocks n g.hand + bufBlocks s.threads + _
            rw [hhand, heldBlocks, Option.elim_some]
            abel
          rw [hpost]
          exact hops
        · by_cases hji : j = i
          · rw [hji, hself] at hj
            exact absurd hj hrun
          · exact (Function.update_of_ne hji _ _).trans (hkept j hj)

theorem call_sound {c : Call} (hn : s.ctx.nrModule ≤ n) (hmodes : Modes (s.module i)) (hbusy : HandsBusy s g.hand)
    (h : s.stepStarted n i (.call c s.clock s.ctx.nextClientId ok) ok = some s') :
    Sound n s s' g (HeapNotes.note s (.call i c ok) s' g) ∧
      HandsBusy s' (HeapNotes.note s (.call i c ok) s' g).hand := by
  obtain ⟨hi, m', eff, hstep, rfl⟩ := Sys.stepStarted_eq h
  obtain ⟨a, hcur, hcall⟩ := Option.bind_eq_some_iff.mp hstep
  have hmem : a ∈ (s.module i).fibers := (hmodes.running a hcur).1
  have hfield : ∀ j, ((s.after i m' eff ok).module j).current = (Function.update s.module i m' j).current := fun j =>
    Sys.after_field (F := Module.current) (fun _ _ => rfl) j
  have hself : ((s.after i m' eff ok).module i).current = m'.current := by rw [hfield, Function.update_self]
  have hother : ∀ j, j ≠ i → ((s.after i m' eff ok).module j).current = (s.module j).current := fun j hj => by
    rw [hfield, Function.update_of_ne hj]
  let ops := callHeap i (s.module i) a c s.ctx.nextClientId ok ++ s.ctx.effectHeap ok eff
  have hops : Triple (s.owned n g.hand) ops ((s.after i m' eff ok).owned n g.hand) := by
    have hmodule : Triple ((s.module i).blocks i) (callHeap i (s.module i) a c s.ctx.nextClientId ok)
        (m'.blocks i + 0) := call_heap hmodes.nodup hmem hcall
    have hposted : m'.posted = (s.module i).posted := (Module.step_move hstep).accepted.2
    have heffect := (s.ctx.setModule i m').effect_heap hn ok eff
    rw [effectHeap_kept hposted] at heffect
    have hctx : Triple (s.ctx.blocks n) ops (((s.ctx.setModule i m').effect ok eff).blocks n + 0) :=
      (Ctx.setModule_heap hi hmodule).append heffect
    exact sound_ctx (c := (s.ctx.setModule i m').effect ok eff) hctx
  have hnote : HeapNotes.note s (.call i c ok) (s.after i m' eff ok) g =
      g.call (s.module i) ((s.after i m' eff ok).module i) i ops := by
    rw [HeapNotes.note, hcur]
    dsimp only
    rw [hcall]
  rw [hnote]
  unfold HeapNotes.call
  rw [hself]
  by_cases hback : (s.module i).current ≠ none ∧ m'.current = none
  · rw [if_pos hback]
    refine ⟨⟨_, rfl, hops.append ?_⟩, fun j hj => ?_⟩
    · have hhand := hand_taken g.hand hi
      have hpre : (s.after i m' eff ok).owned n g.hand =
          (s.after i m' eff ok).owned n (Function.update g.hand i none) + heldBlocks i (g.hand i) := by
        rw [Sys.owned, Sys.owned, hhand]
        abel
      rw [hpre]
      refine Triple.gives ?_
      unfold HeapNotes.freeHand heldBlocks
      cases g.hand i with
      | none => exact .nil
      | some e => exact freeEv_heap _ e
    · by_cases hji : j = i
      · rw [hji]
        exact Function.update_self _ _ _
      · exact (Function.update_of_ne hji _ _).trans (hbusy j (by rw [← hother j hji]; exact hj))
  · rw [if_neg hback]
    refine ⟨⟨_, rfl, hops⟩, fun j hj => ?_⟩
    by_cases hji : j = i
    · subst hji
      exact absurd ⟨by rw [hcur]; exact Option.some_ne_none a, hself.symm.trans hj⟩ hback
    · exact hbusy j (by rw [← hother j hji]; exact hj)

/-- The second part of `_request_sync` frees `ext_msg` once its copy has been made. -/
theorem syncReturn_heap {t rid d seq : Nat} (c : Ctx) (th : ExtThread) :
    Triple (msgBlock .extMsg c.extMsg + msgBlock (.syncBuf t) th.buf) (syncReturnHeap c th t ok)
      (msgBlock (.syncBuf t) (syncReturn c th t rid d seq ok).2.buf) := by
  have hfree : Triple (msgBlock .extMsg c.extMsg) (freeMsg .extMsg c.extMsg) 0 := freeMsg_heap
  unfold syncReturnHeap
  split
  · rename_i hgrow
    have hnew : (syncReturn c th t rid d seq ok).2.buf ≠ [] := by
      have hlen : 0 < (syncReturn c th t rid d seq ok).2.buf.length := by
        simp [syncReturn, hgrow.2]
        omega
      exact List.ne_nil_of_length_pos hlen
    have hmade : Triple (msgBlock (.syncBuf t) th.buf) (freeMsg (.syncBuf t) th.buf ++ [.alloc (.syncBuf t)])
        (msgBlock (.syncBuf t) (syncReturn c th t rid d seq ok).2.buf) := by
      rw [show msgBlock (.syncBuf t) (syncReturn c th t rid d seq ok).2.buf = one (.syncBuf t) from if_neg hnew]
      exact freeMsg_heap.append .alloc
    have hboth := (hmade.frame _).append (hfree.frame_right _)
    rwa [zero_add] at hboth
  · rename_i hkeep
    have hlen : (syncReturn c th t rid d seq ok).2.buf.length = th.buf.length := by
      simp only [syncReturn, List.length_append, List.length_take, List.length_drop]
      split
      · omega
      · rename_i hno
        have hle : c.extMsg.length ≤ th.buf.length := by
          by_contra hlt
          cases hb : ok .syncBuf with
          | true => exact hkeep ⟨by omega, hb⟩
          | false => exact hno ⟨by omega, hb⟩
        omega
    have hsame : msgBlock (.syncBuf t) (syncReturn c th t rid d seq ok).2.buf = msgBlock (.syncBuf t) th.buf := by
      refine if_congr ?_ rfl rfl
      rw [← List.length_eq_zero_iff, hlen, List.length_eq_zero_iff]
    have hboth := hfree.frame_right (msgBlock (.syncBuf t) th.buf)
    rw [zero_add] at hboth
    rw [hsame]
    exact hboth

/-- An external thread wakes up to a reply. -/
theorem wakeup_sound {t rid d seq : Nat} :
    Triple (s.owned n g.hand) (syncReturnHeap s.ctx (s.threads t) t ok)
      (({ s with ctx := (syncReturn s.ctx (s.threads t) t rid d seq ok).1 }.setThread t
        (syncReturn s.ctx (s.threads t) t rid d seq ok).2).owned n g.hand) := by
  let r := syncReturn s.ctx (s.threads t) t rid d seq ok
  let others := bufBlocks (Function.update s.threads t ExtThread.fresh)
  let modules := ((List.range n).map fun j => (s.ctx.modules j).blocks j).sum
  have hold := buf_update s.threads t (s.threads t)
  rw [Function.update_eq_self] at hold
  have hpre : s.owned n g.hand = modules + handBlocks n g.hand + others +
      (msgBlock .extMsg s.ctx.extMsg + msgBlock (.syncBuf t) (s.threads t).buf) := by
    rw [Sys.owned, hold, Ctx.blocks]
    abel
  have hpost : ({ s with ctx := r.1 }.setThread t r.2).owned n g.hand =
      modules + handBlocks n g.hand + others + msgBlock (.syncBuf t) r.2.buf := by
    change modules + msgBlock .extMsg [] + handBlocks n g.hand +
      bufBlocks (Function.update s.threads t r.2) = _
    rw [buf_update s.threads t r.2, show msgBlock .extMsg [] = 0 from if_pos rfl]
    abel
  rw [hpre, hpost]
  exact (syncReturn_heap s.ctx (s.threads t)).frame _

/-- An external thread posts, and its buffer is not touched. -/
theorem post_sound {c : Ctx} {t : Nat} {th : ExtThread} {d : Nat} {e : Option Ev} (hn : c.nrModule ≤ n)
    (hmodules : c.modules = s.ctx.modules) (hnr : c.nrModule = s.ctx.nrModule) (hmsg : c.extMsg = s.ctx.extMsg)
    (hbuf : th.buf = (s.threads t).buf) :
    Triple (s.owned n g.hand) (s.ctx.postHeap d e) (({ s with ctx := c.post d e }.setThread t th).owned n g.hand) := by
  have hops : s.ctx.postHeap d e = c.postHeap d e := by
    unfold Ctx.postHeap
    rw [hmodules, hnr]
  have hblocks : s.ctx.blocks n = c.blocks n := by rw [Ctx.blocks, Ctx.blocks, hmodules, hmsg]
  have hctx : Triple (s.ctx.blocks n) (s.ctx.postHeap d e) ((c.post d e).blocks n + 0) := by
    rw [hops, hblocks]
    exact c.post_heap hn d e
  have hsys := sound_ctx (s := s) (g := g) hctx
  have hthread : ({ s with ctx := c.post d e }.setThread t th).owned n g.hand =
      { s with ctx := c.post d e }.owned n g.hand := by
    change (c.post d e).blocks n + _ + bufBlocks (Function.update s.threads t th) = _
    rw [buf_same hbuf]
    rfl
  rw [hthread]
  exact hsys

/-- A post makes no fiber stop. -/
theorem posted_busy {c : Ctx} {d : Nat} {e : Option Ev} (hbusy : HandsBusy s g.hand)
    (hs' : s'.module = (c.post d e).modules) (hmodules : c.modules = s.ctx.modules) : HandsBusy s' g.hand := by
  intro j hj
  refine hbusy j ?_
  rw [hs', (c.post_delivered d e).1, hmodules] at hj
  rcases delivered_apply c.nrModule s.ctx.modules (.post d e) j with heq | ⟨e', -, -, heq⟩ <;> rw [heq] at hj <;>
    exact hj

theorem sound_nothing (h : s'.owned n g.hand = s.owned n g.hand) : Sound n s s' g g := by
  refine ⟨[], (List.append_nil _).symm, ?_⟩
  rw [h]
  exact .nil

theorem stop_sound (hbusy : HandsBusy s g.hand) (h : s.stepStarted n i .stop (fun _ => true) = some s') :
    Sound n s s' g g ∧ HandsBusy s' g.hand := by
  obtain ⟨hi, m', eff, hstop, rfl⟩ := Sys.stepStarted_eq h
  obtain ⟨rfl, rfl⟩ := Prod.mk.inj (Option.some.inj hstop)
  have hctx : (s.ctx.setModule i { s.module i with stop := true }).blocks n = s.ctx.blocks n := by
    obtain ⟨others, hsum⟩ := HeapLog.Triple.owners (fun j m => Module.blocks j m) s.ctx.modules List.nodup_range
      (List.mem_range.mpr hi)
    have hself := hsum (s.ctx.modules i)
    rw [Function.update_eq_self] at hself
    rw [Ctx.blocks, Ctx.blocks, hself]
    exact congrArg (· + _) (hsum _)
  refine ⟨sound_nothing (congrArg (· + _ + _) hctx), fun j hj => hbusy j ?_⟩
  have hfield : ((s.after i { s.module i with stop := true } .none fun _ => true).module j).current =
      (Function.update s.module i { s.module i with stop := true } j).current :=
    Sys.after_field (F := Module.current) (fun _ _ => rfl) j
  rw [hfield] at hj
  by_cases hji : j = i
  · subst hji
    rwa [Function.update_self] at hj
  · rwa [Function.update_of_ne hji] at hj

/-- A step of the clock or of an external thread. -/
theorem outer_sound {a : Act} (hn : s.ctx.nrModule ≤ n) (hbusy : HandsBusy s g.hand) (h : s.step a = some s')
    (houter : ∀ j, s.localAct j a = none) :
    Sound n s s' g (HeapNotes.note s a s' g) ∧ HandsBusy s' (HeapNotes.note s a s' g).hand := by
  have hinner : ∀ {i : Nat} {act : ModAct}, s.localAct i a ≠ some act := fun {i act} heq =>
    Option.some_ne_none act (heq.symm.trans (houter i))
  cases Sys.step_sysMove h with
  | tick hs' =>
      subst hs'
      exact ⟨sound_nothing rfl, hbusy⟩
  | @sched i ok => exact absurd (if_pos rfl) hinner
  | @call i c ok => exact absurd (if_pos rfl) hinner
  | @stop i => exact absurd (if_pos rfl) hinner
  | @requestSync t d seq msg ok hidle hs' =>
      subst hs'
      exact ⟨⟨_, rfl, post_sound hn rfl rfl rfl rfl⟩, posted_busy hbusy rfl rfl⟩
  | @wakeup t rid d seq ok hwaiting hready hs' =>
      have hnote : HeapNotes.note s (.wakeup t ok) s' g =
          { g with log := g.log ++ syncReturnHeap s.ctx (s.threads t) t ok } := by
        rw [HeapNotes.note, hwaiting]
        exact if_pos hready
      subst hs'
      rw [hnote]
      exact ⟨⟨_, rfl, wakeup_sound⟩, hbusy⟩
  | @sleep t rid d seq ok hwaiting hready hs' =>
      have hnote : HeapNotes.note s (.wakeup t ok) s' g = g := by
        rw [HeapNotes.note, hwaiting]
        exact if_neg hready
      subst hs'
      rw [hnote]
      exact ⟨sound_nothing rfl, hbusy⟩
  | @requestAsync t d seq msg hidle hs' =>
      subst hs'
      have hbuf : bufBlocks (Function.update s.threads t { s.threads t with point := .posting s.ctx.rid d seq msg }) =
          bufBlocks s.threads := buf_same rfl
      exact ⟨sound_nothing (congrArg (s.ctx.blocks n + handBlocks n g.hand + ·) hbuf), hbusy⟩
  | @asyncPost t rid d seq msg ok hposting hs' =>
      have hnote : HeapNotes.note s (.asyncPost t ok) s' g =
          { g with log := g.log ++ s.ctx.postHeap d (makeEv .start seq rid .external .ignore msg ok) } := by
        rw [HeapNotes.note, hposting]
      subst hs'
      rw [hnote]
      exact ⟨⟨_, rfl, post_sound hn rfl rfl rfl rfl⟩, posted_busy hbusy rfl rfl⟩

/-- Every step does only what it may with what is owned. -/
theorem step_sound {a : LifeAct} (hn : s.ctx.nrModule ≤ n) (hmodes : ∀ j, Modes (s.module j))
    (hbusy : HandsBusy s g.hand) (h : s.stepLife n a = some s') :
    Sound n s s' g (HeapNotes.noteLife s a s' g) ∧ HandsBusy s' (HeapNotes.noteLife s a s' g).hand := by
  cases a with
  | teardown =>
      obtain rfl := Option.some.inj h
      exact ⟨sound_nothing rfl, hbusy⟩
  | act a =>
      cases a with
      | sched i ok => exact sched_sound (hmodes i) hbusy h
      | call i c ok => exact call_sound hn (hmodes i) hbusy h
      | stop i => exact stop_sound hbusy h
      | tick now => exact outer_sound (a := .tick now) hn hbusy h fun _ => rfl
      | requestSync t d seq msg ok => exact outer_sound (a := .requestSync t d seq msg ok) hn hbusy h fun _ => rfl
      | wakeup t ok => exact outer_sound (a := .wakeup t ok) hn hbusy h fun _ => rfl
      | requestAsync t d seq msg => exact outer_sound (a := .requestAsync t d seq msg) hn hbusy h fun _ => rfl
      | asyncPost t ok => exact outer_sound (a := .asyncPost t ok) hn hbusy h fun _ => rfl

end Steps

/-- Nothing is owned after `setup`. -/
theorem boot_owned (tbl : List Reg) : (boot tbl).owned tbl.length HeapNotes.start.hand = 0 := by
  have hmodules : ((List.range tbl.length).map fun j => ((boot tbl).ctx.modules j).blocks j).sum = 0 :=
    List.sum_eq_zero fun x hx => by
      obtain ⟨j, -, rfl⟩ := List.mem_map.mp hx
      rfl
  have hhands : handBlocks tbl.length HeapNotes.start.hand = 0 := List.sum_eq_zero fun x hx => by
    obtain ⟨j, -, rfl⟩ := List.mem_map.mp hx
    rfl
  have hbufs : bufBlocks (boot tbl).threads = 0 := by
    funext b
    cases b <;> rfl
  change ((List.range tbl.length).map fun j => ((boot tbl).ctx.modules j).blocks j).sum + msgBlock .extMsg [] +
    handBlocks tbl.length HeapNotes.start.hand + bufBlocks (boot tbl).threads = 0
  rw [hmodules, hhands, hbufs]
  rfl

/-- The number of modules that posts reach is the table's or, after `_teardown`, none. -/
theorem stepLife_nrModule {n : Nat} {s s' : Sys} {a : LifeAct} (h : s.stepLife n a = some s') :
    s'.ctx.nrModule ≤ s.ctx.nrModule := by
  have hstarted : ∀ {i : Nat} {act : ModAct} {ok : Alloc}, s.stepStarted n i act ok = some s' →
      s'.ctx.nrModule ≤ s.ctx.nrModule := by
    intro i act ok h
    obtain ⟨-, m', eff, -, rfl⟩ := Sys.stepStarted_eq h
    exact Nat.le_of_eq (Ctx.effect_delivered _ ok eff).2
  have houter : ∀ {a : Act}, s.step a = some s' → s'.ctx.nrModule ≤ s.ctx.nrModule := fun h =>
    Nat.le_of_eq (Sys.step_delta h).2
  cases a with
  | teardown =>
      obtain rfl := Option.some.inj h
      exact Nat.zero_le _
  | act a =>
      cases a with
      | sched i ok => exact hstarted h
      | call i c ok => exact hstarted h
      | stop i => exact hstarted h
      | tick now => exact houter (a := .tick now) h
      | requestSync t d seq msg ok => exact houter (a := .requestSync t d seq msg ok) h
      | wakeup t ok => exact houter (a := .wakeup t ok) h
      | requestAsync t d seq msg => exact houter (a := .requestAsync t d seq msg) h
      | asyncPost t ok => exact houter (a := .asyncPost t ok) h

/-- The operations that have been noted, and what is owned after them. -/
theorem balance {ok : Sys → LifeAct → Prop} {tbl : List Reg} {p : Sys × HeapNotes} (hrun : HeapRun ok tbl p) :
    Triple 0 p.2.log (p.1.owned tbl.length p.2.hand) ∧ HandsBusy p.1 p.2.hand := by
  have hall : (Triple 0 p.2.log (p.1.owned tbl.length p.2.hand) ∧ HandsBusy p.1 p.2.hand) ∧
      p.1.ctx.nrModule ≤ tbl.length := by
    refine hrun.invariant (P := fun p => (Triple 0 p.2.log (p.1.owned tbl.length p.2.hand) ∧ HandsBusy p.1 p.2.hand) ∧
      p.1.ctx.nrModule ≤ tbl.length) ⟨⟨?_, fun _ _ => rfl⟩, Nat.le_refl _⟩ ?_
    · change Triple 0 [] ((boot tbl).owned tbl.length HeapNotes.start.hand)
      rw [boot_owned]
      exact .nil
    · intro p a p' hr ⟨⟨hlog, hbusy⟩, hn⟩ _ hstep
      obtain ⟨hs', hg'⟩ := Lts.watch_eq hstep
      obtain ⟨⟨ops, hops, htriple⟩, hbusy'⟩ := step_sound hn (life_modes hr.unwatch) hbusy hs'
      rw [hg', hops]
      exact ⟨⟨hlog.append htriple, hbusy'⟩, (stepLife_nrModule hs').trans hn⟩
  exact hall.1

/-- A sequence returns without the reply that has been queued for it, and `reap_done` frees its fiber. -/
def forgottenRun : List LifeAct :=
  [.act (.requestAsync 0 0 0 [7]), .act (.asyncPost 0 .granted), .act (.thread 0), .act (.thread 0), .act (.thread 0),
    .act (.thread 0), .act (.fiber 0 (.requestAsync 1 0 [8])), .act (.fiber 0 (.waitTimeout 5)), .act (.thread 1),
    .act (.thread 1), .act (.thread 1), .act (.thread 1), .act (.fiber 1 (.reply .success [9])), .act (.fiber 1 .ret),
    .act (.thread 0), .act (.thread 0), .act (.thread 0), .act (.thread 0), .act (.thread 0), .act (.thread 0),
    .act (.tick ⟨1, 0⟩), .act (.thread 0), .act (.thread 0), .act (.thread 0), .act (.thread 0), .act (.thread 0),
    .act (.fiber 0 .ret), .act (.thread 0), .act (.thread 0)]

end Coseq
