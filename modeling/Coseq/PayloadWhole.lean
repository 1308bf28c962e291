import Coseq.PayloadFlow

/-! Runs in which every allocation succeeds. No message is cut on its way, so that a receiver reads all that the
sender has passed. -/

namespace Coseq

open MemoryBlock

/-- Every allocation of the step succeeds. -/
def Act.Granted : Act → Prop
  | .sched _ ok | .call _ _ ok | .requestSync _ _ _ _ ok | .wakeup _ ok | .asyncPost _ ok => ok.Succeeds
  | .tick _ | .stop _ | .requestAsync .. => True

instance (a : Act) : Decidable a.Granted :=
  match a with
  | .sched _ ok | .call _ _ ok | .requestSync _ _ _ _ ok | .wakeup _ ok | .asyncPost _ ok =>
      inferInstanceAs (Decidable ok.Succeeds)
  | .tick _ | .stop _ | .requestAsync .. => .isTrue trivial

/-- The messages in the memory of a module are all there. -/
structure ModuleMem.Whole (h : ModuleMem) : Prop where
  event : ∀ n, (h.event n).sent.whole = true
  queued : ∀ a, ∀ c ∈ h.queued a, c.sent.whole = true
  source : ∀ a, (h.source a).sent.whole = true

structure Memory.Whole (mem : Memory) : Prop where
  heap : ∀ j, (mem.heap j).Whole
  mailbox : mem.mailbox.sent.whole = true
  record : ∀ t, (mem.record t).sent.whole = true

/-! ### The copies -/

section Copies

variable {c : MsgCopy} {r r' : Receiver} {x : Sent} {msg : Ptr UInt8} {size fallback : Nat} {granted : Bool}
  {ok : Alloc}

theorem MsgCopy.duplicate_sent (hok : granted = true) (h : duplicate msg size x granted = some c) : c.sent = x := by
  unfold duplicate at h
  rw [if_pos hok] at h
  split at h
  · obtain ⟨p, -, rfl⟩ := Option.map_eq_some_iff.mp h
    rfl
  · obtain rfl := Option.some.inj h
    rfl

namespace Receiver

theorem grow_granted (hok : granted = true) : (r.grow size fallback x granted).sent = x := by
  unfold grow
  rw [if_pos hok]
  split <;> rfl

theorem copy_sent (h : r.copy msg = some r') : r'.sent = r.sent := by
  obtain ⟨p, -, rfl⟩ := Option.map_eq_some_iff.mp h
  rfl

theorem setSrc_sent (hok : ok .srcBuf = true) (h : r.setSrc msg size x ok = some r') : r'.sent = x := by
  unfold setSrc at h
  dsimp only at h
  split at h
  · exact (copy_sent h).trans (grow_granted hok)
  · obtain rfl := Option.some.inj h
    exact grow_granted hok

theorem requestSync_sent (hok : ok .syncBuf = true) (h : r.requestSync c ok = some r') : r'.sent = c.sent := by
  unfold requestSync at h
  dsimp only at h
  split at h
  · exact (copy_sent h).trans (grow_granted hok)
  · obtain rfl := Option.some.inj h
    exact grow_granted hok

end Receiver

end Copies

/-! ### One module -/

namespace ModuleMem

variable {h h' : ModuleMem} {m : Module} {a : FiberRef} {e : Ev} {c : MsgCopy} {ok : Alloc}

theorem Whole.setSource {r : Receiver} (hwhole : h.Whole) (hr : r.sent.whole = true) : (h.setSource a r).Whole where
  event := hwhole.event
  queued := hwhole.queued
  source b := by
    change (Function.update h.source a r b).sent.whole = true
    by_cases hb : b = a
    · subst hb
      rw [Function.update_self]
      exact hr
    · rw [Function.update_of_ne hb]
      exact hwhole.source b

theorem Whole.setQueued {q : List MsgCopy} (hwhole : h.Whole) (hq : ∀ c ∈ q, c.sent.whole = true) :
    (h.setQueued a q).Whole where
  event := hwhole.event
  source := hwhole.source
  queued b := by
    change ∀ c ∈ Function.update h.queued a q b, c.sent.whole = true
    by_cases hb : b = a
    · subst hb
      rw [Function.update_self]
      exact hq
    · rw [Function.update_of_ne hb]
      exact hwhole.queued b

theorem Whole.setEvent (hwhole : h.Whole) (n : Nat) (hc : c.sent.whole = true) :
    { h with event := Function.update h.event n c }.Whole where
  source := hwhole.source
  queued := hwhole.queued
  event k := by
    dsimp only
    by_cases hk : k = n
    · subst hk
      rw [Function.update_self]
      exact hc
    · rw [Function.update_of_ne hk]
      exact hwhole.event k

theorem Whole.setSrc (hwhole : h.Whole) (hc : c.sent.whole = true) (hok : ok.Succeeds)
    (hh : h.setSrc a c ok = some h') : h'.Whole := by
  obtain ⟨r, hr, rfl⟩ := Option.map_eq_some_iff.mp hh
  refine hwhole.setSource ?_
  rw [Receiver.setSrc_sent (hok .srcBuf) hr]
  exact hc

theorem Whole.newFiber (hwhole : h.Whole) (hc : c.sent.whole = true) (hok : ok.Succeeds)
    (hh : h.newFiber m c ok = some h') : h'.Whole := by
  have hblank : (h.calloc m.nextFiber).Whole := (hwhole.setSource rfl).setQueued (by simp)
  unfold ModuleMem.newFiber at hh
  split at hh
  · exact hblank.setSrc hc hok hh
  · obtain rfl := Option.some.inj hh
    exact hwhole

theorem Whole.handleReply (hwhole : h.Whole) (hok : ok.Succeeds) (hh : h.handleReply m e ok = some h') :
    h'.Whole := by
  unfold ModuleMem.handleReply at hh
  dsimp only at hh
  split at hh
  · obtain rfl := Option.some.inj hh
    exact hwhole
  · split at hh
    · obtain rfl := Option.some.inj hh
      exact hwhole
    · split at hh
      · exact hwhole.setSrc (hwhole.event _) hok hh
      · split at hh
        · exact hwhole.setSrc (hwhole.event _) hok hh
        · split at hh
          · obtain ⟨c, hc, rfl⟩ := Option.map_eq_some_iff.mp hh
            have hsent := MsgCopy.duplicate_sent (hok .replyMsg) hc
            refine hwhole.setQueued fun c' hc' => ?_
            rcases List.mem_append.mp hc' with hold | hnew
            · exact hwhole.queued _ c' hold
            · rw [List.mem_singleton.mp hnew, hsent]
              exact hwhole.event _
          · obtain rfl := Option.some.inj hh
            exact hwhole

theorem Whole.timerTurn {now : Timespec} (hwhole : h.Whole) (hok : ok.Succeeds)
    (hh : h.timerTurn m now a ok = some h') : h'.Whole := by
  have hsame : some h = some h' → h'.Whole := fun heq => Option.some.inj heq ▸ hwhole
  unfold ModuleMem.timerTurn at hh
  dsimp only at hh
  split at hh
  · split at hh
    · split at hh
      · exact hwhole.setSrc rfl hok hh
      · exact hsame hh
    · exact hsame hh
  · exact hsame hh

theorem Whole.dispatch (hwhole : h.Whole) (hok : ok.Succeeds) (hh : h.dispatch m e ok = some h') : h'.Whole := by
  have hsame : some h = some h' → h'.Whole := fun heq => Option.some.inj heq ▸ hwhole
  unfold ModuleMem.dispatch at hh
  split at hh
  · split at hh
    · exact hwhole.handleReply hok hh
    · exact hsame hh
  · split at hh
    · split at hh
      · exact hsame hh
      · exact hwhole.newFiber (hwhole.event _) hok hh
    · exact hwhole.handleReply hok hh
    · split at hh
      · exact hwhole.newFiber (hwhole.event _) hok hh
      · exact hsame hh

theorem Whole.sched (hwhole : h.Whole) (hok : ok.Succeeds) (hh : h.sched m ok = some h') : h'.Whole := by
  have hsame : some h = some h' → h'.Whole := fun heq => Option.some.inj heq ▸ hwhole
  unfold ModuleMem.sched at hh
  split at hh
  · exact hwhole.timerTurn hok hh
  · split at hh
    · exact hsame hh
    · exact hwhole.dispatch hok hh
  · exact hsame hh

theorem Whole.waitReply (hwhole : h.Whole) (hok : ok.Succeeds) (hh : h.waitReply a ok = some h') : h'.Whole := by
  unfold ModuleMem.waitReply at hh
  split at hh
  · obtain rfl := Option.some.inj hh
    exact hwhole
  · rename_i c rest hq
    have hqueued := hwhole.queued a
    rw [hq] at hqueued
    have hrest : (h.setQueued a rest).Whole := hwhole.setQueued fun c' hc' => hqueued c' (List.mem_cons_of_mem _ hc')
    exact hrest.setSrc (hqueued c List.mem_cons_self) hok hh

theorem Whole.call {call : Call} (hwhole : h.Whole) (hok : ok.Succeeds) (hh : h.call a ok call = some h') :
    h'.Whole := by
  unfold ModuleMem.call at hh
  split at hh
  · exact hwhole.waitReply hok hh
  · exact hwhole.waitReply hok hh
  · exact hwhole.waitReply hok hh
  · obtain rfl := Option.some.inj hh
    exact hwhole

end ModuleMem

theorem outgoing_whole {m : Module} {a : FiberRef} {c : Call} {o : Origin} {x : Sent}
    (h : outgoing m a c = some (o, x)) : x.whole = true := by
  have hsent : ∀ {o' : Origin} {x' : Sent}, x'.whole = true → some (o', x') = some (o, x) → x.whole = true := by
    rintro o' x' hwhole heq
    obtain ⟨-, rfl⟩ := Prod.mk.inj (Option.some.inj heq)
    exact hwhole
  cases c with
  | request => exact hsent rfl h
  | requestTimeout => exact hsent rfl h
  | requestAsync => exact hsent rfl h
  | send => exact hsent rfl h
  | reply => exact hsent rfl h
  | notifyNext =>
      rw [outgoing] at h
      split at h
      · split at h
        · obtain ⟨-, hpost⟩ := Option.ite_none_right_eq_some.mp h
          exact hsent rfl hpost
        · cases h
      · cases h
  | _ => cases h

/-! ### Runs -/

namespace Memory

variable {mem mem' : Memory} {s : Sys} {x : Sent} {ok : Alloc}

theorem Whole.setHeap {i : Nat} {h : ModuleMem} (hwhole : mem.Whole) (hh : h.Whole) : (mem.setHeap i h).Whole where
  mailbox := hwhole.mailbox
  record := hwhole.record
  heap j := by
    change ModuleMem.Whole (Function.update mem.heap i h j)
    by_cases hj : j = i
    · subst hj
      rw [Function.update_self]
      exact hh
    · rw [Function.update_of_ne hj]
      exact hwhole.heap j

theorem Whole.post {d : Nat} (hwhole : mem.Whole) (hx : x.whole = true) (hok : ok.Succeeds)
    (h : mem.post s d x ok = some mem') : mem'.Whole := by
  unfold Memory.post at h
  rw [if_pos (hok .event)] at h
  obtain ⟨c, hc, rfl⟩ := Option.map_eq_some_iff.mp h
  refine hwhole.setHeap ((hwhole.heap d).setEvent _ ?_)
  rw [MsgCopy.duplicate_sent (hok .eventMsg) hc]
  exact hx

theorem Whole.deliver {out : Option (Origin × Sent)} (hwhole : mem.Whole)
    (hx : ∀ o x, out = some (o, x) → x.whole = true) (hok : ok.Succeeds) (h : mem.deliver s ok out = some mem') :
    mem'.Whole := by
  unfold Memory.deliver at h
  split at h
  · obtain rfl := Option.some.inj h
    exact hwhole
  · exact hwhole.post (hx _ _ rfl) hok h
  · unfold Memory.extDeliver at h
    split at h
    · obtain ⟨c, hc, rfl⟩ := Option.map_eq_some_iff.mp h
      refine ⟨hwhole.heap, ?_, hwhole.record⟩
      rw [MsgCopy.duplicate_sent (hok .extMsg) hc]
      exact hx _ _ rfl
    · obtain rfl := Option.some.inj h
      exact hwhole

theorem Whole.step {a : Act} (hwhole : mem.Whole) (hok : a.Granted) (h : mem.step s a = some mem') : mem'.Whole := by
  have hsame : some mem = some mem' → mem'.Whole := fun heq => Option.some.inj heq ▸ hwhole
  cases a with
  | sched i ok =>
      obtain ⟨h', hh', rfl⟩ := Option.map_eq_some_iff.mp h
      exact hwhole.setHeap ((hwhole.heap i).sched hok hh')
  | call i c ok =>
      unfold Memory.step at h
      dsimp only at h
      split at h
      · exact hsame h
      · obtain ⟨h', hh', h⟩ := Option.bind_eq_some_iff.mp h
        exact (hwhole.setHeap ((hwhole.heap i).call hok hh')).deliver (fun _ _ => outgoing_whole) hok h
  | requestSync t i seq msg ok => exact hwhole.post rfl hok h
  | asyncPost t ok =>
      unfold Memory.step at h
      dsimp only at h
      split at h
      · exact hwhole.post rfl hok h
      · exact hsame h
  | wakeup t ok =>
      unfold Memory.step at h
      dsimp only at h
      split at h
      · split at h
        · obtain ⟨r, hr, rfl⟩ := Option.map_eq_some_iff.mp h
          refine ⟨hwhole.heap, hwhole.mailbox, fun t' => ?_⟩
          dsimp only
          by_cases ht : t' = t
          · subst ht
            rw [Function.update_self, Receiver.requestSync_sent (hok .syncBuf) hr]
            exact hwhole.mailbox
          · rw [Function.update_of_ne ht]
            exact hwhole.record t'
        · exact hsame h
      · exact hsame h
  | _ => exact hsame h

end Memory

/-- In every run with one `request_sync` at a time in which every allocation succeeds, each fiber and each external
thread reads all that the sender of that event has passed. -/
theorem payload_whole {tbl : List Reg} {s : Sys} {g : Option Memory}
    (hrun : CopyingRun (fun s a => AloneInSync s a ∧ a.Granted) tbl (s, g)) :
    ∃ mem, g = some mem ∧
      (∀ j, ∀ a ∈ (s.module j).fibers, ((s.module j).fiber a).message = ((mem.heap j).source a).sent.msg) ∧
      ∀ t, (s.threads t).buf.take (s.threads t).s.size = (mem.record t).sent.msg := by
  have halone : CopyingRun AloneInSync tbl (s, g) := hrun.mono fun _ _ h => h.1
  obtain ⟨mem, hmem, h⟩ := faithful halone
  have hwhole : ∀ mem, g = some mem → mem.Whole := by
    refine hrun.invariant (P := fun p => ∀ mem, p.2 = some mem → mem.Whole) ?_ ?_
    · rintro mem heq
      obtain rfl := Option.some.inj heq
      exact ⟨fun _ => ⟨fun _ => rfl, by rintro a c ⟨⟩, fun _ => rfl⟩, rfl, fun _ => rfl⟩
    · rintro p a p' - ih ⟨-, hok⟩ hstep mem' hmem'
      rw [(Lts.watch_eq hstep).2] at hmem'
      obtain ⟨mem, hmem, hnext⟩ := Option.bind_eq_some_iff.mp hmem'
      exact (ih mem hmem).step hok hnext
  have hall := hwhole mem hmem
  refine ⟨mem, hmem, fun j a ha => ?_, fun t => (h.records t).sent.whole (hall.record t)⟩
  have hborn := (modes halone.unwatch j).born a ha
  exact ((h.modules j).fibers a hborn).source.sent.whole ((hall.heap j).source a)

end Coseq
