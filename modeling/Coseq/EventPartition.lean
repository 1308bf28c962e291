import Coseq.EventQueue
import Coseq.LinkedModule

/-! The nodes of a module are at every moment divided among its inbox, its batch, its deferred queue and
those already handled, and the two queues are well formed. So the module never follows a dangling pointer,
and its linked queues compute what the module with lists computes. -/

namespace Coseq

open TailQueue (Addr Chain Denotes vals)

/-- The inbox, the batch and the deferred queue hold the nodes at the addresses `i`, `b` and `d`, and with
the handled nodes these are the nodes of all accepted events, each once. -/
structure Layout (l : LinkedModule) (i b d : List Addr) : Prop where
  inbox : Denotes l.heap l.inbox i
  deferred : Denotes l.heap l.deferred d
  batch : Chain l.heap l.evs b
  parts : (l.handled ++ d ++ b ++ i).Perm (List.range l.core.posted)
  kept : ∀ a ∈ d ++ b ++ i, ∀ e ∈ (l.heap a).map TailQueue.Node.val,
    e.serial = a ∧ e ∈ Coseq.accepted l.core.trace
  accepted : (Coseq.accepted l.core.trace).map Ev.serial = List.range l.core.posted

/-- The module with lists that the linked module stands for. -/
def LinkedModule.list (l : LinkedModule) (i b d : List Addr) : Module :=
  l.core.withQueues (vals l.heap i) (vals l.heap b) (vals l.heap d)

namespace Layout

variable {l : LinkedModule} {i b d : List Addr} {a : Addr} {n : TailQueue.Node Ev} {now : Timespec} {ok : Alloc}

theorem nodup (h : Layout l i b d) : (l.handled ++ d ++ b ++ i).Nodup := h.parts.nodup_iff.mpr List.nodup_range

theorem fresh (h : Layout l i b d) (ha : a ∈ l.handled ++ d ++ b ++ i) : a ≠ l.core.posted :=
  Nat.ne_of_lt (List.mem_range.mp (h.parts.mem_iff.mp ha))

theorem inbox_deferred (h : Layout l i b d) : ∀ x ∈ d, x ∉ i := by
  intro x hd hi
  have hnodup := h.nodup
  rw [List.nodup_append] at hnodup
  exact hnodup.2.2 x (by simp [hd]) x hi rfl

theorem inbox_batch (h : Layout l i b d) : ∀ x ∈ b, x ∉ i := by
  intro x hb hi
  have hnodup := h.nodup
  rw [List.nodup_append] at hnodup
  exact hnodup.2.2 x (by simp [hb]) x hi rfl

theorem deferred_batch (h : Layout l i b d) : ∀ x ∈ b, x ∉ d := by
  intro x hb hd
  have hnodup := h.nodup
  rw [List.nodup_append, List.nodup_append] at hnodup
  exact hnodup.1.2.2 x (by simp [hd]) x hb rfl

/-- An accepted event is in exactly one place. -/
theorem one_place (h : Layout l i b d) {e : Ev} (he : e ∈ Coseq.accepted l.core.trace) :
    l.handled.count e.serial + d.count e.serial + b.count e.serial + i.count e.serial = 1 := by
  have hmem : e.serial ∈ List.range l.core.posted := h.accepted ▸ List.mem_map_of_mem he
  have hcount : (l.handled ++ d ++ b ++ i).count e.serial = 1 :=
    (h.parts.count_eq _).trans (List.count_eq_one_of_mem List.nodup_range hmem)
  simpa only [List.count_append] using hcount

theorem boot (idx : Nat) (reg : Reg) : Layout (LinkedModule.boot idx reg) [] [] [] where
  inbox := .empty
  deferred := .empty
  batch := .nil
  parts := .refl _
  kept := fun _ ha => absurd ha List.not_mem_nil
  accepted := rfl

theorem post (h : Layout l i b d) (e : Ev) :
    Layout (l.post e) (i ++ [l.core.posted]) b d ∧
      (l.post e).list (i ++ [l.core.posted]) b d = (l.list i b d).enqueue e := by
  have hmem : ∀ x ∈ l.handled ++ d ++ b ++ i, x ≠ l.core.posted := fun x hx => h.fresh hx
  simp only [List.mem_append] at hmem
  -- the new node is no node of a queue, and the queues other than the inbox are not written
  have hnew : ∀ x, x ≠ l.core.posted →
      Function.update l.heap l.core.posted (some ⟨{ e with serial := l.core.posted }, none⟩) x = l.heap x :=
    fun x hx => Function.update_of_ne hx _ _
  have hinbox := h.inbox.congr fun x hx => hnew x (hmem x (by simp [hx]))
  have hself := Function.update_self l.core.posted
    (some (⟨{ e with serial := l.core.posted }, none⟩ : TailQueue.Node Ev)) l.heap
  have happend := hinbox.append (fun hx => hmem _ (.inr hx) rfl) hself
  have hframe : ∀ x, x ∉ i → x ≠ l.core.posted → (l.post e).heap x = l.heap x := fun x hx hne =>
    (TailQueue.append_frame hinbox hx hne).trans (hnew x hne)
  have hdeferred : ∀ x ∈ d, (l.post e).heap x = l.heap x := fun x hx =>
    hframe x (h.inbox_deferred x hx) (hmem x (by simp [hx]))
  have hbatch : ∀ x ∈ b, (l.post e).heap x = l.heap x := fun x hx =>
    hframe x (h.inbox_batch x hx) (hmem x (by simp [hx]))
  have haccepted : Coseq.accepted (l.post e).core.trace =
      Coseq.accepted l.core.trace ++ [{ e with serial := l.core.posted }] := l.core.accepted_enqueue e
  have hval : ∀ x, x ≠ l.core.posted →
      ((l.post e).heap x).map TailQueue.Node.val = (l.heap x).map TailQueue.Node.val := fun x hx =>
    (TailQueue.append_val x).trans (congrArg _ (hnew x hx))
  have hvalnew : ((l.post e).heap l.core.posted).map TailQueue.Node.val =
      some { e with serial := l.core.posted } := (TailQueue.append_val _).trans (congrArg _ hself)
  have hvals : ∀ q, (∀ x ∈ q, x ≠ l.core.posted) → vals (l.post e).heap q = vals l.heap q := fun q hq =>
    List.filterMap_congr fun x hx => hval x (hq x hx)
  constructor
  · refine ⟨happend, h.deferred.congr hdeferred, h.batch.congr hbatch, ?_, fun x hx e' he' => ?_, ?_⟩
    · change (l.handled ++ d ++ b ++ (i ++ [l.core.posted])).Perm (List.range (l.core.posted + 1))
      rw [List.range_succ, ← List.append_assoc]
      exact h.parts.append_right _
    · rw [haccepted, List.mem_append, List.mem_singleton]
      by_cases hx' : x = l.core.posted
      · subst hx'
        obtain rfl := Option.some.inj (hvalnew.symm.trans he')
        exact ⟨rfl, .inr rfl⟩
      · have hold : x ∈ d ++ b ++ i := by
          simp only [List.mem_append, List.mem_singleton] at hx ⊢
          exact hx.imp id fun hx => hx.resolve_right hx'
        obtain ⟨hserial, hmem⟩ := h.kept x hold e' ((hval x hx').symm.trans he')
        exact ⟨hserial, .inl hmem⟩
    · rw [haccepted, List.map_append, h.accepted]
      exact List.range_succ.symm
  · have hi := hvals i fun x hx => hmem x (.inr hx)
    have hb := hvals b fun x hx => hmem x (.inl (.inr hx))
    have hd := hvals d fun x hx => hmem x (.inl (.inl (.inr hx)))
    have hlast : vals (l.post e).heap [l.core.posted] = [{ e with serial := l.core.posted }] := by
      rw [vals, List.filterMap_cons, hvalnew, List.filterMap_nil]
    rw [LinkedModule.list, TailQueue.vals_append, hi, hb, hd, hlast]
    rfl

/-- The event loop stands at a node of the batch, or at its end. -/
theorem pop (h : Layout l i b d) (hevs : l.evs = some a) :
    ∃ n rest, b = a :: rest ∧ l.heap a = some n ∧ Chain l.heap n.next rest := by
  have hbatch := h.batch
  rw [hevs] at hbatch
  cases hbatch with
  | cons hnode hrest => exact ⟨_, _, rfl, hnode, hrest⟩

theorem pop_notMem {rest : List Addr} (h : Layout l i (a :: rest) d) : a ∉ d ∧ a ∉ rest ∧ a ∉ i :=
  ⟨h.deferred_batch a List.mem_cons_self, (List.nodup_cons.mp h.batch.nodup).1,
    h.inbox_batch a List.mem_cons_self⟩

theorem pop_vals {rest : List Addr} (hn : l.heap a = some n) :
    vals l.heap (a :: rest) = n.val :: vals l.heap rest := by
  rw [vals, List.filterMap_cons, hn]
  rfl

theorem deferEv {rest : List Addr} (h : Layout l i (a :: rest) d) (hn : l.heap a = some n)
    (hrest : Chain l.heap n.next rest) :
    Layout ({ l with evs := n.next }.deferEv a) i rest (d ++ [a]) ∧
      ({ l with evs := n.next }.deferEv a).list i rest (d ++ [a]) =
        { l.list i (a :: rest) d with batch := vals l.heap rest }.deferEv n.val := by
  obtain ⟨had, harest, hai⟩ := h.pop_notMem
  have hframe : ∀ x, x ∉ d → x ≠ a → (TailQueue.append l.heap l.deferred a).1 x = l.heap x := fun x hx hne =>
    TailQueue.append_frame h.deferred hx hne
  constructor
  · refine ⟨h.inbox.congr fun x hx => ?_, h.deferred.append had hn, hrest.congr fun x hx => ?_, ?_,
      fun x hx e he => ?_, h.accepted⟩
    · exact hframe x (fun hd => h.inbox_deferred x hd hx) (ne_of_mem_of_not_mem hx hai)
    · exact hframe x (h.deferred_batch x (List.mem_cons_of_mem a hx)) (ne_of_mem_of_not_mem hx harest)
    · change (l.handled ++ (d ++ [a]) ++ rest ++ i).Perm (List.range l.core.posted)
      have hparts := h.parts
      rwa [List.append_cons (l.handled ++ d), List.append_assoc l.handled d] at hparts
    · refine h.kept x ?_ e ((TailQueue.append_val x).symm.trans he)
      simpa [or_assoc] using hx
  · have hlast : vals l.heap [a] = [n.val] := pop_vals hn
    change l.core.withQueues (vals (TailQueue.append l.heap l.deferred a).1 i)
      (vals (TailQueue.append l.heap l.deferred a).1 rest)
      (vals (TailQueue.append l.heap l.deferred a).1 (d ++ [a])) = _
    rw [TailQueue.append_vals, TailQueue.append_vals, TailQueue.append_vals, TailQueue.vals_append, hlast]
    rfl

theorem consume {rest : List Addr} {core : Module} (h : Layout l i (a :: rest) d) (hn : l.heap a = some n)
    (hrest : Chain l.heap n.next rest)
    (hcore : Coseq.accepted core.trace = Coseq.accepted l.core.trace ∧ core.posted = l.core.posted) :
    Layout ({ l with evs := n.next }.consume a core) i rest d ∧
      ({ l with evs := n.next }.consume a core).list i rest d =
        core.withQueues (vals l.heap i) (vals l.heap rest) (vals l.heap d) := by
  obtain ⟨had, harest, hai⟩ := h.pop_notMem
  have hframe : ∀ {q : List Addr}, a ∉ q → ∀ x ∈ q, l.heap.free a x = l.heap x := fun ha x hx =>
    Function.update_of_ne (ne_of_mem_of_not_mem hx ha) _ _
  constructor
  · refine ⟨h.inbox.congr (hframe hai), h.deferred.congr (hframe had), hrest.congr (hframe harest), ?_,
      fun x hx e he => ?_, ?_⟩
    · have hmove : (l.handled ++ [a] ++ d ++ rest ++ i).Perm (l.handled ++ d ++ a :: rest ++ i) := by
        simp only [List.append_assoc, List.cons_append, List.nil_append]
        have hmiddle : (d ++ a :: (rest ++ i)).Perm (a :: (d ++ (rest ++ i))) := List.perm_middle
        exact hmiddle.symm.append_left _
      change (l.handled ++ [a] ++ d ++ rest ++ i).Perm (List.range core.posted)
      rw [hcore.2]
      exact hmove.trans h.parts
    · have hold : x ∈ d ++ a :: rest ++ i := by
        simp only [List.mem_append, List.mem_cons] at hx ⊢
        exact hx.imp (fun hx => hx.imp id .inr) id
      have hne : x ≠ a := by
        rintro rfl
        simp only [List.mem_append] at hx
        exact hx.elim (fun hx => hx.elim had harest) hai
      change e ∈ (l.heap.free a x).map TailQueue.Node.val at he
      rw [TailQueue.Heap.free, Function.update_of_ne hne] at he
      change e.serial = x ∧ e ∈ Coseq.accepted core.trace
      rw [hcore.1]
      exact h.kept x hold e he
    · change (Coseq.accepted core.trace).map Ev.serial = List.range core.posted
      rw [hcore.1, hcore.2]
      exact h.accepted
  · change core.withQueues (vals (l.heap.free a) i) (vals (l.heap.free a) rest) (vals (l.heap.free a) d) = _
    rw [TailQueue.vals_congr (hframe hai), TailQueue.vals_congr (hframe harest), TailQueue.vals_congr (hframe had)]

/-- The splice meets its tail node, and is the concatenation of the two lists. -/
theorem mergeDeferred (h : Layout l i b d) :
    ∃ l' i' d', l.mergeDeferred = some l' ∧ Layout l' i' b d' ∧
      l'.list i' b d' = Coseq.mergeDeferred (l.list i b d) ∧ l'.core = l.core := by
  unfold LinkedModule.mergeDeferred Coseq.mergeDeferred
  by_cases hfree : l.core.lockedBy = none
  · have hfree' : (l.list i b d).lockedBy = none := hfree
    rw [if_pos hfree']
    by_cases hhead : l.deferred.head = none
    · obtain rfl := h.deferred.head_eq_none.mp hhead
      refine ⟨l, i, [], by rw [if_neg fun hc => hc.2 hhead], h, ?_, rfl⟩
      rfl
    · rw [if_pos ⟨hfree, hhead⟩]
      cases ht : l.deferred.tail with
      | none => exact absurd (h.deferred.head_eq_none.mpr (h.deferred.tail_eq_none.mp ht)) hhead
      | some t =>
          obtain ⟨d', rfl⟩ := h.deferred.eq_concat ht
          have htb : t ∉ b := fun hb => h.deferred_batch t hb (by simp)
          refine ⟨_, d' ++ [t] ++ i, [], rfl, ?_, ?_, rfl⟩
          · refine ⟨h.deferred.splice h.inbox ht h.inbox_deferred, .empty, h.batch.setNext htb, ?_,
              fun x hx e he => ?_, h.accepted⟩
            · have hmove : (l.handled ++ [] ++ b ++ (d' ++ [t] ++ i)).Perm
                  (l.handled ++ (d' ++ [t]) ++ b ++ i) := by
                rw [List.append_nil, ← List.append_assoc]
                refine List.Perm.append_right i ?_
                rw [List.append_assoc, List.append_assoc]
                exact List.perm_append_comm.append_left _
              exact hmove.trans h.parts
            · refine h.kept x ?_ e ((TailQueue.setNext_val x).symm.trans he)
              simp only [List.nil_append, List.mem_append] at hx ⊢
              tauto
          · change l.core.withQueues (vals (TailQueue.splice l.heap l.deferred l.inbox t).1 (d' ++ [t] ++ i))
              (vals (TailQueue.splice l.heap l.deferred l.inbox t).1 b) [] = _
            rw [TailQueue.splice_vals, TailQueue.splice_vals, TailQueue.vals_append]
            rfl
  · have hlocked : (l.list i b d).lockedBy ≠ none := hfree
    rw [if_neg hlocked, if_neg fun hc => hfree hc.1]
    exact ⟨l, i, d, rfl, h, rfl, rfl⟩

theorem takeBatch (h : Layout l i [] d) :
    ∃ i' b', Layout l.takeBatch i' b' d ∧ l.takeBatch.list i' b' d = Coseq.takeBatch (l.list i [] d) := by
  unfold LinkedModule.takeBatch Coseq.takeBatch
  by_cases hstop : l.core.stop = true
  · have hstop' : (l.list i [] d).stop = true := hstop
    rw [if_pos hstop, if_pos hstop']
    exact ⟨i, [], ⟨h.inbox, h.deferred, h.batch, h.parts, h.kept, h.accepted⟩, rfl⟩
  · have hstop' : ¬(l.list i [] d).stop = true := hstop
    rw [if_neg hstop, if_neg hstop']
    refine ⟨[], i, ⟨.empty, h.deferred, h.inbox.chain, ?_, fun x hx => ?_, h.accepted⟩, rfl⟩
    · have hparts := h.parts
      rwa [List.append_nil] at hparts ⊢
    · have hx' : x ∈ d ++ [] ++ i := by simpa using hx
      exact h.kept x hx'

theorem enterWait (h : Layout l i [] d) :
    ∃ i' b', Layout l.enterWait i' b' d ∧ l.enterWait.list i' b' d = Coseq.enterWait (l.list i [] d) := by
  unfold LinkedModule.enterWait Coseq.enterWait
  have hempty : l.inbox.head = none ↔ (l.list i [] d).inbox = [] :=
    h.inbox.head_eq_none.trans h.inbox.chain.vals_eq_nil.symm
  by_cases hwait : l.inbox.head = none ∧ l.core.stop = false
  · rw [if_pos hwait, if_pos ⟨hempty.mp hwait.1, hwait.2⟩]
    exact ⟨i, [], ⟨h.inbox, h.deferred, h.batch, h.parts, h.kept, h.accepted⟩, rfl⟩
  · rw [if_neg hwait, if_neg fun hc => hwait ⟨hempty.mpr hc.1, hc.2⟩]
    exact h.takeBatch

theorem dispatch {rest : List Addr} (h : Layout l i (a :: rest) d) (ok : Alloc) (hn : l.heap a = some n)
    (hrest : Chain l.heap n.next rest) (hcur : l.core.current = none) (hphase : l.core.phase = .events) :
    ∃ i' b' d', Layout ({ l with evs := n.next }.dispatch a n.val ok) i' b' d' ∧
      ({ l with evs := n.next }.dispatch a n.val ok).list i' b' d' =
        Coseq.dispatch { l.list i (a :: rest) d with batch := vals l.heap rest } n.val ok := by
  have hhead : AtHead (l.list i (a :: rest) d) n.val (vals l.heap rest) := ⟨hphase, pop_vals hn⟩
  have hcur' : (l.list i (a :: rest) d).current = none := hcur
  have hmove : Move (l.list i (a :: rest) d) (.sched ⟨0, 0⟩ ok) .none _ := dispatch_move hcur' hhead
  have haccepted := hmove.accepted
  -- the handlers do not look into the queues
  have hconsume : ∀ core : Module, core.withQueues (vals l.heap i) (vals l.heap rest) (vals l.heap d) =
      Coseq.dispatch { l.list i (a :: rest) d with batch := vals l.heap rest } n.val ok →
      ∃ i' b' d', Layout ({ l with evs := n.next }.consume a core) i' b' d' ∧
        ({ l with evs := n.next }.consume a core).list i' b' d' =
          Coseq.dispatch { l.list i (a :: rest) d with batch := vals l.heap rest } n.val ok := by
    intro core hcore
    rw [← hcore] at haccepted ⊢
    exact ⟨i, rest, d, h.consume hn hrest haccepted⟩
  unfold LinkedModule.dispatch
  dsimp only
  by_cases hlocked : l.core.lockedBy ≠ none ∧ n.val.type ≠ .notify
  · rw [if_pos hlocked]
    have hdispatch : Coseq.dispatch { l.list i (a :: rest) d with batch := vals l.heap rest } n.val ok = _ :=
      if_pos hlocked
    by_cases hown : n.val.type = .reply ∧ pendingPeek l.core.pending n.val.reqId = l.core.lockedBy
    · rw [if_pos hown]
      refine hconsume _ ?_
      rw [hdispatch]
      exact handleReply_queues.symm.trans (if_pos hown).symm
    · rw [if_neg hown, hdispatch]
      refine ⟨i, rest, d ++ [a], ?_⟩
      obtain ⟨hlayout, hlist⟩ := h.deferEv hn hrest
      exact ⟨hlayout, hlist.trans (if_neg hown).symm⟩
  · rw [if_neg hlocked]
    have hdispatch : Coseq.dispatch { l.list i (a :: rest) d with batch := vals l.heap rest } n.val ok = _ :=
      if_neg hlocked
    cases htype : n.val.type with
    | start =>
        refine hconsume _ ?_
        rw [hdispatch, htype]
        exact startSeq_queues.symm
    | reply =>
        refine hconsume _ ?_
        rw [hdispatch, htype]
        exact handleReply_queues.symm
    | notify =>
        refine hconsume _ ?_
        rw [hdispatch, htype]
        exact startNotify_queues.symm

/-- A step of another part of the loop leaves the queues alone. -/
theorem core (h : Layout l i b d) {core : Module}
    (hcore : Coseq.accepted core.trace = Coseq.accepted l.core.trace ∧ core.posted = l.core.posted) :
    Layout { l with core := core } i b d := by
  refine ⟨h.inbox, h.deferred, h.batch, ?_, ?_, ?_⟩
  · exact hcore.2.symm ▸ h.parts
  · exact hcore.1.symm ▸ h.kept
  · exact (congrArg (List.map Ev.serial) hcore.1).trans (h.accepted.trans (congrArg List.range hcore.2.symm))

theorem sched (h : Layout l i b d) (now : Timespec) (ok : Alloc) (hmodes : Modes (l.list i b d))
    (hcur : l.core.current = none)
    (hstopped : l.core.phase ≠ .stopped) (hdefined : l.core.phase ≠ .undefined) :
    ∃ i' b' d', Layout (l.sched now ok) i' b' d' ∧
      (l.sched now ok).list i' b' d' = Coseq.sched (l.list i b d) now ok := by
  have hcur' : (l.list i b d).current = none := hcur
  have hmove : Move (l.list i b d) (.sched now ok) .none _ := sched_move hcur' hstopped hdefined
  have haccepted := hmove.accepted
  have hdrained : (l.list i b d).AtWaitPoint → b = [] := fun hwait =>
    h.batch.vals_eq_nil.mp (hmodes.swept hwait).1
  -- outside the loop over the events the queues are not touched
  have hcore : Coseq.sched (l.list i b d) now ok =
      (Coseq.sched l.core now ok).withQueues (vals l.heap i) (vals l.heap b) (vals l.heap d) →
      ∃ i' b' d', Layout { l with core := Coseq.sched l.core now ok } i' b' d' ∧
        { l with core := Coseq.sched l.core now ok }.list i' b' d' = Coseq.sched (l.list i b d) now ok := by
    intro heq
    rw [heq] at haccepted ⊢
    exact ⟨i, b, d, h.core haccepted, rfl⟩
  cases hphase : l.core.phase with
  | top =>
      obtain rfl := hdrained (.inl hphase)
      obtain ⟨l', i', d', hmerge, hlayout, hlist, -⟩ := h.mergeDeferred
      obtain ⟨i₂, b₂, hlayout₂, hlist₂⟩ := hlayout.enterWait
      have hsched : l.sched now ok = l'.enterWait := by
        simp only [LinkedModule.sched, hphase, hmerge]
      have hsched' : Coseq.sched (l.list i [] d) now ok = Coseq.enterWait (Coseq.mergeDeferred (l.list i [] d)) := by
        have hphase' : (l.list i [] d).phase = .top := hphase
        simp only [Coseq.sched, hphase']
      rw [hsched, hsched', ← hlist]
      exact ⟨i₂, b₂, d', hlayout₂, hlist₂⟩
  | waiting t =>
      obtain rfl := hdrained (.inr ⟨t, hphase⟩)
      obtain ⟨i₂, b₂, hlayout₂, hlist₂⟩ := h.takeBatch
      have hsched : l.sched now ok = l.takeBatch := by
        simp only [LinkedModule.sched, hphase]
      have hsched' : Coseq.sched (l.list i [] d) now ok = Coseq.takeBatch (l.list i [] d) := by
        have hphase' : (l.list i [] d).phase = .waiting t := hphase
        simp only [Coseq.sched, hphase']
      rw [hsched, hsched']
      exact ⟨i₂, b₂, d, hlayout₂, hlist₂⟩
  | events =>
      have hphase' : (l.list i b d).phase = .events := hphase
      cases hevs : l.evs with
      | none =>
          have hb : b = [] := by
            have hbatch := h.batch
            rw [hevs] at hbatch
            cases hbatch
            rfl
          subst hb
          have hsched : l.sched now ok = { l with core := { reapDone l.core with phase := .top } } := by
            simp only [LinkedModule.sched, hphase, hevs]
          have hsched' : Coseq.sched (l.list i [] d) now ok =
              { reapDone l.core with phase := .top }.withQueues (vals l.heap i) [] (vals l.heap d) := by
            have hbatch : (l.list i [] d).batch = [] := rfl
            simp only [Coseq.sched, hphase', hbatch]
            rfl
          rw [hsched, hsched']
          exact ⟨i, [], d, h.core ⟨rfl, rfl⟩, rfl⟩
      | some a =>
          obtain ⟨n, rest, rfl, hn, hrest⟩ := h.pop hevs
          obtain ⟨i', b', d', hlayout, hlist⟩ := h.dispatch ok hn hrest hcur hphase
          have hsched : l.sched now ok = { l with evs := n.next }.dispatch a n.val ok := by
            simp only [LinkedModule.sched, hphase, hevs, hn]
          have hsched' : Coseq.sched (l.list i (a :: rest) d) now ok =
              Coseq.dispatch { l.list i (a :: rest) d with batch := vals l.heap rest } n.val ok := by
            have hbatch : (l.list i (a :: rest) d).batch = n.val :: vals l.heap rest := pop_vals hn
            simp only [Coseq.sched, hphase', hbatch]
          rw [hsched, hsched']
          exact ⟨i', b', d', hlayout, hlist⟩
  | clock =>
      have hsched : l.sched now ok = { l with core := Coseq.sched l.core now ok } := by
        simp only [LinkedModule.sched, hphase]
      rw [hsched]
      refine hcore ?_
      have hphase' : (l.list i b d).phase = .clock := hphase
      simp only [Coseq.sched, hphase, hphase']
      rfl
  | timers t rest =>
      have hsched : l.sched now ok = { l with core := Coseq.sched l.core now ok } := by
        simp only [LinkedModule.sched, hphase]
      rw [hsched]
      refine hcore ?_
      have hphase' : (l.list i b d).phase = .timers t rest := hphase
      simp only [Coseq.sched, hphase, hphase']
      cases rest with
      | nil => rfl
      | cons a rest => exact timerTurn_queues (m := { l.core with phase := .timers t rest })
  | stopped => exact absurd hphase hstopped
  | undefined => exact absurd hphase hdefined

/-- The linked module can step when the module with lists can, and does what that does. -/
theorem act (h : Layout l i b d) (hmodes : Modes (l.list i b d)) (act : ModAct) :
    l.act act = none ∧ (l.list i b d).step act = none ∨
      ∃ l' eff i' b' d', l.act act = some (l', eff) ∧ Layout l' i' b' d' ∧
        (l.list i b d).step act = some (l'.list i' b' d', eff) := by
  cases act with
  | sched now ok =>
      by_cases hblocked : l.core.current.isSome ∨ l.core.phase = .stopped ∨ l.core.phase = .undefined
      · exact .inl ⟨if_pos hblocked, if_pos hblocked⟩
      · have hruns := hblocked
        simp only [not_or, Bool.not_eq_true, Option.isSome_eq_false_iff, Option.isNone_iff_eq_none] at hruns
        obtain ⟨i', b', d', hlayout, hlist⟩ := h.sched now ok hmodes hruns.1 hruns.2.1 hruns.2.2
        refine .inr ⟨_, .none, i', b', d', if_neg hblocked, hlayout, ?_⟩
        rw [hlist]
        exact if_neg hblocked
  | call c now id ok =>
      have hstep : (l.list i b d).step (.call c now id ok) = (l.core.step (.call c now id ok)).map fun r =>
          (r.1.withQueues (vals l.heap i) (vals l.heap b) (vals l.heap d), r.2) := by
        have hcur : (l.list i b d).current = l.core.current := rfl
        simp only [Module.step, hcur]
        cases l.core.current with
        | none => rfl
        | some a => exact call_queues
      cases hcore : l.core.step (.call c now id ok) with
      | none =>
          rw [hcore] at hstep
          refine .inl ⟨?_, hstep⟩
          simp only [LinkedModule.act, hcore, Option.map_none]
      | some r =>
          rw [hcore] at hstep
          obtain ⟨m', eff⟩ := r
          refine .inr ⟨{ l with core := m' }, eff, i, b, d, ?_, h.core (Module.step_move hcore).accepted, hstep⟩
          simp only [LinkedModule.act, hcore, Option.map_some]
  | stop => exact .inr ⟨_, .none, i, b, d, rfl, h.core ⟨rfl, rfl⟩, rfl⟩

end Layout

/-! ### Runs -/

/-- Every event of a reached state has its place, whatever the steps and the posts between them. -/
theorem layout {ok : LinkedModule → LinkedModule.Label → Prop} {idx : Nat} {reg : Reg} {l : LinkedModule}
    (hrun : Lts.Run LinkedModule.step ok (LinkedModule.boot idx reg) l) :
    ∃ i b d, Layout l i b d ∧ Modes (l.list i b d) := by
  refine hrun.invariant (P := fun l => ∃ i b d, Layout l i b d ∧ Modes (l.list i b d))
    ⟨[], [], [], Layout.boot idx reg, Modes.boot idx reg⟩ ?_
  rintro l label l' - ⟨i, b, d, h, hmodes⟩ - hstep
  cases label with
  | act act =>
      obtain ⟨⟨l₁, eff⟩, hact, rfl⟩ := Option.map_eq_some_iff.mp hstep
      rcases h.act hmodes act with ⟨hnone, -⟩ | ⟨l₂, eff', i', b', d', hsome, hlayout, hlist⟩
      · rw [hnone] at hact
        cases hact
      · obtain ⟨rfl, rfl⟩ := Prod.mk.inj (Option.some.inj (hsome.symm.trans hact))
        exact ⟨i', b', d', hlayout, hmodes.move (Module.step_move hlist)⟩
  | post e =>
      obtain rfl := Option.some.inj hstep
      obtain ⟨hlayout, hlist⟩ := h.post e
      exact ⟨_, b, d, hlayout, hlist ▸ hmodes.enqueue e⟩

/-- The two queues are well formed, and each accepted event is in one of them, in the batch or handled, and
that once. -/
structure Divided (l : LinkedModule) (i b d : List Addr) : Prop where
  inbox : Denotes l.heap l.inbox i ∧ (l.inbox.head = none ↔ i = []) ∧ (l.inbox.tail = none ↔ i = [])
  deferred : Denotes l.heap l.deferred d ∧ (l.deferred.head = none ↔ d = []) ∧ (l.deferred.tail = none ↔ d = [])
  batch : Chain l.heap l.evs b
  numbered : (accepted l.core.trace).map Ev.serial = List.range l.core.posted
  once : ∀ e ∈ accepted l.core.trace,
    l.handled.count e.serial + d.count e.serial + b.count e.serial + i.count e.serial = 1
  held : ∀ a ∈ d ++ b ++ i, ∃ e ∈ accepted l.core.trace, e.serial = a ∧ (l.heap a).map TailQueue.Node.val = some e

theorem Layout.divided {l : LinkedModule} {i b d : List Addr} (h : Layout l i b d) : Divided l i b d := by
  refine ⟨⟨h.inbox, h.inbox.head_eq_none, h.inbox.tail_eq_none⟩,
    ⟨h.deferred, h.deferred.head_eq_none, h.deferred.tail_eq_none⟩, h.batch, h.accepted, fun e he =>
      h.one_place he, fun a ha => ?_⟩
  obtain ⟨n, hn⟩ : ∃ n, l.heap a = some n := by
    rcases List.mem_append.mp ha with hdb | hi
    · exact (List.mem_append.mp hdb).elim h.deferred.chain.node h.batch.node
    · exact h.inbox.chain.node hi
  have hval : (l.heap a).map TailQueue.Node.val = some n.val := by rw [hn, Option.map_some]
  obtain ⟨hserial, hmem⟩ := h.kept a ha n.val hval
  exact ⟨n.val, hmem, hserial, hval⟩

/-- Whatever a module does and whenever events are posted to it, no event is lost or handled twice. -/
theorem events_divided {ok : LinkedModule → LinkedModule.Label → Prop} {idx : Nat} {reg : Reg}
    {l : LinkedModule} (hrun : Lts.Run LinkedModule.step ok (LinkedModule.boot idx reg) l) :
    ∃ i b d, Divided l i b d := by
  obtain ⟨i, b, d, h, -⟩ := layout hrun
  exact ⟨i, b, d, h.divided⟩

/-- A sequence takes the lock and waits; the next START is deferred, and a third one arrives. -/
def deferralRun : List LinkedModule.Label :=
  let start : Ev := ⟨.start, 0, 1, .external, .ignore, 0, 0, [], 0⟩
  let turn : LinkedModule.Label := .act (.sched ⟨0, 0⟩ .granted)
  [.post start, .post start, turn, turn, turn, turn, .act (.call .lock ⟨0, 0⟩ 0 .granted),
    .act (.call (.waitTimeout 1) ⟨0, 0⟩ 0 .granted), turn, .post start]

theorem deferralRun_divided : ∃ l,
    Lts.Run LinkedModule.step (fun _ _ => True) (LinkedModule.boot 0 ⟨1, false⟩) l ∧
      (l.handled = [0] ∧ l.deferred = ⟨some 1, some 1⟩ ∧ l.inbox = ⟨some 2, some 2⟩) ∧
        ∃ i b d, Divided l i b d := by
  obtain ⟨l, hrun, hl⟩ : ∃ l,
      Lts.Run LinkedModule.step (fun _ _ => True) (LinkedModule.boot 0 ⟨1, false⟩) l ∧
        decide (l.handled = [0] ∧ l.deferred = ⟨some 1, some 1⟩ ∧ l.inbox = ⟨some 2, some 2⟩) = true :=
    Lts.exists_run deferralRun (by decide +kernel)
  exact ⟨l, hrun, of_decide_eq_true hl, events_divided hrun⟩

/-- The modules of an instance are linked modules, seen through their lists. -/
theorem linked_module {ok : Sys → Act → Prop} {tbl : List Reg} {s : Sys} (hrun : Reaches ok tbl s) (j : Nat) :
    ∃ l i b d, Lts.Run LinkedModule.step (fun _ _ => True) (LinkedModule.boot j (tbl.getD j ⟨0, false⟩)) l ∧
      Layout l i b d ∧ s.module j = l.list i b d := by
  refine hrun.invariant (P := fun s => ∃ l i b d,
    Lts.Run LinkedModule.step (fun _ _ => True) (LinkedModule.boot j (tbl.getD j ⟨0, false⟩)) l ∧
      Layout l i b d ∧ s.module j = l.list i b d) ⟨_, [], [], [], .refl, Layout.boot _ _, rfl⟩ ?_
  rintro s a s' hreach ⟨l, i, b, d, hl, h, hlist⟩ - hstep
  obtain ⟨m₁, hm₁, hs'⟩ := Sys.step_stepped hstep j
  obtain ⟨l₁, i₁, b₁, d₁, hl₁, h₁, rfl⟩ : ∃ l₁ i₁ b₁ d₁,
      Lts.Run LinkedModule.step (fun _ _ => True) (LinkedModule.boot j (tbl.getD j ⟨0, false⟩)) l₁ ∧
        Layout l₁ i₁ b₁ d₁ ∧ m₁ = l₁.list i₁ b₁ d₁ := by
    cases hm₁ with
    | stay => exact ⟨l, i, b, d, hl, h, hlist⟩
    | @step act eff _ _ hmstep =>
        have hmodes := modes hreach j
        rw [hlist] at hmodes hmstep
        rcases h.act hmodes act with ⟨-, hnone⟩ | ⟨l₁, eff', i', b', d', hsome, hlayout, heq⟩
        · rw [hnone] at hmstep
          cases hmstep
        · obtain ⟨rfl, -⟩ := Prod.mk.inj (Option.some.inj (heq.symm.trans hmstep))
          refine ⟨l₁, i', b', d', hl.tail trivial (a := .act act) ?_, hlayout, rfl⟩
          rw [LinkedModule.step, hsome, Option.map_some]
  rcases hs' with heq | ⟨e, heq⟩
  · exact ⟨l₁, i₁, b₁, d₁, hl₁, h₁, heq⟩
  · obtain ⟨hlayout, hpost⟩ := h₁.post e
    exact ⟨l₁.post e, _, b₁, d₁, hl₁.tail trivial (a := .post e) rfl, hlayout, heq.trans hpost.symm⟩

end Coseq
