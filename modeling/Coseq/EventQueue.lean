import Coseq.FiberModes

/-! The events a module holds, in its deferred queue, its batch and its inbox taken together. The splice
at the top of the loop, the taking of a batch and the deferral of an event only move events from one
of the three to another; an event leaves them when its turn comes. -/

namespace Coseq

instance (m : Module) (e : Ev) : Decidable (Admits m e) := inferInstanceAs (Decidable (_ ∨ _ ∨ _ ∧ _))

variable {m : Module} {e : Ev} {rest inbox deferred : List Ev}

/-- The splice at the top of the loop keeps the order, the last batch being used up. -/
theorem Merged.queue (hmerge : Merged m inbox deferred) (hmodes : Modes m) :
    m.batch = [] ∧ deferred ++ inbox = m.deferred ++ m.inbox := by
  cases hmerge with
  | kept hphase =>
      have hwait : m.AtWaitPoint := hphase.elim .inr fun h => .inl h.1
      exact ⟨(hmodes.swept hwait).1, rfl⟩
  | spliced hphase _ => exact ⟨(hmodes.swept (.inl hphase)).1, rfl⟩

theorem Merged.mem_queue (hmerge : Merged m inbox deferred) (he : e ∈ deferred ∨ e ∈ inbox) :
    e ∈ m.queue := by
  simp only [Module.queue, List.mem_append]
  cases hmerge with
  | kept => exact he.elim (fun h => .inl (.inl h)) .inr
  | spliced =>
      rcases he with he | he
      · cases he
      · exact (List.mem_append.mp he).elim (fun h => .inl (.inl h)) .inr

namespace AtHead

theorem queue (hhead : AtHead m e rest) : m.queue = m.deferred ++ e :: (rest ++ m.inbox) := by
  simp [Module.queue, hhead.batch]

theorem mem_queue (hhead : AtHead m e rest) : e ∈ m.queue := by
  simp [Module.queue, hhead.batch]

/-- What waits behind the head of the batch. -/
theorem queue_rest (hhead : AtHead m e rest) {e' : Ev} (he' : e' ∈ m.deferred ++ rest ++ m.inbox) :
    e' ∈ m.queue := by
  simp only [Module.queue, hhead.batch, List.mem_append, List.mem_cons] at he' ⊢
  exact he'.imp (fun h => h.imp id .inr) id

/-- The head of the batch counts once. -/
theorem count (hhead : AtHead m e rest) (p : Ev → Bool) :
    m.queue.countP p = (m.deferred ++ rest ++ m.inbox).countP p + if p e then 1 else 0 := by
  rw [hhead.queue]
  simp only [List.countP_append, List.countP_cons]
  omega

/-- A deferred event only changes its place. -/
theorem count_defer (hhead : AtHead m e rest) (p : Ev → Bool) :
    (m.deferred ++ [e] ++ rest ++ m.inbox).countP p = m.queue.countP p := by
  rw [hhead.count]
  simp only [List.countP_append, List.countP_singleton]
  omega

end AtHead

/-- A move brings no event of its own. -/
theorem Move.queue_subset {m' : Module} {act : ModAct} {eff : Effect} (hmove : Move m act eff m') :
    ∀ e ∈ m'.queue, e ∈ m.queue := by
  have hmerged : ∀ {inbox deferred : List Ev}, Merged m inbox deferred →
      ∀ e ∈ deferred ++ m.batch ++ inbox, e ∈ m.queue := by
    intro inbox deferred hmerge e he
    rcases List.mem_append.mp he with he | he
    · rcases List.mem_append.mp he with he | he
      · exact hmerge.mem_queue (.inl he)
      · simp [Module.queue, he]
    · exact hmerge.mem_queue (.inr he)
  cases hmove with
  | park _ _ hmerge _ => exact hmerged hmerge
  | halt _ hmerge _ => exact hmerged hmerge
  | take _ hmerge =>
      intro e he
      simp only [Module.queue, List.append_nil, List.mem_append] at he
      exact hmerge.mem_queue he
  | defer _ hhead _ =>
      intro e he
      rw [Module.queue, hhead.batch]
      simpa [Module.queue] using he
  | drop _ hhead => exact fun e he => hhead.queue_rest he
  | begin _ hhead => exact fun e he => hhead.queue_rest he
  | undefined _ hhead => exact fun e he => hhead.queue_rest he
  | wake _ hhead => exact fun e he => hhead.queue_rest he
  | queue _ hhead => exact fun e he => hhead.queue_rest he
  | lose _ hhead => exact fun e he => hhead.queue_rest he
  | _ => exact fun e he => he

/-- An event leaves the queues when its turn comes and the lock lets it through. -/
theorem Move.queue_keeps {m' : Module} {act : ModAct} {eff : Effect} (hmove : Move m act eff m') (hmodes : Modes m) :
    ∀ e ∈ m.queue, e ∈ m'.queue ∨ ∃ now ok rest, act = .sched now ok ∧ AtHead m e rest ∧ Admits m e := by
  have hmerged : ∀ {inbox deferred : List Ev}, Merged m inbox deferred → ∀ e ∈ m.queue, e ∈ deferred ++ inbox := by
    intro inbox deferred hmerge e he
    obtain ⟨hbatch, hlist⟩ := hmerge.queue hmodes
    rw [hlist]
    simpa [Module.queue, hbatch] using he
  have hhead : ∀ {now ok e' rest}, act = .sched now ok → AtHead m e' rest → Admits m e' → ∀ e ∈ m.queue,
      e ∈ m.deferred ++ rest ++ m.inbox ∨ ∃ now ok rest, act = .sched now ok ∧ AtHead m e rest ∧ Admits m e := by
    intro now ok e' rest hact hhead hadmits e he
    rw [hhead.queue, List.mem_append, List.mem_cons] at he
    rcases he with he | rfl | he
    · exact .inl (List.mem_append_left _ (List.mem_append_left _ he))
    · exact .inr ⟨now, ok, rest, hact, hhead, hadmits⟩
    · rw [List.append_assoc]
      exact .inl (List.mem_append_right _ he)
  cases hmove with
  | park _ _ hmerge =>
      intro e he
      have hmem := hmerged hmerge e he
      simp only [Module.queue, (hmerge.queue hmodes).1, List.append_nil]
      exact .inl hmem
  | halt _ hmerge =>
      intro e he
      have hmem := hmerged hmerge e he
      simp only [Module.queue, (hmerge.queue hmodes).1, List.append_nil]
      exact .inl hmem
  | take _ hmerge =>
      intro e he
      have hmem := hmerged hmerge e he
      simp only [Module.queue, List.append_nil]
      exact .inl hmem
  | defer _ hhd _ =>
      intro e he
      rw [hhd.queue] at he
      exact .inl (by simpa [Module.queue] using he)
  | drop _ hhd hadmits => exact hhead rfl hhd hadmits
  | begin _ hhd hadmits => exact hhead rfl hhd hadmits
  | undefined _ hhd hadmits => exact hhead rfl hhd hadmits
  | wake _ hhd hadmits => exact hhead rfl hhd hadmits
  | queue _ hhd hadmits => exact hhead rfl hhd hadmits
  | lose _ hhd hadmits => exact hhead rfl hhd hadmits
  | _ => exact fun e he => .inl he

theorem Module.mem_enqueue {e' : Ev} (h : e' ∈ (m.enqueue e).queue) :
    e' ∈ m.queue ∨ e' = { e with serial := m.posted } := by
  simpa [Module.queue, Module.enqueue, or_assoc] using h

theorem Module.count_enqueue (m : Module) (e : Ev) (p : Ev → Bool) :
    (m.enqueue e).queue.countP p = m.queue.countP p + if p { e with serial := m.posted } then 1 else 0 := by
  simp only [queue, enqueue, List.countP_append, List.countP_singleton]
  omega

/-! ### What has been accepted -/

/-- The event that a line says `post` has appended. -/
def Obs.accepted : Obs → Option Ev
  | .arrived e => some e
  | _ => none

/-- The events that `post` has appended to the inbox, in that order. -/
def accepted (l : List Obs) : List Ev := l.filterMap Obs.accepted

theorem accepted_append {l xs : List Obs} (hxs : ∀ x ∈ xs, x.accepted = none) :
    accepted (l ++ xs) = accepted l := by
  rw [accepted, List.filterMap_append, List.filterMap_eq_nil_iff.mpr hxs, List.append_nil]
  rfl

theorem Obs.OfCall.accepted {x : Obs} (h : x.OfCall) : x.accepted = none := by
  cases x <;> first | rfl | cases h

theorem accepted_wakeObs {f : Fiber} {a : FiberRef} {why : Wake} : ∀ x ∈ f.wakeObs a why, x.accepted = none := by
  intro x hx
  rcases Fiber.wakeObs_kind x hx with rfl | hcall
  · rfl
  · exact hcall.accepted

theorem Dropped.accepted {ok : Alloc} {obs : List Obs} (h : Dropped m e ok obs) :
    ∀ x ∈ obs, x.accepted = none := by
  intro x hx
  rcases h.mem hx with rfl | rfl <;> rfl

/-- Nothing is accepted by a step of the module itself. -/
theorem Move.accepted {m' : Module} {act : ModAct} {eff : Effect} (h : Move m act eff m') :
    accepted m'.trace = accepted m.trace ∧ m'.posted = m.posted := by
  cases h with
  | fire => exact ⟨accepted_append accepted_wakeObs, rfl⟩
  | expire => exact ⟨accepted_append accepted_wakeObs, rfl⟩
  | wake => exact ⟨accepted_append accepted_wakeObs, rfl⟩
  | drop _ _ _ hdrop => exact ⟨accepted_append hdrop.accepted, rfl⟩
  | @begin _ _ e _ _ _ _ htype =>
      refine ⟨accepted_append fun x hx => ?_, rfl⟩
      obtain rfl := List.mem_singleton.mp hx
      unfold Ev.beginObs
      split <;> rfl
  | issue => exact ⟨accepted_append fun x hx => (issueObs_ofCall x hx).accepted, rfl⟩
  | «local» _ hcall => exact ⟨accepted_append fun x hx => (hcall.ofCall x hx).accepted, rfl⟩
  | undefined => exact ⟨accepted_append (by simp [Obs.accepted]), rfl⟩
  | lose => exact ⟨accepted_append (by simp [Obs.accepted]), rfl⟩
  | lock => exact ⟨accepted_append (by simp [Obs.accepted]), rfl⟩
  | unlock => exact ⟨accepted_append (by simp [Obs.accepted]), rfl⟩
  | ret => exact ⟨accepted_append (by simp [Obs.accepted]), rfl⟩
  | _ => exact ⟨rfl, rfl⟩

theorem Module.accepted_enqueue (m : Module) (e : Ev) :
    accepted (m.enqueue e).trace = accepted m.trace ++ [{ e with serial := m.posted }] :=
  List.filterMap_append

end Coseq
