import Coseq.System

/-! The external mailbox by itself: a slot for one reply, armed with the id of a call, filled by the
delivery of a reply to that id, and emptied by the call. The slot serves one caller at a time: if it is
armed only while nobody waits, each call takes the reply to its own id, and no reply to a waiting call
is lost. -/

namespace Coseq

/-- The fields of the instance that `ext_mtx` protects, apart from the id counter, with their history. -/
structure Mailbox where
  ready : Bool
  waitRid : Nat
  result : Result
  msg : Bytes
  log : List ExtObs

namespace Mailbox

variable (b : Mailbox)

def arm (t rid : Nat) : Mailbox :=
  { b with ready := false, waitRid := rid, log := b.log ++ [.called t rid] }

def deliver (rid : Nat) (r : Result) (msg : Bytes) : Mailbox :=
  if rid = b.waitRid then
    { b with ready := true, result := r, msg := msg, log := b.log ++ [.accepted rid r msg] }
  else { b with log := b.log ++ [.discarded rid r msg] }

def take (t rid : Nat) : Mailbox :=
  { b with waitRid := 2 ^ 32 - 1, msg := [], log := b.log ++ [.returned t rid b.result b.msg] }

end Mailbox

def ExtObs.calls : ExtObs → Option (Nat × Nat)
  | .called t rid => some (t, rid)
  | _ => none

def ExtObs.returns : ExtObs → Option (Nat × Nat)
  | .returned t rid _ _ => some (t, rid)
  | _ => none

/-- Every call of `request_sync` has returned. -/
def AllReturned (l : List ExtObs) : Prop :=
  ∀ c ∈ l.filterMap ExtObs.calls, c ∈ l.filterMap ExtObs.returns

instance (l : List ExtObs) : Decidable (AllReturned l) :=
  inferInstanceAs (Decidable (∀ c ∈ l.filterMap ExtObs.calls, c ∈ l.filterMap ExtObs.returns))

/-- The slot is held for the call of thread `t` with the id `rid`, and has the reply to it if there is
one among the replies `A`. -/
structure Held (b : Mailbox) (A : Nat → Result → Bytes → Prop) (t rid : Nat) : Prop where
  positive : 0 < rid
  slot : b.waitRid = rid
  called : .called t rid ∈ b.log
  open_call : ∀ r msg, .returned t rid r msg ∉ b.log
  undiscarded : ∀ r msg, .discarded rid r msg ∉ b.log
  reply : b.ready = true ∧ A rid b.result b.msg ∨ b.ready = false ∧ ∀ r msg, ¬A rid r msg

namespace Held

variable {b b' : Mailbox} {A A' : Nat → Result → Bytes → Prop} {t rid : Nat}

/-- A fresh call holds the slot it arms. -/
theorem arm (hpos : 0 < rid) (hfresh : ∀ r msg, ¬A rid r msg) (hopen : ∀ r msg, .returned t rid r msg ∉ b.log)
    (hundiscarded : ∀ r msg, .discarded rid r msg ∉ b.log) : Held (b.arm t rid) A t rid := by
  have hold : ∀ x : ExtObs, x ≠ .called t rid → x ∈ (b.arm t rid).log → x ∈ b.log := by
    intro x hne hx
    exact (List.mem_append.mp hx).resolve_right fun h => hne (List.mem_singleton.mp h)
  exact ⟨hpos, rfl, List.mem_append_right _ (List.mem_singleton.mpr rfl),
    fun r msg hx => hopen r msg (hold _ (by simp) hx),
    fun r msg hx => hundiscarded r msg (hold _ (by simp) hx), .inr ⟨rfl, hfresh⟩⟩

/-- The slot takes a reply to the call. -/
theorem accept (h : Held b A t rid) {rid' : Nat} {r : Result} {msg : Bytes}
    (hlog : b'.log = b.log ++ [.accepted rid' r msg]) (hslot : b'.waitRid = b.waitRid) (hready : b'.ready = true)
    (hA : A' rid b'.result b'.msg) : Held b' A' t rid := by
  have hold : ∀ x : ExtObs, x ≠ .accepted rid' r msg → x ∈ b'.log → x ∈ b.log := by
    intro x hne hx
    rw [hlog] at hx
    exact (List.mem_append.mp hx).resolve_right fun h => hne (List.mem_singleton.mp h)
  refine ⟨h.positive, hslot.trans h.slot, ?_, fun r' msg' hx => h.open_call r' msg' (hold _ (by simp) hx),
    fun r' msg' hx => h.undiscarded r' msg' (hold _ (by simp) hx), .inl ⟨hready, hA⟩⟩
  rw [hlog]
  exact List.mem_append_left _ h.called

/-- A reply to another request passes by. -/
theorem discard (h : Held b A t rid) {rid' : Nat} {r : Result} {msg : Bytes} (hslot : rid' ≠ b.waitRid)
    (hA : ∀ r msg, A' rid r msg ↔ A rid r msg) : Held (b.deliver rid' r msg) A' t rid := by
  have hold : ∀ x : ExtObs, x ≠ .discarded rid' r msg → x ∈ (b.deliver rid' r msg).log → x ∈ b.log := by
    intro x hne hx
    rw [Mailbox.deliver, if_neg hslot] at hx
    exact (List.mem_append.mp hx).resolve_right fun h => hne (List.mem_singleton.mp h)
  have hother : rid ≠ rid' := fun heq => hslot (heq.symm.trans h.slot.symm)
  refine ⟨h.positive, ?_, ?_, fun r' msg' hx => h.open_call r' msg' (hold _ (by simp) hx),
    fun r' msg' hx => h.undiscarded r' msg' (hold _ ?_ hx), ?_⟩
  · rw [Mailbox.deliver, if_neg hslot]
    exact h.slot
  · rw [Mailbox.deliver, if_neg hslot]
    exact List.mem_append_left _ h.called
  · exact fun heq => hother (ExtObs.discarded.inj heq).1
  · rw [Mailbox.deliver, if_neg hslot]
    exact h.reply.imp (fun ⟨hready, hx⟩ => ⟨hready, (hA _ _).mpr hx⟩) fun ⟨hready, hno⟩ =>
      ⟨hready, fun r' msg' hx => hno r' msg' ((hA _ _).mp hx)⟩

theorem same (h : Held b A t rid) (hA : ∀ r msg, A' rid r msg ↔ A rid r msg) : Held b A' t rid :=
  { h with
    reply := h.reply.imp (fun ⟨hready, hx⟩ => ⟨hready, (hA _ _).mpr hx⟩)
      fun ⟨hready, hno⟩ => ⟨hready, fun r msg hx => hno r msg ((hA _ _).mp hx)⟩ }

/-- The call is not among those that have returned. -/
theorem not_returned (h : Held b A t rid) (hall : AllReturned b.log) : False := by
  obtain ⟨x, hx, heq⟩ := List.mem_filterMap.mp (hall (t, rid) (List.mem_filterMap.mpr ⟨_, h.called, rfl⟩))
  cases x with
  | returned t' rid' r msg =>
      obtain ⟨rfl, rfl⟩ := Prod.mk.inj (Option.some.inj heq)
      exact h.open_call r msg hx
  | _ => cases heq

/-- A call that finds the slot ready takes its reply. -/
theorem answer (h : Held b A t rid) (hready : b.ready = true) : A rid b.result b.msg := by
  rcases h.reply with ⟨-, hx⟩ | ⟨hno, -⟩
  · exact hx
  · rw [hready] at hno
    cases hno

end Held

/-- The mailbox is in order: `A` are the replies made so far, and `W t rid` says that thread `t` waits
for the reply to `rid`. -/
structure Kept (b : Mailbox) (A : Nat → Result → Bytes → Prop) (W : Nat → Nat → Prop) : Prop where
  returned : ∀ t rid r msg, .returned t rid r msg ∈ b.log → 0 < rid ∧ A rid r msg
  discarded : ∀ rid r msg, .discarded rid r msg ∈ b.log → A rid r msg
  alone : ∀ t t' rid rid', W t rid → W t' rid' → t' = t
  waiting : ∀ t rid, W t rid → Held b A t rid

namespace Kept

variable {b : Mailbox} {A A' : Nat → Result → Bytes → Prop} {W W' : Nat → Nat → Prop} {t rid : Nat}
  {r : Result} {msg : Bytes}

/-- Where every call has returned nobody waits. -/
theorem free (h : Kept b A W) (hall : AllReturned b.log) (t rid : Nat) : ¬W t rid :=
  fun hw => (h.waiting t rid hw).not_returned hall

theorem arm (h : Kept b A W) (hpos : 0 < rid) (hfresh : ∀ r msg, ¬A rid r msg)
    (hW : ∀ t' rid', W' t' rid' → t' = t ∧ rid' = rid) : Kept (b.arm t rid) A W' := by
  have hold : ∀ x : ExtObs, x ≠ .called t rid → x ∈ (b.arm t rid).log → x ∈ b.log := by
    intro x hne hx
    exact (List.mem_append.mp hx).resolve_right fun h => hne (List.mem_singleton.mp h)
  refine ⟨fun t' rid' r msg hx => h.returned t' rid' r msg (hold _ (by simp) hx),
    fun rid' r msg hx => h.discarded rid' r msg (hold _ (by simp) hx),
    fun t₁ t₂ r₁ r₂ h₁ h₂ => (hW t₂ r₂ h₂).1.trans (hW t₁ r₁ h₁).1.symm, fun t' rid' hw => ?_⟩
  obtain ⟨rfl, rfl⟩ := hW t' rid' hw
  exact Held.arm hpos hfresh (fun r msg hx => hfresh r msg (h.returned _ _ r msg hx).2)
    fun r msg hx => hfresh r msg (h.discarded _ r msg hx)

theorem deliver (h : Kept b A W)
    (hA : ∀ rid' r' msg', A' rid' r' msg' ↔ A rid' r' msg' ∨ rid' = rid ∧ r' = r ∧ msg' = msg) :
    Kept (b.deliver rid r msg) A' W := by
  have hmono : ∀ {rid' r' msg'}, A rid' r' msg' → A' rid' r' msg' := fun hx => (hA _ _ _).mpr (.inl hx)
  have hnew : A' rid r msg := (hA rid r msg).mpr (.inr ⟨rfl, rfl, rfl⟩)
  by_cases hslot : rid = b.waitRid
  · have hdeliver : b.deliver rid r msg =
        { b with ready := true, result := r, msg := msg, log := b.log ++ [.accepted rid r msg] } := if_pos hslot
    have hold : ∀ x : ExtObs, x ≠ .accepted rid r msg → x ∈ (b.deliver rid r msg).log → x ∈ b.log := by
      intro x hne hx
      rw [hdeliver] at hx
      exact (List.mem_append.mp hx).resolve_right fun h => hne (List.mem_singleton.mp h)
    refine ⟨fun t' rid' r' msg' hx => ?_, fun rid' r' msg' hx => ?_, h.alone, fun t' rid' hw => ?_⟩
    · obtain ⟨hpos, hx⟩ := h.returned t' rid' r' msg' (hold _ (by simp) hx)
      exact ⟨hpos, hmono hx⟩
    · exact hmono (h.discarded rid' r' msg' (hold _ (by simp) hx))
    · have hheld := h.waiting t' rid' hw
      rw [hdeliver]
      refine hheld.accept rfl rfl rfl ?_
      rw [← hheld.slot, ← hslot]
      exact hnew
  · have hold : ∀ x : ExtObs, x ≠ .discarded rid r msg → x ∈ (b.deliver rid r msg).log → x ∈ b.log := by
      intro x hne hx
      rw [Mailbox.deliver, if_neg hslot] at hx
      exact (List.mem_append.mp hx).resolve_right fun h => hne (List.mem_singleton.mp h)
    refine ⟨fun t' rid' r' msg' hx => ?_, fun rid' r' msg' hx => ?_, h.alone, fun t' rid' hw => ?_⟩
    · obtain ⟨hpos, hx⟩ := h.returned t' rid' r' msg' (hold _ (by simp) hx)
      exact ⟨hpos, hmono hx⟩
    · by_cases heq : ExtObs.discarded rid' r' msg' = .discarded rid r msg
      · obtain ⟨rfl, rfl, rfl⟩ := ExtObs.discarded.inj heq
        exact hnew
      · exact hmono (h.discarded rid' r' msg' (hold _ heq hx))
    · have hheld := h.waiting t' rid' hw
      have hother : rid' ≠ rid := fun heq => hslot (heq.symm.trans hheld.slot.symm)
      exact hheld.discard hslot fun r' msg' => (hA rid' r' msg').trans (or_iff_left fun heq => hother heq.1)

theorem take (h : Kept b A W) (hw : W t rid) (hready : b.ready = true)
    (hW : ∀ t' rid', W' t' rid' → W t' rid' ∧ t' ≠ t) : Kept (b.take t rid) A W' := by
  have hold : ∀ x : ExtObs, x ≠ .returned t rid b.result b.msg → x ∈ (b.take t rid).log → x ∈ b.log := by
    intro x hne hx
    exact (List.mem_append.mp hx).resolve_right fun h => hne (List.mem_singleton.mp h)
  have hheld := h.waiting t rid hw
  have hnone : ∀ t' rid', ¬W' t' rid' := fun t' rid' hw' =>
    (hW t' rid' hw').2 (h.alone t t' rid rid' hw (hW t' rid' hw').1)
  refine ⟨fun t' rid' r' msg' hx => ?_, fun rid' r' msg' hx => h.discarded rid' r' msg' (hold _ (by simp) hx),
    fun _ _ _ _ h₁ => absurd h₁ (hnone _ _), fun _ _ h₁ => absurd h₁ (hnone _ _)⟩
  by_cases heq : ExtObs.returned t' rid' r' msg' = .returned t rid b.result b.msg
  · obtain ⟨rfl, rfl, rfl, rfl⟩ := ExtObs.returned.inj heq
    exact ⟨hheld.positive, hheld.answer hready⟩
  · exact h.returned t' rid' r' msg' (hold _ heq hx)

/-- Steps elsewhere change neither the replies nor who waits. -/
theorem same (h : Kept b A W) (hA : ∀ rid r msg, A' rid r msg ↔ A rid r msg)
    (hW : ∀ t rid, W' t rid → W t rid) : Kept b A' W' := by
  refine ⟨fun t rid r msg hx => ?_, fun rid r msg hx => (hA rid r msg).mpr (h.discarded rid r msg hx),
    fun t t' rid rid' hw hw' => h.alone t t' rid rid' (hW t rid hw) (hW t' rid' hw'),
    fun t rid hw => (h.waiting t rid (hW t rid hw)).same (hA rid)⟩
  obtain ⟨hpos, hx⟩ := h.returned t rid r msg hx
  exact ⟨hpos, (hA rid r msg).mpr hx⟩

end Kept

end Coseq
