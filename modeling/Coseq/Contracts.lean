import Coseq.SequenceCode
import Coseq.Gather

/-! Verified applications. Where the code of each sequence, taken alone, keeps the terms, every run of the application
keeps them, whatever the interleaving: each fiber stands where its code says, with what its code knows of it, and
each reply is one that the terms allow for the request it answers. -/

namespace Coseq

/-- The call that a parked fiber is in, by its saved context. `asked` are the requests of its module, by id. -/
def Fiber.In (asked : Nat → Option Ask) (f : Fiber) : Call → Prop
  | .request j q msg => f.ctx = .request .request ∧ asked f.waitReqId = some ⟨j, q, msg⟩
  | .requestTimeout j q msg _ => (∃ d, f.ctx = .request (.timed d)) ∧ asked f.waitReqId = some ⟨j, q, msg⟩
  | .waitReply | .gather | .gatherNext => ∃ g, f.ctx = .waitReply g
  | .waitTimeout _ => f.ctx = .waitTimeout
  | _ => False

section In

variable {asked : Nat → Option Ask} {f : Fiber} {c : Call}

theorem Fiber.In.request (h : f.In asked c) (hctx : f.ctx = .request .request) :
    ∃ j q msg, c = .request j q msg ∧ asked f.waitReqId = some ⟨j, q, msg⟩ := by
  cases c <;> simp [Fiber.In, hctx] at h ⊢
  exact h

theorem Fiber.In.timed {d : Timespec} (h : f.In asked c) (hctx : f.ctx = .request (.timed d)) :
    ∃ j q msg t, c = .requestTimeout j q msg t ∧ asked f.waitReqId = some ⟨j, q, msg⟩ := by
  cases c <;> simp [Fiber.In, hctx] at h ⊢
  exact h

theorem Fiber.In.waitReply {g : Bool} (h : f.In asked c) (hctx : f.ctx = .waitReply g) :
    c = .waitReply ∨ c = .gather ∨ c = .gatherNext := by
  cases c <;> simp [Fiber.In, hctx] at h ⊢

theorem Fiber.In.keep {f' : Fiber} {asked' : Nat → Option Ask} (h : f.In asked c) (hctx : f'.ctx = f.ctx)
    (hid : f'.waitReqId = f.waitReqId) (hasked : ∀ r q, asked r = some q → asked' r = some q) : f'.In asked' c := by
  cases c <;> simp only [Fiber.In, hctx, hid] at h ⊢
  · exact h.imp id (hasked _ _)
  · exact h.imp id (hasked _ _)
  all_goals exact h

theorem Fiber.In.waitTimeout (h : f.In asked c) (hctx : f.ctx = .waitTimeout) : ∃ t, c = .waitTimeout t := by
  cases c <;> simp [Fiber.In, hctx] at h ⊢

end In

/-- The fiber `a` of module `i` was started for the request. -/
def Module.Serves (m : Module) (i : Nat) (a : FiberRef) (ask : Ask) : Prop :=
  ∃ e, .arrived e ∈ m.trace ∧ e.type = .start ∧ .started a e.requester e.reqId e.serial ∈ m.trace ∧
    ask = ⟨i, e.seqIdx, e.msg⟩

theorem Module.Serves.grows {m m' : Module} {i : Nat} {a : FiberRef} {ask : Ask} (h : m.Serves i a ask)
    (hgrow : ∃ xs, m'.trace = m.trace ++ xs) : m'.Serves i a ask := by
  obtain ⟨xs, hxs⟩ := hgrow
  obtain ⟨e, harrived, htype, hstarted, hask⟩ := h
  rw [Module.Serves, hxs]
  exact ⟨e, List.mem_append_left _ harrived, htype, List.mem_append_left _ hstarted, hask⟩

/-- What the code knows of the fiber `a` of module `i` is so. -/
structure Local.Fits (g : Local) (asked : Nat → Nat → Option Ask) (m : Module) (i : Nat) (a : FiberRef) : Prop where
  self : g.self = (i, (m.fiber a).fn)
  owed : ∀ ask, g.owed = some ask → m.hasReplied a = false ∧ m.Serves i a ask ∧
    ∀ j, (m.fiber a).replyTo = .module j → asked j (m.fiber a).replyReqId = some ask
  settled : g.owed = none → m.hasReplied a = true ∨ (m.fiber a).fn = .recvNotify
  nodup : (g.asks.map Prod.fst).Nodup
  open_iff : ∀ r, r ∈ g.asks.map Prod.fst ↔ r ∈ asyncIds a m.trace ∧ r ∉ deliveries a m.trace
  asked : ∀ x ∈ g.asks, asked i x.1 = some x.2

section Fits

variable {g : Local} {asked asked' : Nat → Nat → Option Ask} {m m' : Module} {i : Nat} {a : FiberRef}

/-- A step that concerns neither the replies of the fiber nor its asynchronous requests. -/
theorem Local.Fits.keep (h : g.Fits asked m i a) (hasked : ∀ j r q, asked j r = some q → asked' j r = some q)
    (hkin : (m.fiber a).Kin (m'.fiber a)) (hgrow : ∃ xs, m'.trace = m.trace ++ xs)
    (hreplied : m'.hasReplied a = m.hasReplied a) (hids : asyncIds a m'.trace = asyncIds a m.trace)
    (hdel : deliveries a m'.trace = deliveries a m.trace) : g.Fits asked' m' i a where
  self := hkin.fn ▸ h.self
  owed ask hask := by
    rw [hreplied, hkin.replyTo, hkin.replyReqId]
    exact (h.owed ask hask).imp id fun ⟨hserves, hto⟩ => ⟨hserves.grows hgrow, fun j hj => hasked _ _ _ (hto j hj)⟩
  settled hnone := by
    rw [hreplied, hkin.fn]
    exact h.settled hnone
  nodup := h.nodup
  open_iff r := by rw [hids, hdel]; exact h.open_iff r
  asked x hx := hasked _ _ _ (h.asked x hx)

end Fits

/-! ### Lines that concern a fiber -/

/-- A reply of the fiber, an asynchronous request of it or the return of one. -/
def Obs.Concerns (a : FiberRef) (x : Obs) : Prop :=
  x.repliedBy a = true ∨ x.asyncIssue a ≠ none ∨ x.delivery a ≠ none

section Lines

variable {m m' : Module} {a b : FiberRef} {xs : List Obs}

theorem unconcerned (htrace : m'.trace = m.trace ++ xs) (hxs : ∀ x ∈ xs, ¬x.Concerns b) :
    m'.hasReplied b = m.hasReplied b ∧ asyncIds b m'.trace = asyncIds b m.trace ∧
      deliveries b m'.trace = deliveries b m.trace := by
  simp only [Obs.Concerns, not_or, not_not, Bool.not_eq_true] at hxs
  refine ⟨?_, ?_, ?_⟩
  · have hnone : xs.any (Obs.repliedBy b) = false := List.any_eq_false.mpr fun x hx => by simp [(hxs x hx).1]
    rw [Module.hasReplied, htrace, List.any_append, hnone, Bool.or_false]
    rfl
  · have hnil : asyncIds b xs = [] := List.filterMap_eq_nil_iff.mpr fun x hx => (hxs x hx).2.1
    rw [htrace, asyncIds_append, hnil, List.append_nil]
  · have hnil : deliveries b xs = [] := List.filterMap_eq_nil_iff.mpr fun x hx => (hxs x hx).2.2
    rw [htrace, deliveries_append, hnil, List.append_nil]

/-- The fiber that a line is about, if it can concern one. -/
def Obs.party : Obs → Option FiberRef
  | .issued f _ _ _ _ | .returned f _ _ _ _ _ _ | .replied f _ _ _ _ => some f
  | _ => none

theorem concerns_party {x : Obs} (h : x.Concerns b) : x.party = some b := by
  cases x with
  | issued f kind =>
      cases kind <;> simp [Obs.Concerns, Obs.repliedBy, Obs.asyncIssue, Obs.delivery, Obs.party] at h ⊢
      exact h
  | returned f kind =>
      cases kind <;> simp [Obs.Concerns, Obs.repliedBy, Obs.asyncIssue, Obs.delivery, Obs.party] at h ⊢
      exact h
  | replied f =>
      simp [Obs.Concerns, Obs.repliedBy, Obs.asyncIssue, Obs.delivery, Obs.party] at h ⊢
      exact h
  | _ => simp [Obs.Concerns, Obs.repliedBy, Obs.asyncIssue, Obs.delivery] at h

theorem Obs.unconcerned {x : Obs} (h : x.party = none) : ¬x.Concerns b := by
  intro hconcerns
  cases h.symm.trans (concerns_party hconcerns)

/-- A line that is about no fiber. -/
theorem Obs.unconcerned_one {x : Obs} (h : x.party = none) : ∀ y ∈ [x], ¬y.Concerns b := by
  intro y hy
  obtain rfl := List.mem_singleton.mp hy
  exact Obs.unconcerned h

theorem wakeObs_party {f : Fiber} {why : Wake} : ∀ x ∈ f.wakeObs a why, x.party = none ∨ x.party = some a := by
  intro x hx
  rcases Fiber.wakeObs_mem hx with rfl | ⟨_, _, rfl⟩
  · exact .inl rfl
  · exact .inr rfl

theorem issueObs_party {kind : ReqKind} {j q : Nat} {ok : Alloc} :
    ∀ x ∈ issueObs m a kind j q ok, x.party = none ∨ x.party = some a := by
  intro x hx
  rcases issueObs_mem hx with rfl | rfl
  · exact .inr rfl
  · exact .inl rfl

theorem LocalCall.party {now : Timespec} {ok : Alloc} {c : Call} {f : Fiber} {obs : List Obs}
    {cur : Option FiberRef} {eff : Effect} (h : LocalCall m a now ok c f obs cur eff) :
    ∀ x ∈ obs, x.party = none ∨ x.party = some a := by
  have henters : ∀ {f₁ : Fiber} {obs₁ : List Obs} {g : Bool}, EnterWait (m.fiber a) a c f₁ obs₁ g →
      ∀ x ∈ obs₁, x.party = none := by
    intro f₁ obs₁ g henter x hx
    obtain rfl := henter.mem hx
    rfl
  cases h with
  | null henter _ _ hnull =>
      refine fun x hx => .inl ((List.mem_append.mp hx).elim (henters henter x) fun hx => ?_)
      rcases hnull.mem hx with rfl | ⟨_, rfl⟩ <;> rfl
  | queued henter _ =>
      refine fun x hx => (List.mem_append.mp hx).imp (henters henter x) fun hx => ?_
      obtain rfl := List.mem_singleton.mp hx
      rfl
  | park henter _ _ => exact fun x hx => .inl (henters henter x hx)
  | reply => simp [Obs.party]
  | registered => simp [Obs.party]
  | unregistered => simp [Obs.party]
  | notified => simp [Obs.party]
  | _ => simp

/-- A move leaves lines about the fiber that runs before or after it. -/
theorem Move.party {act : ModAct} {eff : Effect} (hmove : Move m act eff m') :
    ∃ xs, m'.trace = m.trace ++ xs ∧
      ∀ x ∈ xs, ∀ b, x.party = some b → m.current = some b ∨ m'.current = some b := by
  have hnil : ∃ xs, m.trace = m.trace ++ xs ∧
      ∀ x ∈ xs, ∀ b, x.party = some b → m.current = some b ∨ m'.current = some b :=
    ⟨[], (List.append_nil _).symm, fun _ hx => absurd hx List.not_mem_nil⟩
  have hactor : ∀ {xs : List Obs} {a : FiberRef}, (∀ x ∈ xs, x.party = none ∨ x.party = some a) →
      m.current = some a ∨ m'.current = some a →
      ∀ x ∈ xs, ∀ b, x.party = some b → m.current = some b ∨ m'.current = some b := by
    intro xs a hxs ha x hx b hb
    rcases hxs x hx with hnone | hsome
    · rw [hnone] at hb
      cases hb
    · obtain rfl := Option.some.inj (hsome.symm.trans hb)
      exact ha
  cases hmove with
  | fire => exact ⟨_, rfl, hactor wakeObs_party (.inr rfl)⟩
  | expire => exact ⟨_, rfl, hactor wakeObs_party (.inr rfl)⟩
  | wake => exact ⟨_, rfl, hactor wakeObs_party (.inr rfl)⟩
  | drop _ _ _ hdrop =>
      refine ⟨_, rfl, fun x hx b hb => ?_⟩
      rcases hdrop.mem hx with rfl | rfl <;> cases hb
  | @begin _ _ e =>
      refine ⟨_, rfl, fun x hx b hb => ?_⟩
      obtain rfl := List.mem_singleton.mp hx
      unfold Ev.beginObs at hb
      split at hb <;> cases hb
  | issue hcur => exact ⟨_, rfl, hactor issueObs_party (.inl hcur)⟩
  | «local» hcur hcall => exact ⟨_, rfl, hactor hcall.party (.inl hcur)⟩
  | undefined => exact ⟨_, rfl, by simp [Obs.party]⟩
  | lose => exact ⟨_, rfl, by simp [Obs.party]⟩
  | lock => exact ⟨_, rfl, by simp [Obs.party]⟩
  | unlock => exact ⟨_, rfl, by simp [Obs.party]⟩
  | ret => exact ⟨_, rfl, by simp [Obs.party]⟩
  | _ => exact hnil

end Lines

/-- The requests of the history were made by fibers that there have been. -/
def IssuedBorn (m : Module) : Prop := ∀ a kind r j q, .issued a kind r j q ∈ m.trace → a < m.nextFiber

theorem issued_born {ok : Sys → Act → Prop} {tbl : List Reg} {s : Sys} (hrun : Reaches ok tbl s) (i : Nat) :
    IssuedBorn (s.module i) := by
  refine (module_invariant (G := fun _ _ => True) (P := fun m => Modes m ∧ IssuedBorn m) hrun
    (fun _ _ _ _ _ _ => trivial) (fun i reg => ⟨Modes.boot i reg, fun a kind r j q hx => absurd hx List.not_mem_nil⟩)
    (fun m act eff m' h _ hmove => ⟨h.1.move hmove, fun a kind r j q hx => ?_⟩)
    (fun m e h => ⟨h.1.enqueue e, fun a kind r j q hx => ?_⟩) i).2
  · have hgrow := hmove.nextFiber_le
    rcases hmove.issued_cases hx with hold | ⟨_, _, _, _, _, -, -, hcur, -⟩
    · exact Nat.lt_of_lt_of_le (h.2 a kind r j q hold) hgrow
    · exact Nat.lt_of_lt_of_le (h.1.born a (h.1.running a hcur).1) hgrow
  · rcases List.mem_append.mp hx with hx | hx
    · exact h.2 a kind r j q hx
    · cases List.mem_singleton.mp hx

/-! ### One fiber in a step of its module -/

/-- The reply is one that the terms allow for the request of module `i` with this id. -/
def Terms.Promised (T : Terms) (asked : Nat → Nat → Option Ask) (i rid : Nat) (r : Result) (msg : Bytes) : Prop :=
  ∃ ask, asked i rid = some ask ∧ T.meets ask r msg

/-- The fiber stands where its code says, and its code is verified from there. -/
structure Stands {Label : Type*} (T : Terms) (inv : Label → Local → Prop) (asked : Nat → Nat → Option Ask) (m : Module)
    (i : Nat) (a : FiberRef) (st : SeqState Label) : Prop where
  safe : ∃ g : Local, g.Fits asked m i a ∧ st.Safe T.contract inv g
  running : m.current = some a → ∃ code, st = .ready code
  parked : m.current ≠ some a → ∃ c k, st = .within c k ∧ (m.fiber a).In (asked i) c

theorem mem_ids_erase {l : List (Nat × Ask)} {x : Nat × Ask} (hnodup : (l.map Prod.fst).Nodup) (hx : x ∈ l) (r : Nat) :
    r ∈ (l.erase x).map Prod.fst ↔ r ∈ l.map Prod.fst ∧ r ≠ x.1 := by
  have hl : l.Nodup := .of_map _ hnodup
  simp only [List.mem_map, hl.mem_erase_iff]
  constructor
  · rintro ⟨y, ⟨hne, hy⟩, rfl⟩
    exact ⟨⟨y, hy, rfl⟩, fun heq => hne (List.inj_on_of_nodup_map hnodup hy hx heq)⟩
  · rintro ⟨⟨y, hy, rfl⟩, hne⟩
    exact ⟨y, ⟨fun heq => hne (congrArg Prod.fst heq), hy⟩, rfl⟩

section Fiber

variable {Label : Type*} {T : Terms} {inv : Label → Local → Prop} {asked asked' : Nat → Nat → Option Ask}
  {m m' : Module} {i : Nat} {a : FiberRef} {st : SeqState Label} {act : ModAct} {eff : Effect} {now : Timespec}
  {ok : Alloc} {f : Fiber} {why : Wake} {g : Local}

/-- A fiber that collects a reply has asked for it and is owed it no longer. -/
theorem Local.Fits.collects (h : g.Fits asked m i a) (hledger : Ledger m') (hkin : (m.fiber a).Kin (m'.fiber a))
    {ys : List Obs} {gth : Bool} {rid : Nat} {r : Result} {msg : Bytes}
    (htrace : m'.trace = (m.trace ++ ys) ++ [.returned a .async why gth rid r msg])
    (hys : ∀ x ∈ ys, ¬x.Concerns a) :
    ∃ x ∈ g.asks, x.1 = rid ∧ ({ g with asks := g.asks.erase x } : Local).Fits asked m' i a := by
  set m₁ : Module := { m with trace := m.trace ++ ys }
  have htrace₁ : m₁.trace = m.trace ++ ys := rfl
  obtain ⟨hreplied, hids, hdel⟩ := unconcerned htrace₁ hys
  obtain ⟨hissued, hopen⟩ := hledger.last_delivery htrace
  have hids' : asyncIds a m'.trace = asyncIds a m.trace := by
    rw [htrace, asyncIds_append]
    exact (List.append_nil _).trans hids
  have hdel' : deliveries a m'.trace = deliveries a m.trace ++ [rid] := by
    rw [htrace, deliveries_append]
    refine congrArg₂ (· ++ ·) hdel ?_
    simp [deliveries, Obs.delivery]
  have hreplied' : m'.hasReplied a = m.hasReplied a := by
    rw [← hreplied, Module.hasReplied, htrace, List.any_append]
    exact Bool.or_false _
  obtain ⟨x, hx, rfl⟩ := List.mem_map.mp ((h.open_iff rid).mpr ⟨hids ▸ hissued, hdel ▸ hopen⟩)
  refine ⟨x, hx, rfl, ?_⟩
  refine ⟨hkin.fn ▸ h.self, fun ask hask => ?_, fun hnone => ?_, ?_, fun r => ?_, fun y hy => ?_⟩
  · rw [hreplied', hkin.replyTo, hkin.replyReqId]
    exact (h.owed ask hask).imp id (And.imp_left fun hserves => hserves.grows ⟨_, htrace.trans (List.append_assoc ..)⟩)
  · rw [hreplied', hkin.fn]
    exact h.settled hnone
  · exact h.nodup.sublist (List.erase_sublist.map Prod.fst)
  · rw [mem_ids_erase h.nodup hx, h.open_iff, hids', hdel']
    simp only [List.mem_append, List.mem_singleton]
    tauto
  · exact h.asked y (List.mem_of_mem_erase hy)

/-- A fiber that goes on from a blocking request or a timer. -/
theorem Local.Fits.goes_on (h : g.Fits asked m i a) (hkin : (m.fiber a).Kin (m'.fiber a))
    (htrace : m'.trace = m.trace ++ f.wakeObs a why)
    (hctx : f.ctx = .request .request ∨ (∃ d, f.ctx = .request (.timed d)) ∨ f.ctx = .waitTimeout) :
    g.Fits asked m' i a := by
  have hxs : ∀ x ∈ f.wakeObs a why, ¬x.Concerns a := by
    intro x hx
    unfold Fiber.wakeObs at hx
    rcases hctx with hctx | ⟨d, hctx⟩ | hctx <;> rw [hctx] at hx
    · rcases List.mem_pair.mp hx with rfl | rfl <;> simp [Obs.Concerns, Obs.repliedBy, Obs.asyncIssue, Obs.delivery]
    · rcases List.mem_pair.mp hx with rfl | rfl <;> simp [Obs.Concerns, Obs.repliedBy, Obs.asyncIssue, Obs.delivery]
    · obtain rfl := List.mem_singleton.mp hx
      simp [Obs.Concerns, Obs.repliedBy, Obs.asyncIssue, Obs.delivery]
  obtain ⟨hreplied, hids, hdel⟩ := unconcerned htrace hxs
  exact h.keep (fun _ _ _ => id) hkin ⟨_, htrace⟩ hreplied hids hdel

/-- A parked fiber stands where it stood while others run. -/
theorem Stands.stays (h : Stands T inv asked m i a st) (hmove : Move m act eff m') (hmodes : Modes m)
    (halive : a ∈ m.fibers) (hdone : (m.fiber a).done = false) (hparked : m.current ≠ some a)
    (hnot : m'.current ≠ some a) (hasked : ∀ j r q, asked j r = some q → asked' j r = some q) :
    Stands T inv asked' m' i a st := by
  obtain ⟨xs, htrace, hxs⟩ := hmove.party
  obtain ⟨hreplied, hids, hdel⟩ := unconcerned (b := a) htrace fun x hx hconcerns =>
    (hxs x hx a (concerns_party hconcerns)).elim hparked hnot
  obtain ⟨g, hfits, hsafe⟩ := h.safe
  have hkin := hmove.kin a (hmodes.born a halive)
  refine ⟨⟨g, hfits.keep hasked hkin ⟨_, htrace⟩ hreplied hids hdel, hsafe⟩, fun hcur => absurd hcur hnot, fun _ => ?_⟩
  obtain ⟨c, k, hst, hin⟩ := h.parked hparked
  have hsame : (m'.fiber a).ctx = (m.fiber a).ctx ∧ (m'.fiber a).waitReqId = (m.fiber a).waitReqId := by
    rcases (hmove.parked hmodes halive hdone hparked hnot).2 with heq | ⟨_, _, _, _, _, _, _, _, _, _, heq⟩
    · rw [heq]
      exact ⟨rfl, rfl⟩
    · rw [heq]
      exact ⟨rfl, rfl⟩
  exact ⟨c, k, hst, hin.keep hsame.1 hsame.2 (hasked i)⟩

/-- A step that does not concern the fiber. -/
theorem Stands.frame {xs : List Obs} (h : Stands T inv asked m i a st)
    (hasked : ∀ j r q, asked j r = some q → asked' j r = some q) (hfiber : m'.fiber a = m.fiber a)
    (hcur : m'.current = m.current) (htrace : m'.trace = m.trace ++ xs) (hxs : ∀ x ∈ xs, ¬x.Concerns a) :
    Stands T inv asked' m' i a st := by
  obtain ⟨g, hfits, hsafe⟩ := h.safe
  obtain ⟨hreplied, hids, hdel⟩ := unconcerned htrace hxs
  have hkin : (m.fiber a).Kin (m'.fiber a) := hfiber ▸ .refl _
  refine ⟨⟨g, hfits.keep hasked hkin ⟨_, htrace⟩ hreplied hids hdel, hsafe⟩, ?_, ?_⟩
  · rw [hcur]
    exact h.running
  · rw [hcur]
    intro hparked
    obtain ⟨c, k, hst, hin⟩ := h.parked hparked
    exact ⟨c, k, hst, hin.keep (congrArg Fiber.ctx hfiber) (congrArg Fiber.waitReqId hfiber) (hasked i)⟩

theorem Stands.mono (h : Stands T inv asked m i a st) (hasked : ∀ j r q, asked j r = some q → asked' j r = some q) :
    Stands T inv asked' m i a st :=
  h.frame hasked rfl rfl (List.append_nil _).symm fun _ hx => absurd hx List.not_mem_nil

/-- What `coseq_wait_reply` promises when it hands out a reply. -/
theorem Terms.collect_post {c : Call} {ans : Answer} {x : Nat × Ask} (T : Terms)
    (hc : c = .waitReply ∨ c = .gather ∨ c = .gatherNext) (hx : x ∈ g.asks) (hvalue : ans.value = some 0)
    (hid : ans.src.reqId = x.1) (hmeets : T.meets x.2 ans.src.result ans.msg) :
    T.contract.post g c ans { g with asks := g.asks.erase x } := by
  rcases hc with rfl | rfl | rfl <;> exact .inr ⟨x, hx, hvalue, hid, hmeets, rfl⟩

/-- A parked fiber goes on when its call returns as the contract says. -/
theorem Stands.goes_on {c : Call} {k : Answer → SeqCode Label} {g' : Local} {ans : Answer}
    (hsafe : (Coroutine.State.within c k).Safe T.contract inv g) (hpost : T.contract.post g c ans g')
    (hfits : g'.Fits asked m' i a) (hcur : m'.current = some a) :
    Stands T inv asked m' i a ((Coroutine.State.within c k : SeqState Label).answer ans) :=
  ⟨⟨g', hfits, hsafe.answered hpost⟩, fun _ => ⟨_, rfl⟩, fun hne => absurd hcur hne⟩

/-- A reply, a timer or a deadline wakes the fiber up with what its call promises. -/
theorem Stands.resumes (h : Stands T inv asked m i a st) (hmove : Move m (.sched now ok) eff m') (hmodes : Modes m)
    (hledger : Ledger m') (hok : ok.Succeeds) (halive : a ∈ m.fibers) (hdone : (m.fiber a).done = false)
    (hcur : m'.current = some a)
    (hpromised : ∀ e ∈ m.queue, e.type = .reply → T.Promised asked i e.reqId e.result e.msg) :
    Stands T inv asked m' i a (st.answer (m'.answer a (some 0))) := by
  have hkin := hmove.kin a (hmodes.born a halive)
  have hidle : m.current = none → m.current ≠ some a := fun hnone => by
    rw [hnone]
    exact (Option.some_ne_none a).symm
  obtain ⟨g, hfits, hsafe⟩ := h.safe
  cases hmove with
  | @fire _ _ _ a _ hnone _ _ htimer _ hreply =>
      obtain rfl := Option.some.inj hcur
      obtain ⟨c, k, rfl, hin⟩ := h.parked (hidle hnone)
      have hctx := (hmodes.parked a halive (hidle hnone) hdone).of_timer htimer hreply
      obtain ⟨t, rfl⟩ := hin.waitTimeout hctx
      exact goes_on hsafe rfl (hfits.goes_on hkin rfl (.inr (.inr hctx))) rfl
  | @expire _ _ _ a _ hnone _ _ htimer _ hreply =>
      obtain rfl := Option.some.inj hcur
      obtain ⟨c, k, rfl, hin⟩ := h.parked (hidle hnone)
      have hctx := (hmodes.parked a halive (hidle hnone) hdone).of_deadline htimer hreply
      obtain ⟨j, q, msg, t, rfl, -⟩ := hin.timed hctx
      refine goes_on hsafe ⟨.inr ⟨?_, ?_⟩, rfl⟩ (hfits.goes_on hkin rfl (.inr (.inl ⟨_, hctx⟩))) rfl
      · simp only [Module.answer, Module.resumed, Function.update_self]
        rfl
      · simp only [Module.answer, Module.resumed, Function.update_self]
        exact Fiber.timedOut_message (m.fiber a) ok
  | @wake _ _ e rest a hnone hhead _ htype _ _ hwait =>
      obtain rfl := Option.some.inj hcur
      obtain ⟨c, k, rfl, hin⟩ := h.parked (hidle hnone)
      have hmem : e ∈ m.queue := by
        rw [Module.queue, hhead.batch]
        simp
      obtain ⟨ask, hask, hmeets⟩ := hpromised e hmem htype
      have hmsg : ((m.fiber a).answered e ok).message = e.msg := Fiber.setSrc_message (hok .srcBuf)
      have hans : (Module.resumed { m with batch := rest, pending := pendingTake m.pending e.reqId } a
          ((m.fiber a).answered e ok) .reply).answer a (some 0) =
          ⟨((m.fiber a).answered e ok).src, e.msg, some 0⟩ := by
        rw [← hmsg]
        simp only [Module.answer, Module.resumed, Function.update_self]
        rfl
      rw [hans]
      cases hmodes.parked a halive (hidle hnone) hdone with
      | request hctx hreply _ hany =>
          obtain ⟨j, q, msg, rfl, hasked⟩ := hin.request hctx
          have hid : (m.fiber a).waitReqId = e.reqId :=
            (hwait.resolve_right (by rw [hany]; exact Bool.false_ne_true)).2
          obtain rfl := Option.some.inj (hasked.symm.trans (hid ▸ hask))
          exact goes_on hsafe ⟨hmeets, rfl⟩ (hfits.goes_on hkin rfl (.inl hctx)) rfl
      | timed hctx _ hreply _ hany =>
          obtain ⟨j, q, msg, t, rfl, hasked⟩ := hin.timed hctx
          have hid : (m.fiber a).waitReqId = e.reqId :=
            (hwait.resolve_right (by rw [hany]; exact Bool.false_ne_true)).2
          obtain rfl := Option.some.inj (hasked.symm.trans (hid ▸ hask))
          exact goes_on hsafe ⟨.inl hmeets, rfl⟩ (hfits.goes_on hkin rfl (.inr (.inl ⟨_, hctx⟩))) rfl
      | @waitReply gth hctx _ _ _ _ _ =>
          have hctx' : ((m.fiber a).answered e ok).ctx = .waitReply gth := hctx
          have hobs : ((m.fiber a).answered e ok).wakeObs a .reply =
              [.resumed a .reply] ++ [.returned a .async .reply gth e.reqId e.result e.msg] := by
            rw [← hmsg, Fiber.wakeObs, hctx']
            rfl
          have htrace : (Module.resumed { m with batch := rest, pending := pendingTake m.pending e.reqId } a
              ((m.fiber a).answered e ok) .reply).trace =
              (m.trace ++ [.resumed a .reply]) ++ [.returned a .async .reply gth e.reqId e.result e.msg] := by
            rw [List.append_assoc, ← hobs]
            rfl
          obtain ⟨x, hx, hid, hfits'⟩ := hfits.collects hledger hkin htrace (Obs.unconcerned_one rfl)
          have hxask := (hfits.asked x hx).symm.trans (hid ▸ hask)
          have hxmeets : T.meets x.2 e.result e.msg := Option.some.inj hxask ▸ hmeets
          exact goes_on hsafe (T.collect_post (hin.waitReply hctx) hx rfl hid.symm hxmeets) hfits' rfl
      | waitTimeout _ hreply _ hany =>
          rw [hreply, hany] at hwait
          simp at hwait
  | begin =>
      obtain rfl := Option.some.inj hcur
      exact absurd (hmodes.born _ halive) (Nat.lt_irrefl _)
  | _ => exact absurd hcur (hidle ‹_›)

/-- A fiber that is not made yet has no line in the history. -/
theorem unborn_lines (haddr : Addressed m) (hborn : IssuedBorn m) :
    m.hasReplied m.nextFiber = false ∧ asyncIds m.nextFiber m.trace = [] := by
  refine ⟨List.any_eq_false.mpr (List.countP_eq_zero.mp (haddr.unborn (Nat.le_refl _))), ?_⟩
  refine List.filterMap_eq_nil_iff.mpr fun x hx => Option.eq_none_iff_forall_ne_some.mpr fun r hr => ?_
  have hparty : x.party = some m.nextFiber := concerns_party (.inr (.inl (by rw [hr]; exact Option.some_ne_none r)))
  cases x with
  | issued f kind rid j q =>
      obtain rfl : f = m.nextFiber := Option.some.inj hparty
      exact absurd (hborn _ kind rid j q hx) (Nat.lt_irrefl _)
  | _ => cases hr

theorem beginObs_concerns {e : Ev} {b : FiberRef} : ∀ x ∈ [e.beginObs a], ¬x.Concerns b := by
  refine Obs.unconcerned_one ?_
  unfold Ev.beginObs
  split <;> rfl

/-- What is known of a fiber made from the event `e`. -/
theorem Local.Fits.begins {e : Ev} (htype : e.type ≠ .reply) (hfiber : m.fiber a = e.fiber ok)
    (harrived : .arrived e ∈ m.trace) (hbegun : e.beginObs a ∈ m.trace) (hsilent : m.hasReplied a = false)
    (hids : asyncIds a m.trace = [])
    (hstart : e.type = .start → ∀ j, e.requester = .module j → asked j e.reqId = some ⟨i, e.seqIdx, e.msg⟩) :
    (Terms.begins i e.msg (e.fiber ok).fn).Fits asked m i a := by
  have hopen : ∀ r, r ∈ ([] : List (Nat × Ask)).map Prod.fst ↔ r ∈ asyncIds a m.trace ∧ r ∉ deliveries a m.trace := by
    intro r
    rw [hids]
    simp
  cases hcase : e.type with
  | reply => exact absurd hcase htype
  | start =>
      have hrecord : e.fiber ok =
          freshFiber (.seq e.seqIdx) e.seqIdx e.requester e.reqId e.msg .ignore e.requester.u8 0 ok := by
        rw [Ev.fiber, hcase]
      rw [hrecord] at hfiber ⊢
      rw [Ev.beginObs, hcase] at hbegun
      refine ⟨?_, fun ask hask => ⟨hsilent, ⟨e, harrived, hcase, hbegun, ?_⟩, fun j hj => ?_⟩,
        fun hnone => absurd hnone (Option.some_ne_none _), List.nodup_nil, hopen,
        fun _ hx => absurd hx List.not_mem_nil⟩
      · rw [hfiber]
        rfl
      · exact (Option.some.inj hask).symm
      · obtain rfl := Option.some.inj hask
        rw [hfiber] at hj ⊢
        exact hstart hcase j hj
  | notify =>
      have hrecord : e.fiber ok = freshFiber .recvNotify 0 .external 0 e.msg .success e.requester.u8 e.clientId ok := by
        rw [Ev.fiber, hcase]
      rw [hrecord] at hfiber ⊢
      refine ⟨?_, fun ask hask => absurd hask.symm (Option.some_ne_none ask), fun _ => .inr ?_,
        List.nodup_nil, hopen, fun _ hx => absurd hx List.not_mem_nil⟩
      · rw [hfiber]
        rfl
      · rw [hfiber]
        rfl

/-- A new fiber stands at the entry of its code. -/
theorem Stands.begins {app : App Label} (hkeeps : app.Keeps T inv) (hmove : Move m (.sched now ok) eff m')
    (hok : ok.Succeeds) (haddr : Addressed m) (hborn : IssuedBorn m) (hexists : ∀ q < m.nrSeq, T.Exists i q)
    (harrived : ∀ e ∈ m.queue, .arrived e ∈ m.trace)
    (hstart : ∀ e ∈ m.queue, e.type = .start → ∀ j, e.requester = .module j →
      asked j e.reqId = some ⟨i, e.seqIdx, e.msg⟩)
    (hmem : a ∈ m'.fibers) (hnew : a ∉ m.fibers) :
    Stands T inv asked m' i a (.ready (app.entry i (m'.fiber a).fn (m'.answer a (some 0)))) := by
  cases hmove with
  | @begin _ _ e rest _ hhead _ htype hseq =>
      obtain rfl : a = m.nextFiber := (List.mem_cons.mp hmem).resolve_right hnew
      have hqueue : e ∈ m.queue := hhead.mem_queue
      obtain ⟨hsilent, hids⟩ := unborn_lines haddr hborn
      set m₁ : Module := { m with
        batch := rest
        nextFiber := m.nextFiber + 1
        fibers := m.nextFiber :: m.fibers
        fiber := Function.update m.fiber m.nextFiber (e.fiber ok)
        current := some m.nextFiber
        trace := m.trace ++ [e.beginObs m.nextFiber] } with hm₁
      have htrace : m₁.trace = m.trace ++ [e.beginObs m.nextFiber] := rfl
      obtain ⟨hreplied, hids', -⟩ := unconcerned htrace beginObs_concerns
      have hfiber : m₁.fiber m.nextFiber = e.fiber ok := Function.update_self ..
      have hmsg : (e.fiber ok).message = e.msg := by
        unfold Ev.fiber
        cases e.type <;> exact Fiber.setSrc_message (hok .srcBuf)
      have hans : m₁.answer m.nextFiber (some 0) = ⟨(e.fiber ok).src, e.msg, some 0⟩ := by
        rw [Module.answer, hfiber, hmsg]
      have hfn : ∀ q, (e.fiber ok).fn = .seq q → T.Exists i q := by
        intro q hq
        unfold Ev.fiber at hq
        cases hcase : e.type with
        | reply => exact absurd hcase htype
        | start =>
            rw [hcase] at hq
            obtain rfl := Fn.seq.inj hq
            exact hexists _ (hseq hcase)
        | notify =>
            rw [hcase] at hq
            cases hq
      rw [hans, hfiber]
      have hfits : (Terms.begins i e.msg (e.fiber ok).fn).Fits asked m₁ i m.nextFiber :=
        .begins htype hfiber (List.mem_append_left _ (harrived e hqueue))
          (List.mem_append_right _ (List.mem_singleton.mpr rfl)) (hreplied.trans hsilent) (hids'.trans hids)
          (hstart e hqueue)
      exact ⟨⟨_, hfits, hkeeps.entry i (e.fiber ok).fn _ hfn⟩, fun _ => ⟨_, rfl⟩, fun hne => absurd rfl hne⟩
  | reap => exact absurd (List.mem_filter.mp hmem).1 hnew
  | _ => exact absurd hmem hnew

/-! ### The running fiber -/

/-- A request is entered under its id. -/
structure Enters (asked asked' : Nat → Nat → Option Ask) (i r : Nat) (c : Call) : Prop where
  old : ∀ j r q, asked j r = some q → asked' j r = some q
  new : ∀ q, c.ask = some q → asked' i r = some q

theorem EnterWait.unconcerned {f₁ f₂ : Fiber} {c : Call} {obs : List Obs} {gth : Bool} {b : FiberRef}
    (h : EnterWait f₁ a c f₂ obs gth) : ∀ x ∈ obs, ¬x.Concerns b := by
  intro x hx
  obtain rfl := h.mem hx
  exact Obs.unconcerned rfl

section Call

variable {blocks : Label → SeqCode Label} {c : Call} {k : Answer → SeqCode Label} {xs : List Obs}

theorem Call.made_returns (hcur : m'.current = some a) (henter : st.enter blocks = .within c k) :
    c.made blocks m m' a st = (Coroutine.State.within c k : SeqState Label).answer (m'.answer a (c.value m m' a)) := by
  rw [Call.made, if_pos hcur, henter]

theorem Call.made_parks (hcur : m'.current = none) (henter : st.enter blocks = .within c k) :
    c.made blocks m m' a st = .within c k := by
  rw [Call.made, if_neg (by rw [hcur]; exact (Option.some_ne_none a).symm), henter]

/-- A call that leaves no line about the fiber keeps what is known of it. -/
theorem Local.Fits.silent (h : g.Fits asked m i a) (hasked : ∀ j r q, asked j r = some q → asked' j r = some q)
    (hkin : (m.fiber a).Kin (m'.fiber a)) (htrace : m'.trace = m.trace ++ xs) (hxs : ∀ x ∈ xs, ¬x.Concerns a) :
    g.Fits asked' m' i a := by
  obtain ⟨hreplied, hids, hdel⟩ := unconcerned htrace hxs
  exact h.keep hasked hkin ⟨_, htrace⟩ hreplied hids hdel

/-- The fiber asks for one reply more. -/
theorem Local.Fits.asks_more {q : Ask} (h : g.Fits asked m i a) (hledger : Ledger m) (hid : m.reqId = m.nextReqId)
    (henters : ∀ j r q, asked j r = some q → asked' j r = some q) (hnew : asked' i m.reqId = some q)
    (hkin : (m.fiber a).Kin (m'.fiber a)) (hgrow : ∃ xs, m'.trace = m.trace ++ xs)
    (hreplied : m'.hasReplied a = m.hasReplied a) (hids : asyncIds a m'.trace = asyncIds a m.trace ++ [m.reqId])
    (hdel : deliveries a m'.trace = deliveries a m.trace) :
    (∀ x ∈ g.asks, x.1 ≠ m.reqId) ∧
      ({ g with asks := g.asks ++ [(m.reqId, q)] } : Local).Fits asked' m' i a := by
  have hfresh : m.reqId ∉ asyncIds a m.trace := by
    intro hmem
    rw [← dueIds_books] at hmem
    have hlt := hledger.bound _ (Requests.dueIds_sublist.mem hmem)
    rw [hid] at hlt
    exact Nat.lt_irrefl _ hlt
  have hold : ∀ x ∈ g.asks, x.1 ≠ m.reqId := by
    rintro x hx heq
    exact hfresh (heq ▸ ((h.open_iff x.1).mp (List.mem_map_of_mem hx)).1)
  refine ⟨hold, hkin.fn ▸ h.self, fun ask hask => ?_, fun hnone => ?_, ?_, fun r => ?_, fun x hx => ?_⟩
  · rw [hreplied, hkin.replyTo, hkin.replyReqId]
    exact (h.owed ask hask).imp id fun ⟨hserves, hto⟩ => ⟨hserves.grows hgrow, fun j hj => henters _ _ _ (hto j hj)⟩
  · rw [hreplied, hkin.fn]
    exact h.settled hnone
  · rw [List.map_append, List.nodup_append]
    refine ⟨h.nodup, List.nodup_singleton _, fun r hr r' hr' heq => ?_⟩
    obtain ⟨x, hx, rfl⟩ := List.mem_map.mp hr
    obtain rfl := List.mem_singleton.mp hr'
    exact hold x hx heq
  · rw [List.map_append, List.mem_append, h.open_iff, hids, hdel, List.mem_append]
    constructor
    · rintro (⟨hmem, hno⟩ | hr)
      · exact ⟨.inl hmem, hno⟩
      · obtain rfl := List.mem_singleton.mp hr
        exact ⟨.inr (List.mem_singleton.mpr rfl), fun hdel => hfresh (hledger.delivered_issued hdel)⟩
    · rintro ⟨hmem | hr, hno⟩
      · exact .inl ⟨hmem, hno⟩
      · exact .inr hr
  · rcases List.mem_append.mp hx with hx | hx
    · exact henters _ _ _ (h.asked x hx)
    · obtain rfl := List.mem_singleton.mp hx
      exact hnew

/-- A fiber that is stopped inside its call. -/
theorem Stands.stops {g : Local} (hfits : g.Fits asked m i a)
    (hsafe : (Coroutine.State.within c k).Safe T.contract inv g) (hin : (m.fiber a).In (asked i) c)
    (hcur : m.current = none) : Stands T inv asked m i a (.within c k) where
  safe := ⟨g, hfits, hsafe⟩
  running h := by
    rw [hcur] at h
    cases h
  parked _ := ⟨c, k, rfl, hin⟩

theorem issueObs_unconcerned {kind : ReqKind} {j q : Nat} (hkind : kind ≠ .async) :
    ∀ x ∈ issueObs m a kind j q ok, ¬x.Concerns a := by
  intro x hx
  rcases issueObs_mem hx with rfl | rfl
  · cases kind <;> first | exact absurd rfl hkind | simp [Obs.Concerns, Obs.repliedBy, Obs.asyncIssue, Obs.delivery]
  · exact Obs.unconcerned rfl

/-- The running fiber issues a request. -/
theorem Stands.issues {kind : ReqKind} {j q : Nat} {msg : Bytes} {id : Nat} (h : Stands T inv asked m i a st)
    (hblocks : Coroutine.BlocksSafe T.contract inv blocks) (hnext : st.next blocks = some (some c))
    (hmodes : Modes m) (hledger : Ledger m) (hid : m.reqId = m.nextReqId) (henters : Enters asked asked' i m.reqId c)
    (hok : ok.Succeeds) (hcur : m.current = some a) (hissue : Issues now c kind j q msg)
    (hmove : Move m (.call c now id ok) eff m')
    (hfiber : m'.fiber a = (m.fiber a).issued kind m.reqId) (hcur' : m'.current = kind.running a)
    (htrace : m'.trace = m.trace ++ issueObs m a kind j q ok) :
    Stands T inv asked' m' i a (c.made blocks m m' a st) := by
  obtain ⟨g, hfits, hsafe⟩ := h.safe
  obtain ⟨-, k, hst, hwithin⟩ := hsafe.calls hblocks hnext
  have hkin := hmove.kin a (hmodes.born a (hmodes.running a hcur).1)
  cases hissue with
  | request =>
      rw [Call.made_parks hcur' hst]
      refine Stands.stops (hfits.silent henters.old hkin htrace (issueObs_unconcerned (by simp))) hwithin ?_ hcur'
      rw [Fiber.In, hfiber]
      exact ⟨rfl, henters.new _ rfl⟩
  | requestTimeout =>
      rw [Call.made_parks hcur' hst]
      refine Stands.stops (hfits.silent henters.old hkin htrace (issueObs_unconcerned (by simp))) hwithin ?_ hcur'
      rw [Fiber.In, hfiber]
      exact ⟨⟨_, rfl⟩, henters.new _ rfl⟩
  | requestAsync =>
      rw [Call.made_returns hcur' hst]
      have hobs : issueObs m a .async j q ok = [.issued a .async m.reqId j q] := by
        simp [issueObs, hok .pendingEntry]
      rw [hobs] at htrace
      have hreplied : m'.hasReplied a = m.hasReplied a := by
        rw [Module.hasReplied, htrace, List.any_append]
        exact Bool.or_false _
      have hids : asyncIds a m'.trace = asyncIds a m.trace ++ [m.reqId] := by
        rw [htrace, asyncIds_append]
        simp [asyncIds, Obs.asyncIssue]
      have hdel : deliveries a m'.trace = deliveries a m.trace := by
        rw [htrace, deliveries_append]
        exact List.append_nil _
      obtain ⟨hold, hfits'⟩ := hfits.asks_more hledger hid henters.old (henters.new _ rfl) hkin ⟨_, htrace⟩
        hreplied hids hdel
      exact goes_on hwithin ⟨m.reqId, rfl, hold, rfl⟩ hfits' hcur'
  | send =>
      rw [Call.made_returns hcur' hst]
      exact goes_on hwithin rfl (hfits.silent henters.old hkin htrace (issueObs_unconcerned (by simp))) hcur'

/-- The calls that collect a reply. -/
theorem EnterWait.collects {f₁ f₂ : Fiber} {obs : List Obs} {gth : Bool} (h : EnterWait f₁ a c f₂ obs gth) :
    c = .waitReply ∨ c = .gather ∨ c = .gatherNext := by
  cases h with
  | waitReply => exact .inl rfl
  | gather => exact .inr (.inl rfl)
  | gatherNext => exact .inr (.inr rfl)

theorem Call.value_collect (hc : c = .waitReply ∨ c = .gather ∨ c = .gatherNext) :
    c.value m m' a = if (m.fiber a).asyncOutstanding = 0 ∧ (m.fiber a).rq = [] then none else some 0 := by
  rcases hc with rfl | rfl | rfl <;> rfl

/-- What `coseq_wait_reply` promises when it returns `NULL`. -/
theorem Terms.null_post {ans : Answer} (T : Terms) (hc : c = .waitReply ∨ c = .gather ∨ c = .gatherNext)
    (hasks : g.asks = []) (hvalue : ans.value = none) : T.contract.post g c ans g := by
  rcases hc with rfl | rfl | rfl <;> exact .inl ⟨hasks, hvalue, rfl⟩

theorem Fiber.in_collect {gth : Bool} {requests : Nat → Option Ask}
    (hc : c = .waitReply ∨ c = .gather ∨ c = .gatherNext) (hctx : f.ctx = .waitReply gth) : f.In requests c := by
  rcases hc with rfl | rfl | rfl <;> exact ⟨gth, hctx⟩

theorem Local.Fits.none_asked (h : g.Fits asked m i a) (hledger : Ledger m)
    (hout : (m.fiber a).asyncOutstanding = 0) : g.asks = [] := by
  refine List.eq_nil_iff_forall_not_mem.mpr fun x hx => ?_
  obtain ⟨hissued, hopen⟩ := (h.open_iff x.1).mp (List.mem_map_of_mem hx)
  exact hopen (hledger.none_due hout x.1 hissued)

/-- The fiber replies, and owes nothing more. -/
theorem Local.Fits.replies {r : Result} {msg : Bytes} (h : g.Fits asked m i a)
    (hasked : ∀ j r q, asked j r = some q → asked' j r = some q) (hkin : (m.fiber a).Kin (m'.fiber a))
    (htrace : m'.trace = m.trace ++ [.replied a (m.fiber a).replyTo (m.fiber a).replyReqId r msg]) :
    ({ g with owed := none } : Local).Fits asked' m' i a := by
  have hids : asyncIds a m'.trace = asyncIds a m.trace := by
    rw [htrace, asyncIds_append]
    exact List.append_nil _
  have hdel : deliveries a m'.trace = deliveries a m.trace := by
    rw [htrace, deliveries_append]
    exact List.append_nil _
  refine ⟨hkin.fn ▸ h.self, fun _ hask => absurd hask.symm (Option.some_ne_none _), fun _ => .inl ?_, h.nodup,
    fun r => ?_, fun x hx => hasked _ _ _ (h.asked x hx)⟩
  · rw [Module.hasReplied, htrace]
    simp [Obs.repliedBy]
  · rw [hids, hdel]
    exact h.open_iff r

/-- A call that promises nothing and leaves no line about the fiber. -/
theorem Stands.passes (h : Stands T inv asked m i a st) (hblocks : Coroutine.BlocksSafe T.contract inv blocks)
    (hnext : st.next blocks = some (some c)) (hasked : ∀ j r q, asked j r = some q → asked' j r = some q)
    (hkin : (m.fiber a).Kin (m'.fiber a)) (htrace : m'.trace = m.trace ++ xs) (hxs : ∀ x ∈ xs, ¬x.Concerns a)
    (hcur' : m'.current = some a) (hpost : ∀ g ans, T.contract.post g c ans g) :
    Stands T inv asked' m' i a (c.made blocks m m' a st) := by
  obtain ⟨g, hfits, hsafe⟩ := h.safe
  obtain ⟨-, k, hst, hwithin⟩ := hsafe.calls hblocks hnext
  rw [Call.made_returns hcur' hst]
  exact goes_on hwithin (hpost g _) (hfits.silent hasked hkin htrace hxs) hcur'

/-- The running fiber makes a call of its own. -/
theorem Stands.local_call {id : Nat} {obs : List Obs} {cur : Option FiberRef} (h : Stands T inv asked m i a st)
    (hblocks : Coroutine.BlocksSafe T.contract inv blocks) (hnext : st.next blocks = some (some c))
    (hmodes : Modes m) (hledger : Ledger m) (hledger' : Ledger m')
    (hasked : ∀ j r q, asked j r = some q → asked' j r = some q) (hok : ok.Succeeds) (hcur : m.current = some a)
    (hcall : LocalCall m a now ok c f obs cur eff) (hmove : Move m (.call c now id ok) eff m')
    (hfiber : m'.fiber a = f) (hcur' : m'.current = cur) (htrace : m'.trace = m.trace ++ obs)
    (hpromised : ∀ rr ∈ (m.fiber a).rq, T.Promised asked i rr.reqId rr.result rr.msg) :
    Stands T inv asked' m' i a (c.made blocks m m' a st) := by
  obtain ⟨g, hfits, hsafe⟩ := h.safe
  obtain ⟨hpre, k, hst, hwithin⟩ := hsafe.calls hblocks hnext
  have hkin := hmove.kin a (hmodes.born a (hmodes.running a hcur).1)
  have hsilent : (∀ x ∈ obs, ¬x.Concerns a) → g.Fits asked' m' i a := hfits.silent hasked hkin htrace
  have hnil : ∀ x ∈ ([] : List Obs), ¬x.Concerns a := fun _ hx => absurd hx List.not_mem_nil
  cases hcall with
  | null henter hout hrq hnull =>
      rw [Call.made_returns hcur' hst]
      have hsame : (m.fiber a).asyncOutstanding = 0 ∧ (m.fiber a).rq = [] := by
        obtain ⟨_, rfl⟩ := henter.same
        exact ⟨hout, hrq⟩
      have hvalue : c.value m m' a = none := by rw [Call.value_collect henter.collects, if_pos hsame]
      refine goes_on hwithin (T.null_post henter.collects (hfits.none_asked hledger hsame.1) hvalue)
        (hsilent fun x hx => ?_) hcur'
      rcases List.mem_append.mp hx with hx | hx
      · exact henter.unconcerned x hx
      · rcases hnull.mem hx with rfl | ⟨_, rfl⟩ <;> exact Obs.unconcerned rfl
  | @queued _ f₁ obs₁ gth rr rest henter hrq =>
      rw [Call.made_returns hcur' hst]
      have hrecords : (m.fiber a).rq = rr :: rest := by
        obtain ⟨_, rfl⟩ := henter.same
        exact hrq
      have hvalue : c.value m m' a = some 0 := by
        rw [Call.value_collect henter.collects, if_neg fun hno => ?_]
        rw [hrecords] at hno
        cases hno.2
      have hmsg : (f₁.dequeued rr rest ok).message = rr.msg := Fiber.setSrc_message (hok .srcBuf)
      have hans : m'.answer a (c.value m m' a) = ⟨(f₁.dequeued rr rest ok).src, rr.msg, some 0⟩ := by
        rw [Module.answer, hfiber, hmsg, hvalue]
      rw [← List.append_assoc] at htrace
      obtain ⟨x, hx, hid, hfits'⟩ := hfits.collects hledger' hkin htrace henter.unconcerned
      obtain ⟨ask, hask, hmeets⟩ := hpromised rr (by rw [hrecords]; exact List.mem_cons_self)
      have hxask := (hfits.asked x hx).symm.trans (hid ▸ hask)
      have hxmeets : T.meets x.2 rr.result rr.msg := Option.some.inj hxask ▸ hmeets
      rw [hans]
      have hkept : ({ g with asks := g.asks.erase x } : Local).Fits asked' m' i a :=
        hfits'.keep hasked (.refl _) ⟨[], (List.append_nil _).symm⟩ rfl rfl rfl
      exact goes_on hwithin (T.collect_post henter.collects hx rfl hid.symm hxmeets) hkept hcur'
  | park henter _ _ =>
      rw [Call.made_parks hcur' hst]
      refine Stands.stops (hsilent henter.unconcerned) hwithin ?_ hcur'
      rw [hfiber]
      exact Fiber.in_collect henter.collects rfl
  | reply =>
      rw [Call.made_returns hcur' hst]
      exact goes_on hwithin rfl (hfits.replies hasked hkin htrace) hcur'
  | waitTimeout =>
      rw [Call.made_parks hcur' hst]
      refine Stands.stops (hsilent hnil) hwithin ?_ hcur'
      rw [Fiber.In, hfiber]
  | registered =>
      exact h.passes hblocks hnext hasked hkin htrace (Obs.unconcerned_one rfl) hcur' fun _ _ => rfl
  | unregistered =>
      exact h.passes hblocks hnext hasked hkin htrace (Obs.unconcerned_one rfl) hcur' fun _ _ => rfl
  | idle hcall =>
      rcases hcall with ⟨_, rfl⟩ | ⟨_, _, rfl⟩ <;>
        exact h.passes hblocks hnext hasked hkin htrace hnil hcur' fun _ _ => rfl
  | notifying hcall =>
      rcases hcall with rfl | ⟨_, _, rfl⟩ <;>
        exact h.passes hblocks hnext hasked hkin htrace hnil hcur' fun _ _ => rfl
  | notified =>
      exact h.passes hblocks hnext hasked hkin htrace (Obs.unconcerned_one rfl) hcur' fun _ _ => rfl

/-- The running fiber makes the call that comes next in its code. -/
theorem Stands.calls {id : Nat} (h : Stands T inv asked m i a st)
    (hblocks : Coroutine.BlocksSafe T.contract inv blocks) (hnext : st.next blocks = some (some c)) (hret : c ≠ .ret)
    (hmodes : Modes m) (hledger : Ledger m) (hledger' : Ledger m') (hwrap : NoWrap m (.call c now id ok))
    (henters : Enters asked asked' i m.reqId c) (hok : ok.Succeeds) (hcur : m.current = some a)
    (hmove : Move m (.call c now id ok) eff m')
    (hpromised : ∀ rr ∈ (m.fiber a).rq, T.Promised asked i rr.reqId rr.result rr.msg) :
    Stands T inv asked' m' i a (c.made blocks m m' a st) := by
  have hmove' := hmove
  cases hmove with
  | issue hcur₁ hissue =>
      obtain rfl := Option.some.inj (hcur.symm.trans hcur₁)
      exact h.issues hblocks hnext hmodes hledger (hissue.noWrap hwrap) henters hok hcur hissue hmove'
        (Function.update_self ..) rfl rfl
  | «local» hcur₁ hcall =>
      obtain rfl := Option.some.inj (hcur.symm.trans hcur₁)
      exact h.local_call hblocks hnext hmodes hledger hledger' henters.old hok hcur hcall hmove'
        (Function.update_self ..) rfl rfl hpromised
  | lock hcur₁ =>
      obtain rfl := Option.some.inj (hcur.symm.trans hcur₁)
      exact h.passes hblocks hnext henters.old (.refl _) rfl (Obs.unconcerned_one rfl) hcur fun _ _ => rfl
  | unlock hcur₁ =>
      obtain rfl := Option.some.inj (hcur.symm.trans hcur₁)
      exact h.passes hblocks hnext henters.old (.refl _) rfl (Obs.unconcerned_one rfl) hcur fun _ _ => rfl
  | ret => exact absurd rfl hret

end Call

end Fiber

end Coseq
