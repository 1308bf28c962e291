import Coseq.NotifyClients

/-! The client ids of an instance. `next_client_id` steps over `0xff` and starts again at 0, whether the ids
it comes by are still in use or not. Every call of `coseq_reg_notify` that takes an id counts, also one that finds
no memory for its entry: the ids of two calls are the same exactly when a multiple of 255 calls lies between them. -/

namespace Coseq

/-- The id that the next registration takes. -/
def Ctx.takenId (c : Ctx) : Nat := if c.nextClientId = 255 then 0 else c.nextClientId

namespace Sys

variable {s s' : Sys} {act : Act}

/-- The listeners of module `j`. -/
def listeners (s : Sys) (j : Nat) : List NotifyClient := (s.module j).notifyClients

/-- The step takes an id: the running fiber of the module is that of a request of a module. -/
def takesId (s : Sys) : Act → Bool
  | .call i (.regNotify _) _ => (s.module i).current.any fun a => ((s.module i).fiber a).replyTo != .external
  | _ => false

/-- The step makes a registration: it takes an id, and there is memory for the entry. -/
def registers (s : Sys) : Act → Bool
  | .call i (.regNotify _) ok =>
      (s.module i).current.any fun a => ((s.module i).fiber a).replyTo != .external && ok .notifyClient
  | _ => false

/-- What a step does to the listeners of the modules and to the counter. -/
inductive ListenerStep (s : Sys) (act : Act) (s' : Sys) : Prop where
  | same (htakes : s.takesId act = false) (hlisteners : ∀ j, s'.listeners j = s.listeners j)
      (hnext : s'.ctx.nextClientId = s.ctx.nextClientId)
  | spent {i category : Nat} {ok : Alloc} (hact : act = .call i (.regNotify category) ok)
      (htakes : s.takesId act = true) (hok : ok .notifyClient = false)
      (hlisteners : ∀ j, s'.listeners j = s.listeners j)
      (hnext : s'.ctx.nextClientId = s.ctx.takenId + 1)
  | added {i category : Nat} {ok : Alloc} {a : FiberRef} (hact : act = .call i (.regNotify category) ok)
      (hi : i < s.ctx.nrModule) (hcur : (s.module i).current = some a)
      (hlistener : ((s.module i).fiber a).replyTo ≠ .external) (hok : ok .notifyClient = true)
      (hlisteners : ∀ j, s'.listeners j = Function.update s.listeners i
        (⟨category, ((s.module i).fiber a).replyTo, s.ctx.takenId⟩ :: s.listeners i) j)
      (hnext : s'.ctx.nextClientId = s.ctx.takenId + 1)
  | removed {i category cid : Nat} {ok : Alloc} (hact : act = .call i (.unregNotify category cid) ok)
      (hlisteners : ∀ j, s'.listeners j = Function.update s.listeners i
        ((s.listeners i).eraseP fun nc => nc.category == category && nc.clientId == cid) j)
      (hnext : s'.ctx.nextClientId = s.ctx.nextClientId)

section Listener

variable {i category : Nat} {ok : Alloc} {a : FiberRef} (hcur : (s.module i).current = some a)
  (hlistener : ((s.module i).fiber a).replyTo ≠ .external)
include hcur hlistener

theorem takesId_of_listener : s.takesId (.call i (.regNotify category) ok) = true := by
  rw [takesId, hcur, Option.any_some]
  exact bne_iff_ne.mpr hlistener

theorem registers_of_listener (hok : ok .notifyClient = true) :
    s.registers (.call i (.regNotify category) ok) = true := by
  rw [registers, hcur, Option.any_some, hok, Bool.and_true]
  exact bne_iff_ne.mpr hlistener

end Listener

theorem not_registers (h : s.takesId act = false) : s.registers act = false := by
  cases act with
  | call i c ok =>
      cases c with
      | regNotify category =>
          rw [registers]
          rw [takesId] at h
          cases hcur : (s.module i).current with
          | none => rfl
          | some a =>
              rw [hcur, Option.any_some] at h
              rw [Option.any_some, h, Bool.false_and]
      | _ => rfl
  | _ => rfl

theorem spent_registers {i category : Nat} {ok : Alloc} (hok : ok .notifyClient = false) :
    s.registers (.call i (.regNotify category) ok) = false := by
  rw [registers, hok]
  cases (s.module i).current with
  | none => rfl
  | some a => exact Bool.and_false _

theorem effect_counter {c : Ctx} {ok : Alloc} {eff : Effect} (h : ∀ id, eff ≠ .nextClientId id) :
    (c.effect ok eff).nextClientId = c.nextClientId := by
  cases eff with
  | none => rfl
  | post d e =>
      rw [Ctx.effect]
      cases e with
      | none => rfl
      | some e =>
          rw [Ctx.post]
          split <;> rfl
  | extDeliver rid r msg =>
      rw [Ctx.effect, Ctx.extDeliver]
      split <;> rfl
  | nextClientId id => exact absurd rfl (h id)

/-- The listeners after a step of module `i` alone. -/
theorem module_listeners {i : Nat} {m' : Module} {eff : Effect} {ok : Alloc} (j : Nat) :
    (s.after i m' eff ok).listeners j = Function.update s.listeners i m'.notifyClients j := by
  refine (after_field (F := Module.notifyClients) (fun _ _ => rfl) j).trans ?_
  by_cases hij : j = i
  · subst hij
    rw [Function.update_self, Function.update_self]
  · rw [Function.update_of_ne hij, Function.update_of_ne hij]
    rfl

theorem module_listeners_same {i : Nat} {m' : Module} {eff : Effect} {ok : Alloc}
    (hm : m'.notifyClients = s.listeners i) (j : Nat) : (s.after i m' eff ok).listeners j = s.listeners j := by
  rw [module_listeners, hm]
  exact congrFun (Function.update_eq_self i s.listeners) j

theorem regNotify_listeners {i category : Nat} {ok : Alloc}
    (h : s.step (.call i (.regNotify category) ok) = some s') :
    ListenerStep s (.call i (.regNotify category) ok) s' := by
  obtain ⟨hi, m', eff, hstep, rfl⟩ := stepModule_eq h
  obtain ⟨a, hcur, hcall⟩ := Option.bind_eq_some_iff.mp hstep
  obtain ⟨hreg, -⟩ := call_regNotify hcall
  unfold regNotify at hreg
  dsimp only at hreg
  split at hreg
  · obtain ⟨rfl, rfl⟩ := Prod.mk.inj hreg
    rename_i hexternal
    refine .same ?_ (module_listeners_same rfl) rfl
    rw [takesId, hcur, Option.any_some, hexternal]
    rfl
  · rename_i hlistener
    split at hreg
    · rename_i hok
      obtain ⟨rfl, rfl⟩ := Prod.mk.inj hreg
      exact .added rfl hi hcur hlistener hok module_listeners rfl
    · rename_i hok
      obtain ⟨rfl, rfl⟩ := Prod.mk.inj hreg
      exact .spent rfl (takesId_of_listener hcur hlistener) (Bool.eq_false_iff.mpr hok) (module_listeners_same rfl) rfl

/-- A step of a module that is no registration. -/
theorem stepModule_listeners {i : Nat} {mact : ModAct} {ok : Alloc}
    (hreg : ∀ category now id ok, mact ≠ .call (.regNotify category) now id ok)
    (hunreg : ∀ category cid now id ok, mact ≠ .call (.unregNotify category cid) now id ok)
    (h : s.stepModule i mact ok = some s') :
    (∀ j, s'.listeners j = s.listeners j) ∧ s'.ctx.nextClientId = s.ctx.nextClientId := by
  obtain ⟨-, m', eff, hstep, rfl⟩ := stepModule_eq h
  have hquiet : m'.notifyClients = (s.module i).notifyClients ∧ ∀ id, eff ≠ .nextClientId id := by
    by_cases hc : ∃ c now id ok, mact = .call c now id ok ∧ c.OfNotify
    · obtain ⟨c, now, id, ok, rfl, hc⟩ := hc
      obtain ⟨a, hcur, hcall⟩ := Option.bind_eq_some_iff.mp hstep
      cases c with
      | regNotify category => exact absurd rfl (hreg category now id ok)
      | unregNotify category cid => exact absurd rfl (hunreg category cid now id ok)
      | notify category msg =>
          obtain ⟨rfl, rfl, -⟩ := call_notify hcall
          exact ⟨rfl, fun _ h => by cases h⟩
      | notifyNext =>
          obtain ⟨l, -, hnext⟩ := call_notifyNext hcall
          obtain ⟨rfl, rfl⟩ := Prod.mk.inj hnext
          exact ⟨notifyNext_clients, notifyNext_counter⟩
      | _ => exact hc.elim
    · obtain ⟨hclients, heff⟩ := step_unpublished hstep fun c now id ok hact hn => hc ⟨c, now, id, ok, hact, hn⟩
      exact ⟨hclients, heff.counter⟩
  exact ⟨module_listeners_same hquiet.1, effect_counter hquiet.2⟩

/-- A post of an external thread. -/
theorem posted_listeners {threads : Nat → ExtThread} (c : Ctx) (i : Nat) (e : Option Ev)
    (hmodules : c.modules = s.ctx.modules) (hnext : c.nextClientId = s.ctx.nextClientId)
    (htakes : s.takesId act = false) : ListenerStep s act { s with ctx := c.post i e, threads := threads } := by
  refine .same htakes (fun j => ?_) ?_
  · have hpost := (c.post_delivered i e).1
    rw [hmodules] at hpost
    change ((c.post i e).modules j).notifyClients = _
    rw [hpost]
    rcases delivered_apply c.nrModule s.ctx.modules (.post i e) j with heq | ⟨_, -, -, heq⟩ <;> rw [heq] <;> rfl
  · have hcounter : (c.effect (fun _ => true) (.post i e)).nextClientId = c.nextClientId :=
      effect_counter fun _ h => by cases h
    exact hcounter.trans hnext

theorem step_listeners (h : s.step act = some s') : ListenerStep s act s' := by
  cases step_sysMove h with
  | sched hstep =>
      obtain ⟨hl, hn⟩ := stepModule_listeners (by simp) (by simp) hstep
      exact .same rfl hl hn
  | stop hstep =>
      obtain ⟨hl, hn⟩ := stepModule_listeners (by simp) (by simp) hstep
      exact .same rfl hl hn
  | @call i c ok hstep =>
      cases c with
      | regNotify category => exact regNotify_listeners hstep
      | unregNotify category cid =>
          obtain ⟨-, m', eff, hcalled, rfl⟩ := stepModule_eq hstep
          obtain ⟨a, hcur, hcall⟩ := Option.bind_eq_some_iff.mp hcalled
          obtain ⟨rfl, rfl, -⟩ := call_unregNotify hcall
          refine .removed rfl (fun j => (module_listeners j).trans ?_) rfl
          rw [unregNotify_clients]
          rfl
      | _ =>
          obtain ⟨hl, hn⟩ := stepModule_listeners (by simp) (by simp) hstep
          exact .same rfl hl hn
  | tick hs' =>
      subst hs'
      exact .same rfl (fun _ => rfl) rfl
  | @requestSync t i seq msg ok _ hs' =>
      subst hs'
      exact posted_listeners _ i (makeEv .start seq s.ctx.rid .external .ignore msg ok) rfl rfl rfl
  | wakeup _ _ hs' =>
      subst hs'
      exact .same rfl (fun _ => rfl) rfl
  | sleep _ _ hs' =>
      subst hs'
      exact .same rfl (fun _ => rfl) rfl
  | requestAsync _ hs' =>
      subst hs'
      exact .same rfl (fun _ => rfl) rfl
  | @asyncPost t rid i seq msg ok _ hs' =>
      subst hs'
      exact posted_listeners _ i (makeEv .start seq rid .external .ignore msg ok) rfl rfl rfl

/-! ### Distinct ids -/

/-- No two active registrations of the instance have one id. -/
structure UniqueIds (s : Sys) : Prop where
  within : ∀ j, ((s.listeners j).map NotifyClient.clientId).Nodup
  across : ∀ i j, i ≠ j → ∀ x ∈ s.listeners i, ∀ y ∈ s.listeners j, x.clientId ≠ y.clientId

/-- A step takes no id for a registration that an active one has. -/
def TakesFreeId (s : Sys) (act : Act) : Prop :=
  s.registers act = true → ∀ j < s.ctx.nrModule, ∀ x ∈ s.listeners j, x.clientId ≠ s.ctx.takenId

instance (s : Sys) (act : Act) : Decidable (TakesFreeId s act) := inferInstanceAs (Decidable (_ → _))

/-- The ids in use and the counter, in any run. -/
structure Counted (s : Sys) : Prop where
  next : s.ctx.nextClientId ≤ 255
  used : ∀ j, ∀ x ∈ s.listeners j, x.clientId < 255

theorem Counted.taken (h : Counted s) : s.ctx.takenId < 255 := by
  have hnext := h.next
  unfold Ctx.takenId
  split <;> omega

theorem mem_update_cons {α : Type} {i j : Nat} {l : Nat → List α} {x y : α}
    (hx : x ∈ Function.update l i (y :: l i) j) : x = y ∧ j = i ∨ x ∈ l j := by
  by_cases hij : j = i
  · subst hij
    rw [Function.update_self, List.mem_cons] at hx
    exact hx.imp (fun hx => ⟨hx, rfl⟩) id
  · rw [Function.update_of_ne hij] at hx
    exact .inr hx

theorem mem_update_erase {α : Type} {i j : Nat} {l : Nat → List α} {x : α} {p : α → Bool}
    (hx : x ∈ Function.update l i ((l i).eraseP p) j) : x ∈ l j := by
  by_cases hij : j = i
  · subst hij
    rw [Function.update_self] at hx
    exact List.eraseP_sublist.subset hx
  · rwa [Function.update_of_ne hij] at hx

theorem Counted.step (h : Counted s) (hstep : s.step act = some s') : Counted s' := by
  have htaken := h.taken
  cases step_listeners hstep with
  | same _ hl hnext => exact ⟨hnext ▸ h.next, fun j x hx => h.used j x (hl j ▸ hx)⟩
  | spent _ _ _ hl hnext =>
      refine ⟨?_, fun j x hx => h.used j x (hl j ▸ hx)⟩
      rw [hnext]
      omega
  | added _ _ _ _ _ hl hnext =>
      refine ⟨?_, fun j x hx => ?_⟩
      · rw [hnext]
        omega
      · rw [hl j] at hx
        rcases mem_update_cons hx with ⟨rfl, -⟩ | hx
        · exact htaken
        · exact h.used j x hx
  | removed _ hl hnext =>
      refine ⟨hnext ▸ h.next, fun j x hx => ?_⟩
      rw [hl j] at hx
      exact h.used j x (mem_update_erase hx)

theorem counted {ok : Sys → Act → Prop} {tbl : List Reg} (hrun : Reaches ok tbl s) : Counted s := by
  refine hrun.invariant (P := Counted) ⟨Nat.zero_le 255, fun j x hx => absurd hx List.not_mem_nil⟩ ?_
  exact fun _ _ _ _ h _ hstep => h.step hstep

/-- Outside the table of the instance nobody is registered. -/
theorem listeners_outside {ok : Sys → Act → Prop} {tbl : List Reg} (hrun : Reaches ok tbl s) {j : Nat}
    (hj : s.ctx.nrModule ≤ j) : s.listeners j = [] := by
  obtain ⟨hnr, -, houtside⟩ := setup_fixed hrun
  rw [listeners, houtside j (hnr ▸ hj)]
  rfl

section Step

variable {i : Nat} {nc : NotifyClient}

theorem UniqueIds.congr (h : UniqueIds s) (hl : ∀ j, s'.listeners j = s.listeners j) : UniqueIds s' := by
  refine ⟨fun j => ?_, fun i j hij x hx y hy => ?_⟩
  · rw [hl j]
    exact h.within j
  · rw [hl i] at hx
    rw [hl j] at hy
    exact h.across i j hij x hx y hy

theorem UniqueIds.remove {p : NotifyClient → Bool} (h : UniqueIds s)
    (hl : ∀ j, s'.listeners j = Function.update s.listeners i ((s.listeners i).eraseP p) j) : UniqueIds s' := by
  refine ⟨fun j => ?_, fun i' j hij x hx y hy => ?_⟩
  · rw [hl j]
    by_cases hj : j = i
    · subst hj
      rw [Function.update_self]
      exact (List.eraseP_sublist.map _).nodup (h.within j)
    · rw [Function.update_of_ne hj]
      exact h.within j
  · rw [hl i'] at hx
    rw [hl j] at hy
    exact h.across i' j hij x (mem_update_erase hx) y (mem_update_erase hy)

/-- A new registration keeps the ids distinct exactly when its id is not in use. -/
theorem UniqueIds.add_iff (h : UniqueIds s)
    (hl : ∀ j, s'.listeners j = Function.update s.listeners i (nc :: s.listeners i) j) :
    UniqueIds s' ↔ ∀ j, ∀ x ∈ s.listeners j, x.clientId ≠ nc.clientId := by
  have hself : s'.listeners i = nc :: s.listeners i := (hl i).trans (Function.update_self _ _ _)
  have hother : ∀ j, j ≠ i → s'.listeners j = s.listeners j := fun j hj =>
    (hl j).trans (Function.update_of_ne hj _ _)
  constructor
  · intro h' j x hx
    by_cases hj : j = i
    · subst hj
      have hnodup := h'.within j
      rw [hself, List.map_cons, List.nodup_cons] at hnodup
      exact fun heq => hnodup.1 (heq ▸ List.mem_map_of_mem hx)
    · refine h'.across j i hj x ?_ nc ?_
      · rwa [hother j hj]
      · rw [hself]
        exact List.mem_cons_self
  · intro hfree
    refine ⟨fun j => ?_, fun i' j hij x hx y hy => ?_⟩
    · by_cases hj : j = i
      · subst hj
        rw [hself, List.map_cons, List.nodup_cons]
        refine ⟨fun hmem => ?_, h.within j⟩
        obtain ⟨x, hx, heq⟩ := List.mem_map.mp hmem
        exact hfree j x hx heq
      · rw [hother j hj]
        exact h.within j
    · rw [hl i'] at hx
      rw [hl j] at hy
      rcases mem_update_cons hx with ⟨rfl, rfl⟩ | hxold <;> rcases mem_update_cons hy with ⟨rfl, rfl⟩ | hyold
      · exact absurd rfl hij
      · exact (hfree j y hyold).symm
      · exact hfree i' x hxold
      · exact h.across i' j hij x hxold y hyold

/-- From distinct ids a step leads to distinct ids if and only if it takes no id in use. -/
theorem UniqueIds.step_iff {ok : Sys → Act → Prop} {tbl : List Reg} (hrun : Reaches ok tbl s)
    (h : UniqueIds s) (hstep : s.step act = some s') : UniqueIds s' ↔ TakesFreeId s act := by
  have hno : ∀ {P : Prop}, UniqueIds s' → s.registers act = false → (UniqueIds s' ↔ (s.registers act = true → P)) :=
    fun h' hreg => ⟨fun _ hyes => (by rw [hreg] at hyes; cases hyes), fun _ => h'⟩
  cases step_listeners hstep with
  | same htakes hl => exact hno (h.congr hl) (not_registers htakes)
  | spent hact _ hok hl => exact hno (h.congr hl) (hact ▸ spent_registers hok)
  | removed hact hl => exact hno (h.remove hl) (by rw [hact]; rfl)
  | @added i category ok a hact _ hcur hlistener hok hl =>
      have hreg : s.registers act = true := hact ▸ registers_of_listener hcur hlistener hok
      rw [h.add_iff hl]
      refine ⟨fun hfree _ j _ x hx => hfree j x hx, fun hfree j x hx => ?_⟩
      by_cases hj : j < s.ctx.nrModule
      · exact hfree hreg j hj x hx
      · rw [listeners_outside hrun (Nat.le_of_not_lt hj)] at hx
        cases hx

end Step

/-- With distinct ids `coseq_unreg_notify` removes the registration it names and no other. -/
theorem erase_eq_filter {l : List NotifyClient} (h : (l.map NotifyClient.clientId).Nodup) (category cid : Nat) :
    l.eraseP (fun nc => nc.category == category && nc.clientId == cid) =
      l.filter fun nc => !(nc.category == category && nc.clientId == cid) := by
  induction l with
  | nil => rfl
  | cons nc l ih =>
      rw [List.map_cons, List.nodup_cons] at h
      cases hhit : nc.category == category && nc.clientId == cid with
      | true =>
          simp only [List.eraseP_cons, List.filter_cons, hhit, cond_true, Bool.not_true, Bool.false_eq_true, if_false]
          refine (List.filter_eq_self.mpr fun x hx => ?_).symm
          have hcid : nc.clientId = cid := by simpa using (Bool.and_eq_true_iff.mp hhit).2
          have hne : x.clientId ≠ cid := fun heq => h.1 ((heq.trans hcid.symm) ▸ List.mem_map_of_mem hx)
          simp [hne]
      | false =>
          simp only [List.eraseP_cons, List.filter_cons, hhit, cond_false, Bool.not_false, if_true, ih h.2]

theorem unregNotify_listeners {i category cid : Nat} {ok : Alloc}
    (h : s.step (.call i (.unregNotify category cid) ok) = some s') (j : Nat) :
    s'.listeners j = Function.update s.listeners i
      ((s.listeners i).eraseP fun nc => nc.category == category && nc.clientId == cid) j := by
  obtain ⟨-, m', eff, hstep, rfl⟩ := stepModule_eq h
  obtain ⟨a, hcur, hcall⟩ := Option.bind_eq_some_iff.mp hstep
  obtain ⟨rfl, rfl, -⟩ := call_unregNotify hcall
  refine (module_listeners j).trans ?_
  rw [unregNotify_clients]
  rfl

theorem unregNotify_counter {i category cid : Nat} {ok : Alloc}
    (h : s.step (.call i (.unregNotify category cid) ok) = some s') :
    s'.ctx.nextClientId = s.ctx.nextClientId := by
  cases step_listeners h with
  | same _ _ hnext => exact hnext
  | removed _ _ hnext => exact hnext
  | spent hact => cases hact
  | added hact => cases hact

/-! ### The calls that take ids, by number -/

/-- How many calls have taken an id, and the active registrations with the number of the call that made each. -/
structure CallNumbers where
  calls : Nat
  active : Nat → List (NotifyClient × Nat)

namespace CallNumbers

def note (s : Sys) (act : Act) (s' : Sys) (g : CallNumbers) : CallNumbers where
  calls := if s.takesId act then g.calls + 1 else g.calls
  active :=
    match act with
    | .call i (.regNotify _) _ =>
        if s.registers act then
          Function.update g.active i (((s'.listeners i).take 1).map (·, g.calls) ++ g.active i)
        else g.active
    | .call i (.unregNotify category cid) _ =>
        Function.update g.active i
          ((g.active i).eraseP fun x => x.1.category == category && x.1.clientId == cid)
    | _ => g.active

def start : CallNumbers := ⟨0, fun _ => []⟩

end CallNumbers

/-- The runs in which the calls are numbered. -/
abbrev NumberedRun (ok : Sys × CallNumbers → Act → Prop) (tbl : List Reg) : Sys × CallNumbers → Prop :=
  Lts.Run (Lts.watch Sys.step CallNumbers.note) ok (Coseq.boot tbl, CallNumbers.start)

/-- Once 255 calls have taken an id, a registration is made only when none is still active whose id was taken a
positive multiple of 255 calls earlier. -/
def NoneRoundsBack (p : Sys × CallNumbers) (act : Act) : Prop :=
  255 ≤ p.2.calls → p.1.registers act = true →
    ∀ j < p.1.ctx.nrModule, ∀ x ∈ p.2.active j, ¬255 ∣ p.2.calls - x.2

instance (p : Sys × CallNumbers) (act : Act) : Decidable (NoneRoundsBack p act) :=
  inferInstanceAs (Decidable (_ → _ → _))

/-- The call with number `n` takes the id `n % 255`. -/
structure Numbered (p : Sys × CallNumbers) : Prop where
  next : p.1.ctx.takenId = p.2.calls % 255
  clients : ∀ j, (p.2.active j).map Prod.fst = p.1.listeners j
  earlier : ∀ j, ∀ x ∈ p.2.active j, x.2 < p.2.calls ∧ x.1.clientId = x.2 % 255

section Numbered

variable {p p' : Sys × CallNumbers}

/-- The counter after a call that takes an id. -/
theorem taken_next {c c' : Ctx} {n : Nat} (h : c.takenId = n % 255) (hnext : c'.nextClientId = c.takenId + 1) :
    c'.takenId = (n + 1) % 255 := by
  unfold Ctx.takenId
  rw [hnext, h]
  split <;> omega

/-- A step that takes no id and gives up none is not noted. -/
theorem CallNumbers.note_quiet {g : CallNumbers} (htakes : s.takesId act = false)
    (hunreg : ∀ i category cid ok, act ≠ .call i (.unregNotify category cid) ok) :
    CallNumbers.note s act s' g = g := by
  have hcalls : (CallNumbers.note s act s' g).calls = g.calls := by
    change (if s.takesId act then g.calls + 1 else g.calls) = g.calls
    rw [htakes]
    rfl
  have hactive : (CallNumbers.note s act s' g).active = g.active := by
    cases act with
    | call i c ok =>
        cases c with
        | regNotify category =>
            dsimp only [note]
            rw [not_registers htakes]
            rfl
        | unregNotify category cid => exact absurd rfl (hunreg i category cid ok)
        | _ => rfl
    | _ => rfl
  cases g
  exact congrArg₂ CallNumbers.mk hcalls hactive

theorem Numbered.all_clients (h : Numbered p) : (fun j => (p.2.active j).map Prod.fst) = p.1.listeners :=
  funext h.clients

theorem Numbered.quiet (h : Numbered p) (hnote : p'.2 = p.2) (hl : ∀ j, p'.1.listeners j = p.1.listeners j)
    (hnext : p'.1.ctx.nextClientId = p.1.ctx.nextClientId) : Numbered p' where
  next := by
    rw [hnote, ← h.next, Ctx.takenId, hnext]
    rfl
  clients j := by
    rw [hnote, hl j]
    exact h.clients j
  earlier := by
    rw [hnote]
    exact h.earlier

/-- An id is taken; the registrations are those of before and perhaps a new one. -/
theorem Numbered.taken (h : Numbered p) (hcalls : p'.2.calls = p.2.calls + 1)
    (hnext : p'.1.ctx.nextClientId = p.1.ctx.takenId + 1)
    (hclients : ∀ j, (p'.2.active j).map Prod.fst = p'.1.listeners j)
    (hactive : ∀ j, ∀ x ∈ p'.2.active j, x ∈ p.2.active j ∨ x.2 = p.2.calls ∧ x.1.clientId = p.1.ctx.takenId) :
    Numbered p' where
  next := by
    rw [hcalls]
    exact taken_next h.next hnext
  clients := hclients
  earlier j x hx := by
    rw [hcalls]
    rcases hactive j x hx with hold | ⟨hnumber, hid⟩
    · exact (h.earlier j x hold).imp_left Nat.lt_succ_of_lt
    · rw [hid, hnumber]
      exact ⟨Nat.lt_succ_self _, h.next⟩

theorem Numbered.unregister (h : Numbered p) {i category cid : Nat} {ok : Alloc}
    (hstep : Lts.watch Sys.step CallNumbers.note p (.call i (.unregNotify category cid) ok) = some p') :
    Numbered p' := by
  obtain ⟨hs, hnote⟩ := Lts.watch_eq hstep
  have hcalls : p'.2.calls = p.2.calls := by rw [hnote]; rfl
  have hactive : p'.2.active = Function.update p.2.active i
      ((p.2.active i).eraseP fun x => x.1.category == category && x.1.clientId == cid) := by
    rw [hnote]
    rfl
  refine ⟨?_, fun j => ?_, fun j x hx => ?_⟩
  · rw [hcalls, ← h.next, Ctx.takenId, unregNotify_counter hs]
    rfl
  · rw [hactive, Function.apply_update (fun _ => List.map Prod.fst), h.all_clients, unregNotify_listeners hs,
      ← h.clients i, List.eraseP_map]
    rfl
  · rw [hactive] at hx
    rw [hcalls]
    exact h.earlier j x (mem_update_erase hx)

theorem Numbered.step (h : Numbered p) (hstep : Lts.watch Sys.step CallNumbers.note p act = some p') :
    Numbered p' := by
  by_cases hunreg : ∃ i category cid ok, act = .call i (.unregNotify category cid) ok
  · obtain ⟨i, category, cid, ok, rfl⟩ := hunreg
    exact h.unregister hstep
  · obtain ⟨hs, hnote⟩ := Lts.watch_eq hstep
    cases step_listeners hs with
    | same htakes hl hnext =>
        have hnone : p'.2 = p.2 := hnote.trans (CallNumbers.note_quiet htakes fun i category cid ok hact =>
          hunreg ⟨i, category, cid, ok, hact⟩)
        exact h.quiet hnone hl hnext
    | @spent i category ok hact htakes hok hl hnext =>
        subst hact
        have hcalls : p'.2.calls = p.2.calls + 1 := by rw [hnote, CallNumbers.note, htakes]; rfl
        have hactive : p'.2.active = p.2.active := by
          rw [hnote]
          dsimp only [CallNumbers.note]
          rw [spent_registers hok]
          rfl
        refine h.taken hcalls hnext (fun j => ?_) fun j x hx => ?_
        · rw [hactive, hl j]
          exact h.clients j
        · rw [hactive] at hx
          exact .inl hx
    | @added i category ok a hact _ hcur hlistener hok hl hnext =>
        subst hact
        have htakes : p.1.takesId (.call i (.regNotify category) ok) = true := takesId_of_listener hcur hlistener
        have hregisters : p.1.registers (.call i (.regNotify category) ok) = true :=
          registers_of_listener hcur hlistener hok
        have hself : p'.1.listeners i =
            ⟨category, ((p.1.module i).fiber a).replyTo, p.1.ctx.takenId⟩ :: p.1.listeners i :=
          (hl i).trans (Function.update_self ..)
        have hcalls : p'.2.calls = p.2.calls + 1 := by rw [hnote, CallNumbers.note, htakes]; rfl
        have hactive : p'.2.active = Function.update p.2.active i
            ((⟨category, ((p.1.module i).fiber a).replyTo, p.1.ctx.takenId⟩, p.2.calls) :: p.2.active i) := by
          rw [hnote]
          dsimp only [CallNumbers.note]
          rw [hregisters, hself]
          rfl
        refine h.taken hcalls hnext (fun j => ?_) fun j x hx => ?_
        · rw [hactive, Function.apply_update (fun _ => List.map Prod.fst), h.all_clients, List.map_cons, h.clients i,
            hl j]
        · rw [hactive] at hx
          rcases mem_update_cons hx with ⟨rfl, -⟩ | hx
          · exact .inr ⟨rfl, rfl⟩
          · exact .inl hx
    | @removed i category cid ok hact => exact absurd ⟨i, category, cid, ok, hact⟩ hunreg

theorem numbered {ok : Sys × CallNumbers → Act → Prop} {tbl : List Reg} (hrun : NumberedRun ok tbl p) :
    Numbered p := by
  refine hrun.invariant (P := Numbered) ⟨rfl, fun _ => rfl, fun j x hx => absurd hx List.not_mem_nil⟩ ?_
  exact fun _ _ _ _ h _ hstep => h.step hstep

theorem NumberedRun.reaches {ok : Sys × CallNumbers → Act → Prop} {tbl : List Reg} (hrun : NumberedRun ok tbl p) :
    Reaches (fun _ _ => True) tbl p.1 := by
  have hany : Lts.Run (Lts.watch Sys.step CallNumbers.note) (fun p a => (fun _ _ => True : Sys → Act → Prop) p.1 a)
      (Coseq.boot tbl, CallNumbers.start) p := hrun.mono fun _ _ _ => trivial
  exact hany.unwatch

/-- The id of a registration is in use exactly when the call that took it for another lies a multiple of 255 back. -/
theorem Numbered.takes_free_iff (h : Numbered p) : TakesFreeId p.1 act ↔ NoneRoundsBack p act := by
  have hsame : ∀ j, ∀ x ∈ p.2.active j, x.1.clientId = p.1.ctx.takenId ↔ 255 ∣ p.2.calls - x.2 := by
    intro j x hx
    obtain ⟨hlt, hid⟩ := h.earlier j x hx
    rw [hid, h.next]
    omega
  constructor
  · intro hfree _ hreg j hj x hx hback
    have hmem : x.1 ∈ p.1.listeners j := h.clients j ▸ List.mem_map_of_mem hx
    exact hfree hreg j hj x.1 hmem ((hsame j x hx).mpr hback)
  · intro hnone hreg j hj nc hnc heq
    rw [← h.clients j] at hnc
    obtain ⟨x, hx, rfl⟩ := List.mem_map.mp hnc
    have hback := (hsame j x hx).mp heq
    have hlt := (h.earlier j x hx).1
    -- before the 255th call no number lies that far back
    have hcalls : 255 ≤ p.2.calls := by
      have hle := Nat.le_of_dvd (by omega) hback
      omega
    exact hnone hcalls hreg j hj x hx hback

end Numbered

/-- In every run in which each registration past the first 255 ids is made when none is still active whose id was
taken a positive multiple of 255 calls earlier, the active registrations have distinct ids, none of them `0xff`, and
`coseq_unreg_notify` removes the one it names; and the first step that does not meet this breaks it. -/
theorem client_ids_unique {tbl : List Reg} {p : Sys × CallNumbers} (hrun : NumberedRun NoneRoundsBack tbl p) :
    UniqueIds p.1 ∧ (∀ j, ∀ nc ∈ p.1.listeners j, nc.clientId ≠ 255) ∧
      (∀ i category cid ok s', p.1.step (.call i (.unregNotify category cid) ok) = some s' →
        s'.listeners = Function.update p.1.listeners i
          ((p.1.listeners i).filter fun nc => !(nc.category == category && nc.clientId == cid))) ∧
      ∀ act p', Lts.watch Sys.step CallNumbers.note p act = some p' → (UniqueIds p'.1 ↔ NoneRoundsBack p act) := by
  have hreaches := NumberedRun.reaches hrun
  have hstart : UniqueIds (Coseq.boot tbl) :=
    ⟨fun _ => List.nodup_nil, fun _ _ _ _ hx => absurd hx List.not_mem_nil⟩
  have hunique : UniqueIds p.1 := by
    refine hrun.invariant (P := fun p => UniqueIds p.1) hstart ?_
    intro p act p' hr h hok hstep
    exact (h.step_iff (NumberedRun.reaches hr) (Lts.watch_eq hstep).1).mpr ((numbered hr).takes_free_iff.mpr hok)
  refine ⟨hunique, fun j nc hnc => Nat.ne_of_lt ((counted hreaches).used j nc hnc), ?_, ?_⟩
  · intro i category cid ok s' hstep
    funext j
    rw [unregNotify_listeners hstep, erase_eq_filter (hunique.within i)]
  · intro act p' hstep
    exact (hunique.step_iff hreaches (Lts.watch_eq hstep).1).trans (numbered hrun).takes_free_iff

/-! ### A wrapped counter -/

/-- A sequence of module 1 that module 0 has requested is running; the listeners of module 1 are `l`. -/
structure Registering (s : Sys) (l : List NotifyClient) (next : Nat) : Prop where
  inTable : 1 < s.ctx.nrModule
  current : (s.module 1).current = some 0
  replyTo : ((s.module 1).fiber 0).replyTo = .module 0
  outside : ((s.module 1).fiber 0).notifying = none
  listeners : s.listeners 1 = l
  counter : s.ctx.nextClientId = next

theorem Registering.register {l : List NotifyClient} {next : Nat} (h : Registering s l next) :
    ∃ s', s.step (.fiber 1 (.regNotify 0)) = some s' ∧
      Registering s' (⟨0, .module 0, s.ctx.takenId⟩ :: l) (s.ctx.takenId + 1) := by
  have hcall : Coseq.call (s.module 1) 0 (.regNotify 0) s.clock s.ctx.nextClientId .granted =
      some (Module.log { s.module 1 with
        notifyClients := ⟨0, .module 0, s.ctx.takenId⟩ :: (s.module 1).notifyClients }
        (.registered 0 0 s.ctx.takenId (.module 0)), .nextClientId (s.ctx.takenId + 1)) := by
    simp only [Coseq.call, h.outside, regNotify, h.replyTo]
    rfl
  refine ⟨_, step_of_call h.inTable h.current hcall, ?_⟩
  have hself := s.ctx.setModule_self 1
  refine ⟨h.inTable, ?_, ?_, ?_, ?_, rfl⟩
  · exact (congrArg Module.current (hself _)).trans h.current
  · exact (congrArg (fun m => (Module.fiber m 0).replyTo) (hself _)).trans h.replyTo
  · exact (congrArg (fun m => (Module.fiber m 0).notifying) (hself _)).trans h.outside
  · exact (congrArg Module.notifyClients (hself _)).trans (congrArg _ h.listeners)

theorem Registering.unregister {l : List NotifyClient} {id next : Nat}
    (h : Registering s (⟨0, .module 0, id⟩ :: l) next) :
    ∃ s', s.step (.fiber 1 (.unregNotify 0 id)) = some s' ∧ Registering s' l next := by
  have hclients : (s.module 1).notifyClients = ⟨0, .module 0, id⟩ :: l := h.listeners
  have hcall : Coseq.call (s.module 1) 0 (.unregNotify 0 id) s.clock s.ctx.nextClientId .granted =
      some (Module.log { s.module 1 with notifyClients := l } (.unregistered 0 0 id), .none) := by
    simp only [Coseq.call, h.outside, unregNotify, hclients]
    simp
  refine ⟨_, step_of_call h.inTable h.current hcall, ?_⟩
  have hself := s.ctx.setModule_self 1
  refine ⟨h.inTable, ?_, ?_, ?_, ?_, h.counter⟩
  · exact (congrArg Module.current (hself _)).trans h.current
  · exact (congrArg (fun m => (Module.fiber m 0).replyTo) (hself _)).trans h.replyTo
  · exact (congrArg (fun m => (Module.fiber m 0).notifying) (hself _)).trans h.outside
  · exact congrArg Module.notifyClients (hself _)

/-- Registering and unregistering moves the counter on. -/
theorem Registering.rounds {tbl : List Reg} {l : List NotifyClient} (hrun : Reaches (fun _ _ => True) tbl s)
    (h : Registering s l 1) (n : Nat) (hn : n ≤ 254) :
    ∃ s', Reaches (fun _ _ => True) tbl s' ∧ Registering s' l (n + 1) := by
  induction n with
  | zero => exact ⟨s, hrun, h⟩
  | succ n ih =>
      obtain ⟨s₁, hrun₁, h₁⟩ := ih (by omega)
      have htaken : s₁.ctx.takenId = n + 1 := by
        rw [Ctx.takenId, h₁.counter]
        exact if_neg (by omega)
      obtain ⟨s₂, hstep₂, h₂⟩ := h₁.register
      rw [htaken] at h₂
      obtain ⟨s₃, hstep₃, h₃⟩ := h₂.unregister
      exact ⟨s₃, (hrun₁.tail trivial hstep₂).tail trivial hstep₃, h₃⟩

/-- Module 0 requests a sequence of module 1, which registers it once. -/
def registerRun : List Act :=
  [.requestAsync 0 0 0 [], .asyncPost 0 .granted, .thread 0, .thread 0, .thread 0, .thread 0,
    .fiber 0 (.send 1 0 []), .thread 1, .thread 1, .thread 1, .thread 1, .fiber 1 (.regNotify 0)]

/-- After 254 registrations that are given up again, the next one gets the id of the one that is kept. -/
theorem client_id_reused : ∃ s, Reaches (fun _ _ => True) [⟨1, true⟩, ⟨1, false⟩] s ∧
    s.listeners 1 = [⟨0, .module 0, 0⟩, ⟨0, .module 0, 0⟩] ∧ ¬UniqueIds s := by
  obtain ⟨s₀, hrun₀, hs₀⟩ : ∃ s, Reaches (fun _ _ => True) [⟨1, true⟩, ⟨1, false⟩] s ∧
      decide (1 < s.ctx.nrModule ∧ (s.module 1).current = some 0 ∧ ((s.module 1).fiber 0).replyTo = .module 0 ∧
        ((s.module 1).fiber 0).notifying = none ∧ s.listeners 1 = [⟨0, .module 0, 0⟩] ∧
        s.ctx.nextClientId = 1) = true :=
    Lts.exists_run registerRun (by decide +kernel)
  obtain ⟨hnr, hcur, hto, houtside, hlisteners, hnext⟩ := of_decide_eq_true hs₀
  obtain ⟨s₁, hrun₁, h₁⟩ := Registering.rounds hrun₀ ⟨hnr, hcur, hto, houtside, hlisteners, hnext⟩ 254 (Nat.le_refl _)
  have htaken : s₁.ctx.takenId = 0 := by
    rw [Ctx.takenId, h₁.counter]
    rfl
  obtain ⟨s₂, hstep, h₂⟩ := h₁.register
  rw [htaken] at h₂
  refine ⟨s₂, hrun₁.tail trivial hstep, h₂.listeners, fun hunique => ?_⟩
  have hnodup := hunique.within 1
  rw [h₂.listeners] at hnodup
  simp at hnodup

/-- Two modules are registered, and one of the registrations is given up. -/
theorem registerRun_unique : ∃ p, NumberedRun NoneRoundsBack [⟨1, true⟩, ⟨1, false⟩] p ∧
    (p.1.listeners 1 = [⟨1, .module 0, 2⟩, ⟨0, .module 0, 0⟩] ∧ (p.2.active 1).map Prod.snd = [2, 0]) ∧
    UniqueIds p.1 ∧ (∀ j, ∀ nc ∈ p.1.listeners j, nc.clientId ≠ 255) ∧
      (∀ i category cid ok s', p.1.step (.call i (.unregNotify category cid) ok) = some s' →
        s'.listeners = Function.update p.1.listeners i
          ((p.1.listeners i).filter fun nc => !(nc.category == category && nc.clientId == cid))) ∧
      ∀ act p', Lts.watch Sys.step CallNumbers.note p act = some p' → (UniqueIds p'.1 ↔ NoneRoundsBack p act) := by
  obtain ⟨p, hrun, hp⟩ : ∃ p, NumberedRun NoneRoundsBack [⟨1, true⟩, ⟨1, false⟩] p ∧
      decide (p.1.listeners 1 = [⟨1, .module 0, 2⟩, ⟨0, .module 0, 0⟩] ∧
        (p.2.active 1).map Prod.snd = [2, 0]) = true :=
    Lts.exists_run (registerRun ++ [.fiber 1 (.regNotify 1), .fiber 1 (.unregNotify 1 1), .fiber 1 (.regNotify 1)])
      (by decide +kernel)
  exact ⟨p, hrun, of_decide_eq_true hp, client_ids_unique hrun⟩

end Sys

end Coseq
