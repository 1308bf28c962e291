import Coseq.ModulePayload
import Coseq.SyncCalls

/-! The messages of an instance in memory, along its runs. With each step the copies are made that the step makes in
the code; a copy outside its blocks has no result. What a receiver reads through its source record is compared with
what the sender of that event has passed, whichever allocations fail. -/

namespace Coseq

open MemoryBlock

/-- The messages of an instance: with the external mailbox and the records of the external threads. -/
structure Memory where
  heap : Nat → ModuleMem
  mailbox : MsgCopy
  record : Nat → Receiver

namespace Memory

def empty : Memory := ⟨fun _ => .empty, .nothing, fun _ => .nothing⟩

def setHeap (mem : Memory) (i : Nat) (h : ModuleMem) : Memory := { mem with heap := Function.update mem.heap i h }

/-- `make_ev` and `post`: the event gets the next serial of its module. -/
def post (mem : Memory) (s : Sys) (d : Nat) (x : Sent) (ok : Alloc) : Option Memory :=
  if ok .event then
    (MsgCopy.makeEv x ok).map fun c => mem.setHeap d { mem.heap d with
      event := Function.update (mem.heap d).event (s.module d).posted c }
  else some mem

def extDeliver (mem : Memory) (s : Sys) (x : Sent) (ok : Alloc) : Option Memory :=
  if x.reqId = s.ctx.extWaitRid then (MsgCopy.extDeliver x ok).map fun c => { mem with mailbox := c } else some mem

def deliver (mem : Memory) (s : Sys) (ok : Alloc) : Option (Origin × Sent) → Option Memory
  | none => some mem
  | some (.module d, x) => mem.post s d x ok
  | some (.external, x) => mem.extDeliver s x ok

/-- The copies of a step. -/
def step (s : Sys) (mem : Memory) : Act → Option Memory
  | .sched i ok => ((mem.heap i).sched (s.module i) ok).map (mem.setHeap i)
  | .call i c ok =>
      match (s.module i).current with
      | none => some mem
      | some a =>
          ((mem.heap i).call a ok c).bind fun h => (mem.setHeap i h).deliver s ok (outgoing (s.module i) a c)
  | .requestSync _ i _ msg ok => mem.post s i ⟨s.ctx.rid, .ignore, msg, true⟩ ok
  | .asyncPost t ok =>
      match (s.threads t).point with
      | .posting rid i _ msg => mem.post s i ⟨rid, .ignore, msg, true⟩ ok
      | _ => some mem
  | .wakeup t ok =>
      match (s.threads t).point with
      | .waiting .. =>
          if s.ctx.extReady then
            ((mem.record t).requestSync mem.mailbox ok).map fun r =>
              { mem with record := Function.update mem.record t r, mailbox := ⟨none, 0, mem.mailbox.sent⟩ }
          else some mem
      | _ => some mem
  | .tick _ | .stop _ | .requestAsync .. => some mem

/-- The memory after a step, unless a copy has gone outside its blocks. -/
def note (s : Sys) (a : Act) (_ : Sys) (mem : Option Memory) : Option Memory := mem.bind fun mem => mem.step s a

end Memory

/-- The runs with the memory of their messages. -/
abbrev CopyingRun (ok : Sys → Act → Prop) (tbl : List Reg) : Sys × Option Memory → Prop :=
  Lts.Run (Lts.watch Sys.step Memory.note) (fun p a => ok p.1 a) (boot tbl, some Memory.empty)

/-- A `request_sync` is called only when no other is in progress. -/
def AloneInSync (s : Sys) : Act → Prop
  | .requestSync .. => ∀ t rid, ¬(s.threads t).Waiting rid
  | _ => True

/-! ### Steps -/

/-- The mailbox without its history. -/
def Ctx.slot (c : Ctx) : Bool × Nat × Result × Bytes := (c.extReady, c.extWaitRid, c.extResult, c.extMsg)

theorem Ctx.post_slot (c : Ctx) (d : Nat) (e : Option Ev) : (c.post d e).slot = c.slot :=
  congrArg (fun b : Mailbox => (b.ready, b.waitRid, b.result, b.msg)) (post_mailbox c d e).1

/-- The memory holds what the instance has, and what has been sent. A waiting thread finds the reply to its own id in
the mailbox, once there is one. -/
structure Memory.Faithful (mem : Memory) (s : Sys) : Prop where
  modules : ∀ j, (mem.heap j).Carries (s.module j)
  mailbox : mem.mailbox.Stores s.ctx.extMsg
  answer : ∀ t rid, (s.threads t).Waiting rid → s.ctx.extReady = true →
    mem.mailbox.sent.Delivers rid s.ctx.extResult s.ctx.extMsg
  slot : ∀ t rid, (s.threads t).Waiting rid → s.ctx.extWaitRid = rid
  alone : ∀ t t' rid rid', (s.threads t).Waiting rid → (s.threads t').Waiting rid' → t' = t
  records : ∀ t, (mem.record t).Shows (s.threads t).s (s.threads t).buf

namespace Memory

section Step

variable {mem mem' : Memory} {s s' : Sys} {x : Sent} {ok : Alloc} {i d n : Nat} {modules : Nat → Module}

theorem setHeap_carries {h : ModuleMem} {m : Module} (hmem : ∀ j, (mem.heap j).Carries (modules j))
    (hh : h.Carries m) : ∀ j, ((mem.setHeap i h).heap j).Carries (Function.update modules i m j) := by
  intro j
  change ModuleMem.Carries (Function.update mem.heap i h j) _
  by_cases hj : j = i
  · subst hj
    rw [Function.update_self, Function.update_self]
    exact hh
  · rw [Function.update_of_ne hj, Function.update_of_ne hj]
    exact hmem j

/-- The event that `make_ev` makes is carried by the copy that it makes. -/
theorem post_carries {o : Option Ev} (hposted : (modules d).posted = (s.module d).posted)
    (hmem : ∀ j, (mem.heap j).Carries (modules j)) (he : ∀ e ∈ o, e.Made x ok) :
    ∃ mem', mem.post s d x ok = some mem' ∧ mem'.mailbox = mem.mailbox ∧ mem'.record = mem.record ∧
      ∀ j, (mem'.heap j).Carries (delivered n modules (.post d o) j) := by
  unfold post
  by_cases hevent : ok .event = true
  · obtain ⟨c, hc, hstores, hsent⟩ := MsgCopy.duplicate_stores x (ok .eventMsg)
      (Ptr.reads_holding (l := x.msg))
    rw [if_pos hevent, MsgCopy.makeEv, hc]
    refine ⟨_, rfl, rfl, rfl, ?_⟩
    rw [← hposted]
    have hunposted := setHeap_carries (i := d) hmem ((hmem d).unposted (c := c))
    rw [Function.update_eq_self] at hunposted
    cases o with
    | none => exact hunposted
    | some e =>
        have hmade := he e rfl
        have hheld : e.Held c := by
          refine ⟨?_, ?_, hmade.plain⟩
          · rw [hmade.msg]
            exact hstores
          · rw [hmade.msg, hmade.reqId, hmade.result]
            exact hsent _ _ Sent.delivers_all
        unfold delivered
        dsimp only
        split
        · exact setHeap_carries (i := d) hmem ((hmem d).enqueue hheld)
        · exact hunposted
  · rw [if_neg hevent]
    refine ⟨mem, rfl, rfl, rfl, ?_⟩
    cases o with
    | none => exact hmem
    | some e => exact absurd (he e rfl).event hevent

/-- A step that leaves the external side alone, except for a thread that is not in `request_sync`. -/
theorem Faithful.inside (h : mem.Faithful s) (hmodules : ∀ j, (mem'.heap j).Carries (s'.module j))
    (hbox : mem'.mailbox = mem.mailbox) (hrecord : mem'.record = mem.record)
    (hslot : s'.ctx.slot = s.ctx.slot)
    (hthreads : ∀ t, (s'.threads t).s = (s.threads t).s ∧ (s'.threads t).buf = (s.threads t).buf ∧
      ∀ rid, (s'.threads t).Waiting rid → (s.threads t).Waiting rid) : mem'.Faithful s' := by
  obtain ⟨hready, hslot⟩ := Prod.mk.inj hslot
  obtain ⟨hwait, hslot⟩ := Prod.mk.inj hslot
  obtain ⟨hresult, hmsg⟩ := Prod.mk.inj hslot
  refine ⟨hmodules, ?_, ?_, ?_, ?_, ?_⟩
  · rw [hbox, hmsg]
    exact h.mailbox
  · intro t rid hw hr
    rw [hbox, hresult, hmsg]
    exact h.answer t rid ((hthreads t).2.2 rid hw) (hready ▸ hr)
  · intro t rid hw
    rw [hwait]
    exact h.slot t rid ((hthreads t).2.2 rid hw)
  · intro t t' rid rid' hw hw'
    exact h.alone t t' rid rid' ((hthreads t).2.2 rid hw) ((hthreads t').2.2 rid' hw')
  · intro t
    obtain ⟨hs, hbuf, -⟩ := hthreads t
    rw [hrecord, hs, hbuf]
    exact h.records t

theorem Faithful.same_threads (h : mem.Faithful s) (hmodules : ∀ j, (mem'.heap j).Carries (s'.module j))
    (hbox : mem'.mailbox = mem.mailbox) (hrecord : mem'.record = mem.record)
    (hslot : s'.ctx.slot = s.ctx.slot) (hthreads : s'.threads = s.threads) : mem'.Faithful s' :=
  h.inside hmodules hbox hrecord hslot fun t => by rw [hthreads]; exact ⟨rfl, rfl, fun _ hw => hw⟩

theorem after_modules {m' : Module} {eff : Effect} :
    (s.after i m' eff ok).module = delivered s.ctx.nrModule (Function.update s.module i m') eff :=
  ((s.ctx.setModule i m').effect_delivered ok eff).1

/-- The thread of a module goes on. -/
theorem Faithful.sched (h : mem.Faithful s) (hmodes : Modes (s.module i))
    (hstep : s.stepModule i (.sched s.clock ok) ok = some s') :
    ∃ mem', mem.step s (.sched i ok) = some mem' ∧ mem'.Faithful s' := by
  obtain ⟨-, m', eff, hm, rfl⟩ := Sys.stepModule_eq hstep
  have hmove := Module.step_move hm
  have hsched : m' = Coseq.sched (s.module i) s.clock ok ∧ eff = .none := by
    rw [Module.step] at hm
    split at hm
    · cases hm
    · obtain ⟨rfl, rfl⟩ := Prod.mk.inj (Option.some.inj hm)
      exact ⟨rfl, rfl⟩
  obtain ⟨rfl, rfl⟩ := hsched
  obtain ⟨h', hh', hcarries⟩ := (ModuleMem.sched_held ok (h.modules i) hmodes).carries (h.modules i) hmove
  refine ⟨mem.setHeap i h', ?_, h.same_threads ?_ rfl rfl rfl rfl⟩
  · rw [step, hh']
    rfl
  · rw [after_modules]
    exact setHeap_carries h.modules hcarries

theorem Faithful.stop (h : mem.Faithful s) (hstep : s.stepModule i .stop (fun _ => true) = some s') :
    mem.Faithful s' := by
  obtain ⟨-, m', eff, hm, rfl⟩ := Sys.stepModule_eq hstep
  obtain ⟨rfl, rfl⟩ := Prod.mk.inj (Option.some.inj hm)
  refine h.same_threads ?_ rfl rfl rfl rfl
  rw [after_modules]
  intro j
  have hsame := setHeap_carries (i := i) (h := mem.heap i) (m := { s.module i with stop := true }) h.modules
    ⟨(h.modules i).event, (h.modules i).fibers⟩ j
  change ModuleMem.Carries (Function.update mem.heap i (mem.heap i) j) _ at hsame
  rwa [Function.update_eq_self] at hsame

/-- A reply to an external thread is stored when one waits for it. -/
theorem Faithful.extDeliver {m' : Module} {rid : Nat} {r : Result} {msg : Bytes} (h : mem.Faithful s)
    (hmodules : ∀ j, (mem'.heap j).Carries (Function.update s.module i m' j)) (hbox : mem'.mailbox = mem.mailbox)
    (hrecord : mem'.record = mem.record) : ∃ mem'', mem'.extDeliver s ⟨rid, r, msg, true⟩ ok = some mem'' ∧
      mem''.Faithful (s.after i m' (.extDeliver rid r msg) ok) := by
  have hmods : (s.after i m' (.extDeliver rid r msg) ok).module = Function.update s.module i m' := after_modules
  unfold Memory.extDeliver
  by_cases hrid : rid = s.ctx.extWaitRid
  · obtain ⟨c, hc, hstores, hsent⟩ := MsgCopy.duplicate_stores ⟨rid, r, msg, true⟩ (ok .extMsg)
      (Ptr.reads_holding (l := msg))
    have hctx : (s.after i m' (.extDeliver rid r msg) ok).ctx = { s.ctx.setModule i m' with
        extResult := r
        extMsg := if ok .extMsg then msg else []
        extReady := true
        extTrace := s.ctx.extTrace ++ [.accepted rid r msg] } := if_pos hrid
    rw [if_pos hrid, MsgCopy.extDeliver, hc]
    refine ⟨_, rfl, ?_, ?_, ?_, ?_, h.alone, ?_⟩
    · rw [hmods]
      exact hmodules
    · rw [hctx]
      exact hstores
    · intro t rid' hw _
      have hown : rid' = rid := (h.slot t rid' hw).symm.trans hrid.symm
      rw [hctx, hown]
      exact hsent _ _ Sent.delivers_all
    · rw [hctx]
      exact h.slot
    · rw [hrecord]
      exact h.records
  · have hctx : (s.after i m' (.extDeliver rid r msg) ok).ctx = { s.ctx.setModule i m' with
        extTrace := s.ctx.extTrace ++ [.discarded rid r msg] } := if_neg hrid
    rw [if_neg hrid]
    refine ⟨mem', rfl, h.same_threads ?_ hbox hrecord ?_ rfl⟩
    · rw [hmods]
      exact hmodules
    · rw [hctx]
      rfl

/-- The running fiber of a module makes a call. -/
theorem Faithful.call {c : Call} (h : mem.Faithful s) (hmodes : Modes (s.module i))
    (hstep : s.stepModule i (.call c s.clock s.ctx.nextClientId ok) ok = some s') :
    ∃ mem', mem.step s (.call i c ok) = some mem' ∧ mem'.Faithful s' := by
  obtain ⟨-, m', eff, hm, rfl⟩ := Sys.stepModule_eq hstep
  have hmove := Module.step_move hm
  obtain ⟨a, hcur, hcall⟩ := Option.bind_eq_some_iff.mp hm
  have hserves := ModuleMem.call_held (h.modules i).fibers hmodes hcur hmove
  obtain ⟨h', hh', hcarries⟩ := hserves.carries (h.modules i) hmove
  have hmodules := setHeap_carries (i := i) h.modules hcarries
  have hposted : ∀ d, (Function.update s.module i m' d).posted = (s.module d).posted := by
    intro d
    by_cases hd : d = i
    · subst hd
      rw [Function.update_self]
      exact hmove.accepted.2
    · rw [Function.update_of_ne hd]
  have hmemory : mem.step s (.call i c ok) = (mem.setHeap i h').deliver s ok (outgoing (s.module i) a c) := by
    simp only [step, hcur, hh', Option.bind_some]
  have hpasses := call_passes hcall
  rw [hmemory]
  generalize outgoing (s.module i) a c = out at hpasses ⊢
  cases hpasses with
  | quiet heff =>
      refine ⟨mem.setHeap i h', rfl, ?_⟩
      obtain rfl | ⟨id, rfl⟩ := heff
      · exact h.same_threads (after_modules ▸ hmodules) rfl rfl rfl rfl
      · exact h.same_threads (after_modules ▸ hmodules) rfl rfl rfl rfl
  | post he =>
      obtain ⟨mem', hpost, hbox, hrecord, hcarries'⟩ := post_carries (n := s.ctx.nrModule) (hposted _) hmodules he
      exact ⟨mem', hpost, h.same_threads (after_modules ▸ hcarries') hbox hrecord (Ctx.post_slot _ _ _) rfl⟩
  | reply => exact h.extDeliver hmodules rfl rfl

/-- A step of an idle thread that does not put it into `request_sync`. -/
theorem Faithful.posted {t : Nat} {p : ExtPoint} {s₁ : Sys} (h : mem.Faithful s)
    (hmodules : ∀ j, (mem'.heap j).Carries (s₁.module j)) (hbox : mem'.mailbox = mem.mailbox)
    (hrecord : mem'.record = mem.record) (hslot : s₁.ctx.slot = s.ctx.slot) (hthreads : s₁.threads = s.threads)
    (hp : ∀ rid i seq, p ≠ .waiting rid i seq) : mem'.Faithful (s₁.setThread t { s.threads t with point := p }) := by
  refine h.inside hmodules hbox hrecord hslot fun t' => ?_
  change (Function.update s₁.threads t _ t').s = _ ∧ (Function.update s₁.threads t _ t').buf = _ ∧
    ∀ rid, (Function.update s₁.threads t _ t').Waiting rid → _
  rw [hthreads]
  by_cases ht : t' = t
  · subst ht
    rw [Function.update_self]
    exact ⟨rfl, rfl, fun rid ⟨i, seq, hw⟩ => absurd hw (hp rid i seq)⟩
  · rw [Function.update_of_ne ht]
    exact ⟨rfl, rfl, fun _ hw => hw⟩

/-- The first part of `_request_sync`: nobody else waits, and there is no reply yet. -/
theorem Faithful.requestSync {t seq : Nat} {msg : Bytes} {th : ExtThread} (h : mem.Faithful s)
    (halone : ∀ t rid, ¬(s.threads t).Waiting rid) (hth : th = { s.threads t with point := .waiting s.ctx.rid i seq })
    (hs' : s' = { s with ctx := Coseq.requestSync s.ctx t i seq msg ok }.setThread t th) :
    ∃ mem', mem.step s (.requestSync t i seq msg ok) = some mem' ∧ mem'.Faithful s' := by
  obtain ⟨mem', hpost, hbox, hrecord, hcarries⟩ := post_carries (n := s.ctx.nrModule) (d := i) rfl h.modules
    (extStart_made seq s.ctx.rid msg ok)
  have hslot : s'.ctx.slot = (false, s.ctx.rid, s.ctx.extResult, s.ctx.extMsg) := by
    rw [hs']
    exact Ctx.post_slot _ _ _
  obtain ⟨hready, hslot⟩ := Prod.mk.inj hslot
  obtain ⟨hwait, hslot⟩ := Prod.mk.inj hslot
  obtain ⟨-, hmsg⟩ := Prod.mk.inj hslot
  have hat : ∀ t' rid, (s'.threads t').Waiting rid → t' = t ∧ rid = s.ctx.rid := by
    intro t' rid hw
    have hset := threadAt_set (s := s) { s with ctx := Coseq.requestSync s.ctx t i seq msg ok } t th rfl
    rw [hs'] at hw
    rcases hset.waiting.mp hw with ⟨ht, _, _, hpoint⟩ | ⟨-, hold⟩
    · rw [hth] at hpoint
      exact ⟨ht, (ExtPoint.waiting.inj hpoint).1.symm⟩
    · exact absurd hold (halone t' rid)
  refine ⟨mem', hpost, ?_, ?_, ?_, ?_, ?_, ?_⟩
  · rw [(requestSync_frame hs').1]
    exact hcarries
  · rw [hbox, hmsg]
    exact h.mailbox
  · intro t' rid _ hr
    rw [hready] at hr
    cases hr
  · intro t' rid hw
    rw [hwait, (hat t' rid hw).2]
  · intro t₁ t₂ rid₁ rid₂ hw₁ hw₂
    rw [(hat t₁ rid₁ hw₁).1, (hat t₂ rid₂ hw₂).1]
  · intro t'
    rw [hrecord, hs', hth]
    change (mem.record t').Shows (Function.update s.threads t _ t').s (Function.update s.threads t _ t').buf
    by_cases ht : t' = t
    · subst ht
      rw [Function.update_self]
      exact h.records t'
    · rw [Function.update_of_ne ht]
      exact h.records t'

/-- The end of `_request_sync`. -/
theorem Faithful.wakeup {t rid seq : Nat} (h : mem.Faithful s) (hpoint : (s.threads t).point = .waiting rid i seq)
    (hready : s.ctx.extReady = true)
    (hs' : s' = { s with ctx := (syncReturn s.ctx (s.threads t) t rid i seq ok).1 }.setThread t
      (syncReturn s.ctx (s.threads t) t rid i seq ok).2) :
    ∃ mem', mem.step s (.wakeup t ok) = some mem' ∧ mem'.Faithful s' := by
  have hw : (s.threads t).Waiting rid := ⟨i, seq, hpoint⟩
  obtain ⟨r, hr, hshows⟩ := Receiver.requestSync_shows (h.records t).holds ok h.mailbox
    (h.answer t rid hw hready) t i seq
  have hnone : ∀ t' rid', ¬(s'.threads t').Waiting rid' := by
    intro t' rid' hw'
    have hset := threadAt_set (s := s) { s with ctx := (syncReturn s.ctx (s.threads t) t rid i seq ok).1 } t
      (syncReturn s.ctx (s.threads t) t rid i seq ok).2 rfl
    rw [hs'] at hw'
    rcases hset.waiting.mp hw' with ⟨-, _, _, hidle⟩ | ⟨hne, hold⟩
    · cases hidle
    · exact hne (h.alone t t' rid rid' hw hold)
  refine ⟨{ mem with record := Function.update mem.record t r, mailbox := ⟨none, 0, mem.mailbox.sent⟩ }, ?_, ?_, ?_,
    fun t' rid' hw' => absurd hw' (hnone t' rid'), fun t' rid' hw' => absurd hw' (hnone t' rid'),
    fun t' _ rid' _ hw' => absurd hw' (hnone t' rid'), ?_⟩
  · simp only [step, hpoint, hready, if_true, hr, Option.map_some]
  · rw [hs']
    exact h.modules
  · rw [hs']
    exact ⟨rfl, Ptr.reads_nil⟩
  · intro t'
    rw [hs']
    change Receiver.Shows (Function.update mem.record t r t') (Function.update s.threads t _ t').s
      (Function.update s.threads t _ t').buf
    by_cases ht : t' = t
    · subst ht
      rw [Function.update_self, Function.update_self]
      exact hshows
    · rw [Function.update_of_ne ht, Function.update_of_ne ht]
      exact h.records t'

/-- Every copy of a step is made inside its blocks. -/
theorem Faithful.step {a : Act} (h : mem.Faithful s) (hmodes : ∀ j, Modes (s.module j)) (halone : AloneInSync s a)
    (hstep : s.step a = some s') : ∃ mem', mem.step s a = some mem' ∧ mem'.Faithful s' := by
  cases Sys.step_sysMove hstep with
  | tick hs' =>
      subst hs'
      exact ⟨mem, rfl, h.same_threads h.modules rfl rfl rfl rfl⟩
  | sched hmodule => exact h.sched (hmodes _) hmodule
  | call hmodule => exact h.call (hmodes _) hmodule
  | stop hmodule => exact ⟨mem, rfl, h.stop hmodule⟩
  | requestSync _ hs' => exact h.requestSync halone rfl hs'
  | wakeup hpoint hready hs' => exact h.wakeup hpoint hready hs'
  | @sleep t rid i seq ok hpoint hready hs' =>
      subst hs'
      refine ⟨mem, ?_, h⟩
      simp only [Memory.step, hpoint]
      rw [if_neg hready]
  | requestAsync _ hs' =>
      subst hs'
      exact ⟨mem, rfl, h.posted h.modules rfl rfl rfl rfl fun _ _ _ hp => by cases hp⟩
  | @asyncPost t rid i seq msg ok hpoint hs' =>
      obtain ⟨mem', hpost, hbox, hrecord, hcarries⟩ := post_carries (n := s.ctx.nrModule) (d := i) rfl h.modules
        (extStart_made seq rid msg ok)
      refine ⟨mem', ?_, ?_⟩
      · simp only [Memory.step, hpoint]
        exact hpost
      · have hmodules := (asyncPost_frame hs').1
        subst hs'
        refine h.posted ?_ hbox hrecord (Ctx.post_slot _ _ _) rfl fun _ _ _ hp => by cases hp
        intro j
        have hj := hcarries j
        rw [← hmodules] at hj
        exact hj

end Step

end Memory

theorem Memory.faithful_boot (tbl : List Reg) : Memory.empty.Faithful (boot tbl) := by
  have hidle : ∀ t rid, ¬((boot tbl).threads t).Waiting rid := by
    rintro t rid ⟨_, _, ⟨⟩⟩
  refine ⟨fun j => ⟨?_, ?_⟩, MsgCopy.stores_nothing, fun t rid hw => absurd hw (hidle t rid),
    fun t rid hw => absurd hw (hidle t rid), fun t _ rid _ hw => absurd hw (hidle t rid), ?_⟩
  · rintro e ⟨⟩
  · rintro a ⟨⟩
  · exact fun t => Receiver.shows_nothing

/-! ### Runs -/

/-- What is read of a record lies in its buffer, and is `l`; it has been sent with the id and the result that the
record shows. -/
structure Receiver.Intact (r : Receiver) (src : Src) (l : Bytes) : Prop where
  inside : r.size ≤ r.cap ∧ r.buf.cells.length = r.cap
  read : r.read = l.map some
  sent : r.sent.Delivers src.reqId src.result l

theorem Receiver.Shows.intact {r : Receiver} {src : Src} {buf : Bytes} (h : r.Shows src buf) :
    r.Intact src (buf.take src.size) := by
  obtain ⟨hholds, hsent⟩ := h
  refine ⟨⟨?_, ?_⟩, hholds.read, hsent⟩
  · rw [hholds.filled, hholds.cap]
    exact hholds.inside
  · rw [hholds.cells, hholds.cap, List.length_map]

theorem faithful {tbl : List Reg} {s : Sys} {g : Option Memory} (hrun : CopyingRun AloneInSync tbl (s, g)) :
    ∃ mem, g = some mem ∧ mem.Faithful s := by
  refine hrun.invariant (P := fun p => ∃ mem, p.2 = some mem ∧ mem.Faithful p.1)
    ⟨Memory.empty, rfl, Memory.faithful_boot tbl⟩ ?_
  rintro p a p' hrun ⟨mem, hmem, h⟩ halone hstep
  obtain ⟨hstep, hnote⟩ := Lts.watch_eq hstep
  obtain ⟨mem', hmem', h'⟩ := h.step (modes hrun.unwatch) halone hstep
  refine ⟨mem', ?_, h'⟩
  rw [hnote, Memory.note, hmem]
  exact hmem'

/-- In every run with one `request_sync` at a time, whichever allocations fail, no copy leaves its blocks, and what
each fiber and each external thread reads through its source record is the start of what the sender of that event has
passed, and all of it if no allocation for a copy of it has failed. -/
theorem payload_intact {tbl : List Reg} {s : Sys} {g : Option Memory} (hrun : CopyingRun AloneInSync tbl (s, g)) :
    ∃ mem, g = some mem ∧
      (∀ j, ∀ a ∈ (s.module j).fibers,
        ((mem.heap j).source a).Intact ((s.module j).fiber a).src ((s.module j).fiber a).message) ∧
      ∀ t, (mem.record t).Intact (s.threads t).s ((s.threads t).buf.take (s.threads t).s.size) := by
  obtain ⟨mem, hmem, h⟩ := faithful hrun
  refine ⟨mem, hmem, fun j a ha => ?_, fun t => (h.records t).intact⟩
  exact ((h.modules j).fibers a ((modes hrun.unwatch j).born a ha)).source.intact

/-- A sequence that `request_sync` has started with three bytes is answered with four, which its buffer has no room
for and gets none. It answers the caller. -/
def cutReplyRun : List Act :=
  [.thread 0, .thread 0, .thread 0, .thread 0, .fiber 0 (.request 1 0 [4, 5]),
    .thread 1, .thread 1, .thread 1, .thread 1, .fiber 1 (.reply .success [6, 7, 8, 9]), .fiber 1 .ret,
    .thread 0, .thread 0, .thread 0, .thread 0, .thread 0, .sched 0 fun site => site != .srcBuf,
    .fiber 0 (.reply .success [10]), .wakeup 0 .granted]

theorem cutReplyRun_intact : ∃ s g, CopyingRun AloneInSync [⟨1, false⟩, ⟨1, false⟩] (s, g) ∧
    ((∃ mem, g = some mem ∧ ((mem.heap 0).source 0).sent.msg = [6, 7, 8, 9]) ∧
      ((s.module 0).fiber 0).message = [6, 7, 8] ∧ (s.threads 0).buf = [10]) ∧
    ∃ mem, g = some mem ∧
      (∀ j, ∀ a ∈ (s.module j).fibers,
        ((mem.heap j).source a).Intact ((s.module j).fiber a).src ((s.module j).fiber a).message) ∧
      ∀ t, (mem.record t).Intact (s.threads t).s ((s.threads t).buf.take (s.threads t).s.size) := by
  have hidle : AloneInSync (boot [⟨1, false⟩, ⟨1, false⟩]) (.requestSync 0 0 0 [1, 2, 3] .granted) := by
    rintro t rid ⟨_, _, ⟨⟩⟩
  have hothers : ∀ (p : Sys × Option Memory) (a : Act), a.takesExtId = false → AloneInSync p.1 a := by
    intro p a ha
    cases a <;> trivial
  obtain ⟨⟨s, g⟩, hrun, hs⟩ : ∃ p, CopyingRun AloneInSync [⟨1, false⟩, ⟨1, false⟩] p ∧
      decide ((p.2.map fun mem => ((mem.heap 0).source 0).sent.msg) = some [6, 7, 8, 9] ∧
        ((p.1.module 0).fiber 0).message = [6, 7, 8] ∧ (p.1.threads 0).buf = [10]) = true :=
    Lts.exists_run_after (a := .requestSync 0 0 0 [1, 2, 3] .granted) hothers hidle cutReplyRun (by decide +kernel)
  obtain ⟨hsent, hmessages⟩ := of_decide_eq_true hs
  exact ⟨s, g, hrun, ⟨Option.map_eq_some_iff.mp hsent, hmessages⟩, payload_intact hrun⟩

end Coseq
