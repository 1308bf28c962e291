import Coseq.PayloadCopy
import Coseq.NotifyClients
import Coseq.FiberModes
import Mathlib.Data.List.Forall2

/-! The messages of one module in memory: of the events in its queues, of the replies its fibers have queued, and in
the source buffers of the fibers. Each function of the scheduler is accompanied by the copies it makes, and shown to
make them inside their blocks, so that the memory goes on holding what the lists of the model say. -/

namespace Coseq

open MemoryBlock

/-- The messages of one module: of its events by serial, of the queued replies and the source records of its
fibers. -/
structure ModuleMem where
  event : Nat → MsgCopy
  queued : FiberRef → List MsgCopy
  source : FiberRef → Receiver

namespace ModuleMem

def empty : ModuleMem := ⟨fun _ => .nothing, fun _ => [], fun _ => .nothing⟩

def setSource (h : ModuleMem) (a : FiberRef) (r : Receiver) : ModuleMem :=
  { h with source := Function.update h.source a r }

def setQueued (h : ModuleMem) (a : FiberRef) (q : List MsgCopy) : ModuleMem :=
  { h with queued := Function.update h.queued a q }

/-- A fiber without replies and without a buffer. -/
def calloc (h : ModuleMem) (a : FiberRef) : ModuleMem := (h.setSource a .nothing).setQueued a []

/-- `set_src` for the fiber `a`. -/
def setSrc (h : ModuleMem) (a : FiberRef) (c : MsgCopy) (ok : Alloc) : Option ModuleMem :=
  ((h.source a).setSrc c.msg c.size c.sent ok).map (h.setSource a)

/-- `new_fiber`: `set_src` comes before `getcontext`, which may still fail. -/
def newFiber (h : ModuleMem) (m : Module) (c : MsgCopy) (ok : Alloc) : Option ModuleMem :=
  if ok .fiberBlock && ok .stack then (h.calloc m.nextFiber).setSrc m.nextFiber c ok else some h

def handleReply (h : ModuleMem) (m : Module) (e : Ev) (ok : Alloc) : Option ModuleMem :=
  match pendingPeek m.pending e.reqId with
  | none => some h
  | some a =>
      let f := m.fiber a
      if a ∉ m.fibers then some h
      else if f.waitingReply && f.waitReqId == e.reqId then h.setSrc a (h.event e.serial) ok
      else if f.waitingAny then h.setSrc a (h.event e.serial) ok
      else if ok .replyRec then
        ((h.event e.serial).handleReply ok).map fun c => h.setQueued a (h.queued a ++ [c])
      else some h

/-- The end of a request by its deadline: `set_src` with `NULL`. -/
def timerTurn (h : ModuleMem) (m : Module) (now : Timespec) (a : FiberRef) (ok : Alloc) : Option ModuleMem :=
  let f := m.fiber a
  if f.waitingTimer && !tsLt now f.deadline then
    if !(m.lockedBy ≠ none ∧ some a ≠ m.lockedBy) then
      if f.waitingReply then h.setSrc a ⟨none, 0, ⟨f.waitReqId, .reqTimeout, [], true⟩⟩ ok else some h
    else some h
  else some h

def dispatch (h : ModuleMem) (m : Module) (e : Ev) (ok : Alloc) : Option ModuleMem :=
  if m.lockedBy ≠ none ∧ e.type ≠ .notify then
    if e.type = .reply ∧ pendingPeek m.pending e.reqId = m.lockedBy then h.handleReply m e ok
    else some h
  else
    match e.type with
    | .start => if e.seqIdx ≥ m.nrSeq then some h else h.newFiber m (h.event e.serial) ok
    | .reply => h.handleReply m e ok
    | .notify => if m.recvNotify then h.newFiber m (h.event e.serial) ok else some h

def sched (h : ModuleMem) (m : Module) (ok : Alloc) : Option ModuleMem :=
  match m.phase with
  | .timers t (a :: _) => h.timerTurn m t a ok
  | .events =>
      match m.batch with
      | [] => some h
      | e :: _ => h.dispatch m e ok
  | _ => some h

/-- A queued reply is taken as the source of the fiber `a`. -/
def waitReply (h : ModuleMem) (a : FiberRef) (ok : Alloc) : Option ModuleMem :=
  match h.queued a with
  | [] => some h
  | c :: rest => (h.setQueued a rest).setSrc a c ok

/-- The part of a call that takes a reply. -/
def call (h : ModuleMem) (a : FiberRef) (ok : Alloc) : Call → Option ModuleMem
  | .waitReply | .gather | .gatherNext => h.waitReply a ok
  | _ => some h

end ModuleMem

/-- What a call passes on, and to whom. -/
def outgoing (m : Module) (a : FiberRef) : Call → Option (Origin × Sent)
  | .request d _ msg | .requestTimeout d _ msg _ | .requestAsync d _ msg | .send d _ msg =>
      some (.module d, ⟨m.reqId, .ignore, msg, true⟩)
  | .reply r msg => some ((m.fiber a).replyTo, ⟨(m.fiber a).replyReqId, r, msg, true⟩)
  | .notifyNext =>
      match (m.fiber a).notifying with
      | some ⟨category, msg, _, nc :: _⟩ =>
          match nc.listenerModule with
          | .module d => if nc.category = category then some (.module d, ⟨0, .success, msg, true⟩) else none
          | .external => none
      | _ => none
  | _ => none

/-! ### One module -/

/-- A queued reply and its copy in memory. -/
structure ReplyRec.Held (rr : ReplyRec) (c : MsgCopy) : Prop where
  stores : c.Stores rr.msg
  sent : c.sent.Delivers rr.reqId rr.result rr.msg

/-- The result that each START has, and the id and the result that each NOTIFY has. The records of a started sequence
and of `recv_notify` are given them as constants. -/
structure Ev.Plain (e : Ev) : Prop where
  start : e.type = .start → e.result = .ignore
  notify : e.type = .notify → e.reqId = 0 ∧ e.result = .success

/-- An event and its copy. -/
structure Ev.Held (e : Ev) (c : MsgCopy) : Prop where
  stores : c.Stores e.msg
  sent : c.sent.Delivers e.reqId e.result e.msg
  plain : e.Plain

/-- The replies and the source record of a fiber. -/
structure Fiber.Held (f : Fiber) (q : List MsgCopy) (r : Receiver) : Prop where
  queued : List.Forall₂ ReplyRec.Held f.rq q
  source : r.Shows f.src f.srcBuf

/-- A write to the record that leaves its replies and its source alone. -/
def Fiber.Keeps (f g : Fiber) : Prop := g.rq = f.rq ∧ g.src = f.src ∧ g.srcBuf = f.srcBuf

/-- The memory of the fibers of a module. -/
def ModuleMem.Fibers (h : ModuleMem) (m : Module) : Prop :=
  ∀ a < m.nextFiber, (m.fiber a).Held (h.queued a) (h.source a)

/-- The memory of a module. -/
structure ModuleMem.Carries (h : ModuleMem) (m : Module) : Prop where
  event : ∀ e ∈ m.queue, e.serial < m.posted ∧ e.Held (h.event e.serial)
  fibers : h.Fibers m

section OneModule

variable {h h' : ModuleMem} {m m' : Module} {a : FiberRef} {f : Fiber} {e : Ev} {c : MsgCopy} {ok : Alloc} {k : Nat}

theorem Fiber.Keeps.refl : f.Keeps f := ⟨rfl, rfl, rfl⟩

theorem Fiber.Held.keep {g : Fiber} {q : List MsgCopy} {r : Receiver} (hheld : f.Held q r) (hkeeps : f.Keeps g) :
    g.Held q r := by
  obtain ⟨hrq, hsrc, hbuf⟩ := hkeeps
  refine ⟨hrq ▸ hheld.queued, ?_⟩
  rw [hsrc, hbuf]
  exact hheld.source

namespace ModuleMem

/-- A step that leaves the replies and the sources of all fibers alone. -/
theorem Fibers.keep (hheld : h.Fibers m) (hnext : m'.nextFiber = m.nextFiber)
    (hfiber : ∀ a, (m.fiber a).Keeps (m'.fiber a)) : h.Fibers m' :=
  fun a ha => (hheld a (hnext ▸ ha)).keep (hfiber a)

theorem Fibers.same (hheld : h.Fibers m) (hnext : m'.nextFiber = m.nextFiber) (hfiber : m'.fiber = m.fiber) :
    h.Fibers m' := hheld.keep hnext fun a => by rw [hfiber]; exact .refl

/-- A step that writes the record of one fiber. -/
theorem Fibers.update {q : List MsgCopy} {r : Receiver} (hheld : h.Fibers m) (hnext : m'.nextFiber = m.nextFiber)
    (hfiber : m'.fiber = Function.update m.fiber a f) (hqueued : h'.queued = Function.update h.queued a q)
    (hsource : h'.source = Function.update h.source a r) (hf : f.Held q r) : h'.Fibers m' := by
  intro b hb
  rw [hfiber, hqueued, hsource]
  by_cases hba : b = a
  · subst hba
    rw [Function.update_self, Function.update_self, Function.update_self]
    exact hf
  · rw [Function.update_of_ne hba, Function.update_of_ne hba, Function.update_of_ne hba]
    exact hheld b (hnext ▸ hb)

/-- Resuming a fiber writes neither its replies nor its source. -/
theorem Fibers.resume (hheld : h.Fibers m) (a : FiberRef) (why : Wake) : h.Fibers (Coseq.resume m a why) :=
  hheld.keep rfl (Fiber.update_related (fun _ => .refl) .refl)

/-- `set_src` for a fiber. -/
theorem setSrc_held {l : Bytes} {r : Result} {rid : Nat} {q : List MsgCopy}
    (hsource : (h.source a).Holds f.srcBuf k) (ok : Alloc) (hq : List.Forall₂ ReplyRec.Held f.rq q) (hc : c.Stores l)
    (hsent : c.sent.Delivers rid r l) (t s client : Nat) :
    ∃ x, h.setSrc a c ok = some (h.setSource a x) ∧ (f.setSrc l r t s client rid ok).Held q x := by
  obtain ⟨x, hx, hshows⟩ := Receiver.setSrc_shows hsource ok hc.reads hsent t s client
  rw [setSrc, hc.size, hx]
  exact ⟨x, rfl, hq, hshows⟩

/-- The copies have been made, and the fibers of the module after them are held. -/
def Serves (o : Option ModuleMem) (h : ModuleMem) (m' : Module) : Prop :=
  ∃ h', o = some h' ∧ h'.event = h.event ∧ h'.Fibers m'

theorem Fibers.serves (hheld : h.Fibers m) : Serves (some h) h m := ⟨h, rfl, rfl, hheld⟩

/-- A source record is written, and its fiber resumed. -/
theorem Fibers.write {l : Bytes} {r : Result} {rid : Nat} (hheld : h.Fibers m) (ha : a < m.nextFiber)
    (hc : c.Stores l) (hsent : c.sent.Delivers rid r l) (t s client : Nat) (hnext : m'.nextFiber = m.nextFiber)
    (hfiber : m'.fiber = m.fiber) (why : Wake) : Serves (h.setSrc a c ok) h
      (Coseq.resume (m'.setFiber a ((m.fiber a).setSrc l r t s client rid ok)) a why) := by
  obtain ⟨hqueued, hsource⟩ := hheld a ha
  obtain ⟨x, hx, hwritten⟩ := setSrc_held hsource.holds ok hqueued hc hsent t s client
  refine ⟨h.setSource a x, hx, rfl, Fibers.resume ?_ a why⟩
  refine hheld.update hnext ?_ (Function.update_eq_self _ _).symm rfl hwritten
  rw [← hfiber]
  rfl

/-- `handle_reply`. -/
theorem handleReply_held (hheld : h.Fibers m) (hborn : ∀ a ∈ m.fibers, a < m.nextFiber)
    (he : e.Held (h.event e.serial)) : Serves (h.handleReply m e ok) h (Coseq.handleReply m e ok) := by
  unfold handleReply Coseq.handleReply
  cases pendingPeek m.pending e.reqId with
  | none => exact hheld.serves
  | some a =>
      dsimp only
      by_cases hfreed : a ∉ m.fibers
      · rw [if_pos hfreed, if_pos hfreed]
        exact (hheld.same rfl rfl).serves
      · have ha : a < m.nextFiber := hborn a (not_not.mp hfreed)
        rw [if_neg hfreed, if_neg hfreed]
        split
        · exact hheld.write ha he.stores he.sent _ _ _ rfl rfl .reply
        · split
          · exact hheld.write ha he.stores he.sent _ _ _ rfl rfl .reply
          · split
            · obtain ⟨hqueued, hsource⟩ := hheld a ha
              obtain ⟨x, hx, hstores, hsent⟩ := MsgCopy.duplicate_stores (h.event e.serial).sent
                (ok .replyMsg) he.stores.reads
              rw [MsgCopy.handleReply, he.stores.size, hx]
              refine ⟨h.setQueued a (h.queued a ++ [x]), rfl, rfl, ?_⟩
              refine hheld.update rfl rfl rfl (Function.update_eq_self _ _).symm ⟨?_, hsource⟩
              exact List.rel_append hqueued (.cons ⟨hstores, hsent _ _ he.sent⟩ .nil)
            · exact (hheld.same rfl rfl).serves

/-- The record of a fiber that does not exist yet. -/
theorem Fibers.unborn {q : List MsgCopy} {r : Receiver} (hheld : h.Fibers m)
    (hqueued : h'.queued = Function.update h.queued m.nextFiber q)
    (hsource : h'.source = Function.update h.source m.nextFiber r) : h'.Fibers m := by
  intro b hb
  rw [hqueued, hsource, Function.update_of_ne (Nat.ne_of_lt hb), Function.update_of_ne (Nat.ne_of_lt hb)]
  exact hheld b hb

/-- `new_fiber`, with or without a context for the fiber. -/
theorem newFiber_held (ok : Alloc) (fn : Fn) (seq : Nat) (replyTo : Origin) (t client : Nat) {rid : Nat} {l : Bytes}
    {r : Result} (hheld : h.Fibers m) (hc : c.Stores l) (hsent : c.sent.Delivers rid r l) :
    ∃ h', h.newFiber m c ok = some h' ∧ h'.event = h.event ∧ h'.Fibers m ∧
      ∀ m' a, Coseq.newFiber m fn seq replyTo rid l r t client ok = some (m', a) → h'.Fibers m' := by
  unfold newFiber Coseq.newFiber
  by_cases hblock : (ok .fiberBlock && ok .stack) = true
  · obtain ⟨f, hf⟩ : ∃ f : Fiber, f = { Fiber.blank with
      fn := fn, seqIdx := seq, replyTo := replyTo, replyReqId := rid } := ⟨_, rfl⟩
    have hblank : ((h.calloc m.nextFiber).source m.nextFiber).Holds f.srcBuf 0 := by
      change Receiver.Holds (Function.update h.source m.nextFiber .nothing m.nextFiber) f.srcBuf 0
      rw [Function.update_self, hf]
      exact Receiver.holds_nothing
    have hnone : List.Forall₂ ReplyRec.Held f.rq [] := by
      rw [hf]
      exact .nil
    obtain ⟨x, hx, hwritten⟩ := setSrc_held hblank ok hnone hc hsent t seq client
    have hsource : ((h.calloc m.nextFiber).setSource m.nextFiber x).source =
        Function.update h.source m.nextFiber x := Function.update_idem ..
    have hold : ((h.calloc m.nextFiber).setSource m.nextFiber x).Fibers m := hheld.unborn rfl hsource
    rw [if_pos hblock, hx]
    refine ⟨_, rfl, rfl, hold, fun m' a hmake => ?_⟩
    rw [hblock, Bool.true_and] at hmake
    split at hmake
    · obtain ⟨rfl, rfl⟩ := Prod.mk.inj (Option.some.inj hmake)
      rw [← hf]
      intro b hb
      by_cases hnew : b = m.nextFiber
      · subst hnew
        rw [hsource]
        change Fiber.Held (Function.update m.fiber m.nextFiber _ m.nextFiber)
          (Function.update h.queued m.nextFiber [] m.nextFiber) (Function.update h.source m.nextFiber x m.nextFiber)
        rw [Function.update_self, Function.update_self, Function.update_self]
        exact hwritten
      · have hlt : b < m.nextFiber := Nat.lt_of_le_of_ne (Nat.le_of_lt_succ hb) hnew
        refine (hold b hlt).keep ?_
        change (m.fiber b).Keeps (Function.update m.fiber m.nextFiber _ b)
        rw [Function.update_of_ne hnew]
        exact .refl
    · cases hmake
  · rw [if_neg hblock, Bool.eq_false_iff.mpr hblock, Bool.false_and]
    exact ⟨h, rfl, rfl, hheld, fun m' a hmake => by cases hmake⟩

/-- The start of a sequence for an event. -/
theorem startSeq_held (hheld : h.Fibers m) (he : e.Held (h.event e.serial)) (htype : e.type = .start) :
    Serves (if e.seqIdx ≥ m.nrSeq then some h else h.newFiber m (h.event e.serial) ok) h (startSeq m e ok) := by
  unfold startSeq
  split
  · exact (hheld.same rfl rfl).serves
  · have hsent := he.sent
    rw [he.plain.start htype] at hsent
    obtain ⟨h', hh', hevent, hold, hnew⟩ := newFiber_held ok (.seq e.seqIdx) e.seqIdx e.requester
      e.requester.u8 0 hheld he.stores hsent
    split
    · exact ⟨h', hh', hevent, hold.same rfl rfl⟩
    · rename_i m' a hmake
      exact ⟨h', hh', hevent, Fibers.resume ((hnew m' a hmake).same rfl rfl) a .reply⟩

theorem startNotify_held (hheld : h.Fibers m) (he : e.Held (h.event e.serial)) (htype : e.type = .notify) :
    Serves (if m.recvNotify then h.newFiber m (h.event e.serial) ok else some h) h (startNotify m e ok) := by
  unfold startNotify
  split
  · obtain ⟨hid, hresult⟩ := he.plain.notify htype
    have hsent := he.sent
    rw [hid, hresult] at hsent
    obtain ⟨h', hh', hevent, hold, hnew⟩ := newFiber_held ok .recvNotify 0 .external e.requester.u8
      e.clientId hheld he.stores hsent
    split
    · exact ⟨h', hh', hevent, hold⟩
    · rename_i m' a hmake
      exact ⟨h', hh', hevent, Fibers.resume ((hnew m' a hmake).same rfl rfl) a .reply⟩
  · exact hheld.serves

theorem dispatch_held (hheld : h.Fibers m) (hborn : ∀ a ∈ m.fibers, a < m.nextFiber)
    (he : e.Held (h.event e.serial)) : Serves (h.dispatch m e ok) h (Coseq.dispatch m e ok) := by
  unfold dispatch Coseq.dispatch
  split
  · split
    · exact handleReply_held hheld hborn he
    · exact (hheld.same rfl rfl).serves
  · cases htype : e.type with
    | start => exact startSeq_held hheld he htype
    | reply => exact handleReply_held hheld hborn he
    | notify => exact startNotify_held hheld he htype

/-- The timer pass writes the record of a request whose deadline has come, with nothing in it. -/
theorem timerTurn_held {now : Timespec} (hheld : h.Fibers m) (ha : a < m.nextFiber) :
    Serves (h.timerTurn m now a ok) h (Coseq.timerTurn m now a ok) := by
  unfold timerTurn Coseq.timerTurn
  dsimp only
  split
  · split
    · split
      · have hstores : MsgCopy.Stores ⟨none, 0, ⟨(m.fiber a).waitReqId, .reqTimeout, [], true⟩⟩ [] :=
          ⟨rfl, Ptr.reads_nil⟩
        exact hheld.write ha hstores Sent.delivers_all _ _ _ rfl rfl (.expired now)
      · exact (hheld.resume a _).serves
    · exact hheld.serves
  · exact hheld.serves

theorem Fibers.takeBatch (hheld : h.Fibers m) : h.Fibers (Coseq.takeBatch m) := by
  unfold Coseq.takeBatch
  split
  · exact hheld.same rfl rfl
  · exact hheld.same rfl rfl

theorem Fibers.enterWait (hheld : h.Fibers m) : h.Fibers (Coseq.enterWait (mergeDeferred m)) := by
  have hmerged : h.Fibers (mergeDeferred m) := by
    rw [merge_eq m]
    exact hheld.same rfl rfl
  unfold Coseq.enterWait
  split
  · exact hmerged.same rfl rfl
  · exact hmerged.takeBatch

/-- `sched_loop`, up to its next point. -/
theorem sched_held {now : Timespec} (ok : Alloc) (hcarries : h.Carries m) (hmodes : Modes m) :
    Serves (h.sched m ok) h (Coseq.sched m now ok) := by
  obtain ⟨hevent, hheld⟩ := hcarries
  unfold sched Coseq.sched
  cases hphase : m.phase with
  | top => exact hheld.enterWait.serves
  | waiting d => exact hheld.takeBatch.serves
  | clock => exact (hheld.same rfl rfl).serves
  | timers t rest =>
      cases rest with
      | nil => exact (hheld.same rfl rfl).serves
      | cons a rest =>
          have ha : a < m.nextFiber := hmodes.born a (hmodes.timers t (a :: rest) hphase a List.mem_cons_self)
          exact timerTurn_held (m := { m with phase := .timers t rest }) (hheld.same rfl rfl) ha
  | events =>
      dsimp only
      cases hbatch : m.batch with
      | nil => exact (hheld.same rfl rfl).serves
      | cons e rest =>
          have hqueue : e ∈ m.queue := by simp [Module.queue, hbatch]
          exact dispatch_held (m := { m with phase := .events, batch := rest }) (hheld.same rfl rfl) hmodes.born
            (hevent e hqueue).2
  | stopped => exact hheld.serves
  | undefined => exact hheld.serves

/-- A queued reply is written into the source record by `coseq_wait_reply`. -/
theorem Fibers.dequeue {rr : ReplyRec} {rest : List ReplyRec} (hheld : h.Fibers m) (ha : a < m.nextFiber)
    (hf : (m.fiber a).Keeps f) (hrq : f.rq = rr :: rest) (hnext : m'.nextFiber = m.nextFiber)
    (hfiber : m'.fiber = Function.update m.fiber a (f.dequeued rr rest ok)) : Serves (h.waitReply a ok) h m' := by
  obtain ⟨hqueued, hsource⟩ := (hheld a ha).keep hf
  rw [hrq] at hqueued
  unfold waitReply
  cases hq : h.queued a with
  | nil =>
      rw [hq] at hqueued
      cases hqueued
  | cons c q =>
      rw [hq] at hqueued
      obtain ⟨hc, hq⟩ := List.forall₂_cons.mp hqueued
      obtain ⟨x, hx, hwritten⟩ := setSrc_held (h := h.setQueued a q) (f := { f with rq := rest })
        hsource.holds ok hq hc.stores hc.sent 0 f.seqIdx 0
      exact ⟨_, hx, rfl, hheld.update hnext hfiber rfl rfl (hwritten.keep ⟨rfl, rfl, rfl⟩)⟩

theorem waitReply_empty (hheld : h.Fibers m) (ha : a < m.nextFiber) (hrq : (m.fiber a).rq = []) :
    h.waitReply a ok = some h := by
  have hqueued := (hheld a ha).queued
  rw [hrq] at hqueued
  unfold waitReply
  rw [List.forall₂_nil_left_iff.mp hqueued]

theorem call_enter (h : ModuleMem) (ok : Alloc) {obs : List Obs} {g : Bool} {call : Call}
    (henter : EnterWait (m.fiber a) a call f obs g) :
    h.call a ok call = h.waitReply a ok ∧ (m.fiber a).Keeps f := by
  cases henter <;> exact ⟨rfl, rfl, rfl, rfl⟩

/-- The running fiber makes a call. -/
theorem call_held {call : Call} {now : Timespec} {id : Nat} {eff : Effect} (hheld : h.Fibers m) (hmodes : Modes m)
    (hcur : m.current = some a) (hmove : Move m (.call call now id ok) eff m') :
    Serves (h.call a ok call) h m' := by
  have ha : a < m.nextFiber := hmodes.born a (hmodes.running a hcur).1
  have hset : ∀ {f : Fiber} {m' : Module}, m'.nextFiber = m.nextFiber → m'.fiber = Function.update m.fiber a f →
      (m.fiber a).Keeps f → Serves (some h) h m' := fun hnext hfiber hkeeps =>
    (hheld.keep hnext fun b => by rw [hfiber]; exact Fiber.update_related (fun _ => .refl) hkeeps b).serves
  cases hmove with
  | @issue _ _ _ b _ kind _ _ _ hcur' hissue =>
      obtain rfl := Option.some.inj (hcur.symm.trans hcur')
      have hkeeps : (m.fiber a).Keeps ((m.fiber a).issued kind m.reqId) := by
        cases kind <;> exact ⟨rfl, rfl, rfl⟩
      have hnone : h.call a ok call = some h := by cases hissue <;> rfl
      rw [hnone]
      exact hset rfl rfl hkeeps
  | @«local» _ _ _ b _ f ncs obs cur _ hcur' hcall =>
      obtain rfl := Option.some.inj (hcur.symm.trans hcur')
      cases hcall with
      | null henter _ hrq hnull =>
          obtain ⟨hcall, hkeeps⟩ := call_enter h ok henter
          rw [hcall, waitReply_empty hheld ha (hkeeps.1.symm.trans hrq)]
          have hsame : (m.fiber a).Keeps f := by cases hnull <;> exact hkeeps
          exact hset rfl rfl hsame
      | queued henter hrq =>
          obtain ⟨hcall, hkeeps⟩ := call_enter h ok henter
          rw [hcall]
          exact hheld.dequeue ha hkeeps hrq rfl rfl
      | park henter _ hrq =>
          obtain ⟨hcall, hkeeps⟩ := call_enter h ok henter
          rw [hcall, waitReply_empty hheld ha (hkeeps.1.symm.trans hrq)]
          exact hset rfl rfl hkeeps
      | idle hcall =>
          obtain ⟨category, rfl⟩ | ⟨category, id, rfl⟩ := hcall
          · exact hset rfl rfl .refl
          · exact hset rfl rfl .refl
      | notifying hcall =>
          obtain rfl | ⟨category, msg, rfl⟩ := hcall
          · exact hset rfl rfl ⟨rfl, rfl, rfl⟩
          · exact hset rfl rfl ⟨rfl, rfl, rfl⟩
      | _ => exact hset rfl rfl ⟨rfl, rfl, rfl⟩
  | lock => exact (hheld.same rfl rfl).serves
  | unlock => exact (hheld.same rfl rfl).serves
  | ret hcur' =>
      obtain rfl := Option.some.inj (hcur.symm.trans hcur')
      exact hset rfl rfl ⟨rfl, rfl, rfl⟩

/-- No step of the module itself adds an event. -/
theorem Serves.carries {o : Option ModuleMem} {act : ModAct} {eff : Effect} (hserves : Serves o h m')
    (hcarries : h.Carries m) (hmove : Move m act eff m') : ∃ h', o = some h' ∧ h'.Carries m' := by
  obtain ⟨h', ho, hevent, hfibers⟩ := hserves
  refine ⟨h', ho, fun e he => ?_, hfibers⟩
  rw [hmove.accepted.2, hevent]
  exact hcarries.event e (hmove.queue_subset e he)

/-- The place of the next event is written, and nothing comes. -/
theorem Carries.unposted (hcarries : h.Carries m) :
    { h with event := Function.update h.event m.posted c }.Carries m := by
  refine ⟨fun e he => ?_, hcarries.fibers⟩
  obtain ⟨hlt, hheld⟩ := hcarries.event e he
  refine ⟨hlt, ?_⟩
  dsimp only
  rw [Function.update_of_ne (Nat.ne_of_lt hlt)]
  exact hheld

theorem Carries.enqueue (hcarries : h.Carries m) (he : e.Held c) :
    { h with event := Function.update h.event m.posted c }.Carries (m.enqueue e) := by
  refine ⟨fun e' he' => ?_, hcarries.fibers⟩
  dsimp only
  rcases Module.mem_enqueue he' with hold | rfl
  · obtain ⟨hlt, hheld⟩ := hcarries.event e' hold
    refine ⟨Nat.lt_succ_of_lt hlt, ?_⟩
    rw [Function.update_of_ne (Nat.ne_of_lt hlt)]
    exact hheld
  · refine ⟨Nat.lt_succ_self _, ?_⟩
    rw [Function.update_self]
    exact ⟨he.stores, he.sent, he.plain.start, he.plain.notify⟩

end ModuleMem

end OneModule

/-! ### What a call passes on -/

/-- The event that `make_ev` has made of what was passed. -/
structure Ev.Made (e : Ev) (x : Sent) (ok : Alloc) : Prop where
  event : ok .event = true
  msg : e.msg = if ok .eventMsg then x.msg else []
  reqId : e.reqId = x.reqId
  result : e.result = x.result
  plain : e.Plain

/-- The effect of a call carries what it passes on. -/
inductive Passes (ok : Alloc) : Effect → Option (Origin × Sent) → Prop where
  | quiet {eff : Effect} (heff : eff = .none ∨ ∃ id, eff = .nextClientId id) : Passes ok eff none
  | post {d : Nat} {x : Sent} {o : Option Ev} (he : ∀ e ∈ o, e.Made x ok) :
      Passes ok (.post d o) (some (.module d, x))
  | reply {rid : Nat} {r : Result} {msg : Bytes} :
      Passes ok (.extDeliver rid r msg) (some (.external, ⟨rid, r, msg, true⟩))

section Passing

variable {m m' : Module} {a : FiberRef} {ok : Alloc} {x : Sent}

theorem makeEv_made {type : EvType} {seq rid : Nat} {o : Origin} {r : Result} {msg : Bytes}
    (hstart : type = .start → r = .ignore) (hnotify : type = .notify → rid = 0 ∧ r = .success) :
    ∀ e ∈ makeEv type seq rid o r msg ok, e.Made ⟨rid, r, msg, true⟩ ok := by
  intro e he
  unfold makeEv at he
  split at he
  · rename_i hevent
    obtain rfl := Option.some.inj he
    exact ⟨hevent, rfl, rfl, rfl, hstart, hnotify⟩
  · cases he

theorem extStart_made (seq rid : Nat) (msg : Bytes) (ok : Alloc) :
    ∀ e ∈ makeEv .start seq rid .external .ignore msg ok, e.Made ⟨rid, .ignore, msg, true⟩ ok :=
  makeEv_made (fun _ => rfl) fun h => by cases h

theorem startEv_passes {d seq : Nat} {msg : Bytes} :
    Passes ok (startEv m d seq msg ok) (some (.module d, ⟨m.reqId, .ignore, msg, true⟩)) :=
  .post (makeEv_made (fun _ => rfl) fun h => by cases h)

theorem reply_passes {r : Result} {msg : Bytes} :
    Passes ok (reply m a r msg ok).2 (outgoing m a (.reply r msg)) := by
  unfold reply outgoing
  dsimp only
  cases (m.fiber a).replyTo with
  | external => exact .reply
  | module d => exact .post (makeEv_made (fun h => by cases h) fun h => by cases h)

theorem notifyNext_passes {l : NotifyLoop} (hl : (m.fiber a).notifying = some l) :
    Passes ok (notifyNext m a l ok).2 (outgoing m a .notifyNext) := by
  obtain ⟨category, msg, n, rest⟩ := l
  unfold notifyNext outgoing
  rw [hl]
  cases rest with
  | nil => exact .quiet (.inl rfl)
  | cons nc rest =>
      dsimp only
      by_cases hcategory : nc.category = category
      · rw [if_neg (not_not.mpr hcategory)]
        dsimp only
        cases nc.listenerModule with
        | external => exact .quiet (.inl rfl)
        | module d =>
            dsimp only
            rw [if_pos hcategory]
            refine .post fun e he => ?_
            obtain ⟨e₀, he₀, rfl⟩ := Option.map_eq_some_iff.mp he
            have hmade := makeEv_made (fun h => by cases h) (fun _ => ⟨rfl, rfl⟩) e₀ he₀
            exact ⟨hmade.event, hmade.msg, hmade.reqId, hmade.result, hmade.plain.start, hmade.plain.notify⟩
      · rw [if_pos hcategory]
        cases nc.listenerModule with
        | external => exact .quiet (.inl rfl)
        | module d =>
            dsimp only
            rw [if_neg hcategory]
            exact .quiet (.inl rfl)

/-- Each call passes on what its effect carries. -/
theorem call_passes {c : Call} {now : Timespec} {id : Nat} {eff : Effect}
    (h : call m a c now id ok = some (m', eff)) : Passes ok eff (outgoing m a c) := by
  have hpair : ∀ {r : Module × Effect}, some r = some (m', eff) → r.2 = eff := fun hr =>
    congrArg Prod.snd (Option.some.inj hr)
  unfold call at h
  cases hloop : (m.fiber a).notifying with
  | some l =>
      rw [hloop] at h
      cases c with
      | notifyNext =>
          rw [← hpair h]
          exact notifyNext_passes hloop
      | _ => cases h
  | none =>
      rw [hloop] at h
      cases c with
      | notifyNext => cases h
      | request =>
          rw [← hpair h]
          exact startEv_passes
      | requestTimeout =>
          rw [← hpair h]
          exact startEv_passes
      | requestAsync =>
          rw [← hpair h]
          exact startEv_passes
      | send =>
          rw [← hpair h]
          exact startEv_passes
      | gatherNext =>
          obtain ⟨m₁, -, hr⟩ := Option.map_eq_some_iff.mp h
          obtain ⟨-, rfl⟩ := Prod.mk.inj hr
          exact .quiet (.inl rfl)
      | reply =>
          rw [← hpair h]
          exact reply_passes
      | regNotify =>
          rw [← hpair h]
          unfold regNotify
          dsimp only
          split
          · exact .quiet (.inl rfl)
          · split
            · exact .quiet (.inr ⟨_, rfl⟩)
            · exact .quiet (.inr ⟨_, rfl⟩)
      | ret =>
          obtain ⟨-, hret⟩ := Option.ite_none_right_eq_some.mp h
          rw [← hpair hret]
          exact .quiet (.inl rfl)
      | _ =>
          rw [← hpair h]
          exact .quiet (.inl rfl)

end Passing

end Coseq
