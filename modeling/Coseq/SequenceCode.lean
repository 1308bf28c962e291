import Coseq.CallOrder
import Coseq.Coroutine

/-! Applications: the code of the sequences and handlers, and what each of them promises. The terms of an application
say which replies answer a request and in which order calls go. The code of a sequence is checked against them alone,
with what it still owes and is still owed. In a run of the application every fiber follows its code. -/

namespace Coseq

/-- What a call returns: the source record, with the message it points to, and the value of the call. A pointer to
the record is `some` value, `NULL` and `false` are none. -/
structure Answer where
  src : Src
  msg : Bytes
  value : Option Nat

/-- The value of a call that returns at once. -/
def Call.value (m m' : Module) (a : FiberRef) : Call → Option Nat
  | .requestAsync .. | .send .. => some m.reqId
  | .waitReply | .gather | .gatherNext =>
      if (m.fiber a).asyncOutstanding = 0 ∧ (m.fiber a).rq = [] then none else some 0
  | .regNotify _ =>
      if m'.notifyClients.length = m.notifyClients.length then none
      else m'.notifyClients.head?.map NotifyClient.clientId
  | .unregNotify .. => if m'.notifyClients.length = m.notifyClients.length then none else some 0
  | .notifyNext => (m'.fiber a).notifying.map NotifyLoop.n
  | _ => some 0

/-- What the fiber sees when it goes on. -/
def Module.answer (m : Module) (a : FiberRef) (value : Option Nat) : Answer :=
  ⟨(m.fiber a).src, (m.fiber a).message, value⟩

abbrev SeqCode (Label : Type*) := Coroutine.Code Call Answer Label

abbrev SeqState (Label : Type*) := Coroutine.State Call Answer Label

/-- The code of what the modules register, and its blocks. -/
structure App (Label : Type*) where
  entry : Nat → Fn → Answer → SeqCode Label
  blocks : Label → SeqCode Label

/-- A request: the module and the sequence it names, and its message. -/
structure Ask where
  target : Nat
  seq : Nat
  msg : Bytes
  deriving DecidableEq

def Call.ask : Call → Option Ask
  | .request j q msg | .requestTimeout j q msg _ | .requestAsync j q msg | .send j q msg => some ⟨j, q, msg⟩
  | _ => none

/-- Where the code is after the call: it goes on if the call returns at once. -/
def Call.made {Label : Type*} (c : Call) (blocks : Label → SeqCode Label) (m m' : Module) (a : FiberRef)
    (st : SeqState Label) : SeqState Label :=
  if m'.current = some a then (st.enter blocks).answer (m'.answer a (c.value m m' a)) else st.enter blocks

/-! ### Runs of an application -/

/-- Where the code of each fiber is, and which request each id of a module and each external id stands for. -/
structure Control (Label : Type*) where
  state : Nat → FiberRef → SeqState Label
  asked : Nat → Nat → Option Ask
  called : Nat → Option Ask

namespace Control

variable {Label : Type*} (app : App Label) (g : Control Label)

def setState (i : Nat) (a : FiberRef) (st : SeqState Label) : Control Label :=
  { g with state := Function.update g.state i (Function.update (g.state i) a st) }

/-- A fiber begins with its code, and a parked one goes on with what it waited for. -/
def resume (m m' : Module) (i : Nat) (a : FiberRef) : Control Label :=
  g.setState i a <|
    if a < m.nextFiber then (g.state i a).answer (m'.answer a (some 0))
    else .ready (app.entry i (m'.fiber a).fn (m'.answer a (some 0)))

/-- The running fiber makes its next call. -/
def call (m m' : Module) (i : Nat) (a : FiberRef) (c : Call) : Control Label :=
  { g.setState i a (c.made app.blocks m m' a (g.state i a)) with
    asked := match c.ask with
      | some q => Function.update g.asked i (Function.update (g.asked i) m.reqId (some q))
      | none => g.asked }

def note (s : Sys) (act : Act) (s' : Sys) (g : Control Label) : Control Label :=
  match act with
  | .sched i _ =>
      match (s'.module i).current with
      | some a => g.resume app (s.module i) (s'.module i) i a
      | none => g
  | .call i c _ =>
      match (s.module i).current with
      | some a => g.call app (s.module i) (s'.module i) i a c
      | none => g
  | .requestSync _ i q msg _ | .requestAsync _ i q msg =>
      { g with called := Function.update g.called s.ctx.rid (some ⟨i, q, msg⟩) }
  | _ => g

def start : Control Label := ⟨fun _ _ => .ready .ret, fun _ _ => none, fun _ => none⟩

end Control

/-- The fiber that makes a call makes the one that comes next in its code. -/
def Follows {Label : Type*} (app : App Label) (p : Sys × Control Label) : Act → Prop
  | .call i c _ => ∀ a ∈ (p.1.module i).current,
      (p.2.state i a).next app.blocks = some (if c = .ret then none else some c)
  | _ => True

instance {Label : Type*} (app : App Label) (p : Sys × Control Label) (act : Act) : Decidable (Follows app p act) :=
  match act with
  | .call i c _ => inferInstanceAs (Decidable (∀ a ∈ (p.1.module i).current,
      (p.2.state i a).next app.blocks = some (if c = .ret then none else some c)))
  | .tick .. | .sched .. | .stop .. | .requestSync .. | .wakeup .. | .requestAsync .. | .asyncPost .. => .isTrue trivial

/-- Ids and memory do not run out, and every fiber follows its code. -/
def Plays {Label : Type*} (app : App Label) (p : Sys × Control Label) (act : Act) : Prop :=
  EveryModule Ample p.1 act ∧ Follows app p act

instance {Label : Type*} (app : App Label) (p : Sys × Control Label) (act : Act) : Decidable (Plays app p act) :=
  inferInstanceAs (Decidable (_ ∧ _))

/-- The runs of an application on an instance set up with `tbl`. -/
abbrev AppRun {Label : Type*} (app : App Label) (tbl : List Reg) : Sys × Control Label → Prop :=
  Lts.Run (Lts.watch Sys.step (Control.note app)) (Plays app) (boot tbl, Control.start)

/-! ### What the sequences promise -/

/-- What answers a request, which sequences there are, and the order of the calls. -/
structure Terms where
  meets : Ask → Result → Bytes → Prop
  tbl : List Reg
  rank : Nat → Fn → Nat
  limit : Nat → Nat

/-- What is known of a fiber by its code alone: what it is, the request it has not answered yet, and its requests
that `coseq_wait_reply` has not handed out, by id. -/
structure Local where
  self : Nat × Fn
  owed : Option Ask
  asks : List (Nat × Ask)

namespace Terms

variable (T : Terms)

def Exists (j q : Nat) : Prop := j < T.tbl.length ∧ q < (T.tbl.getD j ⟨0, false⟩).nrSeq

/-- The sequence is below `g`, and so is what may hold the lock of its module. -/
def Below (g : Local) (j q : Nat) : Prop := max (T.rank j (.seq q)) (T.limit j) < T.rank g.self.1 g.self.2

/-- The contract of the calls. A sequence replies once, and a lock is taken with nothing outstanding. -/
def contract : Coroutine.Contract Call Answer Local where
  pre g
    | .request j q _ | .requestAsync j q _ => T.Exists j q ∧ T.Below g j q
    | .requestTimeout j q _ _ | .send j q _ => T.Exists j q
    | .reply r msg => ∃ ask, g.owed = some ask ∧ T.meets ask r msg
    | .lock => T.rank g.self.1 g.self.2 ≤ T.limit g.self.1 ∧ g.asks = []
    | .ret => False
    | _ => True
  post g c a g' :=
    match c with
    | .request j q msg => T.meets ⟨j, q, msg⟩ a.src.result a.msg ∧ g' = g
    | .requestTimeout j q msg _ =>
        (T.meets ⟨j, q, msg⟩ a.src.result a.msg ∨ a.src.result = .reqTimeout ∧ a.msg = []) ∧ g' = g
    | .requestAsync j q msg => ∃ rid, a.value = some rid ∧ (∀ x ∈ g.asks, x.1 ≠ rid) ∧
        g' = { g with asks := g.asks ++ [(rid, ⟨j, q, msg⟩)] }
    | .waitReply | .gather | .gatherNext =>
        (g.asks = [] ∧ a.value = none ∧ g' = g) ∨
          ∃ x ∈ g.asks, a.value = some 0 ∧ a.src.reqId = x.1 ∧ T.meets x.2 a.src.result a.msg ∧
            g' = { g with asks := g.asks.erase x }
    | .reply _ _ => g' = { g with owed := none }
    | _ => g' = g
  done g := g.owed = none ∧ g.asks = []

/-- What is known of a fiber that begins. -/
def begins (j : Nat) (msg : Bytes) : Fn → Local
  | .seq q => ⟨(j, .seq q), some ⟨j, q, msg⟩, []⟩
  | .recvNotify => ⟨(j, .recvNotify), none, []⟩

end Terms

/-- The code of every sequence and handler, taken alone, keeps the terms. `inv` is what holds where a block begins. -/
structure App.Keeps {Label : Type*} (app : App Label) (T : Terms) (inv : Label → Local → Prop) : Prop where
  entry : ∀ j fn (ans : Answer), (∀ q, fn = .seq q → T.Exists j q) →
    (app.entry j fn ans).Safe T.contract inv (Terms.begins j ans.msg fn)
  blocks : Coroutine.BlocksSafe T.contract inv app.blocks

end Coseq
