import Coseq.SetupRollback
import Coseq.NotifyOrder

/-! The C++ wrapper: `manager::setup` registers one pair of wrapper functions for all modules, and a wrapper
finds its object and its sequence through the user pointer of the module and the fiber's own index. -/

namespace Coseq

/-- `sequence_t`. The callable is left open. -/
structure CppSequence (β : Type) where
  seq : β
  name : Bytes

/-- `module_base`, with the override of its virtual method. -/
structure ModuleBase (β : Type) where
  name : Bytes
  queMax : Nat
  idx : Nat
  sequences : List (CppSequence β)
  onReceiveNotify : β

/-- `module_base *`. -/
abbrev ObjRef := Nat

abbrev Heap (β : Type) := ObjRef → ModuleBase β

/-- The functions that the C core gets: `seq_wrapper` and `notify_wrapper`. -/
inductive Wrapper where
  | seq
  | notify
  deriving DecidableEq

/-- `manager`. -/
structure Manager where
  ctx : Instance Wrapper ObjRef
  hold : List ObjRef
  cSeqs : List (List (SeqEntry Wrapper))
  cTbl : List (RegEntry Wrapper ObjRef)

/-- A manager none of whose modules runs: a new one, or one that has been torn down. -/
structure IdleManager extends Manager where
  idle : ctx.nrModule = 0

variable {β : Type}

/-- The loop of `manager::setup`: the objects, and the two tables as far as they are filled. -/
structure Registration (β : Type) where
  heap : Heap β
  cSeqs : List (List (SeqEntry Wrapper))
  cTbl : List (RegEntry Wrapper ObjRef)

def ModuleBase.cSeqs (mb : ModuleBase β) : List (SeqEntry Wrapper) :=
  mb.sequences.map fun s => { fn := .seq, name := s.name }

/-- The `coseq_reg_t` of a module. The count of its sequences is cast to `uint8_t`. -/
def ModuleBase.reg (mb : ModuleBase β) (ref : ObjRef) : RegEntry Wrapper ObjRef where
  name := some mb.name
  nrQueMax := mb.queMax
  seqArray := mb.cSeqs
  nrSeqMax := mb.cSeqs.length % 256
  recvNotify := some .notify
  user := some ref

/-- One turn of the loop. -/
def Registration.register (r : Registration β) (p : ObjRef × Nat) : Registration β :=
  let heap := Function.update r.heap p.1 { r.heap p.1 with idx := p.2 % 256 }
  { heap := heap
    cSeqs := r.cSeqs ++ [(heap p.1).cSeqs]
    cTbl := r.cTbl ++ [(heap p.1).reg p.1] }

def Registration.all (heap : Heap β) (modules : List ObjRef) : Registration β :=
  modules.zipIdx.foldl Registration.register ⟨heap, [], []⟩

/-- `coseq_reg_t()`. -/
def RegEntry.zero : RegEntry Wrapper ObjRef := ⟨none, 0, [], 0, none, none⟩

/-- The call of `_setup` at the end. The number of modules is cast to `uint8_t`. -/
def Registration.setup (fails : Failing) (c : Instance Wrapper ObjRef) (r : Registration β) (n : Nat) :
    Bool × Instance Wrapper ObjRef :=
  Coseq.setup fails c (fun i => r.cTbl.getD i RegEntry.zero) (n % 256)

/-- `manager::setup`: the value returned, the manager and the objects after it. -/
def Manager.setup (fails : Failing) (mgr : Manager) (heap : Heap β) (modules : List ObjRef) :
    Bool × Manager × Heap β :=
  let r := Registration.all heap modules
  let res := r.setup fails mgr.ctx modules.length
  (res.1, { mgr with ctx := res.2, hold := modules, cSeqs := r.cSeqs, cTbl := r.cTbl }, r.heap)

/-! ### Dispatch -/

/-- The function a fiber is made with: `m->seqs[seq_idx].fn` or `m->recv_notify`. -/
def Slot.fn {φ υ : Type} (s : Slot φ υ) : Fn → Option φ
  | .seq idx => (s.seqs[idx]?).map SeqEntry.fn
  | .recvNotify => s.recvNotify

/-- What a wrapper runs: `dispatch_seq` or `dispatch_notify` of the object behind `coseq_self_user`. -/
def Wrapper.target (heap : Heap β) (user : Option ObjRef) (f : Fiber) : Wrapper → Option (ObjRef × β)
  | .seq => user.bind fun mb => ((heap mb).sequences[f.seqIdx]?).map fun s => (mb, s.seq)
  | .notify => user.map fun mb => (mb, (heap mb).onReceiveNotify)

/-- The object and its callable that the fiber `f` of module `i` runs. -/
def Instance.target (c : Instance Wrapper ObjRef) (heap : Heap β) (i : Nat) (f : Fiber) : Option (ObjRef × β) :=
  ((c.slot i).fn f.fn).bind fun w => w.target heap (c.slot i).user f

/-- There is memory for a fiber. -/
def Alloc.GrantsFiber (ok : Alloc) : Prop := ok .fiberBlock = true ∧ ok .stack = true ∧ ok .context = true

variable (c : Instance Wrapper ObjRef) (heap : Heap β) (s : Sys) (i : Nat)

/-- Any event for module `i` is accepted by `post`. -/
def Accepts : Prop := ∀ e, (s.ctx.post i (some e)).modules i = (s.module i).enqueue e

/-- The dispatcher takes the event `e`: a new fiber goes on that runs `t`. -/
def Runs (e : Ev) (t : ObjRef × β) : Prop := ∀ ok, Alloc.GrantsFiber ok →
  (dispatch (s.module i) e ok).current = some (s.module i).nextFiber ∧
    c.target heap i ((dispatch (s.module i) e ok).fiber (s.module i).nextFiber) = some t

/-- Sequence `j` of module `i` runs `t`: at once if the lock is free, and if it is not the event is kept. -/
def ServesSeq (j : Nat) (t : ObjRef × β) : Prop := ∀ e, e.type = .start → e.seqIdx = j →
  ((s.module i).lockedBy = none → Runs c heap s i e t) ∧
    ((s.module i).lockedBy ≠ none → ∀ ok, dispatch (s.module i) e ok = (s.module i).deferEv e)

/-- A notification to module `i` runs `t`. -/
def ServesNotify (t : ObjRef × β) : Prop := ∀ e, e.type = .notify → Runs c heap s i e t

/-- In every state of every run each sequence of each object is reached under the index of the object, and so is
its handler for notifications. -/
def FaithfulDispatch (modules : List ObjRef) : Prop :=
  ∀ i mb, modules[i]? = some mb → ∀ (ok : Sys → Act → Prop) s, Reaches ok c.regs s →
    Accepts s i ∧
      (∀ j sq, (heap mb).sequences[j]? = some sq → ServesSeq c heap s i j (mb, sq.seq)) ∧
        ServesNotify c heap s i (mb, (heap mb).onReceiveNotify)

/-- What the C core can represent: `MAX_MODULE` modules, and as many sequences as a `uint8_t` counts. -/
def Representable (modules : List ObjRef) : Prop :=
  modules.length ≤ maxModule ∧ ∀ mb ∈ modules, (heap mb).sequences.length ≤ 255

/-- What is set up is dispatched faithfully, and what cannot be represented is refused. -/
def FaithfulSetup (fails : Failing) (mgr : IdleManager) (modules : List ObjRef) : Prop :=
  ((mgr.setup fails heap modules).1 = true →
    FaithfulDispatch (mgr.setup fails heap modules).2.1.ctx (mgr.setup fails heap modules).2.2 modules) ∧
  (¬Representable heap modules → (mgr.setup fails heap modules).1 = false)

/-! ### The tables -/

section

variable {c : Instance Wrapper ObjRef} {heap heap' : Heap β} {s : Sys} {i : Nat} {fails : Failing}
  {modules : List ObjRef} {r : Registration β}

/-- Only the index of an object has changed. -/
def SameObjects (heap heap' : Heap β) : Prop := ∀ ref, ∃ idx, heap' ref = { heap ref with idx := idx }

theorem SameObjects.reg (h : SameObjects heap heap') (ref : ObjRef) : (heap' ref).reg ref = (heap ref).reg ref := by
  obtain ⟨idx, hidx⟩ := h ref
  rw [hidx]
  rfl

theorem register_spec (r : Registration β) (p : ObjRef × Nat) :
    SameObjects r.heap (r.register p).heap ∧ (r.register p).cTbl = r.cTbl ++ [(r.heap p.1).reg p.1] := by
  have hsame : SameObjects r.heap (r.register p).heap := by
    intro ref
    change ∃ idx, Function.update r.heap p.1 _ ref = _
    by_cases href : ref = p.1
    · subst href
      exact ⟨p.2 % 256, Function.update_self ..⟩
    · exact ⟨(r.heap ref).idx, Function.update_of_ne href ..⟩
  refine ⟨hsame, ?_⟩
  rw [← hsame.reg]
  rfl

/-- The loop puts one entry for each object into the table and changes nothing of it but its index. -/
theorem register_loop (modules : List ObjRef) (k : Nat) (r : Registration β) :
    SameObjects r.heap ((modules.zipIdx k).foldl Registration.register r).heap ∧
      ((modules.zipIdx k).foldl Registration.register r).cTbl =
        r.cTbl ++ modules.map fun ref => (r.heap ref).reg ref := by
  induction modules generalizing k r with
  | nil => exact ⟨fun ref => ⟨(r.heap ref).idx, rfl⟩, (List.append_nil _).symm⟩
  | cons mb modules ih =>
      rw [List.zipIdx_cons, List.foldl_cons]
      obtain ⟨hsame, htbl⟩ := register_spec r (mb, k)
      obtain ⟨hsame', htbl'⟩ := ih (k + 1) (r.register (mb, k))
      constructor
      · intro ref
        obtain ⟨idx, hidx⟩ := hsame ref
        obtain ⟨idx', hidx'⟩ := hsame' ref
        rw [hidx', hidx]
        exact ⟨idx', rfl⟩
      · rw [htbl', htbl, List.map_cons, List.append_assoc, List.singleton_append]
        congr 2
        apply List.map_congr_left
        intro ref _
        exact hsame.reg ref

theorem registration_all (heap : Heap β) (modules : List ObjRef) :
    SameObjects heap (Registration.all heap modules).heap ∧
      (Registration.all heap modules).cTbl = modules.map fun ref => (heap ref).reg ref :=
  register_loop modules 0 ⟨heap, [], []⟩

/-! ### Runs of a set up instance -/

/-- What the dispatcher looks up of a module stays as `setup` has left it. -/
theorem reaches_registered {ok : Sys → Act → Prop} {tbl : List Reg} (hrun : Reaches ok tbl s) (i : Nat) {reg : Reg}
    (hreg : tbl[i]? = some reg) :
    s.ctx.nrModule = tbl.length ∧ (s.module i).nrSeq = reg.nrSeq ∧ (s.module i).recvNotify = reg.recvNotify := by
  refine ⟨(setup_fixed hrun).1, ?_⟩
  refine hrun.invariant (P := fun s => (s.module i).nrSeq = reg.nrSeq ∧ (s.module i).recvNotify = reg.recvNotify) ?_ ?_
  · change (Module.boot i (tbl.getD i ⟨0, false⟩)).nrSeq = _ ∧ (Module.boot i (tbl.getD i ⟨0, false⟩)).recvNotify = _
    rw [List.getD_eq_getElem?_getD, hreg]
    exact ⟨rfl, rfl⟩
  · intro s a s' _ ⟨hseq, hrecv⟩ _ hstep
    refine ⟨(Sys.step_fixed hstep i).2.trans hseq, ?_⟩
    obtain ⟨m₁, hm₁, hs'⟩ := Sys.step_moved hstep i
    have hkept : m₁.recvNotify = reg.recvNotify := by
      cases hm₁ with
      | stay => exact hrecv
      | move _ hmove => exact hmove.recvNotify.trans hrecv
    rcases hs' with heq | ⟨e, heq⟩
    · rw [heq]
      exact hkept
    · rw [heq]
      exact hkept

theorem accepts_of_lt (h : i < s.ctx.nrModule) : Accepts s i := by
  intro e
  unfold Ctx.post
  dsimp only
  rw [if_neg (Nat.not_le_of_lt h)]
  exact s.ctx.setModule_self i _

/-- With memory for a fiber `new_fiber` makes one, and `resume` enters it. -/
theorem newFiber_granted {m : Module} {fn : Fn} {seqIdx : Nat} {replyTo : Origin} {rid : Nat} {msg : Bytes}
    {r : Result} {threadIdx clientId : Nat} {ok : Alloc} (h : Alloc.GrantsFiber ok) :
    ∃ m', newFiber m fn seqIdx replyTo rid msg r threadIdx clientId ok = some (m', m.nextFiber) ∧
      ∀ x, (resume (m'.log x) m.nextFiber .reply).current = some m.nextFiber ∧
        ((resume (m'.log x) m.nextFiber .reply).fiber m.nextFiber).fn = fn ∧
        ((resume (m'.log x) m.nextFiber .reply).fiber m.nextFiber).seqIdx = seqIdx := by
  obtain ⟨hblock, hstack, hcontext⟩ := h
  cases hnew : newFiber m fn seqIdx replyTo rid msg r threadIdx clientId ok with
  | none => simp [newFiber, hblock, hstack, hcontext] at hnew
  | some p =>
      obtain ⟨m', a⟩ := p
      obtain ⟨rfl, -⟩ := resume_newFiber (.resumed a .reply) .reply hnew
      refine ⟨m', rfl, fun x => ?_⟩
      obtain ⟨-, hres⟩ := resume_newFiber x .reply hnew
      rw [hres]
      dsimp only
      rw [Function.update_self]
      exact ⟨rfl, rfl, rfl⟩

theorem startSeq_granted {m : Module} {e : Ev} {ok : Alloc} (hseq : e.seqIdx < m.nrSeq)
    (hok : Alloc.GrantsFiber ok) : (startSeq m e ok).current = some m.nextFiber ∧
      ((startSeq m e ok).fiber m.nextFiber).fn = .seq e.seqIdx ∧
      ((startSeq m e ok).fiber m.nextFiber).seqIdx = e.seqIdx := by
  obtain ⟨m', hnew, hres⟩ := newFiber_granted hok
  unfold startSeq
  rw [if_neg (Nat.not_le_of_lt hseq), hnew]
  exact hres _

theorem startNotify_granted {m : Module} {e : Ev} {ok : Alloc} (hears : m.recvNotify = true)
    (hok : Alloc.GrantsFiber ok) : (startNotify m e ok).current = some m.nextFiber ∧
      ((startNotify m e ok).fiber m.nextFiber).fn = .recvNotify := by
  obtain ⟨m', hnew, hres⟩ := newFiber_granted hok
  unfold startNotify
  rw [if_pos hears, hnew]
  exact ⟨(hres _).1, (hres _).2.1⟩

/-- A module whose slot is that of the object `mb`. -/
structure RegisteredObject (c : Instance Wrapper ObjRef) (heap : Heap β) (s : Sys) (i : Nat) (mb : ObjRef) : Prop where
  seqs : (c.slot i).seqs = (heap mb).cSeqs
  recvNotify : (c.slot i).recvNotify = some .notify
  user : (c.slot i).user = some mb
  nrSeq : (s.module i).nrSeq = (heap mb).sequences.length
  hears : (s.module i).recvNotify = true

namespace RegisteredObject

variable {mb : ObjRef}

theorem servesSeq (h : RegisteredObject c heap s i mb) {j : Nat} {sq : CppSequence β}
    (hsq : (heap mb).sequences[j]? = some sq) : ServesSeq c heap s i j (mb, sq.seq) := by
  intro e htype hj
  subst hj
  have hlt : e.seqIdx < (s.module i).nrSeq := by
    rw [h.nrSeq]
    exact (List.getElem?_eq_some_iff.mp hsq).1
  constructor
  · intro hlock ok hok
    have hdispatch : dispatch (s.module i) e ok = startSeq (s.module i) e ok := by
      unfold dispatch
      rw [if_neg (fun hne => hne.1 hlock), htype]
    obtain ⟨hcur, hfn, hidx⟩ := startSeq_granted hlt hok
    rw [hdispatch]
    refine ⟨hcur, ?_⟩
    unfold Instance.target
    rw [hfn, Slot.fn, h.seqs, ModuleBase.cSeqs, List.getElem?_map, hsq]
    simp only [Option.map_some, Option.bind_some]
    rw [Wrapper.target, h.user, hidx, Option.bind_some, hsq]
    rfl
  · intro hlock ok
    unfold dispatch
    rw [if_pos ⟨hlock, by simp [htype]⟩, if_neg (by simp [htype])]

theorem servesNotify (h : RegisteredObject c heap s i mb) :
    ServesNotify c heap s i (mb, (heap mb).onReceiveNotify) := by
  intro e htype ok hok
  have hdispatch : dispatch (s.module i) e ok = startNotify (s.module i) e ok := by
    unfold dispatch
    rw [if_neg (fun hne => hne.2 htype), htype]
  obtain ⟨hcur, hfn⟩ := startNotify_granted h.hears hok
  rw [hdispatch]
  refine ⟨hcur, ?_⟩
  unfold Instance.target
  rw [hfn, Slot.fn, h.recvNotify, Option.bind_some, Wrapper.target, h.user]
  rfl

end RegisteredObject

theorem SameObjects.sequences (h : SameObjects heap heap') (ref : ObjRef) :
    (heap' ref).sequences = (heap ref).sequences := by
  obtain ⟨idx, hidx⟩ := h ref
  rw [hidx]

/-- What `manager::setup` has set up, if it fits: each object under its index, with all of its sequences. -/
theorem setup_registered {mgr : Manager} (htrue : (mgr.setup fails heap modules).1 = true)
    (hrep : Representable heap modules) {mb : ObjRef} (hmb : modules[i]? = some mb) {ok : Sys → Act → Prop}
    (hrun : Reaches ok (mgr.setup fails heap modules).2.1.ctx.regs s) : i < s.ctx.nrModule ∧
      RegisteredObject (mgr.setup fails heap modules).2.1.ctx (mgr.setup fails heap modules).2.2 s i mb := by
  obtain ⟨hmax, hlens⟩ := hrep
  obtain ⟨hsame, htbl⟩ := registration_all heap modules
  have hsmall : modules.length % 256 = modules.length := Nat.mod_eq_of_lt (by unfold maxModule at hmax; omega)
  obtain ⟨hi, hget⟩ := List.getElem?_eq_some_iff.mp hmb
  change Reaches ok ((Registration.all heap modules).setup fails mgr.ctx modules.length).2.regs s at hrun
  change ((Registration.all heap modules).setup fails mgr.ctx modules.length).1 = true at htrue
  change _ ∧ RegisteredObject ((Registration.all heap modules).setup fails mgr.ctx modules.length).2 _ s i mb
  change _ ∧ RegisteredObject _ (Registration.all heap modules).heap s i mb
  unfold Registration.setup at hrun htrue ⊢
  rw [hsmall] at hrun htrue ⊢
  have hend := setup_end fails mgr.ctx (fun i => (Registration.all heap modules).cTbl.getD i RegEntry.zero)
    modules.length
  rw [htrue] at hend
  generalize (Coseq.setup fails mgr.ctx _ modules.length).2 = c at hend hrun ⊢
  cases hend with
  | done _ _ _ hnr _ hslot =>
      have hentry : (Registration.all heap modules).cTbl.getD i RegEntry.zero = (heap mb).reg mb := by
        rw [htbl, List.getD_eq_getElem?_getD, List.getElem?_map, hmb]
        rfl
      have hslot := hslot i hi
      rw [hentry] at hslot
      have hlen : (heap mb).cSeqs.length % 256 = (heap mb).sequences.length := by
        rw [ModuleBase.cSeqs, List.length_map]
        exact Nat.mod_eq_of_lt (Nat.lt_succ_of_le (hlens mb (List.mem_of_getElem? hmb)))
      have hreg : c.regs[i]? = some ⟨(heap mb).sequences.length, true⟩ := by
        unfold Instance.regs
        rw [List.getElem?_map, List.getElem?_range (by rw [hnr]; exact hi), Option.map_some, hslot, ← hlen]
        rfl
      obtain ⟨hmodules, hseq, hrecv⟩ := reaches_registered hrun i hreg
      constructor
      · rw [hmodules]
        exact (List.getElem?_eq_some_iff.mp hreg).1
      · refine ⟨?_, by rw [hslot]; rfl, by rw [hslot]; rfl, ?_, hrecv⟩
        · rw [hslot, ModuleBase.cSeqs, hsame.sequences]
          rfl
        · rw [hseq, hsame.sequences]

theorem faithful_of_representable {mgr : Manager} (htrue : (mgr.setup fails heap modules).1 = true)
    (hrep : Representable heap modules) :
    FaithfulDispatch (mgr.setup fails heap modules).2.1.ctx (mgr.setup fails heap modules).2.2 modules := by
  intro i mb hmb ok s hrun
  obtain ⟨hi, hreg⟩ := setup_registered htrue hrep hmb hrun
  exact ⟨accepts_of_lt hi, fun j sq hsq => hreg.servesSeq hsq, hreg.servesNotify⟩

end

/-- The registration is faithful exactly when the set of modules can be represented, or its size modulo 256 is
above the limit of the C core, or a pthread call fails. -/
theorem registration_faithful_iff (fails : Failing) (mgr : IdleManager) (heap : Heap β) (modules : List ObjRef) :
    FaithfulSetup heap fails mgr modules ↔ Representable heap modules ∨ maxModule < modules.length % 256 ∨
      ¬(fails.Inits (modules.length % 256) ∧ fails.Starts (modules.length % 256)) := by
  have htrue : (mgr.setup fails heap modules).1 = true ↔ modules.length % 256 ≤ maxModule ∧
      fails.Inits (modules.length % 256) ∧ fails.Starts (modules.length % 256) := setup_true_iff _ _ _ _
  constructor
  · rintro ⟨-, hrefused⟩
    by_contra hnot
    obtain ⟨hrep, hmax, hcalls⟩ : ¬Representable heap modules ∧ modules.length % 256 ≤ maxModule ∧
        fails.Inits (modules.length % 256) ∧ fails.Starts (modules.length % 256) := by
      push Not at hnot
      exact hnot
    have hfalse := hrefused hrep
    rw [htrue.mpr ⟨hmax, hcalls⟩] at hfalse
    cases hfalse
  · intro hcond
    by_cases hok : (mgr.setup fails heap modules).1 = true
    · obtain ⟨hmax, hcalls⟩ := htrue.mp hok
      have hrep : Representable heap modules := by
        rcases hcond with hrep | hlarge | hfailed
        · exact hrep
        · exact absurd hmax (Nat.not_le_of_lt hlarge)
        · exact absurd hcalls hfailed
      exact ⟨fun _ => faithful_of_representable hok hrep, fun hnot => absurd hrep hnot⟩
    · exact ⟨fun h => absurd h hok, fun _ => Bool.eq_false_iff.mpr hok⟩

/-- A manager, and objects with `k` sequences each whose callables are their numbers. -/
def freshManager : IdleManager := ⟨⟨freshInstance Wrapper ObjRef, [], [], []⟩, rfl⟩

def numberedHeap (k : Nat) : Heap Nat := fun _ => ⟨[], 8, 0, (List.range k).map fun j => ⟨j, []⟩, k⟩

/-- An EV_START for the first sequence. -/
def firstStart : Ev := ⟨.start, 0, 1, .external, .ignore, 0, 0, [], 0⟩

/-- A module with 256 sequences is set up with none, and the dispatcher rejects its first one; a set of 256 modules
is set up as an empty one, and `post` drops what is sent to the first. -/
theorem registration_cut_down :
    ((freshManager.setup (fun _ => false) (numberedHeap 256) [0]).1 = true ∧
      (dispatch ((boot (freshManager.setup (fun _ => false) (numberedHeap 256) [0]).2.1.ctx.regs).module 0)
        firstStart .granted).trace = [.rejected .external 1 0]) ∧
    ((freshManager.setup (fun _ => false) (numberedHeap 1) (List.replicate 256 0)).1 = true ∧
      (freshManager.setup (fun _ => false) (numberedHeap 1) (List.replicate 256 0)).2.1.ctx.nrModule = 0) ∧
    ¬FaithfulSetup (numberedHeap 256) (fun _ => false) freshManager [0] ∧
    ¬FaithfulSetup (numberedHeap 1) (fun _ => false) freshManager (List.replicate 256 0) := by
  have hseqs : (freshManager.setup (fun _ => false) (numberedHeap 256) [0]).1 = true := by decide +kernel
  have hmodules : (freshManager.setup (fun _ => false) (numberedHeap 1) (List.replicate 256 0)).1 = true := by
    decide +kernel
  refine ⟨⟨hseqs, by decide +kernel⟩, ⟨hmodules, by decide +kernel⟩, fun h => ?_, fun h => ?_⟩
  · obtain ⟨-, hserves, -⟩ := h.1 hseqs 0 0 rfl (fun _ _ => True) _ .refl
    obtain ⟨hcur, -⟩ := (hserves 0 ⟨0, []⟩ rfl firstStart rfl rfl).1 rfl .granted ⟨rfl, rfl, rfl⟩
    exact absurd hcur (by decide +kernel)
  · obtain ⟨haccepts, -, -⟩ := h.1 hmodules 0 0 rfl (fun _ _ => True) _ .refl
    have hposted := congrArg Module.posted (haccepts firstStart)
    exact absurd hposted (by decide +kernel)

end Coseq
