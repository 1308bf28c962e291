import Coseq.EventQueue
import Coseq.RunHistory
import Mathlib.Data.List.Nodup

/-! The order in which requests start. A START taken while the lock is held goes to the deferred queue,
which is put back in front of the inbox at the top of the loop; the rest of the current batch is not.
So arrival order is kept as long as no START begins while an earlier one is still deferred, and is
broken as soon as one does. -/

namespace Coseq

open History

/-- A START with a sequence of the module. -/
def Ev.Startable (e : Ev) (nrSeq : Nat) : Prop := e.type = .start ∧ e.seqIdx < nrSeq

instance (e : Ev) (nrSeq : Nat) : Decidable (e.Startable nrSeq) :=
  inferInstanceAs (Decidable (e.type = .start ∧ e.seqIdx < nrSeq))

def Ev.startSerial (nrSeq : Nat) (e : Ev) : Option Nat :=
  if e.Startable nrSeq then some e.serial else none

def Obs.arrival (nrSeq : Nat) : Obs → Option Nat
  | .arrived e => e.startSerial nrSeq
  | _ => none

/-- The START that begins here, or is dropped for want of memory. -/
def Obs.served : Obs → Option Nat
  | .started _ _ _ serial | .notStarted _ _ serial => some serial
  | _ => none

/-- The STARTs `post` has appended, in that order. -/
def arrivals (nrSeq : Nat) (l : List Obs) : List Nat := l.filterMap (Obs.arrival nrSeq)

/-- The STARTs that have begun, in that order. -/
def served (l : List Obs) : List Nat := l.filterMap Obs.served

/-- Each START that begins is the first in arrival order that has not begun. -/
def StartsInOrder (m : Module) : Prop :=
  Each (fun pre x => ∀ n ∈ x.served, served pre ++ [n] <+: arrivals m.nrSeq pre) m.trace

instance (m : Module) : Decidable (StartsInOrder m) :=
  inferInstanceAs (Decidable (Each _ m.trace))

/-- A START begins only while none is deferred. -/
def NoneOvertaken (m : Module) : ModAct → Prop
  | .sched .. => m.phase = .events → m.lockedBy = none → ∀ e ∈ m.batch.head?, e.Startable m.nrSeq →
      ∀ d ∈ m.deferred, ¬d.Startable m.nrSeq
  | _ => True

instance (m : Module) (act : ModAct) : Decidable (NoneOvertaken m act) :=
  match act with
  | .sched .. => inferInstanceAs (Decidable (_ → _))
  | .call .. | .stop => .isTrue trivial

/-- The STARTs in a stretch of the queues. -/
def startSerials (nrSeq : Nat) (l : List Ev) : List Nat := l.filterMap (Ev.startSerial nrSeq)

/-- What has arrived has begun or waits, in that order. -/
structure Ordered (m : Module) : Prop where
  split : arrivals m.nrSeq m.trace = served m.trace ++ startSerials m.nrSeq m.queue
  nodup : (arrivals m.nrSeq m.trace).Nodup
  bound : ∀ n ∈ arrivals m.nrSeq m.trace, n < m.posted
  inOrder : StartsInOrder m

theorem Obs.OfCall.untracked {x : Obs} (h : x.OfCall) (nrSeq : Nat) :
    x.served = none ∧ x.arrival nrSeq = none := by
  cases x <;> first | exact h.elim | exact ⟨rfl, rfl⟩

theorem wakeObs_untracked {f : Fiber} {a : FiberRef} {why : Wake} {x : Obs} (nrSeq : Nat)
    (hx : x ∈ f.wakeObs a why) : x.served = none ∧ x.arrival nrSeq = none := by
  rcases Fiber.wakeObs_kind x hx with rfl | hcall
  · exact ⟨rfl, rfl⟩
  · exact hcall.untracked nrSeq

theorem startSerials_append {n : Nat} {l l' : List Ev} :
    startSerials n (l ++ l') = startSerials n l ++ startSerials n l' :=
  List.filterMap_append

/-- An event that is no START of the module takes no part. -/
theorem startSerials_skip {n : Nat} {e : Ev} {l l' : List Ev} (he : ¬e.Startable n) :
    startSerials n (l ++ e :: l') = startSerials n (l ++ l') := by
  simp [startSerials, Ev.startSerial, he]

theorem startSerials_nil_iff {n : Nat} {l : List Ev} : startSerials n l = [] ↔ ∀ e ∈ l, ¬e.Startable n := by
  simp [startSerials, Ev.startSerial]

theorem mem_startSerials {n : Nat} {e : Ev} {l : List Ev} (he : e ∈ l) (hs : e.Startable n) :
    e.serial ∈ startSerials n l :=
  List.mem_filterMap.mpr ⟨e, he, if_pos hs⟩

namespace Ordered

variable {m m' : Module} {xs : List Obs}

/-- A step that keeps the waiting STARTs and leaves lines of other kinds. -/
theorem quiet (h : Ordered m) (htrace : m'.trace = m.trace ++ xs)
    (hxs : ∀ x ∈ xs, x.served = none ∧ x.arrival m.nrSeq = none) (hnr : m'.nrSeq = m.nrSeq)
    (hposted : m'.posted = m.posted)
    (hqueue : startSerials m.nrSeq m'.queue = startSerials m.nrSeq m.queue) : Ordered m' := by
  have hserved : served m'.trace = served m.trace := by
    rw [htrace, served, List.filterMap_append, List.filterMap_eq_nil_iff.mpr fun x hx => (hxs x hx).1,
      List.append_nil]
    rfl
  have harr : arrivals m.nrSeq m'.trace = arrivals m.nrSeq m.trace := by
    rw [htrace, arrivals, List.filterMap_append, List.filterMap_eq_nil_iff.mpr fun x hx => (hxs x hx).2,
      List.append_nil]
    rfl
  refine ⟨?_, ?_, ?_, ?_⟩
  · rw [hnr, harr, hserved, hqueue]
    exact h.split
  · rw [hnr, harr]
    exact h.nodup
  · rw [hnr, harr, hposted]
    exact h.bound
  · unfold StartsInOrder
    rw [hnr, htrace]
    refine h.inOrder.append fun x hx pre n hn => ?_
    rw [(hxs x hx).1] at hn
    cases hn

/-- A step that leaves the history alone. -/
theorem silent (h : Ordered m) (htrace : m'.trace = m.trace) (hnr : m'.nrSeq = m.nrSeq)
    (hposted : m'.posted = m.posted)
    (hqueue : startSerials m.nrSeq m'.queue = startSerials m.nrSeq m.queue) : Ordered m' :=
  h.quiet (htrace.trans (List.append_nil _).symm) (fun _ hx => absurd hx List.not_mem_nil) hnr hposted
    hqueue

/-- The event at the head of the batch is no START of the module. -/
theorem skip (h : Ordered m) {e : Ev} {rest : List Ev} (hhead : AtHead m e rest)
    (he : ¬e.Startable m.nrSeq) (htrace : m'.trace = m.trace ++ xs)
    (hxs : ∀ x ∈ xs, x.served = none ∧ x.arrival m.nrSeq = none) (hnr : m'.nrSeq = m.nrSeq)
    (hposted : m'.posted = m.posted) (hqueue : m'.queue = m.deferred ++ (rest ++ m.inbox)) :
    Ordered m' :=
  h.quiet htrace hxs hnr hposted (by rw [hqueue, hhead.queue, startSerials_skip he])

/-- The event at the head of the batch is a START and begins, no START being deferred. -/
theorem serve (h : Ordered m) {e : Ev} {rest : List Ev} {x : Obs} (hhead : AtHead m e rest)
    (he : e.Startable m.nrSeq) (hdeferred : ∀ d ∈ m.deferred, ¬d.Startable m.nrSeq)
    (htrace : m'.trace = m.trace ++ [x]) (hx : x.served = some e.serial ∧ x.arrival m.nrSeq = none)
    (hnr : m'.nrSeq = m.nrSeq) (hposted : m'.posted = m.posted)
    (hqueue : m'.queue = m.deferred ++ (rest ++ m.inbox)) : Ordered m' := by
  have hnil := startSerials_nil_iff.mpr hdeferred
  have hcons : startSerials m.nrSeq m.queue = e.serial :: startSerials m.nrSeq (rest ++ m.inbox) := by
    rw [hhead.queue, startSerials_append, hnil, List.nil_append]
    exact List.filterMap_cons_some (if_pos he)
  have hserved : served m'.trace = served m.trace ++ [e.serial] := by
    rw [htrace, served, List.filterMap_append]
    simp [hx.1, served]
  have harr : arrivals m.nrSeq m'.trace = arrivals m.nrSeq m.trace := by
    rw [htrace, arrivals, List.filterMap_append]
    simp [hx.2, arrivals]
  have hsplit := h.split
  rw [hcons] at hsplit
  refine ⟨?_, ?_, ?_, ?_⟩
  · rw [hnr, harr, hserved, hqueue, startSerials_append, hnil, hsplit]
    simp
  · rw [hnr, harr]
    exact h.nodup
  · rw [hnr, harr, hposted]
    exact h.bound
  · unfold StartsInOrder
    rw [hnr, htrace]
    refine each_concat.mpr ⟨h.inOrder, fun n hn => ?_⟩
    obtain rfl : e.serial = n := Option.some.inj (hx.1.symm.trans hn)
    exact ⟨startSerials m.nrSeq (rest ++ m.inbox), by rw [hsplit]; simp⟩

theorem enqueue (h : Ordered m) (e : Ev) : Ordered (m.enqueue e) := by
  have hqueue : (m.enqueue e).queue = m.queue ++ [{ e with serial := m.posted }] := by
    simp [Module.queue, Module.enqueue]
  have harr : arrivals m.nrSeq (m.enqueue e).trace =
      arrivals m.nrSeq m.trace ++ startSerials m.nrSeq [{ e with serial := m.posted }] := by
    simp [Module.enqueue, arrivals, Obs.arrival, startSerials, List.filterMap_append,
      List.filterMap_cons]
  have hserved : served (m.enqueue e).trace = served m.trace := by
    simp [Module.enqueue, served, List.filterMap_append, Obs.served]
  have hnew : ∀ n ∈ startSerials m.nrSeq [{ e with serial := m.posted }], n = m.posted := by
    intro n hn
    obtain ⟨e', he', hn⟩ := List.mem_filterMap.mp hn
    obtain rfl := List.mem_singleton.mp he'
    unfold Ev.startSerial at hn
    split at hn
    · exact (Option.some.inj hn).symm
    · cases hn
  refine ⟨?_, ?_, ?_, ?_⟩
  · change arrivals m.nrSeq (m.enqueue e).trace = _ ++ startSerials m.nrSeq (m.enqueue e).queue
    rw [harr, hserved, hqueue, startSerials_append, h.split, List.append_assoc]
  · change (arrivals m.nrSeq (m.enqueue e).trace).Nodup
    rw [harr]
    refine List.Nodup.append h.nodup ?_ fun n hn hn' => ?_
    · unfold startSerials Ev.startSerial
      simp only [List.filterMap_cons, List.filterMap_nil]
      split <;> simp
    · exact absurd (h.bound n hn) (by rw [hnew n hn']; exact Nat.lt_irrefl _)
  · intro n hn
    change n ∈ arrivals m.nrSeq (m.enqueue e).trace at hn
    rw [harr] at hn
    change n < m.posted + 1
    rcases List.mem_append.mp hn with hn | hn
    · exact Nat.lt_succ_of_lt (h.bound n hn)
    · rw [hnew n hn]
      exact Nat.lt_succ_self _
  · refine each_concat.mpr ⟨h.inOrder, ?_⟩
    rintro n ⟨⟩

theorem boot (i : Nat) (reg : Reg) : Ordered (Module.boot i reg) :=
  ⟨rfl, List.nodup_nil, fun _ hn => absurd hn List.not_mem_nil, each_nil⟩

theorem reply_not_startable {e : Ev} {n : Nat} (htype : e.type = .reply) : ¬e.Startable n := by
  rintro ⟨hstart, -⟩
  rw [htype] at hstart
  cases hstart

/-- A START passes only a free lock. -/
theorem admits_start {e : Ev} (hadmits : Admits m e) (htype : e.type = .start) : m.lockedBy = none := by
  rcases hadmits with hfree | h | ⟨h, -⟩
  · exact hfree
  · rw [htype] at h
    cases h
  · rw [htype] at h
    cases h

theorem begin (h : Ordered m) {e : Ev} {rest : List Ev} {a : FiberRef} {now : Timespec} {ok : Alloc}
    (hhead : AtHead m e rest) (hok : NoneOvertaken m (.sched now ok)) (hadmits : Admits m e)
    (htype : e.type ≠ .reply) (hseq : e.type = .start → e.seqIdx < m.nrSeq)
    (htrace : m'.trace = m.trace ++ [e.beginObs a]) (hnr : m'.nrSeq = m.nrSeq)
    (hposted : m'.posted = m.posted) (hqueue : m'.queue = m.deferred ++ (rest ++ m.inbox)) :
    Ordered m' := by
  cases hkind : e.type with
  | start =>
      have he : e.Startable m.nrSeq := ⟨hkind, hseq hkind⟩
      have hnone := hok hhead.phase (admits_start hadmits hkind) e (by rw [hhead.batch]; rfl) he
      refine h.serve hhead he hnone htrace ?_ hnr hposted hqueue
      unfold Ev.beginObs
      rw [hkind]
      exact ⟨rfl, rfl⟩
  | reply => exact absurd hkind htype
  | notify =>
      refine h.skip hhead ?_ htrace ?_ hnr hposted hqueue
      · rintro ⟨hstart, -⟩
        rw [hkind] at hstart
        cases hstart
      · intro x hx
        obtain rfl := List.mem_singleton.mp hx
        unfold Ev.beginObs
        rw [hkind]
        exact ⟨rfl, rfl⟩

theorem drop (h : Ordered m) {e : Ev} {rest : List Ev} {now : Timespec} {ok : Alloc}
    (hhead : AtHead m e rest) (hok : NoneOvertaken m (.sched now ok)) (hadmits : Admits m e)
    (hdrop : Dropped m e ok xs) (htrace : m'.trace = m.trace ++ xs) (hnr : m'.nrSeq = m.nrSeq)
    (hposted : m'.posted = m.posted) (hqueue : m'.queue = m.deferred ++ (rest ++ m.inbox)) :
    Ordered m' := by
  cases hdrop with
  | unknown htype _ =>
      exact h.skip hhead (reply_not_startable htype) htrace (by simp) hnr hposted hqueue
  | unheard htype =>
      refine h.skip hhead ?_ htrace (by simp) hnr hposted hqueue
      rintro ⟨hstart, -⟩
      rw [htype] at hstart
      cases hstart
  | rejected htype hseq =>
      refine h.skip hhead ?_ htrace ?_ hnr hposted hqueue
      · exact fun he => absurd he.2 (Nat.not_lt_of_ge hseq)
      · simp [Obs.served, Obs.arrival]
  | notStarted htype hseq _ =>
      have he : e.Startable m.nrSeq := ⟨htype, hseq⟩
      have hnone := hok hhead.phase (admits_start hadmits htype) e (by rw [hhead.batch]; rfl) he
      exact h.serve hhead he hnone htrace ⟨rfl, rfl⟩ hnr hposted hqueue

theorem move {act : ModAct} {eff : Effect} (h : Ordered m) (hmodes : Modes m)
    (hok : NoneOvertaken m act) (hmove : Move m act eff m') : Ordered m' := by
  have hcalls : ∀ {l : List Obs}, (∀ x ∈ l, x.OfCall) →
      ∀ x ∈ l, x.served = none ∧ x.arrival m.nrSeq = none :=
    fun hl x hx => (hl x hx).untracked _
  cases hmove with
  | park _ _ hmerge _ =>
      obtain ⟨hbatch, hqueue⟩ := hmerge.queue hmodes
      exact h.silent rfl rfl rfl (by simp [Module.queue, hbatch, hqueue])
  | halt _ hmerge _ =>
      obtain ⟨hbatch, hqueue⟩ := hmerge.queue hmodes
      exact h.silent rfl rfl rfl (by simp [Module.queue, hbatch, hqueue])
  | take _ hmerge =>
      obtain ⟨hbatch, hqueue⟩ := hmerge.queue hmodes
      exact h.silent rfl rfl rfl (by simp [Module.queue, hbatch, hqueue])
  | pass => exact h.silent rfl rfl rfl rfl
  | fire => exact h.quiet rfl (fun x hx => wakeObs_untracked _ hx) rfl rfl rfl
  | expire => exact h.quiet rfl (fun x hx => wakeObs_untracked _ hx) rfl rfl rfl
  | defer _ hhead _ => exact h.silent rfl rfl rfl (by rw [hhead.queue]; simp [Module.queue])
  | drop _ hhead hadmits hdrop => exact h.drop hhead hok hadmits hdrop rfl rfl rfl (by simp [Module.queue])
  | begin _ hhead hadmits htype hseq =>
      exact h.begin hhead hok hadmits htype hseq rfl rfl rfl (by simp [Module.queue])
  | undefined _ hhead _ htype =>
      exact h.skip hhead (reply_not_startable htype) rfl (by simp [Obs.served, Obs.arrival]) rfl rfl
        (by simp [Module.queue])
  | wake _ hhead _ htype =>
      exact h.skip hhead (reply_not_startable htype) rfl (fun x hx => wakeObs_untracked _ hx) rfl rfl
        (by simp [Module.queue, Module.resumed])
  | queue _ hhead _ htype =>
      exact h.skip hhead (reply_not_startable htype) (List.append_nil _).symm (by simp) rfl rfl
        (by simp [Module.queue])
  | lose _ hhead _ htype =>
      exact h.skip hhead (reply_not_startable htype) rfl (by simp [Obs.served, Obs.arrival]) rfl rfl
        (by simp [Module.queue])
  | reap => exact h.silent rfl rfl rfl rfl
  | issue => exact h.quiet rfl (hcalls issueObs_ofCall) rfl rfl rfl
  | «local» _ hcall => exact h.quiet rfl (hcalls hcall.ofCall) rfl rfl rfl
  | lock => exact h.quiet rfl (by simp [Obs.served, Obs.arrival]) rfl rfl rfl
  | unlock => exact h.quiet rfl (by simp [Obs.served, Obs.arrival]) rfl rfl rfl
  | ret => exact h.quiet rfl (by simp [Obs.served, Obs.arrival]) rfl rfl rfl
  | stop => exact h.silent rfl rfl rfl rfl

/-- A START that begins past a deferred one is not the first that waits. -/
theorem not_first (h : Ordered m) {e d : Ev} {rest : List Ev} (hhead : AtHead m e rest)
    (he : e.Startable m.nrSeq) (hd : d ∈ m.deferred) (hds : d.Startable m.nrSeq) :
    ¬served m.trace ++ [e.serial] <+: arrivals m.nrSeq m.trace := by
  have hq : startSerials m.nrSeq m.queue =
      startSerials m.nrSeq m.deferred ++ e.serial :: startSerials m.nrSeq (rest ++ m.inbox) := by
    rw [hhead.queue, startSerials_append]
    exact congrArg _ (List.filterMap_cons_some (if_pos he))
  have hsplit := h.split
  have hnodup := h.nodup
  rw [hq] at hsplit
  rw [hsplit] at hnodup ⊢
  rw [List.prefix_append_right_inj]
  intro hpre
  cases hl : startSerials m.nrSeq m.deferred with
  | nil =>
      have hmem := mem_startSerials hd hds
      rw [hl] at hmem
      cases hmem
  | cons n l =>
      rw [hl] at hpre hnodup
      obtain ⟨l', heq⟩ := hpre
      obtain ⟨rfl, -⟩ := List.cons.inj heq
      have hnodup := (List.nodup_append.mp hnodup).2.1
      simp at hnodup

/-- A step after which the order still holds overtook nothing. -/
theorem none_overtaken {act : ModAct} {eff : Effect} (h : Ordered m)
    (hmove : Move m act eff m') (horder : StartsInOrder m') : NoneOvertaken m act := by
  have hphase : ∀ {p : Phase}, m.phase = p → m.phase = .events → p = .events :=
    fun hp he => hp.symm.trans he
  have hmerged : ∀ {inbox deferred : List Ev}, Merged m inbox deferred → m.phase ≠ .events := by
    intro inbox deferred hmerge he
    have hwait : m.AtWaitPoint := by
      cases hmerge with
      | kept hw => exact hw.elim .inr fun h => .inl h.1
      | spliced hw _ => exact .inl hw
    exact Modes.not_wait_events he hwait
  have hfirst : ∀ {e : Ev} {rest : List Ev} {x : Obs}, AtHead m e rest → e.Startable m.nrSeq →
      m'.trace = m.trace ++ [x] → m'.nrSeq = m.nrSeq → x.served = some e.serial →
      ∀ d ∈ m.deferred, ¬d.Startable m.nrSeq := by
    intro e rest x hhead he htrace hnr hx d hd hds
    unfold StartsInOrder at horder
    rw [htrace, hnr] at horder
    exact h.not_first hhead he hd hds ((each_concat.mp horder).2 e.serial hx)
  have hserve : ∀ {e : Ev} {rest : List Ev}, AtHead m e rest →
      (e.Startable m.nrSeq → ∀ d ∈ m.deferred, ¬d.Startable m.nrSeq) →
      ∀ e' ∈ m.batch.head?, e'.Startable m.nrSeq → ∀ d ∈ m.deferred, ¬d.Startable m.nrSeq := by
    intro e rest hhead hall e' he' hs
    rw [hhead.batch] at he'
    obtain rfl := Option.some.inj he'
    exact hall hs
  cases hmove with
  | park _ hp _ _ => exact fun he => absurd (hphase hp he) (by simp)
  | halt _ hmerge _ => exact fun he => absurd he (hmerged hmerge)
  | take _ hmerge => exact fun he => absurd he (hmerged hmerge)
  | pass _ hpass =>
      intro he
      cases hpass with
      | clock _ hp => exact absurd (hphase hp he) (by simp)
      | timersDone hp => exact absurd (hphase hp he) (by simp)
      | skip hp => exact absurd (hphase hp he) (by simp)
  | fire _ hp => exact fun he => absurd (hphase hp he) (by simp)
  | expire _ hp => exact fun he => absurd (hphase hp he) (by simp)
  | defer _ _ hblock => exact fun _ hfree => absurd (.inl hfree) hblock
  | drop _ hhead _ hdrop =>
      refine fun _ _ => hserve hhead fun hs => ?_
      cases hdrop with
      | unknown htype _ => exact absurd hs (reply_not_startable htype)
      | unheard htype =>
          rw [Ev.Startable, htype] at hs
          cases hs.1
      | rejected _ hseq => exact absurd hs.2 (Nat.not_lt_of_ge hseq)
      | notStarted => exact hfirst hhead hs rfl rfl rfl
  | begin _ hhead _ htype _ =>
      refine fun _ _ => hserve hhead fun hs => hfirst hhead hs rfl rfl ?_
      unfold Ev.beginObs
      rw [hs.1]
      rfl
  | undefined _ hhead _ htype => exact fun _ _ => hserve hhead fun hs => absurd hs (reply_not_startable htype)
  | wake _ hhead _ htype => exact fun _ _ => hserve hhead fun hs => absurd hs (reply_not_startable htype)
  | queue _ hhead _ htype => exact fun _ _ => hserve hhead fun hs => absurd hs (reply_not_startable htype)
  | lose _ hhead _ htype => exact fun _ _ => hserve hhead fun hs => absurd hs (reply_not_startable htype)
  | reap _ _ hbatch =>
      intro _ _ e he
      rw [hbatch] at he
      cases he
  | issue => trivial
  | «local» => trivial
  | lock => trivial
  | unlock => trivial
  | ret => trivial
  | stop => trivial

end Ordered

theorem ordered {tbl : List Reg} {s : Sys} (hrun : Reaches (EveryModule NoneOvertaken) tbl s) (j : Nat) :
    Modes (s.module j) ∧ Ordered (s.module j) :=
  module_invariant (G := NoneOvertaken) (P := fun m => Modes m ∧ Ordered m) hrun (fun _ _ h => h)
    (fun i reg => ⟨Modes.boot i reg, Ordered.boot i reg⟩)
    (fun _ _ _ _ h hok hmove => ⟨h.1.move hmove, h.2.move h.1 hok hmove⟩)
    (fun _ e h => ⟨h.1.enqueue e, h.2.enqueue e⟩) j

theorem StartsInOrder.before {m m' : Module} {xs : List Obs} (h : StartsInOrder m')
    (htrace : m'.trace = m.trace ++ xs) (hnr : m'.nrSeq = m.nrSeq) : StartsInOrder m := by
  unfold StartsInOrder at h
  rw [htrace, hnr] at h
  exact (each_append.mp h).1

/-- The STARTs of every module begin in arrival order exactly in the runs in which no START begins
while another is deferred. -/
theorem starts_in_order_iff {tbl : List Reg} {s : Sys} :
    Reaches (EveryModule NoneOvertaken) tbl s ↔
      Reaches (fun _ _ => True) tbl s ∧ ∀ j, StartsInOrder (s.module j) := by
  refine ⟨fun hrun => ⟨hrun.mono fun _ _ _ => trivial, fun j => (ordered hrun j).2.inOrder⟩, ?_⟩
  rintro ⟨hrun, horder⟩
  induction hrun with
  | refl => exact .refl
  | @tail s s' a _ _ hstep ih =>
      have hmoved : ∀ j, ∃ m₁, Sys.Moved s a j m₁ ∧ StartsInOrder m₁ := fun j => by
        obtain ⟨m₁, hm₁, hs' | ⟨e, hs'⟩⟩ := Sys.step_moved hstep j
        · exact ⟨m₁, hm₁, hs' ▸ horder j⟩
        · exact ⟨m₁, hm₁, (hs' ▸ horder j : StartsInOrder (m₁.enqueue e)).before rfl rfl⟩
      have hrun := ih fun j => by
        obtain ⟨m₁, hm₁, hin⟩ := hmoved j
        cases hm₁ with
        | stay => exact hin
        | move _ hmove =>
            obtain ⟨hnr, -, xs, htrace⟩ := hmove.grows
            exact hin.before htrace hnr
      refine hrun.tail (fun j act hact => ?_) hstep
      obtain ⟨m₁, hm₁, hin⟩ := hmoved j
      cases hm₁ with
      | stay hstay =>
          rw [hstay] at hact
          cases hact
      | move hact' hmove =>
          obtain rfl := Option.some.inj (hact'.symm.trans hact)
          exact (ordered hrun j).2.none_overtaken hmove hin

/-- A sequence holds the lock and awaits a reply. A START, the reply and another START arrive in one
batch: the first is deferred, the reply makes the sequence unlock, and the second START begins. -/
def overtakenRun : List Act :=
  [.requestAsync 0 0 0 [], .asyncPost 0 .granted, .thread 0, .thread 0, .thread 0, .thread 0,
    .fiber 0 .lock, .fiber 0 (.request 1 0 []), .requestAsync 0 0 0 [], .asyncPost 0 .granted,
    .thread 1, .thread 1, .thread 1, .thread 1, .fiber 1 (.reply .success []), .fiber 1 .ret,
    .requestAsync 0 0 0 [], .asyncPost 0 .granted, .thread 0, .thread 0, .thread 0, .thread 0,
    .thread 0, .thread 0, .thread 0, .fiber 0 .unlock, .fiber 0 .ret, .thread 0]

/-- Without the condition a START can begin before an earlier one. -/
theorem start_overtaken : ∃ s, Reaches (fun _ _ => True) [⟨1, false⟩, ⟨1, false⟩] s ∧
    ¬StartsInOrder (s.module 0) := by
  obtain ⟨s, hrun, hs⟩ : ∃ s, Reaches (fun _ _ => True) [⟨1, false⟩, ⟨1, false⟩] s ∧
      decide (¬StartsInOrder (s.module 0)) = true :=
    Lts.exists_run overtakenRun (by decide +kernel)
  exact ⟨s, hrun, of_decide_eq_true hs⟩

end Coseq
