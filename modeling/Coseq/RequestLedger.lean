import Mathlib.Data.List.Perm.Subperm
import Mathlib.Data.List.Nodup
import Mathlib.Logic.Function.Basic

/-! The books of a party that issues numbered requests and is owed one answer to each. A request
either stops its owner until it is answered, or its answer is collected later, possibly from a queue,
or nobody waits for it. The log of what was issued, returned and lost is balanced against the open
entries, the queues and the requests the owners are stopped in. -/

namespace Requests

universe u v w

variable {φ : Type u} {ι : Type v} {δ : Type w}

inductive Kind (δ : Type w) where
  | stops (d : δ)
  | collects
  | ignores
  deriving DecidableEq

inductive Entry (φ : Type u) (ι : Type v) (δ : Type w) where
  | issued (a : φ) (k : Kind δ) (r : ι)
  | returned (a : φ) (k : Kind δ) (r : ι)
  | lost (a : φ) (r : ι)
  deriving DecidableEq

/-- What an owner waits for: the request it is stopped in, the answers that wait to be collected, and
the number of answers still to be collected. -/
structure Account (ι : Type v) (δ : Type w) where
  stopped : Option (δ × ι)
  queue : List ι
  due : Int

@[ext] structure Books (φ : Type u) (ι : Type v) (δ : Type w) where
  account : φ → Account ι δ
  entries : List (ι × φ)
  log : List (Entry φ ι δ)

variable [DecidableEq φ] [DecidableEq ι] [DecidableEq δ]

def Entry.issuedId : Entry φ ι δ → Option ι
  | .issued _ _ r => some r
  | _ => none

def Entry.returnedId : Entry φ ι δ → Option ι
  | .returned _ _ r => some r
  | _ => none

def Entry.dueId (a : φ) : Entry φ ι δ → Option ι
  | .issued b .collects r => if b = a then some r else none
  | _ => none

def Entry.collectedId (a : φ) : Entry φ ι δ → Option ι
  | .returned b .collects r => if b = a then some r else none
  | _ => none

/-- The ids in use. -/
def ids (l : List (Entry φ ι δ)) : List ι := l.filterMap Entry.issuedId

/-- The ids whose answers `a` is to collect. -/
def dueIds (a : φ) (l : List (Entry φ ι δ)) : List ι := l.filterMap (Entry.dueId a)

/-- The ids whose answers `a` has collected. -/
def collectedIds (a : φ) (l : List (Entry φ ι δ)) : List ι := l.filterMap (Entry.collectedId a)

namespace Books

variable (b : Books φ ι δ)

def close (r : ι) : List (ι × φ) := b.entries.filter fun p => p.1 ≠ r

/-- One entry of the books. A request may fail to be listed, and a listed one may be lost. -/
inductive Step : Books φ ι δ → Prop where
  | stop {a : φ} {d : δ} {r : ι} {listed : Bool} (hfresh : r ∉ ids b.log)
      (hfree : (b.account a).stopped = none) :
      Step
        { account := Function.update b.account a { b.account a with stopped := some (d, r) }
          entries := if listed then (r, a) :: b.entries else b.entries
          log := b.log ++ .issued a (.stops d) r :: if listed then [] else [.lost a r] }
  | start {a : φ} {r : ι} {listed : Bool} (hfresh : r ∉ ids b.log) :
      Step
        { account := Function.update b.account a { b.account a with due := (b.account a).due + 1 }
          entries := if listed then (r, a) :: b.entries else b.entries
          log := b.log ++ .issued a .collects r :: if listed then [] else [.lost a r] }
  | ignore {a : φ} {r : ι} (hfresh : r ∉ ids b.log) :
      Step { b with log := b.log ++ [.issued a .ignores r] }
  | resume {a : φ} {d : δ} {r : ι} (hstopped : (b.account a).stopped = some (d, r)) :
      Step
        { account := Function.update b.account a { b.account a with stopped := none }
          entries := b.close r
          log := b.log ++ [.returned a (.stops d) r] }
  | deliver {a : φ} {r : ι} (hentry : (r, a) ∈ b.entries) (hfree : (b.account a).stopped = none) :
      Step
        { account := Function.update b.account a { b.account a with due := (b.account a).due - 1 }
          entries := b.close r
          log := b.log ++ [.returned a .collects r] }
  | queue {a : φ} {r : ι} (hentry : (r, a) ∈ b.entries)
      (hother : ∀ d, (b.account a).stopped ≠ some (d, r)) :
      Step
        { b with
          account :=
            Function.update b.account a { b.account a with queue := (b.account a).queue ++ [r] }
          entries := b.close r }
  | collect {a : φ} {r : ι} {rest : List ι} (hqueue : (b.account a).queue = r :: rest) :
      Step
        { b with
          account := Function.update b.account a
            { b.account a with queue := rest, due := (b.account a).due - 1 }
          log := b.log ++ [.returned a .collects r] }
  | lose {a : φ} {r : ι} (hentry : (r, a) ∈ b.entries) :
      Step { b with entries := b.close r, log := b.log ++ [.lost a r] }

/-- How often the answer to a request of `a` that is to be collected is accounted for. -/
def shares (a : φ) (r : ι) : Nat :=
  b.log.count (.returned a .collects r) + (b.account a).queue.count r + b.entries.count (r, a) +
    b.log.count (.lost a r)

/-- How often a request that stops `a` is accounted for. -/
def stops (a : φ) (d : δ) (r : ι) : Nat :=
  b.log.count (.returned a (.stops d) r) + if (b.account a).stopped = some (d, r) then 1 else 0

/-- The books are balanced. -/
structure Balanced : Prop where
  ids : (ids b.log).Nodup
  distinct : (b.entries.map Prod.fst).Nodup
  returned : ∀ a k r, .returned a k r ∈ b.log → .issued a k r ∈ b.log ∧ k ≠ .ignores
  lost : ∀ a r, .lost a r ∈ b.log → ∃ k, .issued a k r ∈ b.log
  stopped : ∀ a d r, (b.account a).stopped = some (d, r) → .issued a (.stops d) r ∈ b.log
  queue : ∀ a, ∀ r ∈ (b.account a).queue, .issued a .collects r ∈ b.log
  entry : ∀ r a, (r, a) ∈ b.entries →
    .issued a .collects r ∈ b.log ∨ ∃ d, (b.account a).stopped = some (d, r)
  stop_once : ∀ a d r, .issued a (.stops d) r ∈ b.log → b.stops a d r = 1
  collect_once : ∀ a r, .issued a .collects r ∈ b.log → b.shares a r = 1
  due : ∀ a, (b.account a).due = (dueIds a b.log).length - (collectedIds a b.log).length

end Books

/-! ### Lists of entries -/

variable {l : List (Entry φ ι δ)} {a a' : φ} {k k' : Kind δ} {r : ι}

omit [DecidableEq φ] [DecidableEq ι] [DecidableEq δ] in
theorem mem_ids : r ∈ ids l ↔ ∃ a k, .issued a k r ∈ l := by
  simp only [ids, List.mem_filterMap]
  constructor
  · rintro ⟨x, hx, hr⟩
    cases x with
    | issued a k r' =>
        obtain rfl : r' = r := Option.some.inj hr
        exact ⟨a, k, hx⟩
    | returned => cases hr
    | lost => cases hr
  · rintro ⟨a, k, hx⟩
    exact ⟨_, hx, rfl⟩

omit [DecidableEq ι] [DecidableEq δ] in
theorem Entry.dueId_eq_some {x : Entry φ ι δ} : x.dueId a = some r ↔ x = .issued a .collects r := by
  cases x with
  | issued b k r' => cases k <;> simp [Entry.dueId]
  | returned => simp [Entry.dueId]
  | lost => simp [Entry.dueId]

omit [DecidableEq ι] [DecidableEq δ] in
theorem Entry.collectedId_eq_some {x : Entry φ ι δ} :
    x.collectedId a = some r ↔ x = .returned a .collects r := by
  cases x with
  | returned b k r' => cases k <;> simp [Entry.collectedId]
  | issued => simp [Entry.collectedId]
  | lost => simp [Entry.collectedId]

omit [DecidableEq ι] [DecidableEq δ] in
theorem mem_dueIds : r ∈ dueIds a l ↔ .issued a .collects r ∈ l := by
  simp only [dueIds, List.mem_filterMap, Entry.dueId_eq_some, exists_eq_right]

omit [DecidableEq ι] [DecidableEq δ] in
theorem mem_collectedIds : r ∈ collectedIds a l ↔ .returned a .collects r ∈ l := by
  simp only [collectedIds, List.mem_filterMap, Entry.collectedId_eq_some, exists_eq_right]

omit [DecidableEq φ] [DecidableEq ι] [DecidableEq δ] in
theorem ids_append {l' : List (Entry φ ι δ)} : ids (l ++ l') = ids l ++ ids l' := List.filterMap_append

omit [DecidableEq ι] [DecidableEq δ] in
theorem dueIds_append {l' : List (Entry φ ι δ)} : dueIds a (l ++ l') = dueIds a l ++ dueIds a l' :=
  List.filterMap_append

omit [DecidableEq ι] [DecidableEq δ] in
theorem collectedIds_append {l' : List (Entry φ ι δ)} :
    collectedIds a (l ++ l') = collectedIds a l ++ collectedIds a l' :=
  List.filterMap_append

omit [DecidableEq ι] [DecidableEq δ] in
theorem dueIds_sublist : List.Sublist (dueIds a l) (ids l) := by
  induction l with
  | nil => exact .slnil
  | cons x l ih =>
      cases x with
      | issued b k r =>
          cases k with
          | collects =>
              by_cases hb : b = a
              · simpa [dueIds, ids, Entry.dueId, Entry.issuedId, hb] using ih
              · simpa [dueIds, ids, Entry.dueId, Entry.issuedId, hb] using ih.cons r
          | stops d => exact ih.cons r
          | ignores => exact ih.cons r
      | returned => exact ih
      | lost => exact ih

omit [DecidableEq ι] in
theorem dueIds_issued {l' : List (Entry φ ι δ)} : (dueIds a' (.issued a k r :: l')).length =
    (if a' = a ∧ k = .collects then 1 else 0) + (dueIds a' l').length := by
  cases k with
  | stops d => simp [dueIds, List.filterMap_cons, Entry.dueId]
  | ignores => simp [dueIds, List.filterMap_cons, Entry.dueId]
  | collects =>
      by_cases ha : a = a'
      · simp [dueIds, Entry.dueId, ha, Nat.add_comm]
      · simp [dueIds, Entry.dueId, ha, Ne.symm ha]

omit [DecidableEq ι] [DecidableEq δ] in
theorem collectedIds_returned :
    (collectedIds a' [(.returned a .collects r : Entry φ ι δ)]).length = if a' = a then 1 else 0 := by
  by_cases ha : a = a'
  · simp [collectedIds, Entry.collectedId, ha]
  · simp [collectedIds, Entry.collectedId, ha, Ne.symm ha]

omit [DecidableEq φ] [DecidableEq ι] [DecidableEq δ] in
/-- With distinct ids an id has one owner and one kind. -/
theorem issued_unique (h : (ids l).Nodup) (hx : .issued a k r ∈ l) (hy : .issued a' k' r ∈ l) :
    a = a' ∧ k = k' := by
  induction l with
  | nil => cases hx
  | cons x l ih =>
      have hcons : ids (x :: l) = (x.issuedId.toList) ++ ids l := by
        cases x <;> rfl
      rw [hcons, List.nodup_append] at h
      have hnew : ∀ {b : φ} {k : Kind δ}, x = .issued b k r → r ∉ ids l := by
        rintro b k rfl hmem
        exact h.2.2 r (by simp [Entry.issuedId]) r hmem rfl
      rcases List.mem_cons.mp hx with hx | hx <;> rcases List.mem_cons.mp hy with hy | hy
      · obtain ⟨rfl, rfl, -⟩ := Entry.issued.inj (hx.trans hy.symm)
        exact ⟨rfl, rfl⟩
      · exact absurd (mem_ids.mpr ⟨_, _, hy⟩) (hnew hx.symm)
      · exact absurd (mem_ids.mpr ⟨_, _, hx⟩) (hnew hy.symm)
      · exact ih h.2.1 hx hy

theorem count_collected : (collectedIds a l).count r = l.count (.returned a .collects r) := by
  induction l with
  | nil => rfl
  | cons x l ih =>
      have hcons : collectedIds a (x :: l) = (x.collectedId a).toList ++ collectedIds a l := by
        simp only [collectedIds, List.filterMap_cons]
        cases x.collectedId a <;> rfl
      rw [hcons, List.count_append, List.count_cons, ih, Nat.add_comm]
      congr 1
      cases x with
      | issued => simp [Entry.collectedId]
      | lost => simp [Entry.collectedId]
      | returned b k r' =>
          cases k with
          | stops d => simp [Entry.collectedId]
          | ignores => simp [Entry.collectedId]
          | collects =>
              by_cases hb : b = a
              · simp [Entry.collectedId, hb, List.count_singleton]
              · simp [Entry.collectedId, hb]

namespace Books

variable {b b' : Books φ ι δ}

omit [DecidableEq φ] [DecidableEq δ] in
theorem close_sublist : List.Sublist (b.close r) b.entries := List.filter_sublist

omit [DecidableEq φ] [DecidableEq δ] in
theorem mem_close {p : ι × φ} : p ∈ b.close r ↔ p ∈ b.entries ∧ p.1 ≠ r := by simp [close]

omit [DecidableEq δ] in
theorem count_close {r' : ι} : (b.close r').count (r, a) = if r = r' then 0 else b.entries.count (r, a) := by
  split
  · rename_i h
    exact List.count_eq_zero.mpr fun hmem => (mem_close.mp hmem).2 h
  · rename_i h
    exact List.count_filter (by simpa using h)

/-- What issuing the fresh id `r` changes: its owner is stopped in it or is owed its answer, and it is
listed or lost. -/
structure Opens (b b' : Books φ ι δ) (a : φ) (k : Kind δ) (r : ι) (xs : List (Entry φ ι δ)) : Prop where
  fresh : r ∉ Requests.ids b.log
  log : b'.log = b.log ++ .issued a k r :: xs
  lost : xs = [] ∨ xs = [.lost a r]
  entries : b'.entries = b.entries ∨ b'.entries = (r, a) :: b.entries ∧ k ≠ .ignores
  queue : ∀ c, (b'.account c).queue = (b.account c).queue
  stopped : ∀ c d r', (b'.account c).stopped = some (d, r') ↔
    (b.account c).stopped = some (d, r') ∨ c = a ∧ k = .stops d ∧ r' = r
  due : ∀ c, (b'.account c).due = (b.account c).due + if c = a ∧ k = .collects then 1 else 0
  share : k = .collects → b'.entries.count (r, a) + xs.count (.lost a r) = 1

namespace Opens

variable {xs : List (Entry φ ι δ)}

theorem mem (h : b.Opens b' a k r xs) {x : Entry φ ι δ} : x ∈ b'.log ↔ x ∈ b.log ∨ x = .issued a k r ∨ x ∈ xs := by
  rw [h.log, List.mem_append, List.mem_cons]

theorem old (h : b.Opens b' a k r xs) {x : Entry φ ι δ} (hx : x ∈ b.log) : x ∈ b'.log := h.mem.mpr (.inl hx)

theorem new (h : b.Opens b' a k r xs) : .issued a k r ∈ b'.log := h.mem.mpr (.inr (.inl rfl))

theorem eq_lost (h : b.Opens b' a k r xs) {x : Entry φ ι δ} (hx : x ∈ xs) : x = .lost a r := by
  rcases h.lost with heq | heq
  · rw [heq] at hx
    cases hx
  · rw [heq] at hx
    exact List.mem_singleton.mp hx

theorem issued (h : b.Opens b' a k r xs) {r' : ι} (hx : .issued a' k' r' ∈ b'.log) :
    .issued a' k' r' ∈ b.log ∧ r' ≠ r ∨ a' = a ∧ k' = k ∧ r' = r := by
  rcases h.mem.mp hx with hold | heq | hlost
  · refine .inl ⟨hold, fun heq => h.fresh ?_⟩
    rw [← heq]
    exact mem_ids.mpr ⟨a', k', hold⟩
  · exact .inr (Entry.issued.inj heq)
  · cases h.eq_lost hlost

theorem count_returned (h : b.Opens b' a k r xs) {r' : ι} :
    b'.log.count (.returned a' k' r') = b.log.count (.returned a' k' r') := by
  rw [h.log, List.count_append, List.count_cons]
  rcases h.lost with heq | heq
  · simp [heq]
  · simp [heq]

theorem count_lost (h : b.Opens b' a k r xs) {r' : ι} :
    b'.log.count (.lost a' r') = b.log.count (.lost a' r') + xs.count (.lost a' r') := by
  rw [h.log, List.count_append, List.count_cons]
  simp

theorem count_lost_of_ne (h : b.Opens b' a k r xs) {r' : ι} (hne : r' ≠ r) :
    b'.log.count (.lost a' r') = b.log.count (.lost a' r') := by
  have hzero : xs.count (.lost a' r') = 0 := List.count_eq_zero.mpr fun hx =>
    hne (Entry.lost.inj (h.eq_lost hx)).2
  rw [h.count_lost, hzero, Nat.add_zero]

theorem count_entries_of_ne (h : b.Opens b' a k r xs) {r' : ι} (hne : r' ≠ r) :
    b'.entries.count (r', a') = b.entries.count (r', a') := by
  rcases h.entries with heq | ⟨heq, -⟩
  · rw [heq]
  · rw [heq, List.count_cons_of_ne]
    exact fun hpair => hne (Prod.mk.inj hpair).1.symm

theorem mem_entries (h : b.Opens b' a k r xs) {r' : ι} (hp : (r', a') ∈ b'.entries) :
    (r', a') ∈ b.entries ∨ (r' = r ∧ a' = a) ∧ k ≠ .ignores := by
  rcases h.entries with heq | ⟨heq, hk⟩
  · exact .inl (heq ▸ hp)
  · rw [heq] at hp
    exact (List.mem_cons.mp hp).symm.imp id fun hpair => ⟨Prod.mk.inj hpair, hk⟩

theorem nodup_ids (h : b.Opens b' a k r xs) (hids : (Requests.ids b.log).Nodup) : (Requests.ids b'.log).Nodup := by
  have hids' : Requests.ids b'.log = Requests.ids b.log ++ [r] := by
    rw [h.log, ids_append]
    rcases h.lost with heq | heq
    · rw [heq]
      rfl
    · rw [heq]
      rfl
  rw [hids']
  refine List.nodup_append.mpr ⟨hids, List.nodup_singleton r, fun r' hr' r'' hr'' heq => h.fresh ?_⟩
  rw [← List.mem_singleton.mp hr'', ← heq]
  exact hr'

theorem dueIds_length (h : b.Opens b' a k r xs) (c : φ) : (dueIds c b'.log).length =
    (dueIds c b.log).length + if c = a ∧ k = .collects then 1 else 0 := by
  have hnil : dueIds c xs = [] := List.filterMap_eq_nil_iff.mpr fun x hx => by
    rw [h.eq_lost hx]
    rfl
  rw [h.log, dueIds_append, List.length_append, dueIds_issued, hnil]
  rfl

theorem collectedIds_eq (h : b.Opens b' a k r xs) (c : φ) : collectedIds c b'.log = collectedIds c b.log := by
  have hnil : collectedIds c (.issued a k r :: xs) = [] := List.filterMap_eq_nil_iff.mpr fun x hx => by
    rcases List.mem_cons.mp hx with heq | hlost
    · rw [heq]
      rfl
    · rw [h.eq_lost hlost]
      rfl
  rw [h.log, collectedIds_append, hnil, List.append_nil]

end Opens

namespace Balanced

theorem count_entry (h : b.Balanced) (hentry : (r, a) ∈ b.entries) : b.entries.count (r, a) = 1 :=
  List.count_eq_one_of_mem (List.Nodup.of_map _ h.distinct) hentry

theorem issued_of_entry (h : b.Balanced) (hentry : (r, a) ∈ b.entries) :
    ∃ k, .issued a k r ∈ b.log := by
  rcases h.entry r a hentry with hdue | ⟨d, hd⟩
  · exact ⟨_, hdue⟩
  · exact ⟨_, h.stopped a d r hd⟩

/-- An owner that is not stopped in a request is to collect its answer. -/
theorem due_of_entry (h : b.Balanced) (hentry : (r, a) ∈ b.entries)
    (hother : ∀ d, (b.account a).stopped ≠ some (d, r)) : .issued a .collects r ∈ b.log :=
  (h.entry r a hentry).resolve_right fun ⟨d, hd⟩ => hother d hd

/-- A fresh id is mentioned nowhere. -/
theorem fresh (h : b.Balanced) (hfresh : r ∉ Requests.ids b.log) (a : φ) :
    (∀ k, .returned a k r ∉ b.log) ∧ .lost a r ∉ b.log ∧ r ∉ (b.account a).queue ∧
      (r, a) ∉ b.entries ∧ ∀ d, (b.account a).stopped ≠ some (d, r) := by
  have hnot : ∀ k, .issued a k r ∉ b.log := fun k hk => hfresh (mem_ids.mpr ⟨a, k, hk⟩)
  refine ⟨fun k hk => hnot k (h.returned a k r hk).1, fun hlost => ?_, fun hq => hnot _ (h.queue a r hq),
    fun hentry => ?_, fun d hd => hnot _ (h.stopped a d r hd)⟩
  · obtain ⟨k, hk⟩ := h.lost a r hlost
    exact hnot k hk
  · obtain ⟨k, hk⟩ := h.issued_of_entry hentry
    exact hnot k hk

/-- A step that issues nothing: what it answers was issued, and the shares do not change. -/
theorem answer (h : b.Balanced) {xs : List (Entry φ ι δ)} (hlog : b'.log = b.log ++ xs)
    (hxs : ∀ x ∈ xs, (∃ a k r, x = .returned a k r ∧ .issued a k r ∈ b.log ∧ k ≠ .ignores) ∨
      ∃ a k r, x = .lost a r ∧ .issued a k r ∈ b.log)
    (hentries : List.Sublist b'.entries b.entries)
    (hqueue : ∀ a, ∀ r ∈ (b'.account a).queue, .issued a .collects r ∈ b.log)
    (hstopped : ∀ a d r, (b'.account a).stopped = some (d, r) → (b.account a).stopped = some (d, r))
    (hentry : ∀ a d r, (r, a) ∈ b'.entries → (b.account a).stopped = some (d, r) →
      (b'.account a).stopped = some (d, r))
    (hstop : ∀ a d r, .issued a (.stops d) r ∈ b.log → b'.stops a d r = b.stops a d r)
    (hshares : ∀ a r, .issued a .collects r ∈ b.log → b'.shares a r = b.shares a r)
    (hdue : ∀ a, (b'.account a).due = (b.account a).due - (collectedIds a xs).length) : b'.Balanced := by
  have hissued : ∀ {a k r}, .issued a k r ∈ b'.log ↔ .issued a k r ∈ b.log := by
    intro a k r
    rw [hlog, List.mem_append]
    refine ⟨fun hmem => hmem.resolve_right fun hx => ?_, .inl⟩
    rcases hxs _ hx with ⟨a', k', r', heq, -⟩ | ⟨a', k', r', heq, -⟩ <;> cases heq
  have hnone : ∀ x ∈ xs, x.issuedId = none ∧ ∀ a, x.dueId a = none := by
    intro x hx
    rcases hxs x hx with ⟨_, _, _, rfl, -⟩ | ⟨_, _, _, rfl, -⟩ <;> exact ⟨rfl, fun _ => rfl⟩
  have hids : Requests.ids b'.log = Requests.ids b.log := by
    have hnil : Requests.ids xs = [] := List.filterMap_eq_nil_iff.mpr fun x hx => (hnone x hx).1
    rw [hlog, ids_append, hnil, List.append_nil]
  have hdues : ∀ a, dueIds a b'.log = dueIds a b.log := by
    intro a
    have hnil : dueIds a xs = [] := List.filterMap_eq_nil_iff.mpr fun x hx => (hnone x hx).2 a
    rw [hlog, dueIds_append, hnil, List.append_nil]
  refine ⟨hids ▸ h.ids, h.distinct.sublist (hentries.map _), ?_, ?_, ?_, ?_, ?_, ?_, ?_, ?_⟩
  · intro a k r hr
    rw [hissued]
    rw [hlog] at hr
    rcases List.mem_append.mp hr with hr | hr
    · exact h.returned a k r hr
    · rcases hxs _ hr with ⟨a', k', r', heq, hk⟩ | ⟨a', k', r', heq, -⟩
      · cases heq
        exact hk
      · cases heq
  · intro a r hr
    rw [hlog] at hr
    rcases List.mem_append.mp hr with hr | hr
    · obtain ⟨k, hk⟩ := h.lost a r hr
      exact ⟨k, hissued.mpr hk⟩
    · rcases hxs _ hr with ⟨a', k', r', heq, -⟩ | ⟨a', k', r', heq, hk⟩
      · cases heq
      · cases heq
        exact ⟨k', hissued.mpr hk⟩
  · exact fun a d r hd => hissued.mpr (h.stopped a d r (hstopped a d r hd))
  · exact fun a r hr => hissued.mpr (hqueue a r hr)
  · intro r a hmem
    refine (h.entry r a (hentries.subset hmem)).imp hissued.mpr fun ⟨d, hd⟩ => ?_
    exact ⟨d, hentry a d r hmem hd⟩
  · exact fun a d r hk => (hstop a d r (hissued.mp hk)).trans (h.stop_once a d r (hissued.mp hk))
  · exact fun a r hk => (hshares a r (hissued.mp hk)).trans (h.collect_once a r (hissued.mp hk))
  · intro a
    rw [hdue, h.due, hdues, hlog, collectedIds_append, List.length_append]
    omega

/-- The requests that stop their owner, the new one among them. -/
theorem opens_stops (h : b.Balanced) {xs : List (Entry φ ι δ)} (hopens : b.Opens b' a k r xs) {c : φ} {d : δ} {r' : ι}
    (hx : .issued c (.stops d) r' ∈ b'.log) : b'.stops c d r' = 1 := by
  rcases hopens.issued hx with ⟨hold, hne⟩ | ⟨rfl, rfl, rfl⟩
  · have hiff : (b'.account c).stopped = some (d, r') ↔ (b.account c).stopped = some (d, r') := by
      rw [hopens.stopped]
      exact ⟨fun hd => hd.resolve_right fun hd => hne hd.2.2, .inl⟩
    rw [← h.stop_once c d r' hold, stops, stops, hopens.count_returned]
    simp only [hiff]
  · have hzero : b.log.count (.returned c (.stops d) r') = 0 :=
      List.count_eq_zero.mpr ((h.fresh hopens.fresh c).1 _)
    rw [stops, hopens.count_returned, hzero, if_pos ((hopens.stopped c d r').mpr (.inr ⟨rfl, rfl, rfl⟩))]

/-- The requests whose answer is collected, the new one among them. -/
theorem opens_shares (h : b.Balanced) {xs : List (Entry φ ι δ)} (hopens : b.Opens b' a k r xs) {c : φ} {r' : ι}
    (hx : .issued c .collects r' ∈ b'.log) : b'.shares c r' = 1 := by
  rcases hopens.issued hx with ⟨hold, hne⟩ | ⟨rfl, rfl, rfl⟩
  · rw [← h.collect_once c r' hold, shares, shares, hopens.count_returned, hopens.queue,
      hopens.count_entries_of_ne hne, hopens.count_lost_of_ne hne]
  · obtain ⟨hret, hlost, hq, -, -⟩ := h.fresh hopens.fresh c
    rw [shares, hopens.count_returned, hopens.queue, hopens.count_lost, List.count_eq_zero.mpr (hret _),
      List.count_eq_zero.mpr hq, List.count_eq_zero.mpr hlost]
    have hone := hopens.share rfl
    omega

/-- A step that issues one fresh id. -/
theorem issue (h : b.Balanced) {xs : List (Entry φ ι δ)} (hopens : b.Opens b' a k r xs) : b'.Balanced := by
  refine ⟨hopens.nodup_ids h.ids, ?_, ?_, ?_, ?_, ?_, ?_, fun c d r' => h.opens_stops hopens,
    fun c r' => h.opens_shares hopens, ?_⟩
  · rcases hopens.entries with heq | ⟨heq, -⟩
    · rw [heq]
      exact h.distinct
    · rw [heq, List.map_cons, List.nodup_cons]
      refine ⟨fun hr => ?_, h.distinct⟩
      obtain ⟨⟨r', c⟩, hp, rfl⟩ := List.mem_map.mp hr
      exact (h.fresh hopens.fresh c).2.2.2.1 hp
  · intro c k' r' hx
    rcases hopens.mem.mp hx with hold | heq | hlost
    · exact (h.returned c k' r' hold).imp hopens.old id
    · cases heq
    · cases hopens.eq_lost hlost
  · intro c r' hx
    rcases hopens.mem.mp hx with hold | heq | hlost
    · obtain ⟨k', hk'⟩ := h.lost c r' hold
      exact ⟨k', hopens.old hk'⟩
    · cases heq
    · cases hopens.eq_lost hlost
      exact ⟨k, hopens.new⟩
  · intro c d r' hd
    rcases (hopens.stopped c d r').mp hd with hold | ⟨rfl, rfl, rfl⟩
    · exact hopens.old (h.stopped c d r' hold)
    · exact hopens.new
  · intro c r' hr'
    rw [hopens.queue] at hr'
    exact hopens.old (h.queue c r' hr')
  · intro r' c hp
    rcases hopens.mem_entries hp with hold | ⟨⟨rfl, rfl⟩, hk⟩
    · exact (h.entry r' c hold).imp hopens.old fun ⟨d, hd⟩ => ⟨d, (hopens.stopped c d r').mpr (.inl hd)⟩
    · cases k with
      | stops d => exact .inr ⟨d, (hopens.stopped c d r').mpr (.inr ⟨rfl, rfl, rfl⟩)⟩
      | collects => exact .inl hopens.new
      | ignores => exact absurd rfl hk
  · intro c
    rw [hopens.due, h.due, hopens.dueIds_length, hopens.collectedIds_eq]
    split <;> omega

omit [DecidableEq ι] [DecidableEq δ] in
/-- A field of the accounts that an update does not touch. -/
theorem account_field {β : Type*} (field : Account ι δ → β) (acc : Account ι δ)
    (hacc : field acc = field (b.account a)) (c : φ) :
    field (Function.update b.account a acc c) = field (b.account c) := by
  by_cases hc : c = a
  · rw [hc, Function.update_self, hacc]
  · rw [Function.update_of_ne hc]

/-- The owner goes on from the request it was stopped in. -/
theorem resume (h : b.Balanced) {d : δ} (hstopped : (b.account a).stopped = some (d, r)) :
    Balanced
      { account := Function.update b.account a { b.account a with stopped := none }
        entries := b.close r
        log := b.log ++ [.returned a (.stops d) r] } := by
  have hissued := h.stopped a d r hstopped
  have hqueue := account_field (b := b) (a := a) Account.queue { b.account a with stopped := none } rfl
  have hdue := account_field (b := b) (a := a) Account.due { b.account a with stopped := none } rfl
  refine h.answer rfl (fun x hx => .inl ⟨a, _, r, List.mem_singleton.mp hx, hissued, by simp⟩) close_sublist
    ?_ ?_ ?_ ?_ ?_ ?_
  · intro c r' hr'
    rw [hqueue] at hr'
    exact h.queue c r' hr'
  · intro c d' r' hd'
    by_cases hc : c = a
    · subst hc
      simp at hd'
    · simpa [Function.update_of_ne hc] using hd'
  · intro c d' r' hentry hd'
    by_cases hc : c = a
    · subst hc
      obtain ⟨-, rfl⟩ := Prod.mk.inj (Option.some.inj (hstopped.symm.trans hd'))
      exact absurd rfl (mem_close.mp hentry).2
    · simpa [Function.update_of_ne hc] using hd'
  · intro c d' r' _
    rw [stops, stops, List.count_append, List.count_singleton]
    by_cases hc : c = a
    · subst hc
      simp [hstopped, Nat.add_comm]
    · simp [Function.update_of_ne hc, Ne.symm hc]
  · intro c r' hissued'
    have hne : r' ≠ r := by
      rintro rfl
      cases (issued_unique h.ids hissued hissued').2
    rw [shares, shares, hqueue, count_close, if_neg hne]
    simp
  · intro c
    have hnil : collectedIds c [Entry.returned a (.stops d) r] = [] := rfl
    rw [hdue, hnil]
    simp

/-- An answer is handed to an owner that waits to collect one. -/
theorem deliver (h : b.Balanced) (hentry : (r, a) ∈ b.entries) (hfree : (b.account a).stopped = none) :
    Balanced
      { account := Function.update b.account a { b.account a with due := (b.account a).due - 1 }
        entries := b.close r
        log := b.log ++ [.returned a .collects r] } := by
  have hissued := h.due_of_entry hentry fun d hd => by rw [hfree] at hd; cases hd
  have hqueue := account_field (b := b) (a := a) Account.queue
    { b.account a with due := (b.account a).due - 1 } rfl
  have hstopped := account_field (b := b) (a := a) Account.stopped
    { b.account a with due := (b.account a).due - 1 } rfl
  refine h.answer rfl (fun x hx => .inl ⟨a, _, r, List.mem_singleton.mp hx, hissued, by simp⟩) close_sublist
    ?_ ?_ ?_ ?_ ?_ ?_
  · intro c r' hr'
    rw [hqueue] at hr'
    exact h.queue c r' hr'
  · intro c d' r' hd'
    rw [hstopped] at hd'
    exact hd'
  · intro c d' r' _ hd'
    rw [hstopped]
    exact hd'
  · intro c d' r' _
    rw [stops, stops, hstopped]
    simp
  · intro c r' hissued'
    rw [shares, shares, hqueue, count_close]
    by_cases hr : r' = r
    · subst hr
      obtain ⟨rfl, -⟩ := issued_unique h.ids hissued hissued'
      rw [if_pos rfl, h.count_entry hentry, List.count_append, List.count_append]
      simp
      omega
    · rw [if_neg hr]
      simp [Ne.symm hr]
  · intro c
    rw [collectedIds_returned]
    by_cases hc : c = a
    · subst hc
      simp
    · simp [hc]

/-- An answer is queued for an owner that does something else. -/
theorem enqueue (h : b.Balanced) (hentry : (r, a) ∈ b.entries)
    (hother : ∀ d, (b.account a).stopped ≠ some (d, r)) :
    Balanced
      { b with
        account := Function.update b.account a { b.account a with queue := (b.account a).queue ++ [r] }
        entries := b.close r } := by
  have hissued := h.due_of_entry hentry hother
  have hstopped := account_field (b := b) (a := a) Account.stopped
    { b.account a with queue := (b.account a).queue ++ [r] } rfl
  have hdue := account_field (b := b) (a := a) Account.due
    { b.account a with queue := (b.account a).queue ++ [r] } rfl
  refine h.answer (List.append_nil _).symm (fun x hx => absurd hx List.not_mem_nil) close_sublist
    ?_ ?_ ?_ ?_ ?_ ?_
  · intro c r' hr'
    by_cases hc : c = a
    · subst hc
      simp only [Function.update_self, List.mem_append, List.mem_singleton] at hr'
      rcases hr' with hr' | rfl
      · exact h.queue c r' hr'
      · exact hissued
    · simp only [Function.update_of_ne hc] at hr'
      exact h.queue c r' hr'
  · intro c d' r' hd'
    rw [hstopped] at hd'
    exact hd'
  · intro c d' r' _ hd'
    rw [hstopped]
    exact hd'
  · intro c d' r' _
    rw [stops, stops, hstopped]
  · intro c r' hissued'
    rw [shares, shares, count_close]
    by_cases hr : r' = r
    · subst hr
      obtain ⟨rfl, -⟩ := issued_unique h.ids hissued hissued'
      simp only [if_pos, h.count_entry hentry, Function.update_self, List.count_append]
      simp
      omega
    · rw [if_neg hr]
      by_cases hc : c = a
      · subst hc
        simp [Ne.symm hr]
      · simp only [Function.update_of_ne hc]
  · intro c
    rw [hdue]
    simp [collectedIds]

/-- The first queued answer is collected. -/
theorem collect (h : b.Balanced) {rest : List ι} (hqueue : (b.account a).queue = r :: rest) :
    Balanced
      { b with
        account := Function.update b.account a
          { b.account a with queue := rest, due := (b.account a).due - 1 }
        log := b.log ++ [.returned a .collects r] } := by
  have hissued := h.queue a r (by rw [hqueue]; exact List.mem_cons_self)
  have hstopped := account_field (b := b) (a := a) Account.stopped
    { b.account a with queue := rest, due := (b.account a).due - 1 } rfl
  refine h.answer rfl (fun x hx => .inl ⟨a, _, r, List.mem_singleton.mp hx, hissued, by simp⟩) (.refl _)
    ?_ ?_ ?_ ?_ ?_ ?_
  · intro c r' hr'
    by_cases hc : c = a
    · subst hc
      simp only [Function.update_self] at hr'
      exact h.queue c r' (by rw [hqueue]; exact List.mem_cons_of_mem _ hr')
    · simp only [Function.update_of_ne hc] at hr'
      exact h.queue c r' hr'
  · intro c d' r' hd'
    rw [hstopped] at hd'
    exact hd'
  · intro c d' r' _ hd'
    rw [hstopped]
    exact hd'
  · intro c d' r' _
    rw [stops, stops, hstopped]
    simp
  · intro c r' hissued'
    rw [shares, shares]
    by_cases hc : c = a
    · subst hc
      simp only [Function.update_self, hqueue, List.count_append]
      by_cases hr : r' = r
      · subst hr
        simp
        omega
      · simp [Ne.symm hr]
    · simp only [Function.update_of_ne hc]
      simp [Ne.symm hc]
  · intro c
    rw [collectedIds_returned]
    by_cases hc : c = a
    · subst hc
      simp
    · simp [hc]

/-- An answer is lost. -/
theorem lose (h : b.Balanced) (hentry : (r, a) ∈ b.entries) :
    Balanced { b with entries := b.close r, log := b.log ++ [.lost a r] } := by
  obtain ⟨k, hissued⟩ := h.issued_of_entry hentry
  refine h.answer rfl (fun x hx => .inr ⟨a, k, r, List.mem_singleton.mp hx, hissued⟩) close_sublist
    h.queue (fun _ _ _ hd => hd) (fun _ _ _ _ hd => hd) ?_ ?_ ?_
  · intro c d' r' _
    rw [stops, stops]
    simp
  · intro c r' hissued'
    rw [shares, shares, count_close]
    by_cases hr : r' = r
    · subst hr
      obtain ⟨rfl, -⟩ := issued_unique h.ids hissued hissued'
      rw [if_pos rfl, h.count_entry hentry, List.count_append, List.count_append]
      simp
      omega
    · rw [if_neg hr]
      simp [Ne.symm hr]
  · intro c
    have hnil : collectedIds c [(Entry.lost a r : Entry φ ι δ)] = [] := rfl
    rw [hnil]
    simp

/-- Every step keeps the books balanced. -/
theorem step (h : b.Balanced) (hstep : b.Step b') : b'.Balanced := by
  cases hstep with
  | @stop a d r listed hfresh hfree =>
      refine h.issue (k := .stops d) ⟨hfresh, rfl, ?_, ?_, ?_, ?_, ?_, fun heq => by cases heq⟩
      · cases listed
        · exact .inr rfl
        · exact .inl rfl
      · cases listed
        · exact .inl rfl
        · exact .inr ⟨rfl, by simp⟩
      · exact account_field Account.queue _ rfl
      · intro c d' r'
        by_cases hc : c = a
        · subst hc
          simp [hfree, eq_comm]
        · simp [hc]
      · intro c
        have hsame := account_field (b := b) (a := a) Account.due
          { b.account a with stopped := some (d, r) } rfl c
        simpa using hsame
  | @start a r listed hfresh =>
      refine h.issue (k := .collects) ⟨hfresh, rfl, ?_, ?_, ?_, ?_, ?_, fun _ => ?_⟩
      · cases listed
        · exact .inr rfl
        · exact .inl rfl
      · cases listed
        · exact .inl rfl
        · exact .inr ⟨rfl, by simp⟩
      · exact account_field Account.queue _ rfl
      · intro c d' r'
        have hsame := account_field (b := b) (a := a) Account.stopped
          { b.account a with due := (b.account a).due + 1 } rfl c
        simp [hsame]
      · intro c
        by_cases hc : c = a
        · subst hc
          simp
        · simp [hc]
      · have hnot := (h.fresh hfresh a).2.2.2.1
        cases listed
        · simp [List.count_eq_zero.mpr hnot]
        · simp [List.count_eq_zero.mpr hnot]
  | @ignore a r hfresh =>
      refine h.issue (a := a) (k := .ignores)
        ⟨hfresh, rfl, .inl rfl, .inl rfl, fun _ => rfl, ?_, ?_, fun heq => by cases heq⟩
      · intro c d' r'
        simp
      · intro c
        simp
  | resume hstopped => exact h.resume hstopped
  | deliver hentry hfree => exact h.deliver hentry hfree
  | queue hentry hother => exact h.enqueue hentry hother
  | collect hqueue => exact h.collect hqueue
  | lose hentry => exact h.lose hentry

/-! ### What balanced books say -/

/-- No answer is returned twice. -/
theorem returned_once (h : b.Balanced) (hret : .returned a k r ∈ b.log) :
    b.log.count (.returned a k r) = 1 := by
  have hpos := List.count_pos_iff.mpr hret
  obtain ⟨hissued, hk⟩ := h.returned a k r hret
  cases k with
  | stops d =>
      have hone := h.stop_once a d r hissued
      rw [stops] at hone
      omega
  | collects =>
      have hone := h.collect_once a r hissued
      rw [shares] at hone
      omega
  | ignores => exact absurd rfl hk

/-- A request that has been answered is open no more. -/
theorem returned_closed (h : b.Balanced) (hret : .returned a k r ∈ b.log) (c : φ) :
    (r, c) ∉ b.entries ∧ r ∉ (b.account c).queue := by
  obtain ⟨hissued, -⟩ := h.returned a k r hret
  have hpos := List.count_pos_iff.mpr hret
  refine ⟨fun hentry => ?_, fun hqueue => ?_⟩
  · rcases h.entry r c hentry with hdue | ⟨d, hd⟩
    · obtain ⟨rfl, rfl⟩ := issued_unique h.ids hissued hdue
      have hone := h.collect_once a r hissued
      rw [shares, h.count_entry hentry] at hone
      omega
    · obtain ⟨rfl, rfl⟩ := issued_unique h.ids hissued (h.stopped c d r hd)
      have hone := h.stop_once a d r hissued
      rw [stops, if_pos hd] at hone
      omega
  · obtain ⟨rfl, rfl⟩ := issued_unique h.ids hissued (h.queue c r hqueue)
    have hone := h.collect_once a r hissued
    have hq := List.count_pos_iff.mpr hqueue
    rw [shares] at hone
    omega

/-- At most one answer is returned for each id. -/
theorem returned_nodup (h : b.Balanced) : (b.log.filterMap Entry.returnedId).Nodup := by
  have hfilter : b.log.filterMap Entry.returnedId =
      (b.log.filter fun x => x.returnedId.isSome).filterMap Entry.returnedId := by
    rw [List.filterMap_filter]
    congr 1
    funext x
    cases x <;> rfl
  have hmem : ∀ x ∈ b.log.filter fun x => x.returnedId.isSome, ∃ a k r, x = .returned a k r ∧
      .returned a k r ∈ b.log := by
    intro x hx
    obtain ⟨hx, hsome⟩ := List.mem_filter.mp hx
    cases x with
    | returned a k r => exact ⟨a, k, r, rfl, hx⟩
    | issued => cases hsome
    | lost => cases hsome
  have hnodup : (b.log.filter fun x => x.returnedId.isSome).Nodup := by
    refine List.nodup_iff_count_le_one.mpr fun x => ?_
    by_cases hx : x ∈ b.log.filter fun x => x.returnedId.isSome
    · obtain ⟨a, k, r, rfl, hret⟩ := hmem x hx
      have hone := h.returned_once hret
      have hle := (List.filter_sublist (p := fun x => x.returnedId.isSome) (l := b.log)).count_le
        (.returned a k r)
      omega
    · rw [List.count_eq_zero.mpr hx]
      exact Nat.zero_le 1
  rw [hfilter]
  refine List.pairwise_filterMap.mpr (hnodup.imp_of_mem fun hx hy hne r hr r' hr' heq => hne ?_)
  obtain ⟨a, k, r₁, rfl, hx'⟩ := hmem _ hx
  obtain ⟨a', k', r₂, rfl, hy'⟩ := hmem _ hy
  obtain rfl : r₁ = r := Option.some.inj hr
  obtain rfl : r₂ = r' := Option.some.inj hr'
  subst heq
  obtain ⟨rfl, rfl⟩ := issued_unique h.ids (h.returned _ _ _ hx').1 (h.returned _ _ _ hy').1
  rfl

theorem collected_nodup (h : b.Balanced) (a : φ) : (collectedIds a b.log).Nodup := by
  refine List.nodup_iff_count_le_one.mpr fun r => ?_
  rw [count_collected]
  by_cases hret : .returned a .collects r ∈ b.log
  · have hone := h.returned_once hret
    omega
  · have hzero := List.count_eq_zero.mpr hret
    omega

/-- When nothing is due, every answer that was to be collected has been. -/
theorem all_collected (h : b.Balanced) (hdue : (b.account a).due = 0) :
    ∀ r ∈ dueIds a b.log, r ∈ collectedIds a b.log := by
  have hsub : collectedIds a b.log ⊆ dueIds a b.log := fun r hr =>
    mem_dueIds.mpr (h.returned a .collects r (mem_collectedIds.mp hr)).1
  have hlen : (dueIds a b.log).length ≤ (collectedIds a b.log).length := by
    have hbal := h.due a
    omega
  have hperm := ((h.collected_nodup a).subperm hsub).perm_of_length_le hlen
  exact fun r hr => hperm.symm.subset hr

end Balanced

/-- Books in which nothing has happened are balanced. -/
theorem balanced_start (h : b.log = []) (hentries : b.entries = [])
    (haccount : ∀ a, b.account a = ⟨none, [], 0⟩) : b.Balanced := by
  refine ⟨?_, ?_, ?_, ?_, ?_, ?_, ?_, ?_, ?_, ?_⟩ <;> simp [h, hentries, haccount, Requests.ids, dueIds, collectedIds]

/-! ### Open requests -/

omit [DecidableEq φ] [DecidableEq ι] [DecidableEq δ] in
/-- A request that stops its owner is open, unless it has been lost. -/
def Listed (b : Books φ ι δ) : Prop :=
  ∀ a d r, (b.account a).stopped = some (d, r) → (r, a) ∈ b.entries ∨ .lost a r ∈ b.log

/-- The ids of the open requests of `a` whose answers it is to collect. -/
def openIds (b : Books φ ι δ) (a : φ) : List ι :=
  (b.entries.filter fun p => p.2 = a ∧ (b.account a).stopped.map Prod.snd ≠ some p.1).map Prod.fst

namespace Balanced

/-- A step closes the request that stops an owner only when it answers or loses it. -/
theorem listed_step (h : b.Balanced) (hl : b.Listed) (hstep : b.Step b') : b'.Listed := by
  have hkeep : ∀ {c d' r' r}, (b.account c).stopped = some (d', r') → r' ≠ r →
      (r', c) ∈ b.close r ∨ .lost c r' ∈ b.log :=
    fun hs hne => (hl _ _ _ hs).imp (fun hm => mem_close.mpr ⟨hm, hne⟩) id
  intro c d' r' hs
  cases hstep with
  | @stop a d r listed hfresh hfree =>
      by_cases hc : c = a
      · subst hc
        simp only [Function.update_self] at hs
        obtain ⟨rfl, rfl⟩ := Prod.mk.inj (Option.some.inj hs)
        cases listed
        · exact .inr (by simp)
        · exact .inl (by simp)
      · simp only [Function.update_of_ne hc] at hs
        refine (hl c d' r' hs).imp (fun hm => ?_) (List.mem_append_left _)
        cases listed
        · exact hm
        · exact List.mem_cons_of_mem _ hm
  | @start a r listed hfresh =>
      have hs' := (account_field (b := b) (a := a) Account.stopped
        { b.account a with due := (b.account a).due + 1 } rfl c).symm.trans hs
      refine (hl c d' r' hs').imp (fun hm => ?_) (List.mem_append_left _)
      cases listed
      · exact hm
      · exact List.mem_cons_of_mem _ hm
  | ignore => exact (hl c d' r' hs).imp id (List.mem_append_left _)
  | @resume a d r hstopped =>
      by_cases hc : c = a
      · subst hc
        simp only [Function.update_self] at hs
        cases hs
      · simp only [Function.update_of_ne hc] at hs
        refine (hkeep hs ?_).imp id (List.mem_append_left _)
        rintro rfl
        exact hc (issued_unique h.ids (h.stopped c d' r' hs) (h.stopped a d r' hstopped)).1
  | @deliver a r hentry hfree =>
      have hs' := (account_field (b := b) (a := a) Account.stopped
        { b.account a with due := (b.account a).due - 1 } rfl c).symm.trans hs
      refine (hkeep hs' ?_).imp id (List.mem_append_left _)
      rintro rfl
      have hdue := h.due_of_entry hentry fun d hd => by rw [hfree] at hd; cases hd
      cases (issued_unique h.ids (h.stopped c d' r' hs') hdue).2
  | @queue a r hentry hother =>
      have hs' := (account_field (b := b) (a := a) Account.stopped
        { b.account a with queue := (b.account a).queue ++ [r] } rfl c).symm.trans hs
      refine hkeep hs' ?_
      rintro rfl
      cases (issued_unique h.ids (h.stopped c d' r' hs') (h.due_of_entry hentry hother)).2
  | @collect a r rest hqueue =>
      have hs' := (account_field (b := b) (a := a) Account.stopped
        { b.account a with queue := rest, due := (b.account a).due - 1 } rfl c).symm.trans hs
      exact (hl c d' r' hs').imp id (List.mem_append_left _)
  | @lose a r hentry =>
      by_cases hr : r' = r
      · subst hr
        obtain ⟨k, hissued⟩ := h.issued_of_entry hentry
        obtain ⟨rfl, -⟩ := issued_unique h.ids (h.stopped c d' r' hs) hissued
        exact .inr (by simp)
      · exact (hkeep hs hr).imp id (List.mem_append_left _)

theorem mem_openIds (h : b.Balanced) : r ∈ b.openIds a ↔ (r, a) ∈ b.entries ∧ .issued a .collects r ∈ b.log := by
  have hmem : r ∈ b.openIds a ↔ (r, a) ∈ b.entries ∧ (b.account a).stopped.map Prod.snd ≠ some r := by
    simp [openIds]
  rw [hmem]
  refine and_congr_right fun hentry => ⟨fun hno => h.due_of_entry hentry fun d hd => ?_, fun hdue heq => ?_⟩
  · exact hno (by rw [hd]; rfl)
  · obtain ⟨⟨d, r'⟩, hd, rfl⟩ := Option.map_eq_some_iff.mp heq
    cases (issued_unique h.ids hdue (h.stopped a d r' hd)).2

theorem openIds_nodup (h : b.Balanced) : (b.openIds a).Nodup :=
  h.distinct.sublist (List.filter_sublist.map Prod.fst)

/-- While nothing is lost, an answer that is to be collected has been, or is queued, or its request is
open. -/
theorem due_perm (h : b.Balanced) (hlost : ∀ r, .lost a r ∉ b.log) :
    (dueIds a b.log).Perm (collectedIds a b.log ++ (b.account a).queue ++ b.openIds a) := by
  refine List.perm_iff_count.mpr fun r => ?_
  rw [List.count_append, List.count_append, count_collected]
  have hnodup := h.ids.sublist (dueIds_sublist (a := a))
  by_cases hdue : .issued a .collects r ∈ b.log
  · have hone := h.collect_once a r hdue
    rw [shares, List.count_eq_zero.mpr (hlost r)] at hone
    have hopen : (b.openIds a).count r = b.entries.count (r, a) := by
      by_cases hentry : (r, a) ∈ b.entries
      · rw [h.count_entry hentry, List.count_eq_one_of_mem h.openIds_nodup (h.mem_openIds.mpr ⟨hentry, hdue⟩)]
      · rw [List.count_eq_zero.mpr hentry, List.count_eq_zero.mpr fun hr => hentry (h.mem_openIds.mp hr).1]
    rw [List.count_eq_one_of_mem hnodup (mem_dueIds.mpr hdue), hopen]
    omega
  · rw [List.count_eq_zero.mpr fun hr => hdue (mem_dueIds.mp hr),
      List.count_eq_zero.mpr fun hr => hdue (h.returned a _ r hr).1,
      List.count_eq_zero.mpr fun hr => hdue (h.queue a r hr),
      List.count_eq_zero.mpr fun hr => hdue (h.mem_openIds.mp hr).2]

/-- While nothing is lost, the answers still to be collected are the queued ones and those of the open
requests. -/
theorem due_open (h : b.Balanced) (hlost : ∀ r, .lost a r ∉ b.log) :
    (b.account a).due = (b.openIds a).length + (b.account a).queue.length := by
  have hlen := (h.due_perm hlost).length_eq
  rw [List.length_append, List.length_append] at hlen
  rw [h.due a, hlen]
  omega

end Balanced

end Books

end Requests
