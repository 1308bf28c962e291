import Mathlib.Data.List.Induction

/-! Properties of a growing log: what every entry satisfies relative to the entries before it, and
whether a period that one kind of entry opens and another closes is open at the end. -/

namespace History

variable {α : Type*} {Q : List α → α → Prop} {start stop : α → Prop} {l xs : List α} {x : α}

/-- Every entry satisfies `Q` together with the entries before it. -/
def Each (Q : List α → α → Prop) (l : List α) : Prop :=
  ∀ pre x post, l = pre ++ x :: post → Q pre x

theorem each_nil : Each Q ([] : List α) := by
  intro pre x post h
  simp at h

theorem each_append : Each Q (l ++ xs) ↔ Each Q l ∧ Each (fun pre x => Q (l ++ pre) x) xs := by
  constructor
  · refine fun h => ⟨fun pre x post hl => h pre x (post ++ xs) ?_, fun pre x post hxs =>
      h (l ++ pre) x post ?_⟩
    · rw [hl, List.append_assoc, List.cons_append]
    · rw [hxs, List.append_assoc]
  · rintro ⟨hl, hxs⟩ pre x post heq
    rcases List.append_eq_append_iff.mp heq with ⟨ys, rfl, hys⟩ | ⟨ys, rfl, hys⟩
    · exact hxs ys x post hys
    · cases ys with
      | nil =>
          have h := hxs [] x post hys.symm
          simpa using h
      | cons y ys =>
          obtain ⟨rfl, -⟩ := List.cons.inj hys
          exact hl pre x ys rfl

theorem each_singleton : Each Q [x] ↔ Q [] x := by
  refine ⟨fun h => h [] x [] rfl, fun h pre y post heq => ?_⟩
  cases pre with
  | nil =>
      obtain ⟨rfl, -⟩ := List.cons.inj heq
      exact h
  | cons z pre => simp at heq

theorem each_concat : Each Q (l ++ [x]) ↔ Each Q l ∧ Q l x := by
  rw [each_append, each_singleton, List.append_nil]

/-- Entries on which `Q` imposes nothing may be appended. -/
theorem Each.append (hl : Each Q l) (hxs : ∀ x ∈ xs, ∀ pre, Q pre x) : Each Q (l ++ xs) :=
  each_append.mpr ⟨hl, fun pre x post h => hxs x (h ▸ by simp) (l ++ pre)⟩

theorem each_iff_get : Each Q l ↔ ∀ i : Fin l.length, Q (l.take i) (l.get i) := by
  refine ⟨fun h i => h _ _ (l.drop (i + 1)) ?_, fun h pre x post heq => ?_⟩
  · rw [List.get_eq_getElem, List.getElem_cons_drop, List.take_append_drop]
  · subst heq
    have hlt : pre.length < (pre ++ x :: post).length := by simp
    simpa using h ⟨pre.length, hlt⟩

instance [∀ pre x, Decidable (Q pre x)] : Decidable (Each Q l) := decidable_of_iff' _ each_iff_get

/-- A `start` entry with no `stop` entry after it. -/
def Since (start stop : α → Prop) (l : List α) : Prop :=
  ∃ pre x post, l = pre ++ x :: post ∧ start x ∧ ∀ y ∈ post, ¬stop y

theorem not_since_nil : ¬Since start stop ([] : List α) := by
  rintro ⟨pre, x, post, h, -⟩
  simp at h

theorem since_concat : Since start stop (l ++ [x]) ↔ start x ∨ Since start stop l ∧ ¬stop x := by
  constructor
  · rintro ⟨pre, y, post, heq, hy, hpost⟩
    rcases List.eq_nil_or_concat post with rfl | ⟨post', z, rfl⟩
    · obtain ⟨-, hxy⟩ := List.append_inj' heq rfl
      obtain rfl := List.singleton_inj.mp hxy
      exact .inl hy
    · rw [List.concat_eq_append, ← List.cons_append, ← List.append_assoc] at heq
      obtain ⟨hpre, hxz⟩ := List.append_inj' heq rfl
      obtain rfl := List.singleton_inj.mp hxz
      rw [List.concat_eq_append] at hpost
      exact .inr ⟨⟨pre, y, post', hpre, hy, fun w hw => hpost w (List.mem_append_left _ hw)⟩,
        hpost x (List.mem_append_right _ List.mem_cons_self)⟩
  · rintro (hx | ⟨⟨pre, y, post, rfl, hy, hpost⟩, hx⟩)
    · exact ⟨l, x, [], rfl, hx, fun y hy => absurd hy List.not_mem_nil⟩
    · refine ⟨pre, y, post ++ [x], by simp, hy, fun w hw => ?_⟩
      rcases List.mem_append.mp hw with hw | hw
      · exact hpost w hw
      · obtain rfl := List.mem_singleton.mp hw
        exact hx

/-- Entries of neither kind leave an open period open and a closed one closed. -/
theorem since_append (hxs : ∀ x ∈ xs, ¬start x ∧ ¬stop x) :
    Since start stop (l ++ xs) ↔ Since start stop l := by
  induction xs generalizing l with
  | nil => simp
  | cons x xs ih =>
      have h := ih (fun y hy => hxs y (List.mem_cons_of_mem x hy)) (l := l ++ [x])
      rw [List.append_assoc, List.singleton_append, since_concat] at h
      have hx := hxs x List.mem_cons_self
      rw [h]
      exact ⟨fun h => (h.resolve_left hx.1).1, fun h => .inr ⟨h, hx.2⟩⟩

theorem since_iff_foldl [DecidablePred start] [DecidablePred stop] :
    Since start stop l ↔ l.foldl (fun b x => decide (start x) || b && !decide (stop x)) false = true := by
  induction l using List.reverseRecOn with
  | nil => simp [not_since_nil]
  | append_singleton l x ih =>
      rw [since_concat, List.foldl_append, ih]
      simp

instance [DecidablePred start] [DecidablePred stop] : Decidable (Since start stop l) :=
  decidable_of_iff' _ since_iff_foldl

end History
