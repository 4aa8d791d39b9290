/-
Breadth-first order, wave by wave: the start, then what it leads to, then what those lead to, and so on.
Each wave holds what the one before leads to, in order, each item once and without what earlier waves
had. `nodup_seen` and `mem_seen_iff` say that the waves put together are what can be reached from the
start: a wave that is not the last adds something new, so there are no more waves than items.
-/
import Mathlib.Logic.Relation

namespace ScriptAudit

variable {α : Type} [BEq α] [LawfulBEq α]

theorem nodup_eraseDups (items : List α) : items.eraseDups.Nodup := by
  induction h : items.length using Nat.strongRecOn generalizing items with
  | ind n ih =>
    cases items with
    | nil => exact .nil
    | cons a items =>
      rw [List.eraseDups_cons, List.nodup_cons]
      refine ⟨?_, ih _ ?_ _ rfl⟩
      · rw [List.mem_eraseDups, List.mem_filter]
        simp
      · subst h
        exact Nat.lt_succ_of_le (List.length_filter_le _ _)

/-! ## What is new -/

/-- The items that were not seen, each once, in the order of their first occurrence. -/
def fresh (seen items : List α) : List α := (items.filter fun a => !seen.contains a).eraseDups

theorem mem_fresh {seen items : List α} {a : α} : a ∈ fresh seen items ↔ a ∈ items ∧ a ∉ seen := by
  simp [fresh, List.mem_eraseDups]

theorem nodup_fresh (seen items : List α) : (fresh seen items).Nodup := nodup_eraseDups _

theorem fresh_congr {seen seen' : List α} (h : ∀ a, a ∈ seen ↔ a ∈ seen') (items : List α) :
    fresh seen items = fresh seen' items := by
  have hcontains : ∀ a, seen.contains a = seen'.contains a := by
    intro a
    rw [Bool.eq_iff_iff, List.contains_iff_mem, List.contains_iff_mem]
    exact h a
  simp only [fresh, hcontains]

theorem fresh_cons_of_mem {seen items : List α} {a : α} (h : a ∈ seen) :
    fresh seen (a :: items) = fresh seen items := by
  simp [fresh, h]

theorem fresh_cons_of_not_mem {seen items : List α} {a : α} (h : a ∉ seen) :
    fresh seen (a :: items) = a :: fresh (a :: seen) items := by
  have hkeep : seen.contains a = false := by simpa using h
  simp only [fresh, List.filter_cons, hkeep, Bool.not_false, if_true, List.eraseDups_cons,
    List.filter_filter, List.contains_cons, Bool.not_or]

/-! ## Waves -/

/-- What was seen so far, and the last of it. -/
structure Wave (α : Type) where
  seen : List α
  front : List α

/-- The wave after this one. -/
def Wave.advance (next : α → List α) (w : Wave α) : Wave α :=
  let found := fresh w.seen (w.front.flatMap next)
  ⟨w.seen ++ found, found⟩

def wave (next : α → List α) (start : α) : Nat → Wave α
  | 0 => ⟨[start], [start]⟩
  | n + 1 => (wave next start n).advance next

section Waves

variable {next : α → List α} {start : α}

omit [LawfulBEq α] in
theorem front_subset (n : Nat) : (wave next start n).front ⊆ (wave next start n).seen := by
  cases n with
  | zero => exact fun _ h => h
  | succ n => exact List.subset_append_right _ _

theorem nodup_seen (n : Nat) : (wave next start n).seen.Nodup := by
  induction n with
  | zero => simp [wave]
  | succ n ih =>
    refine List.nodup_append.mpr ⟨ih, nodup_fresh _ _, ?_⟩
    rintro a ha b hb rfl
    exact (mem_fresh.mp hb).2 ha

theorem reaches_of_mem_seen (n : Nat) {a : α} (h : a ∈ (wave next start n).seen) :
    Relation.ReflTransGen (fun a b => b ∈ next a) start a := by
  induction n generalizing a with
  | zero => rw [List.mem_singleton.mp h]
  | succ n ih =>
    rcases List.mem_append.mp h with h | h
    · exact ih h
    · obtain ⟨b, hb, ha⟩ := List.mem_flatMap.mp (mem_fresh.mp h).1
      exact (ih (front_subset n hb)).tail ha

/-- What has been seen leads to what has been seen, except for the last wave. -/
theorem mem_seen_of_mem_next (n : Nat) {a b : α} (ha : a ∈ (wave next start n).seen) (hb : b ∈ next a) :
    a ∈ (wave next start n).front ∨ b ∈ (wave next start n).seen := by
  induction n with
  | zero => exact .inl ha
  | succ n ih =>
    rcases List.mem_append.mp ha with ha | ha
    · refine .inr (List.mem_append.mpr ?_)
      rcases ih ha with hfront | hseen
      · by_cases hb' : b ∈ (wave next start n).seen
        · exact .inl hb'
        · exact .inr (mem_fresh.mpr ⟨List.mem_flatMap.mpr ⟨a, hfront, hb⟩, hb'⟩)
      · exact .inl hseen
    · exact .inl ha

omit [LawfulBEq α] in
theorem lt_length_seen (n : Nat) (h : (wave next start n).front ≠ []) :
    n < (wave next start n).seen.length := by
  induction n with
  | zero => exact Nat.zero_lt_one
  | succ n ih =>
    have hfront : (wave next start n).front ≠ [] := by
      intro hnil
      apply h
      change fresh _ ((wave next start n).front.flatMap next) = []
      rw [hnil]
      rfl
    have hlen := ih hfront
    have hpos := List.length_pos_iff.mpr h
    change n + 1 < ((wave next start n).seen ++ (wave next start (n + 1)).front).length
    rw [List.length_append]
    omega

/-- Only what the reached items lead to matters. -/
theorem wave_congr {next' : α → List α}
    (h : ∀ a, Relation.ReflTransGen (fun a b => b ∈ next a) start a → next' a = next a) (n : Nat) :
    wave next' start n = wave next start n := by
  induction n with
  | zero => rfl
  | succ n ih =>
    have hfront : (wave next start n).front.flatMap next' = (wave next start n).front.flatMap next := by
      rw [List.flatMap_def, List.flatMap_def,
        List.map_congr_left fun a ha => h a (reaches_of_mem_seen n (front_subset n ha))]
    simp only [wave, ih, Wave.advance, hfront]

variable {items : List α}

/-- There are no more waves than items. -/
theorem front_eq_nil (hstart : start ∈ items) (hnext : ∀ a, next a ⊆ items) {n : Nat}
    (hn : items.length ≤ n) : (wave next start n).front = [] := by
  apply Classical.byContradiction
  intro h
  have hsub : (wave next start n).seen ⊆ items := by
    intro a ha
    rcases Relation.ReflTransGen.cases_tail (reaches_of_mem_seen n ha) with rfl | ⟨b, -, hb⟩
    · exact hstart
    · exact hnext b hb
  have := (nodup_seen n).length_le_of_subset hsub
  have := lt_length_seen n h
  omega

/-- After that many waves nothing new is seen. -/
theorem seen_eq_of_le (hstart : start ∈ items) (hnext : ∀ a, next a ⊆ items) {n m : Nat}
    (hn : items.length ≤ n) (hm : n ≤ m) : (wave next start m).seen = (wave next start n).seen := by
  induction hm with
  | refl => rfl
  | step hm ih =>
    rw [← ih, wave, Wave.advance, front_eq_nil hstart hnext (Nat.le_trans hn hm)]
    simp [fresh]

theorem mem_seen_iff (hstart : start ∈ items) (hnext : ∀ a, next a ⊆ items) {n : Nat}
    (hn : items.length ≤ n) {a : α} :
    a ∈ (wave next start n).seen ↔ Relation.ReflTransGen (fun a b => b ∈ next a) start a := by
  refine ⟨reaches_of_mem_seen n, fun h => ?_⟩
  induction h with
  | refl =>
    clear hn
    induction n with
    | zero => exact List.mem_singleton_self start
    | succ n ih => exact List.mem_append_left _ ih
  | tail _ hb ih =>
    rcases mem_seen_of_mem_next n ih hb with hfront | hseen
    · rw [front_eq_nil hstart hnext hn] at hfront
      cases hfront
    · exact hseen

end Waves

end ScriptAudit
