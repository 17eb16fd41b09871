/-
First-in first-out lists at several levels.

A scheduler keeps its runnable threads in an array of lists, one list a level,
and serves the head of the highest level that has anyone waiting.  This file is
about that array alone: adding at either end, unlinking, moving to the tail, how
often an element is linked, and which element is served.

`del` unlinks an element wherever it stands.  An intrusive list node is on at
most one list at one place, and `count` is what says so: it adds up the
occurrences over all the levels, so `count q a = 1` is "linked exactly once" and
`count q a = 0` is "not linked at all".
-/
import Mathlib.Algebra.BigOperators.Fin
import Mathlib.Algebra.Order.BigOperators.Group.Finset
import Mathlib.Data.List.FinRange

namespace Levels

/-- `n` lists of `α`, one for each level. -/
abbrev Queue (n : Nat) (α : Type) : Type := Fin n → List α

variable {n : Nat} {α : Type} [DecidableEq α]

/-- No level has anyone waiting. -/
def empty : Queue n α := fun _ => []

/-- Link `a` at the end of level `i`. -/
def addTail (q : Queue n α) (i : Fin n) (a : α) : Queue n α :=
  Function.update q i (q i ++ [a])

/-- Link `a` at the front of level `i`. -/
def addHead (q : Queue n α) (i : Fin n) (a : α) : Queue n α :=
  Function.update q i (a :: q i)

/-- Unlink `a` from the list it is on. -/
def del (q : Queue n α) (a : α) : Queue n α :=
  fun i => (q i).filter (· ≠ a)

/-- Unlink `a` and link it again at the end of level `i`. -/
def moveTail (q : Queue n α) (i : Fin n) (a : α) : Queue n α :=
  addTail (del q a) i a

/-- How often `a` is linked, over all the levels. -/
def count (q : Queue n α) (a : α) : Nat :=
  ∑ i, (q i).count a

/-- The head of the highest level that has anyone waiting. -/
def top? (q : Queue n α) : Option α :=
  (List.finRange n).reverse.findSome? fun i => (q i).head?

/-! ### How often an element is linked -/

@[simp] theorem count_empty (a : α) : count (empty : Queue n α) a = 0 := by
  simp [count, empty]

omit [DecidableEq α] in
private theorem sum_update (q : Queue n α) (i : Fin n) (l : List α) (f : List α → Nat) :
    ∑ j, f (Function.update q i l j) + f (q i) = ∑ j, f (q j) + f l := by
  rw [← Finset.add_sum_erase _ _ (Finset.mem_univ i),
    ← Finset.add_sum_erase _ (fun j => f (q j)) (Finset.mem_univ i)]
  have hcong : ∑ j ∈ Finset.univ.erase i, f (Function.update q i l j)
      = ∑ j ∈ Finset.univ.erase i, f (q j) := by
    refine Finset.sum_congr rfl fun j hj => ?_
    rw [Function.update_of_ne (Finset.mem_erase.mp hj).1]
  rw [hcong, Function.update_self]
  omega

theorem count_addTail (q : Queue n α) (i : Fin n) (a b : α) :
    count (addTail q i a) b = count q b + if b = a then 1 else 0 := by
  have h := sum_update q i (q i ++ [a]) (fun l => l.count b)
  simp only [List.count_append, List.count_singleton] at h
  unfold count addTail
  by_cases hab : b = a
  · subst hab
    simp only [beq_self_eq_true, if_true] at h ⊢
    omega
  · simp only [beq_iff_eq, Ne.symm hab, hab, if_false] at h ⊢
    omega

theorem count_addHead (q : Queue n α) (i : Fin n) (a b : α) :
    count (addHead q i a) b = count q b + if b = a then 1 else 0 := by
  have h := sum_update q i (a :: q i) (fun l => l.count b)
  simp only [List.count_cons] at h
  unfold count addHead
  by_cases hab : b = a
  · subst hab
    simp only [beq_self_eq_true, if_true] at h ⊢
    omega
  · simp only [beq_iff_eq, Ne.symm hab, hab, if_false] at h ⊢
    omega

theorem count_del (q : Queue n α) (a b : α) :
    count (del q a) b = if b = a then 0 else count q b := by
  unfold count del
  by_cases hab : b = a
  · subst hab
    simp [List.count_eq_zero]
  · rw [if_neg hab]
    refine Finset.sum_congr rfl fun i _ => ?_
    exact List.count_filter (by simpa using hab)

theorem count_moveTail (q : Queue n α) (i : Fin n) (a b : α) :
    count (moveTail q i a) b = if b = a then 1 else count q b := by
  rw [moveTail, count_addTail, count_del]
  split <;> simp

theorem count_eq_zero {q : Queue n α} {a : α} : count q a = 0 ↔ ∀ i, a ∉ q i := by
  simp [count, List.count_eq_zero]

theorem count_ne_zero {q : Queue n α} {a : α} : count q a ≠ 0 ↔ ∃ i, a ∈ q i := by
  simp [count_eq_zero]

/-- An element linked at most once is on one level only. -/
theorem level_unique {q : Queue n α} {a : α} (h : count q a ≤ 1) {i j : Fin n}
    (hi : a ∈ q i) (hj : a ∈ q j) : i = j := by
  by_contra hne
  have hle : ∑ k ∈ {i, j}, (q k).count a ≤ count q a :=
    Finset.sum_le_sum_of_subset (Finset.subset_univ _)
  rw [Finset.sum_pair hne] at hle
  have h1 : 0 < (q i).count a := List.count_pos_iff.mpr hi
  have h2 : 0 < (q j).count a := List.count_pos_iff.mpr hj
  omega

/-! ### Who stays where they are -/

/-- Unlinking leaves every level as it was, but for the element unlinked. -/
theorem filter_del (q : Queue n α) (a : α) (i : Fin n) :
    (del q a i).filter (· ≠ a) = (q i).filter (· ≠ a) := by
  simp [del, List.filter_filter]

theorem filter_addTail (q : Queue n α) (i : Fin n) (a : α) (j : Fin n) :
    (addTail q i a j).filter (· ≠ a) = (q j).filter (· ≠ a) := by
  unfold addTail
  by_cases hj : j = i
  · subst hj
    simp
  · rw [Function.update_of_ne hj]

theorem filter_addHead (q : Queue n α) (i : Fin n) (a : α) (j : Fin n) :
    (addHead q i a j).filter (· ≠ a) = (q j).filter (· ≠ a) := by
  unfold addHead
  by_cases hj : j = i
  · subst hj
    simp
  · rw [Function.update_of_ne hj]

theorem filter_moveTail (q : Queue n α) (i : Fin n) (a : α) (j : Fin n) :
    (moveTail q i a j).filter (· ≠ a) = (q j).filter (· ≠ a) := by
  rw [moveTail, filter_addTail, filter_del]

/-- A level the element is not on is left as it is. -/
theorem del_of_notMem {q : Queue n α} {i : Fin n} {a : α} (h : a ∉ q i) : del q a i = q i := by
  refine List.filter_eq_self.mpr fun b hb => ?_
  have hne : b ≠ a := by
    rintro rfl
    exact h hb
  simpa using hne

theorem del_ne_self {q : Queue n α} {a : α} (h : count q a ≠ 0) : del q a ≠ q := by
  intro heq
  have hdel := count_del q a a
  rw [heq, if_pos rfl] at hdel
  exact h hdel

/-- **An element that is linked once keeps its place exactly if it is at the end of the level it
is moved to.** -/
theorem moveTail_eq_self_iff {q : Queue n α} {a : α} {i : Fin n} (h : count q a = 1) :
    moveTail q i a = q ↔ (q i).getLast? = some a := by
  constructor
  · intro heq
    have hi := congrFun heq i
    rw [moveTail, addTail, Function.update_self] at hi
    rw [← hi, List.getLast?_concat]
  · intro hlast
    obtain ⟨l, hl⟩ := List.getLast?_eq_some_iff.mp hlast
    have hmem : a ∈ q i := by
      rw [hl]
      simp
    have hle : (q i).count a ≤ count q a :=
      Finset.single_le_sum (f := fun j => (q j).count a) (fun _ _ => Nat.zero_le _)
        (Finset.mem_univ i)
    have hnot : a ∉ l := by
      rw [hl, List.count_append, List.count_singleton_self, h] at hle
      exact List.count_eq_zero.mp (by omega)
    have hfilter : ∀ {m : List α}, a ∉ m → m.filter (· ≠ a) = m := by
      intro m hm
      refine List.filter_eq_self.mpr fun b hb => ?_
      have hne : b ≠ a := by
        rintro rfl
        exact hm hb
      simpa using hne
    funext j
    by_cases hj : j = i
    · subst hj
      rw [moveTail, addTail, Function.update_self, del, hl, List.filter_append, hfilter hnot]
      simp
    · rw [moveTail, addTail, Function.update_of_ne hj, del]
      exact hfilter fun hmem' => hj (level_unique (by omega) hmem' hmem)

/-- `a` waits before `b` on one list. -/
def Before (l : List α) (a b : α) : Prop := List.Sublist [a, b] l

/-- Two lists that agree but for `r` order everyone else the same way. -/
theorem before_iff_of_filter {l l' : List α} {r a b : α}
    (h : l'.filter (· ≠ r) = l.filter (· ≠ r)) (ha : a ≠ r) (hb : b ≠ r) :
    Before l' a b ↔ Before l a b := by
  have key : ∀ m : List α, Before m a b ↔ Before (m.filter (· ≠ r)) a b := by
    intro m
    have hself : [a, b].filter (· ≠ r) = [a, b] := by simp [ha, hb]
    refine ⟨fun hm => ?_, fun hm => hm.trans List.filter_sublist⟩
    have := hm.filter (· ≠ r)
    rwa [hself] at this
  rw [key l', key l, h]

/-! ### Who is served -/

omit [DecidableEq α] in
theorem mem_addTail {q : Queue n α} {i j : Fin n} {a b : α} :
    b ∈ addTail q i a j ↔ b ∈ q j ∨ (j = i ∧ b = a) := by
  unfold addTail
  by_cases hj : j = i
  · subst hj
    simp
  · simp [hj]

omit [DecidableEq α] in
theorem mem_addHead {q : Queue n α} {i j : Fin n} {a b : α} :
    b ∈ addHead q i a j ↔ b ∈ q j ∨ (j = i ∧ b = a) := by
  unfold addHead
  by_cases hj : j = i
  · subst hj
    simp [or_comm]
  · simp [hj]

theorem mem_del {q : Queue n α} {i : Fin n} {a b : α} : b ∈ del q a i ↔ b ∈ q i ∧ b ≠ a := by
  simp [del]

theorem mem_moveTail {q : Queue n α} {i j : Fin n} {a b : α} :
    b ∈ moveTail q i a j ↔ (b ∈ q j ∧ b ≠ a) ∨ (j = i ∧ b = a) := by
  rw [moveTail, mem_addTail, mem_del]

omit [DecidableEq α] in
theorem top?_eq_none {q : Queue n α} : top? q = none ↔ ∀ i, q i = [] := by
  simp [top?, List.findSome?_eq_none_iff]

omit [DecidableEq α] in
/-- **The one served heads its level, and nobody waits at a higher one.** -/
theorem top?_eq_some {q : Queue n α} {a : α} (h : top? q = some a) :
    ∃ i, (q i).head? = some a ∧ ∀ j, i < j → q j = [] := by
  obtain ⟨l₁, i, l₂, hl, hhead, hnone⟩ := List.findSome?_eq_some_iff.mp h
  refine ⟨i, hhead, fun j hj => ?_⟩
  have hsort : ((List.finRange n).reverse).Pairwise (· > ·) :=
    List.pairwise_reverse.mpr (List.pairwise_lt_finRange n)
  have hmem : j ∈ l₁ ++ i :: l₂ := by
    rw [← hl]
    simp
  rw [hl, List.pairwise_append] at hsort
  rcases List.mem_append.mp hmem with h1 | h2
  · exact List.head?_eq_none_iff.mp (hnone j h1)
  · exfalso
    rcases List.mem_cons.mp h2 with rfl | h3
    · exact lt_irrefl _ hj
    · exact absurd (List.rel_of_pairwise_cons hsort.2.1 h3) (not_lt.mpr (le_of_lt hj))

omit [DecidableEq α] in
theorem top?_of_head {q : Queue n α} {i : Fin n} {a : α} (hhead : (q i).head? = some a)
    (habove : ∀ j, i < j → q j = []) : top? q = some a := by
  cases htop : top? q with
  | none =>
      rw [top?_eq_none.mp htop i] at hhead
      simp at hhead
  | some b =>
      obtain ⟨k, hk, hkabove⟩ := top?_eq_some htop
      have hki : k = i := by
        rcases lt_trichotomy k i with hlt | heq | hgt
        · rw [hkabove i hlt] at hhead
          simp at hhead
        · exact heq
        · rw [habove k hgt] at hk
          simp at hk
      subst hki
      rw [← hk, hhead]

end Levels
