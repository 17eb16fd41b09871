/-
Strings in memory.

Memory is a function of the address, and a string ends in front of the first `nul`.
`Holds` says what a stretch of memory contains, so a proof about a string that is cut or
moved goes over lists.  A write leaves every stretch alone that the address is not in
(`Holds.update`), which is the only fact about addresses such a proof needs.

The functions that look for something are given a number of cells to look at.
-/
import Mathlib.Data.Int.Basic
import Mathlib.Logic.Function.Basic
import Mathlib.Tactic.Common

namespace Memory

variable {α : Type*} {mem : ℤ → α} {nul a : α} {p q : ℤ} {s t : List α} {n : ℕ}

/-- The memory contains this from `p` on. -/
def Holds (mem : ℤ → α) (p : ℤ) : List α → Prop
  | [] => True
  | a :: s => mem p = a ∧ Holds mem (p + 1) s

theorem holds_append : Holds mem p (s ++ t) ↔ Holds mem p s ∧ Holds mem (p + s.length) t := by
  induction s generalizing p with
  | nil => simp [Holds]
  | cons a s ih =>
      rw [List.cons_append, Holds, Holds, ih, and_assoc, List.length_cons]
      rw [show p + 1 + (s.length : ℤ) = p + ((s.length + 1 : ℕ) : ℤ) from by push_cast; omega]

theorem Holds.left (h : Holds mem p (s ++ t)) : Holds mem p s := (holds_append.mp h).1

theorem Holds.right (h : Holds mem p (s ++ t)) : Holds mem (p + s.length) t :=
  (holds_append.mp h).2

theorem Holds.head (h : Holds mem p (s ++ a :: t)) : mem (p + s.length) = a := h.right.1

/-- Only the stretch itself matters. -/
theorem Holds.congr {mem' : ℤ → α} (h : Holds mem p s)
    (heq : ∀ i, p ≤ i → i < p + s.length → mem' i = mem i) : Holds mem' p s := by
  induction s generalizing p with
  | nil => trivial
  | cons a s ih =>
      rw [List.length_cons] at heq
      refine ⟨?_, ih h.2 fun i hle hlt => heq i (by omega) (by push_cast; omega)⟩
      rw [heq p (Int.le_refl _) (by push_cast; omega)]
      exact h.1

theorem Holds.update (h : Holds mem p s) (hq : q < p ∨ p + s.length ≤ q) (a : α) :
    Holds (Function.update mem q a) p s := by
  refine h.congr fun i hle hlt => Function.update_of_ne ?_ _ _
  omega

/-- The cell behind a stretch is overwritten. -/
theorem Holds.update_next (h : Holds mem p (s ++ t)) (a : α) :
    Holds (Function.update mem (p + s.length) a) p (s ++ [a]) := by
  refine holds_append.mpr ⟨h.left.update (Or.inr (Int.le_refl _)) a, ?_, trivial⟩
  exact Function.update_self ..

/-- The list is written from `p` on. -/
def store (mem : ℤ → α) : ℤ → List α → ℤ → α
  | _, [] => mem
  | p, a :: s => store (Function.update mem p a) (p + 1) s

theorem store_before (mem : ℤ → α) {i : ℤ} (hi : i < p) (s : List α) : store mem p s i = mem i := by
  induction s generalizing mem p with
  | nil => rfl
  | cons a s ih =>
      rw [store, ih _ (by omega)]
      exact Function.update_of_ne (by omega) _ _

theorem holds_store (mem : ℤ → α) (p : ℤ) (s : List α) : Holds (store mem p s) p s := by
  induction s generalizing mem p with
  | nil => trivial
  | cons a s ih =>
      refine ⟨?_, ih _ _⟩
      rw [store, store_before _ (by omega)]
      exact Function.update_self ..

/-! ### Strings -/

section

variable [DecidableEq α]

/-- The string at `p`. -/
def string (nul : α) (mem : ℤ → α) : ℤ → ℕ → List α
  | _, 0 => []
  | p, n + 1 => if mem p = nul then [] else mem p :: string nul mem (p + 1) n

theorem nul_notMem_string (nul : α) (mem : ℤ → α) (p : ℤ) (n : ℕ) :
    nul ∉ string nul mem p n := by
  induction n generalizing p with
  | zero => simp [string]
  | succ n ih =>
      rw [string]
      split
      · simp
      · rename_i hne
        simp only [List.mem_cons, not_or]
        exact ⟨Ne.symm hne, ih (p + 1)⟩

theorem Holds.string_eq (h : Holds mem p (s ++ [nul])) (hs : nul ∉ s) (hn : s.length < n) :
    string nul mem p n = s := by
  induction s generalizing p n with
  | nil =>
      obtain ⟨n, rfl⟩ := Nat.exists_eq_add_one_of_ne_zero (show n ≠ 0 by omega)
      rw [string, if_pos h.1]
  | cons a s ih =>
      rw [List.length_cons] at hn
      obtain ⟨n, rfl⟩ := Nat.exists_eq_add_one_of_ne_zero (show n ≠ 0 by omega)
      have ha : a ≠ nul := fun heq => hs (by simp [heq])
      rw [string, h.1, if_neg ha,
        ih h.2 (fun hmem => hs (List.mem_cons_of_mem _ hmem)) (by omega)]

/-- The first place of `a` in the string at `p`. -/
def strchr (nul a : α) (mem : ℤ → α) : ℤ → ℕ → Option ℤ
  | _, 0 => none
  | p, n + 1 =>
      if mem p = a then some p
      else if mem p = nul then none
      else strchr nul a mem (p + 1) n

theorem Holds.strchr_eq_none (h : Holds mem p (s ++ [nul])) (hnul : nul ≠ a) (ha : a ∉ s) :
    strchr nul a mem p n = none := by
  induction n generalizing p s with
  | zero => rfl
  | succ n ih =>
      cases s with
      | nil => rw [strchr, h.1, if_neg hnul, if_pos rfl]
      | cons b s =>
          have hb : b ≠ a := fun heq => ha (by simp [heq])
          rw [strchr, h.1, if_neg hb]
          split
          · rfl
          · exact ih h.2 fun hmem => ha (List.mem_cons_of_mem _ hmem)

theorem Holds.strchr_eq_some (h : Holds mem p (s ++ a :: t)) (hnul : nul ∉ s) (ha : a ∉ s)
    (hn : s.length < n) : strchr nul a mem p n = some (p + s.length) := by
  induction s generalizing p n with
  | nil =>
      obtain ⟨n, rfl⟩ := Nat.exists_eq_add_one_of_ne_zero (show n ≠ 0 by omega)
      rw [strchr, if_pos h.1]
      simp
  | cons b s ih =>
      rw [List.length_cons] at hn
      obtain ⟨n, rfl⟩ := Nat.exists_eq_add_one_of_ne_zero (show n ≠ 0 by omega)
      have hb : b ≠ a := fun heq => ha (by simp [heq])
      have hb' : b ≠ nul := fun heq => hnul (by simp [heq])
      rw [strchr, h.1, if_neg hb, if_neg hb',
        ih h.2 (fun hmem => hnul (List.mem_cons_of_mem _ hmem))
          (fun hmem => ha (List.mem_cons_of_mem _ hmem)) (by omega), List.length_cons]
      congr 1
      push_cast
      omega

end

end Memory
