/-
Singly linked lists.

A cell is a value of `α` and a null pointer is `none`, so the links are a function
`next : α → Option α`.  `Seg` says which cells are visited from one pointer to
another.  A list that ends in a null pointer has no cell twice, since what follows
a cell is determined by it; this is why unlinking one cell, which is a write to the
link of the cell in front, leaves all the others as they are.
-/
import Mathlib.Data.List.Nodup
import Mathlib.Logic.Function.Basic
import Mathlib.Tactic.Common

namespace Links

variable {α : Type*} {next next' : α → Option α} {p q r : Option α} {a b : α} {l l₁ l₂ : List α}

/-- From `p` on the links visit the cells of the list and arrive at `q`. -/
def Seg (next : α → Option α) : Option α → List α → Option α → Prop
  | p, [], q => p = q
  | p, a :: l, q => p = some a ∧ Seg next (next a) l q

theorem seg_append : Seg next p (l₁ ++ l₂) r ↔ ∃ q, Seg next p l₁ q ∧ Seg next q l₂ r := by
  induction l₁ generalizing p with
  | nil => simp [Seg]
  | cons a l ih =>
      rw [List.cons_append, Seg, ih]
      constructor
      · rintro ⟨hp, q, hl, hr⟩
        exact ⟨q, ⟨hp, hl⟩, hr⟩
      · rintro ⟨q, ⟨hp, hl⟩, hr⟩
        exact ⟨hp, q, hl, hr⟩

/-- The links are followed to a null pointer in one way only. -/
theorem Seg.unique (h : Seg next p l₁ none) (h' : Seg next p l₂ none) : l₁ = l₂ := by
  induction l₁ generalizing p l₂ with
  | nil =>
      cases l₂ with
      | nil => rfl
      | cons b l => exact absurd (h.symm.trans h'.1) (by simp)
  | cons a l ih =>
      cases l₂ with
      | nil => exact absurd (h'.symm.trans h.1) (by simp)
      | cons b l' =>
          have hab : a = b := Option.some.inj (h.1.symm.trans h'.1)
          subst hab
          rw [ih h.2 h'.2]

theorem Seg.head? (h : Seg next p l none) : p = l.head? := by
  cases l with
  | nil => exact h
  | cons a l => exact h.1

/-- **No cell twice** in a list that ends. -/
theorem Seg.nodup (h : Seg next p l none) : l.Nodup := by
  induction l generalizing p with
  | nil => exact List.nodup_nil
  | cons a l ih =>
      refine List.nodup_cons.mpr ⟨fun hmem => ?_, ih h.2⟩
      obtain ⟨l₁, l₂, rfl⟩ := List.append_of_mem hmem
      obtain ⟨q, -, hq⟩ := seg_append.mp h.2
      -- from the second `a` on the list is a proper part of itself
      have hagain : Seg next p (a :: l₂) none := ⟨h.1, hq.2⟩
      have hlen := congrArg List.length (h.unique hagain)
      simp only [List.length_cons, List.length_append] at hlen
      omega

/-- Only the links of the visited cells matter. -/
theorem Seg.congr (h : Seg next p l q) (heq : ∀ a ∈ l, next' a = next a) : Seg next' p l q := by
  induction l generalizing p with
  | nil => exact h
  | cons a l ih =>
      refine ⟨h.1, ?_⟩
      rw [heq a (List.mem_cons_self ..)]
      exact ih h.2 fun b hb => heq b (List.mem_cons_of_mem _ hb)

/-- **Unlinking** the cell behind `b`. -/
theorem Seg.unlink [DecidableEq α] (h : Seg next p (l₁ ++ b :: a :: l₂) none) :
    Seg (Function.update next b (next a)) p (l₁ ++ b :: l₂) none := by
  have hnodup := List.nodup_append.mp h.nodup
  obtain ⟨q, hq, hb, -, hl⟩ := seg_append.mp h
  have hbl : b ∉ l₂ := fun hmem =>
    (List.nodup_cons.mp hnodup.2.1).1 (List.mem_cons_of_mem _ hmem)
  refine seg_append.mpr ⟨q, hq.congr fun c hc => ?_, hb, ?_⟩
  · exact Function.update_of_ne (hnodup.2.2 c hc b (List.mem_cons_self ..)) _ _
  · rw [Function.update_self]
    refine hl.congr fun c hc => Function.update_of_ne ?_ _ _
    rintro rfl
    exact hbl hc

/-- **Linking in** a cell that ends the list, behind its last cell `b`. -/
theorem Seg.snoc [DecidableEq α] (h : Seg next p (l ++ [b]) none) (ha : a ∉ l ++ [b])
    (hend : next a = none) : Seg (Function.update next b (some a)) p (l ++ [b] ++ [a]) none := by
  have hb : b ∉ l := fun hmem => (List.nodup_append.mp h.nodup).2.2 b hmem b List.mem_cons_self rfl
  have hab : a ≠ b := fun heq => ha (List.mem_append_right l (heq ▸ List.mem_cons_self))
  obtain ⟨q, hl, hq, -⟩ := seg_append.mp h
  rw [List.append_assoc]
  refine seg_append.mpr ⟨q, hl.congr fun c hc => ?_, hq, ?_, ?_⟩
  · refine Function.update_of_ne ?_ _ _
    rintro rfl
    exact hb hc
  · exact Function.update_self ..
  · rw [Seg, Function.update_of_ne hab]
    exact hend

end Links
