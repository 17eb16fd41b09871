/-
A heap of allocated blocks, and who owns them.

`heap a` is the block at address `a`, or `none` when nothing is allocated there.
`Owns heap l` says that `l` names every block there is, each one once.  A data structure
that lists its own blocks owns the heap exactly when it has lost none and no two of its
pointers meet.  An operation on one block is then a rule about a list: the block is brought
to the front by a permutation and the rest stays as it was.
-/
import Mathlib.Data.List.Nodup
import Mathlib.Data.List.Perm.Basic
import Mathlib.Logic.Function.Basic
import Mathlib.Tactic.Common

namespace Alloc

variable {α β : Type*} {heap : α → Option β} {l l' : List (α × β)} {a : α} {b b' : β}

/-- The blocks there are, each listed once. -/
structure Owns (heap : α → Option β) (l : List (α × β)) : Prop where
  nodup : (l.map Prod.fst).Nodup
  live : ∀ a b, heap a = some b ↔ (a, b) ∈ l

theorem Owns.get (h : Owns heap l) (hmem : (a, b) ∈ l) : heap a = some b :=
  (h.live a b).mpr hmem

theorem Owns.perm (h : Owns heap l) (hperm : l.Perm l') : Owns heap l' where
  nodup := (hperm.map Prod.fst).nodup_iff.mp h.nodup
  live a b := (h.live a b).trans hperm.mem_iff

/-- Nothing is owned where nothing is allocated. -/
theorem owns_nil_iff : Owns heap [] ↔ heap = fun _ => none := by
  constructor
  · intro h
    funext a
    refine Option.eq_none_iff_forall_ne_some.mpr fun b hb => ?_
    exact absurd ((h.live a b).mp hb) (List.not_mem_nil)
  · rintro rfl
    exact ⟨List.nodup_nil, fun a b => by simp⟩

theorem Owns.not_mem_of_none (h : Owns heap l) (ha : heap a = none) : a ∉ l.map Prod.fst := by
  intro hmem
  obtain ⟨⟨a', b⟩, hpair, rfl⟩ := List.mem_map.mp hmem
  rw [h.get hpair] at ha
  cases ha

/-- An address at the front is not met again. -/
theorem Owns.ne_of_mem (h : Owns heap ((a, b) :: l)) {c : α} {d : β} (hmem : (c, d) ∈ l) :
    c ≠ a := by
  rintro rfl
  exact (List.nodup_cons.mp h.nodup).1 (List.mem_map.mpr ⟨(c, d), hmem, rfl⟩)

variable [DecidableEq α]

/-- **Allocating** a block where there was none. -/
theorem Owns.alloc (h : Owns heap l) (ha : heap a = none) (b : β) :
    Owns (Function.update heap a (some b)) ((a, b) :: l) where
  nodup := List.nodup_cons.mpr ⟨h.not_mem_of_none ha, h.nodup⟩
  live c d := by
    by_cases hc : c = a
    · subst hc
      have hnot : (c, d) ∉ l := fun hmem => by
        rw [h.get hmem] at ha
        cases ha
      simp [hnot, eq_comm]
    · simp [hc, h.live]

/-- **Writing** to the block in front. -/
theorem Owns.store (h : Owns heap ((a, b) :: l)) (b' : β) :
    Owns (Function.update heap a (some b')) ((a, b') :: l) where
  nodup := h.nodup
  live c d := by
    by_cases hc : c = a
    · subst hc
      have hnot : (c, d) ∉ l := fun hmem => h.ne_of_mem hmem rfl
      simp [hnot, eq_comm]
    · simp [hc, h.live]

/-- **Freeing** the block in front. -/
theorem Owns.free (h : Owns heap ((a, b) :: l)) : Owns (Function.update heap a none) l where
  nodup := (List.nodup_cons.mp h.nodup).2
  live c d := by
    by_cases hc : c = a
    · subst hc
      have hnot : (c, d) ∉ l := fun hmem => h.ne_of_mem hmem rfl
      simp [hnot]
    · simp [hc, h.live]

end Alloc
