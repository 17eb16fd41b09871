/-
Descriptor tables.

A process has a table of open files, indexed by small numbers.  Opening takes the
lowest number that is free, closing frees a number, and duplicating opens a file
again under another number.  What the files are does not matter here.
-/
import Mathlib.Data.Set.Card

namespace Descriptors

/-- A table of open files.  No number from `bound` on is in use. -/
structure Table (α : Type) where
  file : Nat → Option α
  bound : Nat
  closed : ∀ fd, bound ≤ fd → file fd = none

variable {α : Type}

namespace Table

/-- Put a file at `fd`, or nothing. -/
def set (t : Table α) (fd : Nat) (f : Option α) : Table α where
  file := Function.update t.file fd f
  bound := max t.bound (fd + 1)
  closed := by
    intro other h
    have hbounds := max_le_iff.mp h
    rw [Function.update_of_ne (by omega)]
    exact t.closed other hbounds.1

/-- The lowest number that is free. -/
def lowest (t : Table α) : Nat :=
  ((List.range t.bound).find? fun fd => (t.file fd).isNone).getD t.bound

/-- Open a file: its number and the table. -/
def alloc (t : Table α) (f : α) : Nat × Table α := (t.lowest, t.set t.lowest (some f))

def close (t : Table α) (fd : Nat) : Table α := t.set fd none

/-- The table after duplicating `fd`; nothing happens when it is not open. -/
def dup (t : Table α) (fd : Nat) : Table α :=
  match t.file fd with
  | none => t
  | some f => (t.alloc f).2

/-- The numbers in use. -/
def openFds (t : Table α) : Set Nat := { fd | t.file fd ≠ none }

/-- The process has the file open. -/
def Holds (t : Table α) (f : α) : Prop := ∃ fd, t.file fd = some f

theorem lowest_free (t : Table α) : t.file t.lowest = none := by
  unfold lowest
  cases hfind : (List.range t.bound).find? fun fd => (t.file fd).isNone with
  | none => exact t.closed _ (le_refl _)
  | some fd =>
      have hnone := List.find?_some (p := fun fd => (t.file fd).isNone) hfind
      exact Option.isNone_iff_eq_none.mp hnone

/-- A number that is free, with none free below it, is the one `lowest` finds. -/
theorem lowest_eq {t : Table α} {fd : Nat} (hfree : t.file fd = none)
    (hbelow : ∀ other, other < fd → t.file other ≠ none) : t.lowest = fd := by
  rcases Nat.lt_trichotomy t.lowest fd with hlt | heq | hgt
  · exact absurd t.lowest_free (hbelow _ hlt)
  · exact heq
  · exfalso
    unfold lowest at hgt
    cases hfind : (List.range t.bound).find? fun fd => (t.file fd).isNone with
    | none =>
        rw [hfind] at hgt
        have hnot := List.find?_eq_none.mp hfind fd (List.mem_range.mpr hgt)
        rw [hfree] at hnot
        exact hnot rfl
    | some found =>
        rw [hfind] at hgt
        obtain ⟨-, pre, post, hsplit, hpre⟩ := List.find?_eq_some_iff_append.mp hfind
        -- Everything in front of `found` is open, and `fd` is in front of it.
        have hsorted : (pre ++ found :: post).Pairwise (· < ·) := by
          rw [← hsplit]
          exact List.pairwise_lt_range
        have hmem : fd ∈ pre ++ found :: post := by
          rw [← hsplit, List.mem_range]
          have hfound : found ∈ List.range t.bound := List.mem_of_find?_eq_some hfind
          exact lt_trans hgt (List.mem_range.mp hfound)
        rcases List.mem_append.mp hmem with hin | hin
        · have hopen := hpre fd hin
          rw [hfree] at hopen
          simp at hopen
        · rcases List.mem_cons.mp hin with rfl | hpost
          · exact absurd hgt (lt_irrefl _)
          · have hlt := (List.pairwise_cons.mp (List.pairwise_append.mp hsorted).2.1).1 fd hpost
            exact absurd hgt (not_lt.mpr (le_of_lt hlt))

/-- Whatever is open is not what the next file will get. -/
theorem ne_lowest {t : Table α} {fd : Nat} (hopen : t.file fd ≠ none) : fd ≠ t.lowest := by
  rintro rfl
  exact hopen t.lowest_free

/-- **Redirecting a descriptor.**  Closing `fd` and duplicating `src` puts the file of `src`
at `fd`, provided nothing below `fd` is free. -/
theorem close_dup {t : Table α} {fd src : Nat} {f : α} (hsrc : t.file src = some f)
    (hne : src ≠ fd) (hbelow : ∀ other, other < fd → t.file other ≠ none) :
    ((t.close fd).dup src).file = Function.update t.file fd (some f) := by
  have hfile : (t.close fd).file = Function.update t.file fd none := rfl
  have hlow : (t.close fd).lowest = fd := by
    refine lowest_eq ?_ ?_
    · rw [hfile, Function.update_self]
    · intro other hlt
      rw [hfile, Function.update_of_ne (by omega)]
      exact hbelow other hlt
  have hopen : (t.close fd).file src = some f := by
    rw [hfile, Function.update_of_ne hne]
    exact hsrc
  unfold dup alloc
  rw [hopen]
  show Function.update (t.close fd).file (t.close fd).lowest (some f) = _
  rw [hlow, hfile, Function.update_idem]

theorem openFds_finite (t : Table α) : t.openFds.Finite := by
  refine (Set.finite_lt_nat t.bound).subset ?_
  intro fd hfd
  by_contra hge
  exact hfd (t.closed fd (not_lt.mp hge))

/-- Closing what has just been opened leaves the table as it was. -/
theorem close_alloc (t : Table α) (f : α) :
    ((t.alloc f).2.close (t.alloc f).1).file = t.file := by
  show Function.update (Function.update t.file t.lowest (some f)) t.lowest none = t.file
  rw [Function.update_idem, ← t.lowest_free, Function.update_eq_self]

/-! ### A table with one more file open -/

/-- One more number is in use, for the file `f`. -/
def Opened (f : α) (t t' : Table α) : Prop :=
  ∃ fd, t.file fd = none ∧ t'.file = Function.update t.file fd (some f)

theorem Opened.holds_self {f : α} {t t' : Table α} (h : Opened f t t') : t'.Holds f := by
  obtain ⟨fd, -, heq⟩ := h
  refine ⟨fd, ?_⟩
  rw [heq, Function.update_self]

theorem Opened.holds {f g : α} {t t' : Table α} (h : Opened f t t') (hg : t.Holds g) :
    t'.Holds g := by
  obtain ⟨fd, hfree, heq⟩ := h
  obtain ⟨fd', hfd'⟩ := hg
  refine ⟨fd', ?_⟩
  have hne : fd' ≠ fd := by
    rintro rfl
    rw [hfree] at hfd'
    simp at hfd'
  rw [heq, Function.update_of_ne hne]
  exact hfd'

/-- **One more file takes one more number.** -/
theorem Opened.ncard {f : α} {t t' : Table α} (h : Opened f t t') :
    t'.openFds.ncard = t.openFds.ncard + 1 := by
  obtain ⟨fd, hfree, heq⟩ := h
  have hset : t'.openFds = insert fd t.openFds := by
    ext q
    unfold openFds
    rw [Set.mem_ofPred_eq, heq]
    by_cases hq : q = fd
    · subst hq
      simp
    · rw [Function.update_of_ne hq, Set.mem_insert_iff]
      simp [hq]
  have hnot : fd ∉ t.openFds := fun hopen => hopen hfree
  rw [hset, Set.ncard_insert_of_notMem hnot t.openFds_finite]

end Table

end Descriptors
