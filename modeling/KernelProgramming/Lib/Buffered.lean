/-
Buffered reading of a file that others have open too.

A reader takes one element after the other.  What has been read and not been taken yet is
its buffer; when the buffer is empty the reader asks the system for more, and once it has
been told that there is no more it does not ask again.  The place in the file where a read
starts is shared by everybody who has the file open, so it need not be where the reader's
last read has ended.  A reader that has started elsewhere is astray.

As long as it is not, what it takes are the elements of the file, one after the other
(`next_eq`).
-/
import Mathlib.Tactic.Common

namespace Buffered

/-- What the system does with the reads of a reader, which are counted: where a read starts, given
where the one before it has ended, and how many elements it gets at most, less one. -/
structure Supply where
  start : Nat → Nat → Nat
  more : Nat → Nat

structure Reader (α : Type*) where
  file : List α
  /-- Where the last read has ended. -/
  place : Nat
  buffer : List α
  /-- The last read has got nothing. -/
  atEnd : Bool
  /-- The number of reads. -/
  count : Nat
  /-- Some read has not started where the one before it has ended. -/
  astray : Bool

variable {α : Type*} {sys : Supply} {r : Reader α}

/-- Nothing has been read yet. -/
def opened (file : List α) : Reader α where
  file := file
  place := 0
  buffer := []
  atEnd := false
  count := 0
  astray := false

namespace Reader

/-- One read. -/
def fill (sys : Supply) (r : Reader α) : Reader α :=
  let start := sys.start r.count r.place
  let got := (r.file.drop start).take (sys.more r.count + 1)
  { r with
    place := start + got.length
    buffer := got
    atEnd := got.isEmpty
    count := r.count + 1
    astray := r.astray || decide (start ≠ r.place) }

/-- The next element, if there is one. -/
def next (sys : Supply) (r : Reader α) : Option α × Reader α :=
  match r.buffer with
  | a :: rest => (some a, { r with buffer := rest })
  | [] =>
      if r.atEnd then (none, r)
      else ((r.fill sys).buffer.head?, { r.fill sys with buffer := (r.fill sys).buffer.tail })

/-- What is still to come if nobody else reads. -/
def pending (r : Reader α) : List α := r.buffer ++ r.file.drop r.place

/-- The reader knows the end when it sees it. -/
def OK (r : Reader α) : Prop := r.atEnd = true → r.pending = []

theorem opened_ok (file : List α) : (opened file).OK := fun h => absurd h (by simp [opened])

/-- Who has gone astray remains so. -/
theorem next_astray (h : (r.next sys).2.astray = false) : r.astray = false := by
  unfold next at h
  split at h
  · exact h
  · split at h
    · exact h
    · exact (Bool.or_eq_false_iff.mp h).1

/-- A read that starts at its place gets what is to come. -/
theorem fill_eq (hbuffer : r.buffer = []) (h : (r.fill sys).astray = false) :
    (r.fill sys).pending = r.pending ∧ (r.fill sys).OK := by
  have hstart : sys.start r.count r.place = r.place :=
    not_not.mp (of_decide_eq_false (Bool.or_eq_false_iff.mp h).2)
  have hpending : (r.fill sys).pending = r.pending := by
    unfold pending fill
    simp only [hstart, hbuffer, List.nil_append]
    rw [← List.drop_drop, List.length_take]
    conv_rhs => rw [← List.take_append_drop (sys.more r.count + 1) (r.file.drop r.place)]
    congr 1
    rcases Nat.le_total (sys.more r.count + 1) (r.file.drop r.place).length with hle | hle
    · rw [Nat.min_eq_left hle]
    · rw [Nat.min_eq_right hle, List.drop_length, List.drop_eq_nil_of_le hle]
  refine ⟨hpending, fun hend => ?_⟩
  -- A read that may get something and gets nothing has started at the end.
  have hnil : (r.file.drop (sys.start r.count r.place)).take (sys.more r.count + 1) = [] :=
    List.isEmpty_iff.mp hend
  have hdrop : r.file.drop r.place = [] := by
    rw [hstart] at hnil
    exact (List.take_eq_nil_iff.mp hnil).resolve_left (by omega)
  rw [hpending, pending, hbuffer, hdrop]
  rfl

/-- **Who is not astray takes the elements of the file one after the other.** -/
theorem next_eq (hok : r.OK) (h : (r.next sys).2.astray = false) :
    (r.next sys).1 = r.pending.head? ∧ (r.next sys).2.pending = r.pending.tail ∧
      (r.next sys).2.OK := by
  unfold next at h ⊢
  cases hbuffer : r.buffer with
  | cons a rest =>
      have hpending : r.pending = a :: (rest ++ r.file.drop r.place) := by
        rw [pending, hbuffer]
        rfl
      refine ⟨by rw [hpending]; rfl, by rw [hpending]; rfl, fun hend => ?_⟩
      rw [hok hend] at hpending
      simp at hpending
  | nil =>
      rw [hbuffer] at h
      simp only at h ⊢
      by_cases hend : r.atEnd = true
      · rw [if_pos hend, hok hend]
        exact ⟨rfl, rfl, hok⟩
      · rw [if_neg hend] at h ⊢
        obtain ⟨hpending, hfilled⟩ := fill_eq hbuffer h
        rw [← hpending]
        cases hgot : (r.fill sys).buffer with
        | cons a rest =>
            have hrest : (r.fill sys).pending = a :: (rest ++ (r.fill sys).file.drop
                (r.fill sys).place) := by
              rw [pending, hgot]
              rfl
            refine ⟨by rw [hrest]; rfl, by rw [hrest]; rfl, fun hend' => ?_⟩
            rw [hfilled hend'] at hrest
            simp at hrest
        | nil =>
            have hnone : (r.fill sys).atEnd = true := List.isEmpty_iff.mpr hgot
            rw [hfilled hnone]
            have hsame : (r.fill sys).file.drop (r.fill sys).place = [] := by
              have hall := hfilled hnone
              rw [pending, hgot, List.nil_append] at hall
              exact hall
            exact ⟨rfl, hsame, fun _ => hsame⟩

/-- If nobody else reads, the reader does not go astray. -/
theorem next_own (hsys : ∀ n p, sys.start n p = p) (h : r.astray = false) :
    (r.next sys).2.astray = false := by
  unfold next
  split
  · exact h
  · split
    · exact h
    · show (r.astray || decide (sys.start r.count r.place ≠ r.place)) = false
      rw [h, hsys]
      simp

end Reader

end Buffered
