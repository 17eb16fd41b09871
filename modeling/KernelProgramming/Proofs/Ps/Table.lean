/-
When the table of `myps` is in order.

The difference of two keys is a `long long`, of which the comparators return the low
32 bits.  So the answer has the right sign when the larger key exceeds the smaller by
a number that leaves a remainder between 1 and 2147483647, modulo 4294967296.  Where
this holds of any two different keys the comparator is a total preorder, and `qsort`
can be relied on.
-/
import Mathlib.Data.Int.Order.Basic
import KernelProgramming.Ps.Myps

namespace Ps

variable {key : Psinfo → Nat} {pses : List Psinfo} {a b c : Psinfo}
  {qsort : (Psinfo → Psinfo → Int) → List Psinfo → List Psinfo}

/-! ### The comparators -/

/-- The sign of the answer is that of `b`'s key minus `a`'s. -/
def RightSign (key : Psinfo → Nat) (cmp : Psinfo → Psinfo → Int) (a b : Psinfo) : Prop :=
  (cmp a b).sign = ((key b : Int) - key a).sign

/-- The comparator puts these processes in one order: it is antisymmetric and transitive. -/
structure TotalPreorder (cmp : Psinfo → Psinfo → Int) (pses : List Psinfo) : Prop where
  antisymm : ∀ a ∈ pses, ∀ b ∈ pses, (cmp a b).sign = -(cmp b a).sign
  trans : ∀ a ∈ pses, ∀ b ∈ pses, ∀ c ∈ pses, cmp a b ≤ 0 → cmp b c ≤ 0 → cmp a c ≤ 0

/-- What `qsort` is for: by a comparator that puts the elements in one order, it sorts them. -/
def Sorts (qsort : (Psinfo → Psinfo → Int) → List Psinfo → List Psinfo) : Prop :=
  ∀ cmp pses, TotalPreorder cmp pses →
    (qsort cmp pses).Perm pses ∧ (qsort cmp pses).Pairwise fun a b => cmp a b ≤ 0

/-- The difference of two keys is seen in its low 32 bits. -/
def Tellable (key : Psinfo → Nat) (a b : Psinfo) : Prop :=
  key a < key b →
    0 < (key b - key a) % 4294967296 ∧ (key b - key a) % 4294967296 < 2147483648

theorem toLongLong_eq {n : Nat} (h : n < 9223372036854775808) : toLongLong n = n := by
  unfold toLongLong
  rw [Int.bmod_def]
  split
  · omega
  · omega

theorem psinfoCmp_eq (ha : key a < 9223372036854775808) (hb : key b < 9223372036854775808) :
    psinfoCmp key a b = ((key b : Int) - key a).bmod 4294967296 := by
  unfold psinfoCmp toInt
  rw [toLongLong_eq ha, toLongLong_eq hb]

/-- A difference and its opposite in 32 bits. -/
theorem sign_bmod_iff (n : Nat) :
    ((n : Int).bmod 4294967296).sign = 1 ∧ ((-(n : Int)).bmod 4294967296).sign = -1
      ↔ 0 < n % 4294967296 ∧ n % 4294967296 < 2147483648 := by
  rw [Int.sign_eq_one_iff_pos, Int.sign_eq_neg_one_iff_neg, Int.bmod_def, Int.bmod_def]
  constructor
  · rintro ⟨hpos, hneg⟩
    split at hpos
    · omega
    · omega
  · rintro ⟨hlow, hhigh⟩
    constructor
    · rw [if_pos (by omega)]
      omega
    · rw [if_neg (by omega)]
      omega

theorem rightSign_of_lt (ha : key a < 9223372036854775808) (hb : key b < 9223372036854775808)
    (hlt : key a < key b) :
    RightSign key (psinfoCmp key) a b ∧ RightSign key (psinfoCmp key) b a
      ↔ 0 < (key b - key a) % 4294967296 ∧ (key b - key a) % 4294967296 < 2147483648 := by
  unfold RightSign
  have hsub : (key b : Int) - key a = ((key b - key a : Nat) : Int) := by omega
  have hopp : (key a : Int) - key b = -((key b - key a : Nat) : Int) := by omega
  rw [psinfoCmp_eq ha hb, psinfoCmp_eq hb ha, hsub, hopp, Int.sign_neg,
    Int.sign_eq_one_of_pos (by omega : (0 : Int) < ((key b - key a : Nat) : Int))]
  exact sign_bmod_iff _

theorem rightSign_of_eq (ha : key a < 9223372036854775808) (heq : key a = key b) :
    RightSign key (psinfoCmp key) a b := by
  unfold RightSign
  rw [psinfoCmp_eq ha (heq ▸ ha), heq, Int.sub_self]
  rfl

/-- **One pair of keys**, asked in both ways. -/
theorem rightSign_iff (ha : key a < 9223372036854775808) (hb : key b < 9223372036854775808) :
    RightSign key (psinfoCmp key) a b ∧ RightSign key (psinfoCmp key) b a
      ↔ Tellable key a b ∧ Tellable key b a := by
  unfold Tellable
  rcases Nat.lt_trichotomy (key a) (key b) with hlt | heq | hgt
  · rw [rightSign_of_lt ha hb hlt]
    exact ⟨fun h => ⟨fun _ => h, fun hgt => absurd hgt (by omega)⟩, fun h => h.1 hlt⟩
  · refine iff_of_true ⟨rightSign_of_eq ha heq, rightSign_of_eq hb heq.symm⟩ ⟨?_, ?_⟩
    · intro hlt
      omega
    · intro hlt
      omega
  · rw [and_comm, rightSign_of_lt hb ha hgt]
    exact ⟨fun h => ⟨fun hlt => absurd hlt (by omega), fun _ => h⟩, fun h => h.2 hgt⟩

/-- The sign decides the order. -/
theorem RightSign.nonpos_iff {cmp : Psinfo → Psinfo → Int} (h : RightSign key cmp a b) :
    cmp a b ≤ 0 ↔ key b ≤ key a := by
  unfold RightSign at h
  have hpos : 0 < cmp a b ↔ key a < key b := by
    rw [← Int.sign_eq_one_iff_pos, h, Int.sign_eq_one_iff_pos]
    omega
  omega

/-- A comparator whose answers have the right sign is a total preorder. -/
theorem totalPreorder_of_rightSign {cmp : Psinfo → Psinfo → Int}
    (h : ∀ a ∈ pses, ∀ b ∈ pses, RightSign key cmp a b) : TotalPreorder cmp pses := by
  constructor
  · intro a ha b hb
    have hab : (cmp a b).sign = ((key b : Int) - key a).sign := h a ha b hb
    have hba : (cmp b a).sign = ((key a : Int) - key b).sign := h b hb a ha
    rw [hab, hba, ← Int.sign_neg, Int.neg_sub]
  · intro a ha b hb c hc hab hbc
    rw [(h a ha b hb).nonpos_iff] at hab
    rw [(h b hb c hc).nonpos_iff] at hbc
    rw [(h a ha c hc).nonpos_iff]
    omega

/-! ### The table -/

/-- Sorting works for a key: the comparator answers with the right sign and so is a total
preorder, and the lines printed are those of the processes, the greatest key first. -/
structure SortsTable (qsort : (Psinfo → Psinfo → Int) → List Psinfo → List Psinfo) (sort : SortBy)
    (key : Psinfo → Nat) (cmp : Psinfo → Psinfo → Int) (pses : List Psinfo) : Prop where
  sign : ∀ a ∈ pses, ∀ b ∈ pses, RightSign key cmp a b
  preorder : TotalPreorder cmp pses
  lines : ∃ order : List Psinfo, order.Perm pses ∧ (order.Pairwise fun a b => key b ≤ key a) ∧
    table qsort sort pses = printAllPs order

/-- Any two different keys can be told apart in their order. -/
def AllTellable (key : Psinfo → Nat) (pses : List Psinfo) : Prop :=
  ∀ a ∈ pses, ∀ b ∈ pses, Tellable key a b

/-- What the two options have in common. -/
theorem sortsTable_iff (hqsort : Sorts qsort) {sort : SortBy}
    (htable : table qsort sort pses = printAllPs (qsort (psinfoCmp key) pses))
    (hkeys : ∀ ps ∈ pses, key ps < 9223372036854775808) :
    SortsTable qsort sort key (psinfoCmp key) pses ↔ AllTellable key pses := by
  constructor
  · intro h a ha b hb
    exact ((rightSign_iff (hkeys a ha) (hkeys b hb)).mp ⟨h.sign a ha b hb, h.sign b hb a ha⟩).1
  · intro h
    have hsign : ∀ a ∈ pses, ∀ b ∈ pses, RightSign key (psinfoCmp key) a b := by
      intro a ha b hb
      exact ((rightSign_iff (hkeys a ha) (hkeys b hb)).mpr ⟨h a ha b hb, h b hb a ha⟩).1
    have hpre := totalPreorder_of_rightSign hsign
    obtain ⟨hperm, hsorted⟩ := hqsort _ _ hpre
    refine ⟨hsign, hpre, qsort (psinfoCmp key) pses, hperm, ?_, htable⟩
    refine hsorted.imp_of_mem fun {a b} ha hb hcmp => ?_
    exact (hsign a (hperm.mem_iff.mp ha) b (hperm.mem_iff.mp hb)).nonpos_iff.mp hcmp

/-- **When `myps` sorts correctly**, with `-m` and with `-p`. -/
theorem myps_sorts_iff (hqsort : Sorts qsort)
    (hkeys : ∀ ps ∈ pses, ps.vsize < 9223372036854775808 ∧ ps.cputime < 9223372036854775808) :
    (SortsTable qsort .vsize Psinfo.vsize psinfoCmpVsize pses ↔ AllTellable Psinfo.vsize pses) ∧
      (SortsTable qsort .cputime Psinfo.cputime psinfoCmpCputime pses
        ↔ AllTellable Psinfo.cputime pses) :=
  ⟨sortsTable_iff hqsort rfl fun ps hps => (hkeys ps hps).1,
    sortsTable_iff hqsort rfl fun ps hps => (hkeys ps hps).2⟩

/-- A `qsort`: the one that merges, as the library's does. -/
def mergesort (cmp : Psinfo → Psinfo → Int) (pses : List Psinfo) : List Psinfo :=
  (pses.attach.mergeSort fun a b => cmp a.1 b.1 ≤ 0).map (·.1)

theorem mergesort_sorts : Sorts mergesort := by
  intro cmp pses hpre
  have htrans : ∀ a b c : { ps // ps ∈ pses }, decide (cmp a.1 b.1 ≤ 0) = true →
      decide (cmp b.1 c.1 ≤ 0) = true → decide (cmp a.1 c.1 ≤ 0) = true := by
    intro a b c hab hbc
    exact decide_eq_true (hpre.trans a.1 a.2 b.1 b.2 c.1 c.2 (of_decide_eq_true hab)
      (of_decide_eq_true hbc))
  have htotal : ∀ a b : { ps // ps ∈ pses },
      (decide (cmp a.1 b.1 ≤ 0) || decide (cmp b.1 a.1 ≤ 0)) = true := by
    intro a b
    have hsign := hpre.antisymm a.1 a.2 b.1 b.2
    by_cases hab : cmp a.1 b.1 ≤ 0
    · simp [hab]
    · rw [Int.sign_eq_one_of_pos (by omega)] at hsign
      have hba : cmp b.1 a.1 < 0 := Int.sign_eq_neg_one_iff_neg.mp (by omega)
      simp [hba.le]
  unfold mergesort
  constructor
  · refine ((List.mergeSort_perm _ _).map _).trans ?_
    rw [List.attach_map_subtype_val]
  · rw [List.pairwise_map]
    exact (List.pairwise_mergeSort htrans htotal pses.attach).imp fun h => of_decide_eq_true h

/-- A small process and one that has mapped two terabytes and more. -/
def smallAndHuge : List Psinfo :=
  [makePsinfo 1 { name := ['a'], utime := 700, stime := 0, vsize := 0 } 100 ['u'],
    makePsinfo 2 { name := ['b'], utime := 500, stime := 400, vsize := 2147483648000 } 100 ['u']]

/-- By their times they are sorted. -/
theorem myps_sorts_smallAndHuge :
    SortsTable mergesort .cputime Psinfo.cputime psinfoCmpCputime smallAndHuge := by
  refine (myps_sorts_iff mergesort_sorts (by decide)).2.mpr ?_
  unfold AllTellable Tellable
  decide

/-- Asked whether the huge one comes after the small one, the comparator says it does. -/
theorem smallAndHuge_not_sorted :
    ¬SortsTable mergesort .vsize Psinfo.vsize psinfoCmpVsize smallAndHuge := by
  intro h
  have hsign := h.sign
    (makePsinfo 1 { name := ['a'], utime := 700, stime := 0, vsize := 0 } 100 ['u']) (by decide)
    (makePsinfo 2 { name := ['b'], utime := 500, stime := 400, vsize := 2147483648000 } 100 ['u'])
    (by decide)
  unfold RightSign at hsign
  exact absurd hsign (by decide)

end Ps
