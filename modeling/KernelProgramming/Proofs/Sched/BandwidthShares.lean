/-
No real-time runtime leaks: borrowing and taking back.

`excess` is what a CPU holds beyond the `rt_runtime` it is due; a CPU that is
offline holds nothing and is due nothing.  Both loops over the neighbours keep the
sum of the excesses: borrowing moves an amount from one CPU to another, and the loop
of `__disable_runtime` runs until the CPU has exactly its due, which it reaches
because the others hold what it is short of.  All of it is said about the 64-bit
values of the source, so the bounds that keep them from wrapping come first.
-/
import KernelProgramming.Lib.Shares
import KernelProgramming.Sched.Bandwidth

namespace Bandwidth

variable {n : Nat}

/-! ### 64-bit values -/

theorem u64_of_range {x : Int} (h0 : 0 ≤ x) (h : x < 2 ^ 64) : (u64 x : Int) = x := by
  rw [u64, Int.emod_eq_of_lt h0 h, Int.toNat_of_nonneg h0]

theorem s64_of_range {x : Int} (h0 : -(2 ^ 63) ≤ x) (h : x < 2 ^ 63) : s64 x = x := by
  apply Int.bmod_eq_of_le
  · omega
  · omega

theorem runtimeInf_val : runtimeInf = 18446744073709551615 := by decide

theorem Config.rtRuntime_cases (c : Config n) :
    c.rtRuntime = runtimeInf ∨ c.rtRuntime ≤ c.rtPeriod := by
  by_cases hneg : c.sysctlSchedRtRuntime < 0
  · left
    rw [rtRuntime, globalRtRuntime, if_pos hneg]
  · right
    have hint := c.int
    have hvalid := c.valid
    have hruntime : (u64 c.sysctlSchedRtRuntime : Int) = c.sysctlSchedRtRuntime :=
      u64_of_range (by omega) (by omega)
    have hns : (u64 (c.sysctlSchedRtRuntime * 1000) : Int) = c.sysctlSchedRtRuntime * 1000 :=
      u64_of_range (by omega) (by omega)
    have hle : c.sysctlSchedRtRuntime ≤ c.sysctlSchedRtPeriod := by
      have hfinite : u64 c.sysctlSchedRtRuntime ≠ runtimeInf := by
        rw [runtimeInf_val]
        omega
      rw [schedRtGlobalValidate] at hvalid
      split at hvalid
      · cases hvalid
      · simp only [hfinite, ne_eq, not_false_eq_true, decide_true, Bool.true_and,
          Bool.not_eq_true', decide_eq_false_iff_not] at hvalid
        omega
    rw [rtRuntime, globalRtRuntime, if_neg hneg, rtPeriod, globalRtPeriod]
    omega

theorem Config.rtPeriod_lt (c : Config n) (i : Fin n) : c.rtPeriod < 2 ^ 63 := by
  have hfits := c.fits
  have hpos : 1 ≤ n := by have := i.isLt; omega
  have hle : 1 * globalRtPeriod c.sysctlSchedRtPeriod ≤ n * globalRtPeriod c.sysctlSchedRtPeriod :=
    Nat.mul_le_mul_right _ hpos
  rw [rtPeriod]
  omega

/-! ### What a CPU holds beyond its due -/

/-- What a CPU holds beyond the runtime it is due; nothing while borrowing is off. -/
def excess (c : Config n) (rt : RtRq) : Int :=
  if rt.rtRuntime = runtimeInf then 0 else rt.rtRuntime - c.rtRuntime

/-- What the CPUs hold beyond their due. -/
def excesses (c : Config n) (rqs : Rqs n) : Fin n → Int := fun i => excess c (rqs i).rt

theorem excess_of_finite {c : Config n} {rt : RtRq} (h : rt.rtRuntime ≠ runtimeInf) :
    excess c rt = rt.rtRuntime - c.rtRuntime := if_neg h

theorem excess_of_inf {c : Config n} {rt : RtRq} (h : rt.rtRuntime = runtimeInf) :
    excess c rt = 0 := if_pos h

theorem excesses_update (c : Config n) (rqs : Rqs n) (i : Fin n) (rq : Rq) :
    excesses c (Function.update rqs i rq) =
      Function.update (excesses c rqs) i (excess c rq.rt) := by
  funext j
  by_cases hj : j = i
  · subst hj
    simp only [excesses, Function.update_self]
  · simp only [excesses, Function.update_of_ne hj]

theorem excess_floor (c : Config n) (rt : RtRq) : -(c.rtRuntime : Int) ≤ excess c rt := by
  rw [excess]
  split <;> omega

/-- **While nothing has leaked**, no CPU holds more than all are due together. -/
theorem rtRuntime_le {c : Config n} {rqs : Rqs n} (h : Shares.Balanced (excesses c rqs))
    {i : Fin n} (hi : (rqs i).rt.rtRuntime ≠ runtimeInf) :
    ((rqs i).rt.rtRuntime : Int) ≤ n * c.rtRuntime := by
  have hle := h.le_of_floor (fun j => excess_floor c (rqs j).rt) i
  rw [excesses, excess_of_finite hi, Fintype.card_fin] at hle
  omega

/-- With a finite runtime all CPUs together are due less than `2 ^ 63` nanoseconds. -/
theorem Config.due_lt (c : Config n) (h : c.rtRuntime ≠ runtimeInf) :
    (n : Int) * c.rtRuntime < 2 ^ 63 := by
  have hle : c.rtRuntime ≤ c.rtPeriod := c.rtRuntime_cases.resolve_left h
  have hmul : n * c.rtRuntime ≤ n * c.rtPeriod := Nat.mul_le_mul_left n hle
  have hfits := c.fits
  rw [← rtPeriod] at hfits
  have hlt : n * c.rtRuntime < 2 ^ 63 := by omega
  exact_mod_cast hlt

/-! ### Changing nothing but runtimes -/

theorem setRuntime_self (rqs : Rqs n) (i : Fin n) (v : Nat) :
    rqs.setRuntime i v i = { rqs i with rt := { (rqs i).rt with rtRuntime := v } } :=
  Function.update_self ..

theorem setRuntime_of_ne (rqs : Rqs n) {i j : Fin n} (h : j ≠ i) (v : Nat) :
    rqs.setRuntime i v j = rqs j :=
  Function.update_of_ne h ..

/--
The CPUs differ in their runtimes at most, and the same ones have borrowing turned
off.
-/
def OnlyRuntime (rqs rqs' : Rqs n) : Prop :=
  ∀ j, ∃ v, rqs' j = { rqs j with rt := { (rqs j).rt with rtRuntime := v } } ∧
    (v = runtimeInf ↔ (rqs j).rt.rtRuntime = runtimeInf)

theorem OnlyRuntime.refl (rqs : Rqs n) : OnlyRuntime rqs rqs :=
  fun j => ⟨(rqs j).rt.rtRuntime, rfl, Iff.rfl⟩

theorem OnlyRuntime.trans {rqs rqs' rqs'' : Rqs n} (h : OnlyRuntime rqs rqs')
    (h' : OnlyRuntime rqs' rqs'') : OnlyRuntime rqs rqs'' := by
  intro j
  obtain ⟨v, hv, hinf⟩ := h j
  obtain ⟨v', hv', hinf'⟩ := h' j
  refine ⟨v', ?_, ?_⟩
  · rw [hv', hv]
  · rw [hinf', hv]
    exact hinf

theorem OnlyRuntime.set {rqs : Rqs n} {i : Fin n} {v : Nat} (hv : v ≠ runtimeInf)
    (hi : (rqs i).rt.rtRuntime ≠ runtimeInf) : OnlyRuntime rqs (rqs.setRuntime i v) := by
  intro j
  by_cases hj : j = i
  · subst hj
    exact ⟨v, setRuntime_self rqs j v, by simp only [hv, hi]⟩
  · exact ⟨(rqs j).rt.rtRuntime, setRuntime_of_ne rqs hj v, Iff.rfl⟩

theorem OnlyRuntime.inf_iff {rqs rqs' : Rqs n} (h : OnlyRuntime rqs rqs') (j : Fin n) :
    (rqs' j).rt.rtRuntime = runtimeInf ↔ (rqs j).rt.rtRuntime = runtimeInf := by
  obtain ⟨v, hv, hinf⟩ := h j
  rw [hv]
  exact hinf

theorem OnlyRuntime.rtTime {rqs rqs' : Rqs n} (h : OnlyRuntime rqs rqs') (j : Fin n) :
    (rqs' j).rt.rtTime = (rqs j).rt.rtTime := by
  obtain ⟨v, hv, -⟩ := h j
  rw [hv]

theorem OnlyRuntime.rtThrottled {rqs rqs' : Rqs n} (h : OnlyRuntime rqs rqs') (j : Fin n) :
    (rqs' j).rt.rtThrottled = (rqs j).rt.rtThrottled := by
  obtain ⟨v, hv, -⟩ := h j
  rw [hv]

theorem excesses_setRuntime {c : Config n} {rqs : Rqs n} {i : Fin n} {v : Nat} {d : Int}
    (hfin : (rqs i).rt.rtRuntime ≠ runtimeInf) (hv : v ≠ runtimeInf)
    (hd : (v : Int) = (rqs i).rt.rtRuntime - d) :
    excesses c (rqs.setRuntime i v) = Function.update (excesses c rqs) i (excesses c rqs i - d) := by
  rw [Rqs.setRuntime, Rqs.modifyRt, excesses_update]
  congr 1
  rw [excess_of_finite hv, excesses, excess_of_finite hfin]
  simp only [hd]
  omega

/-! ### Borrowing -/

/--
What `do_balance_runtime` may do for the CPU `this`.  A neighbour either keeps its
runtime or had spare time and still has some; the borrower ends with no less than it
had, unless that was more than the period.
-/
structure Borrowed (c : Config n) (this : Fin n) (rqs rqs' : Rqs n) : Prop where
  only : OnlyRuntime rqs rqs'
  total : ∑ j, excesses c rqs' j = ∑ j, excesses c rqs j
  lender : ∀ j, j ≠ this → (rqs' j).rt.rtRuntime = (rqs j).rt.rtRuntime ∨
    (rqs j).rt.rtTime < (rqs j).rt.rtRuntime ∧ (rqs j).rt.rtTime < (rqs' j).rt.rtRuntime
  borrower : min (rqs this).rt.rtRuntime c.rtPeriod ≤ (rqs' this).rt.rtRuntime

theorem Borrowed.refl (c : Config n) (this : Fin n) (rqs : Rqs n) : Borrowed c this rqs rqs where
  only := .refl rqs
  total := rfl
  lender _ _ := .inl rfl
  borrower := Nat.min_le_left ..

theorem Borrowed.trans {c : Config n} {this : Fin n} {rqs rqs' rqs'' : Rqs n}
    (h : Borrowed c this rqs rqs') (h' : Borrowed c this rqs' rqs'') :
    Borrowed c this rqs rqs'' where
  only := h.only.trans h'.only
  total := h'.total.trans h.total
  lender j hj := by
    have htime := h.only.rtTime j
    have hfirst := h.lender j hj
    have hsecond := h'.lender j hj
    omega
  borrower := by
    have hfirst := h.borrower
    have hsecond := h'.borrower
    omega

theorem Borrowed.balanced {c : Config n} {this : Fin n} {rqs rqs' : Rqs n}
    (h : Borrowed c this rqs rqs') (hbal : Shares.Balanced (excesses c rqs)) :
    Shares.Balanced (excesses c rqs') := h.total.trans hbal

/-- The times a CPU has accounted are far from wrapping. -/
def TimesFit (rqs : Rqs n) : Prop := ∀ j, (rqs j).rt.rtTime < 2 ^ 63

theorem OnlyRuntime.timesFit {rqs rqs' : Rqs n} (h : OnlyRuntime rqs rqs') (ht : TimesFit rqs) :
    TimesFit rqs' := by
  intro j
  rw [h.rtTime j]
  exact ht j

/-- The runtime of a CPU that takes part in borrowing, while nothing has leaked. -/
theorem rtRuntime_lt {c : Config n} {rqs : Rqs n} (hbal : Shares.Balanced (excesses c rqs))
    (hR : c.rtRuntime ≠ runtimeInf) {i : Fin n} (hi : (rqs i).rt.rtRuntime ≠ runtimeInf) :
    (rqs i).rt.rtRuntime < 2 ^ 63 := by
  have hle := rtRuntime_le hbal hi
  have hlt := c.due_lt hR
  omega

/-- Two CPUs of a domain make the share of the spare time a proper part of it. -/
theorem share_lt {spare : Int} (hpos : 0 < spare) {i this : Fin n} (hi : i ≠ this) :
    0 ≤ spare / n ∧ spare / n < spare := by
  have hn : 2 ≤ n := by
    have h1 := i.isLt
    have h2 := this.isLt
    have hne : i.val ≠ this.val := fun h => hi (Fin.ext h)
    omega
  refine ⟨Int.ediv_nonneg (by omega) (by omega), ?_⟩
  apply Int.ediv_lt_of_lt_mul
  · omega
  · have htwo : spare * 2 ≤ spare * n := Int.mul_le_mul_of_nonneg_left (by omega) (by omega)
    omega

/-- How much moves, in numbers that do not wrap. -/
theorem borrowed_bounds {c : Config n} {rt : RtRq} {spare : Int} (hpos : 0 < spare)
    (hspare : spare < 2 ^ 63) {i this : Fin n} (hi : i ≠ this) (hrt : rt.rtRuntime < 2 ^ 63) :
    borrowed c.rtPeriod n rt spare < spare ∧
      -(rt.rtRuntime : Int) ≤ borrowed c.rtPeriod n rt spare ∧
      rt.rtRuntime + borrowed c.rtPeriod n rt spare ≤ c.rtPeriod ∧
      (0 ≤ borrowed c.rtPeriod n rt spare ∨
        rt.rtRuntime + borrowed c.rtPeriod n rt spare = c.rtPeriod) := by
  obtain ⟨hnonneg, hlt⟩ := share_lt hpos hi
  have hperiod := c.rtPeriod_lt this
  have hsum : (u64 (rt.rtRuntime + spare / n) : Int) = rt.rtRuntime + spare / n :=
    u64_of_range (by omega) (by omega)
  simp only [borrowed, hsum]
  split
  · rw [s64_of_range (by omega) (by omega)]
    omega
  · omega

/-- **One loan**: an amount moves from a neighbour with spare time to the borrower. -/
theorem borrowed_of_loan {c : Config n} {rqs : Rqs n} (hbal : Shares.Balanced (excesses c rqs))
    (hR : c.rtRuntime ≠ runtimeInf) (ht : TimesFit rqs) {i this : Fin n} (hi : i ≠ this)
    (hfin : (rqs i).rt.rtRuntime ≠ runtimeInf) (hthis : (rqs this).rt.rtRuntime ≠ runtimeInf)
    (hspare : (rqs i).rt.rtTime < (rqs i).rt.rtRuntime) {d : Int}
    (hd : d = borrowed c.rtPeriod n (rqs this).rt
      ((rqs i).rt.rtRuntime - (rqs i).rt.rtTime : Int)) :
    Borrowed c this rqs
      ((rqs.setRuntime i (u64 ((rqs i).rt.rtRuntime - d))).setRuntime this
        (u64 ((rqs this).rt.rtRuntime + d))) := by
  have hri := rtRuntime_lt hbal hR hfin
  have hrt := rtRuntime_lt hbal hR hthis
  have hperiod := c.rtPeriod_lt this
  have hti := ht i
  have hpos : 0 < ((rqs i).rt.rtRuntime - (rqs i).rt.rtTime : Int) := by omega
  have hfits : ((rqs i).rt.rtRuntime - (rqs i).rt.rtTime : Int) < 2 ^ 63 := by omega
  obtain ⟨hless, hlow, hcap, hgrow⟩ := borrowed_bounds (c := c) hpos hfits hi hrt
  rw [← hd] at hless hlow hcap hgrow
  have hlend : (u64 ((rqs i).rt.rtRuntime - d) : Int) = (rqs i).rt.rtRuntime - d :=
    u64_of_range (by omega) (by omega)
  have hget : (u64 ((rqs this).rt.rtRuntime + d) : Int) = (rqs this).rt.rtRuntime + d :=
    u64_of_range (by omega) (by omega)
  have hinf := runtimeInf_val
  have hlendFin : u64 ((rqs i).rt.rtRuntime - d) ≠ runtimeInf := by omega
  have hgetFin : u64 ((rqs this).rt.rtRuntime + d) ≠ runtimeInf := by omega
  have hthisAfter : (rqs.setRuntime i (u64 ((rqs i).rt.rtRuntime - d))) this = rqs this :=
    setRuntime_of_ne rqs (Ne.symm hi) _
  refine ⟨?_, ?_, ?_, ?_⟩
  · refine (OnlyRuntime.set hlendFin hfin).trans (OnlyRuntime.set hgetFin ?_)
    rw [hthisAfter]
    exact hthis
  · have hmove : excesses c ((rqs.setRuntime i (u64 ((rqs i).rt.rtRuntime - d))).setRuntime this
          (u64 ((rqs this).rt.rtRuntime + d))) =
        Function.update (Function.update (excesses c rqs) i (excesses c rqs i - d)) this
          (excesses c rqs this + d) := by
      rw [excesses_setRuntime (by rw [hthisAfter]; exact hthis) hgetFin (d := -d)
        (by rw [hthisAfter]; omega), excesses_setRuntime hfin hlendFin hlend,
        Function.update_of_ne (Ne.symm hi)]
      congr 1
      omega
    rw [hmove]
    exact Shares.sum_move _ hi d
  · intro j hj
    rw [setRuntime_of_ne _ hj]
    by_cases hji : j = i
    · subst hji
      rw [setRuntime_self]
      right
      refine ⟨hspare, ?_⟩
      simp only
      omega
    · left
      rw [setRuntime_of_ne _ hji]
  · rw [setRuntime_self]
    simp only
    omega

theorem borrowed_doBalanceLoop {c : Config n} (hR : c.rtRuntime ≠ runtimeInf) {this : Fin n} :
    ∀ (l : List (Fin n)) (rqs : Rqs n), Shares.Balanced (excesses c rqs) → TimesFit rqs →
      (rqs this).rt.rtRuntime ≠ runtimeInf →
      Borrowed c this rqs (doBalanceLoop c.rtPeriod n this l rqs) := by
  intro l
  induction l with
  | nil =>
      intro rqs _ _ _
      exact .refl c this rqs
  | cons i rest ih =>
      intro rqs hbal ht hthis
      rw [doBalanceLoop]
      split
      · exact ih rqs hbal ht hthis
      · rename_i hskip
        obtain ⟨hi, hfin⟩ := not_or.mp hskip
        have hri := rtRuntime_lt hbal hR hfin
        have hti := ht i
        have hdiff : s64 ((rqs i).rt.rtRuntime - (rqs i).rt.rtTime : Int) =
            (rqs i).rt.rtRuntime - (rqs i).rt.rtTime := s64_of_range (by omega) (by omega)
        simp only [hdiff]
        split
        · rename_i hpos
          have hloan := borrowed_of_loan hbal hR ht hi hfin hthis (by omega) rfl
          have hsame : (rqs.setRuntime i (u64 ((rqs i).rt.rtRuntime -
              borrowed c.rtPeriod n (rqs this).rt
                ((rqs i).rt.rtRuntime - (rqs i).rt.rtTime)))) this = rqs this :=
            setRuntime_of_ne rqs (Ne.symm hi) _
          rw [hsame]
          split
          · exact hloan
          · refine hloan.trans (ih _ (hloan.balanced hbal) (hloan.only.timesFit ht) ?_)
            intro hinf
            exact hthis ((hloan.only.inf_iff this).mp hinf)
        · exact ih rqs hbal ht hthis

/-- **Borrowing leaks nothing** and leaves every lender time to spare. -/
theorem borrowed_balanceRuntime {c : Config n} (hR : c.rtRuntime ≠ runtimeInf) {this : Fin n}
    {rqs : Rqs n} (hbal : Shares.Balanced (excesses c rqs)) (ht : TimesFit rqs)
    (hthis : (rqs this).rt.rtRuntime ≠ runtimeInf) :
    Borrowed c this rqs (balanceRuntime c rqs this) := by
  rw [balanceRuntime]
  split
  · exact .refl c this rqs
  · split
    · exact borrowed_doBalanceLoop hR _ rqs hbal ht hthis
    · exact .refl c this rqs

/-! ### Taking back -/

/-- Neighbours that have nothing left to give cannot leave the CPU wanting. -/
theorem not_wanting {c : Config n} {rqs : Rqs n} {this : Fin n} {want : Int}
    (hsum : ∑ j, excesses c rqs j = want + excesses c rqs this)
    (hdone : ∀ j, j ≠ this →
      (rqs j).rt.rtRuntime = runtimeInf ∨ 0 < want ∧ (rqs j).rt.rtRuntime = 0) : want = 0 := by
  by_cases hpos : 0 < want
  · have hle : ∑ j, excesses c rqs j ≤ excesses c rqs this := by
      apply Shares.others_nonpos
      intro j hj
      rw [excesses, excess]
      split
      · omega
      · rename_i hfin
        have hzero := ((hdone j hj).resolve_left hfin).2
        omega
    omega
  · have heq : ∑ j, excesses c rqs j = excesses c rqs this := by
      apply Shares.others_zero
      intro j hj
      have hoff := (hdone j hj).resolve_right fun h => hpos h.1
      exact excess_of_inf hoff
    omega

/--
**The greedy loop of `__disable_runtime` takes back all that is missing.**  While it
runs, the neighbours hold together what the CPU still wants, and those it has passed
have nothing left; `hfits` keeps the sums from wrapping.
-/
theorem reclaimLoop_spec {c : Config n} {this : Fin n} :
    ∀ (l : List (Fin n)) (rqs : Rqs n) (want : Int), want ≠ 0 →
      (-(2 ^ 63) < want ∧ want < 2 ^ 63) →
      (∀ j, (rqs j).rt.rtRuntime ≠ runtimeInf → (rqs j).rt.rtRuntime < 2 ^ 63) →
      ∑ j, excesses c rqs j = want + excesses c rqs this →
      (∀ j, j ≠ this → j ∉ l →
        (rqs j).rt.rtRuntime = runtimeInf ∨ 0 < want ∧ (rqs j).rt.rtRuntime = 0) →
      ∃ rqs', reclaimLoop this l rqs want = (rqs', 0) ∧ OnlyRuntime rqs rqs' ∧
        rqs' this = rqs this ∧ ∑ j, excesses c rqs' j = excesses c rqs' this := by
  have hinfVal := runtimeInf_val
  intro l
  induction l with
  | nil =>
      intro rqs want hwant _ _ hsum hdone
      exact absurd (not_wanting hsum fun j hj => hdone j hj List.not_mem_nil) hwant
  | cons i rest ih =>
      intro rqs want hwant hrange hfits hsum hdone
      rw [reclaimLoop]
      split
      · rename_i hskip
        refine ih rqs want hwant hrange hfits hsum ?_
        intro j hj hnot
        by_cases hji : j = i
        · subst hji
          exact .inl (hskip.resolve_left hj)
        · apply hdone j hj
          simp only [List.mem_cons, not_or]
          exact ⟨hji, hnot⟩
      · rename_i hskip
        obtain ⟨hi, hfin⟩ := not_or.mp hskip
        have hri := hfits i hfin
        have hval : s64 (rqs i).rt.rtRuntime = (rqs i).rt.rtRuntime :=
          s64_of_range (by omega) (by omega)
        rw [hval]
        generalize hdiff : (if 0 < want then min ((rqs i).rt.rtRuntime : Int) want else want) = diff
        have hbounds : 0 < want ∧ 0 ≤ diff ∧ diff ≤ want ∧ diff ≤ (rqs i).rt.rtRuntime ∧
              (diff = want ∨ diff = (rqs i).rt.rtRuntime) ∨
            want < 0 ∧ diff = want := by
          split at hdiff <;> omega
        have hnew : (u64 ((rqs i).rt.rtRuntime - diff) : Int) = (rqs i).rt.rtRuntime - diff :=
          u64_of_range (by omega) (by omega)
        have hnewFin : u64 ((rqs i).rt.rtRuntime - diff) ≠ runtimeInf := by omega
        have hself : (rqs.setRuntime i (u64 ((rqs i).rt.rtRuntime - diff))) this = rqs this :=
          setRuntime_of_ne rqs (Ne.symm hi) _
        have honly : OnlyRuntime rqs (rqs.setRuntime i (u64 ((rqs i).rt.rtRuntime - diff))) :=
          .set hnewFin hfin
        have hthis : excesses c (rqs.setRuntime i (u64 ((rqs i).rt.rtRuntime - diff))) this =
            excesses c rqs this := by rw [excesses, hself, excesses]
        have hleft : ∑ j, excesses c (rqs.setRuntime i (u64 ((rqs i).rt.rtRuntime - diff))) j =
            want - diff + excesses c rqs this := by
          rw [excesses_setRuntime hfin hnewFin hnew, Shares.sum_update, hsum]
          omega
        simp only
        split
        · rename_i hzero
          refine ⟨_, by rw [hzero], honly, hself, ?_⟩
          rw [hleft, hthis]
          omega
        · rename_i hmore
          obtain ⟨rqs', heq, honly', hthis', hsum'⟩ :=
            ih (rqs.setRuntime i (u64 ((rqs i).rt.rtRuntime - diff))) (want - diff) hmore (by omega)
              (by
                intro j hj
                by_cases hji : j = i
                · subst hji
                  rw [setRuntime_self]
                  simp only
                  omega
                · rw [setRuntime_of_ne _ hji] at hj ⊢
                  exact hfits j hj)
              (by rw [hleft, hthis])
              (by
                intro j hj hnot
                by_cases hji : j = i
                · subst hji
                  rw [setRuntime_self]
                  right
                  simp only
                  omega
                · rw [setRuntime_of_ne _ hji]
                  have hbefore := hdone j hj (by
                    simp only [List.mem_cons, not_or]
                    exact ⟨hji, hnot⟩)
                  omega)
          exact ⟨rqs', heq, honly.trans honly', hthis'.trans hself, hsum'⟩

end Bandwidth
