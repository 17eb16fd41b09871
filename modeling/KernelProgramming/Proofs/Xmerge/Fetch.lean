/-
What the reads of `p->num_files` may find.

If nobody writes to the parameters the call is the one of `Xmerge/Merge.lean`
(`xmergeFetching_steady`).  If somebody does, nothing ties the size of the array to the
number of its entries that are copied, or either to the bound of the loop: the call stays
within the array exactly when the second read finds no more than the first, and some test
is failed while the index is still below what the second read has found.
-/
import KernelProgramming.Xmerge.Fetch
import KernelProgramming.Proofs.Xmerge.Concat

namespace Xmerge

variable {env : Env} {size fuel turns : Nat} {out i : Int} {numFiles : Nat → UInt32}
  {infiles : Int → FileId} {k : Kern} {p : Params}

/-! ### The index -/

theorem indexBelow_iff {n : Nat} (hn : n < 4294967296) (v : UInt32) :
    indexBelow (int32 n) v = true ↔ n < v.toNat := by
  have hmod : int32 n % 4294967296 = (n : Int) % 4294967296 := Int.bmod_emod
  unfold indexBelow
  rw [decide_eq_true_iff, hmod]
  omega

theorem int32_succ (n : Nat) : int32 (int32 n + 1) = int32 ((n + 1 : Nat) : Int) := by
  rw [int32_add_int32, Int.natCast_succ]

/-! ### Turns of the loop -/

/-- A turn that comes to the end of its file. -/
theorem fetchLoop_next {fd : Int} {w₁ w₂ : World} {numBytes numBytes' : Int} {test : Nat}
    (hbelow : indexBelow i (numFiles test) = true)
    (hopen : ksysOpen env k.world (infiles i) .rdonly = (fd, w₁)) (hfd : 0 ≤ fd)
    (hcopy : copyLoop env size fd out fuel w₁ numBytes = some (.eof, numBytes', w₂)) :
    ∃ k' : Kern, k'.world = (ksysClose w₂ fd).2 ∧ ∀ turns ofileCount,
      (fetchLoop env size fuel out numFiles infiles (turns + 1) test i k numBytes ofileCount).1
        = i :: (fetchLoop env size fuel out numFiles infiles turns (test + 1) (int32 (i + 1)) k'
            numBytes' ((ofileCount + 1) % 4294967296)).1 := by
  refine ⟨{ (k.open env (infiles i) .rdonly).2 with world := w₂ }.close fd, rfl, ?_⟩
  intro turns ofileCount
  have hfst : (ksysOpen env k.world (infiles i) .rdonly).1 = fd := by rw [hopen]
  have hsnd : (ksysOpen env k.world (infiles i) .rdonly).2 = w₁ := by rw [hopen]
  rw [fetchLoop, if_pos hbelow]
  simp only [Kern.open, Kern.note, hfst, hsnd, hcopy]
  rw [if_neg (by omega)]

/-- A turn uses its index, and then there are the turns that follow. -/
theorem mem_fetchLoop {test ofileCount : Nat} {numBytes j : Int}
    (hj : j ∈ (fetchLoop env size fuel out numFiles infiles (turns + 1) test i k numBytes
      ofileCount).1) :
    indexBelow i (numFiles test) = true ∧ (j = i ∨ ∃ k' numBytes' ofileCount',
      j ∈ (fetchLoop env size fuel out numFiles infiles turns (test + 1) (int32 (i + 1)) k'
        numBytes' ofileCount').1) := by
  rw [fetchLoop] at hj
  split at hj
  · rename_i hbelow
    refine ⟨hbelow, ?_⟩
    simp only at hj
    split at hj
    · exact Or.inl (List.mem_singleton.mp hj)
    · split at hj
      · exact Or.inl (List.mem_singleton.mp hj)
      · exact Or.inl (List.mem_singleton.mp hj)
      · rcases List.mem_cons.mp hj with heq | hrest
        · exact Or.inl heq
        · exact Or.inr ⟨_, _, _, hrest⟩
  · exact absurd hj (by simp)

/-- **A test that is failed ends the loop.**  The indices used are those of the tests before. -/
theorem fetchLoop_bounded {last : Nat} (hlast : last < 4294967296)
    (hstop : (numFiles last).toNat ≤ last) : ∀ {turns test : Nat} {k : Kern} {numBytes : Int}
    {ofileCount : Nat}, test ≤ last →
    ∀ j ∈ (fetchLoop env size fuel out numFiles infiles turns test (int32 test) k numBytes
      ofileCount).1, ∃ n : Nat, j = int32 n ∧ n < last := by
  intro turns
  induction turns with
  | zero =>
      intro test k numBytes ofileCount _ j hj
      exact absurd hj (by simp [fetchLoop])
  | succ turns ih =>
      intro test k numBytes ofileCount hle j hj
      obtain ⟨hbelow, hcases⟩ := mem_fetchLoop hj
      rw [indexBelow_iff (by omega)] at hbelow
      have hne : test ≠ last := by
        rintro rfl
        omega
      rcases hcases with heq | ⟨k', numBytes', ofileCount', hrest⟩
      · exact ⟨test, heq, by omega⟩
      · rw [int32_succ] at hrest
        exact ih (by omega) j hrest

/-- A turn over a file that is empty. -/
theorem fetchLoop_empty {o : FileId} {test : Nat} (numBytes : Int)
    (hopens : ∀ n, env.opens n = none) (hreads : ∀ n, (env.reads n).Succeeds)
    (hbelow : indexBelow i (numFiles test) = true) (hempty : ∀ f, k.world.content f = [])
    (hout : k.world.Appends out o) :
    ∃ k' : Kern, (∀ f, k'.world.content f = []) ∧ k'.world.Appends out o ∧ ∀ turns ofileCount,
      (fetchLoop env size 1 out numFiles infiles (turns + 1) test i k numBytes ofileCount).1
        = i :: (fetchLoop env size 1 out numFiles infiles turns (test + 1) (int32 (i + 1)) k'
            numBytes ((ofileCount + 1) % 4294967296)).1 := by
  obtain ⟨fd, w₁, hopened, hfd, hcontent₁, -, -, -, hcopying⟩ :=
    ksysOpen_input (infiles i) (hopens _) hout
  have hend : found env size w₁.reads ((w₁.content (infiles i)).drop 0) = [] := by
    rw [hcontent₁, hempty, found, List.drop_nil, List.take_nil]
    exact (Answer.moved_eq_nil (hreads _)).mpr rfl
  obtain ⟨w₂, hcontent₂, -, -, -, hcopying₂, hloop⟩ := copyLoop_eof hcopying (hreads _) hend
  obtain ⟨hout₃, hcontent₃, -, -, -⟩ := ksysClose_appends hcopying₂.output hcopying.ne
  obtain ⟨k', hworld, hnext⟩ := fetchLoop_next hbelow hopened hfd (hloop 0 numBytes)
  refine ⟨k', ?_, ?_, hnext⟩
  · intro f
    rw [hworld, hcontent₃, hcontent₂, hcontent₁, hempty]
  · rw [hworld]
    exact hout₃

/-- **As long as the tests are passed the loop goes on**, over files that are all empty. -/
theorem fetchLoop_reaches {o : FileId} (hopens : ∀ n, env.opens n = none)
    (hreads : ∀ n, (env.reads n).Succeeds) : ∀ {turns test : Nat} {k : Kern} {numBytes : Int}
    {ofileCount : Nat},
    (∀ n, test ≤ n → n ≤ test + turns → indexBelow (int32 n) (numFiles n) = true) →
    (∀ f, k.world.content f = []) → k.world.Appends out o →
    int32 ((test + turns : Nat) : Int) ∈ (fetchLoop env size 1 out numFiles infiles (turns + 1) test
      (int32 test) k numBytes ofileCount).1 := by
  intro turns
  induction turns with
  | zero =>
      intro test k numBytes ofileCount hpass hempty hout
      obtain ⟨k', -, -, hnext⟩ := fetchLoop_empty numBytes hopens hreads
        (hpass test (le_refl _) (Nat.le_add_right _ _)) hempty hout
      rw [hnext]
      exact List.mem_cons_self
  | succ turns ih =>
      intro test k numBytes ofileCount hpass hempty hout
      obtain ⟨k', hempty', hout', hnext⟩ := fetchLoop_empty numBytes hopens hreads
        (hpass test (le_refl _) (Nat.le_add_right _ _)) hempty hout
      rw [hnext, int32_succ, show test + (turns + 1) = test + 1 + turns from by omega]
      refine List.mem_cons_of_mem _ (ih ?_ hempty' hout')
      exact fun n hle hn => hpass n (by omega) (by omega)

/-! ### The call -/

/-- The call copies no more than it has allocated, and uses no index but those of entries that
have been allocated and copied. -/
structure InBounds (call : Fetched) : Prop where
  copied : call.copied ≤ call.allocated
  nonneg : ∀ i ∈ call.indices, 0 ≤ i
  allocated : ∀ i ∈ call.indices, sizeofPtr * (i + 1) ≤ call.allocated
  entries : ∀ i ∈ call.indices, sizeofPtr * (i + 1) ≤ call.copied

/-- All that a call with these values of `num_files` may do: the files and what the calls on them
answer, the other parameters and the memory behind `infiles` are any, and it may be looked at
after any number of steps. -/
def NoOverrun (numFiles : Fetches) : Prop :=
  ∀ env size fuel turns k outfile oflags infiles fault,
    InBounds (xmergeFetching env size fuel turns k numFiles outfile oflags infiles fault)

theorem xmergeFetching_sizes (env : Env) (size fuel turns : Nat) (k : Kern) (numFiles : Fetches)
    (outfile : FileId) (oflags : Flags) (infiles : Int → FileId) (fault : Bool) :
    (xmergeFetching env size fuel turns k numFiles outfile oflags infiles fault).allocated
        = sizeofPtr * numFiles.alloc.toNat ∧
      (xmergeFetching env size fuel turns k numFiles outfile oflags infiles fault).copied
        = sizeofPtr * numFiles.copy.toNat := by
  unfold xmergeFetching
  split
  · exact ⟨rfl, rfl⟩
  · dsimp only
    split <;> exact ⟨rfl, rfl⟩

/-- The indices are those of the loop, if it is entered. -/
theorem mem_xmergeFetching {numFiles : Fetches} {outfile : FileId} {oflags : Flags} {fault : Bool}
    (hi : i ∈ (xmergeFetching env size fuel turns k numFiles outfile oflags infiles fault).indices) :
    ∃ out k', i ∈ (fetchLoop env size fuel out numFiles.test infiles turns 0 0 k' 0 0).1 := by
  unfold xmergeFetching at hi
  split at hi
  · exact absurd hi (by simp)
  · dsimp only at hi
    split at hi
    · exact absurd hi (by simp)
    · exact ⟨_, _, hi⟩

/-- All files are empty, and every call succeeds. -/
def emptyFiles : Kern := ⟨.idle fun _ => [], .userDs, []⟩

def succeeding : Env where
  opens _ := none
  reads _ := .upTo 1
  writes _ := .upTo 1

theorem xmergeFetching_reaches {numFiles : Fetches}
    (hpass : ∀ n, n ≤ turns → indexBelow (int32 n) (numFiles.test n) = true) :
    int32 turns ∈ (xmergeFetching succeeding 1 1 (turns + 1) emptyFiles numFiles 0
      { append := true, trunc := false } (fun _ => 0) false).indices := by
  let params : Params := ⟨0, [], { append := true, trunc := false }, by decide⟩
  have hopen : succeeding.opens emptyFiles.world.opens = none := rfl
  obtain ⟨-, hcontent, -, -, -, hout⟩ := beforeFiles_ready (p := params) hopen rfl
  have hreach : int32 ((0 + turns : Nat) : Int) ∈ (fetchLoop succeeding 1 1 _ numFiles.test
      (fun _ => 0) (turns + 1) 0 (int32 (0 : Nat)) (beforeFiles succeeding emptyFiles params) 0 0).1 :=
    fetchLoop_reaches (fun _ => rfl) (fun _ => ⟨1, rfl⟩) (fun n _ hn => hpass n (by omega))
      (fun f => congrFun hcontent f) hout
  rw [Nat.zero_add] at hreach
  exact hreach

/--
**When the call stays within its array**, whatever the files.  What is copied must not be
more than what has been allocated, and some test must be failed in time: its number is at
most that of the entries copied, and not beyond where the index turns negative.
-/
theorem noOverrun_iff (numFiles : Fetches) : NoOverrun numFiles ↔
    numFiles.copy ≤ numFiles.alloc ∧
      ∃ n ≤ numFiles.copy.toNat, n ≤ 2147483648 ∧ (numFiles.test n).toNat ≤ n := by
  constructor
  · intro h
    have hsizes := xmergeFetching_sizes succeeding 1 1 0 emptyFiles numFiles 0
      { append := true, trunc := false } (fun _ => 0) true
    have hcopy := (h succeeding 1 1 0 emptyFiles 0 { append := true, trunc := false } (fun _ => 0)
      true).copied
    rw [hsizes.1, hsizes.2] at hcopy
    refine ⟨UInt32.le_iff_toNat_le.mpr (Nat.le_of_mul_le_mul_left hcopy (by decide)), ?_⟩
    by_contra hnone
    push Not at hnone
    -- Every test is passed until the index is out of bounds.
    have hlt := numFiles.copy.toNat_lt
    have hpass : ∀ n, n ≤ min numFiles.copy.toNat 2147483648 →
        indexBelow (int32 n) (numFiles.test n) = true := by
      intro n hn
      rw [indexBelow_iff (by omega)]
      exact hnone n (by omega) (by omega)
    have hreach := xmergeFetching_reaches hpass
    have hbounds := h succeeding 1 1 (min numFiles.copy.toNat 2147483648 + 1) emptyFiles 0
      { append := true, trunc := false } (fun _ => 0) false
    have hnonneg := hbounds.nonneg _ hreach
    have hentry := hbounds.entries _ hreach
    rw [(xmergeFetching_sizes ..).2, sizeofPtr] at hentry
    by_cases hfew : numFiles.copy.toNat < 2147483648
    · rw [Nat.min_eq_left (by omega), int32_of_lt (by omega) (by omega)] at hentry
      omega
    · rw [Nat.min_eq_right (by omega)] at hnonneg
      exact absurd hnonneg (by decide)
  · rintro ⟨hcopy, last, hle, hint, hstop⟩ env size fuel turns k outfile oflags infiles fault
    obtain ⟨hallocated, hcopied⟩ := xmergeFetching_sizes env size fuel turns k numFiles outfile
      oflags infiles fault
    rw [UInt32.le_iff_toNat_le] at hcopy
    have hindex : ∀ i ∈ (xmergeFetching env size fuel turns k numFiles outfile oflags infiles
        fault).indices, ∃ n : Nat, i = n ∧ n < last := by
      intro i hi
      obtain ⟨out, k', hloop⟩ := mem_xmergeFetching hi
      obtain ⟨n, heq, hn⟩ := fetchLoop_bounded (by omega) hstop (Nat.zero_le last) i hloop
      exact ⟨n, heq.trans (int32_of_lt (by omega) (by omega)), hn⟩
    refine ⟨?_, ?_, ?_, ?_⟩
    · rw [hallocated, hcopied]
      exact Nat.mul_le_mul_left _ hcopy
    · intro i hi
      obtain ⟨n, rfl, -⟩ := hindex i hi
      exact Int.natCast_nonneg n
    · intro i hi
      obtain ⟨n, rfl, hn⟩ := hindex i hi
      rw [hallocated, sizeofPtr]
      omega
    · intro i hi
      obtain ⟨n, rfl, hn⟩ := hindex i hi
      rw [hcopied, sizeofPtr]
      omega

/-- One file, until the array has been copied; two from then on. -/
def oneThenTwo : Fetches := ⟨1, 1, fun _ => 2⟩

theorem noOverrun_fails : ¬NoOverrun oneThenTwo := by
  intro h
  have hbounds := (h succeeding 1 1 3 emptyFiles 0 { append := true, trunc := false } (fun _ => 0)
    false).entries 1
  revert hbounds
  decide

/-! ### Parameters that stay what they are -/

/-- Every read of `num_files` finds the number of files. -/
def Fetches.steady (p : Params) : Fetches :=
  ⟨.ofNat p.infiles.length, .ofNat p.infiles.length, fun _ => .ofNat p.infiles.length⟩

theorem fetchLoop_steady {total : Nat} (htotal : total < 2147483648) :
    ∀ {files : List FileId} {turns n : Nat} {k : Kern} {numBytes : Int} {ofileCount : Nat},
    n + files.length = total → files.length < turns → ofileCount + files.length < 4294967296 →
    (∀ j (hj : j < files.length), infiles ((n + j : Nat) : Int) = files[j]) →
    (fetchLoop env size fuel out (fun _ => .ofNat total) infiles turns n (int32 n) k numBytes
        ofileCount).2
      = filesLoop env size fuel out files k numBytes ofileCount := by
  intro files
  induction files with
  | nil =>
      intro turns n k numBytes ofileCount hn hturns _ _
      obtain ⟨turns, rfl⟩ :=
        Nat.exists_eq_add_one_of_ne_zero (show turns ≠ 0 by simp at hturns; omega)
      have hstop : ¬indexBelow (int32 n) (.ofNat total) = true := by
        rw [indexBelow_iff (by omega), UInt32.toNat_ofNat_of_lt' (by simp [UInt32.size]; omega)]
        simp at hn
        omega
      rw [fetchLoop, if_neg hstop]
      rfl
  | cons path rest ih =>
      intro turns n k numBytes ofileCount hn hturns hcount hmem
      rw [List.length_cons] at hn hturns hcount
      obtain ⟨turns, rfl⟩ := Nat.exists_eq_add_one_of_ne_zero (show turns ≠ 0 by omega)
      have hbelow : indexBelow (int32 n) (.ofNat total) = true := by
        rw [indexBelow_iff (by omega), UInt32.toNat_ofNat_of_lt' (by simp [UInt32.size]; omega)]
        omega
      have hpath : infiles (int32 n) = path := by
        rw [int32_of_lt (by omega) (by omega)]
        exact hmem 0 (by simp)
      have hrest : ∀ (k : Kern) (numBytes : Int),
          (fetchLoop env size fuel out (fun _ => .ofNat total) infiles turns (n + 1)
              (int32 (int32 n + 1)) k numBytes ((ofileCount + 1) % 4294967296)).2
            = filesLoop env size fuel out rest k numBytes (ofileCount + 1) := by
        intro k numBytes
        rw [int32_succ, Nat.mod_eq_of_lt (by omega)]
        refine ih (by omega) (by omega) (by omega) ?_
        intro j hj
        rw [Nat.add_assoc, Nat.add_comm 1 j]
        exact hmem (j + 1) (by simpa using hj)
      rw [fetchLoop, if_pos hbelow, filesLoop_cons, hpath]
      dsimp only [Kern.open, Kern.note]
      split
      · rfl
      · split
        · rename_i hcopy
          rw [hcopy]
          rfl
        · rename_i hcopy
          rw [hcopy]
          rfl
        · rename_i hcopy
          rw [hcopy]
          exact hrest _ _

/-- **If nobody writes to the parameters this is `xmerge`.** -/
theorem xmergeFetching_steady (env : Env) (size fuel : Nat) (k : Kern) (fault : Bool)
    (hturns : p.infiles.length < turns)
    (hmem : ∀ j (hj : j < p.infiles.length), infiles (j : Int) = p.infiles[j]) :
    (xmergeFetching env size fuel turns k (.steady p) p.outfile p.oflags infiles fault).result
      = xmerge env size fuel k p fault := by
  have hfew := p.few
  have hloop : ∀ out k', (fetchLoop env size fuel out (fun _ => .ofNat p.infiles.length) infiles
      turns 0 0 k' 0 0).2 = filesLoop env size fuel out p.infiles k' 0 0 := by
    intro out k'
    refine fetchLoop_steady hfew (Nat.zero_add _) hturns (by omega) ?_
    intro j hj
    rw [Nat.zero_add]
    exact hmem j hj
  unfold xmergeFetching xmerge
  dsimp only [Fetches.steady]
  split
  · rfl
  · split
    · rfl
    · dsimp only
      rw [hloop]

end Xmerge
