/-
What arrives in the output.

When no input is the output and no call fails, `xmerge` appends what its writes keep of
the chunks of all the inputs (`filesLoop_merges`), and there is no other way for it to
return a count (`filesLoop_plan`).  If every write keeps its whole chunk this is the
concatenation of the inputs, whatever the chunks are and for both implementations.  If
one of them does not, the rest of its chunk is lost and the call still succeeds.
-/
import KernelProgramming.Proofs.Xmerge.Chunks

namespace Xmerge

open Descriptors

variable {env : Env} {size : Nat} {inFd out : Int} {w : World} {f o : FileId} {p : Params}

/-! ### Opening and closing -/

/-- An input that can be opened. -/
theorem ksysOpen_input (f : FileId) (hopen : env.opens w.opens = none) (hout : w.Appends out o) :
    ∃ fd w₁, ksysOpen env w f .rdonly = (fd, w₁) ∧ 0 ≤ fd ∧ w₁.content = w.content ∧
      w₁.opens = w.opens + 1 ∧ w₁.reads = w.reads ∧ w₁.writes = w.writes ∧
      Copying w₁ fd out f o 0 := by
  refine ⟨w.fds.lowest, ⟨w.content, w.fds.set w.fds.lowest (some ⟨f, 0, false⟩), w.opens + 1,
    w.reads, w.writes⟩, ?_, by omega, rfl, rfl, rfl, rfl, ?_, ?_⟩
  · unfold ksysOpen
    rw [hopen]
    rfl
  · rw [World.lookup_set, if_pos rfl]
  · obtain ⟨pos, hlookup⟩ := hout
    have hne : out ≠ w.fds.lowest := by
      intro heq
      rw [heq, World.lookup_natCast, w.fds.lowest_free] at hlookup
      simp at hlookup
    refine ⟨pos, ?_⟩
    rw [World.lookup_set, if_neg hne]
    exact hlookup

theorem opens_of_nonneg {path : FileId} {flags : Flags}
    (h : 0 ≤ (ksysOpen env w path flags).1) : env.opens w.opens = none := by
  cases hopen : env.opens w.opens with
  | none => rfl
  | some e =>
      have hpos := e.pos
      unfold ksysOpen at h
      simp only [hopen] at h
      omega

/-- Closing changes nothing but the descriptors, and of these only one. -/
theorem ksysClose_appends (hout : w.Appends out o) (hne : inFd ≠ out) :
    (ksysClose w inFd).2.Appends out o ∧ (ksysClose w inFd).2.content = w.content ∧
      (ksysClose w inFd).2.opens = w.opens ∧ (ksysClose w inFd).2.reads = w.reads ∧
      (ksysClose w inFd).2.writes = w.writes := by
  unfold ksysClose
  split
  · exact ⟨hout, rfl, rfl, rfl, rfl⟩
  · rename_i g hopen
    refine ⟨?_, rfl, rfl, rfl, rfl⟩
    obtain ⟨pos, hlookup⟩ := hout
    refine ⟨pos, ?_⟩
    have hnonneg := World.nonneg_of_lookup hopen
    show World.lookup ⟨w.content, w.fds.set inFd.toNat none, _, _, _⟩ out = _
    rw [World.lookup_set, if_neg (by omega)]
    exact hlookup

/-- An iteration of the `for` loop that comes to the end of its file. -/
theorem filesLoop_next {k : Kern} {fd : Int} {w₁ w₂ : World} {fuel : Nat}
    {numBytes numBytes' : Int} (hopen : ksysOpen env k.world f .rdonly = (fd, w₁)) (hfd : 0 ≤ fd)
    (hcopy : copyLoop env size fd out fuel w₁ numBytes = some (.eof, numBytes', w₂)) :
    ∃ k' : Kern, k'.world = (ksysClose w₂ fd).2 ∧
      ∀ fuel' rest ofileCount, fuel ≤ fuel' →
        filesLoop env size fuel' out (f :: rest) k numBytes ofileCount
          = filesLoop env size fuel' out rest k' numBytes' (ofileCount + 1) := by
  refine ⟨{ (k.open env f .rdonly).2 with world := w₂ }.close fd, rfl, ?_⟩
  intro fuel' rest ofileCount hle
  rw [filesLoop_cons, hopen, if_neg (by simp only; omega), copyLoop_mono hle hcopy]
  rfl

/-! ### All the files -/

/-- How the reads from the n-th on cut the files into chunks, one after the other.  At the end
of each file there is a read that finds nothing. -/
inductive ReadPlan (env : Env) (size : Nat) : Nat → List Content → List Content → Prop
  | nil {n : Nat} : ReadPlan env size n [] []
  | cons {n : Nat} {file : Content} {files chunks later : List Content}
      (hfile : Chunks env size n file chunks)
      (hfiles : ReadPlan env size (n + chunks.length + 1) files later) :
      ReadPlan env size n (file :: files) (chunks ++ later)

theorem ReadPlan.flatten {n : Nat} {files chunks : List Content} (hsize : 1 ≤ size)
    (h : ReadPlan env size n files chunks) : chunks.flatten = files.flatten := by
  induction h with
  | nil => rfl
  | cons hfile _ ih => rw [List.flatten_append, List.flatten_cons, hfile.flatten hsize, ih]

theorem kept_append (n : Nat) (chunks later : List Content) :
    kept env n (chunks ++ later) = kept env n chunks ++ kept env (n + chunks.length) later := by
  induction chunks generalizing n with
  | nil => rfl
  | cons chunk chunks ih =>
      rw [List.cons_append, kept, kept, ih, List.append_assoc, List.length_cons]
      rw [show n + 1 + chunks.length = n + (chunks.length + 1) by omega]

theorem WritesSucceed.append_iff {n : Nat} {chunks later : List Content} :
    WritesSucceed env n (chunks ++ later) ↔
      WritesSucceed env n chunks ∧ WritesSucceed env (n + chunks.length) later := by
  constructor
  · intro h
    refine ⟨fun i hi => h i (by rw [List.length_append]; omega), fun i hi => ?_⟩
    have hlater := h (chunks.length + i) (by rw [List.length_append]; omega)
    rw [← Nat.add_assoc] at hlater
    exact hlater
  · rintro ⟨hchunks, hlater⟩ i hi
    rw [List.length_append] at hi
    by_cases hlt : i < chunks.length
    · exact hchunks i hlt
    · have h := hlater (i - chunks.length) (by omega)
      rw [show n + chunks.length + (i - chunks.length) = n + i by omega] at h
      exact h

theorem map_appended {files : List FileId} {content : FileId → Content} {bytes : Content}
    (h : o ∉ files) : files.map (appended content o bytes) = files.map content := by
  apply List.map_congr_left
  intro f hf
  have hne : f ≠ o := by
    rintro rfl
    exact h hf
  exact Function.update_of_ne hne _ _

/-- **One file is copied.** -/
theorem filesLoop_file {k : Kern} {chunks : List Content} {numBytes : Int} (hne : f ≠ o)
    (hout : k.world.Appends out o) (hopen : env.opens k.world.opens = none)
    (hchunks : Chunks env size k.world.reads (k.world.content f) chunks)
    (hok : WritesSucceed env k.world.writes chunks) (hint : int32 numBytes = numBytes) :
    ∃ k' : Kern,
      k'.world.content = appended k.world.content o (kept env k.world.writes chunks) ∧
      k'.world.opens = k.world.opens + 1 ∧
      k'.world.reads = k.world.reads + chunks.length + 1 ∧
      k'.world.writes = k.world.writes + chunks.length ∧ k'.world.Appends out o ∧
      ∀ fuel rest ofileCount, chunks.length + 1 ≤ fuel →
        filesLoop env size fuel out (f :: rest) k numBytes ofileCount
          = filesLoop env size fuel out rest k'
            (int32 (numBytes + (kept env k.world.writes chunks).length)) (ofileCount + 1) := by
  obtain ⟨fd, w₁, hopened, hfd, hcontent₁, hopens₁, hreads₁, hwrites₁, hcopying⟩ :=
    ksysOpen_input f hopen hout
  obtain ⟨w₂, hcopy, hcontent₂, hopens₂, hreads₂, hwrites₂, hout₂⟩ :=
    copyLoop_chunks hne hchunks hcopying hreads₁ (by rw [hcontent₁, List.drop_zero])
      (by rw [hwrites₁]; exact hok) hint
  obtain ⟨hout₃, hcontent₃, hopens₃, hreads₃, hwrites₃⟩ := ksysClose_appends hout₂ hcopying.ne
  obtain ⟨k', hworld, hnext⟩ := filesLoop_next hopened hfd hcopy
  rw [hwrites₁] at hnext
  refine ⟨k', ?_, ?_, ?_, ?_, ?_, fun fuel rest ofileCount => hnext fuel rest ofileCount⟩
  · rw [hworld, hcontent₃, hcontent₂, hcontent₁, hwrites₁]
  · rw [hworld, hopens₃, hopens₂, hopens₁]
  · rw [hworld, hreads₃, hreads₂, hreads₁]
  · rw [hworld, hwrites₃, hwrites₂, hwrites₁]
  · rw [hworld]
    exact hout₃

/-- **The files are copied one after the other.** -/
theorem filesLoop_merges : ∀ {files : List FileId} {k : Kern} {chunks : List Content}
    {numBytes : Int} (ofileCount : Nat), o ∉ files → k.world.Appends out o →
    (∀ i < files.length, env.opens (k.world.opens + i) = none) →
    ReadPlan env size k.world.reads (files.map k.world.content) chunks →
    WritesSucceed env k.world.writes chunks → int32 numBytes = numBytes →
    ∃ fuel k', filesLoop env size fuel out files k numBytes ofileCount
        = some (.done, int32 (numBytes + (kept env k.world.writes chunks).length),
          ofileCount + files.length, k') ∧
      k'.world.content o = k.world.content o ++ kept env k.world.writes chunks := by
  intro files
  induction files with
  | nil =>
      intro k chunks numBytes ofileCount _ _ _ hplan _ hint
      cases hplan
      refine ⟨0, k, ?_, ?_⟩
      · rw [kept, List.length_nil, Int.natCast_zero, Int.add_zero, hint]
        rfl
      · rw [kept, List.append_nil]
  | cons f rest ih =>
      intro k chunks numBytes ofileCount hfiles hout hopens hplan hok hint
      rw [List.mem_cons, not_or] at hfiles
      rw [List.map_cons] at hplan
      cases hplan with
      | @cons _ _ _ chunks later hfile hlater =>
          rw [WritesSucceed.append_iff] at hok
          obtain ⟨k₁, hcontent, hopens₁, hreads, hwrites, hout₁, hnext⟩ :=
            filesLoop_file (Ne.symm hfiles.1) hout (hopens 0 (by simp)) hfile hok.1 hint
          obtain ⟨fuel, k', hrun, hdone⟩ := ih (ofileCount + 1) hfiles.2 hout₁
            (by
              intro i hi
              rw [hopens₁, Nat.add_right_comm]
              exact hopens (i + 1) (by simpa using hi))
            (by rw [hreads, hcontent, map_appended hfiles.2]; exact hlater)
            (by rw [hwrites]; exact hok.2)
            (int32_int32 (numBytes + (kept env k.world.writes chunks).length))
          refine ⟨max fuel (chunks.length + 1), k', ?_, ?_⟩
          · rw [hnext _ _ _ (le_max_right _ _), filesLoop_mono (le_max_left _ _) hrun,
              int32_add_int32, hwrites, kept_append, List.length_append, List.length_cons,
              Int.natCast_add, Int.add_assoc, Nat.add_right_comm ofileCount, Nat.add_assoc]
          · rw [hdone, hcontent, hwrites, kept_append]
            unfold appended
            rw [Function.update_self, List.append_assoc]

/-- **And there is no other way to come to the end of the last file.** -/
theorem filesLoop_plan : ∀ {files : List FileId} {fuel : Nat} {k k' : Kern}
    {numBytes numBytes' : Int} {ofileCount ofileCount' : Nat}, o ∉ files →
    k.world.Appends out o → int32 numBytes = numBytes →
    filesLoop env size fuel out files k numBytes ofileCount
      = some (.done, numBytes', ofileCount', k') →
    (∀ i < files.length, env.opens (k.world.opens + i) = none) ∧
      ∃ chunks, ReadPlan env size k.world.reads (files.map k.world.content) chunks ∧
        WritesSucceed env k.world.writes chunks := by
  intro files
  induction files with
  | nil =>
      intro fuel k k' numBytes numBytes' ofileCount ofileCount' _ _ _ _
      exact ⟨fun i hi => absurd hi (by simp), [], ReadPlan.nil, fun i hi => absurd hi (by simp)⟩
  | cons f rest ih =>
      intro fuel k k' numBytes numBytes' ofileCount ofileCount' hfiles hout hint h
      rw [List.mem_cons, not_or] at hfiles
      have hnonneg : 0 ≤ (ksysOpen env k.world f .rdonly).1 := by
        by_contra hneg
        rw [filesLoop_cons, if_pos (by omega)] at h
        simp at h
      have hopen := opens_of_nonneg hnonneg
      obtain ⟨fd, w₁, hopened, hfd, hcontent₁, -, hreads₁, hwrites₁, hcopying⟩ :=
        ksysOpen_input f hopen hout
      have hfirst := h
      rw [filesLoop_cons, hopened, if_neg (by simp only; omega)] at hfirst
      obtain ⟨⟨exit, numBytes₂, w₂⟩, hcopy, hrest⟩ := Option.bind_eq_some_iff.mp hfirst
      cases exit with
      | fail errno => simp at hrest
      | eof =>
          obtain ⟨chunks, hchunks, hok⟩ := copyLoop_plan (Ne.symm hfiles.1) hcopying hcopy
          rw [hreads₁, hcontent₁, List.drop_zero] at hchunks
          rw [hwrites₁] at hok
          obtain ⟨k₁, hcontent, hopens, hreads, hwrites, hout₁, hnext⟩ :=
            filesLoop_file (Ne.symm hfiles.1) hout hopen hchunks hok hint
          have hmore := filesLoop_mono (le_max_left fuel (chunks.length + 1)) h
          rw [hnext _ _ _ (le_max_right _ _)] at hmore
          obtain ⟨hopens', later, hlater, hok'⟩ := ih hfiles.2 hout₁ (int32_int32 _) hmore
          refine ⟨?_, chunks ++ later, ?_, ?_⟩
          · intro i hi
            cases i with
            | zero => exact hopen
            | succ i =>
                have hi' := hopens' i (by simpa using hi)
                rw [hopens, Nat.add_right_comm] at hi'
                exact hi'
          · rw [hreads, hcontent, map_appended hfiles.2] at hlater
            exact ReadPlan.cons hchunks hlater
          · rw [hwrites] at hok'
            exact WritesSucceed.append_iff.mpr ⟨hok, hok'⟩

/-! ### Chunks that are kept whole -/

/-- Every write keeps its whole chunk. -/
def KeepsAll (env : Env) (n : Nat) (chunks : List Content) : Prop :=
  ∀ i (h : i < chunks.length), written env (n + i) chunks[i] = chunks[i]

theorem KeepsAll.cons_iff {n : Nat} {chunk : Content} {chunks : List Content} :
    KeepsAll env n (chunk :: chunks) ↔
      written env n chunk = chunk ∧ KeepsAll env (n + 1) chunks := by
  constructor
  · intro h
    refine ⟨h 0 (by simp), fun i hi => ?_⟩
    have hnext := h (i + 1) (by simpa using hi)
    rw [show n + (i + 1) = n + 1 + i by omega] at hnext
    exact hnext
  · rintro ⟨hhead, htail⟩ i hi
    cases i with
    | zero => exact hhead
    | succ i =>
        have hnext := htail i (by simpa using hi)
        rw [show n + 1 + i = n + (i + 1) by omega] at hnext
        exact hnext

theorem kept_length_le (env : Env) (n : Nat) (chunks : List Content) :
    (kept env n chunks).length ≤ chunks.flatten.length := by
  induction chunks generalizing n with
  | nil => exact le_refl _
  | cons chunk chunks ih =>
      have hhead := ((env.writes n).isPrefix_moved chunk).length_le
      have htail := ih (n + 1)
      rw [kept, List.length_append, List.flatten_cons, List.length_append]
      exact Nat.add_le_add hhead htail

/-- Nothing is lost when every chunk is kept whole, and only then. -/
theorem kept_eq_flatten_iff {n : Nat} {chunks : List Content} :
    kept env n chunks = chunks.flatten ↔ KeepsAll env n chunks := by
  induction chunks generalizing n with
  | nil => exact ⟨fun _ i hi => absurd hi (by simp), fun _ => rfl⟩
  | cons chunk chunks ih =>
      rw [KeepsAll.cons_iff, ← ih, kept, List.flatten_cons]
      constructor
      · intro heq
        have hhead := (env.writes n).isPrefix_moved chunk
        have htail := kept_length_le env (n + 1) chunks
        have hlen := congrArg List.length heq
        rw [List.length_append, List.length_append] at hlen
        have hle : (written env n chunk).length ≤ chunk.length := hhead.length_le
        have hwhole : written env n chunk = chunk := hhead.eq_of_length (by
          show (written env n chunk).length = chunk.length
          omega)
        rw [hwhole] at heq
        exact ⟨hwhole, List.append_cancel_left heq⟩
      · rintro ⟨hhead, htail⟩
        rw [hhead, htail]

/-! ### The whole call -/

/-- The files once the output has been opened. -/
def atStart (w : World) (p : Params) : FileId → Content :=
  if p.oflags.trunc then Function.update w.content p.outfile [] else w.content

/-- The contents of the inputs, in order. -/
def inputs (w : World) (p : Params) : List Content := p.infiles.map w.content

/-- The sum of the sizes of the inputs. -/
def totalSize (w : World) (p : Params) : Nat := (p.infiles.map fun f => (w.content f).length).sum

theorem inputs_flatten_length (w : World) (p : Params) :
    (inputs w p).flatten.length = totalSize w p := by
  unfold inputs totalSize
  rw [List.length_flatten, List.map_map]
  rfl

/-- The `for` loop starts with the output open. -/
theorem beforeFiles_ready {k : Kern} (hopen : env.opens k.world.opens = none)
    (happend : p.oflags.append = true) :
    0 ≤ (ksysOpen env k.world p.outfile p.oflags).1 ∧
      (beforeFiles env k p).world.content = atStart k.world p ∧
      (beforeFiles env k p).world.opens = k.world.opens + 1 ∧
      (beforeFiles env k p).world.reads = k.world.reads ∧
      (beforeFiles env k p).world.writes = k.world.writes ∧
      (beforeFiles env k p).world.Appends (ksysOpen env k.world p.outfile p.oflags).1
        p.outfile := by
  have hopened : ksysOpen env k.world p.outfile p.oflags = ((k.world.fds.lowest : Int),
      ⟨atStart k.world p, k.world.fds.set k.world.fds.lowest (some ⟨p.outfile, 0, true⟩),
        k.world.opens + 1, k.world.reads, k.world.writes⟩) := by
    unfold ksysOpen
    rw [hopen, happend]
    rfl
  rw [beforeFiles_world, hopened]
  refine ⟨Int.natCast_nonneg _, rfl, rfl, rfl, rfl, 0, ?_⟩
  rw [World.lookup_set, if_pos rfl]

theorem map_atStart (w : World) (hsep : p.outfile ∉ p.infiles) :
    p.infiles.map (atStart w p) = inputs w p := by
  unfold inputs atStart
  apply List.map_congr_left
  intro f hf
  have hne : f ≠ p.outfile := by
    rintro rfl
    exact hsep hf
  split
  · exact Function.update_of_ne hne _ _
  · rfl

/-- No call fails: the output and the inputs can be opened, and the reads cut the inputs into
chunks that the writes take some bytes of. -/
structure NoFailure (env : Env) (size : Nat) (w : World) (p : Params) (chunks : List Content) :
    Prop where
  opens : ∀ i ≤ p.infiles.length, env.opens (w.opens + i) = none
  reads : ReadPlan env size w.reads (inputs w p) chunks
  writes : WritesSucceed env w.writes chunks

/-- When no call fails the loops come to their end. -/
theorem NoFailure.filesLoop {k : Kern} {chunks : List Content} (hsep : p.outfile ∉ p.infiles)
    (happend : p.oflags.append = true) (h : NoFailure env size k.world p chunks) :
    0 ≤ (ksysOpen env k.world p.outfile p.oflags).1 ∧
      ∃ fuel k', filesLoop env size fuel (ksysOpen env k.world p.outfile p.oflags).1 p.infiles
          (beforeFiles env k p) 0 0
          = some (.done, int32 (kept env k.world.writes chunks).length, p.infiles.length, k') ∧
        k'.world.content p.outfile
          = atStart k.world p p.outfile ++ kept env k.world.writes chunks := by
  obtain ⟨hnonneg, hcontent, hopens, hreads, hwrites, hout⟩ :=
    beforeFiles_ready (h.opens 0 (Nat.zero_le _)) happend
  have hplan := h.reads
  rw [← map_atStart k.world hsep, ← hcontent, ← hreads] at hplan
  have hok := h.writes
  rw [← hwrites] at hok
  obtain ⟨fuel, k', hloop, hdone⟩ := filesLoop_merges 0 hsep hout
    (by
      intro i hi
      rw [hopens, Nat.add_assoc]
      exact h.opens (1 + i) (by omega))
    hplan hok (int32_of_lt (le_refl 0) (by omega))
  refine ⟨hnonneg, fuel, k', ?_, ?_⟩
  · rw [hloop, hwrites, Int.zero_add, Nat.zero_add]
  · rw [hdone, hcontent, hwrites]

/-- And when they do no call has failed. -/
theorem noFailure_of_done {k k' : Kern} {fuel ofileCount : Nat} {numBytes : Int}
    (hsep : p.outfile ∉ p.infiles) (happend : p.oflags.append = true)
    (hopened : 0 ≤ (ksysOpen env k.world p.outfile p.oflags).1)
    (h : filesLoop env size fuel (ksysOpen env k.world p.outfile p.oflags).1 p.infiles
      (beforeFiles env k p) 0 0 = some (.done, numBytes, ofileCount, k')) :
    ∃ chunks, NoFailure env size k.world p chunks := by
  have hopen₀ := opens_of_nonneg hopened
  obtain ⟨-, hcontent, hopens, hreads, hwrites, hout⟩ := beforeFiles_ready hopen₀ happend
  obtain ⟨hinputs, chunks, hplan, hok⟩ :=
    filesLoop_plan hsep hout (int32_of_lt (le_refl 0) (by omega)) h
  rw [hreads, hcontent, map_atStart k.world hsep] at hplan
  rw [hwrites] at hok
  refine ⟨chunks, ?_, hplan, hok⟩
  intro i hi
  cases i with
  | zero => exact hopen₀
  | succ i =>
      have hinput := hinputs i (by omega)
      rw [hopens, Nat.add_assoc, Nat.add_comm 1 i] at hinput
      exact hinput

/-- Reads that succeed cut every file into chunks. -/
theorem chunks_exist (hsize : 1 ≤ size) (hreads : ∀ n, (env.reads n).Succeeds) (n : Nat)
    (rest : Content) : ∃ chunks, Chunks env size n rest chunks := by
  by_cases hend : found env size n rest = []
  · exact ⟨[], Chunks.eof (hreads n) hend⟩
  · have hpos := List.length_pos_of_ne_nil hend
    have hle := (isPrefix_found env size n rest).length_le
    obtain ⟨chunks, hchunks⟩ :=
      chunks_exist hsize hreads (n + 1) (rest.drop (found env size n rest).length)
    exact ⟨_ :: chunks, Chunks.chunk (hreads n) hend hchunks⟩
  termination_by rest.length
  decreasing_by
    rw [List.length_drop]
    omega

theorem readPlan_exists (hsize : 1 ≤ size) (hreads : ∀ n, (env.reads n).Succeeds)
    (files : List Content) : ∀ n, ∃ chunks, ReadPlan env size n files chunks := by
  induction files with
  | nil =>
      intro n
      exact ⟨[], ReadPlan.nil⟩
  | cons file files ih =>
      intro n
      obtain ⟨chunks, hchunks⟩ := chunks_exist hsize hreads n file
      obtain ⟨later, hlater⟩ := ih (n + chunks.length + 1)
      exact ⟨chunks ++ later, ReadPlan.cons hchunks hlater⟩

theorem Chunks.length_le {n : Nat} {rest : Content} {chunks : List Content}
    (h : Chunks env size n rest chunks) : ∀ chunk ∈ chunks, chunk.length ≤ size := by
  induction h with
  | eof => simp
  | @chunk n rest chunks _ _ _ ih =>
      intro chunk hmem
      rcases List.mem_cons.mp hmem with rfl | hlater
      · exact ((env.reads n).isPrefix_moved _).length_le.trans (List.length_take_le _ _)
      · exact ih chunk hlater

theorem ReadPlan.length_le {n : Nat} {files chunks : List Content}
    (h : ReadPlan env size n files chunks) : ∀ chunk ∈ chunks, chunk.length ≤ size := by
  induction h with
  | nil => simp
  | cons hfile _ ih =>
      intro chunk hmem
      rcases List.mem_append.mp hmem with hchunks | hlater
      · exact hfile.length_le chunk hchunks
      · exact ih chunk hlater

/-- Every write accepts as much as the buffer holds. -/
def WritesFull (env : Env) (size : Nat) : Prop :=
  ∀ n, ∃ limit, size ≤ limit ∧ env.writes n = .upTo limit

theorem WritesFull.written {n : Nat} {chunk : Content} (h : WritesFull env size)
    (hle : chunk.length ≤ size) : written env n chunk = chunk := by
  obtain ⟨limit, hlimit, hwrites⟩ := h n
  unfold Xmerge.written
  rw [hwrites]
  exact List.take_of_length_le (by omega)

/-- What the caller is to see: the number of bytes, the number of files, and the inputs behind
what was in the output. -/
def merged (w : World) (p : Params) : Int × Option Nat × Content :=
  (totalSize w p, some p.infiles.length, atStart w p p.outfile ++ (inputs w p).flatten)

/-- A run in which no call fails and every write keeps its whole chunk. -/
def ErrorFree (env : Env) (size : Nat) (w : World) (p : Params) : Prop :=
  ∃ chunks, NoFailure env size w p chunks ∧ KeepsAll env w.writes chunks

theorem ErrorFree.filesLoop {k : Kern} (hsize : 1 ≤ size) (hsep : p.outfile ∉ p.infiles)
    (happend : p.oflags.append = true) (hsmall : totalSize k.world p < 2147483648)
    (h : ErrorFree env size k.world p) :
    0 ≤ (ksysOpen env k.world p.outfile p.oflags).1 ∧
      ∃ fuel k', filesLoop env size fuel (ksysOpen env k.world p.outfile p.oflags).1 p.infiles
          (beforeFiles env k p) 0 0
          = some (.done, (totalSize k.world p : Int), p.infiles.length, k') ∧
        k'.world.content p.outfile
          = atStart k.world p p.outfile ++ (inputs k.world p).flatten := by
  obtain ⟨chunks, hplan, hall⟩ := h
  have hkept : kept env k.world.writes chunks = (inputs k.world p).flatten := by
    rw [kept_eq_flatten_iff.mpr hall, hplan.reads.flatten hsize]
  have hrun := hplan.filesLoop hsep happend
  rw [hkept, inputs_flatten_length, int32_of_lt (by omega) (by omega)] at hrun
  exact hrun

theorem errorFree_of_full (hsize : 1 ≤ size) (hopens : ∀ n, env.opens n = none)
    (hreads : ∀ n, (env.reads n).Succeeds)
    (hwrites : WritesFull env size) :
    ErrorFree env size w p := by
  obtain ⟨chunks, hplan⟩ := readPlan_exists hsize hreads (inputs w p) w.reads
  refine ⟨chunks, ⟨fun i _ => hopens _, hplan, ?_⟩, ?_⟩
  · intro i _
    obtain ⟨limit, -, hlimit⟩ := hwrites (w.writes + i)
    exact ⟨limit, hlimit⟩
  · intro i hi
    exact hwrites.written (hplan.length_le _ (List.getElem_mem hi))

/--
**`xmerge` concatenates.**  When no call fails and no write is short, both implementations
return: the output is what it was, followed by the inputs in order, however the reads cut
them, the value is the sum of their sizes, and the count is their number.
-/
theorem xmerge_concatenates {env usrEnv : Env} {size usrSize : Nat} {k : Kern} {u : User}
    (hworld : u.world = k.world) (hsize : 1 ≤ size) (husrSize : 1 ≤ usrSize)
    (hsep : p.outfile ∉ p.infiles) (happend : p.oflags.append = true)
    (hsmall : totalSize k.world p < 2147483648) (hkern : ErrorFree env size k.world p)
    (huser : ErrorFree usrEnv usrSize k.world p) :
    ∃ enough, ∀ fuel ≥ enough,
      (xmerge env size fuel k p false).map (Return.view Kern.world p)
          = some (merged k.world p) ∧
        (usrXmerge usrEnv usrSize fuel u p).map (Return.view User.world p)
          = some (merged k.world p) := by
  obtain ⟨hopen, fuel₁, k₁, hloop₁, hdone₁⟩ := hkern.filesLoop hsize hsep happend hsmall
  obtain ⟨husrOpen, fuel₂, k₂, hloop₂, hdone₂⟩ := huser.filesLoop husrSize hsep happend hsmall
  refine ⟨max fuel₁ fuel₂, fun fuel hfuel => ⟨?_, ?_⟩⟩
  · have hrun := filesLoop_mono ((le_max_left fuel₁ fuel₂).trans hfuel) hloop₁
    rw [xmerge_view, if_neg (by omega), hrun, Option.map_some]
    simp only [FilesExit.value, hdone₁]
    rfl
  · have hrun := filesLoop_mono ((le_max_right fuel₁ fuel₂).trans hfuel) hloop₂
    rw [usrXmerge_view fuel hworld, if_neg (by omega), hrun, Option.map_some]
    simp only [FilesExit.usrValue, hdone₂]
    rfl

/-- Calls that do not fail; a read finds, and a write keeps, at most so many bytes. -/
def chunked (reads writes : Nat) : Env where
  opens := fun _ => none
  reads := fun _ => .upTo reads
  writes := fun _ => .upTo writes

/-- One byte in the output, three bytes and two bytes in the inputs. -/
def threeFiles : FileId → Content
  | 1 => [7]
  | 2 => [1, 2, 3]
  | 3 => [4, 5]
  | _ => []

def twoInputs : Params where
  outfile := 1
  infiles := [2, 3]
  oflags := { append := true, trunc := false }
  few := by decide

/-- Two files, read by the one in chunks of two bytes and by the other byte by byte. -/
theorem xmerge_concatenates_two : ∃ enough, ∀ fuel ≥ enough,
    (xmerge (chunked 2 4096) 4096 fuel ⟨.idle threeFiles, .userDs, []⟩ twoInputs false).map
        (Return.view Kern.world twoInputs) = some (5, some 2, [7, 1, 2, 3, 4, 5]) ∧
      (usrXmerge (chunked 1 4096) 1024 fuel ⟨.idle threeFiles, 0⟩ twoInputs).map
        (Return.view User.world twoInputs) = some (5, some 2, [7, 1, 2, 3, 4, 5]) :=
  xmerge_concatenates (k := ⟨.idle threeFiles, .userDs, []⟩) (u := ⟨.idle threeFiles, 0⟩)
    rfl (by decide) (by decide) (by decide) rfl (by decide)
    (errorFree_of_full (by decide) (fun _ => rfl) (fun _ => ⟨2, rfl⟩)
      (fun _ => ⟨4096, by decide, rfl⟩))
    (errorFree_of_full (by decide) (fun _ => rfl) (fun _ => ⟨1, rfl⟩)
      (fun _ => ⟨4096, by decide, rfl⟩))

/-- The call returns when the `for` loop has come to its end. -/
theorem xmerge_of_done {k k' : Kern} {fuel ofileCount : Nat} {numBytes : Int}
    (hopen : 0 ≤ (ksysOpen env k.world p.outfile p.oflags).1)
    (hloop : filesLoop env size fuel (ksysOpen env k.world p.outfile p.oflags).1 p.infiles
      (beforeFiles env k p) 0 0 = some (.done, numBytes, ofileCount, k')) :
    ∃ r, xmerge env size fuel k p false = some r ∧ r.value = numBytes ∧
      r.ofileCount = some ofileCount ∧
      r.state.world.content p.outfile = k'.world.content p.outfile := by
  have hview : (xmerge env size fuel k p false).map (Return.view Kern.world p) = _ :=
    xmerge_view fuel k
  rw [if_neg (by omega), hloop, Option.map_some] at hview
  obtain ⟨r, hr, hrview⟩ := Option.map_eq_some_iff.mp hview
  exact ⟨r, hr, congrArg Prod.fst hrview, congrArg (fun v => v.2.1) hrview,
    congrArg (fun v => v.2.2) hrview⟩

/-- When no call fails, what is appended and counted is what the writes have kept. -/
theorem NoFailure.xmerge {k : Kern} {chunks : List Content} (hsep : p.outfile ∉ p.infiles)
    (happend : p.oflags.append = true) (h : NoFailure env size k.world p chunks) :
    ∃ fuel r, xmerge env size fuel k p false = some r ∧
      r.value = int32 (kept env k.world.writes chunks).length ∧
      r.state.world.content p.outfile
        = atStart k.world p p.outfile ++ kept env k.world.writes chunks := by
  obtain ⟨hopen, fuel, k', hloop, hdone⟩ := h.filesLoop hsep happend
  obtain ⟨r, hr, hvalue, -, hcontent⟩ := xmerge_of_done hopen hloop
  rw [hdone] at hcontent
  exact ⟨fuel, r, hr, hvalue, hcontent⟩

theorem CopyFails.neg {w w' : World} {code : Int} (h : CopyFails env size inFd out w code w') :
    code < 0 := by
  induction h with
  | read hread => exact hread
  | write _ hwrite => exact hwrite
  | later _ _ _ ih => exact ih

theorem FilesFail.neg {files : List FileId} {call : FailingCall} {code : Int}
    (h : FilesFail env size out files w call code) : code < 0 := by
  induction h with
  | opening hopen => exact hopen
  | copying _ hcopy => exact hcopy.neg
  | later _ _ _ ih => exact ih

/-- A call that returns a count is one in which no call has failed. -/
theorem noFailure_of_nonneg {k : Kern} {fuel : Nat} {r : Return Kern}
    (hsep : p.outfile ∉ p.infiles) (happend : p.oflags.append = true)
    (h : xmerge env size fuel k p false = some r) (hnonneg : 0 ≤ r.value) :
    ∃ chunks, NoFailure env size k.world p chunks := by
  rcases xmerge_cases h with ⟨hneg, hvalue⟩ |
    ⟨hopen, exit, numBytes, ofileCount, k', hloop, hvalue, -, -⟩
  · omega
  · have hsound : ∀ call code, exit.failure = some (call, code) → code < 0 :=
      fun call code hfail => (filesLoop_sound hloop hfail).neg
    cases exit with
    | done => exact noFailure_of_done hsep happend hopen hloop
    | close1 errno =>
        have hneg := hsound .opening errno rfl
        have hval : r.value = errno := hvalue
        omega
    | close2 inFd errno =>
        have hneg := hsound .copying errno rfl
        have hval : r.value = errno := hvalue
        omega

/-- A call that returns a count has appended all the inputs and counted all their bytes. -/
def LosesNothing (env : Env) (size : Nat) (w : World) (p : Params) : Prop :=
  ∀ (fuel : Nat) (k : Kern) (r : Return Kern), k.world = w →
    xmerge env size fuel k p false = some r → 0 ≤ r.value →
    r.state.world.content p.outfile = atStart w p p.outfile ++ (inputs w p).flatten ∧
      r.value = totalSize w p

/--
**Short writes.**  A call that returns a count has appended the inputs and counted them,
exactly when no write of a call in which nothing fails keeps less than its chunk.
-/
theorem losesNothing_iff (hsize : 1 ≤ size) (hsep : p.outfile ∉ p.infiles)
    (happend : p.oflags.append = true) (hsmall : totalSize w p < 2147483648) :
    LosesNothing env size w p ↔
      ∀ chunks, NoFailure env size w p chunks → KeepsAll env w.writes chunks := by
  constructor
  · intro hlossless chunks hplan
    obtain ⟨fuel, r, hr, hvalue, hcontent⟩ :=
      NoFailure.xmerge (k := ⟨w, .userDs, []⟩) hsep happend hplan
    have hle := kept_length_le env w.writes chunks
    rw [hplan.reads.flatten hsize, inputs_flatten_length] at hle
    rw [int32_of_lt (by omega) (by simp only; omega)] at hvalue
    have hsame := (hlossless fuel _ r rfl hr (by omega)).1
    rw [hcontent, ← hplan.reads.flatten hsize] at hsame
    exact kept_eq_flatten_iff.mp (List.append_cancel_left hsame)
  · rintro hall fuel k r rfl hr hnonneg
    obtain ⟨chunks, hplan⟩ := noFailure_of_nonneg hsep happend hr hnonneg
    have hkept : kept env k.world.writes chunks = (inputs k.world p).flatten := by
      rw [kept_eq_flatten_iff.mpr (hall chunks hplan), hplan.reads.flatten hsize]
    obtain ⟨fuel', r', hr', hvalue, hcontent⟩ := hplan.xmerge hsep happend
    obtain rfl := xmerge_unique hr hr'
    rw [hkept] at hvalue hcontent
    rw [inputs_flatten_length, int32_of_lt (by omega) (by omega)] at hvalue
    exact ⟨hcontent, hvalue⟩

/-- When the writes accept whole chunks, nothing is lost. -/
theorem losesNothing_whole : LosesNothing (chunked 2 4096) 4096 (.idle threeFiles) twoInputs :=
  (losesNothing_iff (by decide) (by decide) rfl (by decide)).mpr fun _ hplan i hi =>
    WritesFull.written (fun _ => ⟨4096, le_refl _, rfl⟩) (hplan.reads.length_le _ (List.getElem_mem hi))

/-- Writes that accept a byte each: the call returns a count, and bytes are missing. -/
theorem losesNothing_fails_on_short_writes :
    ¬LosesNothing (chunked 4096 1) 4096 (.idle threeFiles) twoInputs := by
  intro h
  have hvalue := (h 2 ⟨.idle threeFiles, .userDs, []⟩ _ rfl rfl (by decide)).2
  revert hvalue
  decide

end Xmerge
