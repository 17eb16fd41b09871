/-
The count of bytes.

`num_bytes` is an `int`, and the call returns it as a `long`.  While no call fails and
every write is whole, as many bytes are written as there are in the inputs; so the count
is right as long as they are less than two gigabytes, and the value is negative or too
small from there on.

The output may be among the inputs and need not be opened for appending, so all that is
followed here is the lengths: `Output` says how long the files are when so many bytes have
been written, and where the next ones go.
-/
import KernelProgramming.Proofs.Xmerge.Exits

namespace Xmerge

variable {env : Env} {size before pos done : Nat} {inFd out : Int} {w w' : World} {f o : FileId}
  {append : Bool} {len : FileId → Nat} {p : Params} {k : Kern}

theorem length_writeAt (content bytes : Content) (pos : Nat) :
    (writeAt content pos bytes).length = max content.length (pos + bytes.length) := by
  unfold writeAt
  rw [List.length_append, List.length_append, List.length_append, List.length_take,
    List.length_replicate, List.length_drop]
  omega

/-! ### Lengths -/

/-- `out` is the output `o`.  The files had the lengths `len` when it was opened, and `done` bytes
have been written since. -/
structure Output (len : FileId → Nat) (append : Bool) (o : FileId) (out : Int) (w : World)
    (done : Nat) : Prop where
  lookup : ∃ pos, w.lookup out = some ⟨o, pos, append⟩ ∧ (append = false → pos = done)
  others : ∀ g, g ≠ o → (w.content g).length = len g
  length : (w.content o).length = if append then len o + done else max (len o) done

/-- An input has been read up to `pos`, and as much has been written.  If it is the output, it is
read ahead of the writes only as long as nothing was there before. -/
structure Halfway (len : FileId → Nat) (append : Bool) (o : FileId) (out : Int) (w : World)
    (before : Nat) (f : FileId) (inFd : Int) (pos : Nat) : Prop where
  output : Output len append o out w (before + pos)
  input : w.lookup inFd = some ⟨f, pos, false⟩
  ne : inFd ≠ out
  within : pos ≤ (w.content f).length
  appending : f = o → append = true → len o + before = 0 → pos = 0
  writing : f = o → append = false → before = 0 → pos ≤ len o

/-- At the end of the input all of it has been read. -/
theorem Halfway.pos_eq (h : Halfway len append o out w before f inFd pos)
    (hend : (w.content f).length ≤ pos) : pos = len f := by
  have hwithin := h.within
  by_cases hself : f = o
  · have hlength := h.output.length
    have happending := h.appending hself
    have hwriting := h.writing hself
    rw [hself] at hend hwithin ⊢
    cases append with
    | true =>
        rw [if_pos rfl] at hlength
        have hzero := happending rfl (by omega)
        omega
    | false =>
        rw [if_neg (by simp)] at hlength
        have hle := hwriting rfl (by omega)
        omega
  · rw [← h.output.others f hself]
    omega

/-- A whole write. -/
theorem Output.write (h : Output len append o out w done) (hwrites : WritesFull env size)
    {buffer : Content} (hsize : buffer.length ≤ size) :
    ∃ w', ksysWrite env w out buffer = ((buffer.length : Int), w') ∧
      Output len append o out w' (done + buffer.length) ∧
      (∀ g, (w.content g).length ≤ (w'.content g).length) ∧
      ∀ fd, fd ≠ out → w'.lookup fd = w.lookup fd := by
  obtain ⟨pos, hout, hpos⟩ := h.lookup
  have hlength := h.length
  generalize hstart : (if append then (w.content o).length else pos) = start
  obtain ⟨fds, hw, hlookup⟩ :=
    ksysWrite_succeeds hout (hwrites.succeeds _) (hwrites.written hsize).symm hstart.symm
  refine ⟨_, hw, ⟨⟨start + buffer.length, ?_, ?_⟩, ?_, ?_⟩, ?_, ?_⟩
  · rw [hlookup, if_pos rfl]
  · intro hfalse
    rw [hfalse, if_neg (by simp), hpos hfalse] at hstart
    omega
  · intro g hg
    show (Function.update w.content o _ g).length = len g
    rw [Function.update_of_ne hg]
    exact h.others g hg
  · show (Function.update w.content o _ o).length = _
    rw [Function.update_self, length_writeAt, ← hstart]
    cases append with
    | true =>
        rw [if_pos rfl] at hlength ⊢
        rw [if_pos rfl]
        omega
    | false =>
        rw [if_neg (by simp)] at hlength ⊢
        rw [if_neg (by simp), hpos rfl]
        omega
  · intro g
    show (w.content g).length ≤ (Function.update w.content o _ g).length
    by_cases hg : g = o
    · rw [hg, Function.update_self, length_writeAt]
      omega
    · rw [Function.update_of_ne hg]
  · intro fd hfd
    rw [hlookup, if_neg hfd]

/-- A read that succeeds finds no more than there is. -/
theorem length_found_le {w : World} (env : Env) (size : Nat) (f : FileId) (pos : Nat) :
    (found env size w.reads ((w.content f).drop pos)).length ≤ (w.content f).length - pos ∧
      (found env size w.reads ((w.content f).drop pos)).length ≤ size :=
  ⟨(isPrefix_found env size w.reads _).length_le.trans_eq List.length_drop,
    ((env.reads w.reads).isPrefix_moved _).length_le.trans (List.length_take_le _ _)⟩

/-- **A round of the copy loop**: a read that succeeds, and if it finds anything a whole write. -/
theorem Halfway.round (h : Halfway len append o out w before f inFd pos)
    (hread : (env.reads w.reads).Succeeds) (hwrites : WritesFull env size) {got : Content}
    (hgot : got = found env size w.reads ((w.content f).drop pos)) :
    ∃ w₁, ksysRead env w inFd size = ((got.length : Int), got, w₁) ∧
      (got = [] → Halfway len append o out w₁ before f inFd pos) ∧
      ∃ w₂, ksysWrite env w₁ out got = ((got.length : Int), w₂) ∧
        (got ≠ [] → Halfway len append o out w₂ before f inFd (pos + got.length)) := by
  obtain ⟨fds, hr, hlookup⟩ := ksysRead_succeeds h.input hread hgot
  obtain ⟨opos, hout, hopos⟩ := h.output.lookup
  obtain ⟨hle, hsize⟩ := length_found_le (w := w) env size f pos
  rw [← hgot] at hle hsize
  have houtput : Output len append o out { w with fds := fds, reads := w.reads + 1 }
      (before + pos) := by
    refine ⟨⟨opos, ?_, hopos⟩, h.output.others, h.output.length⟩
    rw [hlookup, if_neg h.ne.symm, hout]
  obtain ⟨w₂, hw, houtput', hgrows, hsame⟩ := houtput.write hwrites hsize
  refine ⟨_, hr, ?_, w₂, hw, ?_⟩
  · intro hnil
    refine ⟨houtput, ?_, h.ne, h.within, h.appending, h.writing⟩
    rw [hlookup, if_pos rfl, hnil]
    rfl
  · intro hmore
    have hpos := List.length_pos_of_ne_nil hmore
    have hwithin := h.within
    have hlength := h.output.length
    rw [Nat.add_assoc] at houtput'
    refine ⟨houtput', ?_, h.ne, ?_, ?_, ?_⟩
    · rw [hsame inFd h.ne, hlookup, if_pos rfl]
    · have hgrown := hgrows f
      simp only at hgrown
      omega
    · intro hself happend hnone
      -- There would be nothing to read.
      rw [happend, if_pos rfl] at hlength
      rw [hself] at hle
      omega
    · intro hself happend hnone
      have hbefore := h.writing hself happend hnone
      rw [happend, if_neg (by simp)] at hlength
      rw [hself] at hle
      omega

/-! ### One file -/

/-- An input is opened. -/
theorem Output.opening (h : Output len append o out w done) (f : FileId)
    (hopen : env.opens w.opens = none) :
    0 ≤ (ksysOpen env w f .rdonly).1 ∧
      Halfway len append o out (ksysOpen env w f .rdonly).2 done f (ksysOpen env w f .rdonly).1 0 := by
  obtain ⟨pos, hout, hpos⟩ := h.lookup
  have hopened : ksysOpen env w f .rdonly = ((w.fds.lowest : Int),
      ⟨w.content, w.fds.set w.fds.lowest (some ⟨f, 0, false⟩), w.opens + 1, w.reads, w.writes⟩) := by
    unfold ksysOpen
    rw [hopen]
    rfl
  have hne : (w.fds.lowest : Int) ≠ out := by
    intro heq
    rw [← heq, World.lookup_natCast, w.fds.lowest_free] at hout
    simp at hout
  rw [hopened]
  refine ⟨Int.natCast_nonneg _, ⟨⟨pos, ?_, hpos⟩, h.others, h.length⟩, ?_, hne, Nat.zero_le _,
    fun _ _ _ => rfl, fun _ _ _ => Nat.zero_le _⟩
  · rw [World.lookup_set, if_neg hne.symm]
    exact hout
  · rw [World.lookup_set, if_pos rfl]

/-- The input is closed. -/
theorem Halfway.closing (h : Halfway len append o out w before f inFd pos) :
    Output len append o out (ksysClose w inFd).2 (before + pos) := by
  obtain ⟨opos, hout, hopos⟩ := h.output.lookup
  have hopen : w.Open inFd := by
    unfold World.Open
    rw [h.input]
    simp
  refine ⟨⟨opos, ?_, hopos⟩, ?_, ?_⟩
  · rw [ksysClose_lookup hopen, if_neg h.ne.symm, hout]
  · rw [ksysClose_content]
    exact h.output.others
  · rw [ksysClose_content]
    exact h.output.length

/-- **The copy of a file has the length of the file.** -/
theorem CopyTrace.length_accepted {calls : List Transfer} {exit : CopyExit} (hsize : 1 ≤ size)
    (hreads : ∀ n, (env.reads n).Succeeds) (hwrites : WritesFull env size)
    (h : CopyTrace env size inFd out w calls exit w') : ∀ {pos : Nat},
    Halfway len append o out w before f inFd pos →
    exit = .eof ∧ pos + (accepted calls).length = len f ∧
      Halfway len append o out w' before f inFd (len f) := by
  induction h with
  | @eof w hread =>
      intro pos hhalf
      obtain ⟨w₁, hr, hend, -⟩ := hhalf.round (hreads _) hwrites rfl
      rw [hr] at hread ⊢
      have hnil := List.length_eq_zero_iff.mp (Int.natCast_eq_zero.mp hread)
      have hdrop := (found_eq_nil hsize (hreads _)).mp hnil
      have hpos := hhalf.pos_eq (List.drop_eq_nil_iff.mp hdrop)
      refine ⟨rfl, ?_, ?_⟩
      · rw [accepted, accepted, List.length_nil, Nat.add_zero, hpos]
      · rw [← hpos]
        exact hend hnil
  | @readFails w hread =>
      intro pos hhalf
      obtain ⟨w₁, hr, -⟩ := hhalf.round (hreads _) hwrites rfl
      rw [hr] at hread
      simp only at hread
      omega
  | @writeFails w w₁ answer buffer hread _ hwrite =>
      intro pos hhalf
      obtain ⟨w₁', hr, -, w₂, hw, -⟩ := hhalf.round (hreads _) hwrites rfl
      rw [hread] at hr
      cases hr
      rw [hw] at hwrite
      simp only at hwrite
      omega
  | @next w w₁ w' answer buffer calls exit hread hpos _ _ ih =>
      intro pos hhalf
      obtain ⟨w₁', hr, -, w₂, hw, hnext⟩ := hhalf.round (hreads _) hwrites rfl
      rw [hread] at hr
      cases hr
      rw [hw] at ih
      obtain ⟨hexit, hlength, hlast⟩ := ih (hnext (by rintro hnil; rw [hnil] at hpos; simp at hpos))
      refine ⟨hexit, ?_, hlast⟩
      rw [accepted, accepted, hw, Int.toNat_natCast, List.take_length, List.length_append]
      omega

/-- The copy loop comes to the end of a file that is not the output. -/
theorem copyLoop_ends (hsize : 1 ≤ size) (hreads : ∀ n, (env.reads n).Succeeds)
    (hwrites : WritesFull env size) (hne : f ≠ o) (numBytes : Int)
    (h : Halfway len append o out w before f inFd pos) :
    ∃ fuel numBytes' w', copyLoop env size inFd out fuel w numBytes = some (.eof, numBytes', w') ∧
      Halfway len append o out w' before f inFd (len f) := by
  induction hleft : len f - pos using Nat.strong_induction_on generalizing w pos numBytes with
  | _ left ih =>
      obtain ⟨w₁, hr, hend, w₂, hw, hnext⟩ := h.round (hreads _) hwrites rfl
      by_cases hnil : found env size w.reads ((w.content f).drop pos) = []
      · have hdrop := (found_eq_nil hsize (hreads _)).mp hnil
        have hpos := h.pos_eq (List.drop_eq_nil_iff.mp hdrop)
        refine ⟨1, numBytes, w₁, ?_, ?_⟩
        · rw [copyLoop_succ, hr, hnil, if_neg (by simp), if_pos (by simp)]
        · rw [← hpos]
          exact hend hnil
      · have hlen := List.length_pos_of_ne_nil hnil
        have hthere := (hnext hnil).within
        rw [(hnext hnil).output.others f hne] at hthere
        obtain ⟨fuel, numBytes', w', hloop, hlast⟩ := ih _ (by omega) (int32 (numBytes + _))
          (hnext hnil) rfl
        refine ⟨fuel + 1, numBytes', w', ?_, hlast⟩
        rw [copyLoop_succ, hr]
        simp only
        rw [hw, if_neg (by omega), if_neg (by omega), if_neg (by simp only; omega)]
        exact hloop

/-! ### All the files -/

/-- **As many bytes are written as there are in the files**, and every file is read to its end. -/
theorem FilesTrace.length_accepted {files : List FileId} {calls : List Transfer} (hsize : 1 ≤ size)
    (hopens : ∀ n, env.opens n = none) (hreads : ∀ n, (env.reads n).Succeeds)
    (hwrites : WritesFull env size) (h : FilesTrace env size out files w calls w') :
    ∀ {done : Nat}, Output len append o out w done →
    (accepted calls).length = (files.map len).sum ∧ endsOfFile calls = files.length := by
  induction h with
  | done =>
      intro done _
      exact ⟨rfl, rfl⟩
  | @opening path rest w hneg =>
      intro done hout
      have hnonneg := (hout.opening path (hopens _)).1
      omega
  | @copying path rest w w' calls errno _ hcopy =>
      intro done hout
      have hhalf := (hout.opening path (hopens _)).2
      have hexit := (hcopy.length_accepted hsize hreads hwrites hhalf).1
      cases hexit
  | @next path rest w w₁ w' calls later _ hcopy _ ih =>
      intro done hout
      have hhalf := (hout.opening path (hopens _)).2
      obtain ⟨-, hlength, hlast⟩ := hcopy.length_accepted hsize hreads hwrites hhalf
      obtain ⟨hrest, hends⟩ := ih hlast.closing
      constructor
      · rw [accepted_append, List.length_append, hrest, List.map_cons, List.sum_cons]
        omega
      · rw [endsOfFile_append, hcopy.endsOfFile, if_pos rfl, hends, List.length_cons, Nat.add_comm]

theorem filesLoop_ends (hsize : 1 ≤ size) (hopens : ∀ n, env.opens n = none)
    (hreads : ∀ n, (env.reads n).Succeeds) (hwrites : WritesFull env size) :
    ∀ {files : List FileId} {k : Kern} {done : Nat} (numBytes : Int) (ofileCount : Nat),
    o ∉ files → Output len append o out k.world done →
    ∃ fuel r, filesLoop env size fuel out files k numBytes ofileCount = some r := by
  intro files
  induction files with
  | nil =>
      intro k done numBytes ofileCount _ _
      exact ⟨0, _, rfl⟩
  | cons path rest ih =>
      intro k done numBytes ofileCount hfiles hout
      rw [List.mem_cons, not_or] at hfiles
      obtain ⟨hfd, hhalf⟩ := hout.opening path (hopens _)
      obtain ⟨fuel, numBytes', w', hcopy, hlast⟩ :=
        copyLoop_ends hsize hreads hwrites (Ne.symm hfiles.1) numBytes hhalf
      obtain ⟨k', hworld, hnext⟩ :=
        filesLoop_next (show ksysOpen env k.world path .rdonly
          = ((ksysOpen env k.world path .rdonly).1, (ksysOpen env k.world path .rdonly).2) from rfl)
          hfd hcopy
      have hclosed := hlast.closing
      rw [← hworld] at hclosed
      obtain ⟨fuel', r, hrun⟩ := ih numBytes' (ofileCount + 1) hfiles.2 hclosed
      refine ⟨max fuel fuel', r, ?_⟩
      rw [hnext _ _ _ (le_max_left _ _)]
      exact filesLoop_mono (le_max_right _ _) hrun

/-! ### The call -/

/-- The output has just been opened. -/
theorem output_opened (hopen : env.opens k.world.opens = none) :
    0 ≤ (ksysOpen env k.world p.outfile p.oflags).1 ∧
      Output (fun f => (atStart k.world p f).length) p.oflags.append p.outfile
        (ksysOpen env k.world p.outfile p.oflags).1 (ksysOpen env k.world p.outfile p.oflags).2 0 := by
  have hopened : ksysOpen env k.world p.outfile p.oflags = ((k.world.fds.lowest : Int),
      ⟨atStart k.world p, k.world.fds.set k.world.fds.lowest (some ⟨p.outfile, 0, p.oflags.append⟩),
        k.world.opens + 1, k.world.reads, k.world.writes⟩) := by
    unfold ksysOpen
    rw [hopen]
    rfl
  rw [hopened]
  refine ⟨Int.natCast_nonneg _, ⟨0, ?_, fun _ => rfl⟩, fun _ _ => rfl, ?_⟩
  · rw [World.lookup_set, if_pos rfl]
  · show (atStart k.world p p.outfile).length = _
    rw [Nat.add_zero, Nat.max_eq_left (Nat.zero_le _), ite_self]

/-- The sum of the sizes of the inputs when the output has been opened. -/
def sizeAtStart (w : World) (p : Params) : Nat :=
  (p.infiles.map fun f => (atStart w p f).length).sum

/-- The value of a call is the number of bytes it has written. -/
def CountsBytes (env : Env) (size : Nat) (k : Kern) (p : Params) (r : Return Kern) : Prop :=
  ∃ calls w', FilesTrace env size (ksysOpen env k.world p.outfile p.oflags).1 p.infiles
      (ksysOpen env k.world p.outfile p.oflags).2 calls w' ∧
    0 ≤ r.value ∧ r.value = (accepted calls).length

/-- What the call has written and what it says it has. -/
theorem xmerge_value {fuel : Nat} {r : Return Kern} (hsize : 1 ≤ size)
    (hopens : ∀ n, env.opens n = none) (hreads : ∀ n, (env.reads n).Succeeds)
    (hwrites : WritesFull env size) (h : xmerge env size fuel k p false = some r) :
    r.value = int32 (sizeAtStart k.world p) ∧
      ∃ calls w', FilesTrace env size (ksysOpen env k.world p.outfile p.oflags).1 p.infiles
        (ksysOpen env k.world p.outfile p.oflags).2 calls w' := by
  obtain ⟨hopen, hout⟩ := output_opened (p := p) (hopens k.world.opens)
  have hzero : int32 0 = 0 := int32_of_lt (le_refl 0) (by omega)
  rw [xmerge_eq, if_neg (by omega)] at h
  obtain ⟨⟨exit, numBytes, ofileCount, k'⟩, hloop, rfl⟩ := Option.map_eq_some_iff.mp h
  obtain ⟨calls, htrace, hbytes, hcount⟩ := filesLoop_trace hzero hloop
  obtain ⟨hlength, hends⟩ := htrace.length_accepted hsize hopens hreads hwrites hout
  have hdone : exit = .done := by
    by_contra hleft
    have hlt := filesLoop_count hloop hleft
    simp only at hlt
    omega
  refine ⟨?_, calls, k'.world, htrace⟩
  rw [hdone]
  show numBytes = _
  rw [hbytes, hlength, Int.zero_add]
  rfl

theorem xmerge_ends (hsize : 1 ≤ size) (hopens : ∀ n, env.opens n = none)
    (hreads : ∀ n, (env.reads n).Succeeds) (hwrites : WritesFull env size)
    (hsep : p.outfile ∉ p.infiles) : ∃ fuel r, xmerge env size fuel k p false = some r := by
  obtain ⟨hopen, hout⟩ := output_opened (p := p) (hopens k.world.opens)
  rw [← beforeFiles_world] at hout
  obtain ⟨fuel, r, hloop⟩ := filesLoop_ends hsize hopens hreads hwrites 0 0 hsep hout
  have heq := xmerge_eq env size fuel k p
  rw [if_neg (by omega), hloop, Option.map_some] at heq
  exact ⟨fuel, _, heq⟩

/--
**When the count of bytes is right.**  Let no call fail and every write be whole.  If the
output is not among the inputs the call returns; and when it returns, its value is the number
of bytes that have been written, and not negative, exactly if the inputs are smaller than two
gigabytes together.
-/
theorem countsBytes_iff (hsize : 1 ≤ size) (hopens : ∀ n, env.opens n = none)
    (hreads : ∀ n, (env.reads n).Succeeds) (hwrites : WritesFull env size) :
    (p.outfile ∉ p.infiles → ∃ fuel r, xmerge env size fuel k p false = some r) ∧
      ∀ fuel r, xmerge env size fuel k p false = some r →
        (CountsBytes env size k p r ↔ sizeAtStart k.world p < 2147483648) := by
  refine ⟨xmerge_ends hsize hopens hreads hwrites, ?_⟩
  intro fuel r h
  obtain ⟨-, hout⟩ := output_opened (p := p) (hopens k.world.opens)
  obtain ⟨hvalue, calls, w', htrace⟩ := xmerge_value hsize hopens hreads hwrites h
  constructor
  · rintro ⟨calls', w'', htrace', hnonneg, hcount⟩
    have hlength : _ = sizeAtStart k.world p :=
      (htrace'.length_accepted hsize hopens hreads hwrites hout).1
    have hlt : int32 (sizeAtStart k.world p) < 2147483648 := Int.bmod_lt (by decide)
    omega
  · intro hsmall
    have hlength : _ = sizeAtStart k.world p :=
      (htrace.length_accepted hsize hopens hreads hwrites hout).1
    rw [int32_of_lt (by omega) (by omega)] at hvalue
    exact ⟨calls, w', htrace, by omega, by omega⟩

/-- A file of `n` bytes. -/
def oneFile (n : Nat) : Kern :=
  ⟨.idle fun f => if f = 2 then List.replicate n 0 else [], .userDs, []⟩

def oneInput : Params where
  outfile := 1
  infiles := [2]
  oflags := { append := true, trunc := false }
  few := by decide

theorem sizeAtStart_oneFile (n : Nat) : sizeAtStart (oneFile n).world oneInput = n :=
  List.length_replicate

theorem writesFull_chunked : WritesFull (chunked 4096 4096) 4096 := fun _ => ⟨4096, le_refl _, rfl⟩

theorem countsBytes_small :
    (∃ fuel r, xmerge (chunked 4096 4096) 4096 fuel ⟨.idle threeFiles, .userDs, []⟩ twoInputs false
        = some r) ∧
      ∀ fuel r, xmerge (chunked 4096 4096) 4096 fuel ⟨.idle threeFiles, .userDs, []⟩ twoInputs false
        = some r → CountsBytes (chunked 4096 4096) 4096 ⟨.idle threeFiles, .userDs, []⟩ twoInputs r := by
  obtain ⟨hreturns, hcounts⟩ := countsBytes_iff (k := ⟨.idle threeFiles, .userDs, []⟩)
    (p := twoInputs) (by decide) (fun _ => rfl) (fun _ => ⟨4096, rfl⟩) writesFull_chunked
  exact ⟨hreturns (by decide), fun fuel r h => (hcounts fuel r h).mpr (by decide)⟩

/-- The call succeeds, and its value is negative. -/
theorem countsBytes_fails_at_twoGigabytes :
    ∃ fuel r, xmerge (chunked 4096 4096) 4096 fuel (oneFile 2147483648) oneInput false = some r ∧
      r.value < 0 ∧ ¬CountsBytes (chunked 4096 4096) 4096 (oneFile 2147483648) oneInput r := by
  obtain ⟨fuel, r, hreturns⟩ := xmerge_ends (p := oneInput) (k := oneFile 2147483648) (by decide)
    (fun _ => rfl) (fun _ => ⟨4096, rfl⟩) writesFull_chunked (by decide)
  have hvalue := (xmerge_value (by decide) (fun _ => rfl) (fun _ => ⟨4096, rfl⟩) writesFull_chunked
    hreturns).1
  rw [sizeAtStart_oneFile] at hvalue
  have hnegative : int32 (2147483648 : Nat) < 0 := by decide
  refine ⟨fuel, r, hreturns, by omega, ?_⟩
  rintro ⟨calls, w', -, hnonneg, -⟩
  omega

end Xmerge
