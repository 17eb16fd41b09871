/-
What one file is cut into, and what of it arrives.

`Copying` describes the descriptors while a file is copied: the input stands at a
position, the output appends.  Each iteration of the `while` loop moves one chunk, and
as long as the input is another file than the output, the chunks are those of the
input as it was when it was opened (`Chunks`).  What a write does not accept of its
chunk is not written again: the next read goes on behind it (`kept`).
-/
import KernelProgramming.Proofs.Xmerge.Agree

namespace Xmerge

variable {env : Env} {size : Nat} {inFd out : Int} {w : World} {f o : FileId} {pos : Nat}

/-! ### One call -/

/-- The call does not fail. -/
def Answer.Succeeds (a : Answer) : Prop := ∃ limit, a = .upTo limit

/-- How much of the bytes the call moves. -/
def Answer.moved (bytes : Content) : Answer → Content
  | .fail _ => []
  | .upTo limit => bytes.take (max 1 limit)

theorem Answer.moved_eq_nil {a : Answer} {bytes : Content} (h : a.Succeeds) :
    a.moved bytes = [] ↔ bytes = [] := by
  obtain ⟨limit, rfl⟩ := h
  show bytes.take (max 1 limit) = [] ↔ _
  rw [List.take_eq_nil_iff]
  constructor
  · rintro (hzero | hnil)
    · omega
    · exact hnil
  · exact Or.inr

theorem Answer.isPrefix_moved (a : Answer) (bytes : Content) : a.moved bytes <+: bytes := by
  cases a with
  | fail e => exact List.nil_prefix
  | upTo limit => exact List.take_prefix _ _

/-- The descriptor appends to the file. -/
def World.Appends (w : World) (fd : Int) (o : FileId) : Prop :=
  ∃ pos, w.lookup fd = some { file := o, pos := pos, append := true }

/-- A file is copied: `inFd` has read it up to `pos`, and `out` appends. -/
structure Copying (w : World) (inFd out : Int) (f o : FileId) (pos : Nat) : Prop where
  input : w.lookup inFd = some { file := f, pos := pos, append := false }
  output : w.Appends out o

theorem World.nonneg_of_lookup {fd : Int} {g : OpenFile} (h : w.lookup fd = some g) : 0 ≤ fd := by
  have hopen : w.Open fd := by
    unfold World.Open
    rw [h]
    simp
  exact hopen.nonneg

theorem Copying.ne (h : Copying w inFd out f o pos) : inFd ≠ out := by
  rintro rfl
  obtain ⟨pos', hout⟩ := h.output
  have hin := h.input
  rw [hout] at hin
  simp at hin

/-- What the n-th read finds when `rest` is left of the file. -/
def found (env : Env) (size n : Nat) (rest : Content) : Content :=
  (env.reads n).moved (rest.take size)

/-- What the n-th write keeps of its buffer. -/
def written (env : Env) (n : Nat) (buffer : Content) : Content := (env.writes n).moved buffer

/-- A read that succeeds: the descriptor moves on, and nothing else happens. -/
theorem ksysRead_succeeds {append : Bool} {got : Content}
    (hin : w.lookup inFd = some ⟨f, pos, append⟩) (hok : (env.reads w.reads).Succeeds)
    (hgot : got = found env size w.reads ((w.content f).drop pos)) :
    ∃ fds, ksysRead env w inFd size
        = ((got.length : Int), got, { w with fds := fds, reads := w.reads + 1 }) ∧
      ∀ fd, World.lookup { w with fds := fds, reads := w.reads + 1 } fd
        = if fd = inFd then some ⟨f, pos + got.length, append⟩ else w.lookup fd := by
  obtain ⟨limit, hlimit⟩ := hok
  have hnonneg := World.nonneg_of_lookup hin
  refine ⟨w.fds.set inFd.toNat (some ⟨f, pos + got.length, append⟩), ?_, ?_⟩
  · unfold ksysRead
    rw [hin, hlimit, hgot, found, hlimit]
    rfl
  · intro fd
    rw [World.lookup_set, Int.toNat_of_nonneg hnonneg]

theorem Copying.read (h : Copying w inFd out f o pos) (hok : (env.reads w.reads).Succeeds)
    {got : Content} (hgot : got = found env size w.reads ((w.content f).drop pos)) :
    ∃ fds, ksysRead env w inFd size
        = ((got.length : Int), got, { w with fds := fds, reads := w.reads + 1 }) ∧
      Copying { w with fds := fds, reads := w.reads + 1 } inFd out f o (pos + got.length) := by
  obtain ⟨fds, hread, hlookup⟩ := ksysRead_succeeds h.input hok hgot
  obtain ⟨pos', hout⟩ := h.output
  refine ⟨fds, hread, ?_, pos', ?_⟩
  · rw [hlookup, if_pos rfl]
  · rw [hlookup, if_neg h.ne.symm]
    exact hout

theorem writeAt_length (content bytes : Content) :
    writeAt content content.length bytes = content ++ bytes := by
  unfold writeAt
  simp

/-- The files after bytes have been appended to one of them. -/
def appended (content : FileId → Content) (o : FileId) (bytes : Content) : FileId → Content :=
  Function.update content o (content o ++ bytes)

/-- A write that succeeds: the bytes go to the end of the file or to where the descriptor is, and
the descriptor moves behind them. -/
theorem ksysWrite_succeeds {append : Bool} {start : Nat} {buffer put : Content}
    (hout : w.lookup out = some ⟨o, pos, append⟩) (hok : (env.writes w.writes).Succeeds)
    (hput : put = written env w.writes buffer)
    (hstart : start = if append then (w.content o).length else pos) :
    ∃ fds, ksysWrite env w out buffer = ((put.length : Int),
        { w with
          content := Function.update w.content o (writeAt (w.content o) start put)
          fds := fds
          writes := w.writes + 1 }) ∧
      ∀ content fd, World.lookup ⟨content, fds, w.opens, w.reads, w.writes + 1⟩ fd
        = if fd = out then some ⟨o, start + put.length, append⟩ else w.lookup fd := by
  obtain ⟨limit, hlimit⟩ := hok
  have hnonneg := World.nonneg_of_lookup hout
  refine ⟨w.fds.set out.toNat (some ⟨o, start + put.length, append⟩), ?_, ?_⟩
  · unfold ksysWrite
    rw [hout, hlimit, hput, written, hlimit, hstart]
    rfl
  · intro content fd
    rw [World.lookup_set, Int.toNat_of_nonneg hnonneg]

theorem Copying.write (h : Copying w inFd out f o pos) (hok : (env.writes w.writes).Succeeds)
    {buffer put : Content} (hput : put = written env w.writes buffer) :
    ∃ fds, ksysWrite env w out buffer = ((put.length : Int),
        { w with content := appended w.content o put, fds := fds, writes := w.writes + 1 }) ∧
      Copying { w with content := appended w.content o put, fds := fds, writes := w.writes + 1 }
        inFd out f o pos := by
  obtain ⟨pos', hout⟩ := h.output
  obtain ⟨fds, hwrite, hlookup⟩ := ksysWrite_succeeds hout hok hput (if_pos rfl).symm
  rw [writeAt_length] at hwrite
  refine ⟨fds, hwrite, ?_, (w.content o).length + put.length, ?_⟩
  · rw [hlookup, if_neg h.ne]
    exact h.input
  · rw [hlookup, if_pos rfl]

/-! ### One iteration -/

/-- **An iteration that moves a chunk.** -/
theorem copyLoop_round (h : Copying w inFd out f o pos) (hread : (env.reads w.reads).Succeeds)
    (hwrite : (env.writes w.writes).Succeeds) {got put : Content}
    (hgot : got = found env size w.reads ((w.content f).drop pos)) (hmore : got ≠ [])
    (hput : put = written env w.writes got) :
    ∃ w' : World, w'.content = appended w.content o put ∧ w'.opens = w.opens ∧
      w'.reads = w.reads + 1 ∧ w'.writes = w.writes + 1 ∧
      Copying w' inFd out f o (pos + got.length) ∧
      ∀ fuel numBytes, copyLoop env size inFd out (fuel + 1) w numBytes
        = copyLoop env size inFd out fuel w' (int32 (numBytes + put.length)) := by
  obtain ⟨fds, hr, hcopying⟩ := h.read hread hgot
  obtain ⟨fds', hw, hcopying'⟩ := hcopying.write hwrite hput
  have hpos : 0 < got.length := List.length_pos_of_ne_nil hmore
  refine ⟨_, ?_, ?_, ?_, ?_, hcopying', ?_⟩
  · rfl
  · rfl
  · rfl
  · rfl
  · intro fuel numBytes
    rw [copyLoop_succ, hr]
    simp only
    rw [hw, if_neg (by omega), if_neg (by omega), if_neg (by simp only; omega)]

/-- The iteration that finds nothing. -/
theorem copyLoop_eof (h : Copying w inFd out f o pos) (hread : (env.reads w.reads).Succeeds)
    (hend : found env size w.reads ((w.content f).drop pos) = []) :
    ∃ w' : World, w'.content = w.content ∧ w'.opens = w.opens ∧ w'.reads = w.reads + 1 ∧
      w'.writes = w.writes ∧ Copying w' inFd out f o pos ∧
      ∀ fuel numBytes, copyLoop env size inFd out (fuel + 1) w numBytes
        = some (.eof, numBytes, w') := by
  obtain ⟨fds, hr, hcopying⟩ := h.read hread hend.symm
  refine ⟨_, ?_, ?_, ?_, ?_, hcopying, ?_⟩
  · rfl
  · rfl
  · rfl
  · rfl
  · intro fuel numBytes
    rw [copyLoop_succ, hr, if_neg (by simp), if_pos (by simp)]

/-- An iteration in which the read fails. -/
theorem copyLoop_read_fails (h : Copying w inFd out f o pos) {e : Errno}
    (hread : env.reads w.reads = .fail e) (fuel : Nat) (numBytes : Int) :
    ∃ w', copyLoop env size inFd out (fuel + 1) w numBytes
      = some (.fail (-e.code), numBytes, w') := by
  have hpos := e.pos
  have heq : ksysRead env w inFd size
      = (-(e.code : Int), [], { w with reads := w.reads + 1 }) := by
    unfold ksysRead
    rw [h.input, hread]
  refine ⟨{ w with reads := w.reads + 1 }, ?_⟩
  rw [copyLoop_succ, heq, if_pos (by simp only; omega)]

/-- An iteration in which the write fails. -/
theorem copyLoop_write_fails (h : Copying w inFd out f o pos)
    (hread : (env.reads w.reads).Succeeds)
    (hmore : found env size w.reads ((w.content f).drop pos) ≠ []) {e : Errno}
    (hwrite : env.writes w.writes = .fail e) (fuel : Nat) (numBytes : Int) :
    ∃ w', copyLoop env size inFd out (fuel + 1) w numBytes
      = some (.fail (-e.code), numBytes, w') := by
  have hpos := e.pos
  have hlen := List.length_pos_of_ne_nil hmore
  obtain ⟨fds, hr, hcopying⟩ := h.read hread
    (show _ = found env size w.reads ((w.content f).drop pos) from rfl)
  obtain ⟨pos', hout⟩ := hcopying.output
  have heq : ∀ buffer, ksysWrite env { w with fds := fds, reads := w.reads + 1 } out buffer
      = (-(e.code : Int), { w with fds := fds, reads := w.reads + 1, writes := w.writes + 1 }) := by
    intro buffer
    unfold ksysWrite
    rw [hout]
    simp only
    rw [hwrite]
  refine ⟨{ w with fds := fds, reads := w.reads + 1, writes := w.writes + 1 }, ?_⟩
  rw [copyLoop_succ, hr, if_neg (by simp only; omega), if_neg (by simp only; omega)]
  simp only
  rw [heq, if_pos (by simp only; omega)]

/-! ### A file -/

/-- How the reads from the n-th on cut a file, of which `rest` is left, into chunks. -/
inductive Chunks (env : Env) (size : Nat) : Nat → Content → List Content → Prop
  | eof {n : Nat} {rest : Content} (hread : (env.reads n).Succeeds)
      (hend : found env size n rest = []) : Chunks env size n rest []
  | chunk {n : Nat} {rest : Content} {chunks : List Content} (hread : (env.reads n).Succeeds)
      (hmore : found env size n rest ≠ [])
      (hrest : Chunks env size (n + 1) (rest.drop (found env size n rest).length) chunks) :
      Chunks env size n rest (found env size n rest :: chunks)

/-- What the writes from the n-th on keep of the chunks. -/
def kept (env : Env) : Nat → List Content → Content
  | _, [] => []
  | n, chunk :: chunks => written env n chunk ++ kept env (n + 1) chunks

/-- None of the writes of the chunks fails. -/
def WritesSucceed (env : Env) (n : Nat) (chunks : List Content) : Prop :=
  ∀ i < chunks.length, (env.writes (n + i)).Succeeds

theorem WritesSucceed.head {n : Nat} {chunk : Content} {chunks : List Content}
    (h : WritesSucceed env n (chunk :: chunks)) : (env.writes n).Succeeds := h 0 (by simp)

theorem WritesSucceed.tail {n : Nat} {chunk : Content} {chunks : List Content}
    (h : WritesSucceed env n (chunk :: chunks)) : WritesSucceed env (n + 1) chunks := by
  intro i hi
  have hnext := h (i + 1) (by simpa using hi)
  rw [show n + (i + 1) = n + 1 + i by omega] at hnext
  exact hnext

theorem WritesSucceed.cons {n : Nat} {chunk : Content} {chunks : List Content}
    (hhead : (env.writes n).Succeeds) (htail : WritesSucceed env (n + 1) chunks) :
    WritesSucceed env n (chunk :: chunks) := by
  intro i hi
  cases i with
  | zero => exact hhead
  | succ i =>
      have hnext := htail i (by simpa using hi)
      rw [show n + 1 + i = n + (i + 1) by omega] at hnext
      exact hnext

theorem found_eq_nil {n : Nat} {rest : Content} (hsize : 1 ≤ size)
    (hread : (env.reads n).Succeeds) : found env size n rest = [] ↔ rest = [] := by
  unfold found
  rw [Answer.moved_eq_nil hread, List.take_eq_nil_iff]
  constructor
  · rintro (hzero | hnil)
    · omega
    · exact hnil
  · exact Or.inr

theorem isPrefix_found (env : Env) (size n : Nat) (rest : Content) :
    found env size n rest <+: rest :=
  ((env.reads n).isPrefix_moved _).trans (List.take_prefix _ _)

/-- The chunks of a file are the file. -/
theorem Chunks.flatten {n : Nat} {rest : Content} {chunks : List Content} (hsize : 1 ≤ size)
    (h : Chunks env size n rest chunks) : chunks.flatten = rest := by
  induction h with
  | eof hread hend =>
      rw [(found_eq_nil hsize hread).mp hend]
      rfl
  | @chunk n rest chunks hread hmore hrest ih =>
      rw [List.flatten_cons, ih]
      exact List.prefix_iff_eq_append.mp (isPrefix_found env size n rest)

/-! ### Counting -/

theorem int32_add_int32 (a b : Int) : int32 (int32 a + b) = int32 (a + b) := by
  unfold int32
  rw [Int.bmod_add_bmod]

theorem int32_int32 (a : Int) : int32 (int32 a) = int32 a := by
  unfold int32
  rw [Int.bmod_bmod]

theorem int32_of_lt {a : Int} (hnonneg : 0 ≤ a) (hlt : a < 2147483648) : int32 a = a := by
  unfold int32
  rw [Int.bmod_eq_of_le (by omega) (by omega)]

/-! ### The loop -/

/-- **A file that is not the output is copied, chunk by chunk.** -/
theorem copyLoop_chunks (hne : f ≠ o) {n : Nat} {rest : Content} {chunks : List Content}
    (hchunks : Chunks env size n rest chunks) : ∀ {w : World} {pos : Nat} {numBytes : Int},
    Copying w inFd out f o pos → w.reads = n → (w.content f).drop pos = rest →
    WritesSucceed env w.writes chunks → int32 numBytes = numBytes →
    ∃ w', copyLoop env size inFd out (chunks.length + 1) w numBytes
        = some (.eof, int32 (numBytes + (kept env w.writes chunks).length), w') ∧
      w'.content = appended w.content o (kept env w.writes chunks) ∧ w'.opens = w.opens ∧
      w'.reads = w.reads + chunks.length + 1 ∧ w'.writes = w.writes + chunks.length ∧
      w'.Appends out o := by
  induction hchunks with
  | eof hread hend =>
      intro w pos numBytes h hn hrest _ hint
      subst hn hrest
      obtain ⟨w', hcontent, hopens, hreads, hwrites, hcopying, hloop⟩ := copyLoop_eof h hread hend
      refine ⟨w', ?_, ?_, hopens, hreads, hwrites, hcopying.output⟩
      · rw [List.length_nil, hloop, kept, List.length_nil, Int.natCast_zero, Int.add_zero, hint]
      · rw [hcontent, kept, appended, List.append_nil, Function.update_eq_self]
  | @chunk n rest chunks hread hmore _ ih =>
      intro w pos numBytes h hn hrest hok hint
      subst hn hrest
      obtain ⟨w₁, hcontent, hopens, hreads, hwrites, hcopying, hloop⟩ :=
        copyLoop_round h hread hok.head rfl hmore rfl
      have hsame : w₁.content f = w.content f := by
        rw [hcontent, appended, Function.update_of_ne hne]
      obtain ⟨w', hrun, hcontent', hopens', hreads', hwrites', hout⟩ :=
        ih hcopying hreads (by rw [hsame, List.drop_drop]) (by rw [hwrites]; exact hok.tail)
          (int32_int32 _)
      refine ⟨w', ?_, ?_, ?_, ?_, ?_, hout⟩
      · rw [List.length_cons, hloop, hrun, int32_add_int32, hwrites, kept, List.length_append,
          Int.natCast_add, Int.add_assoc]
      · rw [hcontent', hcontent, hwrites, kept]
        unfold appended
        rw [Function.update_self, Function.update_idem, List.append_assoc]
      · rw [hopens', hopens]
      · rw [hreads', hreads, List.length_cons]
        omega
      · rw [hwrites', hwrites, List.length_cons]
        omega

/-- And no other way: when the loop comes to the end of the file, no call has failed. -/
theorem copyLoop_plan (hne : f ≠ o) : ∀ {fuel : Nat} {w w' : World} {pos : Nat}
    {numBytes numBytes' : Int}, Copying w inFd out f o pos →
    copyLoop env size inFd out fuel w numBytes = some (.eof, numBytes', w') →
    ∃ chunks, Chunks env size w.reads ((w.content f).drop pos) chunks ∧
      WritesSucceed env w.writes chunks := by
  intro fuel
  induction fuel with
  | zero =>
      intro w w' pos numBytes numBytes' _ hloop
      simp [copyLoop] at hloop
  | succ fuel ih =>
      intro w w' pos numBytes numBytes' h hloop
      cases hread : env.reads w.reads with
      | fail e =>
          obtain ⟨w₁, hfails⟩ := copyLoop_read_fails h hread fuel numBytes
          rw [hfails] at hloop
          simp at hloop
      | upTo limit =>
          have hok : (env.reads w.reads).Succeeds := ⟨limit, hread⟩
          by_cases hend : found env size w.reads ((w.content f).drop pos) = []
          · exact ⟨[], Chunks.eof hok hend, fun i hi => absurd hi (by simp)⟩
          · cases hwrite : env.writes w.writes with
            | fail e =>
                obtain ⟨w₁, hfails⟩ := copyLoop_write_fails h hok hend hwrite fuel numBytes
                rw [hfails] at hloop
                simp at hloop
            | upTo limit' =>
                obtain ⟨w₁, hcontent, hopens, hreads, hwrites, hcopying, hround⟩ :=
                  copyLoop_round h hok ⟨limit', hwrite⟩ rfl hend rfl
                rw [hround] at hloop
                have hsame : w₁.content f = w.content f := by
                  rw [hcontent, appended, Function.update_of_ne hne]
                obtain ⟨chunks, hchunks, hrest⟩ := ih hcopying hloop
                rw [hreads, hsame, ← List.drop_drop] at hchunks
                rw [hwrites] at hrest
                exact ⟨_ :: chunks, Chunks.chunk hok hend hchunks,
                  WritesSucceed.cons ⟨limit', hwrite⟩ hrest⟩

end Xmerge
