/-
The reads and writes of a call, one after the other.

An observer notes every `ksys_read` with its answer, and every `ksys_write` with its
buffer and its answer.  From these notes alone one can tell how many inputs have been
read to their end, and which bytes the writes have accepted.  The loops keep two
variables for that, `ofile_count` and `num_bytes`, and the second is an `int`.
-/
import KernelProgramming.Proofs.Xmerge.Alias

namespace Xmerge

variable {env : Env} {size : Nat} {inFd out fd : Int} {w w' : World}

/-- A read or a write, and its answer. -/
inductive Transfer
  | read (answer : Int)
  | write (buffer : Content) (answer : Int)
  deriving DecidableEq, Repr

/-- The bytes the writes have accepted. -/
def accepted : List Transfer → Content
  | [] => []
  | .read _ :: calls => accepted calls
  | .write buffer answer :: calls => buffer.take answer.toNat ++ accepted calls

/-- How often a read has found the end of a file. -/
def endsOfFile : List Transfer → Nat
  | [] => 0
  | .read answer :: calls => (if answer = 0 then 1 else 0) + endsOfFile calls
  | .write _ _ :: calls => endsOfFile calls

theorem accepted_append (calls later : List Transfer) :
    accepted (calls ++ later) = accepted calls ++ accepted later := by
  induction calls with
  | nil => rfl
  | cons call calls ih =>
      cases call with
      | read answer => exact ih
      | write buffer answer =>
          rw [List.cons_append, accepted, accepted, ih, List.append_assoc]

theorem endsOfFile_append (calls later : List Transfer) :
    endsOfFile (calls ++ later) = endsOfFile calls + endsOfFile later := by
  induction calls with
  | nil => exact (Nat.zero_add _).symm
  | cons call calls ih =>
      cases call with
      | read answer => rw [List.cons_append, endsOfFile, endsOfFile, ih, Nat.add_assoc]
      | write buffer answer => exact ih

/-! ### One file -/

/-- The calls made while a file is copied, and how the copying ends. -/
inductive CopyTrace (env : Env) (size : Nat) (inFd out : Int) :
    World → List Transfer → CopyExit → World → Prop
  | eof {w : World} (hread : (ksysRead env w inFd size).1 = 0) :
      CopyTrace env size inFd out w [.read 0] .eof (ksysRead env w inFd size).2.2
  | readFails {w : World} (hread : (ksysRead env w inFd size).1 < 0) :
      CopyTrace env size inFd out w [.read (ksysRead env w inFd size).1]
        (.fail (ksysRead env w inFd size).1) (ksysRead env w inFd size).2.2
  | writeFails {w w₁ : World} {answer : Int} {buffer : Content}
      (hread : ksysRead env w inFd size = (answer, buffer, w₁)) (hpos : 0 < answer)
      (hwrite : (ksysWrite env w₁ out buffer).1 < 0) :
      CopyTrace env size inFd out w
        [.read answer, .write buffer (ksysWrite env w₁ out buffer).1]
        (.fail (ksysWrite env w₁ out buffer).1) (ksysWrite env w₁ out buffer).2
  | next {w w₁ w' : World} {answer : Int} {buffer : Content} {calls : List Transfer}
      {exit : CopyExit} (hread : ksysRead env w inFd size = (answer, buffer, w₁))
      (hpos : 0 < answer) (hwrite : 0 ≤ (ksysWrite env w₁ out buffer).1)
      (hrest : CopyTrace env size inFd out (ksysWrite env w₁ out buffer).2 calls exit w') :
      CopyTrace env size inFd out w
        (.read answer :: .write buffer (ksysWrite env w₁ out buffer).1 :: calls) exit w'

/-- A write does not accept more than it is given. -/
theorem ksysWrite_le (env : Env) (w : World) (out : Int) (buffer : Content) :
    (ksysWrite env w out buffer).1 ≤ buffer.length := by
  unfold ksysWrite
  split
  · simp only
    omega
  · split
    · simp only
      omega
    · simp only [List.length_take]
      omega

theorem CopyTrace.endsOfFile {calls : List Transfer} {exit : CopyExit}
    (h : CopyTrace env size inFd out w calls exit w') :
    endsOfFile calls = if exit = .eof then 1 else 0 := by
  induction h with
  | eof => rfl
  | readFails hread =>
      rw [Xmerge.endsOfFile, if_neg (by omega), if_neg (by simp)]
      rfl
  | writeFails _ hpos _ =>
      rw [Xmerge.endsOfFile, if_neg (by omega), if_neg (by simp)]
      rfl
  | next _ hpos _ _ ih =>
      rw [Xmerge.endsOfFile, if_neg (by omega), Nat.zero_add]
      exact ih

/-- **The `while` loop makes these calls**, and counts the bytes the writes have accepted. -/
theorem copyLoop_trace : ∀ {fuel : Nat} {w w' : World} {numBytes numBytes' : Int}
    {exit : CopyExit}, int32 numBytes = numBytes →
    copyLoop env size inFd out fuel w numBytes = some (exit, numBytes', w') →
    ∃ calls, CopyTrace env size inFd out w calls exit w' ∧
      numBytes' = int32 (numBytes + (accepted calls).length) := by
  intro fuel
  induction fuel with
  | zero =>
      intro w w' numBytes numBytes' exit _ h
      simp [copyLoop] at h
  | succ fuel ih =>
      intro w w' numBytes numBytes' exit hint h
      rw [copyLoop_succ] at h
      split at h
      · rename_i hread
        cases h
        exact ⟨_, CopyTrace.readFails hread, by simp [accepted, hint]⟩
      · split at h
        · rename_i hzero
          cases h
          exact ⟨_, CopyTrace.eof hzero, by simp [accepted, hint]⟩
        · rename_i hneg hzero
          generalize hread : ksysRead env w inFd size = r at h hneg hzero
          obtain ⟨answer, buffer, w₁⟩ := r
          have hle := ksysWrite_le env w₁ out buffer
          simp only at h hneg hzero
          split at h
          · rename_i hwrite
            cases h
            refine ⟨_, CopyTrace.writeFails hread (by omega) hwrite, ?_⟩
            rw [accepted, accepted, accepted, Int.toNat_of_nonpos (by omega)]
            simp [hint]
          · rename_i hwrite
            obtain ⟨calls, htrace, hcount⟩ := ih (int32_int32 _) h
            refine ⟨_, CopyTrace.next hread (by omega) (by omega) htrace, ?_⟩
            have hlen : ((buffer.take (ksysWrite env w₁ out buffer).1.toNat).length : Int)
                = (ksysWrite env w₁ out buffer).1 := by
              rw [List.length_take]
              omega
            rw [hcount, int32_add_int32, accepted, accepted, List.length_append, Int.natCast_add,
              hlen, Int.add_assoc]

/-! ### All the files -/

/-- The calls made while the files are copied, until one of them fails, and the files then. -/
inductive FilesTrace (env : Env) (size : Nat) (out : Int) :
    List FileId → World → List Transfer → World → Prop
  | done {w : World} : FilesTrace env size out [] w [] w
  | opening {path : FileId} {rest : List FileId} {w : World}
      (hopen : (ksysOpen env w path .rdonly).1 < 0) :
      FilesTrace env size out (path :: rest) w [] (ksysOpen env w path .rdonly).2
  | copying {path : FileId} {rest : List FileId} {w w' : World} {calls : List Transfer}
      {errno : Int} (hopen : 0 ≤ (ksysOpen env w path .rdonly).1)
      (hcopy : CopyTrace env size (ksysOpen env w path .rdonly).1 out
        (ksysOpen env w path .rdonly).2 calls (.fail errno) w') :
      FilesTrace env size out (path :: rest) w calls w'
  | next {path : FileId} {rest : List FileId} {w w₁ w' : World} {calls later : List Transfer}
      (hopen : 0 ≤ (ksysOpen env w path .rdonly).1)
      (hcopy : CopyTrace env size (ksysOpen env w path .rdonly).1 out
        (ksysOpen env w path .rdonly).2 calls .eof w₁)
      (hrest : FilesTrace env size out rest (ksysClose w₁ (ksysOpen env w path .rdonly).1).2
        later w') :
      FilesTrace env size out (path :: rest) w (calls ++ later) w'

/-- **The `for` loop makes these calls**, and counts the files it has read to their end. -/
theorem filesLoop_trace {fuel : Nat} : ∀ {files : List FileId} {k k' : Kern}
    {numBytes numBytes' : Int} {ofileCount ofileCount' : Nat} {exit : FilesExit},
    int32 numBytes = numBytes →
    filesLoop env size fuel out files k numBytes ofileCount
      = some (exit, numBytes', ofileCount', k') →
    ∃ calls, FilesTrace env size out files k.world calls k'.world ∧
      numBytes' = int32 (numBytes + (accepted calls).length) ∧
      ofileCount' = ofileCount + endsOfFile calls := by
  intro files
  induction files with
  | nil =>
      intro k k' numBytes numBytes' ofileCount ofileCount' exit hint h
      cases h
      exact ⟨[], FilesTrace.done, by simp [accepted, hint], rfl⟩
  | cons path rest ih =>
      intro k k' numBytes numBytes' ofileCount ofileCount' exit hint h
      rw [filesLoop_cons] at h
      split at h
      · rename_i hopen
        cases h
        exact ⟨[], FilesTrace.opening hopen, by simp [accepted, hint], rfl⟩
      · rename_i hopen
        obtain ⟨⟨exit', numBytes₁, w₁⟩, hcopy, hrest⟩ := Option.bind_eq_some_iff.mp h
        obtain ⟨calls, htrace, hbytes⟩ := copyLoop_trace hint hcopy
        have hends := htrace.endsOfFile
        cases exit' with
        | fail errno =>
            cases hrest
            refine ⟨calls, FilesTrace.copying (by omega) htrace, hbytes, ?_⟩
            rw [hends, if_neg (by simp)]
            rfl
        | eof =>
            obtain ⟨later, hlater, hbytes', hcount⟩ :=
              ih (by rw [hbytes]; exact int32_int32 _) hrest
            refine ⟨calls ++ later, FilesTrace.next (by omega) htrace hlater, ?_, ?_⟩
            · rw [hbytes']
              simp only
              rw [hbytes, int32_add_int32, accepted_append, List.length_append, Int.natCast_add,
                Int.add_assoc]
            · rw [hcount, endsOfFile_append, hends, if_pos rfl, Nat.add_assoc]

end Xmerge
