/-
How `xmerge` is left.

There are six ways out: `copy_from_user` fails, the output cannot be opened, an input
cannot be opened, a read or a write fails, or all is done.  On each of them everything
that has been opened is closed once, the memory is given back once and the address
limit is what it was; the count of files and the bytes in the output are those an
observer of the reads and writes would expect (`xmerge_exits_clean`).
-/
import KernelProgramming.Proofs.Xmerge.Transfers

namespace Xmerge

variable {env : Env} {size : Nat} {inFd out fd : Int} {w w' : World} {f o : FileId} {pos : Nat}
  {p : Params}

/-! ### The descriptors -/

theorem ksysRead_lookup (env : Env) (w : World) (size : Nat) (hne : fd ≠ inFd) :
    (ksysRead env w inFd size).2.2.lookup fd = w.lookup fd := by
  unfold ksysRead
  split
  · rfl
  · rename_i g hopen
    have hnonneg := World.nonneg_of_lookup hopen
    split
    · rfl
    · show World.lookup ⟨w.content, w.fds.set inFd.toNat _, _, _, _⟩ fd = _
      rw [World.lookup_set, if_neg (by omega)]

theorem ksysWrite_lookup (env : Env) (w : World) (buffer : Content) (hne : fd ≠ out) :
    (ksysWrite env w out buffer).2.lookup fd = w.lookup fd := by
  unfold ksysWrite
  split
  · rfl
  · rename_i g hopen
    have hnonneg := World.nonneg_of_lookup hopen
    split
    · rfl
    · show World.lookup ⟨_, w.fds.set out.toNat _, _, _, _⟩ fd = _
      rw [World.lookup_set, if_neg (by omega)]

/-- A file is copied without touching the other descriptors. -/
theorem CopyTrace.lookup {calls : List Transfer} {exit : CopyExit}
    (h : CopyTrace env size inFd out w calls exit w') (hin : fd ≠ inFd) (hout : fd ≠ out) :
    w'.lookup fd = w.lookup fd := by
  have hread : ∀ w, (ksysRead env w inFd size).2.2.lookup fd = w.lookup fd :=
    fun w => ksysRead_lookup env w size hin
  induction h with
  | eof => exact hread _
  | readFails => exact hread _
  | @writeFails w _ _ _ heq _ _ =>
      have hw := hread w
      rw [heq] at hw
      exact (ksysWrite_lookup env _ _ hout).trans hw
  | @next w _ _ _ _ _ _ heq _ _ _ ih =>
      have hw := hread w
      rw [heq] at hw
      exact ih.trans ((ksysWrite_lookup env _ _ hout).trans hw)

theorem ksysOpen_lookup {path : FileId} {flags : Flags}
    (hne : fd ≠ (ksysOpen env w path flags).1) :
    (ksysOpen env w path flags).2.lookup fd = w.lookup fd := by
  unfold ksysOpen at hne ⊢
  split
  · rfl
  · rename_i hopen
    rw [hopen] at hne
    show World.lookup ⟨_, w.fds.set w.fds.lowest _, _, _, _⟩ fd = _
    rw [World.lookup_set]
    exact if_neg hne

theorem ksysClose_lookup (hopen : w.Open inFd) :
    (ksysClose w inFd).2.lookup fd = if fd = inFd then none else w.lookup fd := by
  have hnonneg := hopen.nonneg
  unfold ksysClose
  split
  · rename_i hnone
    exact absurd hnone hopen
  · show World.lookup ⟨w.content, w.fds.set inFd.toNat none, _, _, _⟩ fd = _
    rw [World.lookup_set, Int.toNat_of_nonneg hnonneg]

/-- An open that fails leaves the descriptors alone. -/
theorem ksysOpen_fails {path : FileId} {flags : Flags}
    (h : (ksysOpen env w path flags).1 < 0) (fd : Int) :
    (ksysOpen env w path flags).2.lookup fd = w.lookup fd := by
  unfold ksysOpen at h ⊢
  split
  · rfl
  · rename_i hopen
    rw [hopen] at h
    simp only at h
    omega

/-! ### The acts -/

/-- The descriptor is opened (`true`) or closed (`false`). -/
def Act.touches (fd : Int) : Act → Option Bool
  | .ksysOpen _ result => if result = fd ∧ 0 ≤ fd then some true else none
  | .ksysClose other => if other = fd then some false else none
  | _ => none

/-- When the descriptor is opened and when it is closed. -/
def life (fd : Int) (acts : List (Limit × Act)) : List Bool :=
  acts.filterMap fun a => a.2.touches fd

/-- Opened and closed in turn, from an open to a close. -/
def Balanced (events : List Bool) : Prop :=
  ∃ n, events = (List.replicate n [true, false]).flatten

theorem Balanced.nil : Balanced [] := ⟨0, rfl⟩

theorem Balanced.cons {events : List Bool} (h : Balanced events) :
    Balanced (true :: false :: events) := by
  obtain ⟨n, rfl⟩ := h
  exact ⟨n + 1, rfl⟩

theorem life_append (fd : Int) (acts later : List (Limit × Act)) :
    life fd (acts ++ later) = life fd acts ++ life fd later := List.filterMap_append

/-- The label `close2_and_quit` begins with a close. -/
def FilesExit.closing (limit : Limit) : FilesExit → List (Limit × Act)
  | .done => []
  | .close1 _ => []
  | .close2 inFd _ => [(limit, .ksysClose inFd)]

/-- What the `for` loop does: it opens and closes, and whatever it has opened is closed when
the label it is left for has closed the input. -/
structure LoopActs (k : Kern) (out : Int) (exit : FilesExit) (k' : Kern)
    (acts : List (Limit × Act)) : Prop where
  added : k'.acts = k.acts ++ acts
  limit : k'.limit = k.limit
  raised : ∀ a ∈ acts, a.1 = k.limit
  files : ∀ a ∈ acts ++ exit.closing k.limit, a.2 ≠ .kmalloc ∧ a.2 ≠ .kfree
  balanced : ∀ fd, Balanced (life fd (acts ++ exit.closing k.limit))
  spares : life out (acts ++ exit.closing k.limit) = []
  lookup : ∀ fd, fd ≠ out → (∀ errno, exit ≠ .close2 fd errno) →
    k'.world.lookup fd = k.world.lookup fd
  input : ∀ inFd errno, exit = .close2 inFd errno → ¬k.world.Open inFd

/-- An input that is opened and closed again. -/
theorem life_pair {path : FileId} {limit limit' : Limit} {fd inFd : Int} (hin : 0 ≤ inFd)
    (acts : List (Limit × Act)) :
    life fd ((limit, .ksysOpen path inFd) :: (limit', .ksysClose inFd) :: acts)
      = if fd = inFd then true :: false :: life fd acts else life fd acts := by
  unfold life
  rw [List.filterMap_cons, List.filterMap_cons]
  by_cases heq : fd = inFd
  · subst heq
    simp [Act.touches, hin]
  · have hne : inFd ≠ fd := Ne.symm heq
    simp [Act.touches, heq, hne]

/-- An input that cannot be opened. -/
theorem LoopActs.opening {k : Kern} {path : FileId}
    (hneg : (ksysOpen env k.world path .rdonly).1 < 0) :
    LoopActs k out (.close1 (ksysOpen env k.world path .rdonly).1) (k.open env path .rdonly).2
      [(k.limit, .ksysOpen path (ksysOpen env k.world path .rdonly).1)] := by
  have hlife : ∀ fd, life fd [(k.limit, .ksysOpen path (ksysOpen env k.world path .rdonly).1)]
      = [] := by
    intro fd
    have hnot : ¬((ksysOpen env k.world path .rdonly).1 = fd ∧ 0 ≤ fd) := by omega
    simp [life, Act.touches, hnot]
  refine ⟨rfl, rfl, by simp, by simp [FilesExit.closing], fun fd => ?_, ?_,
    fun fd _ _ => ksysOpen_fails hneg fd, by simp⟩
  · rw [FilesExit.closing, List.append_nil, hlife]
    exact Balanced.nil
  · rw [FilesExit.closing, List.append_nil, hlife]

/-- An input that cannot be copied. -/
theorem LoopActs.copying {k k' : Kern} {path : FileId} {errno : Int} (hin : 0 ≤ inFd)
    (hne : out ≠ inFd) (hnew : ¬k.world.Open inFd)
    (hadded : k'.acts = k.acts ++ [(k.limit, .ksysOpen path inFd)]) (hlimit : k'.limit = k.limit)
    (hlookup : ∀ fd, fd ≠ out → fd ≠ inFd → k'.world.lookup fd = k.world.lookup fd) :
    LoopActs k out (.close2 inFd errno) k' [(k.limit, .ksysOpen path inFd)] := by
  refine ⟨hadded, hlimit, by simp, by simp [FilesExit.closing], fun fd => ?_, ?_, ?_, ?_⟩
  · rw [FilesExit.closing, List.cons_append, List.nil_append, life_pair hin]
    split
    · exact Balanced.nil.cons
    · exact Balanced.nil
  · rw [FilesExit.closing, List.cons_append, List.nil_append, life_pair hin, if_neg hne]
    rfl
  · intro fd hfd hother
    refine hlookup fd hfd ?_
    rintro rfl
    exact hother errno rfl
  · intro inFd' errno' heq
    cases heq
    exact hnew

/-- An input that is copied. -/
theorem LoopActs.next {k k₁ k' : Kern} (path : FileId) {exit : FilesExit}
    {acts : List (Limit × Act)} (hin : 0 ≤ inFd) (hne : out ≠ inFd)
    (hadded : k₁.acts = k.acts ++ [(k.limit, .ksysOpen path inFd), (k.limit, .ksysClose inFd)])
    (hlimit : k₁.limit = k.limit)
    (hlookup : ∀ fd, fd ≠ out → k₁.world.lookup fd = k.world.lookup fd)
    (h : LoopActs k₁ out exit k' acts) :
    LoopActs k out exit k'
      ((k.limit, .ksysOpen path inFd) :: (k.limit, .ksysClose inFd) :: acts) := by
  have hbalanced := h.balanced
  have hspares := h.spares
  have hfiles := h.files
  have hraised := h.raised
  rw [hlimit] at hbalanced hspares hfiles hraised
  refine ⟨?_, h.limit.trans hlimit, ?_, ?_, fun fd => ?_, ?_, ?_, ?_⟩
  · rw [h.added, hadded, List.append_assoc]
    rfl
  · intro a ha
    rcases List.mem_cons.mp ha with rfl | ha
    · rfl
    · rcases List.mem_cons.mp ha with rfl | ha
      · rfl
      · exact hraised a ha
  · intro a ha
    rw [List.cons_append, List.cons_append] at ha
    rcases List.mem_cons.mp ha with rfl | ha
    · simp
    · rcases List.mem_cons.mp ha with rfl | ha
      · simp
      · exact hfiles a ha
  · rw [List.cons_append, List.cons_append, life_pair hin]
    split
    · exact (hbalanced fd).cons
    · exact hbalanced fd
  · rw [List.cons_append, List.cons_append, life_pair hin, if_neg hne]
    exact hspares
  · intro fd hfd hother
    exact (h.lookup fd hfd hother).trans (hlookup fd hfd)
  · intro fd errno heq
    have hclosed := h.input fd errno heq
    have hfd : fd ≠ out := by
      rintro rfl
      rw [heq, FilesExit.closing, life_append] at hspares
      simp [life, Act.touches] at hspares
    unfold World.Open at hclosed ⊢
    rw [hlookup fd hfd] at hclosed
    exact hclosed

/-- **The descriptors of the `for` loop.** -/
theorem filesLoop_acts {fuel : Nat} : ∀ {files : List FileId} {k k' : Kern}
    {numBytes numBytes' : Int} {ofileCount ofileCount' : Nat} {exit : FilesExit},
    int32 numBytes = numBytes → k.world.Open out →
    filesLoop env size fuel out files k numBytes ofileCount
      = some (exit, numBytes', ofileCount', k') →
    ∃ acts, LoopActs k out exit k' acts := by
  intro files
  induction files with
  | nil =>
      intro k k' numBytes numBytes' ofileCount ofileCount' exit _ _ h
      cases h
      exact ⟨[], (List.append_nil _).symm, rfl, by simp, by simp [FilesExit.closing],
        fun _ => Balanced.nil, rfl, fun _ _ _ => rfl, by simp⟩
  | cons path rest ih =>
      intro k k' numBytes numBytes' ofileCount ofileCount' exit hint hout h
      rw [filesLoop_cons] at h
      split at h
      · rename_i hneg
        cases h
        exact ⟨_, LoopActs.opening hneg⟩
      · rename_i hneg
        have hnonneg : 0 ≤ (ksysOpen env k.world path .rdonly).1 := by omega
        obtain ⟨hin, hnew, hstill⟩ := ksysOpen_open hnonneg
        have hne : out ≠ (ksysOpen env k.world path .rdonly).1 := by
          intro heq
          rw [← heq] at hnew
          exact hnew hout
        obtain ⟨⟨exit', numBytes₁, w₁⟩, hcopy, hrest⟩ := Option.bind_eq_some_iff.mp h
        obtain ⟨calls, htrace, hbytes⟩ := copyLoop_trace hint hcopy
        have hsame : ∀ fd, fd ≠ out → fd ≠ (ksysOpen env k.world path .rdonly).1 →
            w₁.lookup fd = k.world.lookup fd := by
          intro fd hfdOut hfdIn
          exact (htrace.lookup hfdIn hfdOut).trans (ksysOpen_lookup hfdIn)
        cases exit' with
        | fail errno =>
            cases hrest
            exact ⟨_, LoopActs.copying hnonneg hne hnew rfl rfl hsame⟩
        | eof =>
            have hinOpen := copyLoop_open hcopy hin
            have houtOpen := copyLoop_open hcopy (hstill out hout)
            obtain ⟨acts, hacts⟩ := ih (by rw [hbytes]; exact int32_int32 _)
              (ksysClose_open houtOpen hne) hrest
            refine ⟨_, LoopActs.next path hnonneg hne ?_ ?_ ?_ hacts⟩
            · show (k.acts ++ [_]) ++ [_] = _
              rw [List.append_assoc]
              rfl
            · rfl
            · intro fd hfd
              show (ksysClose w₁ _).2.lookup fd = _
              rw [ksysClose_lookup hinOpen]
              split
              · rename_i heq
                rw [heq]
                exact (not_not.mp hnew).symm
              · rename_i hfdIn
                exact hsame fd hfd hfdIn

/-! ### What is written -/

theorem appended_nil (content : FileId → Content) (o : FileId) :
    appended content o [] = content := by
  unfold appended
  rw [List.append_nil, Function.update_eq_self]

theorem appended_appended (content : FileId → Content) (o : FileId) (bytes later : Content) :
    appended (appended content o bytes) o later = appended content o (bytes ++ later) := by
  unfold appended
  rw [Function.update_self, Function.update_idem, List.append_assoc]

/-- A read, whatever it answers. -/
theorem Copying.afterRead (h : Copying w inFd out f o pos) (env : Env) (size : Nat) :
    (ksysRead env w inFd size).2.2.content = w.content ∧
      ∃ pos', Copying (ksysRead env w inFd size).2.2 inFd out f o pos' := by
  cases hread : env.reads w.reads with
  | fail e =>
      unfold ksysRead
      rw [h.input, hread]
      exact ⟨rfl, pos, h.input, h.output⟩
  | upTo limit =>
      obtain ⟨fds, heq, hcopying⟩ := h.read ⟨limit, hread⟩
        (show _ = found env size w.reads ((w.content f).drop pos) from rfl)
      rw [heq]
      exact ⟨rfl, _, hcopying⟩

/-- A write, whatever it answers. -/
theorem Copying.afterWrite (h : Copying w inFd out f o pos) (env : Env) (buffer : Content) :
    (ksysWrite env w out buffer).2.content
        = appended w.content o (buffer.take (ksysWrite env w out buffer).1.toNat) ∧
      Copying (ksysWrite env w out buffer).2 inFd out f o pos := by
  cases hwrite : env.writes w.writes with
  | fail e =>
      obtain ⟨pos', hout⟩ := h.output
      have heq : ksysWrite env w out buffer
          = (-(e.code : Int), { w with writes := w.writes + 1 }) := by
        unfold ksysWrite
        rw [hout, hwrite]
      have hzero : (-(e.code : Int)).toNat = 0 := by omega
      rw [heq]
      refine ⟨?_, h.input, h.output⟩
      rw [hzero, List.take_zero, appended_nil]
  | upTo limit =>
      obtain ⟨fds, heq, hcopying⟩ := h.write ⟨limit, hwrite⟩
        (show _ = written env w.writes buffer from rfl)
      rw [heq]
      refine ⟨?_, hcopying⟩
      have hput : written env w.writes buffer <+: buffer := (env.writes w.writes).isPrefix_moved _
      rw [Int.toNat_natCast, ← List.prefix_iff_eq_take.mp hput]

/-- What copying a file does to the files. -/
theorem CopyTrace.content {calls : List Transfer} {exit : CopyExit}
    (h : CopyTrace env size inFd out w calls exit w') : ∀ {pos : Nat},
    Copying w inFd out f o pos →
    w'.content = appended w.content o (accepted calls) ∧ ∃ pos', Copying w' inFd out f o pos' := by
  induction h with
  | eof =>
      intro pos hc
      obtain ⟨hcontent, hcopying⟩ := hc.afterRead env size
      exact ⟨by rw [accepted, accepted, appended_nil, hcontent], hcopying⟩
  | readFails =>
      intro pos hc
      obtain ⟨hcontent, hcopying⟩ := hc.afterRead env size
      exact ⟨by rw [accepted, accepted, appended_nil, hcontent], hcopying⟩
  | @writeFails w w₁ answer buffer hread _ _ =>
      intro pos hc
      obtain ⟨hcontent, pos₁, hcopying⟩ := hc.afterRead env size
      rw [hread] at hcontent hcopying
      obtain ⟨hcontent', hcopying'⟩ := hcopying.afterWrite env buffer
      refine ⟨?_, pos₁, hcopying'⟩
      rw [hcontent', accepted, accepted, accepted, List.append_nil, hcontent]
  | @next w w₁ w' answer buffer calls exit hread _ _ _ ih =>
      intro pos hc
      obtain ⟨hcontent, pos₁, hcopying⟩ := hc.afterRead env size
      rw [hread] at hcontent hcopying
      obtain ⟨hcontent', hcopying'⟩ := hcopying.afterWrite env buffer
      obtain ⟨hrest, hlast⟩ := ih hcopying'
      refine ⟨?_, hlast⟩
      rw [hrest, hcontent', accepted, accepted, appended_appended, hcontent]

/-- **The output holds what it held, and what the writes have accepted.** -/
theorem FilesTrace.content {files : List FileId} {calls : List Transfer}
    (h : FilesTrace env size out files w calls w') (hout : w.Appends out o) :
    w'.content o = w.content o ++ accepted calls := by
  induction h with
  | done => exact (List.append_nil _).symm
  | @opening path rest w hneg =>
      have hsame : (ksysOpen env w path .rdonly).2.content = w.content := by
        unfold ksysOpen
        split <;> rfl
      rw [hsame]
      exact (List.append_nil _).symm
  | @copying path rest w w' calls errno hnonneg hcopy =>
      obtain ⟨fd, w₁, hopened, -, hcontent, -, -, -, hcopying⟩ :=
        ksysOpen_input path (opens_of_nonneg hnonneg) hout
      rw [hopened] at hcopy
      rw [(hcopy.content hcopying).1, hcontent]
      exact Function.update_self ..
  | @next path rest w w₂ w' calls later hnonneg hcopy _ ih =>
      obtain ⟨fd, w₁, hopened, -, hcontent, -, -, -, hcopying⟩ :=
        ksysOpen_input path (opens_of_nonneg hnonneg) hout
      rw [hopened] at hcopy ih
      obtain ⟨hcopied, pos', hcopying'⟩ := hcopy.content hcopying
      obtain ⟨hout', hclosed, -, -, -⟩ := ksysClose_appends hcopying'.output hcopying'.ne
      rw [ih hout', hclosed, hcopied, accepted_append, ← List.append_assoc, hcontent]
      unfold appended
      rw [Function.update_self]

/-! ### The call returns -/

/-- **A file that is not the output is copied or a call fails**, after finitely many calls. -/
theorem copyLoop_returns (hne : f ≠ o) (numBytes : Int)
    (h : Copying w inFd out f o pos) :
    ∃ fuel r, copyLoop env size inFd out fuel w numBytes = some r := by
  induction hleft : (w.content f).length - pos using Nat.strong_induction_on
    generalizing w pos numBytes with
  | _ left ih =>
      cases hread : env.reads w.reads with
      | fail e =>
          obtain ⟨w', hfails⟩ := copyLoop_read_fails h hread 0 numBytes
          exact ⟨1, _, hfails⟩
      | upTo limit =>
          have hok : (env.reads w.reads).Succeeds := ⟨limit, hread⟩
          by_cases hend : found env size w.reads ((w.content f).drop pos) = []
          · obtain ⟨w', -, -, -, -, -, hloop⟩ := copyLoop_eof h hok hend
            exact ⟨1, _, hloop 0 numBytes⟩
          · cases hwrite : env.writes w.writes with
            | fail e =>
                obtain ⟨w', hfails⟩ := copyLoop_write_fails h hok hend hwrite 0 numBytes
                exact ⟨1, _, hfails⟩
            | upTo limit' =>
                obtain ⟨w', hcontent, -, -, -, hcopying, hround⟩ :=
                  copyLoop_round h hok ⟨limit', hwrite⟩ rfl hend rfl
                have hsame : w'.content f = w.content f := by
                  rw [hcontent, appended, Function.update_of_ne hne]
                -- The chunk is not empty, so less of the file is left.
                have hlen := List.length_pos_of_ne_nil hend
                have hle := (isPrefix_found env size w.reads ((w.content f).drop pos)).length_le
                rw [List.length_drop] at hle
                have hless : (w'.content f).length
                    - (pos + (found env size w.reads ((w.content f).drop pos)).length) < left := by
                  rw [hsame]
                  omega
                obtain ⟨fuel, r, hrun⟩ := ih _ hless (int32 (numBytes + _)) hcopying rfl
                refine ⟨fuel + 1, r, ?_⟩
                rw [hround]
                exact hrun

theorem filesLoop_returns : ∀ {files : List FileId} {k : Kern}
    {numBytes : Int} (ofileCount : Nat), o ∉ files → k.world.Appends out o →
    int32 numBytes = numBytes →
    ∃ fuel r, filesLoop env size fuel out files k numBytes ofileCount = some r := by
  intro files
  induction files with
  | nil =>
      intro k numBytes ofileCount _ _ _
      exact ⟨0, _, rfl⟩
  | cons path rest ih =>
      intro k numBytes ofileCount hfiles hout hint
      rw [List.mem_cons, not_or] at hfiles
      by_cases hneg : (ksysOpen env k.world path .rdonly).1 < 0
      · have hloop := filesLoop_cons env size 0 out path rest k numBytes ofileCount
        rw [if_pos hneg] at hloop
        exact ⟨0, _, hloop⟩
      · obtain ⟨fd, w₁, hopened, hfd, -, -, -, -, hcopying⟩ :=
          ksysOpen_input path (opens_of_nonneg (not_lt.mp hneg)) hout
        obtain ⟨fuel, ⟨exit, numBytes', w₂⟩, hcopy⟩ :=
          copyLoop_returns (Ne.symm hfiles.1) numBytes hcopying
        cases exit with
        | fail errno =>
            have hloop := filesLoop_cons env size fuel out path rest k numBytes ofileCount
            rw [if_neg hneg, hopened, hcopy, Option.bind_some] at hloop
            exact ⟨fuel, _, hloop⟩
        | eof =>
            obtain ⟨calls, htrace, hbytes⟩ := copyLoop_trace hint hcopy
            obtain ⟨-, pos', hcopying'⟩ := htrace.content hcopying
            obtain ⟨k', hworld, hnext⟩ := filesLoop_next hopened hfd hcopy
            have hout' : k'.world.Appends out o := by
              rw [hworld]
              exact (ksysClose_appends hcopying'.output hcopying'.ne).1
            have hint' : int32 numBytes' = numBytes' := by
              rw [hbytes]
              exact int32_int32 _
            obtain ⟨fuel', r, hrun⟩ := ih (ofileCount + 1) hfiles.2 hout' hint'
            refine ⟨max fuel fuel', r, ?_⟩
            rw [hnext _ _ _ (le_max_left _ _)]
            exact filesLoop_mono (le_max_right _ _) hrun

/-! ### The labels -/

/-- What is done when the loop has been left: the input is closed if it is open, the output is
closed, the count is stored and the memory is given back. -/
theorem afterFiles_acts (oldFs : Limit) (out numBytes : Int) (ofileCount : Nat) (exit : FilesExit)
    (k : Kern) :
    ∃ tail, (afterFiles oldFs out (exit, numBytes, ofileCount, k)).state.acts
        = k.acts ++ exit.closing k.limit ++ tail ∧
      tail.map (·.2) = [.ksysClose out, .copyToUser ofileCount, .kfree] ∧
      ∀ a ∈ tail, a.1 = oldFs ∨ a.1 = k.limit ∧ exit ≠ .done := by
  cases exit with
  | done =>
      refine ⟨[(oldFs, .ksysClose out), (oldFs, .copyToUser ofileCount), (oldFs, .kfree)], ?_, rfl,
        by simp⟩
      simp [afterFiles, Kern.note, Kern.close, Kern.setFs, FilesExit.closing]
  | close1 errno =>
      refine ⟨[(k.limit, .ksysClose out), (k.limit, .copyToUser ofileCount), (oldFs, .kfree)], ?_,
        rfl, by simp⟩
      simp [afterFiles, close1AndQuit, quit, Kern.note, Kern.close, Kern.setFs, FilesExit.closing]
  | close2 inFd errno =>
      refine ⟨[(k.limit, .ksysClose out), (k.limit, .copyToUser ofileCount), (oldFs, .kfree)], ?_,
        rfl, by simp⟩
      simp [afterFiles, close2AndQuit, close1AndQuit, quit, Kern.note, Kern.close, Kern.setFs,
        FilesExit.closing]

theorem afterFiles_limit (oldFs : Limit) (out numBytes : Int) (ofileCount : Nat)
    (exit : FilesExit) (k : Kern) :
    (afterFiles oldFs out (exit, numBytes, ofileCount, k)).state.limit = oldFs := by
  cases exit <;> rfl

/-- No descriptor is left open. -/
theorem afterFiles_lookup {k k' : Kern} {exit : FilesExit} {acts : List (Limit × Act)}
    (oldFs : Limit) (numBytes : Int) (ofileCount : Nat) (hacts : LoopActs k out exit k' acts)
    (hopen : k'.world.Open out ∧
      ∀ fd errno, exit = .close2 fd errno → k'.world.Open fd ∧ fd ≠ out) (fd : Int) :
    (afterFiles oldFs out (exit, numBytes, ofileCount, k')).state.world.lookup fd
      = if fd = out then none else k.world.lookup fd := by
  obtain ⟨hout, hin⟩ := hopen
  cases exit with
  | done =>
      show (ksysClose k'.world out).2.lookup fd = _
      rw [ksysClose_lookup hout]
      split
      · rfl
      · rename_i hne
        exact hacts.lookup fd hne (by simp)
  | close1 errno =>
      show (ksysClose k'.world out).2.lookup fd = _
      rw [ksysClose_lookup hout]
      split
      · rfl
      · rename_i hne
        exact hacts.lookup fd hne (by simp)
  | close2 inFd errno =>
      obtain ⟨hinOpen, hinOut⟩ := hin inFd errno rfl
      show (ksysClose (ksysClose k'.world inFd).2 out).2.lookup fd = _
      rw [ksysClose_lookup (ksysClose_open hout hinOut.symm), ksysClose_lookup hinOpen]
      split
      · rfl
      · rename_i hne
        split
        · rename_i heq
          rw [heq]
          exact (not_not.mp (hacts.input inFd errno rfl)).symm
        · rename_i hneIn
          refine hacts.lookup fd hne ?_
          intro errno' heq
          cases heq
          exact hneIn rfl

theorem life_eq (fd : Int) (acts : List (Limit × Act)) :
    life fd acts = (acts.map (·.2)).filterMap (Act.touches fd) := by
  unfold life
  rw [List.filterMap_map]
  rfl

/-! ### The whole call -/

/-- The call has left nothing behind, and tells what it has done. -/
structure CleanExit (env : Env) (size : Nat) (k : Kern) (p : Params) (fault : Bool)
    (r : Return Kern) : Prop where
  /-- What it has opened it has closed, once, and nothing else; and so for the memory. -/
  acts : ∃ acts, r.state.acts = k.acts ++ acts ∧ (∀ fd, Balanced (life fd acts)) ∧
    (acts.map (·.2)).count .kmalloc = 1 ∧ (acts.map (·.2)).count .kfree = 1
  lookup : ∀ fd, r.state.world.lookup fd = k.world.lookup fd
  limit : r.state.limit = k.limit
  efault : fault = true → r.value = -Errno.efault.code
  /-- The value is the answer of the call that has failed. -/
  code : fault = false → ∀ code, MergeFails env size k.world p code → r.value = code
  /-- The count is that of the inputs that have been read to their end, and the output holds
  what the writes have accepted. -/
  output : fault = false → 0 ≤ (ksysOpen env k.world p.outfile p.oflags).1 →
    ∃ calls w', FilesTrace env size (ksysOpen env k.world p.outfile p.oflags).1 p.infiles
        (ksysOpen env k.world p.outfile p.oflags).2 calls w' ∧
      r.ofileCount = some (endsOfFile calls) ∧
      r.state.world.content p.outfile = atStart k.world p p.outfile ++ accepted calls ∧
      ((∀ code, ¬MergeFails env size k.world p code) → endsOfFile calls = p.infiles.length)

/-- `copy_from_user` has failed. -/
theorem cleanExit_fault {fuel : Nat} {k : Kern} {r : Return Kern}
    (h : xmerge env size fuel k p true = some r) : CleanExit env size k p true r := by
  cases h
  refine ⟨⟨[(k.limit, .kmalloc), (k.limit, .copyFromUser), (k.limit, .kfree)], ?_, ?_, rfl, rfl⟩,
    fun _ => rfl, rfl, fun _ => rfl, by simp, by simp⟩
  · simp [quit, Kern.note]
  · intro fd
    exact Balanced.nil

/-- The output cannot be opened. -/
theorem cleanExit_output {fuel : Nat} {k : Kern} {r : Return Kern}
    (hneg : (ksysOpen env k.world p.outfile p.oflags).1 < 0)
    (h : xmerge env size fuel k p false = some r) : CleanExit env size k p false r := by
  have hcode : ∀ code, MergeFails env size k.world p code → r.value = code :=
    fun code => xmerge_code h
  rw [xmerge_eq, if_pos hneg] at h
  cases h
  refine ⟨⟨[(k.limit, .kmalloc), (k.limit, .copyFromUser),
    (k.limit, .ksysOpen p.outfile (ksysOpen env k.world p.outfile p.oflags).1),
    (k.limit, .kfree)], ?_, ?_, rfl, rfl⟩, ?_, rfl, by simp, fun _ => hcode, ?_⟩
  · simp [quit, Kern.note, Kern.open]
  · intro fd
    have hnot : ¬((ksysOpen env k.world p.outfile p.oflags).1 = fd ∧ 0 ≤ fd) := by omega
    refine ⟨0, ?_⟩
    simp [life, Act.touches, hnot]
  · exact fun fd => ksysOpen_fails hneg fd
  · intro _ hnonneg
    omega

theorem filesLoop_done {fuel : Nat} : ∀ {files : List FileId} {k k' : Kern}
    {numBytes numBytes' : Int} {ofileCount ofileCount' : Nat},
    filesLoop env size fuel out files k numBytes ofileCount
      = some (.done, numBytes', ofileCount', k') →
    ofileCount' = ofileCount + files.length := by
  intro files
  induction files with
  | nil =>
      intro k k' numBytes numBytes' ofileCount ofileCount' h
      cases h
      rfl
  | cons path rest ih =>
      intro k k' numBytes numBytes' ofileCount ofileCount' h
      rw [filesLoop_cons] at h
      split at h
      · simp at h
      · obtain ⟨⟨exit, numBytes₁, w₁⟩, -, hrest⟩ := Option.bind_eq_some_iff.mp h
        cases exit with
        | fail errno => simp at hrest
        | eof =>
            rw [ih hrest, List.length_cons]
            omega

theorem beforeFiles_acts (env : Env) (k : Kern) (p : Params) :
    (beforeFiles env k p).acts = k.acts ++ [(k.limit, .kmalloc), (k.limit, .copyFromUser),
      (k.limit, .ksysOpen p.outfile (ksysOpen env k.world p.outfile p.oflags).1)] := by
  simp [beforeFiles, Kern.note, Kern.open, Kern.setFs]

/-- The acts of a call that has opened the output. -/
theorem cleanExit_acts {k k' : Kern} {exit : FilesExit} {acts : List (Limit × Act)}
    (hopen : 0 ≤ (ksysOpen env k.world p.outfile p.oflags).1)
    (hacts : LoopActs (beforeFiles env k p) (ksysOpen env k.world p.outfile p.oflags).1 exit k' acts)
    (numBytes : Int) (ofileCount : Nat) :
    ∃ all, (afterFiles k.limit (ksysOpen env k.world p.outfile p.oflags).1
          (exit, numBytes, ofileCount, k')).state.acts = k.acts ++ all ∧
      (∀ fd, Balanced (life fd all)) ∧ (all.map (·.2)).count .kmalloc = 1 ∧
      (all.map (·.2)).count .kfree = 1 := by
  obtain ⟨tail, htail, hlast, -⟩ := afterFiles_acts k.limit
    (ksysOpen env k.world p.outfile p.oflags).1 numBytes ofileCount exit k'
  have hfiles := hacts.files
  rw [← hacts.limit] at hfiles
  have hnone : ∀ act : Act, (∀ a ∈ acts ++ exit.closing k'.limit, a.2 ≠ act) →
      ((acts ++ exit.closing k'.limit).map (·.2)).count act = 0 := by
    intro act hne
    refine List.count_eq_zero.mpr ?_
    intro hmem
    obtain ⟨a, ha, heq⟩ := List.mem_map.mp hmem
    exact hne a ha heq
  refine ⟨[(k.limit, .kmalloc), (k.limit, .copyFromUser),
    (k.limit, .ksysOpen p.outfile (ksysOpen env k.world p.outfile p.oflags).1)] ++
      (acts ++ exit.closing k'.limit) ++ tail, ?_, ?_, ?_, ?_⟩
  · rw [htail, hacts.added, beforeFiles_acts]
    simp only [List.append_assoc]
  · intro fd
    have hloop := hacts.balanced fd
    have hspares := hacts.spares
    rw [← hacts.limit] at hloop hspares
    rw [life_append, life_append, life_eq fd tail, hlast]
    by_cases hfd : fd = (ksysOpen env k.world p.outfile p.oflags).1
    · subst hfd
      rw [hspares]
      refine ⟨1, ?_⟩
      simp [life, Act.touches, hopen]
    · have hne : (ksysOpen env k.world p.outfile p.oflags).1 ≠ fd := Ne.symm hfd
      have hhead : life fd [(k.limit, .kmalloc), (k.limit, .copyFromUser),
          (k.limit, .ksysOpen p.outfile (ksysOpen env k.world p.outfile p.oflags).1)] = [] := by
        simp [life, Act.touches, hne]
      have hend : [Act.ksysClose (ksysOpen env k.world p.outfile p.oflags).1,
          .copyToUser ofileCount, .kfree].filterMap (Act.touches fd) = [] := by
        simp [List.filterMap_cons, Act.touches, hne]
      rw [hhead, hend, List.nil_append, List.append_nil]
      exact hloop
  · rw [List.map_append, List.map_append, List.count_append, List.count_append, hlast, hnone]
    · rfl
    · exact fun a ha => (hfiles a ha).1
  · rw [List.map_append, List.map_append, List.count_append, List.count_append, hlast, hnone]
    · rfl
    · exact fun a ha => (hfiles a ha).2

/-- The output has been opened. -/
theorem cleanExit_files {fuel : Nat} {k : Kern} {r : Return Kern}
    (happend : p.oflags.append = true) (hopen : 0 ≤ (ksysOpen env k.world p.outfile p.oflags).1)
    (h : xmerge env size fuel k p false = some r) : CleanExit env size k p false r := by
  obtain ⟨-, hcontent, -, -, -, hout⟩ := beforeFiles_ready (opens_of_nonneg hopen) happend
  obtain ⟨houtOpen, hnew, -⟩ := ksysOpen_open hopen
  have hcode : ∀ code, MergeFails env size k.world p code → r.value = code :=
    fun code => xmerge_code h
  have hzero : int32 0 = 0 := int32_of_lt (le_refl 0) (by omega)
  rw [xmerge_eq, if_neg (by omega)] at h
  obtain ⟨⟨exit, numBytes, ofileCount, k'⟩, hloop, rfl⟩ := Option.map_eq_some_iff.mp h
  obtain ⟨acts, hacts⟩ := filesLoop_acts hzero houtOpen hloop
  obtain ⟨calls, htrace, -, hcount⟩ := filesLoop_trace hzero hloop
  refine ⟨cleanExit_acts hopen hacts numBytes ofileCount, ?_,
    afterFiles_limit k.limit _ numBytes ofileCount exit k', by simp, fun _ => hcode, ?_⟩
  · intro fd
    rw [afterFiles_lookup k.limit numBytes ofileCount hacts (filesLoop_open hloop houtOpen)]
    split
    · rename_i heq
      rw [heq]
      exact (not_not.mp hnew).symm
    · rename_i hne
      exact ksysOpen_lookup hne
  · intro _ _
    have hview := afterFiles_view (p := p) k.limit (ksysOpen env k.world p.outfile p.oflags).1
      numBytes ofileCount exit k'
    refine ⟨calls, k'.world, htrace, ?_, ?_, ?_⟩
    · rw [Nat.zero_add] at hcount
      rw [← hcount]
      exact congrArg (fun v => v.2.1) hview
    · rw [← hcontent, ← htrace.content hout]
      exact congrArg (fun v => v.2.2) hview
    · intro hnone
      have hfails : ∀ call code, exit.failure ≠ some (call, code) := fun call code hfail =>
        hnone code (MergeFails.files hopen (filesLoop_sound hloop hfail))
      cases exit with
      | done =>
          rw [filesLoop_done hloop] at hcount
          omega
      | close1 errno => exact absurd rfl (hfails .opening errno)
      | close2 inFd errno => exact absurd rfl (hfails .copying errno)

/--
**`xmerge` cleans up.**  Whatever the opens, reads and writes answer, the call returns:
every descriptor it has opened has been closed, once, and no other, the memory has been
given back once, and the address limit is what it was.  The value is the answer of the
call that has failed.  If the output has been opened, the count is that of the inputs
that have been read to their end, all of them if nothing has failed, and the output is
what it was, followed by the bytes the writes have accepted.
-/
theorem xmerge_exits_clean (k : Kern) (fault : Bool) (hsep : p.outfile ∉ p.infiles)
    (happend : p.oflags.append = true) :
    (∃ fuel r, xmerge env size fuel k p fault = some r) ∧
      ∀ fuel r, xmerge env size fuel k p fault = some r → CleanExit env size k p fault r := by
  cases fault with
  | true => exact ⟨⟨0, _, rfl⟩, fun fuel r h => cleanExit_fault h⟩
  | false =>
      by_cases hneg : (ksysOpen env k.world p.outfile p.oflags).1 < 0
      · have heq := xmerge_eq env size 0 k p
        rw [if_pos hneg] at heq
        exact ⟨⟨0, _, heq⟩, fun fuel r h => cleanExit_output hneg h⟩
      · have hopen := not_lt.mp hneg
        obtain ⟨-, -, -, -, -, hout⟩ := beforeFiles_ready (opens_of_nonneg hopen) happend
        obtain ⟨fuel, r, hloop⟩ := filesLoop_returns 0 hsep hout (int32_of_lt (le_refl 0) (by omega))
        have heq := xmerge_eq env size fuel k p
        rw [if_neg hneg, hloop, Option.map_some] at heq
        exact ⟨⟨fuel, _, heq⟩, fun fuel r h => cleanExit_files happend hopen h⟩

/-- Two inputs, and the second write finds the disk full. -/
def diskFull : Env where
  opens _ := none
  reads _ := .upTo 4096
  writes n := if n = 1 then .fail ⟨28, by decide, by decide⟩ else .upTo 4096

theorem xmerge_exits_clean_diskFull : ∃ r,
    xmerge diskFull 4096 2 ⟨.idle threeFiles, .userDs, []⟩ twoInputs false = some r ∧
      CleanExit diskFull 4096 ⟨.idle threeFiles, .userDs, []⟩ twoInputs false r ∧
      r.value = -28 ∧ r.ofileCount = some 1 ∧ r.state.world.content 1 = [7, 1, 2, 3] :=
  ⟨_, rfl, (xmerge_exits_clean _ false (by decide) rfl).2 2 _ rfl, by decide, by decide, by decide⟩

end Xmerge
