/-
The output among the inputs.

Nothing compares the files.  While the output is read, every chunk that is read is
appended to it, so the end of the file stays as far away as it was: if there is
anything in the output when its turn comes, the loop does not end (`copyLoop_forever`).
The call returns exactly when the output is empty whenever it is opened as an input,
which is to say that it and all the inputs in front of it are empty (`Clear`).
-/
import KernelProgramming.Proofs.Xmerge.Concat

namespace Xmerge

variable {env : Env} {size : Nat} {inFd out : Int} {f o : FileId} {p : Params}

theorem WritesFull.succeeds (h : WritesFull env size) (n : Nat) : (env.writes n).Succeeds := by
  obtain ⟨limit, -, hlimit⟩ := h n
  exact ⟨limit, hlimit⟩

theorem WritesFull.kept (h : WritesFull env size) (n : Nat) {chunks : List Content}
    (hle : ∀ chunk ∈ chunks, chunk.length ≤ size) : kept env n chunks = chunks.flatten := by
  apply kept_eq_flatten_iff.mpr
  intro i hi
  exact h.written (hle _ (List.getElem_mem hi))

/-! ### Reading what is being written -/

/-- **The end of the output is never reached.** -/
theorem copyLoop_forever (hsize : 1 ≤ size) (hreads : ∀ n, (env.reads n).Succeeds)
    (hwrites : WritesFull env size) : ∀ (fuel : Nat) {w : World} {pos : Nat} {numBytes : Int},
    Copying w inFd out o o pos → pos < (w.content o).length →
    copyLoop env size inFd out fuel w numBytes = none := by
  intro fuel
  induction fuel with
  | zero =>
      intro w pos numBytes _ _
      rfl
  | succ fuel ih =>
      intro w pos numBytes h hpos
      have hmore : found env size w.reads ((w.content o).drop pos) ≠ [] := by
        intro hend
        have hnil := (found_eq_nil hsize (hreads _)).mp hend
        have hlen := congrArg List.length hnil
        rw [List.length_drop, List.length_nil] at hlen
        omega
      obtain ⟨w', hcontent, -, -, -, hcopying, hround⟩ :=
        copyLoop_round h (hreads _) (hwrites.succeeds _) rfl hmore rfl
      rw [hround]
      apply ih hcopying
      -- What has been read has been appended, so the position is as far from the end as before.
      have hle : (found env size w.reads ((w.content o).drop pos)).length ≤ size :=
        ((env.reads w.reads).isPrefix_moved _).length_le.trans (List.length_take_le _ _)
      rw [hcontent, appended, Function.update_self, List.length_append,
        hwrites.written hle]
      omega

/-! ### All the files -/

/-- Whenever the output is opened as an input, it and all the inputs in front of it are
empty. -/
def Clear (content : FileId → Content) (o : FileId) (files : List FileId) : Prop :=
  ∀ pre post, files = pre ++ o :: post → ∀ f ∈ o :: pre, content f = []

theorem Clear.cons_self_iff {content : FileId → Content} {rest : List FileId} :
    Clear content o (o :: rest) ↔ content o = [] ∧ Clear content o rest := by
  constructor
  · intro h
    refine ⟨h [] rest rfl o (by simp), ?_⟩
    intro pre post hsplit f hf
    apply h (o :: pre) post
    · rw [hsplit]
      rfl
    · rcases List.mem_cons.mp hf with rfl | hpre
      · simp
      · simp [hpre]
  · rintro ⟨hout, hrest⟩ pre post hsplit f hf
    cases pre with
    | nil =>
        rw [List.mem_singleton.mp hf]
        exact hout
    | cons head pre =>
        rw [List.cons_append, List.cons.injEq] at hsplit
        rw [← hsplit.1] at hf
        apply hrest pre post hsplit.2
        simpa using hf

/-- An input in front of the others is as good as bytes in the output. -/
theorem Clear.cons_iff {content : FileId → Content} {rest : List FileId} (hne : f ≠ o) :
    Clear content o (f :: rest) ↔ Clear (appended content o (content f)) o rest := by
  constructor
  · intro h pre post hsplit g hg
    have hempty := h (f :: pre) post (by rw [hsplit]; rfl)
    by_cases hgo : g = o
    · rw [hgo, appended, Function.update_self, hempty o (by simp), hempty f (by simp)]
      rfl
    · rw [appended, Function.update_of_ne hgo]
      apply hempty
      rcases List.mem_cons.mp hg with rfl | hpre
      · exact absurd rfl hgo
      · simp [hpre]
  · intro h pre post hsplit g hg
    cases pre with
    | nil =>
        rw [List.nil_append, List.cons.injEq] at hsplit
        exact absurd hsplit.1 hne
    | cons head pre =>
        rw [List.cons_append, List.cons.injEq] at hsplit
        rw [← hsplit.1] at hg
        have hempty := h pre post hsplit.2
        have hout := hempty o (by simp)
        rw [appended, Function.update_self, List.append_eq_nil_iff] at hout
        by_cases hgo : g = o
        · rw [hgo]
          exact hout.1
        · by_cases hgf : g = f
          · rw [hgf]
            exact hout.2
          · have hg' := hempty g (by
              simp only [List.mem_cons] at hg ⊢
              tauto)
            rw [appended, Function.update_of_ne hgo] at hg'
            exact hg'

/-- The output is opened as an input while it is empty. -/
theorem filesLoop_self_empty {k : Kern} (size : Nat) (numBytes : Int) (hout : k.world.Appends out o)
    (hopen : env.opens k.world.opens = none) (hread : (env.reads k.world.reads).Succeeds)
    (hempty : k.world.content o = []) :
    ∃ k' : Kern, k'.world.content = k.world.content ∧ k'.world.opens = k.world.opens + 1 ∧
      k'.world.Appends out o ∧
      ∀ fuel rest ofileCount, 1 ≤ fuel →
        filesLoop env size fuel out (o :: rest) k numBytes ofileCount
          = filesLoop env size fuel out rest k' numBytes (ofileCount + 1) := by
  obtain ⟨fd, w₁, hopened, hfd, hcontent₁, hopens₁, hreads₁, -, hcopying⟩ :=
    ksysOpen_input o hopen hout
  have hend : found env size w₁.reads ((w₁.content o).drop 0) = [] := by
    rw [hcontent₁, hempty, hreads₁, found, List.drop_nil, List.take_nil]
    exact (Answer.moved_eq_nil hread).mpr rfl
  obtain ⟨w₂, hcontent₂, hopens₂, -, -, hcopying₂, hloop⟩ :=
    copyLoop_eof hcopying (by rw [hreads₁]; exact hread) hend
  obtain ⟨hout₃, hcontent₃, hopens₃, -, -⟩ := ksysClose_appends hcopying₂.output hcopying.ne
  obtain ⟨k', hworld, hnext⟩ := filesLoop_next hopened hfd (hloop 0 numBytes)
  refine ⟨k', ?_, ?_, ?_, fun fuel rest ofileCount => hnext fuel rest ofileCount⟩
  · rw [hworld, hcontent₃, hcontent₂, hcontent₁]
  · rw [hworld, hopens₃, hopens₂, hopens₁]
  · rw [hworld]
    exact hout₃

/-- The output is opened as an input while there is something in it. -/
theorem filesLoop_self_forever {k : Kern} {numBytes : Int} (hsize : 1 ≤ size)
    (hreads : ∀ n, (env.reads n).Succeeds) (hwrites : WritesFull env size)
    (hout : k.world.Appends out o) (hopen : env.opens k.world.opens = none)
    (hmore : k.world.content o ≠ []) (fuel : Nat) (rest : List FileId) (ofileCount : Nat) :
    filesLoop env size fuel out (o :: rest) k numBytes ofileCount = none := by
  obtain ⟨fd, w₁, hopened, hfd, hcontent₁, -, -, -, hcopying⟩ := ksysOpen_input o hopen hout
  have hpos : 0 < (w₁.content o).length := by
    rw [hcontent₁]
    exact List.length_pos_of_ne_nil hmore
  rw [filesLoop_cons, hopened, if_neg (by simp only; omega),
    copyLoop_forever hsize hreads hwrites fuel hcopying hpos]
  rfl

/-- The `for` loop comes to the end of every file. -/
def Ends (env : Env) (size : Nat) (out : Int) (files : List FileId) (k : Kern) (numBytes : Int)
    (ofileCount : Nat) : Prop :=
  ∃ fuel numBytes' k', filesLoop env size fuel out files k numBytes ofileCount
    = some (.done, numBytes', ofileCount + files.length, k')

theorem ends_cons_iff {enough ofileCount : Nat} {rest : List FileId} {k k' : Kern}
    {numBytes numBytes' : Int}
    (hnext : ∀ fuel rest ofileCount, enough ≤ fuel →
      filesLoop env size fuel out (f :: rest) k numBytes ofileCount
        = filesLoop env size fuel out rest k' numBytes' (ofileCount + 1)) :
    Ends env size out (f :: rest) k numBytes ofileCount ↔
      Ends env size out rest k' numBytes' (ofileCount + 1) := by
  have hcount : ofileCount + (f :: rest).length = ofileCount + 1 + rest.length := by
    rw [List.length_cons]
    omega
  constructor
  · rintro ⟨fuel, numBytes'', k'', hloop⟩
    have hmore := filesLoop_mono (le_max_left fuel enough) hloop
    rw [hnext _ _ _ (le_max_right _ _), hcount] at hmore
    exact ⟨_, _, _, hmore⟩
  · rintro ⟨fuel, numBytes'', k'', hloop⟩
    have hmore := filesLoop_mono (le_max_left fuel enough) hloop
    rw [← hnext _ _ _ (le_max_right _ _), ← hcount] at hmore
    exact ⟨_, _, _, hmore⟩

/-- **When the `for` loop ends.** -/
theorem ends_iff (hsize : 1 ≤ size) (hreads : ∀ n, (env.reads n).Succeeds)
    (hwrites : WritesFull env size) : ∀ {files : List FileId} {k : Kern} {numBytes : Int}
    (ofileCount : Nat), k.world.Appends out o →
    (∀ i < files.length, env.opens (k.world.opens + i) = none) → int32 numBytes = numBytes →
    (Ends env size out files k numBytes ofileCount ↔ Clear k.world.content o files) := by
  intro files
  induction files with
  | nil =>
      intro k numBytes ofileCount _ _ _
      constructor
      · intro _ pre post hsplit
        simp at hsplit
      · intro _
        exact ⟨0, numBytes, k, rfl⟩
  | cons f rest ih =>
      intro k numBytes ofileCount hout hopens hint
      have hopen : env.opens k.world.opens = none := hopens 0 (by simp)
      have hlater : ∀ k' : Kern, k'.world.opens = k.world.opens + 1 →
          ∀ i < rest.length, env.opens (k'.world.opens + i) = none := by
        intro k' heq i hi
        rw [heq, Nat.add_right_comm]
        exact hopens (i + 1) (by simpa using hi)
      by_cases hf : f = o
      · subst hf
        rw [Clear.cons_self_iff]
        by_cases hempty : k.world.content f = []
        · obtain ⟨k₁, hcontent, hopens₁, hout₁, hnext⟩ :=
            filesLoop_self_empty size numBytes hout hopen (hreads _) hempty
          rw [ends_cons_iff hnext, ih (ofileCount + 1) hout₁ (hlater k₁ hopens₁) hint, hcontent]
          exact (and_iff_right hempty).symm
        · constructor
          · rintro ⟨fuel, numBytes', k', hloop⟩
            rw [filesLoop_self_forever hsize hreads hwrites hout hopen hempty] at hloop
            simp at hloop
          · rintro ⟨hnil, -⟩
            exact absurd hnil hempty
      · obtain ⟨chunks, hchunks⟩ :=
          chunks_exist hsize hreads k.world.reads (k.world.content f)
        obtain ⟨k₁, hcontent, hopens₁, -, -, hout₁, hnext⟩ :=
          filesLoop_file hf hout hopen hchunks (fun i _ => hwrites.succeeds _) hint
        rw [ends_cons_iff hnext, ih (ofileCount + 1) hout₁ (hlater k₁ hopens₁) (int32_int32 _),
          hcontent, hwrites.kept _ hchunks.length_le, hchunks.flatten hsize, Clear.cons_iff hf]

/-- A `for` loop that is left for a label has not come to the end of every file. -/
theorem filesLoop_count {fuel : Nat} : ∀ {files : List FileId} {k : Kern} {numBytes : Int}
    {ofileCount : Nat} {r : FilesExit × Int × Nat × Kern},
    filesLoop env size fuel out files k numBytes ofileCount = some r → r.1 ≠ .done →
    r.2.2.1 < ofileCount + files.length := by
  intro files
  induction files with
  | nil =>
      intro k numBytes ofileCount r h hleft
      cases h
      exact absurd rfl hleft
  | cons f rest ih =>
      intro k numBytes ofileCount r h hleft
      rw [List.length_cons]
      rw [filesLoop_cons] at h
      split at h
      · cases h
        simp only
        omega
      · obtain ⟨⟨exit, numBytes', w'⟩, -, hrest⟩ := Option.bind_eq_some_iff.mp h
        cases exit with
        | fail errno =>
            cases hrest
            simp only
            omega
        | eof =>
            have hlt := ih hrest hleft
            omega

/-! ### The whole call -/

/--
**When `xmerge` returns.**  With reads and writes that do not fail and whole writes, the
call comes to the end of every input and returns exactly when, whenever the output is one
of the inputs, it and all the inputs in front of it are empty.
-/
theorem xmerge_returns_iff {k : Kern} (hsize : 1 ≤ size) (happend : p.oflags.append = true)
    (hopens : ∀ i ≤ p.infiles.length, env.opens (k.world.opens + i) = none)
    (hreads : ∀ n, (env.reads n).Succeeds) (hwrites : WritesFull env size) :
    (∃ fuel r, xmerge env size fuel k p false = some r ∧
        r.ofileCount = some p.infiles.length) ↔
      Clear (atStart k.world p) p.outfile p.infiles := by
  obtain ⟨hnonneg, hcontent, hopens₁, -, -, hout⟩ :=
    beforeFiles_ready (hopens 0 (Nat.zero_le _)) happend
  have hinputs : ∀ i < p.infiles.length,
      env.opens ((beforeFiles env k p).world.opens + i) = none := by
    intro i hi
    rw [hopens₁, Nat.add_assoc]
    exact hopens (1 + i) (by omega)
  have hends := ends_iff hsize hreads hwrites 0 hout hinputs (int32_of_lt (le_refl 0) (by omega))
  rw [← hcontent, ← hends]
  constructor
  · rintro ⟨fuel, r, hr, hcount⟩
    rcases xmerge_cases hr with ⟨hneg, -⟩ | ⟨-, exit, numBytes, ofileCount, k', hloop, -, hall, -⟩
    · omega
    rw [hcount, Option.some.injEq] at hall
    have hdone : exit = .done := by
      by_contra hleft
      have hlt := filesLoop_count hloop hleft
      simp only at hlt
      omega
    refine ⟨fuel, numBytes, k', ?_⟩
    rw [hloop, hdone, hall, Nat.zero_add]
  · rintro ⟨fuel, numBytes, k', hloop⟩
    rw [Nat.zero_add] at hloop
    obtain ⟨r, hr, -, hcount, -⟩ := xmerge_of_done (by omega) hloop
    exact ⟨fuel, r, hr, hcount⟩

/-- The output is an input, and it and the input in front of it are empty. -/
theorem xmerge_returns_empty : ∃ fuel r,
    xmerge (chunked 4096 4096) 4096 fuel ⟨.idle fun f => if f = 3 then [7] else [], .userDs, []⟩
      { outfile := 1, infiles := [2, 1, 3], oflags := { append := true, trunc := false },
        few := by decide } false = some r ∧ r.ofileCount = some 3 := by
  refine (xmerge_returns_iff (by decide) rfl (fun _ _ => rfl) (fun _ => ⟨4096, rfl⟩)
    (fun _ => ⟨4096, le_refl _, rfl⟩)).mpr ?_
  apply (Clear.cons_iff (by decide)).mpr
  apply Clear.cons_self_iff.mpr
  refine ⟨rfl, (Clear.cons_iff (by decide)).mpr ?_⟩
  intro pre post hsplit
  simp at hsplit

/-- The output is the only input, and there is a byte in it. -/
theorem xmerge_never_returns :
    ¬∃ fuel r, xmerge (chunked 4096 4096) 4096 fuel ⟨.idle fun _ => [7], .userDs, []⟩
      { outfile := 1, infiles := [1], oflags := { append := true, trunc := false },
        few := by decide } false = some r ∧ r.ofileCount = some 1 := by
  rintro ⟨fuel, r, hr, -⟩
  rw [xmerge_eq, if_neg (by decide), filesLoop_self_forever (by decide) (fun _ => ⟨4096, rfl⟩)
    (fun _ => ⟨4096, le_refl _, rfl⟩) ⟨0, rfl⟩ rfl (by decide)] at hr
  simp at hr

end Xmerge
