/-
The address limit `xmerge` follows its caller's pointers under.

The limit is raised before the `for` loop, because the buffer is the kernel's, and so
every input is opened with it raised: a path in the kernel's memory is taken like any
other.  If the loop is left for a label the count is stored before the limit is lowered,
where the way through the end of the loop lowers it first.

`UserLimit` is about all that is done while the call is under way, for a call that never
returns has followed pointers as well.
-/
import KernelProgramming.Proofs.Xmerge.Exits

namespace Xmerge

variable {env : Env} {size : Nat} {out : Int} {k k' : Kern} {p : Params} {fault : Bool}

/-- The act follows a pointer the caller has supplied. -/
def Act.followsPointer : Act → Bool
  | .copyFromUser => true
  | .ksysOpen _ _ => true
  | .copyToUser _ => true
  | _ => false

/-- The states the `for` loop passes through. -/
inductive LoopVisits (env : Env) (size : Nat) (out : Int) : List FileId → Kern → Kern → Prop
  | start {files : List FileId} {k : Kern} : LoopVisits env size out files k k
  | opened {path : FileId} {rest : List FileId} {k : Kern} :
      LoopVisits env size out (path :: rest) k (k.open env path .rdonly).2
  | next {path : FileId} {rest : List FileId} {k k' : Kern} {w : World}
      (hopen : 0 ≤ (ksysOpen env k.world path .rdonly).1)
      (hcopy : Copies env size (ksysOpen env k.world path .rdonly).1 out
        (ksysOpen env k.world path .rdonly).2 w)
      (hrest : LoopVisits env size out rest
        ({ (k.open env path .rdonly).2 with world := w }.close
          (ksysOpen env k.world path .rdonly).1) k') :
      LoopVisits env size out (path :: rest) k k'

/-- The states the call passes through, whether it returns or not. -/
inductive CallVisits (env : Env) (size : Nat) (k : Kern) (p : Params) (fault : Bool) : Kern → Prop
  | copied : CallVisits env size k p fault ((k.note .kmalloc).note .copyFromUser)
  | opened (hfault : fault = false) : CallVisits env size k p fault
      (((k.note .kmalloc).note .copyFromUser).open env p.outfile p.oflags).2
  | loop {k' : Kern} (hfault : fault = false)
      (hopen : 0 ≤ (ksysOpen env k.world p.outfile p.oflags).1)
      (hloop : LoopVisits env size (ksysOpen env k.world p.outfile p.oflags).1 p.infiles
        (beforeFiles env k p) k') :
      CallVisits env size k p fault k'
  | returned {fuel : Nat} {r : Return Kern} (hreturns : xmerge env size fuel k p fault = some r) :
      CallVisits env size k p fault r.state

/-- The caller's pointers are followed under the address limit the call has been entered with. -/
def UserLimit (env : Env) (size : Nat) (k : Kern) (p : Params) (fault : Bool) : Prop :=
  ∀ k', CallVisits env size k p fault k' → ∀ a ∈ k'.acts.drop k.acts.length,
    a.2.followsPointer = true → a.1 = k.limit

/-- The loop does everything under the limit it is entered with. -/
theorem LoopVisits.acts {files : List FileId} (h : LoopVisits env size out files k k') :
    ∃ acts, k'.acts = k.acts ++ acts ∧ ∀ a ∈ acts, a.1 = k.limit ∧ files ≠ [] := by
  induction h with
  | start => exact ⟨[], (List.append_nil _).symm, by simp⟩
  | @opened path rest k =>
      refine ⟨[(k.limit, .ksysOpen path (ksysOpen env k.world path .rdonly).1)], rfl, ?_⟩
      simp
  | @next path rest k k' w _ _ _ ih =>
      obtain ⟨acts, hadded, hlimit⟩ := ih
      refine ⟨(k.limit, .ksysOpen path (ksysOpen env k.world path .rdonly).1) ::
        (k.limit, .ksysClose (ksysOpen env k.world path .rdonly).1) :: acts, ?_, ?_⟩
      · rw [hadded]
        show (k.acts ++ [_]) ++ [_] ++ acts = _
        simp only [List.append_assoc, List.cons_append, List.nil_append]
        rfl
      · intro a ha
        simp only [List.mem_cons] at ha
        rcases ha with rfl | rfl | ha
        · simp
        · simp
        · exact ⟨(hlimit a ha).1, by simp⟩

/-- The call raises the limit for its inputs, and for nothing else. -/
def Raises (env : Env) (k : Kern) (p : Params) (fault : Bool) : Prop :=
  fault = false ∧ env.opens k.world.opens = none ∧ p.infiles ≠ []

/-- What the call does after the loop. -/
theorem returned_acts {fuel : Nat} {r : Return Kern}
    (hopen : 0 ≤ (ksysOpen env k.world p.outfile p.oflags).1)
    (h : xmerge env size fuel k p false = some r) :
    ∃ acts, r.state.acts = k.acts ++ acts ∧
      ∀ a ∈ acts, a.1 = k.limit ∨ a.1 = .kernelDs ∧ p.infiles ≠ [] := by
  obtain ⟨houtOpen, -, -⟩ := ksysOpen_open hopen
  have hzero : int32 0 = 0 := int32_of_lt (le_refl 0) (by omega)
  rw [xmerge_eq, if_neg (by omega)] at h
  obtain ⟨⟨exit, numBytes, ofileCount, k'⟩, hloop, rfl⟩ := Option.map_eq_some_iff.mp h
  obtain ⟨acts, hacts⟩ := filesLoop_acts hzero houtOpen hloop
  obtain ⟨tail, htail, -, hlimits⟩ := afterFiles_acts k.limit
    (ksysOpen env k.world p.outfile p.oflags).1 numBytes ofileCount exit k'
  -- A loop over no files has nothing to do, and is not left for a label.
  have hnone : p.infiles = [] → acts = [] ∧ exit = .done := by
    intro hnil
    rw [hnil] at hloop
    cases hloop
    exact ⟨List.append_right_eq_self.mp hacts.added.symm, rfl⟩
  have hraised : k'.limit = .kernelDs := hacts.limit
  refine ⟨[(k.limit, .kmalloc), (k.limit, .copyFromUser),
    (k.limit, .ksysOpen p.outfile (ksysOpen env k.world p.outfile p.oflags).1)] ++
      (acts ++ exit.closing k'.limit ++ tail), ?_, ?_⟩
  · rw [htail, hacts.added, beforeFiles_acts]
    simp only [List.append_assoc]
  · intro a ha
    rcases List.mem_append.mp ha with ha | ha
    · left
      simp only [List.mem_cons, List.not_mem_nil, or_false] at ha
      rcases ha with rfl | rfl | rfl <;> rfl
    · rcases List.mem_append.mp ha with ha | ha
      · right
        have hfiles : p.infiles ≠ [] := by
          intro hnil
          obtain ⟨rfl, rfl⟩ := hnone hnil
          simp [FilesExit.closing] at ha
        refine ⟨?_, hfiles⟩
        rcases List.mem_append.mp ha with ha | ha
        · exact hacts.raised a ha
        · cases exit with
          | done => simp [FilesExit.closing] at ha
          | close1 errno => simp [FilesExit.closing] at ha
          | close2 inFd errno =>
              rw [List.mem_singleton.mp ha]
              exact hraised
      · rcases hlimits a ha with hold | ⟨hloop, hexit⟩
        · exact Or.inl hold
        · exact Or.inr ⟨hloop.trans hraised, fun hnil => hexit (hnone hnil).2⟩

/-- **All that the call does** is done under the limit it is entered with, or under the raised
one, and then there is an input. -/
theorem CallVisits.acts (h : CallVisits env size k p fault k') :
    ∃ acts, k'.acts = k.acts ++ acts ∧
      ∀ a ∈ acts, a.1 = k.limit ∨ a.1 = .kernelDs ∧ Raises env k p fault := by
  cases h with
  | copied =>
      refine ⟨[(k.limit, .kmalloc), (k.limit, .copyFromUser)], by simp [Kern.note], ?_⟩
      simp
  | opened hfault =>
      refine ⟨[(k.limit, .kmalloc), (k.limit, .copyFromUser),
        (k.limit, .ksysOpen p.outfile (ksysOpen env k.world p.outfile p.oflags).1)],
        beforeFiles_acts env k p, ?_⟩
      simp
  | loop hfault hopen hloop =>
      obtain ⟨acts, hadded, hlimit⟩ := hloop.acts
      refine ⟨[(k.limit, .kmalloc), (k.limit, .copyFromUser),
        (k.limit, .ksysOpen p.outfile (ksysOpen env k.world p.outfile p.oflags).1)] ++ acts, ?_, ?_⟩
      · rw [hadded, beforeFiles_acts, List.append_assoc]
      · intro a ha
        rcases List.mem_append.mp ha with ha | ha
        · left
          simp only [List.mem_cons, List.not_mem_nil, or_false] at ha
          rcases ha with rfl | rfl | rfl <;> rfl
        · exact Or.inr ⟨(hlimit a ha).1, hfault, opens_of_nonneg hopen, (hlimit a ha).2⟩
  | @returned fuel r hreturns =>
      cases fault with
      | true =>
          cases hreturns
          refine ⟨[(k.limit, .kmalloc), (k.limit, .copyFromUser), (k.limit, .kfree)], ?_, by simp⟩
          simp [quit, Kern.note]
      | false =>
          by_cases hneg : (ksysOpen env k.world p.outfile p.oflags).1 < 0
          · rw [xmerge_eq, if_pos hneg] at hreturns
            cases hreturns
            refine ⟨[(k.limit, .kmalloc), (k.limit, .copyFromUser),
              (k.limit, .ksysOpen p.outfile (ksysOpen env k.world p.outfile p.oflags).1),
              (k.limit, .kfree)], ?_, by simp⟩
            simp [quit, Kern.note, Kern.open]
          · have hopen := not_lt.mp hneg
            obtain ⟨acts, hadded, hlimits⟩ := returned_acts hopen hreturns
            refine ⟨acts, hadded, fun a ha => ?_⟩
            rcases hlimits a ha with hold | ⟨hraised, hfiles⟩
            · exact Or.inl hold
            · exact Or.inr ⟨hraised, rfl, opens_of_nonneg hopen, hfiles⟩

/-- The first input is opened with the limit raised. -/
theorem Raises.visits (h : Raises env k p fault) (size : Nat) :
    ∃ k' path result, CallVisits env size k p fault k' ∧
      (Limit.kernelDs, Act.ksysOpen path result) ∈ k'.acts.drop k.acts.length := by
  obtain ⟨hfault, hopens, hfiles⟩ := h
  obtain ⟨path, rest, hcons⟩ := List.exists_cons_of_ne_nil hfiles
  have hopen : 0 ≤ (ksysOpen env k.world p.outfile p.oflags).1 := by
    unfold ksysOpen
    rw [hopens]
    exact Int.natCast_nonneg _
  have hloop : LoopVisits env size (ksysOpen env k.world p.outfile p.oflags).1 p.infiles
      (beforeFiles env k p) ((beforeFiles env k p).open env path .rdonly).2 := by
    rw [hcons]
    exact LoopVisits.opened
  refine ⟨_, path, (ksysOpen env (beforeFiles env k p).world path .rdonly).1,
    .loop hfault hopen hloop, ?_⟩
  show _ ∈ List.drop k.acts.length ((beforeFiles env k p).acts ++ [_])
  rw [beforeFiles_acts, List.append_assoc, List.drop_left]
  simp [beforeFiles, Kern.setFs]

/--
**When the caller's pointers are followed under the caller's limit.**  The limit must have
been raised already, or there is no input that is opened: `copy_from_user` fails, or the
output cannot be opened, or the list is empty.
-/
theorem userLimit_iff : UserLimit env size k p fault ↔
    k.limit = .kernelDs ∨ fault = true ∨ env.opens k.world.opens ≠ none ∨ p.infiles = [] := by
  have hraises : Raises env k p fault ↔
      ¬(fault = true ∨ env.opens k.world.opens ≠ none ∨ p.infiles = []) := by
    unfold Raises
    rw [not_or, not_or, Bool.not_eq_true, not_not]
  constructor
  · intro huser
    by_cases hold : Raises env k p fault
    · obtain ⟨k', path, result, hvisits, hmem⟩ := hold.visits size
      exact Or.inl (huser k' hvisits _ hmem rfl).symm
    · rw [hraises, not_not] at hold
      exact Or.inr hold
  · intro hholds k' hvisits a ha _
    obtain ⟨acts, hadded, hlimits⟩ := hvisits.acts
    rw [hadded, List.drop_left] at ha
    rcases hlimits a ha with hold | ⟨hraised, hopened⟩
    · exact hold
    · rcases hholds with hkernel | hnot
      · exact hraised.trans hkernel.symm
      · exact absurd hnot (hraises.mp hopened)

/-- A process of the user merges two files. -/
theorem userLimit_fails :
    ¬UserLimit diskFull 4096 ⟨.idle threeFiles, .userDs, []⟩ twoInputs false := by
  intro huser
  have hopened := huser _ (.returned (show
    xmerge diskFull 4096 2 ⟨.idle threeFiles, .userDs, []⟩ twoInputs false = some _ from rfl))
    (.kernelDs, .ksysOpen 2 1) (by decide) rfl
  exact absurd hopened (by decide)

end Xmerge
