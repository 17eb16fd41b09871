/-
The scull device over whole runs.

A run starts when the module is loaded, and the module then does not set `quantum` and `qset`:
they are zero until the device is first opened for writing only.  Up to there it holds nothing and
a read finds its end, but a write divides by zero.  From there on nothing goes wrong as long as
the parameters are sane when they are taken over, and everything allocated can be given back.
-/
import KernelProgramming.Lib.Runs
import KernelProgramming.Proofs.Labs.ScullFile

namespace Scull

open Runs Stateful

variable {k k' : Kernel} {nodes : List Node}

/-- The device is opened for writing only. -/
def Op.wronly : Op → Bool
  | .open flags => Scull.wronly flags
  | _ => false

def Op.isWrite : Op → Bool
  | .write .. => true
  | _ => false

/-- The parameters are sane when the device takes them over. -/
def TakesSane (k : Kernel) (c : Op × Outcome) : Prop :=
  c.1.wronly = true → Sane k.scullQuantum k.scullQset

/-- The sizes are those of a device that has been opened for writing, or there is nothing. -/
inductive Ready (k : Kernel) (nodes : List Node) : Prop
  | sane (h : Sane k.dev.quantum k.dev.qset)
  | untouched (hq : k.dev.quantum = 0) (hn : k.dev.qset = 0) (hsize : k.dev.size = 0)
      (hnodes : nodes = [])

/-- What every run keeps. -/
def Works (k : Kernel) : Prop := ∃ nodes, Holds k nodes ∧ Ready k nodes

theorem Settled.ready {nodes' : List Node} (h : Settled k k') (hsane : Sane k.dev.quantum k.dev.qset) :
    Ready k' nodes' := by
  refine Ready.sane ?_
  rw [h.dev]
  exact hsane

/-! ### One call -/

theorem trim_works (h : Works k) (hsane : Sane k.scullQuantum k.scullQset) :
    Post scullTrim k fun _ k' => Works k' ∧ k'.dev.quantum ≠ 0 := by
  obtain ⟨nodes, hholds, -⟩ := h
  refine (scullTrim_spec hholds).mono ?_
  rintro _ k' ⟨hm, -, -, -, hdev⟩
  have hsane' : Sane k'.dev.quantum k'.dev.qset := by
    rw [hdev]
    exact hsane
  refine ⟨⟨[], ⟨hm, by rw [hdev]; rfl, fun nd hmem => absurd hmem List.not_mem_nil⟩,
    Ready.sane hsane'⟩, ?_⟩
  exact Int.ne_of_gt hsane'.quantum_pos

theorem read_works (h : Works k) (room count pos : ℕ) :
    Post (scullRead room count pos) k fun _ k' => Works k' ∧ k'.dev.quantum = k.dev.quantum := by
  by_cases hpos : pos < k.dev.size
  · obtain ⟨nodes, hholds, hready⟩ := h
    cases hready with
    | untouched _ _ hsize _ =>
        rw [hsize] at hpos
        exact absurd hpos (Nat.not_lt_zero _)
    | sane hsane =>
        refine (scullRead_spec hholds hsane.sized hpos room count).mono ?_
        rintro _ k' ⟨-, hsettled, extra, hholds', -⟩
        exact ⟨⟨_, hholds', hsettled.ready hsane⟩, by rw [hsettled.dev]⟩
  · exact Post.of_eq (scullRead_end (Nat.le_of_not_lt hpos) room count) ⟨h, rfl⟩

/-- A write before the sizes are set divides by zero. -/
theorem write_divides (hq : k.dev.quantum = 0) (hn : k.dev.qset = 0) (buf : List UInt8)
    (count pos : ℕ) : Fails (scullWrite buf count pos) k .divideError := by
  have hlocate : locate k.dev.quantum k.dev.qset pos k = .error .divideError := by
    rw [hq, hn]
    rfl
  unfold Fails scullWrite
  rw [run_bind_ok (rfl : (get : Driver Kernel) k = .ok (k, k))]
  exact run_bind_error hlocate

theorem write_works (h : Works k) (hq : k.dev.quantum ≠ 0) (buf : List UInt8) (count pos : ℕ) :
    Post (scullWrite buf count pos) k fun _ k' => Works k' ∧ k'.dev.quantum = k.dev.quantum := by
  obtain ⟨nodes, hholds, hready⟩ := h
  cases hready with
  | untouched hzero => exact absurd hzero hq
  | sane hsane =>
      refine (scullWrite_spec hholds hsane.sized count).mono ?_
      rintro out k' ⟨nodes', ⟨-, hstarved⟩ | ⟨u, hwrote, -⟩⟩
      · exact ⟨⟨nodes', hstarved.holds, hstarved.settled.ready hsane⟩,
          by rw [hstarved.settled.dev]⟩
      · have hdev := hwrote.settled.dev
        refine ⟨⟨nodes', hwrote.holds, Ready.sane ?_⟩, ?_⟩
        · rw [hdev]
          exact hsane
        · rw [hdev]
          rfl

theorem param_works (h : Works k) (q n : Int) :
    Works { k with scullQuantum := q, scullQset := n } := by
  obtain ⟨nodes, hholds, hready⟩ := h
  refine ⟨nodes, ⟨⟨hholds.mem.owns, hholds.mem.fresh⟩, hholds.head, hholds.shaped⟩, ?_⟩
  cases hready with
  | sane hsane => exact Ready.sane hsane
  | untouched hq hn hsize hnodes => exact Ready.untouched hq hn hsize hnodes

/-- **Every call but a write to an untouched device** returns, and the sizes are set exactly by an
open for writing. -/
theorem call_works {op : Op} (h : Works k)
    (hsane : op.wronly = true → Sane k.scullQuantum k.scullQset)
    (hop : op.isWrite = true → k.dev.quantum ≠ 0) :
    Post (call op) k fun _ k' => Works k' ∧
      (k'.dev.quantum = 0 ↔ k.dev.quantum = 0 ∧ op.wronly = false) := by
  cases op with
  | «open» flags =>
      show Post (scullOpen flags >>= fun _ => pure done) k _
      unfold scullOpen
      by_cases hw : wronly flags = true
      · rw [if_pos hw]
        refine Post.bind (trim_works h (hsane hw)) ?_
        rintro _ k₁ ⟨hworks, hne⟩
        refine Post.pure ⟨hworks, ?_⟩
        simp [Op.wronly, hw, hne]
      · rw [if_neg hw]
        refine Post.bind_eq (rfl : (pure () : Driver Unit) k = .ok ((), k)) (Post.pure ⟨h, ?_⟩)
        simp [Op.wronly, hw]
  | release =>
      refine Post.pure ⟨h, ?_⟩
      simp [Op.wronly]
  | read room count pos =>
      refine (read_works h room count pos).mono ?_
      rintro _ k' ⟨hworks, hq⟩
      refine ⟨hworks, ?_⟩
      simp [Op.wronly, hq]
  | write buf count pos =>
      refine (write_works h (hop rfl) buf count pos).mono ?_
      rintro _ k' ⟨hworks, hq⟩
      refine ⟨hworks, ?_⟩
      simp [Op.wronly, hq]
  | setQuantum value =>
      refine Post.modify_bind (Post.pure ⟨param_works h value k.scullQset, ?_⟩)
      simp [Op.wronly]
  | setQset value =>
      refine Post.modify_bind (Post.pure ⟨param_works h k.scullQuantum value, ?_⟩)
      simp [Op.wronly]

/-! ### Runs -/

theorem call_of_step {c : Op × Outcome} (h : step k c = some k') : call c.1 k = .ok (c.2, k') := by
  unfold step at h
  cases hcall : call c.1 k with
  | error e =>
      rw [hcall] at h
      cases h
  | ok r =>
      obtain ⟨out, k₁⟩ := r
      rw [hcall] at h
      by_cases hout : out = c.2
      · simp only [hout, if_true] at h
        rw [hout, Option.some.inj h]
      · simp only [hout, if_false] at h
        cases h

/-- A call that returned was not a write to an untouched device. -/
theorem step_works {c : Op × Outcome} (h : Works k) (hsane : TakesSane k c)
    (hstep : step k c = some k') :
    Works k' ∧ (k'.dev.quantum = 0 ↔ k.dev.quantum = 0 ∧ c.1.wronly = false) := by
  have hcall := call_of_step hstep
  have hop : c.1.isWrite = true → k.dev.quantum ≠ 0 := by
    intro hw hzero
    obtain ⟨nodes, hholds, hready⟩ := h
    cases hready with
    | sane hsane => exact absurd hzero (Int.ne_of_gt hsane.quantum_pos)
    | untouched hq hn _ _ =>
        obtain ⟨op, out⟩ := c
        cases op with
        | write buf count pos =>
            have hfails := write_divides hq hn buf count pos
            rw [Fails] at hfails
            rw [call, hfails] at hcall
            cases hcall
        | _ => cases hw
  exact (call_works h hsane hop).holds hcall

theorem loaded_works (grant : ℕ → Option (ℕ → UInt8)) (quantum qset : Int) :
    Works (loaded grant quantum qset) := by
  refine ⟨[], ⟨⟨Alloc.owns_nil_iff.mpr rfl, fun _ _ => rfl⟩, rfl, ?_⟩,
    Ready.untouched rfl rfl rfl rfl⟩
  exact fun nd hmem => absurd hmem List.not_mem_nil

/-- The sizes at the end of a run are zero when it has opened the device for writing nowhere. -/
theorem run_works (trace : List (Op × Outcome)) :
    ∀ {k k' : Kernel}, Works k → EachStep step TakesSane k trace → run step k trace = some k' →
      Works k' ∧ (k'.dev.quantum = 0 ↔ k.dev.quantum = 0 ∧ ∀ c ∈ trace, c.1.wronly = false) := by
  induction trace with
  | nil =>
      intro k k' h _ hrun
      cases hrun
      exact ⟨h, by simp⟩
  | cons c rest ih =>
      intro k k' h heach hrun
      obtain ⟨k₁, hfirst, hrest⟩ := run_cons hrun
      obtain ⟨hworks, hzero⟩ := step_works h heach.1 hfirst
      obtain ⟨hworks', hzero'⟩ := ih hworks (heach.2 k₁ hfirst) hrest
      refine ⟨hworks', ?_⟩
      rw [hzero', hzero, List.forall_mem_cons, and_assoc]

/-- There is always memory, and it holds zeros. -/
def grantAll : ℕ → Option (ℕ → UInt8) := fun _ => some fun _ => 0

/-- **The only fault of the driver** over any run is a division by zero, in a write to a device
that was never opened for writing only since the module was loaded. -/
theorem call_faults_iff (grant : ℕ → Option (ℕ → UInt8)) (quantum qset : Int)
    (trace : List (Op × Outcome)) (k : Kernel)
    (hsane : EachStep step TakesSane (loaded grant quantum qset) trace)
    (hrun : run step (loaded grant quantum qset) trace = some k) (op : Op)
    (hop : op.wronly = true → Sane k.scullQuantum k.scullQset) (e : Oops) :
    call op k = .error e ↔
      e = .divideError ∧ op.isWrite = true ∧ ∀ c ∈ trace, c.1.wronly = false := by
  obtain ⟨hworks, hzero⟩ := run_works trace (loaded_works grant quantum qset) hsane hrun
  have hzero' : k.dev.quantum = 0 ↔ ∀ c ∈ trace, c.1.wronly = false :=
    hzero.trans (and_iff_right rfl)
  rw [← hzero']
  by_cases hbad : op.isWrite = true ∧ k.dev.quantum = 0
  · obtain ⟨nodes, hholds, hready⟩ := hworks
    cases hready with
    | sane hs => exact absurd hbad.2 (Int.ne_of_gt hs.quantum_pos)
    | untouched hq hn _ _ =>
        cases op with
        | write buf count pos =>
            have hfails : call (.write buf count pos) k = .error .divideError :=
              write_divides hq hn buf count pos
            rw [hfails]
            constructor
            · intro heq
              exact ⟨(Except.error.inj heq).symm, hbad⟩
            · rintro ⟨rfl, -⟩
              rfl
        | _ => cases hbad.1
  · have hreturns := call_works hworks hop fun hw hz => hbad ⟨hw, hz⟩
    obtain ⟨out, k', hcall, -⟩ := hreturns
    rw [hcall]
    constructor
    · intro heq
      cases heq
    · rintro ⟨-, hw, hz⟩
      exact absurd ⟨hw, hz⟩ hbad

/-- A write to a device that was only released, and one after an open for writing. -/
theorem call_faults_iff_example :
    call (.write [7] 1 0) (loaded grantAll 4 2) = .error .divideError ∧
      call (.write [7] 1 0) (resetDev (loaded grantAll 4 2)) ≠ .error .divideError := by
  constructor
  · refine (call_faults_iff grantAll 4 2 [(.release, done)] _ ⟨?_, fun _ _ => trivial⟩ rfl _ ?_ _).mpr
      ⟨rfl, rfl, ?_⟩
    · exact fun h => absurd h (by decide)
    · exact fun h => absurd h (by decide)
    · intro c hc
      rw [List.mem_singleton.mp hc]
      rfl
  · intro hfault
    have hiff := call_faults_iff grantAll 4 2 [(.open 1, done)] _ ⟨?_, fun _ _ => trivial⟩ rfl
      (.write [7] 1 0) ?_ .divideError
    · exact absurd ((hiff.mp hfault).2.2 _ (List.mem_singleton.mpr rfl)) (by decide)
    · exact fun _ => ⟨by decide, by decide, by decide⟩
    · exact fun h => absurd h (by decide)

/-- **Nothing is lost and nothing is freed twice**: after any run `scull_trim`, which is what
`scull_exit` begins with, gets through, and no block is left. -/
theorem trim_frees_all (grant : ℕ → Option (ℕ → UInt8)) (quantum qset : Int)
    (trace : List (Op × Outcome)) (k : Kernel)
    (hsane : EachStep step TakesSane (loaded grant quantum qset) trace)
    (hrun : run step (loaded grant quantum qset) trace = some k) :
    ∃ k', scullTrim k = .ok ((), k') ∧ k'.heap = fun _ => none := by
  obtain ⟨⟨nodes, hholds, -⟩, -⟩ := run_works trace (loaded_works grant quantum qset) hsane hrun
  obtain ⟨_, k', htrim, hm, -⟩ := scullTrim_spec hholds
  exact ⟨k', htrim, Alloc.owns_nil_iff.mp hm.owns⟩

theorem trim_frees_all_example :
    ∃ k, run step (loaded grantAll 4 2)
        [(.open 1, done), (.write [7, 8] 2 9, { ret := 2, fPos := 11, out := [] })] = some k ∧
      ∃ k', scullTrim k = .ok ((), k') ∧ k'.heap = fun _ => none := by
  obtain ⟨k, hk⟩ := Option.isSome_iff_exists.mp (rfl : (run step (loaded grantAll 4 2)
    [(.open 1, done), (.write [7, 8] 2 9, { ret := 2, fPos := 11, out := [] })]).isSome = true)
  refine ⟨k, hk, trim_frees_all grantAll 4 2
    [(.open 1, done), (.write [7, 8] 2 9, { ret := 2, fPos := 11, out := [] })] k
    ⟨?_, fun k₁ _ => ⟨?_, fun _ _ => trivial⟩⟩ hk⟩
  · exact fun _ => ⟨by decide, by decide, by decide⟩
  · exact fun h => absurd h (by decide)

end Scull
