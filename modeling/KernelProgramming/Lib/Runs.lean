/-
Runs of a machine that performs one operation at a time.

`step s a` is the state after operation `a`, or `none` when `a` cannot be
performed in `s`.  Everything said about whole runs is said here once: an
invariant that every step keeps holds at the end of every run, and a property
that a step keeps exactly when it meets a condition holds all along a run exactly
when every step of the run meets the condition.
-/
import Mathlib.Tactic.Common

namespace Runs

variable {σ ℓ : Type}

/-- Perform a list of operations, from left to right. -/
def run (step : σ → ℓ → Option σ) (s : σ) : List ℓ → Option σ
  | [] => some s
  | a :: rest => (step s a).bind fun s' => run step s' rest

/-- `P` holds in every state the run visits, the first and the last included. -/
def Always (step : σ → ℓ → Option σ) (P : σ → Prop) (s : σ) : List ℓ → Prop
  | [] => P s
  | a :: rest => P s ∧ ∀ s', step s a = some s' → Always step P s' rest

/-- Every operation of the run is performed in a state where it meets `G`. -/
def EachStep (step : σ → ℓ → Option σ) (G : σ → ℓ → Prop) (s : σ) : List ℓ → Prop
  | [] => True
  | a :: rest => G s a ∧ ∀ s', step s a = some s' → EachStep step G s' rest

variable {step : σ → ℓ → Option σ}

/-- A run that gets through has performed its first operation. -/
theorem run_cons {s t : σ} {a : ℓ} {rest : List ℓ} (h : run step s (a :: rest) = some t) :
    ∃ s', step s a = some s' ∧ run step s' rest = some t :=
  Option.bind_eq_some_iff.mp h

/-- A run can be cut in two. -/
theorem run_append {s u : σ} {l₁ l₂ : List ℓ} (h : run step s (l₁ ++ l₂) = some u) :
    ∃ t, run step s l₁ = some t ∧ run step t l₂ = some u := by
  induction l₁ generalizing s with
  | nil => exact ⟨s, rfl, h⟩
  | cons a rest ih =>
      obtain ⟨s', hfirst, hrest⟩ := run_cons h
      obtain ⟨t, ht, hu⟩ := ih hrest
      refine ⟨t, ?_, hu⟩
      rw [run, hfirst]
      exact ht

/-- **What every step keeps, every run keeps.** -/
theorem run_invariant {I : σ → Prop}
    (hstep : ∀ s a s', I s → step s a = some s' → I s') :
    ∀ (ops : List ℓ) (s t : σ), I s → run step s ops = some t → I t := by
  intro ops
  induction ops with
  | nil =>
      intro s t hs hrun
      cases hrun
      exact hs
  | cons a rest ih =>
      intro s t hs hrun
      obtain ⟨s', hfirst, hrest⟩ := run_cons hrun
      exact ih s' t (hstep s a s' hs hfirst) hrest

/-- What holds all along a run holds where it starts. -/
theorem always_first {P : σ → Prop} : ∀ (ops : List ℓ) (s : σ), Always step P s ops → P s := by
  intro ops s h
  cases ops with
  | nil => exact h
  | cons a rest => exact h.1

/-- What holds all along a run holds where it ends. -/
theorem always_last {P : σ → Prop} :
    ∀ (ops : List ℓ) (s t : σ), Always step P s ops → run step s ops = some t → P t := by
  intro ops
  induction ops with
  | nil =>
      intro s t h hrun
      cases hrun
      exact h
  | cons a rest ih =>
      intro s t h hrun
      obtain ⟨s', hfirst, hrest⟩ := run_cons hrun
      exact ih s' t (h.2 s' hfirst) hrest

/-- **What the steps that meet a condition keep** holds all along a run of such steps. -/
theorem always_of_eachStep {I P : σ → Prop} {G : σ → ℓ → Prop} (hP : ∀ s, I s → P s)
    (hI : ∀ s a s', I s → G s a → step s a = some s' → I s') :
    ∀ (ops : List ℓ) (s : σ), I s → EachStep step G s ops → Always step P s ops := by
  intro ops
  induction ops with
  | nil =>
      intro s hs _
      exact hP s hs
  | cons a rest ih =>
      intro s hs heach
      refine ⟨hP s hs, fun s' hfirst => ?_⟩
      exact ih s' (hI s a s' hs heach.1 hfirst) (heach.2 s' hfirst)

/-- A condition that the operations of a run meet in any state. -/
theorem eachStep_of_all {G : σ → ℓ → Prop} :
    ∀ {ops : List ℓ} {s : σ}, (∀ s, ∀ a ∈ ops, G s a) → EachStep step G s ops := by
  intro ops
  induction ops with
  | nil =>
      intro s _
      trivial
  | cons a rest ih =>
      intro s h
      exact ⟨h s a List.mem_cons_self, fun s' _ => ih fun s b hb => h s b (List.mem_cons_of_mem a hb)⟩

/-- The steps of two runs in a row. -/
theorem eachStep_append {G : σ → ℓ → Prop} {l₁ l₂ : List ℓ} :
    ∀ {s t : σ}, EachStep step G s l₁ → run step s l₁ = some t → EachStep step G t l₂ →
      EachStep step G s (l₁ ++ l₂) := by
  induction l₁ with
  | nil =>
      intro s t _ hrun h₂
      cases hrun
      exact h₂
  | cons a rest ih =>
      intro s t h₁ hrun h₂
      obtain ⟨s', hfirst, hrest⟩ := run_cons hrun
      refine ⟨h₁.1, fun u hu => ?_⟩
      rw [hfirst] at hu
      cases hu
      exact ih (h₁.2 s' hfirst) hrest h₂

/--
**A property kept exactly by the steps that meet a condition.**  `I` is what every
step keeps whatever it does.  Where `I` and `P` hold, a step that meets `G` keeps
`P` and one that does not breaks it; so `P` holds all along a run exactly when
every step of it meets `G`.
-/
theorem always_iff_eachStep {I P : σ → Prop} {G : σ → ℓ → Prop}
    (hI : ∀ s a s', I s → step s a = some s' → I s')
    (hP : ∀ s a s', I s → P s → step s a = some s' → (P s' ↔ G s a)) :
    ∀ (ops : List ℓ) (s t : σ), I s → P s → run step s ops = some t →
      (Always step P s ops ↔ EachStep step G s ops) := by
  intro ops
  induction ops with
  | nil =>
      intro s t _ hp _
      exact ⟨fun _ => trivial, fun _ => hp⟩
  | cons a rest ih =>
      intro s t hi hp hrun
      obtain ⟨s', hfirst, hrest⟩ := run_cons hrun
      have hi' : I s' := hI s a s' hi hfirst
      have hsame : ∀ u, step s a = some u → u = s' := by
        intro u hu
        rw [hfirst] at hu
        exact (Option.some.inj hu).symm
      constructor
      · rintro ⟨-, hall⟩
        have hnext := hall s' hfirst
        have hp' : P s' := always_first rest s' hnext
        refine ⟨(hP s a s' hi hp hfirst).mp hp', fun u hu => ?_⟩
        rw [hsame u hu]
        exact (ih s' t hi' hp' hrest).mp hnext
      · rintro ⟨hg, hall⟩
        have hp' : P s' := (hP s a s' hi hp hfirst).mpr hg
        refine ⟨hp, fun u hu => ?_⟩
        rw [hsame u hu]
        exact (ih s' t hi' hp' hrest).mpr (hall s' hfirst)

/-! ### Simulation -/

/-- A run of a machine that is given by a relation. -/
def Path {τ : Type} (rel : τ → ℓ → τ → Prop) (t : τ) : List ℓ → τ → Prop
  | [], u => t = u
  | a :: rest, u => ∃ t', rel t a t' ∧ Path rel t' rest u

theorem path_map {τ κ : Type} {rel : τ → ℓ → τ → Prop} {rel' : τ → κ → τ → Prop} {g : ℓ → κ}
    (hrel : ∀ t a u, rel t a u → rel' t (g a) u) {l : List ℓ} :
    ∀ {t u : τ}, Path rel t l u → Path rel' t (l.map g) u := by
  induction l with
  | nil => exact fun h => h
  | cons a rest ih =>
      rintro t u ⟨t', hfirst, hrest⟩
      exact ⟨t', hrel t a t' hfirst, ih hrest⟩

/-- **A machine that follows another step by step follows it run by run.** -/
theorem run_simulates {τ : Type} {rel : τ → ℓ → τ → Prop} {R : σ → τ → Prop} {G : σ → ℓ → Prop}
    (hsim : ∀ s a s' t, R s t → G s a → step s a = some s' → ∃ t', rel t a t' ∧ R s' t') :
    ∀ (ops : List ℓ) (s s' : σ) (t : τ), R s t → EachStep step G s ops →
      run step s ops = some s' → ∃ t', Path rel t ops t' ∧ R s' t' := by
  intro ops
  induction ops with
  | nil =>
      intro s s' t hR _ hrun
      cases hrun
      exact ⟨t, rfl, hR⟩
  | cons a rest ih =>
      intro s s' t hR heach hrun
      obtain ⟨s₁, hfirst, hrest⟩ := run_cons hrun
      obtain ⟨t₁, hrel, hR₁⟩ := hsim s a s₁ t hR heach.1 hfirst
      obtain ⟨t', hpath, hR'⟩ := ih s₁ s' t₁ hR₁ (heach.2 s₁ hfirst) hrest
      exact ⟨t', ⟨t₁, hrel, hpath⟩, hR'⟩

/-! ### Notes -/

section notes

variable {β : Type} [DecidableEq β] {note : σ → σ → β}

/-- A machine whose operations come with what is noted of the states around them. -/
def noting (step : σ → ℓ → Option σ) (note : σ → σ → β) (s : σ) (a : ℓ × β) : Option σ :=
  (step s a.1).filter fun s' => note s s' = a.2

theorem noting_eq_some {s s' : σ} {a : ℓ × β} (h : noting step note s a = some s') :
    step s a.1 = some s' ∧ note s s' = a.2 := by
  obtain ⟨hstep, hnote⟩ := Option.filter_eq_some_iff.mp h
  exact ⟨hstep, of_decide_eq_true hnote⟩

/-- **Notes can be taken of every run.** -/
theorem run_noting (note : σ → σ → β) : ∀ {ops : List ℓ} {s t : σ}, run step s ops = some t →
    ∃ notes : List (ℓ × β), notes.map Prod.fst = ops ∧ run (noting step note) s notes = some t := by
  intro ops
  induction ops with
  | nil =>
      intro s t hrun
      exact ⟨[], rfl, hrun⟩
  | cons a rest ih =>
      intro s t hrun
      obtain ⟨s', hfirst, hrest⟩ := run_cons hrun
      obtain ⟨notes, hmap, hnotes⟩ := ih hrest
      refine ⟨(a, note s s') :: notes, by rw [List.map_cons, hmap], ?_⟩
      have hnoted : noting step note s (a, note s s') = some s' :=
        Option.filter_eq_some_iff.mpr ⟨hfirst, decide_eq_true rfl⟩
      rw [run, hnoted]
      exact hnotes

theorem eachStep_noting {G : σ → ℓ → Prop} : ∀ {notes : List (ℓ × β)} {s : σ},
    EachStep step G s (notes.map Prod.fst) →
      EachStep (noting step note) (fun s a => G s a.1) s notes := by
  intro notes
  induction notes with
  | nil =>
      intro s _
      trivial
  | cons a rest ih =>
      intro s heach
      exact ⟨heach.1, fun s' hfirst => ih (heach.2 s' (noting_eq_some hfirst).1)⟩

end notes

/-- What the steps that meet a condition keep holds at the end of a run of such steps. -/
theorem run_invariant_of_eachStep {I : σ → Prop} {G : σ → ℓ → Prop}
    (hstep : ∀ s a s', I s → G s a → step s a = some s' → I s') (ops : List ℓ) (s t : σ) (hs : I s)
    (heach : EachStep step G s ops) (hrun : run step s ops = some t) : I t :=
  always_last ops s t (always_of_eachStep (fun _ h => h) hstep ops s hs heach) hrun

end Runs
