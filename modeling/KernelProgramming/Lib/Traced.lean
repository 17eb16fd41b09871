/-
Functions that tell what they have done.

A value of `Traced ε α` is a result and the list of events on the way to it.  A loop that
is given a number of iterations may have no result, and then the events are those up to
where it was stopped.  `Always` says something of every event, and has one rule for
`bind`.

More iterations only ever add events (`Grows`), and none to a loop that has ended.  So to
know something of all events it is enough to look at large numbers of iterations
(`always_iff_of_grows`).
-/
import Mathlib.Tactic.Common

universe u v

/-- A result, if there is one, and the events on the way. -/
structure Traced (ε : Type v) (α : Type u) where
  result : Option α
  trace : List ε

namespace Traced

variable {ε : Type v} {α β : Type u} {t t' : Traced ε α} {f f' : α → Traced ε β} {P : ε → Prop}

instance : Monad (Traced ε) where
  pure a := ⟨some a, []⟩
  bind t f :=
    match t.result with
    | none => ⟨none, t.trace⟩
    | some a => ⟨(f a).result, t.trace ++ (f a).trace⟩

/-- There are no iterations left. -/
def stuck : Traced ε α := ⟨none, []⟩

/-- These events happen. -/
def emit (es : List ε) : Traced ε PUnit := ⟨some ⟨⟩, es⟩

theorem bind_some {a : α} {es : List ε} : (⟨some a, es⟩ : Traced ε α) >>= f
    = ⟨(f a).result, es ++ (f a).trace⟩ := rfl

theorem bind_none {es : List ε} : (⟨none, es⟩ : Traced ε α) >>= f = ⟨none, es⟩ := rfl

@[simp] theorem result_pure (a : α) : (pure a : Traced ε α).result = some a := rfl

@[simp] theorem result_emit (es : List ε) : (emit es).result = some ⟨⟩ := rfl

@[simp] theorem result_bind (t : Traced ε α) (f : α → Traced ε β) :
    (t >>= f).result = t.result.bind fun a => (f a).result := by
  rcases t with ⟨_ | a, es⟩
  · rfl
  · rfl

/-! ### Every event -/

/-- This is true of every event. -/
def Always (P : ε → Prop) (t : Traced ε α) : Prop := ∀ e ∈ t.trace, P e

theorem always_mk {r : Option α} {es : List ε} : Always P ⟨r, es⟩ ↔ ∀ e ∈ es, P e := Iff.rfl

/-- **What is done one after the other.** -/
theorem always_bind_iff : Always P (t >>= f) ↔
    Always P t ∧ ∀ a, t.result = some a → Always P (f a) := by
  rcases t with ⟨_ | a, es⟩
  · rw [bind_none]
    simp [Always]
  · rw [bind_some]
    simp only [Always, List.forall_mem_append, Option.some.injEq, forall_eq']

theorem always_pure (a : α) : Always P (pure a : Traced ε α) :=
  fun _ he => absurd he List.not_mem_nil

theorem always_stuck : Always P (stuck : Traced ε α) :=
  fun _ he => absurd he List.not_mem_nil

theorem always_emit {es : List ε} : Always P (emit es) ↔ ∀ e ∈ es, P e := Iff.rfl

theorem always_bind_of_result {a : α} (h : t.result = some a) :
    Always P (t >>= f) ↔ Always P t ∧ Always P (f a) := by
  rw [always_bind_iff, h]
  simp only [Option.some.injEq, forall_eq']

/-! ### More iterations -/

/-- The same, or the first had no iterations left and the second has gone on. -/
def Grows (t t' : Traced ε α) : Prop := t = t' ∨ t.result = none ∧ t.trace <+: t'.trace

theorem Grows.refl (t : Traced ε α) : Grows t t := Or.inl rfl

theorem Grows.of_stuck (t : Traced ε α) : Grows stuck t := Or.inr ⟨rfl, List.nil_prefix⟩

theorem Grows.bind (ht : Grows t t') (hf : ∀ a, Grows (f a) (f' a)) :
    Grows (t >>= f) (t' >>= f') := by
  rcases ht with rfl | ⟨hnone, hfront⟩
  · rcases t with ⟨_ | a, es⟩
    · exact Or.inl rfl
    · rw [bind_some, bind_some]
      rcases hf a with heq | ⟨hnone, hfront⟩
      · rw [heq]
        exact Or.inl rfl
      · exact Or.inr ⟨hnone, (List.prefix_append_right_inj es).mpr hfront⟩
  · refine Or.inr ⟨?_, ?_⟩
    · rw [result_bind, hnone]
      rfl
    · obtain ⟨r, es⟩ := t
      obtain rfl : r = none := hnone
      rw [bind_none]
      refine hfront.trans ?_
      rcases t' with ⟨_ | a, es'⟩
      · exact List.prefix_rfl
      · exact List.prefix_append _ _

theorem Grows.always (h : Grows t t') (halways : Always P t') : Always P t := by
  rcases h with rfl | ⟨-, hfront⟩
  · exact halways
  · exact fun e he => halways e (hfront.subset he)

theorem Grows.result {a : α} (h : Grows t t') (hresult : t.result = some a) :
    t'.result = some a := by
  rcases h with rfl | ⟨hnone, -⟩
  · exact hresult
  · rw [hnone] at hresult
    exact absurd hresult (by simp)

/-- **Large numbers of iterations** are enough. -/
theorem always_iff_of_grows {g : ℕ → Traced ε α}
    (hgrows : ∀ fuel fuel', fuel ≤ fuel' → Grows (g fuel) (g fuel')) (enough : ℕ) :
    (∀ fuel, Always P (g fuel)) ↔ ∀ fuel, enough ≤ fuel → Always P (g fuel) := by
  refine ⟨fun h fuel _ => h fuel, fun h fuel => ?_⟩
  exact (hgrows fuel (fuel + enough) (by omega)).always (h _ (by omega))

end Traced
