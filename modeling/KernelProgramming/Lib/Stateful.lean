/-
Programs that change a state and may fail.

`Post m s Q` says that `m`, started in `s`, does not fail, and that `Q` holds of what it
returns and of the state it leaves.  `Fails m s e` says that it fails with `e`.  A sequence of
two programs is taken apart by one rule for each.
-/
import Mathlib.Tactic.Common

namespace Stateful

variable {σ ε α β : Type} {m : StateT σ (Except ε) α} {f : α → StateT σ (Except ε) β} {s s' : σ}
  {a : α} {e : ε}

/-- `m` returns from `s`, with `Q`. -/
def Post (m : StateT σ (Except ε) α) (s : σ) (Q : α → σ → Prop) : Prop :=
  ∃ a s', m s = .ok (a, s') ∧ Q a s'

/-- `m` fails from `s`, with `e`. -/
def Fails (m : StateT σ (Except ε) α) (s : σ) (e : ε) : Prop := m s = .error e

theorem run_bind_ok (h : m s = .ok (a, s')) : (m >>= f) s = f a s' := by
  show (m s >>= fun p => f p.1 p.2) = f a s'
  rw [h]
  rfl

theorem run_bind_error (h : m s = .error e) : (m >>= f) s = .error e := by
  show (m s >>= fun p => f p.1 p.2) = .error e
  rw [h]
  rfl

/-- A program that succeeds is a first part that succeeds and a second that goes on from there. -/
theorem of_run_bind {b : β} (h : (m >>= f) s = .ok (b, s')) :
    ∃ a t, m s = .ok (a, t) ∧ f a t = .ok (b, s') := by
  cases hm : m s with
  | error e =>
      rw [run_bind_error hm] at h
      cases h
  | ok p =>
      obtain ⟨a, t⟩ := p
      rw [run_bind_ok hm] at h
      exact ⟨a, t, rfl, h⟩

theorem Post.of_eq {Q : α → σ → Prop} (h : m s = .ok (a, s')) (hQ : Q a s') : Post m s Q :=
  ⟨a, s', h, hQ⟩

theorem Post.pure {Q : α → σ → Prop} (hQ : Q a s) :
    Post (Pure.pure a : StateT σ (Except ε) α) s Q :=
  ⟨a, s, rfl, hQ⟩

theorem Post.mono {Q R : α → σ → Prop} (h : Post m s Q) (hQR : ∀ a s', Q a s' → R a s') :
    Post m s R := by
  obtain ⟨a, s', hm, hQ⟩ := h
  exact ⟨a, s', hm, hQR a s' hQ⟩

/-- **One after the other.** -/
theorem Post.bind {R : α → σ → Prop} {Q : β → σ → Prop} (h : Post m s R)
    (hf : ∀ a s', R a s' → Post (f a) s' Q) : Post (m >>= f) s Q := by
  obtain ⟨a, s', hm, hR⟩ := h
  obtain ⟨b, t, hfa, hQ⟩ := hf a s' hR
  exact ⟨b, t, (run_bind_ok hm).trans hfa, hQ⟩

/-- The first part is known exactly. -/
theorem Post.bind_eq {Q : β → σ → Prop} (hm : m s = .ok (a, s')) (hf : Post (f a) s' Q) :
    Post (m >>= f) s Q := by
  obtain ⟨b, t, hfa, hQ⟩ := hf
  exact ⟨b, t, (run_bind_ok hm).trans hfa, hQ⟩

theorem Post.get_bind {g : σ → StateT σ (Except ε) β} {Q : β → σ → Prop} (h : Post (g s) s Q) :
    Post (get >>= g) s Q := h

theorem Post.of_modify {t : σ → σ} {Q : PUnit → σ → Prop} (hQ : Q ⟨⟩ (t s)) :
    Post (modify t : StateT σ (Except ε) PUnit) s Q :=
  ⟨⟨⟩, t s, rfl, hQ⟩

theorem Post.modify_bind {g : PUnit → StateT σ (Except ε) β} {t : σ → σ} {Q : β → σ → Prop}
    (h : Post (g ⟨⟩) (t s) Q) : Post (modify t >>= g) s Q := h

/-- What is proved of a program holds of what it did. -/
theorem Post.holds {Q : α → σ → Prop} (h : Post m s Q) (hm : m s = .ok (a, s')) : Q a s' := by
  obtain ⟨b, t, hb, hQ⟩ := h
  rw [hm] at hb
  cases hb
  exact hQ

end Stateful
