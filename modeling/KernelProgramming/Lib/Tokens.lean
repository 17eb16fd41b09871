/-
The tokens of a list.

A predicate tells the separators.  The tokens are the stretches between them that are
not empty.  `head?_tokens` says what the first one is in terms of `dropWhile`, so that
the tokens for two kinds of separators can be compared.
-/
import Mathlib.Data.List.TakeWhile
import Mathlib.Tactic.Common

namespace Tokens

variable {α : Type*} {p : α → Bool} {a : α} {l w rest : List α}

def tokens (p : α → Bool) (l : List α) : List (List α) := (l.splitOnP p).filter fun t => !t.isEmpty

theorem tokens_sep (ha : p a = true) (l : List α) : tokens p (a :: l) = tokens p l := by
  unfold tokens
  rw [List.splitOnP_cons_eq_if_modifyHead, if_pos ha, List.filter_cons_of_neg (by simp)]

/-- A token in front of a separator. -/
theorem tokens_append_sep (hne : w ≠ []) (hw : ∀ b ∈ w, p b = false) (ha : p a = true)
    (rest : List α) : tokens p (w ++ a :: rest) = w :: tokens p rest := by
  unfold tokens
  rw [List.splitOnP_append_cons_of_forall_mem hw a ha rest,
    List.filter_cons_of_pos (by simpa using hne)]

/-- The last token. -/
theorem tokens_single (hne : w ≠ []) (hw : ∀ b ∈ w, p b = false) : tokens p w = [w] := by
  unfold tokens
  rw [List.splitOnP_eq_singleton hw, List.filter_cons_of_pos (by simpa using hne), List.filter_nil]

/-- A token ends where a separator follows, or nothing. -/
theorem tokens_append (hne : w ≠ []) (hw : ∀ b ∈ w, p b = false)
    (hrest : ∀ b ∈ rest.head?, p b = true) :
    tokens p (w ++ rest) = w :: tokens p rest := by
  cases rest with
  | nil =>
      rw [List.append_nil, tokens_single hne hw]
      rfl
  | cons b rest =>
      have hb := hrest b rfl
      rw [tokens_append_sep hne hw hb, tokens_sep hb]

theorem tokens_dropWhile (l : List α) : tokens p (l.dropWhile p) = tokens p l := by
  induction l with
  | nil => rfl
  | cons a l ih =>
      cases ha : p a with
      | false => rw [List.dropWhile_cons_of_neg (by simp [ha])]
      | true => rw [List.dropWhile_cons_of_pos ha, ih, tokens_sep ha]

theorem head?_dropWhile (l : List α) : ∀ b ∈ (l.dropWhile p).head?, p b = false := by
  intro b hb
  have hhead := List.head?_dropWhile_not p l
  rw [Option.mem_def.mp hb] at hhead
  exact hhead

/-- What is not dropped is a token and what follows it. -/
theorem dropWhile_eq_append (l : List α) : ∃ w rest, l.dropWhile p = w ++ rest ∧
    (∀ b ∈ w, p b = false) ∧ (∀ b ∈ rest.head?, p b = true) ∧ (w = [] → l.dropWhile p = []) := by
  refine ⟨(l.dropWhile p).takeWhile (!p ·), (l.dropWhile p).dropWhile (!p ·),
    List.takeWhile_append_dropWhile.symm, ?_, ?_, ?_⟩
  · intro b hb
    simpa using List.mem_takeWhile_imp hb
  · intro b hb
    simpa using head?_dropWhile _ b hb
  · intro hnil
    cases hdrop : l.dropWhile p with
    | nil => rfl
    | cons b rest =>
        have hb := head?_dropWhile l b (by rw [hdrop]; rfl)
        rw [hdrop, List.takeWhile_cons_of_pos (by simp [hb])] at hnil
        cases hnil

/-- **The first token.** -/
theorem head?_tokens : (tokens p l).head? = some w ↔ w ≠ [] ∧ (∀ b ∈ w, p b = false) ∧
    ∃ rest, l.dropWhile p = w ++ rest ∧ ∀ b ∈ rest.head?, p b = true := by
  constructor
  · intro h
    obtain ⟨w', rest, hdrop, hw', hrest, hnil⟩ := dropWhile_eq_append (p := p) l
    rw [← tokens_dropWhile, hdrop] at h
    by_cases hne : w' = []
    · rw [← hdrop, hnil hne] at h
      cases h
    · rw [tokens_append hne hw' hrest] at h
      obtain rfl : w' = w := Option.some.inj h
      exact ⟨hne, hw', rest, hdrop, hrest⟩
  · rintro ⟨hne, hw, rest, hdrop, hrest⟩
    rw [← tokens_dropWhile, hdrop, tokens_append hne hw hrest]
    rfl

theorem tokens_eq_nil_iff : tokens p l = [] ↔ ∀ b ∈ l, p b = true := by
  rw [← List.dropWhile_eq_nil_iff, ← tokens_dropWhile]
  obtain ⟨w, rest, hdrop, hw, hrest, hnil⟩ := dropWhile_eq_append (p := p) l
  constructor
  · intro h
    by_cases hne : w = []
    · exact hnil hne
    · rw [hdrop, tokens_append hne hw hrest] at h
      cases h
  · intro h
    rw [h]
    rfl

end Tokens
