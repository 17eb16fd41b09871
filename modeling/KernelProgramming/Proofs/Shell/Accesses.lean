/-
The functions that note what they use.

They return what the functions without notes return, and with more iterations they note
the same and possibly more.
-/
import KernelProgramming.Proofs.Shell.Quoting
import KernelProgramming.Shell.Access

namespace Shell.Accessing

open Traced

variable {pid exitStatus : Int} {line : Line} {s : Scan} {fuel fuel' i j : Nat}

/-! ### What is returned -/

theorem result_get (line : Line) (i : Nat) : (get line i).result = some (line.get i) := rfl

theorem result_skipBlanks (line : Line) : ∀ fuel i,
    (skipBlanks line fuel i).result = Shell.skipBlanks line fuel i := by
  intro fuel
  induction fuel with
  | zero =>
      intro i
      rfl
  | succ fuel ih =>
      intro i
      rw [skipBlanks, Shell.skipBlanks, result_bind, result_get, Option.bind_some]
      split
      · exact ih (i + 1)
      · rfl

theorem result_pathEnd (line : Line) : ∀ fuel i,
    (pathEnd line fuel i).result = Shell.pathEnd line fuel i := by
  intro fuel
  induction fuel with
  | zero =>
      intro i
      rfl
  | succ fuel ih =>
      intro i
      rw [pathEnd, Shell.pathEnd]
      split
      · rw [result_bind, result_get, Option.bind_some]
        split
        · rfl
        · exact ih (i + 1)
      · rfl

theorem result_getPath (line : Line) (fuel i : Nat) :
    (getPath line fuel i).result = Shell.getPath line fuel i := by
  unfold getPath Shell.getPath copyPath
  simp only [result_bind, result_skipBlanks, result_pathEnd, result_emit, result_pure,
    Option.bind_some]
  refine congrArg _ (funext fun j => ?_)
  rw [Option.map_eq_bind]
  rfl

theorem result_redirect (line : Line) (fuel : Nat) (kind : CString → Redirection) (i : Nat) :
    (redirect line fuel kind i).result
      = (Shell.getPath line fuel i).bind fun found =>
          (Shell.skipBlanks line fuel (found.2 + 1)).map fun i => (some (kind found.1), i) := by
  unfold redirect
  simp only [result_bind, result_getPath, result_skipBlanks, result_pure]
  refine congrArg _ (funext fun found => ?_)
  rw [Option.map_eq_bind]
  rfl

theorem result_processRedirection (line : Line) (fuel i : Nat) :
    (processRedirection line fuel i).result = Shell.processRedirection line fuel i := by
  unfold processRedirection Shell.processRedirection
  dsimp only
  rw [result_bind, result_get, Option.bind_some]
  split
  · rw [result_bind, result_get, Option.bind_some]
    split
    · exact result_redirect ..
    · exact result_redirect ..
  · split
    · rename_i hand
      rw [result_bind, result_get, Option.bind_some]
      split
      · rename_i hboth
        rw [if_pos ⟨hand, hboth⟩]
        exact result_redirect ..
      · rename_i hboth
        rw [if_neg fun h => hboth h.2, if_neg (by rw [hand]; decide)]
        rfl
    · rename_i hand
      have hnot : ¬(line.get i = '&' ∧ line.get (i + 1) = '>') := fun h => hand h.1
      rw [if_neg hnot]
      split
      · exact result_redirect ..
      · rfl

theorem result_atMark (line : Line) (s : Scan) : (atMark line s).result
    = some (s.delim ≠ '\'' ∧ line.get s.i = '$' ∧
        (line.get (s.i + 1) = '$' ∨ line.get (s.i + 1) = '?') : Bool) := by
  unfold atMark
  by_cases hdelim : s.delim = '\''
  · simp [hdelim]
  · by_cases hdollar : line.get s.i = '$'
    · by_cases hmark : line.get (s.i + 1) = '$'
      · simp [hdelim, hdollar, hmark, result_get]
      · simp [hdelim, hdollar, hmark, result_get]
    · simp [hdelim, hdollar, result_get]

theorem result_scanBody (pid exitStatus : Int) (line : Line) (fuel : Nat) (s : Scan) :
    (scanBody pid exitStatus line fuel s).result = Shell.scanBody pid exitStatus line fuel s := by
  unfold scanBody Shell.scanBody
  dsimp only
  rw [result_bind, result_get, Option.bind_some]
  split
  · simp only [endArg, result_bind, result_emit, result_pure, result_skipBlanks, Option.bind_some]
    rw [Option.map_eq_bind]
    rfl
  · split
    · simp only [endArg, result_bind, result_emit, result_pure, Option.bind_some]
    · split
      · rfl
      · rw [result_bind, result_atMark, Option.bind_some]
        by_cases hmarked : s.delim ≠ '\'' ∧ line.get s.i = '$' ∧
            (line.get (s.i + 1) = '$' ∨ line.get (s.i + 1) = '?')
        · rw [if_pos (decide_eq_true hmarked), if_pos hmarked]
          simp only [expand, result_bind, result_get, result_emit, Option.bind_some]
          split
          · simp only [endArg, result_bind, result_emit, result_pure, Option.bind_some]
          · rfl
        · rw [if_neg (by simpa using hmarked), if_neg hmarked, result_bind,
            result_processRedirection, Option.map_eq_bind]
          refine congrArg _ (funext fun found => ?_)
          obtain ⟨_ | r, i⟩ := found
          · rfl
          · rfl

theorem result_scanLoop (pid exitStatus : Int) (line : Line) : ∀ fuel s,
    (scanLoop pid exitStatus line fuel s).result = Shell.scanLoop pid exitStatus line fuel s := by
  intro fuel
  induction fuel with
  | zero =>
      intro s
      rfl
  | succ fuel ih =>
      intro s
      rw [scanLoop, Shell.scanLoop]
      split
      · rw [result_bind, result_scanBody]
        refine congrArg _ (funext fun r => ?_)
        obtain ⟨left, s'⟩ := r
        cases left with
        | true => rfl
        | false => exact ih s'
      · rfl

/-- **The function with notes returns what the function without them returns.** -/
theorem result_processCmd (pid exitStatus : Int) (line : Line) (fuel : Nat) :
    (processCmd pid exitStatus line fuel).result = Shell.processCmd pid exitStatus line fuel := by
  unfold processCmd Shell.processCmd
  simp only [result_bind, result_skipBlanks, result_scanLoop, result_emit, result_pure,
    Option.bind_some]
  refine congrArg _ (funext fun i => ?_)
  rw [Option.map_eq_bind]
  rfl

/-! ### More iterations -/

theorem grows_skipBlanks (line : Line) : ∀ {fuel fuel' : Nat}, fuel ≤ fuel' → ∀ i,
    Grows (skipBlanks line fuel i) (skipBlanks line fuel' i) := by
  intro fuel
  induction fuel with
  | zero =>
      intro fuel' _ i
      exact Grows.of_stuck _
  | succ fuel ih =>
      intro fuel' hle i
      obtain ⟨more, rfl⟩ := Nat.exists_eq_add_one_of_ne_zero (show fuel' ≠ 0 by omega)
      rw [skipBlanks, skipBlanks]
      refine Grows.bind (Grows.refl _) fun c => ?_
      split
      · exact ih (by omega) (i + 1)
      · exact Grows.refl _

theorem grows_pathEnd (line : Line) : ∀ {fuel fuel' : Nat}, fuel ≤ fuel' → ∀ i,
    Grows (pathEnd line fuel i) (pathEnd line fuel' i) := by
  intro fuel
  induction fuel with
  | zero =>
      intro fuel' _ i
      exact Grows.of_stuck _
  | succ fuel ih =>
      intro fuel' hle i
      obtain ⟨more, rfl⟩ := Nat.exists_eq_add_one_of_ne_zero (show fuel' ≠ 0 by omega)
      rw [pathEnd, pathEnd]
      split
      · refine Grows.bind (Grows.refl _) fun c => ?_
        split
        · exact Grows.refl _
        · exact ih (by omega) (i + 1)
      · exact Grows.refl _

theorem grows_redirect (hle : fuel ≤ fuel') (kind : CString → Redirection) (i : Nat) :
    Grows (redirect line fuel kind i) (redirect line fuel' kind i) := by
  unfold redirect getPath
  refine Grows.bind ?_ fun found => ?_
  · refine Grows.bind (grows_skipBlanks line hle _) fun j => ?_
    exact Grows.bind (grows_pathEnd line hle _) fun i => Grows.refl _
  · exact Grows.bind (grows_skipBlanks line hle _) fun i => Grows.refl _

theorem grows_processRedirection (hle : fuel ≤ fuel') (i : Nat) :
    Grows (processRedirection line fuel i) (processRedirection line fuel' i) := by
  unfold processRedirection
  refine Grows.bind (Grows.refl _) fun c => ?_
  split
  · refine Grows.bind (Grows.refl _) fun d => ?_
    split
    · exact grows_redirect hle _ _
    · exact grows_redirect hle _ _
  · split
    · refine Grows.bind (Grows.refl _) fun d => ?_
      split
      · exact grows_redirect hle _ _
      · exact Grows.refl _
    · split
      · exact grows_redirect hle _ _
      · exact Grows.refl _

theorem grows_scanBody (hle : fuel ≤ fuel') (s : Scan) :
    Grows (scanBody pid exitStatus line fuel s) (scanBody pid exitStatus line fuel' s) := by
  unfold scanBody
  refine Grows.bind (Grows.refl _) fun c => ?_
  split
  · refine Grows.bind (Grows.refl _) fun s' => ?_
    exact Grows.bind (grows_skipBlanks line hle _) fun i => Grows.refl _
  · split
    · exact Grows.refl _
    · split
      · exact Grows.refl _
      · refine Grows.bind (Grows.refl _) fun marked => ?_
        split
        · exact Grows.refl _
        · exact Grows.bind (grows_processRedirection hle _) fun found => Grows.refl _

theorem grows_scanLoop : ∀ {fuel fuel' : Nat}, fuel ≤ fuel' → ∀ s,
    Grows (scanLoop pid exitStatus line fuel s) (scanLoop pid exitStatus line fuel' s) := by
  intro fuel
  induction fuel with
  | zero =>
      intro fuel' _ s
      exact Grows.of_stuck _
  | succ fuel ih =>
      intro fuel' hle s
      obtain ⟨more, rfl⟩ := Nat.exists_eq_add_one_of_ne_zero (show fuel' ≠ 0 by omega)
      rw [scanLoop, scanLoop]
      split
      · refine Grows.bind (grows_scanBody hle s) fun r => ?_
        split
        · exact Grows.refl _
        · exact ih (by omega) r.2
      · exact Grows.refl _

theorem grows_processCmd (hle : fuel ≤ fuel') :
    Grows (processCmd pid exitStatus line fuel) (processCmd pid exitStatus line fuel') := by
  unfold processCmd
  refine Grows.bind (grows_skipBlanks line hle _) fun i => ?_
  exact Grows.bind (grows_scanLoop hle _) fun s => Grows.refl _

theorem skipSpaces_mono {mem : Int → Char} {q : Int} : ∀ {fuel fuel' : Nat} {p : Int},
    fuel ≤ fuel' → skipSpaces mem fuel p = some q → skipSpaces mem fuel' p = some q := by
  intro fuel
  induction fuel with
  | zero =>
      intro fuel' p _ h
      exact absurd h (by simp [skipSpaces])
  | succ fuel ih =>
      intro fuel' p hle h
      obtain ⟨more, rfl⟩ := Nat.exists_eq_add_one_of_ne_zero (show fuel' ≠ 0 by omega)
      rw [skipSpaces] at h
      rw [skipSpaces]
      split at h
      · rename_i hblank
        rw [if_pos hblank]
        exact ih (by omega) h
      · rename_i hblank
        rw [if_neg hblank]
        exact h

theorem grows_splitLoop (n : Nat) : ∀ {fuel fuel' : Nat}, fuel ≤ fuel' →
    ∀ (mem : Int → Char) (cmdlines : List Int) (tmp : Int),
    Grows (splitLoop n fuel mem cmdlines tmp) (splitLoop n fuel' mem cmdlines tmp) := by
  intro fuel
  induction fuel with
  | zero =>
      intro fuel' _ mem cmdlines tmp
      exact Grows.of_stuck _
  | succ fuel ih =>
      intro fuel' hle mem cmdlines tmp
      obtain ⟨more, rfl⟩ := Nat.exists_eq_add_one_of_ne_zero (show fuel' ≠ 0 by omega)
      rw [splitLoop, splitLoop]
      refine Grows.bind (Grows.refl _) fun _ => ?_
      cases Memory.strchr '\x00' '|' mem tmp (n + 1) with
      | none => exact Grows.refl _
      | some p =>
          dsimp only
          cases hskip : skipSpaces (Function.update mem p '\x00') (fuel + 1) (p + 1) with
          | none => exact Grows.of_stuck _
          | some tmp' =>
              rw [skipSpaces_mono (by omega) hskip]
              exact ih (by omega) _ _ tmp'

end Shell.Accessing
