/-
Does the scan stay inside the line?

`always_processCmd_iff` says for any property of the cells what it takes that every cell
the scan uses has it.  The elements of the command store what they store, and as for the
reads only a redirection that runs out of the line matters.

Every iteration moves on, whatever the state is (`scanBody_advances`).  So the scan ends
and stays inside exactly when no redirection runs out of the line (`staysInside_iff`).
-/
import KernelProgramming.Proofs.Shell.Elements

namespace Shell

open Traced Fuel

variable {pid exitStatus : Int} {line : Line} {s s' r : Scan} {fuel i j : Nat} {P : Access → Prop}

/-! ### The elements together -/

/-- A redirection goes up to the end of the text. -/
def RunsOut (es : List Element) : Prop := ∃ path, .runsOut path ∈ es

/-- What the elements store, one after the other. -/
def stores (pid exitStatus : Int) : Nat → Nat → List Element → List Access
  | _, _, [] => []
  | j, n, e :: es =>
      e.stores pid exitStatus j n ++
        stores pid exitStatus (e.argLength pid exitStatus j) (e.argCount n) es

/-- The number of arguments in the end. -/
def argCount (n : Nat) (es : List Element) : Nat := es.foldl Element.argCount n

theorem runsOut_cons {e : Element} {es : List Element} (h : ∀ path, e ≠ .runsOut path) :
    RunsOut (e :: es) ↔ RunsOut es := by
  unfold RunsOut
  refine exists_congr fun path => ?_
  rw [List.mem_cons, or_iff_right fun heq => h path heq.symm]

/-! ### The loop -/

theorem always_scanLoop_done (h : line.strlen ≤ s.i) (fuel : Nat) :
    Always P (Accessing.scanLoop pid exitStatus line fuel s) := by
  cases fuel with
  | zero => exact always_stuck
  | succ fuel =>
      rw [Accessing.scanLoop, if_neg (by omega)]
      exact always_pure _

/-- An iteration, and what comes after it. -/
theorem always_scanLoop_succ (h : s.i < line.strlen) :
    Always P (Accessing.scanLoop pid exitStatus line (fuel + 1) s) ↔
      Always P (Accessing.scanBody pid exitStatus line (fuel + 1) s) ∧
        ∀ next, (Accessing.scanBody pid exitStatus line (fuel + 1) s).result = some next →
          next.1 = false → Always P (Accessing.scanLoop pid exitStatus line fuel next.2) := by
  rw [Accessing.scanLoop, if_pos h, always_bind_iff]
  refine and_congr_right fun _ => forall_congr' fun next => imp_congr_right fun _ => ?_
  obtain ⟨_ | _, s'⟩ := next
  · exact ⟨fun hnext _ => hnext, fun hnext => hnext rfl⟩
  · exact iff_of_true (always_pure _) (fun hfalse => absurd hfalse (by simp))

theorem always_scanLoop_large (pid exitStatus : Int) (line : Line) (s : Scan) (enough : Nat) :
    (∀ fuel, Always P (Accessing.scanLoop pid exitStatus line fuel s)) ↔
      ∀ fuel, enough ≤ fuel → Always P (Accessing.scanLoop pid exitStatus line fuel s) :=
  always_iff_of_grows (fun _ _ hle => Accessing.grows_scanLoop hle s) enough

theorem always_scanLoop_takes {e : Element} {delim : Char} {suf : CString} (h : s.i < line.strlen)
    (htakes : Takes P pid exitStatus line s e delim suf s') :
    (∀ fuel, Always P (Accessing.scanLoop pid exitStatus line fuel s)) ↔
      (∀ a ∈ e.stores pid exitStatus s.arg.length s.argv.length, P a) ∧
        ∀ fuel, Always P (Accessing.scanLoop pid exitStatus line fuel s') := by
  obtain ⟨enough, hbody⟩ := htakes.body
  have hstep : ∀ fuel, enough ≤ fuel →
      (Always P (Accessing.scanLoop pid exitStatus line (fuel + 1) s) ↔
        (∀ a ∈ e.stores pid exitStatus s.arg.length s.argv.length, P a) ∧
          Always P (Accessing.scanLoop pid exitStatus line fuel s')) := by
    intro fuel hfuel
    obtain ⟨hresult, halways⟩ := hbody (fuel + 1) (by omega)
    rw [always_scanLoop_succ h, halways, hresult]
    refine and_congr_right fun _ => ⟨fun hall => hall _ rfl rfl, fun hnext next heq _ => ?_⟩
    cases heq
    exact hnext
  constructor
  · intro hall
    refine ⟨((hstep enough (le_refl _)).mp (hall _)).1, ?_⟩
    exact (always_scanLoop_large _ _ _ _ enough).mpr fun fuel hfuel =>
      ((hstep fuel hfuel).mp (hall _)).2
  · rintro ⟨hstores, hrest⟩
    refine (always_scanLoop_large _ _ _ _ (enough + 1)).mpr fun fuel hfuel => ?_
    obtain ⟨fuel, rfl⟩ := Nat.exists_eq_add_one_of_ne_zero (show fuel ≠ 0 by omega)
    exact (hstep fuel (by omega)).mpr ⟨hstores, hrest fuel⟩

theorem always_scanLoop_leaves {e : Element} (h : s.i < line.strlen)
    (hleaves : Leaves P pid exitStatus line s e s') :
    (∀ fuel, Always P (Accessing.scanLoop pid exitStatus line fuel s)) ↔
      ∀ a ∈ e.stores pid exitStatus s.arg.length s.argv.length, P a := by
  have hstep : ∀ fuel, Always P (Accessing.scanLoop pid exitStatus line (fuel + 1) s) ↔
      ∀ a ∈ e.stores pid exitStatus s.arg.length s.argv.length, P a := by
    intro fuel
    obtain ⟨hresult, halways⟩ := hleaves.body (fuel + 1)
    rw [always_scanLoop_succ h, halways, hresult]
    refine and_iff_left fun next heq hfalse => ?_
    cases heq
    exact absurd hfalse (by simp)
  rw [always_scanLoop_large _ _ _ _ 1]
  constructor
  · intro hall
    exact (hstep 0).mp (hall 1 (le_refl _))
  · intro hstores fuel hfuel
    obtain ⟨fuel, rfl⟩ := Nat.exists_eq_add_one_of_ne_zero (show fuel ≠ 0 by omega)
    exact (hstep fuel).mpr hstores

/-- The loop that skips blanks does not go back. -/
theorem skipBlanks_ge : ∀ {fuel i : Nat}, skipBlanks line fuel i = some j → i ≤ j := by
  intro fuel
  induction fuel with
  | zero =>
      intro i h
      exact absurd h (by simp [skipBlanks])
  | succ fuel ih =>
      intro i h
      rw [skipBlanks] at h
      split at h
      · exact Nat.le_of_succ_le (ih h)
      · cases h
        exact le_refl _

theorem always_scanLoop_runsOn {e : Element} {redirection : Redirection} (h : s.i < line.strlen)
    (hruns : RunsOn P pid exitStatus line s e redirection) :
    (∀ fuel, Always P (Accessing.scanLoop pid exitStatus line fuel s)) ↔
      (∀ a ∈ e.stores pid exitStatus s.arg.length s.argv.length, P a) ∧
        ∀ fuel, Always P (Accessing.skipBlanks line fuel (line.strlen + 1)) := by
  obtain ⟨enough, hbody⟩ := hruns.body
  have hstep : ∀ fuel, enough ≤ fuel →
      (Always P (Accessing.scanLoop pid exitStatus line (fuel + 1) s) ↔
        (∀ a ∈ e.stores pid exitStatus s.arg.length s.argv.length, P a) ∧
          Always P (Accessing.skipBlanks line (fuel + 1) (line.strlen + 1))) := by
    intro fuel hfuel
    obtain ⟨hresult, halways⟩ := hbody (fuel + 1) (by omega)
    rw [always_scanLoop_succ h, halways, hresult]
    refine and_iff_left fun next heq _ => ?_
    -- The position is behind the terminator, and the loop is over.
    obtain ⟨i, hskip, rfl⟩ := Option.map_eq_some_iff.mp heq
    have hge := skipBlanks_ge hskip
    exact always_scanLoop_done (by dsimp only; omega) fuel
  have hlarge := always_iff_of_grows (P := P) (g := fun fuel =>
    Accessing.skipBlanks line fuel (line.strlen + 1))
    (fun _ _ hle => Accessing.grows_skipBlanks line hle _) (enough + 1)
  rw [hlarge, always_scanLoop_large _ _ _ _ (enough + 1)]
  constructor
  · intro hall
    refine ⟨((hstep enough (le_refl _)).mp (hall _ (le_refl _))).1, fun fuel hfuel => ?_⟩
    obtain ⟨fuel, rfl⟩ := Nat.exists_eq_add_one_of_ne_zero (show fuel ≠ 0 by omega)
    exact ((hstep fuel (by omega)).mp (hall _ hfuel)).2
  · rintro ⟨hstores, hskip⟩ fuel hfuel
    obtain ⟨fuel, rfl⟩ := Nat.exists_eq_add_one_of_ne_zero (show fuel ≠ 0 by omega)
    exact (hstep fuel (by omega)).mpr ⟨hstores, hskip _ hfuel⟩

/-! ### The scan -/

/-- **Induction along the scan.**  What is true where the line ends, and goes from behind an
element to in front of it, is true of every state and the elements that are left. -/
theorem scan_induction (pid exitStatus : Int) {motive : Scan → List Element → Prop}
    (hread : ∀ k, k ≤ line.strlen → P (.read k))
    (hdone : ∀ s, line.strlen ≤ s.i → motive s [])
    (htakes : ∀ s s' e delim suf es, s.i < line.strlen →
      Takes P pid exitStatus line s e delim suf s' → (∀ path, e ≠ .runsOut path) →
      motive s' es → motive s (e :: es))
    (hleaves : ∀ s s' copied, s.i < line.strlen →
      Leaves P pid exitStatus line s (.last copied) s' → motive s [.last copied])
    (hruns : ∀ s path r, s.i < line.strlen →
      RunsOn P pid exitStatus line s (.runsOut path) r → motive s [.runsOut path])
    (delim : Char) (suf : CString) :
    ∀ {s : Scan}, s.delim = delim → (delim = ' ' ∨ delim = '\'' ∨ delim = '"') → line.At s.i suf →
    motive s (elements delim suf) := by
  induction delim, suf using elements.induct with
  | case1 delim =>
      intro s _ _ h
      have hstrlen := h.strlen
      rw [List.length_nil] at hstrlen
      rw [elements]
      exact hdone s (by omega)
  | case2 delim c suf ih =>
      intro s hdelim hquote h
      have hstrlen := h.strlen
      rw [List.length_cons] at hstrlen
      have hquote' := element_delim delim c suf hquote
      have hdoes : Does P pid exitStatus line s _ _ _ := scanBody_element hread h (by rwa [hdelim])
      rw [hdelim] at hdoes
      rw [elements]
      generalize element delim c suf = found at ih hquote' hdoes ⊢
      obtain ⟨e, delim', rest⟩ := found
      dsimp only at ih hquote' hdoes ⊢
      cases hdoes with
      | takes htaken hends =>
          obtain ⟨s', htaken⟩ := htaken
          exact htakes s s' e delim' rest _ (by omega) htaken hends
            (ih htaken.delim hquote' htaken.behind)
      | leaves hleft =>
          obtain ⟨s', hleft⟩ := hleft
          rw [elements]
          exact hleaves s s' _ (by omega) hleft
      | runsOn hrun =>
          obtain ⟨r, hrun⟩ := hrun
          rw [elements]
          exact hruns s _ r (by omega) hrun

/-- **What the scan uses.** -/
theorem always_scan_iff (hread : ∀ k, k ≤ line.strlen → P (.read k)) {delim : Char} {suf : CString}
    (hdelim : s.delim = delim) (hquote : delim = ' ' ∨ delim = '\'' ∨ delim = '"')
    (h : line.At s.i suf) :
    (∀ fuel, Always P (Accessing.scanLoop pid exitStatus line fuel s)) ↔
      (∀ a ∈ stores pid exitStatus s.arg.length s.argv.length (elements delim suf), P a) ∧
        (RunsOut (elements delim suf) →
          ∀ fuel, Always P (Accessing.skipBlanks line fuel (line.strlen + 1))) := by
  refine scan_induction pid exitStatus (motive := fun s es =>
    (∀ fuel, Always P (Accessing.scanLoop pid exitStatus line fuel s)) ↔
      (∀ a ∈ stores pid exitStatus s.arg.length s.argv.length es, P a) ∧
        (RunsOut es → ∀ fuel, Always P (Accessing.skipBlanks line fuel (line.strlen + 1))))
    hread ?_ ?_ ?_ ?_ delim suf hdelim hquote h
  · intro s hend
    refine iff_of_true (fun fuel => always_scanLoop_done hend fuel) ⟨?_, ?_⟩
    · exact fun _ ha => absurd ha List.not_mem_nil
    · exact fun ⟨_, hmem⟩ => absurd hmem List.not_mem_nil
  · intro s s' e delim suf es hi htakes hends ih
    rw [always_scanLoop_takes hi htakes, ih, htakes.arg, htakes.argv, runsOut_cons hends, stores,
      List.forall_mem_append, and_assoc]
  · intro s s' copied hi hleaves
    rw [always_scanLoop_leaves hi hleaves, stores, stores, List.append_nil]
    refine (and_iff_left ?_).symm
    rintro ⟨path, hmem⟩
    exact absurd hmem (by simp)
  · intro s path r hi hruns
    rw [always_scanLoop_runsOn hi hruns, stores, stores, List.append_nil]
    refine and_congr_right fun _ => ⟨fun hskip _ => hskip, fun hskip => hskip ?_⟩
    exact ⟨path, List.mem_singleton_self _⟩

/-! ### Where the scan ends -/

theorem Takes.leads_iff {e : Element} {delim : Char} {suf : CString} (h : s.i < line.strlen)
    (htakes : Takes P pid exitStatus line s e delim suf s') :
    Leads pid exitStatus line s r ↔ Leads pid exitStatus line s' r := by
  obtain ⟨enough, hbody⟩ := htakes.body
  refine Leads.step_iff enough h fun fuel hfuel => ?_
  rw [← Accessing.result_scanBody]
  exact (hbody fuel hfuel).1

theorem Leaves.leads {e : Element} (h : s.i < line.strlen)
    (hleaves : Leaves P pid exitStatus line s e s') : Leads pid exitStatus line s s' := by
  refine Leads.leave 0 h fun fuel _ => ?_
  rw [← Accessing.result_scanBody]
  exact (hleaves.body fuel).1

/-- Behind the terminator the arguments stay what they are. -/
theorem RunsOn.argv_eq {e : Element} {redirection : Redirection} (h : s.i < line.strlen)
    (hruns : RunsOn P pid exitStatus line s e redirection) (hleads : Leads pid exitStatus line s r) :
    r.argv = s.argv := by
  obtain ⟨enough, hbody⟩ := hruns.body
  obtain ⟨enough', hloop⟩ := hleads
  have hend : scanLoop pid exitStatus line (enough + enough' + 1 + 1) s = some r :=
    hloop _ (by omega)
  rw [scanLoop, if_pos h, ← Accessing.result_scanBody, (hbody _ (by omega)).1] at hend
  obtain ⟨next, hnext, hrest⟩ := Option.bind_eq_some_iff.mp hend
  obtain ⟨i, hskip, rfl⟩ := Option.map_eq_some_iff.mp hnext
  have hge := skipBlanks_ge hskip
  dsimp only at hrest
  rw [if_neg (by decide), scanLoop, if_neg (by dsimp only; omega)] at hrest
  cases hrest
  rfl

/-- A character other than blanks is found in the end. -/
theorem RunsOn.leads {e : Element} {redirection : Redirection} (h : s.i < line.strlen)
    (hruns : RunsOn P pid exitStatus line s e redirection) (hbacked : line.Backed) :
    ∃ r, Leads pid exitStatus line s r := by
  obtain ⟨enough, hbody⟩ := hruns.body
  obtain ⟨k, hk⟩ := hbacked
  rw [← line.get_behind] at hk
  obtain ⟨j, hle, hskip⟩ := skipBlanks_ends line k hk
  refine ⟨{ s with i := j, redirections := s.redirections ++ [redirection] }, ?_⟩
  refine (Leads.step_iff (enough + k + 1) h fun fuel hfuel => ?_).mpr (Leads.done ?_)
  · rw [← Accessing.result_scanBody, (hbody fuel (by omega)).1, hskip fuel (by omega),
      Option.map_some]
  · dsimp only
    omega

/-- **Where the scan ends**, and with how many arguments. -/
theorem scan_leads {delim : Char} {suf : CString} (hdelim : s.delim = delim)
    (hquote : delim = ' ' ∨ delim = '\'' ∨ delim = '"') (h : line.At s.i suf) :
    (∀ r, Leads pid exitStatus line s r →
        r.argv.length = argCount s.argv.length (elements delim suf)) ∧
      ((RunsOut (elements delim suf) → line.Backed) → ∃ r, Leads pid exitStatus line s r) := by
  refine scan_induction pid exitStatus (P := fun _ => True) (motive := fun s es =>
    (∀ r, Leads pid exitStatus line s r → r.argv.length = argCount s.argv.length es) ∧
      ((RunsOut es → line.Backed) → ∃ r, Leads pid exitStatus line s r))
    (fun _ _ => trivial) ?_ ?_ ?_ ?_ delim suf hdelim hquote h
  · intro s hend
    have hdone : Leads pid exitStatus line s s := Leads.done hend
    refine ⟨fun r hleads => ?_, fun _ => ⟨s, hdone⟩⟩
    rw [← hdone.unique hleads]
    rfl
  · intro s s' e delim suf es hi htakes hends ⟨hcount, hexists⟩
    rw [runsOut_cons hends]
    refine ⟨fun r hleads => ?_, fun hbacked => ?_⟩
    · rw [hcount r ((htakes.leads_iff hi).mp hleads), htakes.argv]
      rfl
    · obtain ⟨r, hleads⟩ := hexists hbacked
      exact ⟨r, (htakes.leads_iff hi).mpr hleads⟩
  · intro s s' copied hi hleaves
    have hleads' := hleaves.leads hi
    refine ⟨fun r hleads => ?_, fun _ => ⟨s', hleads'⟩⟩
    rw [← hleads'.unique hleads, hleaves.argv]
    rfl
  · intro s path redirection hi hruns
    refine ⟨fun r hleads => ?_, fun hbacked => hruns.leads hi (hbacked ⟨path, ?_⟩)⟩
    · rw [hruns.argv_eq hi hleads]
      rfl
    · exact List.mem_singleton_self _

/-! ### The whole command -/

/-- The elements of a command; the blanks at its front are skipped. -/
def commandElements (text : CString) : List Element := elements ' ' (text.dropWhile isBlank)

/-- The scan starts at the first character that is no blank. -/
def Line.scanStart (line : Line) : Scan := Scan.start (0 + (line.text.takeWhile isBlank).length)

theorem Line.scanStart_at (line : Line) : line.At line.scanStart.i (line.text.dropWhile isBlank) :=
  (Line.At.zero line).dropBlanks

theorem Leads.of_scanLoop (h : scanLoop pid exitStatus line fuel s = some r) :
    Leads pid exitStatus line s r := by
  refine ⟨fuel, fun fuel' hle => ?_⟩
  show scanLoop pid exitStatus line fuel' s = some r
  rw [← Accessing.result_scanLoop] at h ⊢
  exact (Accessing.grows_scanLoop hle s).result h

theorem Leads.reads (h : Leads pid exitStatus line line.scanStart r) :
    Reads pid exitStatus line (r.argv, r.redirections) := by
  obtain ⟨enough, hloop⟩ := h
  refine ⟨enough + line.strlen + 1, fun fuel hfuel => ?_⟩
  have hscan : scanLoop pid exitStatus line fuel line.scanStart = some r := hloop fuel (by omega)
  unfold processCmd
  rw [skipBlanks_front (Line.At.zero line) (show line.strlen < fuel by omega), Option.bind_some]
  show (scanLoop pid exitStatus line fuel line.scanStart).map _ = _
  rw [hscan, Option.map_some]

theorem Reads.scanLoop {result : List CString × List Redirection}
    (h : Reads pid exitStatus line result) :
    ∃ fuel r, line.strlen < fuel ∧ scanLoop pid exitStatus line fuel line.scanStart = some r := by
  obtain ⟨enough, hreads⟩ := h
  have hfuel : line.strlen < enough + line.strlen + 1 := by omega
  have hend : processCmd pid exitStatus line (enough + line.strlen + 1) = some result :=
    hreads _ (by omega)
  unfold processCmd at hend
  rw [skipBlanks_front (Line.At.zero line) hfuel, Option.bind_some] at hend
  obtain ⟨r, hr, -⟩ := Option.map_eq_some_iff.mp hend
  exact ⟨_, r, hfuel, hr⟩

/-- **The scan ends**, unless there are only blanks where it runs on to. -/
theorem reads_exists (h : RunsOut (commandElements line.text) → line.Backed) :
    ∃ result, Reads pid exitStatus line result := by
  obtain ⟨r, hleads⟩ := (scan_leads rfl (Or.inl rfl) line.scanStart_at).2 h
  exact ⟨_, hleads.reads⟩

theorem always_processCmd_large (hread : ∀ k, k ≤ line.strlen → P (.read k))
    (hfuel : line.strlen < fuel) :
    Always P (Accessing.processCmd pid exitStatus line fuel) ↔
      Always P (Accessing.scanLoop pid exitStatus line fuel line.scanStart) ∧
        ∀ r, scanLoop pid exitStatus line fuel line.scanStart = some r →
          P (.argv r.argv.length) := by
  have hskip := (Accessing.result_skipBlanks line fuel 0).trans
    (skipBlanks_front (Line.At.zero line) hfuel)
  unfold Accessing.processCmd
  rw [always_bind_of_result hskip, and_iff_right (always_skipBlanks hread (Nat.zero_le _)),
    always_bind_iff, Accessing.result_scanLoop]
  refine and_congr_right fun _ => forall_congr' fun r => imp_congr_right fun _ => ?_
  rw [always_bind_of_result (result_emit _), always_emit, List.forall_mem_singleton]
  exact and_iff_left (always_pure _)

/-- **What `process_cmd` uses.** -/
theorem always_processCmd_iff (hread : ∀ k, k ≤ line.strlen → P (.read k)) :
    (∀ fuel, Always P (Accessing.processCmd pid exitStatus line fuel)) ↔
      (∀ a ∈ stores pid exitStatus 0 0 (commandElements line.text), P a) ∧
      (RunsOut (commandElements line.text) →
        ∀ fuel, Always P (Accessing.skipBlanks line fuel (line.strlen + 1))) ∧
      ((∃ result, Reads pid exitStatus line result) →
        P (.argv (argCount 0 (commandElements line.text)))) := by
  have hcount : ∀ r, Leads pid exitStatus line line.scanStart r →
      r.argv.length = argCount 0 (commandElements line.text) :=
    (scan_leads rfl (Or.inl rfl) line.scanStart_at).1
  have hscan : (∀ fuel, Always P (Accessing.scanLoop pid exitStatus line fuel line.scanStart)) ↔
      (∀ a ∈ stores pid exitStatus 0 0 (commandElements line.text), P a) ∧
        (RunsOut (commandElements line.text) →
          ∀ fuel, Always P (Accessing.skipBlanks line fuel (line.strlen + 1))) :=
    always_scan_iff hread rfl (Or.inl rfl) line.scanStart_at
  rw [← and_assoc, ← hscan, always_iff_of_grows (fun _ _ hle => Accessing.grows_processCmd hle)
    (line.strlen + 1)]
  constructor
  · intro hall
    refine ⟨?_, ?_⟩
    · refine (always_scanLoop_large _ _ _ _ (line.strlen + 1)).mpr fun fuel hfuel => ?_
      exact ((always_processCmd_large hread hfuel).mp (hall fuel hfuel)).1
    · rintro ⟨result, hreads⟩
      obtain ⟨fuel, r, hfuel, hr⟩ := hreads.scanLoop
      rw [← hcount r (Leads.of_scanLoop hr)]
      exact ((always_processCmd_large hread hfuel).mp (hall fuel hfuel)).2 r hr
  · rintro ⟨hloop, hargv⟩ fuel hfuel
    refine (always_processCmd_large hread hfuel).mpr ⟨hloop fuel, fun r hr => ?_⟩
    have hleads := Leads.of_scanLoop hr
    rw [hcount r hleads]
    exact hargv ⟨_, hleads.reads⟩

/-! ### Every iteration moves on -/

theorem pathEnd_ge : ∀ {fuel i : Nat}, pathEnd line fuel i = some j → i ≤ j := by
  intro fuel
  induction fuel with
  | zero =>
      intro i h
      exact absurd h (by simp [pathEnd])
  | succ fuel ih =>
      intro i h
      rw [pathEnd] at h
      split at h
      · split at h
        · cases h
          exact Nat.le_succ i
        · exact Nat.le_of_succ_le (ih h)
      · cases h
        exact le_refl _

theorem getPath_gt {path : CString} (h : getPath line fuel i = some (path, j)) : i < j := by
  obtain ⟨start, hskip, hrest⟩ := Option.bind_eq_some_iff.mp h
  obtain ⟨stop, hend, heq⟩ := Option.map_eq_some_iff.mp hrest
  cases heq
  exact (skipBlanks_ge hskip).trans (pathEnd_ge hend)

/-- A redirection is never found to end where it starts. -/
theorem processRedirection_gt {redirection : Redirection}
    (h : processRedirection line fuel i = some (some redirection, j)) : i < j := by
  have hgt : ∀ (kind : CString → Redirection) {k : Nat}, i ≤ k →
      ((getPath line fuel k).bind fun found =>
        (skipBlanks line fuel (found.2 + 1)).map fun i => (some (kind found.1), i))
        = some (some redirection, j) → i < j := by
    intro kind k hle hsome
    obtain ⟨⟨path, stop⟩, hpath, hrest⟩ := Option.bind_eq_some_iff.mp hsome
    obtain ⟨i', hskip, heq⟩ := Option.map_eq_some_iff.mp hrest
    cases heq
    have hstop := getPath_gt hpath
    have hge := skipBlanks_ge hskip
    dsimp only at hge
    omega
  unfold processRedirection at h
  dsimp only at h
  split at h
  · split at h
    · exact hgt (.output · true) (Nat.le_succ i) h
    · exact hgt (.output · false) (le_refl _) h
  · split at h
    · exact hgt .outputAndError (Nat.le_succ i) h
    · split at h
      · exact hgt .input (le_refl _) h
      · exact absurd h (by simp)

/-- **Every iteration moves on.** -/
theorem scanBody_advances (h : scanBody pid exitStatus line fuel s = some (false, s')) :
    s.i < s'.i := by
  generalize hleft : false = left at h
  cases scanBody_iteration h with
  | delim hdelim hskip => exact skipBlanks_ge hskip
  | last hlast arg => exact absurd hleft (by decide)
  | quote hquote => exact Nat.lt_succ_self _
  | dollar hdollar hmark arg argv => exact Nat.lt_add_of_pos_right (by decide)
  | copy hnone => exact Nat.lt_succ_self _
  | redirect hsome => exact processRedirection_gt hsome

/-! ### Nothing is stored by reading -/

theorem Element.read_notMem_stores (e : Element) (j n i : Nat) :
    .read i ∉ e.stores pid exitStatus j n := by
  cases e with
  | mark c final => cases final <;> simp [Element.stores]
  | last copied => cases copied <;> simp [Element.stores]
  | _ => simp [Element.stores]

theorem read_notMem_stores (i : Nat) : ∀ (es : List Element) (j n : Nat),
    .read i ∉ stores pid exitStatus j n es := by
  intro es
  induction es with
  | nil =>
      intro j n
      exact List.not_mem_nil
  | cons e es ih =>
      intro j n
      rw [stores, List.mem_append, not_or]
      exact ⟨e.read_notMem_stores j n i, ih _ _⟩

/-! ### Inside the line -/

/-- The scan ends, every iteration moves on, and nothing is read behind the terminator. -/
structure StaysInside (pid exitStatus : Int) (line : Line) : Prop where
  ends : ∃ result, Reads pid exitStatus line result
  advances : ∀ fuel s s', s.i < line.strlen →
    scanBody pid exitStatus line fuel s = some (false, s') → s.i < s'.i
  inside : ∀ fuel i, .read i ∈ (Accessing.processCmd pid exitStatus line fuel).trace →
    i ≤ line.strlen

/-- If it is a read, then it is one of the string. -/
def Access.InString (line : Line) (a : Access) : Prop := ∀ i, a = .read i → i ≤ line.strlen

theorem read_inString_iff {i : Nat} : (Access.read i).InString line ↔ i ≤ line.strlen := by
  unfold Access.InString
  simp only [Access.read.injEq, forall_eq']

/-- The loop that starts behind the terminator looks there. -/
theorem not_always_behind (line : Line) :
    ¬∀ fuel, Always (Access.InString line) (Accessing.skipBlanks line fuel (line.strlen + 1)) := by
  intro hall
  have hfirst := hall 1
  rw [Accessing.skipBlanks, always_bind_iff, always_get, read_inString_iff] at hfirst
  exact absurd hfirst.1 (by omega)

/-- The scan reads only the string when no redirection runs out of it, and only then. -/
theorem inString_iff : (∀ fuel, Always (Access.InString line)
      (Accessing.processCmd pid exitStatus line fuel)) ↔
    ¬RunsOut (commandElements line.text) := by
  rw [always_processCmd_iff fun k hk => read_inString_iff.mpr hk]
  constructor
  · rintro ⟨-, hbehind, -⟩ hruns
    exact not_always_behind line (hbehind hruns)
  · intro hnot
    refine ⟨fun a ha i heq => ?_, fun hruns => absurd hruns hnot, fun _ i heq => ?_⟩
    · rw [heq] at ha
      exact absurd ha (read_notMem_stores i _ 0 0)
    · exact absurd heq (by simp)

/--
**When the scan stays inside the line.**  It ends, moves on with every iteration and reads
nothing behind the terminator exactly when no redirection runs out of the line: behind the
operator and its blanks comes a path, and behind the path another blank.
-/
theorem staysInside_iff (pid exitStatus : Int) (line : Line) :
    StaysInside pid exitStatus line ↔ ¬RunsOut (commandElements line.text) := by
  constructor
  · rintro ⟨-, -, hinside⟩
    have hall : ∀ fuel, Always (Access.InString line)
        (Accessing.processCmd pid exitStatus line fuel) :=
      fun fuel a ha i heq => hinside fuel i (heq ▸ ha)
    exact inString_iff.mp hall
  · intro hnot
    have hall : ∀ fuel, Always (Access.InString line)
        (Accessing.processCmd pid exitStatus line fuel) := inString_iff.mpr hnot
    refine ⟨reads_exists fun hruns => absurd hruns hnot, fun _ _ _ _ => scanBody_advances, ?_⟩
    intro fuel i hi
    exact hall fuel _ hi i rfl

def lsToFile : Line where
  text := "ls >f".toList
  noNul := by decide
  rest _ := '\x00'

/-- `ls >f`: the character behind the terminator is read. -/
theorem staysInside_fails_at_path : ¬StaysInside 13 0 lsToFile := by
  rintro ⟨-, -, hinside⟩
  exact absurd (hinside 16 6 (by decide)) (by decide)

end Shell
