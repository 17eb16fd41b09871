/-
What `$?` expands to.

An observer keeps the foreground job that has completed last.  The shell keeps nothing:
`exit_status` is read by every child that meets a `$?`, and written by nobody, neither
in `wait_job`, where the status is at hand, nor anywhere else.  So `$?` is 0 for ever,
and that is right only when the status it stands for is 0.

Even then the 0 has to get into the command.  Which `$?` are outside quotes is a matter
of the text, and the scan has ideas of its own: it reads the path of a redirection as it
stands, a quote in such a path puts it out of step, and an argument that a redirection at
the end of the line comes after is never ended.  `Comes` says where the scan of a text
comes by, and `TakenAt` that the `$?` there ends up in an argument.
-/
import KernelProgramming.Proofs.Shell.Inside
import KernelProgramming.Proofs.Shell.Statuses

namespace Shell

open Fuel

variable {pid exitStatus : Int} {line : Line} {s s' r : Scan} {fuel k : Nat} {left : Bool}
  {suf : CString}

/-! ### The scan -/

/-- The states of the scan of a command, before each iteration of its loop. -/
inductive Scans (pid exitStatus : Int) (line : Line) : Scan → Prop
  | start {fuel i : Nat} (hskip : skipBlanks line fuel 0 = some i) :
      Scans pid exitStatus line (Scan.start i)
  | next {fuel : Nat} {s s' : Scan} (hs : Scans pid exitStatus line s) (hi : s.i < line.strlen)
      (hbody : scanBody pid exitStatus line fuel s = some (false, s')) :
      Scans pid exitStatus line s'

theorem skipBlanks_mono {fuel' i j : Nat} (h : skipBlanks line fuel i = some j)
    (hle : fuel ≤ fuel') : skipBlanks line fuel' i = some j := by
  rw [← Accessing.result_skipBlanks] at h ⊢
  exact (Accessing.grows_skipBlanks line hle i).result h

theorem scanBody_mono {fuel' : Nat} {next : Bool × Scan}
    (h : scanBody pid exitStatus line fuel s = some next) (hle : fuel ≤ fuel') :
    scanBody pid exitStatus line fuel' s = some next := by
  rw [← Accessing.result_scanBody] at h ⊢
  exact (Accessing.grows_scanBody hle s).result h

theorem processCmd_mono {fuel' : Nat} {result : List CString × List Redirection}
    (h : processCmd pid exitStatus line fuel = some result) (hle : fuel ≤ fuel') :
    processCmd pid exitStatus line fuel' = some result := by
  rw [← Accessing.result_processCmd] at h ⊢
  exact (Accessing.grows_processCmd hle).result h

/-- There is one first state. -/
theorem scanStart_eq {i : Nat} (h : skipBlanks line fuel 0 = some i) :
    Scan.start i = line.scanStart := by
  have hlong : skipBlanks line (fuel + line.strlen + 1) 0 = some i := skipBlanks_mono h (by omega)
  rw [skipBlanks_front (Line.At.zero line) (show line.strlen < _ by omega)] at hlong
  rw [← Option.some.inj hlong]
  rfl

theorem scans_scanStart : Scans pid exitStatus line line.scanStart :=
  Scans.start (skipBlanks_front (Line.At.zero line) (Nat.lt_succ_self line.strlen))

/-- **The scan ends as it does from each of its states.** -/
theorem Scans.leads_iff (h : Scans pid exitStatus line s) :
    Leads pid exitStatus line line.scanStart r ↔ Leads pid exitStatus line s r := by
  induction h with
  | start hskip => rw [scanStart_eq hskip]
  | next hs hi hbody ih =>
      rw [ih]
      exact Leads.step_iff _ hi fun fuel hfuel => scanBody_mono hbody hfuel

/-! ### What is written stays -/

/-- The arguments of `s` are there, and what `s` had of the next one is where it begins. -/
def Extends (s r : Scan) : Prop :=
  (r.argv = s.argv ∧ s.arg <+: r.arg) ∨
    ∃ arg more, r.argv = s.argv ++ arg :: more ∧ s.arg <+: arg

theorem Extends.refl (s : Scan) : Extends s s := Or.inl ⟨rfl, List.prefix_rfl⟩

theorem Extends.trans {s₁ s₂ s₃ : Scan} (h : Extends s₁ s₂) (h' : Extends s₂ s₃) :
    Extends s₁ s₃ := by
  obtain ⟨hargv, harg⟩ | ⟨arg, more, hargv, harg⟩ := h
  · obtain ⟨hargv', harg'⟩ | ⟨arg', more', hargv', harg'⟩ := h'
    · exact Or.inl ⟨hargv'.trans hargv, harg.trans harg'⟩
    · rw [hargv] at hargv'
      exact Or.inr ⟨arg', more', hargv', harg.trans harg'⟩
  · obtain ⟨hargv', -⟩ | ⟨arg', more', hargv', -⟩ := h'
    · exact Or.inr ⟨arg, more, hargv'.trans hargv, harg⟩
    · rw [hargv, List.append_assoc] at hargv'
      exact Or.inr ⟨arg, more ++ arg' :: more', hargv', harg⟩

/-- The argument that was begun is the next one. -/
theorem Extends.arg_begins {arg : CString} (h : Extends s r)
    (harg : r.argv[s.argv.length]? = some arg) : s.arg <+: arg := by
  obtain ⟨hargv, -⟩ | ⟨arg', more, hargv, hprefix⟩ := h
  · rw [hargv, List.getElem?_eq_none (le_refl _)] at harg
    exact absurd harg (by simp)
  · rw [hargv, List.getElem?_append_right (le_refl _), Nat.sub_self] at harg
    rwa [← Option.some.inj harg]

theorem extends_endArg (hargv : s'.argv = s.argv) (harg : s.arg <+: s'.arg) :
    Extends s s'.endArg := by
  refine Or.inr ⟨s'.arg, [], ?_, harg⟩
  show s'.argv ++ [s'.arg] = s.argv ++ [s'.arg]
  rw [hargv]

theorem scanBody_extends (h : scanBody pid exitStatus line fuel s = some (left, s')) :
    Extends s s' := by
  unfold scanBody at h
  dsimp only at h
  split at h
  · obtain ⟨i, -, heq⟩ := Option.map_eq_some_iff.mp h
    cases heq
    exact Or.inr ⟨s.arg, [], rfl, List.prefix_rfl⟩
  · split at h
    · cases h
      refine extends_endArg rfl ?_
      dsimp only
      split
      · exact List.prefix_append _ _
      · exact List.prefix_rfl
    · split at h
      · cases h
        exact Extends.refl s
      · split at h
        · cases h
          split
          · exact extends_endArg rfl (List.prefix_append _ _)
          · exact Or.inl ⟨rfl, List.prefix_append _ _⟩
        · obtain ⟨⟨redirection, i⟩, -, heq⟩ := Option.map_eq_some_iff.mp h
          cases redirection with
          | none =>
              cases heq
              exact Or.inl ⟨rfl, List.prefix_append _ _⟩
          | some redirection =>
              cases heq
              exact Extends.refl s

theorem scanLoop_extends : ∀ {fuel : Nat} {s : Scan},
    scanLoop pid exitStatus line fuel s = some r → Extends s r := by
  intro fuel
  induction fuel with
  | zero =>
      intro s h
      simp [scanLoop] at h
  | succ fuel ih =>
      intro s h
      rw [scanLoop] at h
      split at h
      · obtain ⟨⟨left, s'⟩, hbody, hrest⟩ := Option.bind_eq_some_iff.mp h
        have hstep := scanBody_extends hbody
        cases left with
        | true =>
            cases hrest
            exact hstep
        | false => exact hstep.trans (ih hrest)
      · cases h
        exact Extends.refl _

theorem Leads.extends (h : Leads pid exitStatus line s r) : Extends s r := by
  obtain ⟨enough, hloop⟩ := h
  exact scanLoop_extends (hloop enough (le_refl _))

/-! ### A `$?` that is met -/

/-- What the scan writes for a `$?`: in single quotes, the dollar as it is. -/
def written (exitStatus : Int) (delim : Char) : CString :=
  if delim = '\'' then ['$'] else decimal exitStatus

theorem quote_cases (h : Scans pid exitStatus line s) :
    s.delim = ' ' ∨ s.delim = '\'' ∨ s.delim = '"' := by
  induction h with
  | start hskip => exact Or.inl rfl
  | next hs hi hbody ih =>
      generalize hleft : false = left at hbody
      cases scanBody_iteration hbody with
      | delim hdelim hskip =>
          dsimp only
          split
          · exact Or.inl rfl
          · exact ih
      | last hlast arg => exact absurd hleft (by decide)
      | quote hquote => exact Or.inr (Or.symm hquote)
      | _ => exact ih

theorem scanBody_status (hdelim : s.delim = ' ' ∨ s.delim = '\'' ∨ s.delim = '"')
    (h : line.At s.i ('$' :: '?' :: suf)) :
    ∃ s', (∀ fuel, scanBody pid exitStatus line fuel s = some (false, s')) ∧
      Extends { s with arg := s.arg ++ written exitStatus s.delim } s' := by
  have hdollar : line.get s.i = '$' := h.get
  have hmark : line.get (s.i + 1) = '?' := h.next.get
  have hstrlen := h.strlen
  rw [List.length_cons, List.length_cons] at hstrlen
  have hnot : ¬isDelim '$' s.delim = true := by
    rcases hdelim with hdelim | hdelim | hdelim
    all_goals
      rw [hdelim]
      decide
  have hquote : ¬(('$' = '"' ∨ '$' = '\'') ∧ s.delim = ' ') := fun hopens =>
    absurd hopens.1 (by decide)
  by_cases hsingle : s.delim = '\''
  · refine ⟨{ s with arg := s.arg ++ ['$'], i := s.i + 1 }, fun fuel => ?_, ?_⟩
    · have hnone : processRedirection line fuel s.i = some (none, s.i) :=
        processRedirection_plain (by rw [hdollar]; decide) (by rw [hdollar]; decide)
          (by rw [hdollar]; exact fun hand => absurd hand (by decide)) fuel
      unfold scanBody
      dsimp only
      rw [hdollar, if_neg hnot, if_neg (by omega), if_neg hquote,
        if_neg (fun hmarked => hmarked.1 hsingle), hnone]
      rfl
    · rw [written, if_pos hsingle]
      exact Or.inl ⟨rfl, List.prefix_rfl⟩
  · let s₁ : Scan := { s with arg := s.arg ++ decimal exitStatus, i := s.i + 2 }
    refine ⟨if line.strlen ≤ s.i + 2 then s₁.endArg else s₁, fun fuel => ?_, ?_⟩
    · unfold scanBody
      dsimp only
      rw [hdollar, hmark, if_neg hnot, if_neg (by omega), if_neg hquote,
        if_pos ⟨hsingle, rfl, Or.inr rfl⟩]
      rfl
    · rw [written, if_neg hsingle]
      split
      · exact extends_endArg rfl List.prefix_rfl
      · exact Or.inl ⟨rfl, List.prefix_rfl⟩

/-! ### Where the scan comes by -/

/-- The scan of a text comes to where `suf` is left, and what it looks for there is `delim`. -/
inductive Comes (text : CString) : Char → CString → Prop
  | start : Comes text ' ' (text.dropWhile isBlank)
  | next {delim c : Char} {suf : CString} (h : Comes text delim (c :: suf)) :
      Comes text (element delim c suf).2.1 (element delim c suf).2.2

/-- The scan comes to `k`, not in what it takes for single quotes, and ends an argument from there
on. -/
def TakenAt (text : CString) (k : Nat) : Prop :=
  ∃ delim, delim ≠ '\'' ∧ Comes text delim (text.drop k) ∧
    0 < argCount 0 (elements delim (text.drop k))

theorem Line.At.drop_eq {i : Nat} (h : line.At i suf) : line.text.drop i = suf := by
  obtain ⟨pre, htext, hlen⟩ := h
  rw [htext, ← hlen, List.drop_left]

theorem Line.At.of_drop {i : Nat} (h : i ≤ line.strlen) : line.At i (line.text.drop i) := by
  refine ⟨line.text.take i, (List.take_append_drop i line.text).symm, ?_⟩
  rw [List.length_take]
  exact Nat.min_eq_left h

/-- What an iteration does, with the text it has come to. -/
theorem Scans.does {c : Char} (h : Scans pid exitStatus line s) (hat : line.At s.i (c :: suf)) :
    Does (fun _ => True) pid exitStatus line s (element s.delim c suf).1
      (element s.delim c suf).2.1 (element s.delim c suf).2.2 :=
  scanBody_element (fun _ _ => trivial) hat (quote_cases h)

/-- **The scan comes by nowhere else.** -/
theorem Scans.comes (h : Scans pid exitStatus line s) (hi : s.i < line.strlen) :
    Comes line.text s.delim (line.text.drop s.i) := by
  induction h with
  | start hskip =>
      rw [scanStart_eq hskip, line.scanStart_at.drop_eq]
      exact Comes.start
  | @next fuel s s' hs hbefore hbody ih =>
      obtain ⟨c, suf, hdrop⟩ : ∃ c suf, line.text.drop s.i = c :: suf :=
        ⟨_, _, List.drop_eq_getElem_cons hbefore⟩
      have hat := Line.At.of_drop (Nat.le_of_lt hbefore)
      have hcomes := ih hbefore
      rw [hdrop] at hat hcomes
      have hnext := hcomes.next
      have hdoes := hs.does hat
      generalize element s.delim c suf = found at hnext hdoes
      obtain ⟨e, delim, rest⟩ := found
      dsimp only at hnext hdoes
      cases hdoes with
      | takes htaken hends =>
          obtain ⟨s'', htaken⟩ := htaken
          obtain ⟨enough, hresult⟩ := htaken.body
          have hsame := (hresult (fuel + enough) (by omega)).1
          rw [Accessing.result_scanBody, scanBody_mono hbody (by omega)] at hsame
          cases hsame
          rwa [htaken.behind.drop_eq, htaken.delim]
      | leaves hleft =>
          obtain ⟨s'', hleft⟩ := hleft
          have hsame := (hleft.body fuel).1
          rw [Accessing.result_scanBody, hbody] at hsame
          cases hsame
      | runsOn hrun =>
          obtain ⟨redirection, hrun⟩ := hrun
          obtain ⟨enough, hresult⟩ := hrun.body
          have hsame := (hresult (fuel + enough) (by omega)).1
          rw [Accessing.result_scanBody, scanBody_mono hbody (by omega)] at hsame
          obtain ⟨i, hskip, heq⟩ := Option.map_eq_some_iff.mp hsame.symm
          cases heq
          have hge := skipBlanks_ge hskip
          dsimp only at hi
          omega

/-- **The scan does come by there.** -/
theorem Comes.scans {delim : Char} (h : Comes line.text delim suf) (hmore : suf ≠ []) :
    ∃ s, Scans pid exitStatus line s ∧ line.At s.i suf ∧ s.delim = delim := by
  induction h with
  | start => exact ⟨line.scanStart, scans_scanStart, line.scanStart_at, rfl⟩
  | @next delim c suf h ih =>
      obtain ⟨s, hs, hat, rfl⟩ := ih (by simp)
      have hstrlen := hat.strlen
      rw [List.length_cons] at hstrlen
      have hdoes := hs.does hat
      generalize element s.delim c suf = found at hmore hdoes ⊢
      obtain ⟨e, delim', rest⟩ := found
      dsimp only at hmore hdoes ⊢
      cases hdoes with
      | takes htaken hends =>
          obtain ⟨s', htaken⟩ := htaken
          obtain ⟨enough, hresult⟩ := htaken.body
          have hbody := (hresult enough (le_refl _)).1
          rw [Accessing.result_scanBody] at hbody
          exact ⟨s', hs.next (by omega) hbody, htaken.behind, htaken.delim⟩
      | leaves hleft => exact absurd rfl hmore
      | runsOn hrun => exact absurd rfl hmore

/-! ### What becomes of a `$?` -/

/-- The scan comes to the `$?` at `k`, and in the argument that is being written there it leaves
`value` behind what it has of it. -/
def ExpandsAt (pid exitStatus : Int) (line : Line) (k : Nat) (value : Int) : Prop :=
  ∃ s argv redirections arg, Scans pid exitStatus line s ∧ s.i = k ∧
    Reads pid exitStatus line (argv, redirections) ∧ argv[s.argv.length]? = some arg ∧
    s.arg ++ decimal value <+: arg

/-- **What is written for a `$?`** is in the argument. -/
theorem Scans.written_begins {arg : CString} (h : Scans pid exitStatus line s)
    (hat : line.At s.i ('$' :: '?' :: suf)) (hleads : Leads pid exitStatus line s r)
    (harg : r.argv[s.argv.length]? = some arg) :
    s.arg ++ written exitStatus s.delim <+: arg := by
  have hstrlen := hat.strlen
  rw [List.length_cons] at hstrlen
  obtain ⟨s', hbody, hextends⟩ := scanBody_status (quote_cases h) hat
  have hrest : Leads pid exitStatus line s' r :=
    (Leads.step_iff 0 (by omega) fun fuel _ => hbody fuel).mp hleads
  exact (hextends.trans hrest.extends).arg_begins harg

theorem Element.argCount_add (e : Element) (n : Nat) : e.argCount n = n + e.argCount 0 := by
  cases e with
  | mark c final => cases final <;> rfl
  | _ => rfl

theorem argCount_add : ∀ (es : List Element) (n : Nat), argCount n es = n + argCount 0 es := by
  intro es
  induction es with
  | nil =>
      intro n
      rfl
  | cons e es ih =>
      intro n
      have hn : argCount n (e :: es) = argCount (e.argCount n) es := rfl
      have hzero : argCount 0 (e :: es) = argCount (e.argCount 0) es := rfl
      rw [hn, hzero, ih, ih (e.argCount 0), e.argCount_add n, Nat.add_assoc]

/-- An argument is ended behind `s` when the elements that are left end one. -/
theorem Scans.ends_iff (h : Scans pid exitStatus line s) (hat : line.At s.i suf)
    (hleads : Leads pid exitStatus line s r) :
    s.argv.length < r.argv.length ↔ 0 < argCount 0 (elements s.delim suf) := by
  rw [(scan_leads rfl (quote_cases h) hat).1 r hleads, argCount_add]
  omega

/-- Only 0 is written with a 0 in front. -/
theorem eq_zero_of_toDigits {rest : CString} : ∀ n, Nat.toDigits 10 n = '0' :: rest → n = 0 := by
  intro n
  induction n using Nat.strong_induction_on generalizing rest with
  | _ n ih =>
      intro h
      by_cases hsmall : n < 10
      · rw [Nat.toDigits_of_lt_base hsmall] at h
        have hdigit : ∀ m < 10, Nat.digitChar m = '0' → m = 0 := by decide
        exact hdigit n hsmall (List.cons.inj h).1
      · rw [Nat.toDigits_of_base_le (by decide) (by omega)] at h
        obtain ⟨c, front, hfront⟩ :=
          List.exists_cons_of_ne_nil (Nat.toDigits_ne_nil (n := n / 10) (b := 10))
        rw [hfront, List.cons_append] at h
        rw [(List.cons.inj h).1] at hfront
        have hdiv := ih (n / 10) (by omega) hfront
        omega

/-- What begins like the value of a status is not what is written for another one. -/
theorem status_of_written {arg whole : CString} {delim : Char} {code : Nat}
    (hcode : arg ++ decimal code <+: whole) (hwritten : arg ++ written 0 delim <+: whole) :
    code = 0 ∧ delim ≠ '\'' := by
  obtain ⟨more, rfl⟩ := hcode
  obtain ⟨more', heq⟩ := hwritten
  rw [List.append_assoc, List.append_assoc, List.append_right_inj] at heq
  obtain ⟨d, digits, hdigits⟩ :=
    List.exists_cons_of_ne_nil (Nat.toDigits_ne_nil (n := code) (b := 10))
  rw [show decimal code = Nat.toDigits 10 code from rfl, hdigits, written] at heq
  split at heq
  · have hdollar : '$'.isDigit = true := by
      refine Nat.isDigit_of_mem_toDigits (b := 10) (n := code) (by decide) (by decide) ?_
      rw [hdigits, ← (List.cons.inj heq).1]
      exact List.mem_cons_self
    exact absurd hdollar (by decide)
  · rename_i hsingle
    rw [← (List.cons.inj heq).1] at hdigits
    exact ⟨eq_zero_of_toDigits code hdigits, hsingle⟩

/-- **When a `$?` expands to a status**, with the global that is 0. -/
theorem expandsAt_iff (hbacked : line.Backed) (hat : line.At k ('$' :: '?' :: suf)) (code : Nat) :
    ExpandsAt pid 0 line k code ↔ code = 0 ∧ TakenAt line.text k := by
  obtain ⟨r, hleads⟩ : ∃ r, Leads pid 0 line line.scanStart r :=
    (scan_leads rfl (Or.inl rfl) line.scanStart_at).2 fun _ => hbacked
  constructor
  · rintro ⟨s, argv, redirections, arg, hs, rfl, hreads, harg, hprefix⟩
    have hargv : argv = r.argv := congrArg Prod.fst (Gives.unique hreads hleads.reads)
    rw [hargv] at harg
    have hleads' := hs.leads_iff.mp hleads
    obtain ⟨hzero, hsingle⟩ :=
      status_of_written hprefix (hs.written_begins hat hleads' harg)
    have hstrlen := hat.strlen
    rw [List.length_cons] at hstrlen
    refine ⟨hzero, s.delim, hsingle, hs.comes (by omega), ?_⟩
    rw [hat.drop_eq]
    exact (hs.ends_iff hat hleads').mp (List.getElem?_eq_some_iff.mp harg).1
  · rintro ⟨rfl, delim, hsingle, hcomes, hends⟩
    rw [hat.drop_eq] at hcomes hends
    obtain ⟨s, hs, hat', rfl⟩ : ∃ s, Scans pid 0 line s ∧ line.At s.i ('$' :: '?' :: suf) ∧
      s.delim = delim := hcomes.scans (by simp)
    have hk : s.i = k := by
      have hstrlen := hat.strlen
      have hstrlen' := hat'.strlen
      omega
    have hleads' := hs.leads_iff.mp hleads
    have hlt := (hs.ends_iff hat' hleads').mpr hends
    have harg : r.argv[s.argv.length]? = some r.argv[s.argv.length] :=
      List.getElem?_eq_getElem hlt
    refine ⟨s, r.argv, r.redirections, _, hs, hk, hleads.reads, harg, ?_⟩
    have hprefix := hs.written_begins hat' hleads' harg
    rwa [written, if_neg hsingle] at hprefix

/-! ### The text -/

/-- The positions of `$?` outside quotes; a quote is open or not, and the text begins at `k`. -/
def unquoted : Option Char → Nat → CString → List Nat
  | _, _, [] => []
  | some quote, k, c :: rest => unquoted (if c = quote then none else some quote) (k + 1) rest
  | none, k, '$' :: '$' :: rest => unquoted none (k + 2) rest
  | none, k, '$' :: '?' :: rest => k :: unquoted none (k + 2) rest
  | none, k, c :: rest => unquoted (if c = '"' ∨ c = '\'' then some c else none) (k + 1) rest

example : unquoted none 0 "a'$?' $$? $?".toList = [10] := by decide

theorem unquoted_at {k m : Nat} {quote : Option Char} {text : CString}
    (hm : m ∈ unquoted quote k text) (hat : line.At k text) :
    ∃ suf, line.At m ('$' :: '?' :: suf) := by
  induction quote, k, text using unquoted.induct with
  | case1 => exact absurd hm List.not_mem_nil
  | case2 k quote c rest ih => exact ih hm hat.next
  | case3 k rest ih => exact ih hm hat.next.next
  | case4 k rest ih =>
      rcases List.mem_cons.mp hm with rfl | hm
      · exact ⟨rest, hat⟩
      · exact ih hm hat.next.next
  | case5 k c rest hdollars hstatus ih =>
      rw [unquoted] at hm
      · exact ih hm hat.next
      · exact hdollars
      · exact hstatus

/-! ### The observer -/

/-- A process of the job is still to be collected. -/
def unfinished (s : Sh) (j : JobId) : Bool := (s.job j).list.any fun ps => s.child ps.pid = some j

/-- The foreground job that an operation has run to completion: `waitpid` has collected the last
of its processes. -/
def completes (s : Sh) (op : Op) (s' : Sh) : Option JobId :=
  ((waitsFor s op).filter fun w => unfinished w.1 w.2 && !unfinished s' w.2).map (·.2)

/-- The shell, and the foreground job that has completed last. -/
structure Watched where
  session : Session
  last : Option JobId

def watchedStep (w : Watched) (op : Op) : Option Watched :=
  (w.session.step op).map fun session =>
    { session := session, last := (completes w.session.sh op session.sh).or w.last }

def watchedStart : Watched where
  session := Session.start
  last := none

/-- Nobody assigns to the global. -/
theorem exitStatus_zero {ops : List Op} {w : Watched}
    (hrun : Runs.run watchedStep watchedStart ops = some w) : w.session.exitStatus = 0 := by
  refine Runs.run_invariant (I := fun w => w.session.exitStatus = 0) ?_ ops watchedStart w rfl hrun
  intro w op w' hzero hstep
  obtain ⟨session, hsession, rfl⟩ := Option.map_eq_some_iff.mp hstep
  obtain ⟨sh, -, rfl⟩ := Option.map_eq_some_iff.mp hsession
  exact hzero

/-- The exit status of the last stage of the foreground job that has completed last.  `exitCode`
is the exit status of a process of a job, as `waitpid` reports it; the last stage is the first
on the job's list, unless the `fork` for it has failed. -/
def lastStatus (exitCode : JobId → Int → Nat) (w : Watched) : Option Nat :=
  w.last.bind fun j =>
    ((w.session.sh.job j).list.head?.filter (·.pid ≠ -1)).map fun stage => exitCode j stage.pid

/-- If a foreground job has completed, every `$?` outside quotes in the command expands to its
status. -/
def StatusRight (exitCode : JobId → Int → Nat) (w : Watched) (pid : Int) (line : Line) : Prop :=
  ∀ code, lastStatus exitCode w = some code → ∀ k ∈ unquoted none 0 line.text,
    ExpandsAt pid w.session.exitStatus line k code

/-- `echo $?`. -/
def echoStatus : Line where
  text := "echo $?".toList
  noNul := by decide
  rest _ := '\x00'

example : processCmd 13 0 echoStatus 20 = some (["echo".toList, "0".toList], []) := by decide

/-- `echo $?>f`: the redirection ends the line, and the argument in front of it never ends. -/
def statusToFile : Line where
  text := "echo $?>f".toList
  noNul := by decide
  rest _ := '\x00'

example : processCmd 13 0 statusToFile 20 = some (["echo".toList], [.output "f".toList false]) := by
  decide

/-- A pipeline runs in the foreground, a command in the background, and it is reaped. -/
def pipelineThenReap : List Op :=
  [.reap [], .execJob [10, 11] false .other (.all .exited),
    .reap [], .reap [], .execJob [12] true .other (.all .exited),
    .reap [(12, .exited)]]

theorem echoStatus_taken : TakenAt echoStatus.text 5 := by
  refine ⟨' ', by decide, ?_, ?_⟩
  · have hstart : Comes echoStatus.text ' ' echoStatus.text := Comes.start
    exact hstart.next.next.next.next.next
  · have helements : elements ' ' "$?".toList = [.mark '?' true] := by
      simp [elements, element, isDelim]
    show 0 < argCount 0 (elements ' ' "$?".toList)
    rw [helements]
    decide

end Shell
