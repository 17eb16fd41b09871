/-
Commands made of words and redirections.

A command is a list of items, each with the blanks that follow it.  `outcome` says what
the scan makes of such a list, with the argument that is being built carried along: a
word is passed on when a blank or the end of the command follows it, and not when a
redirection does.  Then it is still in `arg` while the path is read, the next word is
written behind it, and at the end of the command it is forgotten.

So where blanks stand between all items every word is an argument of its own
(`wellSpaced_reads`), and a word that touches the redirection behind it never is
(`touching_differs`).
-/
import KernelProgramming.Proofs.Shell.Scan

namespace Shell

open Fuel

variable {pid exitStatus : Int} {line : Line} {s r : Scan}

/-- A word without quotes, a word in quotes, and a redirection with the blanks in front of its
path. -/
inductive Item
  | word (text : CString)
  | quoted (quote : Char) (text : CString)
  | redirect (op : Operator) (gap path : CString)
  deriving DecidableEq, Repr

namespace Item

def text : Item → CString
  | .word w => w
  | .quoted q w => q :: (w ++ [q])
  | .redirect op gap path => op.text ++ (gap ++ path)

/-- The argument the item stands for. -/
def arg? : Item → Option CString
  | .word w => some w
  | .quoted _ w => some w
  | .redirect _ _ _ => none

def redirection? : Item → Option Redirection
  | .redirect op _ path => some (op.redirection path)
  | _ => none

end Item

/-- A character with no meaning of its own. -/
def bareChar (c : Char) : Bool :=
  !(isBlank c || c = '\'' || c = '"' || c = '$' || c = '<' || c = '>' || c = '&' || c = '|')

/-- A word, or a path, without quotes. -/
def Bare (w : CString) : Prop := w ≠ [] ∧ ∀ c ∈ w, bareChar c = true

instance (w : CString) : Decidable (Bare w) :=
  letI := List.decidableBAll (bareChar · = true) w
  inferInstanceAs (Decidable (w ≠ [] ∧ ∀ c ∈ w, bareChar c = true))

/-- The item is read as one.  In double quotes a `$` keeps its meaning, and in either kind of
quotes a redirection does. -/
def Item.Readable : Item → Prop
  | .word w => Bare w
  | .quoted q w => (q = '\'' ∨ q = '"') ∧ q ∉ w ∧ '<' ∉ w ∧ '>' ∉ w ∧ (q = '\'' ∨ '$' ∉ w)
  | .redirect _ gap path => Blanks gap ∧ Bare path

/-- A command, without the blanks in front of it. -/
abbrev Items : Type := List (Item × CString)

def Items.text (items : Items) : CString := (items.map fun item => item.1.text ++ item.2).flatten

/-- The words of the command. -/
def Items.words (items : Items) : List CString := items.filterMap (·.1.arg?)

def Items.redirections (items : Items) : List Redirection := items.filterMap (·.1.redirection?)

/-- The items can be told apart: what stands between two of them is at least one blank, unless
the first is a word and the second a redirection. -/
def Items.Readable : Items → Prop
  | [] => True
  | [(item, gap)] => item.Readable ∧ Blanks gap
  | (item, gap) :: (next, gap') :: rest =>
      item.Readable ∧ Blanks gap ∧
        (gap = [] → (∃ w, item = .word w) ∧ ∃ op gap path, next = .redirect op gap path) ∧
        Items.Readable ((next, gap') :: rest)

/-- What the scan makes of the items when `arg` is what has been written of an argument: the
arguments it passes on, and the redirections it performs. -/
def outcome (arg : CString) : Items → List CString × List Redirection
  | [] => ([], [])
  | (.word w, gap) :: rest =>
      if gap = [] ∧ rest ≠ [] then outcome (arg ++ w) rest
      else ((arg ++ w) :: (outcome [] rest).1, (outcome [] rest).2)
  | (.quoted _ w, _) :: rest => ((arg ++ w) :: (outcome [] rest).1, (outcome [] rest).2)
  | (.redirect op _ path, _) :: rest =>
      ((outcome arg rest).1, op.redirection path :: (outcome arg rest).2)

/-! ### Characters -/

theorem bareChar_iff {c : Char} : bareChar c = true ↔ isBlank c = false ∧ c ≠ '\'' ∧ c ≠ '"' ∧
    c ≠ '$' ∧ c ≠ '<' ∧ c ≠ '>' ∧ c ≠ '&' ∧ c ≠ '|' := by
  unfold bareChar
  simp only [Bool.not_eq_true', Bool.or_eq_false_iff, decide_eq_false_iff_not, ne_eq, and_assoc]

theorem Bare.notBlank {w : CString} (h : Bare w) : ∀ c ∈ w, isBlank c = false :=
  fun c hc => (bareChar_iff.mp (h.2 c hc)).1

theorem Bare.plain {w : CString} (h : Bare w) : ∀ c ∈ w, Plain ' ' c := by
  intro c hc
  obtain ⟨hblank, hsingle, hdouble, hdollar, hinput, houtput, -, -⟩ := bareChar_iff.mp (h.2 c hc)
  refine ⟨?_, fun _ => ⟨hdouble, hsingle⟩, fun _ => hdollar, houtput, hinput⟩
  rw [isDelim_blank]
  exact hblank

theorem Bare.notAmpersand {w : CString} (h : Bare w) : '&' ∉ w := by
  intro hmem
  exact absurd (h.2 '&' hmem) (by decide)

/-- In quotes. -/
theorem quoted_plain {q : Char} {w : CString} (h : (Item.quoted q w).Readable) :
    ∀ c ∈ w, Plain q c := by
  obtain ⟨hq, hown, hinput, houtput, hdollar⟩ := h
  have hne : ∀ {c d : Char}, c ∈ w → d ∉ w → c ≠ d := by
    rintro c d hc hd rfl
    exact hd hc
  have hspace : q ≠ ' ' := by
    rcases hq with rfl | rfl <;> decide
  intro c hc
  refine ⟨?_, fun heq => absurd heq hspace, fun hsingle => ?_, hne hc houtput, hne hc hinput⟩
  · have hother : q ≠ c := (hne hc hown).symm
    simp [isDelim, hspace, hother]
  · rcases hdollar with heq | hnone
    · exact absurd heq hsingle
    · exact hne hc hnone

/-! ### Items one after the other -/

theorem Items.text_cons (item : Item) (gap : CString) (rest : Items) :
    Items.text ((item, gap) :: rest) = item.text ++ (gap ++ rest.text) := by
  unfold Items.text
  rw [List.map_cons, List.flatten_cons, List.append_assoc]

theorem Items.Readable.uncons {item : Item} {gap : CString} {rest : Items}
    (h : Items.Readable ((item, gap) :: rest)) :
    item.Readable ∧ Blanks gap ∧ rest.Readable ∧ (gap = [] → rest ≠ [] → (∃ w, item = .word w) ∧
      ∃ op gap' path gap'' rest', rest = (.redirect op gap' path, gap'') :: rest') := by
  cases rest with
  | nil => exact ⟨h.1, h.2, trivial, fun _ hne => absurd rfl hne⟩
  | cons next rest =>
      obtain ⟨next, gap'⟩ := next
      obtain ⟨hitem, hgap, hglued, hrest⟩ := h
      refine ⟨hitem, hgap, hrest, fun hnil _ => ?_⟩
      obtain ⟨hword, op, gap'', path, rfl⟩ := hglued hnil
      exact ⟨hword, op, gap'', path, gap', rest, rfl⟩

theorem Item.Readable.stops {item : Item} (h : item.Readable) (suf : CString) :
    item.text ≠ [] ∧ Stops (item.text ++ suf) := by
  cases item with
  | word w =>
      obtain ⟨c, w', rfl⟩ := List.exists_cons_of_ne_nil h.1
      exact ⟨by simp [Item.text], h.notBlank c (by simp)⟩
  | quoted q w =>
      refine ⟨by simp [Item.text], ?_⟩
      show isBlank q = false
      rcases h.1 with rfl | rfl <;> rfl
  | redirect op gap path => cases op <;> exact ⟨by simp [Item.text, Operator.text], rfl⟩

theorem Items.Readable.stops {items : Items} (h : items.Readable) : Stops items.text := by
  cases items with
  | nil => rfl
  | cons item rest =>
      obtain ⟨item, gap⟩ := item
      rw [Items.text_cons]
      exact (h.uncons.1.stops _).2

theorem Blanks.tail {c : Char} {gap : CString} (h : Blanks (c :: gap)) : Blanks gap :=
  fun d hd => h d (List.mem_cons_of_mem _ hd)

/-! ### The scan over the items -/

/-- Behind the terminator there is a character that is no blank.  The string is in an array that
`fgets` has ended with a zero, and that zero is behind the one that ends the command. -/
def Line.Backed (line : Line) : Prop := ∃ k, isBlank (line.rest k) = false

theorem Line.get_behind (line : Line) (k : Nat) : line.get (line.strlen + 1 + k) = line.rest k := by
  unfold Line.get Line.strlen
  rw [dif_neg (by omega), if_neg (by omega)]
  congr 1
  omega

/-- The scan ends, having passed on these arguments and performed these redirections. -/
def Leads.Adds (pid exitStatus : Int) (line : Line) (s : Scan)
    (added : List CString × List Redirection) : Prop :=
  ∃ r, Leads pid exitStatus line s r ∧ r.argv = s.argv ++ added.1 ∧
    r.redirections = s.redirections ++ added.2

/-- A word. -/
theorem adds_word {w gap : CString} {rest : Items}
    (hread : Items.Readable ((.word w, gap) :: rest))
    (h : line.At s.i (w ++ (gap ++ rest.text))) (hdelim : s.delim = ' ')
    (ih : ∀ s, line.At s.i rest.text → s.delim = ' ' →
      Leads.Adds pid exitStatus line s (outcome s.arg rest)) :
    Leads.Adds pid exitStatus line s (outcome s.arg ((.word w, gap) :: rest)) := by
  obtain ⟨hbare, hgap, hrest, hglued⟩ := hread.uncons
  have hplain : ∀ c ∈ w, Plain s.delim c := by
    rw [hdelim]
    exact hbare.plain
  have hboth : w.getLast? = some '&' → (gap ++ rest.text).headD '\x00' ≠ '>' :=
    fun hlast => absurd (List.mem_of_getLast? hlast) hbare.notAmpersand
  unfold outcome
  cases gap with
  | cons b gap =>
      rw [if_neg (by simp)]
      have hat : line.At (s.i + w.length) (b :: (gap ++ rest.text)) := h.append
      have hstrlen := hat.strlen
      rw [List.length_cons] at hstrlen
      obtain ⟨r, hleads, hargv, hredirections⟩ := ih
        { s with
          arg := []
          argv := s.argv ++ [s.arg ++ w]
          i := s.i + w.length + 1 + gap.length
          delim := ' ' } hat.next.append rfl
      refine ⟨r, ?_, ?_, hredirections⟩
      · have hends : isDelim b s.delim = true := by
          rw [hdelim, isDelim_blank]
          exact hgap b (by simp)
        refine (Leads.plain_iff h (by simp) hplain hboth).mpr ?_
        refine (Leads.step_iff (gap.length + 1) (by dsimp only; omega) (fun fuel hfuel => ?_)).mpr
          hleads
        exact scanBody_delim (s := { s with arg := s.arg ++ w, i := s.i + w.length }) hat hends
          (Or.inl hdelim) hgap.tail hrest.stops hfuel
      · rw [hargv, List.append_assoc]
        rfl
  | nil =>
      by_cases hend : rest = []
      · -- The last character is passed on with the word.
        subst hend
        rw [if_neg (by simp)]
        obtain ⟨w', c, rfl⟩ := (List.eq_nil_or_concat' w).resolve_left hbare.1
        have h' : line.At s.i (w' ++ [c]) := by simpa [Items.text] using h
        have hat := h'.append
        have hstrlen := hat.strlen
        rw [List.length_singleton] at hstrlen
        refine ⟨{ s with
          argv := s.argv ++ [s.arg ++ (w' ++ [c])]
          arg := s.arg ++ (w' ++ [c])
          i := s.i + w'.length }, ?_, rfl, (List.append_nil _).symm⟩
        have hlast : w'.getLast? = some '&' → ([c] : CString).headD '\x00' ≠ '>' := by
          intro hlast
          refine absurd ?_ hbare.notAmpersand
          simp [List.mem_of_getLast? hlast]
        refine (Leads.plain_iff h' (by simp) (fun d hd => hplain d (by simp [hd])) hlast).mpr ?_
        refine Leads.leave 0 (by dsimp only; omega) (fun fuel _ => ?_)
        rw [scanBody_last (s := { s with arg := s.arg ++ w', i := s.i + w'.length }) hat hdelim
          (hbare.notBlank c (by simp))]
        simp [Scan.endArg]
      · rw [if_pos ⟨rfl, hend⟩]
        obtain ⟨r, hleads, hadded⟩ := ih { s with arg := s.arg ++ w, i := s.i + w.length }
          h.append hdelim
        refine ⟨r, (Leads.plain_iff h ?_ hplain hboth).mpr hleads, hadded⟩
        obtain ⟨-, op, gap', path, gap'', rest', rfl⟩ := hglued rfl hend
        rw [List.nil_append, Items.text_cons]
        exact List.append_ne_nil_of_left_ne_nil (hrest.uncons.1.stops []).1 _

/-- A word in quotes. -/
theorem adds_quoted {q : Char} {w gap : CString} {rest : Items}
    (hread : Items.Readable ((.quoted q w, gap) :: rest))
    (h : line.At s.i (q :: (w ++ (q :: (gap ++ rest.text))))) (hdelim : s.delim = ' ')
    (ih : ∀ s, line.At s.i rest.text → s.delim = ' ' →
      Leads.Adds pid exitStatus line s (outcome s.arg rest)) :
    Leads.Adds pid exitStatus line s (outcome s.arg ((.quoted q w, gap) :: rest)) := by
  obtain ⟨hquoted, hgap, hrest, -⟩ := hread.uncons
  have hq := hquoted.1
  have hinside := h.next
  have hclose := hinside.append
  have hstrlen := hclose.strlen
  rw [List.length_cons] at hstrlen
  obtain ⟨r, hleads, hargv, hredirections⟩ := ih
    { s with
      arg := []
      argv := s.argv ++ [s.arg ++ w]
      i := s.i + 1 + w.length + 1 + gap.length
      delim := ' ' } hclose.next.append rfl
  refine ⟨r, ?_, ?_, hredirections⟩
  · refine (Leads.step_iff 0 (by omega)
      (fun fuel _ => scanBody_quote h (by simp) hdelim hq fuel)).mpr ?_
    refine (Leads.plain_iff hinside (by simp) (quoted_plain hquoted) ?_).mpr ?_
    · intro _
      show q ≠ '>'
      rcases hq with rfl | rfl <;> decide
    · have hends : isDelim q q = true := by simp [isDelim]
      refine (Leads.step_iff (gap.length + 1) (by dsimp only; omega) (fun fuel hfuel => ?_)).mpr
        hleads
      exact scanBody_delim hclose hends (Or.inr hq) hgap hrest.stops hfuel
  · rw [hargv, List.append_assoc]
    rfl

/-- A redirection. -/
theorem adds_redirect {op : Operator} {gap' path gap : CString} {rest : Items}
    (hbacked : line.Backed) (hread : Items.Readable ((.redirect op gap' path, gap) :: rest))
    (h : line.At s.i (op.text ++ (gap' ++ (path ++ (gap ++ rest.text))))) (hdelim : s.delim = ' ')
    (ih : ∀ s, line.At s.i rest.text → s.delim = ' ' →
      Leads.Adds pid exitStatus line s (outcome s.arg rest)) :
    Leads.Adds pid exitStatus line s (outcome s.arg ((.redirect op gap' path, gap) :: rest)) := by
  obtain ⟨⟨hgap', hpath⟩, hgap, hrest, hglued⟩ := hread.uncons
  have hplain : ∀ c ∈ path, isBlank c = false ∧ c ≠ '>' :=
    fun c hc => ⟨hpath.notBlank c hc, (hpath.plain c hc).notOutput⟩
  have hstrlen := h.strlen
  simp only [List.length_append] at hstrlen
  have hoptext : 0 < op.text.length := by cases op <;> decide
  have hmore : gap' ++ (path ++ (gap ++ rest.text)) ≠ [] := by simp [hpath.1]
  have hat : line.At (s.i + op.text.length + gap'.length + path.length) (gap ++ rest.text) :=
    h.append.append.append
  cases gap with
  | cons b gap =>
      have hparted : Parted (b :: gap ++ rest.text) := Or.inr (hgap b (by simp))
      obtain ⟨r, hleads, hargv, hredirections⟩ := ih
        { s with
          i := s.i + op.text.length + gap'.length + path.length + 1 + gap.length
          redirections := s.redirections ++ [op.redirection path] } hat.next.append hdelim
      refine ⟨r, ?_, hargv, ?_⟩
      · refine (Leads.step_iff (gap'.length + path.length + gap.length + 1) (by omega)
          (fun fuel hfuel => scanBody_redirection h hmore hdelim ?_)).mpr hleads
        rw [processRedirection_at op hgap' hpath.1 hplain hparted h (by omega),
          skipBlanks_at hgap.tail hrest.stops hat.next (by omega)]
        rfl
      · rw [hredirections, List.append_assoc]
        rfl
  | nil =>
      have hend : rest = [] := by
        by_contra hne
        obtain ⟨⟨w, hword⟩, -⟩ := hglued rfl hne
        simp at hword
      subst hend
      have hparted : Parted ([] ++ Items.text []) := Or.inl rfl
      obtain ⟨k, hk⟩ := hbacked
      rw [← Line.get_behind] at hk
      obtain ⟨j, hle, hskip⟩ := skipBlanks_ends line k hk
      have hlast : s.i + op.text.length + gap'.length + path.length = line.strlen := by
        have hnil : (Items.text []).length = 0 := rfl
        simp only [List.length_nil, hnil] at hstrlen
        omega
      refine ⟨{ s with i := j, redirections := s.redirections ++ [op.redirection path] }, ?_,
        (List.append_nil _).symm, rfl⟩
      refine (Leads.step_iff (gap'.length + path.length + k + 1) (by omega)
        (fun fuel hfuel => scanBody_redirection h hmore hdelim ?_)).mpr (Leads.done ?_)
      · rw [processRedirection_at op hgap' hpath.1 hplain hparted h (by omega), hlast,
          hskip fuel (by omega)]
        rfl
      · show line.strlen ≤ j
        omega

/-- **The scan does what `outcome` says.** -/
theorem adds_outcome : ∀ {items : Items} {s : Scan}, items.Readable →
    (items.redirections ≠ [] → line.Backed) → line.At s.i items.text → s.delim = ' ' →
    Leads.Adds pid exitStatus line s (outcome s.arg items) := by
  intro items
  induction items with
  | nil =>
      intro s _ _ h _
      refine ⟨s, Leads.done ?_, (List.append_nil _).symm, (List.append_nil _).symm⟩
      have hstrlen := h.strlen
      exact hstrlen.le
  | cons item rest ih =>
      intro s hread hbacked h hdelim
      obtain ⟨item, gap⟩ := item
      have hrest : ∀ s : Scan, line.At s.i (Items.text rest) → s.delim = ' ' →
          Leads.Adds pid exitStatus line s (outcome s.arg rest) := by
        refine fun s => ih hread.uncons.2.2.1 fun hne => hbacked ?_
        obtain ⟨redirection, hmem⟩ := List.exists_mem_of_ne_nil _ hne
        obtain ⟨item', hitem', heq⟩ := List.mem_filterMap.mp hmem
        exact List.ne_nil_of_mem (List.mem_filterMap.mpr ⟨item', List.mem_cons_of_mem _ hitem', heq⟩)
      rw [Items.text_cons] at h
      cases item with
      | word w => exact adds_word hread h hdelim hrest
      | quoted q w =>
          refine adds_quoted hread ?_ hdelim hrest
          simpa [Item.text] using h
      | redirect op gap' path =>
          refine adds_redirect (hbacked (by simp [Items.redirections, Item.redirection?])) hread ?_
            hdelim hrest
          simpa [Item.text] using h

/-! ### The whole command -/

/-- `process_cmd` calls `execvpe` with this `argv`, having performed these redirections. -/
def Reads (pid exitStatus : Int) (line : Line) (result : List CString × List Redirection) : Prop :=
  Gives (processCmd pid exitStatus line) result

/-- **A command is read as `outcome` says.** -/
theorem reads_outcome {lead : CString} {items : Items} (hlead : Blanks lead)
    (hread : items.Readable) (htext : line.text = lead ++ items.text)
    (hbacked : items.redirections ≠ [] → line.Backed) :
    Reads pid exitStatus line (outcome [] items) := by
  have h : line.At 0 (lead ++ items.text) := ⟨[], htext, rfl⟩
  have hadds : Leads.Adds pid exitStatus line (Scan.start (0 + lead.length)) (outcome [] items) :=
    adds_outcome hread hbacked h.append rfl
  obtain ⟨r, ⟨enough, hloop⟩, hargv, hredirections⟩ := hadds
  refine ⟨enough + lead.length + 1, fun fuel hfuel => ?_⟩
  have hscan : scanLoop pid exitStatus line fuel (Scan.start (0 + lead.length)) = some r :=
    hloop fuel (by omega)
  unfold processCmd
  rw [skipBlanks_at hlead hread.stops h (by omega), Option.bind_some, hscan, Option.map_some, hargv,
    hredirections]
  rfl

/-! ### Blanks between all items -/

/-- Quotes with nothing in them that means anything, in quotes or not. -/
def Item.Simple : Item → Prop
  | .word w => Bare w
  | .quoted q w => (q = '\'' ∨ q = '"') ∧ q ∉ w ∧ ∀ c ∈ ['$', '<', '>', '&', '|'], c ∉ w
  | .redirect _ gap path => Blanks gap ∧ Bare path

instance (item : Item) : Decidable item.Simple :=
  match item with
  | .word w => inferInstanceAs (Decidable (Bare w))
  | .quoted q w =>
      letI := List.decidableBAll (· ∉ w) ['$', '<', '>', '&', '|']
      inferInstanceAs (Decidable ((q = '\'' ∨ q = '"') ∧ q ∉ w ∧
        ∀ c ∈ ['$', '<', '>', '&', '|'], c ∉ w))
  | .redirect _ gap path => inferInstanceAs (Decidable (Blanks gap ∧ Bare path))

theorem Item.Simple.readable {item : Item} (h : item.Simple) : item.Readable := by
  cases item with
  | word w => exact h
  | quoted q w =>
      obtain ⟨hq, hown, hnone⟩ := h
      exact ⟨hq, hown, hnone '<' (by simp), hnone '>' (by simp), Or.inr (hnone '$' (by simp))⟩
  | redirect op gap path => exact h

/-- The command consists of these items, with at least one blank between any two of them, and is
not too long for the buffers `argv`, `arg` and `path`. -/
structure WellSpaced (line : Line) (lead : CString) (items : Items) : Prop where
  text : line.text = lead ++ items.text
  leading : Blanks lead
  simple : ∀ item ∈ items, item.1.Simple ∧ Blanks item.2
  apart : ∀ item ∈ items.dropLast, item.2 ≠ []
  command : items.words ≠ []
  fewWords : items.words.length ≤ 127
  shortWords : ∀ w ∈ items.words, w.length ≤ 511
  shortPaths : ∀ item ∈ items, ∀ op gap path, item.1 = .redirect op gap path → path.length ≤ 127

theorem Items.readable_of_apart : ∀ {items : Items},
    (∀ item ∈ items, item.1.Simple ∧ Blanks item.2) → (∀ item ∈ items.dropLast, item.2 ≠ []) →
    items.Readable := by
  intro items
  induction items with
  | nil =>
      intro _ _
      trivial
  | cons item rest ih =>
      intro hsimple hapart
      obtain ⟨hitem, hgap⟩ := hsimple item (by simp)
      cases rest with
      | nil => exact ⟨hitem.readable, hgap⟩
      | cons next rest =>
          refine ⟨hitem.readable, hgap, fun hnil => absurd hnil (hapart item (by simp)), ?_⟩
          exact ih (fun item hmem => hsimple item (List.mem_cons_of_mem _ hmem))
            (fun item hmem => hapart item (List.mem_cons_of_mem _ hmem))

/-- Every word is an argument, and every redirection is performed. -/
theorem outcome_of_apart : ∀ {items : Items}, (∀ item ∈ items.dropLast, item.2 ≠ []) →
    outcome [] items = (items.words, items.redirections) := by
  intro items
  induction items with
  | nil =>
      intro _
      rfl
  | cons item rest ih =>
      intro hapart
      have hrest : outcome [] rest = (Items.words rest, Items.redirections rest) := by
        refine ih fun next hmem => hapart next ?_
        cases rest with
        | nil => simp at hmem
        | cons next' rest => exact List.mem_cons_of_mem _ hmem
      obtain ⟨item, gap⟩ := item
      cases item with
      | word w =>
          have hends : ¬(gap = [] ∧ rest ≠ []) := by
            rintro ⟨hnil, hne⟩
            obtain ⟨next, rest', rfl⟩ := List.exists_cons_of_ne_nil hne
            exact hapart (.word w, gap) (by simp) hnil
          rw [outcome, if_neg hends, hrest]
          rfl
      | quoted q w =>
          rw [outcome, hrest]
          rfl
      | redirect op gap' path =>
          rw [outcome, hrest]
          rfl

/--
**A command with blanks between its words and redirections is read exactly.**  The arguments
are the words, without their quotes and in their order, and the redirections are those of the
command, in their order.
-/
theorem wellSpaced_reads {lead : CString} {items : Items} (h : WellSpaced line lead items)
    (hbacked : line.Backed) :
    Reads pid exitStatus line (items.words, items.redirections) := by
  rw [← outcome_of_apart h.apart]
  exact reads_outcome h.leading (Items.readable_of_apart h.simple h.apart) h.text fun _ => hbacked

/-- A word, a word in quotes and two redirections, the last of them at the end. -/
def grepItems : Items :=
  [(.redirect .input [] "in".toList, [' ', '\t']), (.word "grep".toList, [' ']),
    (.quoted '"' "a b".toList, [' ', ' ']), (.redirect .append [' '] "log".toList, [])]

def grepLine : Line where
  text := "  <in \tgrep \"a b\"  >> log".toList
  noNul := by decide
  rest _ := '\x00'

theorem wellSpaced_reads_grep : WellSpaced grepLine [' ', ' '] grepItems ∧
    Reads 13 0 grepLine (["grep".toList, "a b".toList],
      [.input "in".toList, .output "log".toList true]) := by
  have hspaced : WellSpaced grepLine [' ', ' '] grepItems := by
    refine ⟨by decide, by decide, by decide, by decide, by decide, by decide, by decide, ?_⟩
    intro item hmem op gap path heq
    simp only [grepItems, List.mem_cons, List.not_mem_nil, or_false] at hmem
    rcases hmem with rfl | rfl | rfl | rfl <;> cases heq <;> decide
  exact ⟨hspaced, wellSpaced_reads hspaced ⟨0, rfl⟩⟩

/-! ### A word that touches a redirection -/

theorem outcome_redirections : ∀ (items : Items) (arg : CString),
    (outcome arg items).2 = items.redirections := by
  intro items
  induction items with
  | nil =>
      intro arg
      rfl
  | cons item rest ih =>
      intro arg
      obtain ⟨item, gap⟩ := item
      cases item with
      | word w =>
          rw [outcome]
          split
          · exact ih _
          · exact ih _
      | quoted q w => exact ih _
      | redirect op gap' path => exact congrArg _ (ih _)

/-- How many arguments are passed on does not depend on what has been written of the first. -/
theorem outcome_length : ∀ (items : Items) (arg arg' : CString),
    (outcome arg items).1.length = (outcome arg' items).1.length := by
  intro items
  induction items with
  | nil =>
      intro arg arg'
      rfl
  | cons item rest ih =>
      intro arg arg'
      obtain ⟨item, gap⟩ := item
      cases item with
      | word w =>
          rw [outcome, outcome]
          split
          · exact ih _ _
          · rfl
      | quoted q w => rfl
      | redirect op gap' path => exact ih _ _

/-- Without the blanks behind a word there is an argument less. -/
theorem outcome_touching {w gap : CString} {tail : Items} (hne : gap ≠ []) (htail : tail ≠ []) :
    ∀ (before : Items) (arg : CString),
    (outcome arg (before ++ (.word w, gap) :: tail)).1.length
      = (outcome arg (before ++ (.word w, []) :: tail)).1.length + 1 := by
  intro before
  induction before with
  | nil =>
      intro arg
      rw [List.nil_append, List.nil_append, outcome, outcome, if_neg (by simp [hne]),
        if_pos ⟨rfl, htail⟩]
      show (outcome [] tail).1.length + 1 = (outcome (arg ++ w) tail).1.length + 1
      rw [outcome_length tail [] (arg ++ w)]
  | cons item before ih =>
      intro arg
      obtain ⟨item, gap'⟩ := item
      rw [List.cons_append, List.cons_append]
      cases item with
      | word w' =>
          rw [outcome, outcome]
          by_cases hnil : gap' = []
          · rw [if_pos ⟨hnil, by simp⟩, if_pos ⟨hnil, by simp⟩]
            exact ih _
          · rw [if_neg (by simp [hnil]), if_neg (by simp [hnil])]
            exact congrArg (· + 1) (ih [])
      | quoted q w' => exact congrArg (· + 1) (ih [])
      | redirect op gap'' path => exact ih arg

theorem Items.Readable.cons {item : Item} {gap : CString} {rest : Items} (hitem : item.Readable)
    (hgap : Blanks gap) (hrest : rest.Readable)
    (hglued : gap = [] → rest ≠ [] → (∃ w, item = .word w) ∧
      ∃ op gap' path gap'' rest', rest = (.redirect op gap' path, gap'') :: rest') :
    Items.Readable ((item, gap) :: rest) := by
  cases rest with
  | nil => exact ⟨hitem, hgap⟩
  | cons next rest =>
      refine ⟨hitem, hgap, fun hnil => ?_, hrest⟩
      obtain ⟨hword, op, gap', path, gap'', rest', heq⟩ := hglued hnil (by simp)
      exact ⟨hword, op, gap', path, congrArg Prod.fst (List.cons.inj heq).1⟩

/-- Blanks can be put in. -/
theorem Items.Readable.widen {w gap : CString} {tail : Items} (hgap : Blanks gap) (hne : gap ≠ []) :
    ∀ {before : Items}, Items.Readable (before ++ (.word w, []) :: tail) →
    Items.Readable (before ++ (.word w, gap) :: tail) := by
  intro before
  induction before with
  | nil =>
      intro h
      obtain ⟨hitem, -, hrest, -⟩ := Items.Readable.uncons h
      exact Items.Readable.cons hitem hgap hrest fun hnil => absurd hnil hne
  | cons item before ih =>
      intro h
      obtain ⟨item, gap'⟩ := item
      obtain ⟨hitem, hgap', hrest, hglued⟩ := Items.Readable.uncons h
      refine Items.Readable.cons hitem hgap' (ih hrest) fun hnil _ => ?_
      obtain ⟨hword, op, gap'', path, gap₃, rest', heq⟩ := hglued hnil (by simp)
      refine ⟨hword, ?_⟩
      cases before with
      | nil => simp at heq
      | cons next before =>
          have hnext : next = (.redirect op gap'' path, gap₃) := (List.cons.inj heq).1
          rw [hnext]
          exact ⟨op, gap'', path, gap₃, _, rfl⟩

/-- The two commands are read as the same arguments and redirections. -/
def ReadAlike (pid exitStatus : Int) (line line' : Line) : Prop :=
  ∃ result, Reads pid exitStatus line result ∧ Reads pid exitStatus line' result

/-- Two commands that differ in one place: in `glued` a word touches the redirection behind it,
and in `spaced` there are blanks in between. -/
structure TouchingPair where
  lead : CString
  before : Items
  word : CString
  between : CString
  op : Operator
  gap : CString
  path : CString
  behind : CString
  after : Items
  glued : Line
  spaced : Line
  leading : Blanks lead
  blanks : Blanks between
  apart : between ≠ []
  readable :
    Items.Readable (before ++ (.word word, []) :: (.redirect op gap path, behind) :: after)
  glued_text : glued.text
    = lead ++ Items.text (before ++ (.word word, []) :: (.redirect op gap path, behind) :: after)
  spaced_text : spaced.text = lead ++
    Items.text (before ++ (.word word, between) :: (.redirect op gap path, behind) :: after)
  glued_backed : glued.Backed
  spaced_backed : spaced.Backed

/--
**A word that touches the redirection behind it is not read as a word of its own.**  Both
commands are read, and with the same redirections, but there is an argument less than with
blanks in between: the word has been joined to the next one, or lost.
-/
theorem touching_differs (t : TouchingPair) :
    (∃ argv argv' redirections, Reads pid exitStatus t.glued (argv, redirections) ∧
        Reads pid exitStatus t.spaced (argv', redirections) ∧ argv'.length = argv.length + 1) ∧
      ¬ReadAlike pid exitStatus t.glued t.spaced := by
  have hreads : Reads pid exitStatus t.glued _ :=
    reads_outcome t.leading t.readable t.glued_text fun _ => t.glued_backed
  have hreads' : Reads pid exitStatus t.spaced _ :=
    reads_outcome t.leading (t.readable.widen t.blanks t.apart) t.spaced_text fun _ =>
      t.spaced_backed
  have htail : (.redirect t.op t.gap t.path, t.behind) :: t.after ≠ [] := by simp
  have hlength := outcome_touching (w := t.word) t.apart htail t.before []
  have hsame : (outcome [] (t.before ++ (.word t.word, t.between) ::
        (.redirect t.op t.gap t.path, t.behind) :: t.after)).2
      = (outcome [] (t.before ++ (.word t.word, []) ::
        (.redirect t.op t.gap t.path, t.behind) :: t.after)).2 := by
    rw [outcome_redirections, outcome_redirections]
    unfold Items.redirections
    rw [List.filterMap_append, List.filterMap_append]
    rfl
  refine ⟨⟨_, _, _, hreads, ?_, hlength⟩, ?_⟩
  · rw [← hsame]
    exact hreads'
  · rintro ⟨result, hresult, hresult'⟩
    rw [hresult.unique hreads] at hresult'
    rw [hreads'.unique hresult'] at hlength
    omega

/-- `echo hi>f`. -/
def echoGlued : Line where
  text := "echo hi>f".toList
  noNul := by decide
  rest _ := '\x00'

/-- `echo hi >f`. -/
def echoSpaced : Line where
  text := "echo hi >f".toList
  noNul := by decide
  rest _ := '\x00'

def echoItems (gap : CString) : Items :=
  [(.word "echo".toList, [' ']), (.word "hi".toList, gap), (.redirect .output [] "f".toList, [])]

theorem echoItems_readable {gap : CString} (hgap : Blanks gap) : (echoItems gap).Readable := by
  have hecho : (Item.word "echo".toList).Simple := by decide
  have hhi : (Item.word "hi".toList).Simple := by decide
  have hf : (Item.redirect .output [] "f".toList).Simple := by decide
  exact ⟨hecho.readable, by decide, by simp, hhi.readable, hgap, by simp, hf.readable, by decide⟩

/-- The two of them. -/
def echoPair : TouchingPair where
  lead := []
  before := [(.word "echo".toList, [' '])]
  word := "hi".toList
  between := [' ']
  op := .output
  gap := []
  path := "f".toList
  behind := []
  after := []
  glued := echoGlued
  spaced := echoSpaced
  leading := by decide
  blanks := by decide
  apart := by decide
  readable := echoItems_readable (show Blanks [] by decide)
  glued_text := rfl
  spaced_text := rfl
  glued_backed := ⟨0, rfl⟩
  spaced_backed := ⟨0, rfl⟩

/-- One argument is lost. -/
theorem touching_differs_echo :
    (∃ argv argv' redirections, Reads 13 0 echoGlued (argv, redirections) ∧
        Reads 13 0 echoSpaced (argv', redirections) ∧ argv'.length = argv.length + 1) ∧
      ¬ReadAlike 13 0 echoGlued echoSpaced :=
  touching_differs echoPair

theorem touching_fails_at_echo : Reads 13 0 echoGlued (["echo".toList], [.output "f".toList false]) ∧
    Reads 13 0 echoSpaced (["echo".toList, "hi".toList], [.output "f".toList false]) ∧
      ¬ReadAlike 13 0 echoGlued echoSpaced := by
  have hnone : Blanks [] := by decide
  have hglued : Reads 13 0 echoGlued (["echo".toList], [.output "f".toList false]) :=
    reads_outcome hnone (echoItems_readable hnone) rfl fun _ => ⟨0, rfl⟩
  have hspaced : Reads 13 0 echoSpaced (["echo".toList, "hi".toList], [.output "f".toList false]) :=
    reads_outcome hnone (echoItems_readable (show Blanks [' '] by decide)) rfl fun _ => ⟨0, rfl⟩
  refine ⟨hglued, hspaced, ?_⟩
  rintro ⟨result, hresult, hresult'⟩
  rw [hresult.unique hglued] at hresult'
  exact absurd (hresult'.unique hspaced) (by decide)

end Shell
