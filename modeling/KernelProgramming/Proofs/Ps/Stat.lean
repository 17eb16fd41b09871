/-
Which lines of `stat` `myps` reads correctly.

The fields are counted by the spaces in front of them, and all fields but the name
have none inside.  So for a name without a space every token is a field, whatever
else the name contains, and reading a number back gives what was printed.  A name
with a space is cut there; what is stored is shorter than the name.
-/
import KernelProgramming.Proofs.Shell.Lines
import KernelProgramming.Proofs.Shell.Split
import KernelProgramming.Ps.Myps

namespace Ps

open Shell

/-! ### The line the kernel prints -/

/-- A number that fits into 64 bits, signed or not. -/
def Fits (x : Int) : Prop := -9223372036854775808 ≤ x ∧ x < 18446744073709551616

/-- What `/proc/<pid>/stat` has in it. -/
structure Stat where
  pid : Nat
  comm : CString
  state : Char
  /-- The fields 4 to 13. -/
  early : List Int
  utime : Nat
  stime : Nat
  /-- The fields 16 to 22. -/
  middle : List Int
  vsize : Nat
  /-- The fields from 24 on. -/
  late : List Int
  comm_length : comm.length ≤ 63
  comm_text : ∀ c ∈ comm, c ≠ '\x00' ∧ c ≠ '\n'
  state_text : state.isAlpha = true
  early_length : early.length = 10
  middle_length : middle.length = 7
  pid_fits : Fits pid
  early_fits : ∀ x ∈ early, Fits x
  utime_fits : Fits utime
  stime_fits : Fits stime
  middle_fits : ∀ x ∈ middle, Fits x
  vsize_fits : Fits vsize

namespace Stat

/-- The name in parentheses. -/
def inParens (st : Stat) : CString := '(' :: (st.comm ++ [')'])

/-- The fields in front of `vsize`. -/
def fields (st : Stat) : List CString :=
  decimal st.pid :: st.inParens :: [st.state] ::
    (st.early.map decimal ++ decimal st.utime :: decimal st.stime :: st.middle.map decimal)

/-- Everything behind `vsize`. -/
def tail (st : Stat) : CString := (st.late.flatMap fun x => ' ' :: decimal x) ++ ['\n']

/-- The line, with single spaces between the fields. -/
def line (st : Stat) : CString :=
  (st.fields.flatMap fun field => field ++ [' ']) ++ decimal st.vsize ++ st.tail

end Stat

/-! ### Numbers -/

/-- A text without spaces that a line can contain. -/
def Word (w : CString) : Prop := w ≠ [] ∧ ∀ c ∈ w, c ≠ ' ' ∧ c ≠ '\n' ∧ c ≠ '\x00'

theorem Word.noSpace {w : CString} (h : Word w) : ' ' ∉ w := fun hmem => (h.2 ' ' hmem).1 rfl

theorem word_of_digits {w : CString} (hne : w ≠ []) (hdigits : ∀ c ∈ w, c.isDigit = true) :
    Word w := by
  refine ⟨hne, fun c hc => ⟨?_, ?_, ?_⟩⟩
  all_goals
    rintro rfl
    exact absurd (hdigits _ hc) (by decide)

theorem toDigits_isDigit {n : Nat} {c : Char} (hc : c ∈ Nat.toDigits 10 n) : c.isDigit = true :=
  Nat.isDigit_of_mem_toDigits (by decide) (by decide) hc

theorem decimal_word (x : Int) : Word (decimal x) := by
  have hdigits : ∀ n, Word (Nat.toDigits 10 n) := fun n =>
    word_of_digits Nat.toDigits_ne_nil fun c hc => toDigits_isDigit hc
  cases x with
  | ofNat n => exact hdigits n
  | negSucc n =>
      refine ⟨List.cons_ne_nil _ _, fun c hc => ?_⟩
      rcases List.mem_cons.mp hc with rfl | hc
      · decide
      · exact (hdigits (n + 1)).2 c hc

theorem length_decimal_le {x : Int} (h : Fits x) : (decimal x).length ≤ 20 := by
  unfold Fits at h
  cases x with
  | ofNat n =>
      refine (Nat.length_toDigits_le_iff (by decide) (by decide)).mpr ?_
      rw [Int.ofNat_eq_natCast] at h
      omega
  | negSucc n =>
      have hlen : (Nat.toDigits 10 (n + 1)).length ≤ 19 := by
        refine (Nat.length_toDigits_le_iff (by decide) (by decide)).mpr ?_
        rw [Int.negSucc_eq] at h
        omega
      show (Nat.toDigits 10 (n + 1)).length + 1 ≤ 20
      omega

/-- The digits are read up to the first other character. -/
theorem digits_append {l tail : CString} (hl : ∀ c ∈ l, c.isDigit = true)
    (htail : ∀ c ∈ tail.head?, c.isDigit = false) : ∀ acc,
      digits acc (l ++ tail) = Nat.ofDigitChars 10 l acc := by
  induction l with
  | nil =>
      intro acc
      rw [Nat.ofDigitChars_nil]
      cases tail with
      | nil => rfl
      | cons c rest =>
          rw [List.nil_append, digits, if_neg]
          exact Bool.eq_false_iff.mp (htail c rfl)
  | cons c l ih =>
      intro acc
      rw [List.cons_append, digits, if_pos (hl c (List.mem_cons_self ..)),
        ih fun d hd => hl d (List.mem_cons_of_mem _ hd), Nat.ofDigitChars_cons, Nat.mul_comm]

theorem isSpace_of_isDigit {c : Char} (h : c.isDigit = true) : isSpace c = false := by
  have hlow : 48 ≤ c.toNat := (Char.isDigit_iff_toNat.mp h).1
  have hspace : c ≠ ' ' := by
    rintro rfl
    exact absurd h (by decide)
  have hreturn : ¬c ≤ '\r' := by
    intro hle
    have hnum : c.toNat ≤ 13 := hle
    omega
  simp [isSpace, hspace, hreturn]

/-- **Reading a number back**, whatever stands behind it. -/
theorem strtoul_decimal {n : Nat} (hn : Fits n) {tail : CString}
    (htail : ∀ c ∈ tail.head?, c.isDigit = false) : strtoul (decimal n ++ tail) = n := by
  have hvalue : digits 0 (decimal n ++ tail) = n := by
    show digits 0 (Nat.toDigits 10 n ++ tail) = n
    rw [digits_append (fun c hc => toDigits_isDigit hc) htail, Nat.ofDigitChars_ten_toDigits]
  obtain ⟨c, rest, hcons⟩ := List.exists_cons_of_ne_nil (Nat.toDigits_ne_nil (n := n) (b := 10))
  have hc : c.isDigit = true := toDigits_isDigit (by rw [hcons]; exact List.mem_cons_self ..)
  have hdecimal : decimal n ++ tail = c :: (rest ++ tail) := by
    show Nat.toDigits 10 n ++ tail = _
    rw [hcons, List.cons_append]
  rw [hdecimal] at hvalue ⊢
  unfold Fits at hn
  unfold strtoul
  rw [List.dropWhile_cons_of_neg (by simp [isSpace_of_isDigit hc])]
  split
  · rename_i heq
    rw [(List.cons.inj heq).1] at hc
    exact absurd hc (by decide)
  · rename_i heq
    rw [(List.cons.inj heq).1] at hc
    exact absurd hc (by decide)
  · rw [hvalue]
    omega

/-! ### The text in `data` -/

theorem fgets_front {x : CString} (hline : ∀ c ∈ x, c ≠ '\n') (y : CString) : ∀ n,
    x.length ≤ n → (fgets n (x ++ y)).1 = x ++ (fgets (n - x.length) y).1 := by
  induction x with
  | nil =>
      intro n _
      rfl
  | cons c x ih =>
      intro n hlen
      rw [List.length_cons] at hlen
      obtain ⟨n, rfl⟩ := Nat.exists_eq_add_one_of_ne_zero (show n ≠ 0 by omega)
      have hrest := ih (fun d hd => hline d (List.mem_cons_of_mem _ hd)) n (by omega)
      rw [List.cons_append, fgets, if_neg (hline c (List.mem_cons_self ..)),
        List.length_cons, Nat.add_sub_add_right]
      exact congrArg (c :: ·) hrest

/-- A front that fits is in `data`, and behind it a part of what follows. -/
theorem data_front {x : CString} (htext : ∀ c ∈ x, c ≠ '\n' ∧ c ≠ '\x00') (hlen : x.length ≤ 2047)
    (y : CString) : ∃ y', y' <+: y ∧
      (fgets 2047 (x ++ y)).1.takeWhile (· ≠ '\x00') = x ++ y' := by
  refine ⟨(fgets (2047 - x.length) y).1.takeWhile (· ≠ '\x00'), ?_, ?_⟩
  · refine (List.takeWhile_prefix _).trans ?_
    exact ⟨_, fgets_append (2047 - x.length) y⟩
  · rw [fgets_front (fun c hc => (htext c hc).1) y 2047 hlen, List.takeWhile_append_of_pos]
    intro c hc
    simpa using (htext c hc).2

/-! ### The tokens -/

theorem strtok_fields {fields : List CString} (hfields : ∀ field ∈ fields, Word field)
    (rest : CString) : strtok ((fields.flatMap fun field => field ++ [' ']) ++ rest)
      = fields ++ strtok rest := by
  induction fields with
  | nil => rfl
  | cons field fields ih =>
      have hword := hfields field (List.mem_cons_self ..)
      rw [List.flatMap_cons, List.append_assoc, List.append_assoc, List.singleton_append,
        strtok_word hword.1 hword.noSpace, ih fun w hw => hfields w (List.mem_cons_of_mem _ hw)]
      rfl

theorem text_of_fields {fields : List CString} (hfields : ∀ field ∈ fields, Word field) :
    ∀ c ∈ fields.flatMap fun field => field ++ [' '], c ≠ '\n' ∧ c ≠ '\x00' := by
  intro c hc
  obtain ⟨field, hfield, hc⟩ := List.mem_flatMap.mp hc
  rcases List.mem_append.mp hc with hc | hc
  · exact ((hfields field hfield).2 c hc).2
  · rw [List.mem_singleton.mp hc]
    decide

/-- The token that a word begins. -/
theorem strtok_begins {w : CString} (hw : Word w) (t : CString) :
    ∃ more, strtok (w ++ t) = (w ++ t.takeWhile (· ≠ ' ')) :: more := by
  have hne : w ++ t.takeWhile (· ≠ ' ') ≠ [] := fun heq => hw.1 (List.append_eq_nil_iff.mp heq).1
  have hspace : ∀ c ∈ w ++ t.takeWhile (· ≠ ' '), (c == ' ') = false := by
    intro c hc
    rcases List.mem_append.mp hc with hc | hc
    · exact beq_eq_false_iff_ne.mpr (hw.2 c hc).1
    · simpa using List.mem_takeWhile_imp hc
  have hrest : ∀ c ∈ (t.dropWhile (· ≠ ' ')).head?, (c == ' ') = true := by
    intro c hc
    simpa using Tokens.head?_dropWhile t c hc
  refine ⟨strtok (t.dropWhile (· ≠ ' ')), ?_⟩
  rw [strtok_eq_tokens, strtok_eq_tokens, ← Tokens.tokens_append hne hspace hrest,
    List.append_assoc, List.takeWhile_append_dropWhile]

/-- Tokens that no number is given to. -/
theorem fieldLoop_skip {f : Fields} {rest : List CString} (ts : List CString) : ∀ i,
    (∀ k, i ≤ k → k < i + ts.length → k ≠ 1 ∧ k ≠ 13 ∧ k ≠ 14 ∧ k ≠ 22) →
      fieldLoop i (ts ++ rest) f = fieldLoop (i + ts.length) rest f := by
  induction ts with
  | nil =>
      intro i _
      rfl
  | cons t ts ih =>
      intro i hi
      rw [List.length_cons] at hi ⊢
      obtain ⟨h1, h13, h14, h22⟩ := hi i le_rfl (by omega)
      rw [List.cons_append, fieldLoop, if_neg h1, if_neg h13, if_neg h14, if_neg h22,
        ih (i + 1) fun k hk hlt => hi k (by omega) (by omega)]
      congr 1
      omega

/-- The name is stored once. -/
theorem fieldLoop_name {r : Fields} : ∀ (ts : List CString) (i : Nat) (f : Fields), 2 ≤ i →
    fieldLoop i ts f = some r → r.name = f.name := by
  intro ts
  induction ts with
  | nil =>
      intro i f _ h
      rw [← Option.some.inj h]
  | cons t ts ih =>
      intro i f hi h
      rw [fieldLoop, if_neg (by omega)] at h
      split at h
      · exact ih (i + 1) { f with utime := strtoul t } (by omega) h
      · split at h
        · exact ih (i + 1) { f with stime := strtoul t } (by omega) h
        · split at h
          · rw [← Option.some.inj h]
          · exact ih (i + 1) f (by omega) h

/-! ### A name without a space -/

namespace Stat

variable {st : Stat}

theorem inParens_word (hcomm : ' ' ∉ st.comm) : Word st.inParens := by
  refine ⟨List.cons_ne_nil _ _, fun c hc => ?_⟩
  rcases List.mem_cons.mp hc with rfl | hc
  · decide
  · rcases List.mem_append.mp hc with hc | hc
    · obtain ⟨hnul, hnewline⟩ := st.comm_text c hc
      exact ⟨fun heq => hcomm (heq ▸ hc), hnewline, hnul⟩
    · rw [List.mem_singleton.mp hc]
      decide

theorem state_word : Word [st.state] := by
  refine ⟨List.cons_ne_nil _ _, fun c hc => ?_⟩
  rw [List.mem_singleton.mp hc]
  have hstate := st.state_text
  refine ⟨?_, ?_, ?_⟩
  all_goals
    intro heq
    rw [heq] at hstate
    exact absurd hstate (by decide)

theorem fields_word (hcomm : ' ' ∉ st.comm) : ∀ field ∈ st.fields, Word field := by
  intro field hfield
  simp only [fields, List.mem_cons, List.mem_append, List.mem_map] at hfield
  rcases hfield with rfl | rfl | rfl | ⟨x, -, rfl⟩ | rfl | rfl | ⟨x, -, rfl⟩
  · exact decimal_word _
  · exact inParens_word hcomm
  · exact state_word
  all_goals exact decimal_word _

theorem length_flatMap_le : ∀ {xs : List Int}, (∀ x ∈ xs, Fits x) →
    ((xs.map decimal).flatMap fun field => field ++ [' ']).length ≤ 21 * xs.length := by
  intro xs
  induction xs with
  | nil =>
      intro _
      exact le_rfl
  | cons x xs ih =>
      intro hfits
      have hx := length_decimal_le (hfits x (List.mem_cons_self ..))
      have hxs := ih fun y hy => hfits y (List.mem_cons_of_mem _ hy)
      simp only [List.map_cons, List.flatMap_cons, List.length_append, List.length_cons,
        List.length_nil] at hxs ⊢
      omega

/-- Everything up to `vsize`. -/
def front (st : Stat) : CString :=
  (st.fields.flatMap fun field => field ++ [' ']) ++ decimal st.vsize

theorem front_length : st.front.length ≤ 2047 := by
  have hpid := length_decimal_le st.pid_fits
  have hutime := length_decimal_le st.utime_fits
  have hstime := length_decimal_le st.stime_fits
  have hvsize := length_decimal_le st.vsize_fits
  have hearly := length_flatMap_le st.early_fits
  have hmiddle := length_flatMap_le st.middle_fits
  have hcomm := st.comm_length
  rw [st.early_length] at hearly
  rw [st.middle_length] at hmiddle
  simp only [front, fields, inParens, List.flatMap_cons, List.flatMap_append, List.length_append,
    List.length_cons, List.length_nil] at hearly hmiddle ⊢
  omega

theorem front_text (hcomm : ' ' ∉ st.comm) : ∀ c ∈ st.front, c ≠ '\n' ∧ c ≠ '\x00' := by
  intro c hc
  rcases List.mem_append.mp hc with hc | hc
  · exact text_of_fields (fields_word hcomm) c hc
  · exact ((decimal_word _).2 c hc).2

/-- What follows `vsize` is no digit. -/
theorem tail_head {t : CString} (ht : t <+: st.tail) : ∀ c ∈ t.head?, c.isDigit = false := by
  intro c hc
  obtain ⟨rest, hrest⟩ := ht
  cases t with
  | nil => cases hc
  | cons d t =>
      obtain rfl : d = c := Option.some.inj hc
      unfold tail at hrest
      cases hlate : st.late with
      | nil =>
          rw [hlate] at hrest
          rw [(List.cons.inj hrest).1]
          decide
      | cons x late =>
          rw [hlate, List.flatMap_cons] at hrest
          rw [(List.cons.inj hrest).1]
          decide

theorem copyName_inParens : copyName st.inParens = some st.comm := by
  have hcomm := st.comm_length
  unfold copyName inParens nameSize
  simp only [List.length_cons, List.length_append, List.length_nil]
  rw [if_pos (by omega), show st.comm.length + (0 + 1) + 1 - 2 = st.comm.length by omega]
  simp

/-- The loop over the fields, when every token is one. -/
theorem fieldLoop_fields (st : Stat) {token : CString} (htoken : strtoul token = st.vsize)
    (more : List CString) (f : Fields) :
    fieldLoop 0 (st.fields ++ token :: more) f
      = some { name := st.comm, utime := st.utime, stime := st.stime, vsize := st.vsize } := by
  have hread : ∀ {n : Nat}, Fits n → strtoul (decimal n) = n := by
    intro n hn
    have hback : strtoul (decimal n ++ []) = n := strtoul_decimal hn fun c hc => nomatch hc
    rwa [List.append_nil] at hback
  have hsplit : st.fields ++ token :: more
      = decimal st.pid :: st.inParens :: (([st.state] :: st.early.map decimal) ++
          decimal st.utime :: decimal st.stime :: (st.middle.map decimal ++ token :: more)) := by
    simp [fields]
  have hearly : 2 + ([st.state] :: st.early.map decimal).length = 13 := by
    rw [List.length_cons, List.length_map, st.early_length]
  have hmiddle : 15 + (st.middle.map decimal).length = 22 := by
    rw [List.length_map, st.middle_length]
  rw [hsplit, fieldLoop, if_neg (by decide), if_neg (by decide), if_neg (by decide),
    if_neg (by decide), fieldLoop, if_pos rfl, copyName_inParens, Option.bind_some,
    fieldLoop_skip _ 2 fun k hk hlt => by omega, hearly]
  rw [fieldLoop, if_neg (by decide), if_pos rfl, fieldLoop, if_neg (by decide), if_neg (by decide),
    if_pos rfl, fieldLoop_skip _ 15 fun k hk hlt => by omega, hmiddle]
  rw [fieldLoop, if_neg (by decide), if_neg (by decide), if_neg (by decide), if_pos rfl, htoken,
    hread st.utime_fits, hread st.stime_fits]

/-- **A name without a space** is read with all its fields. -/
theorem readStat_of_noSpace (hcomm : ' ' ∉ st.comm) (f : Fields) : readStat st.line f
    = some { name := st.comm, utime := st.utime, stime := st.stime, vsize := st.vsize } := by
  obtain ⟨t, ht, hdata⟩ := data_front (front_text hcomm) front_length st.tail
  obtain ⟨more, hmore⟩ := strtok_begins (decimal_word st.vsize) t
  unfold readStat
  show fieldLoop 0 (strtok ((fgets 2047 (st.front ++ st.tail)).1.takeWhile (· ≠ '\x00'))) f = _
  rw [hdata, front, List.append_assoc, strtok_fields (fields_word hcomm), hmore]
  refine fieldLoop_fields st (strtoul_decimal st.vsize_fits ?_) more f
  exact tail_head ((List.takeWhile_prefix _).trans ht)

/-! ### A name with a space -/

theorem copyName_length {token name : CString} (h : copyName token = some name) :
    name.length + 2 = token.length := by
  simp only [copyName] at h
  split at h
  · rw [← Option.some.inj h, List.length_take, List.length_drop]
    omega
  · cases h

/-- The fields up to the first space of the name. -/
theorem cut_word {a b : CString} (hsplit : st.comm = a ++ ' ' :: b) (ha : ' ' ∉ a) :
    ∀ field ∈ [decimal st.pid, '(' :: a], Word field := by
  have hword : Word ('(' :: a) := by
    refine ⟨List.cons_ne_nil _ _, fun c hc => ?_⟩
    rcases List.mem_cons.mp hc with rfl | hc
    · decide
    · obtain ⟨hnul, hnewline⟩ := st.comm_text c (by rw [hsplit]; exact List.mem_append_left _ hc)
      exact ⟨fun heq => ha (heq ▸ hc), hnewline, hnul⟩
  intro field hfield
  rcases List.mem_cons.mp hfield with rfl | hfield
  · exact decimal_word _
  · rw [List.mem_singleton.mp hfield]
    exact hword

/-- The token with the name ends at the first space. -/
theorem strtok_cut {a b : CString} (hsplit : st.comm = a ++ ' ' :: b) (ha : ' ' ∉ a) :
    ∃ more, strtok ((fgets 2047 st.line).1.takeWhile (· ≠ '\x00'))
      = decimal st.pid :: ('(' :: a) :: more := by
  have hwords := cut_word hsplit ha
  have hline : st.line = ([decimal st.pid, '(' :: a].flatMap fun field => field ++ [' ']) ++
      (b ++ [')', ' '] ++ ((st.fields.drop 2).flatMap fun field => field ++ [' '])
        ++ decimal st.vsize ++ st.tail) := by
    simp [line, fields, inParens, hsplit]
  have hlen : ([decimal st.pid, '(' :: a].flatMap fun field => field ++ [' ']).length ≤ 2047 := by
    have hpid := length_decimal_le st.pid_fits
    have hcomm := st.comm_length
    rw [hsplit, List.length_append, List.length_cons] at hcomm
    simp only [List.flatMap_cons, List.flatMap_nil, List.length_append, List.length_cons,
      List.length_nil]
    omega
  obtain ⟨t, -, hdata⟩ := data_front (text_of_fields hwords) hlen _
  refine ⟨strtok t, ?_⟩
  rw [hline, hdata, strtok_fields hwords]
  rfl

/-- **A name with a space** is not what is stored. -/
theorem readStat_of_space (hcomm : ' ' ∈ st.comm) {f r : Fields}
    (h : readStat st.line f = some r) : r.name.length < st.comm.length := by
  obtain ⟨a, b, hsplit, ha⟩ := List.eq_append_cons_of_mem hcomm
  obtain ⟨more, hmore⟩ := strtok_cut hsplit ha
  unfold readStat at h
  simp only [hmore] at h
  rw [fieldLoop, if_neg (by decide), if_neg (by decide), if_neg (by decide), if_neg (by decide),
    fieldLoop, if_pos rfl] at h
  obtain ⟨name, hcopy, hloop⟩ := Option.bind_eq_some_iff.mp h
  have hname : r.name = name := fieldLoop_name _ 2 _ le_rfl hloop
  have hlen := copyName_length hcopy
  rw [hname, hsplit, List.length_append]
  rw [List.length_cons] at hlen ⊢
  omega

/-- **When `myps` reads the line correctly.** -/
theorem readStat_iff (st : Stat) (f : Fields) : readStat st.line f
      = some { name := st.comm, utime := st.utime, stime := st.stime, vsize := st.vsize }
    ↔ ' ' ∉ st.comm := by
  constructor
  · intro h hmem
    have hlt := readStat_of_space hmem h
    exact Nat.lt_irrefl _ hlt
  · intro hcomm
    exact readStat_of_noSpace hcomm f

/-- A process whose name is `a b`. -/
def spaced : Stat where
  pid := 1
  comm := ['a', ' ', 'b']
  state := 'S'
  early := List.replicate 10 0
  utime := 5
  stime := 6
  middle := List.replicate 7 0
  vsize := 7
  late := [0]
  comm_length := by decide
  comm_text := by simp
  state_text := by decide
  early_length := rfl
  middle_length := rfl
  pid_fits := by unfold Fits; decide
  early_fits := by simp [Fits]
  utime_fits := by unfold Fits; decide
  stime_fits := by unfold Fits; decide
  middle_fits := by simp [Fits]
  vsize_fits := by unfold Fits; decide

/-- Its name is lost, and the fields behind it are taken for their successors. -/
theorem readStat_spaced :
    readStat spaced.line { name := [], utime := 0, stime := 0, vsize := 0 }
        = some { name := [], utime := 0, stime := 5, vsize := 0 } ∧
      readStat spaced.line { name := [], utime := 0, stime := 0, vsize := 0 }
        ≠ some { name := ['a', ' ', 'b'], utime := 5, stime := 6, vsize := 7 } := by
  have hread : readStat spaced.line { name := [], utime := 0, stime := 0, vsize := 0 }
      = some { name := [], utime := 0, stime := 5, vsize := 0 } := by
    decide +kernel
  refine ⟨hread, ?_⟩
  rw [hread]
  decide

end Stat

end Ps
