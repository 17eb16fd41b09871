/-
Does `get_cmd_line` take off the trailing blanks, and nothing else?

The loop at its end works on the array.  As long as it stays inside, it does what
`trimRev` does to the line read backwards, and the array ends up with `trim` of the line.
It stays inside exactly when at least two characters are left: with one left, or none, it
looks at the character in front of the array, and what it does then is up to what stands
there.

So a line is trimmed as it should be when `trim` is right about it and something stands in
front of its last character (`trimsOnly_iff`).  And when no blanks stand in front of the
array the string is the one that `getCmdLine` says, inside or not (`getCmdLineIn_refines`).
-/
import KernelProgramming.Shell.CmdLine
import KernelProgramming.Lib.Fuel
import KernelProgramming.Proofs.Shell.Lines

namespace Shell

open Memory Fuel

variable {b b' : Buffer} {fuel : Nat} {n : Int} {line : CString}

/-- The string in the array. -/
def Buffer.Has (b : Buffer) (line : CString) : Prop := Holds b.mem 0 (line ++ ['\x00'])

/-- Nothing has happened in front of the array. -/
structure Inside (b b' : Buffer) : Prop where
  used : ∀ i < 0, i ∈ b'.used → i ∈ b.used
  front : ∀ i < 0, b'.mem i = b.mem i

theorem Inside.refl (b : Buffer) : Inside b b := ⟨fun _ _ h => h, fun _ _ => rfl⟩

theorem Inside.trans {b₁ b₂ b₃ : Buffer} (h : Inside b₁ b₂) (h' : Inside b₂ b₃) : Inside b₁ b₃ :=
  ⟨fun i hi hmem => h.used i hi (h'.used i hi hmem),
    fun i hi => (h'.front i hi).trans (h.front i hi)⟩

theorem Inside.read (b : Buffer) {i : Int} (hi : 0 ≤ i) : Inside b (b.read i).2 := by
  refine ⟨fun j hj hmem => ?_, fun _ _ => rfl⟩
  rcases List.mem_cons.mp hmem with rfl | hmem
  · omega
  · exact hmem

theorem Inside.write (b : Buffer) {i : Int} (hi : 0 ≤ i) (c : Char) : Inside b (b.write i c) := by
  refine ⟨(Inside.read b hi).used, fun j hj => ?_⟩
  exact Function.update_of_ne (by omega) _ _

/-- No blanks stand in front of the array. -/
def Buffer.ClearFront (b : Buffer) : Prop := ∀ i < 0, isBlank (b.mem i) = false

theorem Buffer.ClearFront.ne (h : b.ClearFront) {i : Int} (hi : i < 0) {c : Char}
    (hc : isBlank c = true) : b.mem i ≠ c := by
  rintro rfl
  rw [h i hi] at hc
  exact absurd hc (by decide)

theorem Buffer.ClearFront.of_inside (h : b.ClearFront) (hinside : Inside b b') :
    b'.ClearFront := by
  intro i hi
  rw [hinside.front i hi]
  exact h i hi

theorem Buffer.ClearFront.write (h : b.ClearFront) (i : Int) {c : Char} (hc : isBlank c = false) :
    (b.write i c).ClearFront := by
  intro j hj
  show isBlank (Function.update b.mem i c j) = false
  rw [Function.update_apply]
  split
  · exact hc
  · exact h j hj

theorem Buffer.Has.text (h : b.Has line) (hnul : '\x00' ∉ line)
    (hlen : line.length < maxCmdlineLen) : b.text = line :=
  h.string_eq hnul hlen

/-! ### The loop at the end

The line is read backwards, so what the loop meets first is the head of the list.
-/

/-- The string is cut behind `line`. -/
theorem Buffer.Has.write {t : CString} (h : b.Has (t ++ line).reverse) :
    (b.write line.length '\x00').Has line.reverse := by
  rw [Buffer.Has, List.reverse_append, List.append_assoc] at h
  have hupdate := h.update_next '\x00'
  rw [Int.zero_add, List.length_reverse] at hupdate
  exact hupdate

theorem Buffer.Has.get {t : CString} {c : Char} (h : b.Has (t ++ c :: line).reverse) :
    b.mem line.length = c := by
  rw [Buffer.Has, List.reverse_append, List.reverse_cons, List.append_assoc, List.append_assoc] at h
  have hhead := h.head
  rwa [Int.zero_add, List.length_reverse] at hhead

/-- The array `b'` is what an iteration leaves of `b`. -/
structure Shortened (b b' : Buffer) (line : CString) : Prop where
  has : b'.Has line.reverse
  inside : Inside b b'

theorem removeTrailing_space (h : b.Has (' ' :: line).reverse) :
    ∃ b', Shortened b b' line ∧ ∀ fuel,
      removeTrailing (fuel + 1) b (' ' :: line).length = removeTrailing fuel b' line.length := by
  have hget : b.mem line.length = ' ' := Buffer.Has.get (t := []) h
  have hwrite : ((b.read line.length).2.write line.length '\x00').Has line.reverse :=
    Buffer.Has.write (t := [' ']) h
  refine ⟨_, ⟨hwrite, (Inside.read b (by omega)).trans (Inside.write _ (by omega) _)⟩,
    fun fuel => ?_⟩
  have hindex : ((' ' :: line).length : Int) - 1 = line.length := by
    rw [List.length_cons]
    omega
  have hread : b.read line.length = (' ', (b.read line.length).2) := Prod.ext hget rfl
  rw [removeTrailing, hindex, hread]
  dsimp only
  rw [if_pos rfl]

/-- The two reads of an iteration when the first finds no space. -/
theorem removeTrailing_second {c : Char} (hc : c ≠ ' ') (hget : b.mem (n + 1) = c) :
    removeTrailing (fuel + 1) b (n + 2)
      = if b.mem n = '\t' then
          removeTrailing fuel (((b.read (n + 1)).2.read n).2.write n '\x00') n
        else some ((b.read (n + 1)).2.read n).2 := by
  have hfirst : n + 2 - 1 = n + 1 := by omega
  have hread : b.read (n + 1) = (c, (b.read (n + 1)).2) := Prod.ext hget rfl
  rw [removeTrailing, hfirst, Int.add_sub_cancel, hread]
  dsimp only
  rw [if_neg hc]
  rfl

theorem removeTrailing_tab {c : Char} (hc : c ≠ ' ') (h : b.Has (c :: '\t' :: line).reverse) :
    ∃ b', Shortened b b' line ∧ ∀ fuel,
      removeTrailing (fuel + 1) b (c :: '\t' :: line).length
        = removeTrailing fuel b' line.length := by
  have hlast : b.mem (line.length + 1) = c := Buffer.Has.get (t := []) h
  have hget : b.mem line.length = '\t' := Buffer.Has.get (t := [c]) h
  have hwrite : (((b.read (line.length + 1)).2.read line.length).2.write line.length '\x00').Has
      line.reverse := Buffer.Has.write (t := [c, '\t']) h
  refine ⟨_, ⟨hwrite, ?_⟩, fun fuel => ?_⟩
  · exact ((Inside.read b (by omega)).trans (Inside.read _ (by omega))).trans
      (Inside.write _ (by omega) _)
  · exact (removeTrailing_second hc hlast).trans (if_pos hget)

theorem removeTrailing_stop {c d : Char} (hc : c ≠ ' ') (hd : d ≠ '\t')
    (h : b.Has (c :: d :: line).reverse) :
    ∃ b', Shortened b b' (c :: d :: line) ∧ ∀ fuel,
      removeTrailing (fuel + 1) b (c :: d :: line).length = some b' := by
  have hlast : b.mem (line.length + 1) = c := Buffer.Has.get (t := []) h
  have hget : b.mem line.length = d := Buffer.Has.get (t := [c]) h
  refine ⟨((b.read (line.length + 1)).2.read line.length).2,
    ⟨h, (Inside.read b (by omega)).trans (Inside.read _ (by omega))⟩, fun fuel => ?_⟩
  refine (removeTrailing_second hc hlast).trans (if_neg ?_)
  rw [hget]
  exact hd

theorem Shortened.trans {b₁ b₂ b₃ : Buffer} {line line' : CString} (h : Shortened b₁ b₂ line)
    (h' : Shortened b₂ b₃ line') : Shortened b₁ b₃ line' :=
  ⟨h'.has, h.inside.trans h'.inside⟩

/-- **The loop does what `trimRev` does**, up to the point where that is done. -/
theorem removeTrailing_reaches (line : CString) : ∀ {b : Buffer}, b.Has line.reverse →
    ∃ b' k, Shortened b b' (trimRev line) ∧
      ∀ fuel, removeTrailing (fuel + k) b line.length
        = removeTrailing fuel b' (trimRev line).length := by
  fun_induction trimRev line with
  | case1 rest ih =>
      intro b h
      obtain ⟨b₁, hshort, hstep⟩ := removeTrailing_space h
      obtain ⟨b₂, k, hshort', hloop⟩ := ih hshort.has
      exact ⟨b₂, k + 1, hshort.trans hshort', fun fuel => (hstep (fuel + k)).trans (hloop fuel)⟩
  | case2 c rest hc ih =>
      intro b h
      obtain ⟨b₁, hshort, hstep⟩ := removeTrailing_tab (fun heq => hc heq) h
      obtain ⟨b₂, k, hshort', hloop⟩ := ih hshort.has
      exact ⟨b₂, k + 1, hshort.trans hshort', fun fuel => (hstep (fuel + k)).trans (hloop fuel)⟩
  | case3 rest hspace htab =>
      intro b h
      exact ⟨b, 0, ⟨h, Inside.refl b⟩, fun fuel => rfl⟩

theorem trimRev_head {c : Char} {rest : CString} (h : trimRev line = c :: rest) : c ≠ ' ' := by
  fun_induction trimRev line with
  | case1 later ih => exact ih h
  | case2 d later hd ih => exact ih h
  | case3 later hspace htab =>
      rintro rfl
      exact hspace rest h

theorem trimRev_second {c d : Char} {rest : CString} (h : trimRev line = c :: d :: rest) :
    d ≠ '\t' := by
  fun_induction trimRev line with
  | case1 later ih => exact ih h
  | case2 e later he ih => exact ih h
  | case3 later hspace htab =>
      rintro rfl
      exact htab c rest h

/-- With two characters left, the loop ends. -/
theorem removeTrailing_stops (h : b.Has line.reverse) (htwo : 2 ≤ (trimRev line).length) :
    ∃ b', Shortened b b' (trimRev line) ∧ Gives (removeTrailing · b line.length) b' := by
  obtain ⟨b₁, k, hshort, hloop⟩ := removeTrailing_reaches line h
  match hrest : trimRev line, htwo with
  | c :: d :: rest, _ =>
      rw [hrest] at hshort hloop
      obtain ⟨b', hshort', hstop⟩ :=
        removeTrailing_stop (trimRev_head hrest) (trimRev_second hrest) hshort.has
      refine ⟨b', hshort.trans hshort', (gives_add_iff k 0 fun fuel _ => hloop fuel).mpr ?_⟩
      refine ⟨1, fun fuel hfuel => ?_⟩
      obtain ⟨fuel, rfl⟩ := Nat.exists_eq_add_one_of_ne_zero (show fuel ≠ 0 by omega)
      exact hstop fuel

theorem removeTrailing_used {i : Int} : ∀ {fuel : Nat} {b : Buffer} {n : Int}, i ∈ b.used →
    removeTrailing fuel b n = some b' → i ∈ b'.used := by
  intro fuel
  induction fuel with
  | zero =>
      intro b n _ h
      simp [removeTrailing] at h
  | succ fuel ih =>
      intro b n hi h
      rw [removeTrailing] at h
      dsimp only [Buffer.read] at h
      split at h
      · exact ih (List.mem_cons_of_mem _ (List.mem_cons_of_mem _ hi)) h
      · split at h
        · exact ih (List.mem_cons_of_mem _ (List.mem_cons_of_mem _ (List.mem_cons_of_mem _ hi))) h
        · cases h
          exact List.mem_cons_of_mem _ (List.mem_cons_of_mem _ hi)

/-- The character in front of the array is read first. -/
theorem removeTrailing_below (h : removeTrailing fuel b 0 = some b') : -1 ∈ b'.used := by
  cases fuel with
  | zero => simp [removeTrailing] at h
  | succ fuel =>
      rw [removeTrailing] at h
      dsimp only [Buffer.read] at h
      split at h
      · exact removeTrailing_used (by simp [Buffer.write]) h
      · split at h
        · exact removeTrailing_used (by simp [Buffer.write]) h
        · cases h
          simp

/-- It is read second, when the only character of the string is no space. -/
theorem removeTrailing_one {c : Char} (hc : c ≠ ' ') (hb : b.Has [c])
    (h : removeTrailing fuel b 1 = some b') : -1 ∈ b'.used := by
  have hget : b.mem (-1 + 1) = c := hb.1
  cases fuel with
  | zero => simp [removeTrailing] at h
  | succ fuel =>
      have hsecond : removeTrailing (fuel + 1) b (-1 + 2) = some b' := h
      rw [removeTrailing_second hc hget] at hsecond
      split at hsecond
      · exact removeTrailing_used (by simp [Buffer.write, Buffer.read]) hsecond
      · cases hsecond
        simp [Buffer.read]

/-- **The loop leaves the array** when fewer than two characters are left. -/
theorem removeTrailing_leaves (h : b.Has line.reverse) (htwo : (trimRev line).length < 2)
    (hends : Gives (removeTrailing · b line.length) b') : -1 ∈ b'.used := by
  obtain ⟨b₁, k, hshort, hloop⟩ := removeTrailing_reaches line h
  obtain ⟨enough, hgives⟩ := (gives_add_iff k 0 fun fuel _ => hloop fuel).mp hends
  have hrun := hgives enough (le_refl _)
  match hrest : trimRev line, htwo with
  | [], _ =>
      rw [hrest] at hrun
      exact removeTrailing_below hrun
  | [c], _ =>
      rw [hrest] at hrun hshort
      exact removeTrailing_one (trimRev_head hrest) hshort.has hrun

/-- Where no blanks stand in front of the array, the loop ends in any case. -/
theorem removeTrailing_ends (hfront : b.ClearFront) (h : b.Has line.reverse) :
    ∃ b', b'.Has (trimRev line).reverse ∧ Gives (removeTrailing · b line.length) b' := by
  obtain ⟨b₁, k, hshort, hloop⟩ := removeTrailing_reaches line h
  have hfront₁ := hfront.of_inside hshort.inside
  suffices hlast : ∃ b', b'.Has (trimRev line).reverse ∧
      ∀ fuel, removeTrailing (fuel + 1) b₁ (trimRev line).length = some b' by
    obtain ⟨b', hhas, hlast⟩ := hlast
    refine ⟨b', hhas, (gives_add_iff k 0 fun fuel _ => hloop fuel).mpr ⟨1, fun fuel hfuel => ?_⟩⟩
    obtain ⟨fuel, rfl⟩ := Nat.exists_eq_add_one_of_ne_zero (show fuel ≠ 0 by omega)
    exact hlast fuel
  match hrest : trimRev line with
  | c :: d :: rest =>
      rw [hrest] at hshort
      obtain ⟨b', hshort', hstop⟩ :=
        removeTrailing_stop (trimRev_head hrest) (trimRev_second hrest) hshort.has
      exact ⟨b', hshort'.has, hstop⟩
  | [c] =>
      rw [hrest] at hshort
      have hget : b₁.mem (-1 + 1) = c := hshort.has.1
      refine ⟨((b₁.read (-1 + 1)).2.read (-1)).2, hshort.has, fun fuel => ?_⟩
      exact (removeTrailing_second (trimRev_head hrest) hget).trans
        (if_neg (hfront₁.ne (by decide) rfl))
  | [] =>
      rw [hrest] at hshort
      have hget : b₁.mem (-2 + 1) = b₁.mem (-1) := rfl
      refine ⟨((b₁.read (-2 + 1)).2.read (-2)).2, hshort.has, fun fuel => ?_⟩
      exact (removeTrailing_second (hfront₁.ne (by decide) rfl) hget).trans
        (if_neg (hfront₁.ne (by decide) rfl))

/-! ### The beginning -/

/-- The loop over the blanks at the front comes to the end only when there is nothing else. -/
theorem skipFront_eq : ∀ {suf : CString} {b : Buffer} {i : Nat}, Holds b.mem i suf →
    ∃ j b', skipFront b i suf.length = (j, b') ∧ b'.mem = b.mem ∧ Inside b b' ∧
      (j = i + suf.length ↔ ∀ c ∈ suf, isBlank c = true) := by
  intro suf
  induction suf with
  | nil =>
      intro b i _
      exact ⟨i, b, rfl, rfl, Inside.refl b, by simp⟩
  | cons c suf ih =>
      intro b i h
      have hget : b.mem i = c := h.1
      have hread : b.read i = (c, (b.read i).2) := Prod.ext hget rfl
      have hinside : Inside b (b.read i).2 := Inside.read b (by omega)
      cases hblank : isBlank c with
      | true =>
          have hnext : Holds (b.read i).2.mem ((i + 1 : Nat) : Int) suf := by
            push_cast
            exact h.2
          obtain ⟨j, b', hskip, hmem, hinside', hend⟩ := ih hnext
          refine ⟨j, b', ?_, hmem, hinside.trans hinside', ?_⟩
          · rw [List.length_cons, skipFront, hread]
            dsimp only
            rw [hblank, if_pos rfl]
            exact hskip
          · rw [List.length_cons, List.forall_mem_cons, ← hend]
            constructor
            · intro hj
              exact ⟨hblank, by omega⟩
            · rintro ⟨-, hj⟩
              omega
      | false =>
          refine ⟨i, (b.read i).2, ?_, rfl, hinside, ?_⟩
          · rw [List.length_cons, skipFront, hread]
            dsimp only
            rw [hblank]
            rfl
          · rw [List.length_cons, List.forall_mem_cons, hblank]
            refine iff_of_false (by omega) ?_
            rintro ⟨hc, -⟩
            exact absurd hc (by decide)

/-- The string in the array ends with the piece, or at its first zero. -/
theorem filled_has (b : Buffer) (piece : CString) :
    (b.filled piece).Has (piece.takeWhile (· ≠ '\x00')) := by
  have h : Holds (b.filled piece).mem 0 (piece ++ ['\x00']) := holds_store b.mem 0 _
  have hsplit : piece.takeWhile (· ≠ '\x00') ++ piece.dropWhile (· ≠ '\x00') = piece :=
    List.takeWhile_append_dropWhile
  cases hdrop : piece.dropWhile (· ≠ '\x00') with
  | nil =>
      rw [hdrop, List.append_nil] at hsplit
      rw [Buffer.Has, hsplit]
      exact h
  | cons c rest =>
      have hc : c = '\x00' := by
        have hhead := List.head?_dropWhile_not (· ≠ '\x00') piece
        rw [hdrop] at hhead
        simpa using hhead
      rw [hdrop, hc] at hsplit
      have hcells : piece ++ ['\x00']
          = piece.takeWhile (· ≠ '\x00') ++ '\x00' :: (rest ++ ['\x00']) := by
        rw [← List.cons_append, ← List.append_assoc, hsplit]
      rw [hcells] at h
      exact holds_append.mpr ⟨h.left, h.right.1, trivial⟩

theorem filled_text (b : Buffer) {piece : CString} (h : piece.length ≤ 1023) :
    (b.filled piece).text = piece.takeWhile (· ≠ '\x00') := by
  refine (filled_has b piece).text ?_ ?_
  · intro hmem
    simpa using List.mem_takeWhile_imp hmem
  · have hle := (List.takeWhile_prefix (l := piece) (· ≠ '\x00')).length_le
    unfold maxCmdlineLen
    omega

theorem filled_inside (b : Buffer) (piece : CString) : Inside b (b.filled piece) :=
  ⟨fun _ _ h => h, fun _ hi => store_before b.mem hi _⟩

/-- **The function from the cut on.**  The last character goes, whatever it is. -/
theorem cutLine_eq {c : Char} (h : b.Has (line ++ [c])) :
    ∃ b', b'.Has line ∧ Inside b b' ∧ ∀ fuel, cutLine b line.length fuel
      = if line.all isBlank then some (-1, b')
        else (removeTrailing fuel b' line.length).map fun b' => (0, b') := by
  have hcut : (b.write line.length '\x00').Has line := by
    rw [Buffer.Has, List.append_assoc] at h
    have hupdate := h.update_next '\x00'
    rw [Int.zero_add] at hupdate
    exact hupdate
  obtain ⟨j, b', hskip, hmem, hinside, hend⟩ :=
    skipFront_eq (show Holds (b.write line.length '\x00').mem ((0 : Nat) : Int) line from hcut.left)
  refine ⟨b', ?_, (Inside.write b (by omega) _).trans hinside, fun fuel => ?_⟩
  · rw [Buffer.Has, hmem]
    exact hcut
  · have hall : (j : Int) = line.length ↔ line.all isBlank = true := by
      rw [List.all_eq_true, ← hend]
      omega
    unfold cutLine
    rw [Int.toNat_natCast, hskip]
    simp only [hall]

/-- What the function returns, with enough iterations. -/
def Returns (b : Buffer) (stdin : CString) (value : Int) (b' : Buffer) (rest : CString) : Prop :=
  Gives (getCmdLineIn b stdin) (value, b', rest)

/-! ### The whole function -/

theorem getCmdLineIn_of_piece {stdin : CString} (hne : (fgets 1023 stdin).1 ≠ []) (b : Buffer)
    (fuel : Nat) : getCmdLineIn b stdin fuel
      = (cutLine (b.filled (fgets 1023 stdin).1)
          ((b.filled (fgets 1023 stdin).1).text.length - 1) fuel).map
        fun r => (r.1, r.2, (fgets 1023 stdin).2) :=
  if_neg hne

theorem getCmdLineIn_cut (b : Buffer) {stdin : CString} {c : Char}
    (hpiece : (fgets 1023 stdin).1.takeWhile (· ≠ '\x00') = line ++ [c]) :
    ∃ b', b'.Has line ∧ Inside b b' ∧ ∀ fuel, getCmdLineIn b stdin fuel
      = if line.all isBlank then some (-1, b', (fgets 1023 stdin).2)
        else (removeTrailing fuel b' line.length).map fun b' => (0, b', (fgets 1023 stdin).2) := by
  have hne : (fgets 1023 stdin).1 ≠ [] := by
    intro hnil
    rw [hnil] at hpiece
    simp at hpiece
  have hhas := filled_has b (fgets 1023 stdin).1
  have htext := filled_text b (fgets_length 1023 stdin)
  rw [hpiece] at hhas htext
  have hn : ((b.filled (fgets 1023 stdin).1).text.length : Int) - 1 = line.length := by
    rw [htext, List.length_append, List.length_singleton]
    push_cast
    omega
  obtain ⟨b', hhas', hinside, hcut⟩ := cutLine_eq hhas
  refine ⟨b', hhas', (filled_inside b _).trans hinside, fun fuel => ?_⟩
  rw [getCmdLineIn_of_piece hne, hn, hcut fuel]
  split
  · rfl
  · rw [Option.map_map]
    rfl

/-- A line of blanks. -/
theorem returns_blank (b : Buffer) {stdin : CString} {c : Char}
    (hpiece : (fgets 1023 stdin).1.takeWhile (· ≠ '\x00') = line ++ [c])
    (hblank : line.all isBlank = true) :
    ∃ b', Inside b b' ∧ Returns b stdin (-1) b' (fgets 1023 stdin).2 := by
  obtain ⟨b', -, hinside, hcut⟩ := getCmdLineIn_cut b hpiece
  refine ⟨b', hinside, 0, fun fuel _ => ?_⟩
  rw [hcut, if_pos hblank]

/-- Any other line is left to the loop at the end. -/
theorem returns_iff (b : Buffer) {stdin : CString} {c : Char}
    (hpiece : (fgets 1023 stdin).1.takeWhile (· ≠ '\x00') = line ++ [c])
    (hblank : line.all isBlank ≠ true) :
    ∃ b₁, b₁.Has line ∧ Inside b b₁ ∧ ∀ {value : Int} {b' : Buffer} {rest : CString},
      Returns b stdin value b' rest ↔ (value = 0 ∧ rest = (fgets 1023 stdin).2) ∧
        Gives (removeTrailing · b₁ line.length) b' := by
  obtain ⟨b₁, hhas, hinside, hcut⟩ := getCmdLineIn_cut b hpiece
  refine ⟨b₁, hhas, hinside, ?_⟩
  intro value b' rest
  constructor
  · rintro ⟨enough, hreturns⟩
    have hends : ∀ fuel, enough ≤ fuel → removeTrailing fuel b₁ line.length = some b' ∧
        value = 0 ∧ rest = (fgets 1023 stdin).2 := by
      intro fuel hfuel
      have hrun := hreturns fuel hfuel
      rw [hcut, if_neg hblank] at hrun
      obtain ⟨b₂, hloop, heq⟩ := Option.map_eq_some_iff.mp hrun
      cases heq
      exact ⟨hloop, rfl, rfl⟩
    exact ⟨(hends enough (le_refl _)).2, enough, fun fuel hfuel => (hends fuel hfuel).1⟩
  · rintro ⟨⟨rfl, rfl⟩, hends⟩
    obtain ⟨enough, hgives⟩ := hends.map fun b' => ((0 : Int), b', (fgets 1023 stdin).2)
    refine ⟨enough, fun fuel hfuel => ?_⟩
    rw [hcut, if_neg hblank]
    exact hgives fuel hfuel

/-- `trim` in terms of the line read backwards. -/
theorem Buffer.Has.reverse (h : b.Has line) : b.Has line.reverse.reverse := by
  rw [List.reverse_reverse]
  exact h

theorem trim_length (line : CString) : (trim line).length = (trimRev line.reverse).length := by
  rw [trim_eq, List.length_reverse]

/-- The line is trimmed, and the function stays inside the array. -/
theorem returns_inside (b : Buffer) {stdin : CString} {c : Char}
    (hpiece : (fgets 1023 stdin).1.takeWhile (· ≠ '\x00') = line ++ [c])
    (hblank : line.all isBlank ≠ true) (htwo : 2 ≤ (trim line).length) :
    ∃ b', b'.Has (trim line) ∧ Inside b b' ∧ Returns b stdin 0 b' (fgets 1023 stdin).2 := by
  obtain ⟨b₁, hhas, hinside, hreturns⟩ := returns_iff b hpiece hblank
  rw [trim_length] at htwo
  obtain ⟨b', hshort, hends⟩ := removeTrailing_stops hhas.reverse htwo
  rw [List.length_reverse] at hends
  refine ⟨b', ?_, hinside.trans hshort.inside, hreturns.mpr ⟨⟨rfl, rfl⟩, hends⟩⟩
  rw [trim_eq]
  exact hshort.has

/-- The function does not stay inside the array. -/
theorem returns_outside {stdin rest : CString} {c : Char} {value : Int}
    (hpiece : (fgets 1023 stdin).1.takeWhile (· ≠ '\x00') = line ++ [c])
    (hblank : line.all isBlank ≠ true) (htwo : (trim line).length < 2)
    (h : Returns b stdin value b' rest) : -1 ∈ b'.used := by
  obtain ⟨b₁, hhas, -, hreturns⟩ := returns_iff b hpiece hblank
  have hends := (hreturns.mp h).2
  rw [trim_length] at htwo
  rw [← List.length_reverse] at hends
  exact removeTrailing_leaves hhas.reverse htwo hends

/-! ### The string, wherever the loop looks -/

/-- A piece that begins with a zero: the cut is made in front of the array, and so are the two
reads that follow. -/
theorem returns_empty {stdin : CString} (hfront : b.ClearFront)
    (hne : (fgets 1023 stdin).1 ≠ [])
    (hpiece : (fgets 1023 stdin).1.takeWhile (· ≠ '\x00') = []) :
    ∃ b', b'.Has [] ∧ Returns b stdin 0 b' (fgets 1023 stdin).2 := by
  have hhas := filled_has b (fgets 1023 stdin).1
  have htext := filled_text b (fgets_length 1023 stdin)
  have hclear := hfront.of_inside (filled_inside b (fgets 1023 stdin).1)
  rw [hpiece] at hhas htext
  generalize hfilled : b.filled (fgets 1023 stdin).1 = b₁ at hhas htext hclear
  have hclear' : (b₁.write (-1) '\x00').ClearFront := hclear.write (-1) rfl
  have hsecond : ∀ fuel, removeTrailing (fuel + 1) (b₁.write (-1) '\x00') (-1)
      = some (((b₁.write (-1) '\x00').read (-2)).2.read (-3)).2 := by
    intro fuel
    have hnone : (b₁.write (-1) '\x00').mem (-3 + 1) ≠ ' ' := hclear'.ne (by decide) rfl
    exact (removeTrailing_second hnone rfl).trans (if_neg (hclear'.ne (by decide) rfl))
  refine ⟨(((b₁.write (-1) '\x00').read (-2)).2.read (-3)).2, ?_, 1, fun fuel hfuel => ?_⟩
  · exact Holds.update hhas (Or.inl (by decide)) _
  · obtain ⟨fuel, rfl⟩ := Nat.exists_eq_add_one_of_ne_zero (show fuel ≠ 0 by omega)
    rw [getCmdLineIn_of_piece hne, hfilled, htext]
    show Option.map _ (Option.map _ (removeTrailing (fuel + 1) (b₁.write (-1) '\x00') (-1))) = _
    rw [hsecond]
    rfl

/-- **The function on the array refines the one on the string**, where no blanks stand in front
of the array. -/
theorem getCmdLineIn_refines {stdin : CString} (hfront : b.ClearFront) :
    ∃ value b', Returns b stdin value b' (getCmdLine stdin).2 ∧
      (getCmdLine stdin).1 = if value = -1 then none else some b'.text := by
  rw [getCmdLine_eq]
  by_cases hnil : (fgets 1023 stdin).1 = []
  · refine ⟨-1, b, ⟨0, fun fuel _ => ?_⟩, ?_⟩
    · exact if_pos hnil
    · simp only [if_pos hnil, if_true]
  · simp only [if_neg hnil]
    by_cases hempty : (fgets 1023 stdin).1.takeWhile (· ≠ '\x00') = []
    · obtain ⟨b', hhas, hreturns⟩ := returns_empty hfront hnil hempty
      refine ⟨0, b', hreturns, ?_⟩
      rw [if_pos hempty, if_neg (by decide), hhas.text (by simp) (by decide)]
    · obtain ⟨line, c, hpiece⟩ := (List.eq_nil_or_concat' _).resolve_left hempty
      rw [if_neg hempty, hpiece, List.dropLast_concat]
      unfold sent
      by_cases hblank : line.all isBlank = true
      · obtain ⟨b', -, hreturns⟩ := returns_blank b hpiece hblank
        refine ⟨-1, b', hreturns, ?_⟩
        rw [if_pos hblank, if_pos rfl]
      · obtain ⟨b₁, hhas, hinside, hreturns⟩ := returns_iff b hpiece hblank
        obtain ⟨b', hhas', hends⟩ :=
          removeTrailing_ends (hfront.of_inside hinside) hhas.reverse
        rw [← trim_eq] at hhas'
        rw [List.length_reverse] at hends
        refine ⟨0, b', hreturns.mpr ⟨⟨rfl, rfl⟩, hends⟩, ?_⟩
        have hmem : ∀ d ∈ trim line, d ∈ (fgets 1023 stdin).1.takeWhile (· ≠ '\x00') := by
          intro d hd
          rw [hpiece]
          exact List.mem_append_left _ ((trim_isPrefix line).subset hd)
        have hnul : '\x00' ∉ trim line := by
          intro hd
          simpa using List.mem_takeWhile_imp (hmem _ hd)
        have hlength : (trim line).length < maxCmdlineLen := by
          have htrim := (trim_isPrefix line).length_le
          have htake := (List.takeWhile_prefix (l := (fgets 1023 stdin).1) (· ≠ '\x00')).length_le
          have hfgets := fgets_length 1023 stdin
          rw [hpiece, List.length_append, List.length_singleton] at htake
          unfold maxCmdlineLen
          omega
        rw [if_neg hblank, if_neg (by decide), hhas'.text hnul hlength]

/-! ### Only the trailing blanks -/

/-- Read from the end: spaces and pairs of tabs, a character that is not a blank, and one that is
not a tab. -/
def TrimsWell (line : CString) : Prop :=
  ∃ blanks c d rest, line.reverse = blanks ++ c :: d :: rest ∧ tabPairs blanks = true ∧
    isBlank c = false ∧ d ≠ '\t'

theorem core_eq (line : CString) : core line = (line.reverse.dropWhile isBlank).reverse := by
  have h := core_reverse line.reverse
  rwa [List.reverse_reverse] at h

/-- What is left is the line without its trailing blanks, and at least two characters. -/
theorem trimsWell_iff (hne : core line ≠ []) :
    trim line = core line ∧ 2 ≤ (trim line).length ↔ TrimsWell line := by
  constructor
  · rintro ⟨hcore, htwo⟩
    have hsafe : ¬LosesLast line := by
      rw [← core_trim_iff, hcore]
      exact List.rdropWhile_idempotent isBlank line
    obtain ⟨blanks, hpairs, hsplit⟩ := trimRev_split line.reverse hsafe
    obtain ⟨cmd, c, hlast, hc⟩ := (core_concat line).resolve_left hne
    rw [trim_length] at htwo
    have hhead : trimRev line.reverse = c :: cmd.reverse := by
      rw [← List.reverse_inj, ← trim_eq, hcore, hlast, List.reverse_cons, List.reverse_reverse]
    rw [hhead, List.length_cons] at htwo
    obtain ⟨d, rest, hcmd⟩ := List.exists_cons_of_length_pos (show 0 < cmd.reverse.length by omega)
    rw [hcmd] at hhead
    rw [hhead] at hsplit
    exact ⟨blanks, c, d, rest, hsplit, hpairs, hc, trimRev_second hhead⟩
  · rintro ⟨blanks, c, d, rest, hrev, hpairs, hc, hd⟩
    have hspace : c ≠ ' ' := by
      rintro rfl
      exact absurd hc (by decide)
    have hstop : trimRev (c :: d :: rest) = c :: d :: rest := by
      rw [trimRev]
      · exact fun later heq => hspace (List.cons.inj heq).1
      · exact fun e later heq => hd (List.cons.inj (List.cons.inj heq).2).1
    have hdrop : line.reverse.dropWhile isBlank = c :: d :: rest := by
      rw [hrev, dropWhile_blanks (tabPairs_blank hpairs), List.dropWhile_cons_of_neg (by simp [hc])]
    rw [trim_eq, core_eq, hdrop, hrev, trimRev_tabPairs hpairs, hstop]
    exact ⟨rfl, by simp⟩

theorem fgets_newline {more : CString} : ∀ {line : CString} {n : Nat}, '\n' ∉ line →
    line.length < n → fgets n (line ++ '\n' :: more) = (line ++ ['\n'], more) := by
  intro line
  induction line with
  | nil =>
      intro n _ hlen
      obtain ⟨n, rfl⟩ := Nat.exists_eq_add_one_of_ne_zero (show n ≠ 0 by omega)
      rfl
  | cons c line ih =>
      intro n hline hlen
      rw [List.length_cons] at hlen
      obtain ⟨n, rfl⟩ := Nat.exists_eq_add_one_of_ne_zero (show n ≠ 0 by omega)
      have hc : c ≠ '\n' := fun heq => hline (by simp [heq])
      have hrest := ih (n := n) (fun hmem => hline (List.mem_cons_of_mem _ hmem)) (by omega)
      rw [List.cons_append, fgets, if_neg hc, hrest]
      rfl

/-- `get_cmd_line` is given a line.  It returns -1 if and only if there are only blanks in it, and
otherwise it returns 0 and the array has the line without its trailing blanks; and it uses no
negative index.  `mem` is what the memory has in it before. -/
def TrimsOnly (mem : Int → Char) (line more : CString) : Prop :=
  ∃ value b', Returns { mem, used := [] } (line ++ '\n' :: more) value b' more ∧
    (value = -1 ↔ ∀ c ∈ line, isBlank c = true) ∧
    ((∃ c ∈ line, isBlank c = false) → value = 0 ∧ b'.text = core line) ∧
    ∀ i ∈ b'.used, 0 ≤ i

theorem Inside.nonneg {mem : Int → Char} (h : Inside { mem, used := [] } b) :
    ∀ i ∈ b.used, 0 ≤ i := by
  intro i hi
  by_contra hneg
  exact absurd (h.used i (by omega) hi) (by simp)

/--
**When only the trailing blanks go.**  Of the lines that are not blank, the function trims
those that end with spaces and pairs of tabs, and whose last other character has a character
in front of it that is no tab.
-/
theorem trimsOnly_iff {mem : Int → Char} {line more : CString} (hlen : line.length ≤ 1022)
    (hline : '\n' ∉ line) (hnul : '\x00' ∉ line) :
    TrimsOnly mem line more ↔ (∀ c ∈ line, isBlank c = true) ∨ TrimsWell line := by
  have hfgets : fgets 1023 (line ++ '\n' :: more) = (line ++ ['\n'], more) :=
    fgets_newline hline (by omega)
  have hpiece : (fgets 1023 (line ++ '\n' :: more)).1.takeWhile (· ≠ '\x00')
      = line ++ ['\n'] := by
    rw [hfgets]
    refine List.takeWhile_eq_self_iff.mpr fun c hc => ?_
    have hne : c ≠ '\x00' := by
      rintro rfl
      simp only [List.mem_append, List.mem_singleton] at hc
      exact hc.elim hnul (by decide)
    simpa using hne
  have hmore : (fgets 1023 (line ++ '\n' :: more)).2 = more := by rw [hfgets]
  by_cases hblank : ∀ c ∈ line, isBlank c = true
  · refine iff_of_true ?_ (Or.inl hblank)
    obtain ⟨b', hinside, hreturns⟩ :=
      returns_blank { mem, used := [] } hpiece (List.all_eq_true.mpr hblank)
    rw [hmore] at hreturns
    refine ⟨-1, b', hreturns, iff_of_true rfl hblank, ?_, hinside.nonneg⟩
    rintro ⟨c, hc, hother⟩
    rw [hblank c hc] at hother
    exact absurd hother (by decide)
  · have hall : line.all isBlank ≠ true := fun h => hblank (List.all_eq_true.mp h)
    have hne : core line ≠ [] := fun h => hblank ((core_eq_nil_iff line).mp h)
    have htext : ∀ {b' : Buffer}, b'.Has (trim line) → b'.text = trim line := by
      intro b' hhas
      have htrim := trim_isPrefix line
      refine hhas.text (fun hmem => hnul (htrim.subset hmem)) ?_
      have hle := htrim.length_le
      unfold maxCmdlineLen
      omega
    rw [or_iff_right hblank, ← trimsWell_iff hne]
    constructor
    · rintro ⟨value, b', hreturns, -, htrims, hinside⟩
      have htwo : 2 ≤ (trim line).length := by
        by_contra hfew
        have hneg := hinside _ (returns_outside hpiece hall (by omega) hreturns)
        omega
      obtain ⟨b₂, hhas, -, hreturns'⟩ := returns_inside { mem, used := [] } hpiece hall htwo
      obtain rfl : b' = b₂ := congrArg (·.2.1) (hreturns.unique hreturns')
      obtain ⟨c, hc, hother⟩ : ∃ c ∈ line, isBlank c = false := by simpa using hblank
      refine ⟨?_, htwo⟩
      rw [← htext hhas]
      exact (htrims ⟨c, hc, hother⟩).2
    · rintro ⟨hcore, htwo⟩
      obtain ⟨b', hhas, hinside, hreturns⟩ := returns_inside { mem, used := [] } hpiece hall htwo
      rw [hmore] at hreturns
      refine ⟨0, b', hreturns, iff_of_false (by decide) hblank, fun _ => ⟨rfl, ?_⟩,
        hinside.nonneg⟩
      rw [htext hhas, hcore]

/-- A space and two tabs at the end. -/
theorem trimsOnly_listing : TrimsOnly (fun _ => '\x00') "ls -l \t\t".toList "exit\n".toList := by
  refine (trimsOnly_iff (by decide) (by decide) (by decide)).mpr (Or.inr ?_)
  exact ⟨['\t', '\t', ' '], 'l', '-', [' ', 's', 'l'], by decide, by decide, by decide, by decide⟩

/-- A command of one character: the loop looks in front of the array. -/
theorem trimsOnly_fails_for_one : ¬TrimsOnly (fun _ => '\x00') "w".toList [] := by
  rintro ⟨value, b', hreturns, -, -, hinside⟩
  have hused := returns_outside (show (fgets 1023 "w\n".toList).1.takeWhile (· ≠ '\x00')
    = "w".toList ++ ['\n'] by decide) (by decide) (by decide) hreturns
  exact absurd (hinside _ hused) (by decide)

end Shell
