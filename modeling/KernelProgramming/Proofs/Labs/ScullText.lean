/-
A text written to the scull device and read back.

The caller goes on where a call stopped, and the device stops where it likes, at the end of a
quantum.  Nothing of the pieces is left when the text has been read, whatever the reads ask for
(`ReadsText.eq_drop`).  When there is memory every write takes something, so that the whole text
is taken (`writes_exist`), and what is in the file can always be read to its end
(`reads_exist_of_text`): both follow from what the file may do, for the driver answers.
-/
import KernelProgramming.Proofs.Labs.ScullStore

namespace Scull

open Runs Stateful

variable {k k' : Kernel} {f f' : Flat} {nodes nodes' : List Node} {q n pos c : ℕ}

/-! ### The callers -/

/-- A caller writes a text from `pos` on: each call is given what is left of it, and the next one
goes on where it stopped. -/
inductive WritesText : ℕ → List UInt8 → List (Op × Outcome) → Prop
  | nil {pos : ℕ} : WritesText pos [] []
  | cons {pos : ℕ} {text : List UInt8} {trace : List (Op × Outcome)} (m : ℕ)
      (hrest : WritesText (pos + m) (text.drop m) trace) :
      WritesText pos text
        ((.write text text.length pos, { ret := m, fPos := pos + m, out := [] }) :: trace)

/-- A caller reads from `pos` on until a read returns nothing, and has got the text. -/
inductive ReadsText : ℕ → List UInt8 → List (Op × Outcome) → Prop
  | eof {pos room count : ℕ} (hcount : 0 < count) :
      ReadsText pos [] [(.read room count pos, Flat.nothing pos)]
  | cons {pos room count : ℕ} {bytes text : List UInt8} {trace : List (Op × Outcome)}
      (hbytes : bytes ≠ []) (hrest : ReadsText (pos + bytes.length) text trace) :
      ReadsText pos (bytes ++ text)
        ((.read room count pos, { ret := bytes.length, fPos := pos + bytes.length, out := bytes }) ::
          trace)

/-! ### The file -/

/-- What the file may do, whatever memory there is. -/
def Flat.Does (f : Flat) (c : Op × Outcome) (f' : Flat) : Prop := ∃ b, Flat.Step f (c, b) f'

theorem run_does {trace : List (Op × Outcome)} (h : Shows k f nodes)
    (hsane : EachStep step TakesSane k trace) (hrun : run step k trace = some k') :
    ∃ f', Path Flat.Does f trace f' ∧ ∃ nodes', Shows k' f' nodes' := by
  obtain ⟨notes, rfl, hnotes⟩ := run_noting refused hrun
  obtain ⟨f', hpath, hshows⟩ := run_shows ⟨nodes, h⟩ hsane hnotes
  exact ⟨f', path_map (fun _ c _ hstep => ⟨c.2, hstep⟩) hpath, hshows⟩

/-- The file holds a text and nothing else, and the text does not reach around. -/
structure HasText (f : Flat) (text : List UInt8) : Prop where
  q_pos : 0 < f.q
  size : f.size = text.length
  cells : ∀ c, c < text.length → f.cell c = text[c]?
  small : text.length < f.q * f.n * 4294967296

theorem HasText.key_of_le {text : List UInt8} (h : HasText f text) (hpos : pos ≤ text.length) :
    f.key pos = pos :=
  Nat.mod_eq_of_lt (Nat.lt_of_le_of_lt hpos h.small)

/-- A write of the file that is no error. -/
theorem write_inv {buf : List UInt8} {count : ℕ} {out : Outcome}
    (h : f.Does (.write buf count pos, out) f') (hret : 0 ≤ out.ret) :
    moved f.q count pos ≤ buf.length ∧ out.ret = moved f.q count pos ∧
      f' = { f with
        cell := Flat.put f.cell (f.key pos) (buf.take (moved f.q count pos))
        size := max f.size (pos + moved f.q count pos) } := by
  obtain ⟨b, h⟩ := h
  cases h with
  | starved => exact absurd hret (by decide : ¬(0 : Int) ≤ enomem)
  | fault hbuf => exact absurd hret (by decide : ¬(0 : Int) ≤ efault)
  | write hbuf => exact ⟨hbuf, rfl, rfl⟩

/-- One write appends a piece. -/
theorem HasText.write {written text : List UInt8} {out : Outcome} (h : HasText f written)
    (hsmall : (written ++ text).length < f.q * f.n * 4294967296)
    (hstep : f.Does (.write text text.length written.length, out) f') (hret : 0 ≤ out.ret) :
    f'.q = f.q ∧ f'.n = f.n ∧ ∃ m, out.ret = (m : ℕ) ∧ m ≤ text.length ∧
      HasText f' (written ++ text.take m) := by
  obtain ⟨hbuf, hm, rfl⟩ := write_inv hstep hret
  refine ⟨rfl, rfl, moved f.q text.length written.length, hm, hbuf, ?_⟩
  have htake : (text.take (moved f.q text.length written.length)).length
      = moved f.q text.length written.length := by
    rw [List.length_take]
    omega
  have hkey := h.key_of_le (Nat.le_refl _)
  have hsize := h.size
  rw [List.length_append] at hsmall
  refine ⟨h.q_pos, ?_, fun c hc => ?_, ?_⟩
  · show max f.size _ = _
    rw [List.length_append, htake]
    omega
  · show Flat.put f.cell (f.key written.length) _ c = _
    rw [List.length_append] at hc
    rw [Flat.put, hkey]
    by_cases hlt : c < written.length
    · rw [if_neg (by omega), List.getElem?_append_left hlt]
      exact h.cells c hlt
    · rw [if_pos ⟨by omega, hc⟩, List.getElem?_append_right (by omega)]
  · show _ < f.q * f.n * 4294967296
    rw [List.length_append, htake]
    omega

/-- The whole text is in the file when the writes are done. -/
theorem WritesText.hasText {text : List UInt8} {trace : List (Op × Outcome)}
    (h : WritesText pos text trace) :
    ∀ {f f' : Flat} (written : List UInt8), written.length = pos → HasText f written →
      (written ++ text).length < f.q * f.n * 4294967296 → Path Flat.Does f trace f' →
      HasText f' (written ++ text) := by
  induction h with
  | nil =>
      rintro f f' written - hf - rfl
      rwa [List.append_nil]
  | @cons pos text trace m hrest ih =>
      rintro f f' written rfl hf hsmall ⟨f₁, hstep, hpath⟩
      obtain ⟨hq, hn, m', hm, hle, hf₁⟩ := hf.write hsmall hstep (Int.natCast_nonneg m)
      have heq : m = m' := Int.natCast_inj.mp hm
      subst heq
      have hwhole : written ++ text.take m ++ text.drop m = written ++ text := by
        rw [List.append_assoc, List.take_append_drop]
      have hnext := ih (written ++ text.take m) (by simp [hle]) hf₁ (by rw [hwhole, hq, hn]; exact hsmall)
        hpath
      rwa [hwhole] at hnext

theorem read_inv {room count : ℕ} {out : Outcome}
    (h : f.Does (.read room count pos, out) f') :
    f' = f ∧ ((out = Flat.nothing pos ∧
        (f.size ≤ pos ∨ ∀ p, p / f.q = pos / f.q → f.cell (f.key p) = none)) ∨
      ∃ bytes, f.Reads count pos bytes ∧ out = Flat.gave room pos bytes) := by
  obtain ⟨b, h⟩ := h
  cases h with
  | readEnd hpos => exact ⟨rfl, Or.inl ⟨rfl, Or.inl hpos⟩⟩
  | readHole hhole => exact ⟨rfl, Or.inl ⟨rfl, Or.inr hhole⟩⟩
  | read hreads => exact ⟨rfl, Or.inr ⟨_, hreads, rfl⟩⟩

/-- A read that returns nothing is at the end of the text. -/
theorem HasText.read_eof {text : List UInt8} {room count : ℕ} (h : HasText f text) (hcount : 0 < count)
    (hstep : f.Does (.read room count pos, Flat.nothing pos) f') : text.length ≤ pos := by
  refine Nat.le_of_not_lt fun hpos => ?_
  obtain ⟨-, ⟨-, hend | hhole⟩ | ⟨bytes, hreads, hout⟩⟩ := read_inv hstep
  · rw [h.size] at hend
    omega
  · have hcell := hhole pos rfl
    rw [h.key_of_le (Nat.le_of_lt hpos), h.cells pos hpos, List.getElem?_eq_getElem hpos] at hcell
    cases hcell
  · have hsize := h.size
    have hlen := hreads.length
    have ho := offsOf_lt h.q_pos pos
    rw [moved] at hlen
    rw [Flat.gave] at hout
    by_cases hroom : room < bytes.length
    · rw [if_pos hroom] at hout
      have hret : (0 : Int) = efault := congrArg Outcome.ret hout
      exact absurd hret (by decide)
    · rw [if_neg hroom] at hout
      have hret : (0 : Int) = bytes.length := congrArg Outcome.ret hout
      omega

/-- A read that returns something returns a piece of the text. -/
theorem HasText.read_piece {text bytes : List UInt8} {room count : ℕ} (h : HasText f text)
    (hbytes : bytes ≠ []) (hpos : pos ≤ text.length)
    (hstep : f.Does (.read room count pos,
      { ret := bytes.length, fPos := pos + bytes.length, out := bytes }) f') :
    f' = f ∧ pos + bytes.length ≤ text.length ∧ bytes = (text.drop pos).take bytes.length := by
  obtain ⟨rfl, ⟨hout, -⟩ | ⟨bytes', hreads, hout⟩⟩ := read_inv hstep
  · exact absurd (congrArg Outcome.out hout) hbytes
  · have heq : bytes = bytes' := by
      rw [Flat.gave] at hout
      by_cases hroom : room < bytes'.length
      · rw [if_pos hroom] at hout
        have hret : (bytes.length : Int) = efault := congrArg Outcome.ret hout
        rw [efault] at hret
        omega
      · rw [if_neg hroom] at hout
        exact congrArg Outcome.out hout
    subst heq
    have hsize := h.size
    have ho := offsOf_lt h.q_pos pos
    have hlen := hreads.length
    rw [moved] at hlen
    have hin : pos + bytes.length ≤ text.length := by omega
    refine ⟨rfl, hin, List.ext_getElem? fun j => ?_⟩
    by_cases hj : j < bytes.length
    · have hlt : pos + j < text.length := by omega
      have hcell : f'.cell (f'.key (pos + j)) = some (text.get ⟨pos + j, hlt⟩) := by
        rw [h.key_of_le (Nat.le_of_lt hlt), h.cells _ hlt]
        exact List.getElem?_eq_getElem hlt
      rw [hreads.cells j _ hj hcell, List.getElem?_take_of_lt hj, List.getElem?_drop]
      exact (List.getElem?_eq_getElem hlt).symm
    · rw [List.getElem?_eq_none (by omega), List.getElem?_eq_none]
      rw [List.length_take, List.length_drop]
      omega

/-- What is read from a position on is the rest of the text. -/
theorem ReadsText.eq_drop {out : List UInt8} {trace : List (Op × Outcome)}
    (h : ReadsText pos out trace) :
    ∀ {f f' : Flat} {text : List UInt8}, HasText f text → pos ≤ text.length →
      Path Flat.Does f trace f' → out = text.drop pos := by
  induction h with
  | eof hcount =>
      rintro f f' text hf hpos ⟨f₁, hstep, -⟩
      exact (List.drop_eq_nil_of_le (hf.read_eof hcount hstep)).symm
  | @cons pos room count bytes rest trace hbytes hrest ih =>
      rintro f f' text hf hpos ⟨f₁, hstep, hpath⟩
      obtain ⟨rfl, hin, hpiece⟩ := hf.read_piece hbytes hpos hstep
      rw [ih hf hin hpath, ← List.drop_drop]
      nth_rewrite 1 [hpiece]
      exact List.take_append_drop ..

theorem ReadsText.noOpen {out : List UInt8} {trace : List (Op × Outcome)}
    (h : ReadsText pos out trace) : ∀ c ∈ trace, c.1.wronly = false := by
  induction h with
  | eof _ =>
      intro c hc
      rw [List.mem_singleton.mp hc]
      rfl
  | cons _ _ ih => exact List.forall_mem_cons.mpr ⟨rfl, ih⟩

theorem WritesText.noOpen {text : List UInt8} {trace : List (Op × Outcome)}
    (h : WritesText pos text trace) : ∀ c ∈ trace, c.1.wronly = false := by
  induction h with
  | nil => exact fun c hc => absurd hc List.not_mem_nil
  | cons _ _ ih => exact List.forall_mem_cons.mpr ⟨rfl, ih⟩


/-! ### The device answers -/

theorem step_of_call {op : Op} {out : Outcome} (h : call op k = .ok (out, k')) :
    step k (op, out) = some k' := by
  rw [step, h]
  exact if_pos rfl

/-- A call that is no open for writing is answered, and the file may answer so. -/
theorem Shows.answers (h : Shows k f nodes) (op : Op) (hw : op.wronly = false)
    (hop : op.isWrite = true → k.dev.quantum ≠ 0) :
    ∃ out k', step k (op, out) = some k' ∧ (k.dev.quantum ≠ 0 → k'.dev.quantum ≠ 0) ∧
      ∃ f', Flat.Step f ((op, out), refused k k') f' ∧ ∃ nodes', Shows k' f' nodes' := by
  have hnot : op.wronly = true → Sane k.scullQuantum k.scullQset := fun hw' => by
    rw [hw] at hw'
    cases hw'
  obtain ⟨out, k', hcall, -, hquantum⟩ := call_works ⟨nodes, h.holds, h.ready⟩ hnot hop
  have hstep := step_of_call hcall
  refine ⟨out, k', hstep, fun hne hzero => hne (hquantum.mp hzero).1, ?_⟩
  exact step_simulates ⟨nodes, h⟩ hnot hstep

/-- There is memory from here on. -/
def Plenty (k : Kernel) : Prop := ∀ c, k.calls ≤ c → (k.grant c).isSome = true

theorem Plenty.granted (h : Plenty k) (k' : Kernel) : refused k k' = false := by
  rw [Bool.eq_false_iff, ne_eq, refused_iff]
  rintro ⟨c, hle, -, hnone⟩
  have hsome := h c hle
  rw [hnone] at hsome
  cases hsome

theorem Plenty.after (h : Plenty k) (hgrant : k'.grant = k.grant) (hcalls : k.calls ≤ k'.calls) :
    Plenty k' := by
  intro c hc
  rw [hgrant]
  exact h c (Nat.le_trans hcalls hc)

theorem Plenty.write {buf : List UInt8} {count : ℕ} {out : Outcome} (hp : Plenty k)
    (h : Shows k f nodes) (hstep : step k (.write buf count pos, out) = some k') : Plenty k' := by
  have hcall : scullWrite buf count pos k = .ok (out, k') := call_of_step hstep
  have hs := h.sized (sane_of_write h.ready hcall)
  obtain ⟨nodes', ⟨-, hstarved⟩ | ⟨u, hwrote, -⟩⟩ :=
    (scullWrite_spec h.holds hs count).holds hcall
  · exact hp.after hstarved.settled.grant hstarved.settled.calls
  · exact hp.after hwrote.settled.grant hwrote.settled.calls

theorem Shows.q_pos (h : Shows k f nodes) (hq : k.dev.quantum ≠ 0) : 0 < f.q := by
  cases h.ready with
  | sane hsane =>
      have hpos := hsane.quantum_pos
      rw [← h.q]
      omega
  | untouched hzero => exact absurd hzero hq

/-- **With memory a write takes something**: all that there is room for in the quantum. -/
theorem Shows.takes (h : Shows k f nodes) (hq : k.dev.quantum ≠ 0) (hp : Plenty k)
    (text : List UInt8) (pos : ℕ) :
    ∃ k' f' nodes', step k (.write text text.length pos,
        { ret := moved f.q text.length pos, fPos := pos + moved f.q text.length pos, out := [] })
          = some k' ∧ Shows k' f' nodes' ∧ k'.dev.quantum ≠ 0 ∧ Plenty k' := by
  obtain ⟨out, k', hstep, hquantum, f', hflat, nodes', hshows⟩ :=
    h.answers (.write text text.length pos) rfl fun _ => hq
  have hplenty := hp.write h hstep
  rw [hp.granted] at hflat
  cases hflat with
  | fault hbuf => exact absurd hbuf (Nat.not_lt_of_le (Nat.min_le_left _ _))
  | write hbuf => exact ⟨k', _, nodes', hstep, hshows, hquantum hq, hplenty⟩

/-- **With memory the whole text is taken.** -/
theorem writes_exist : ∀ (m : ℕ) {text : List UInt8}, text.length ≤ m →
    ∀ {k : Kernel} {f : Flat} {nodes : List Node} (pos : ℕ), Shows k f nodes →
      k.dev.quantum ≠ 0 → Plenty k →
      ∃ writes k', WritesText pos text writes ∧ run step k writes = some k' := by
  intro m
  induction m with
  | zero =>
      intro text hm k f nodes pos _ _ _
      have hnil : text = [] := List.eq_nil_of_length_eq_zero (by omega)
      subst hnil
      exact ⟨[], k, .nil, rfl⟩
  | succ m ih =>
      intro text hm k f nodes pos h hq hp
      by_cases hnil : text = []
      · subst hnil
        exact ⟨[], k, .nil, rfl⟩
      · obtain ⟨k₁, f₁, nodes₁, hstep, h₁, hq₁, hp₁⟩ := h.takes hq hp text pos
        have hmoved : 0 < moved f.q text.length pos := by
          have hlen := List.length_pos_of_ne_nil hnil
          have hoffs := offsOf_lt (h.q_pos hq) pos
          rw [moved]
          omega
        have hrest : (text.drop (moved f.q text.length pos)).length ≤ m := by
          rw [List.length_drop]
          omega
        obtain ⟨writes, k', hwrites, hrun⟩ := ih hrest _ h₁ hq₁ hp₁
        refine ⟨_ :: writes, k', .cons _ hwrites, ?_⟩
        rw [run, hstep]
        exact hrun

/-- **A text in the file can be read to its end**, whatever is asked for at each position. -/
theorem reads_exist_of_text {text : List UInt8} {asked : ℕ → ℕ} (hasked : ∀ pos, 0 < asked pos) :
    ∀ (m : ℕ) {k : Kernel} {nodes : List Node} (pos : ℕ), text.length - pos = m →
      pos ≤ text.length → Shows k f nodes → HasText f text →
      ∃ reads k', ReadsText pos (text.drop pos) reads ∧
        (∀ c ∈ reads, ∃ p, c.1 = .read (asked p) (asked p) p) ∧ run step k reads = some k' := by
  intro m
  induction m using Nat.strongRecOn with
  | ind m ih =>
      intro k nodes pos hm hpos h hf
      obtain ⟨out, k₁, hstep, -, f₁, hflat, nodes₁, h₁⟩ :=
        h.answers (.read (asked pos) (asked pos) pos) rfl fun hw => by cases hw
      have hdoes : f.Does (.read (asked pos) (asked pos) pos, out) f₁ := ⟨_, hflat⟩
      obtain ⟨hsame, ⟨hout, -⟩ | ⟨bytes, hreads, hout⟩⟩ := read_inv hdoes
      · -- at the end of the text
        subst hout
        have hend := hf.read_eof (hasked pos) hdoes
        refine ⟨[(.read (asked pos) (asked pos) pos, Flat.nothing pos)], k₁, ?_, ?_, ?_⟩
        · rw [List.drop_eq_nil_of_le hend]
          exact .eof (hasked pos)
        · exact List.forall_mem_singleton.mpr ⟨pos, rfl⟩
        · rw [run, hstep]
          rfl
      · -- a piece, for which there is room
        have hinside := hreads.inside
        have hlength := hreads.length
        have hoffs := offsOf_lt hf.q_pos pos
        have hpositive := hasked pos
        rw [moved] at hlength
        have hroom : ¬asked pos < bytes.length := by omega
        have hsome : 0 < bytes.length := by omega
        have hne : bytes ≠ [] := List.ne_nil_of_length_pos hsome
        rw [Flat.gave, if_neg hroom] at hout
        subst hout hsame
        obtain ⟨-, hin, hpiece⟩ := hf.read_piece hne hpos hdoes
        obtain ⟨reads, k', htext, hcounts, hrun⟩ :=
          ih (text.length - (pos + bytes.length)) (by omega) (pos + bytes.length) rfl hin h₁ hf
        refine ⟨(.read (asked pos) (asked pos) pos,
            { ret := bytes.length, fPos := pos + bytes.length, out := bytes }) :: reads, k', ?_,
          List.forall_mem_cons.mpr ⟨⟨pos, rfl⟩, hcounts⟩, ?_⟩
        · have hsplit : text.drop pos = bytes ++ text.drop (pos + bytes.length) :=
            calc text.drop pos
                = (text.drop pos).take bytes.length ++ (text.drop pos).drop bytes.length :=
                  (List.take_append_drop ..).symm
              _ = bytes ++ text.drop (pos + bytes.length) := by rw [← hpiece, List.drop_drop]
          rw [hsplit]
          exact .cons hne htext
        · rw [run, hstep]
          exact hrun

/-! ### There and back -/

/-- An open for writing empties the file. -/
theorem Shows.opens (h : Shows k f nodes) {flags : ℕ} (hw : wronly flags = true)
    (hparams : Sane k.scullQuantum k.scullQset) :
    ∃ k₁, step k (.open flags, done) = some k₁ ∧ Shows k₁ f.emptied [] ∧ k₁.dev.quantum ≠ 0 ∧
      (Plenty k → Plenty k₁) := by
  obtain ⟨_, k₁, htrim, hm, ⟨hgrant, hcalls⟩, -, -, hdev⟩ := scullTrim_spec h.holds
  have hopen : scullOpen flags k = .ok ((), k₁) := by
    rw [scullOpen, if_pos hw]
    exact htrim
  have hcall : call (.open flags) k = .ok (done, k₁) := run_bind_ok hopen
  refine ⟨k₁, step_of_call hcall, trim_simulates h hparams htrim, ?_, fun hp => ?_⟩
  · rw [hdev]
    exact Int.ne_of_gt hparams.quantum_pos
  · exact hp.after hgrant hcalls

/-- What comes in while the text is written and read. -/
theorem emptied_hasText (h : Shows k f nodes) (hparams : Sane k.scullQuantum k.scullQset)
    {m : ℕ} (hsmall : m < k.scullQuantum.toNat * k.scullQset.toNat * 4294967296) :
    HasText f.emptied [] ∧ m < f.emptied.q * f.emptied.n * 4294967296 := by
  have hquantum : k.scullQuantum.toNat = f.emptied.q := congrArg Int.toNat h.scullQuantum
  have hqset : k.scullQset.toNat = f.emptied.n := congrArg Int.toNat h.scullQset
  have hpos := hparams.quantum_pos
  rw [hquantum, hqset] at hsmall
  refine ⟨⟨by omega, rfl, fun c hc => absurd hc (Nat.not_lt_zero c), ?_⟩, hsmall⟩
  exact Nat.lt_of_le_of_lt (Nat.zero_le m) hsmall

/-- **What is written is read back.**  After any run the device is opened for writing, with sane
parameters, and a text is written to it.  With memory from there on all of it is taken, in pieces
as the device likes.  Whenever all of it has been taken, it can be read to its end, whatever the
reads ask for, and what has been read at the end is the text. -/
theorem text_round_trip (grant : ℕ → Option (ℕ → UInt8)) (quantum qset : Int)
    (trace : List (Op × Outcome)) (k : Kernel) (flags : ℕ) (text : List UInt8)
    (hsane : EachStep step TakesSane (loaded grant quantum qset) trace)
    (hrun : run step (loaded grant quantum qset) trace = some k)
    (hw : wronly flags = true) (hparams : Sane k.scullQuantum k.scullQset)
    (hsmall : text.length < k.scullQuantum.toNat * k.scullQset.toNat * 4294967296) :
    (Plenty k → ∃ writes k₁, WritesText 0 text writes ∧
      run step k ((.open flags, done) :: writes) = some k₁) ∧
    ∀ writes k₁, WritesText 0 text writes → run step k ((.open flags, done) :: writes) = some k₁ →
      (∀ asked : ℕ → ℕ, (∀ pos, 0 < asked pos) → ∃ reads k₂, ReadsText 0 text reads ∧
        (∀ c ∈ reads, ∃ pos, c.1 = .read (asked pos) (asked pos) pos) ∧
        run step k₁ reads = some k₂) ∧
      ∀ reads out k₂, ReadsText 0 out reads → run step k₁ reads = some k₂ → out = text := by
  obtain ⟨notes, hnotes, hnoted⟩ := run_noting refused hrun
  obtain ⟨f, -, nodes, hshows⟩ :=
    run_shows ⟨[], loaded_shows grant quantum qset⟩ (by rwa [hnotes]) hnoted
  obtain ⟨k₀, hopen, h₀, hq₀, hplenty⟩ := hshows.opens hw hparams
  obtain ⟨hempty, hsmall'⟩ := emptied_hasText hshows hparams hsmall
  constructor
  · intro hp
    obtain ⟨writes, k₁, hwrites, hrun₁⟩ :=
      writes_exist text.length (Nat.le_refl _) 0 h₀ hq₀ (hplenty hp)
    refine ⟨writes, k₁, hwrites, ?_⟩
    rw [run, hopen]
    exact hrun₁
  · intro writes k₁ hwrites hrun₁
    rw [run, hopen] at hrun₁
    obtain ⟨f₁, hpath, nodes₁, h₁⟩ :=
      run_does h₀ (takesSane_of_noOpen writes hwrites.noOpen k₀) hrun₁
    have htext : HasText f₁ text := hwrites.hasText [] rfl hempty hsmall' hpath
    refine ⟨fun asked hasked => ?_, fun reads out k₂ hreads hrun₂ => ?_⟩
    · exact reads_exist_of_text hasked _ 0 rfl (Nat.zero_le _) h₁ htext
    · obtain ⟨f₂, hpath₂, -⟩ :=
        run_does h₁ (takesSane_of_noOpen reads hreads.noOpen k₁) hrun₂
      exact hreads.eq_drop htext (Nat.zero_le _) hpath₂

/-- A text of six bytes, which the quanta of four cut in two, and which is read in pieces of
three. -/
theorem text_round_trip_example :
    ∃ writes k₁ reads k₂, WritesText 0 [1, 2, 3, 4, 5, 6] writes ∧
      run step (loaded grantAll 4 2) ((.open 1, done) :: writes) = some k₁ ∧
      ReadsText 0 [1, 2, 3, 4, 5, 6] reads ∧ run step k₁ reads = some k₂ := by
  obtain ⟨htaken, hback⟩ := text_round_trip grantAll 4 2 [] _ 1 [1, 2, 3, 4, 5, 6] trivial rfl
    (by decide) ⟨by decide, by decide, by decide⟩ (by decide)
  obtain ⟨writes, k₁, hwrites, hrun⟩ := htaken fun _ _ => rfl
  obtain ⟨reads, k₂, hreads, -, hrun'⟩ := (hback writes k₁ hwrites hrun).1 (fun _ => 3) fun _ => by decide
  exact ⟨writes, k₁, reads, k₂, hwrites, hrun, hreads, hrun'⟩

end Scull
