/-
The scull device is a flat file.

The quantum of a position is number `pos / q`, counted from the start again after 2^32 items, and
a byte of the heap stands for a cell of the file.  The driver follows the file call by call
(`step_simulates`): what a read returns is what was last written there since the device was last
emptied, wherever that has been written.
-/
import KernelProgramming.Proofs.Labs.ScullRuns

namespace Scull

open Runs Stateful

variable {k k' : Kernel} {f f' : Flat} {nodes nodes' : List Node} {q n pos c : ℕ}

/-! ### Cells -/

/-- The quantum a cell is in. -/
def quantumNo (nodes : List Node) (n w : ℕ) : Option Quantum := quantumIn nodes (w / n) (w % n)

/-- The byte in the heap that stands for a cell. -/
def byteIn (nodes : List Node) (q n c : ℕ) : Option UInt8 :=
  (quantumNo nodes n (c / q)).bind fun u => u.bytes[c % q]?

theorem itemOf_key (f : Flat) (pos : ℕ) : itemOf f.q f.n pos = f.key pos / f.q / f.n := by
  rw [itemOf, Flat.key, Nat.div_div_eq_div_mul, Nat.mod_mul_right_div_self]

theorem slotOf_key (f : Flat) (pos : ℕ) : slotOf f.q f.n pos = f.key pos / f.q % f.n := by
  rw [slotOf, ← Nat.mod_mul_right_div_self, Flat.key, Nat.mod_mul_right_mod]

/-- The quantum of a position is that of its cell. -/
theorem quantumIn_key (f : Flat) (pos : ℕ) :
    quantumIn nodes (itemOf f.q f.n pos) (slotOf f.q f.n pos)
      = quantumNo nodes f.n (f.key pos / f.q) := by
  rw [quantumNo, itemOf_key, slotOf_key]

theorem offs_key (f : Flat) (pos : ℕ) : f.key pos % f.q = offsOf f.q pos := by
  rw [Flat.key, Nat.mul_assoc, Nat.mod_mul_right_mod]
  rfl

/-- Positions of one quantum have cells in one quantum. -/
theorem key_div {p : ℕ} (f : Flat) (h : p / f.q = pos / f.q) : f.key p / f.q = f.key pos / f.q := by
  rw [Flat.key, Flat.key, Nat.mul_assoc, Nat.mod_mul_right_div_self, Nat.mod_mul_right_div_self, h]

/-- The next positions of a quantum. -/
theorem add_div_of_lt {j : ℕ} (hq : 0 < q) (h : offsOf q pos + j < q) :
    (pos + j) / q = pos / q ∧ offsOf q (pos + j) = offsOf q pos + j := by
  have hpos := Nat.div_add_mod pos q
  have hsplit : pos + j = (offsOf q pos + j) + q * (pos / q) := by
    rw [offsOf]
    omega
  constructor
  · rw [hsplit, Nat.add_mul_div_left _ _ hq, Nat.div_eq_of_lt h, Nat.zero_add]
  · rw [offsOf, hsplit, Nat.add_mul_mod_self_left, Nat.mod_eq_of_lt h]

/-- A cell is written when it is in the quantum of the write, at one of the bytes written. -/
theorem in_put_iff {m : ℕ} (hq : 0 < f.q) (hfit : offsOf f.q pos + m ≤ f.q) :
    (f.key pos ≤ c ∧ c < f.key pos + m) ↔
      c / f.q = f.key pos / f.q ∧ offsOf f.q pos ≤ c % f.q ∧ c % f.q < offsOf f.q pos + m := by
  have hc := Nat.div_add_mod c f.q
  have hk := Nat.div_add_mod (f.key pos) f.q
  have hmod := Nat.mod_lt c hq
  rw [offs_key] at hk
  constructor
  · rintro ⟨hle, hlt⟩
    have hdiv : c / f.q = f.key pos / f.q := by
      refine (Nat.div_eq_iff hq).mpr ⟨?_, ?_⟩
      · rw [Nat.mul_comm]
        omega
      · rw [Nat.mul_comm]
        omega
    rw [hdiv] at hc
    exact ⟨hdiv, by omega, by omega⟩
  · rintro ⟨hdiv, hle, hlt⟩
    rw [hdiv] at hc
    exact ⟨by omega, by omega⟩

/-! ### Bytes written into a quantum -/

theorem splice_inside {bytes new : List UInt8} {off i : ℕ} (hfit : off + new.length ≤ bytes.length)
    (hle : off ≤ i) (hlt : i < off + new.length) : (splice bytes off new)[i]? = new[i - off]? := by
  have htake : (bytes.take off).length = off := by
    rw [List.length_take]
    omega
  rw [splice, List.append_assoc, List.getElem?_append_right (by omega), htake,
    List.getElem?_append_left (by omega)]

theorem splice_outside {bytes new : List UInt8} {off i : ℕ} (hfit : off + new.length ≤ bytes.length)
    (hout : ¬(off ≤ i ∧ i < off + new.length)) : (splice bytes off new)[i]? = bytes[i]? := by
  have htake : (bytes.take off).length = off := by
    rw [List.length_take]
    omega
  rw [splice, List.append_assoc]
  by_cases hlt : i < off
  · rw [List.getElem?_append_left (by omega), List.getElem?_take_of_lt hlt]
  · rw [List.getElem?_append_right (by omega), htake, List.getElem?_append_right (by omega),
      List.getElem?_drop]
    congr 1
    omega

/-! ### One call -/

/-- **The driver shows the file**: what is in a cell is in the heap. -/
structure Shows (k : Kernel) (f : Flat) (nodes : List Node) : Prop where
  holds : Holds k nodes
  ready : Ready k nodes
  q : k.dev.quantum.toNat = f.q
  n : k.dev.qset.toNat = f.n
  size : k.dev.size = f.size
  scullQuantum : k.scullQuantum = f.scullQuantum
  scullQset : k.scullQset = f.scullQset
  cells : ∀ c b, f.cell c = some b → byteIn nodes f.q f.n c = some b

theorem Shows.sized (h : Shows k f nodes) (hsane : Sane k.dev.quantum k.dev.qset) :
    Sized k f.q f.n := by
  have hs := hsane.sized
  rwa [h.q, h.n] at hs

/-- Where there are no more quanta than before, the cells are shown as before. -/
theorem Shows.settled (h : Shows k f nodes) (hs : Settled k k')
    (hsane : Sane k.dev.quantum k.dev.qset) (hholds : Holds k' nodes')
    (hsame : ∀ i s, quantumIn nodes' i s = quantumIn nodes i s) : Shows k' f nodes' where
  holds := hholds
  ready := hs.ready hsane
  q := by rw [hs.dev]; exact h.q
  n := by rw [hs.dev]; exact h.n
  size := by rw [hs.dev]; exact h.size
  scullQuantum := hs.scullQuantum.trans h.scullQuantum
  scullQset := hs.scullQset.trans h.scullQset
  cells c b hc := by
    rw [byteIn, quantumNo, hsame]
    exact h.cells c b hc

/-- **A read** returns what the file may return. -/
theorem read_shows (h : Shows k f nodes) (hs : Sized k f.q f.n) (hpos : pos < f.size)
    (room count : ℕ) (b : Bool) :
    Flat.Step f ((.read room count pos, readResult
      (quantumIn nodes (itemOf f.q f.n pos) (slotOf f.q f.n pos)) f.q f.size room count pos), b) f := by
  rw [quantumIn_key]
  cases hu : quantumNo nodes f.n (f.key pos / f.q) with
  | none =>
      refine Flat.Step.readHole fun p hp => ?_
      cases hcell : f.cell (f.key p) with
      | none => rfl
      | some b =>
          have hbyte := h.cells _ b hcell
          rw [byteIn, key_div f hp, hu] at hbyte
          cases hbyte
  | some u =>
      have hlen : u.bytes.length = f.q := by
        obtain ⟨l₁, l₂, a, ta, s₁, s₂, rfl, -, -⟩ := quantumIn_split hu
        have hshaped := h.holds.shapedOf hs (List.mem_append_right _ (List.mem_cons_self ..))
        exact (hshaped _ rfl).2 u (List.mem_append_right _ (List.mem_cons_self ..))
      have hoffs := offsOf_lt hs.q_pos pos
      have hmoved : moved f.q (min count (f.size - pos)) pos ≤ f.q - offsOf f.q pos :=
        Nat.min_le_right _ _
      have hbytes : ((u.bytes.drop (offsOf f.q pos)).take
          (moved f.q (min count (f.size - pos)) pos)).length
            = moved f.q (min count (f.size - pos)) pos := by
        rw [List.length_take, List.length_drop]
        omega
      have hresult : readResult (some u) f.q f.size room count pos
          = Flat.gave room pos ((u.bytes.drop (offsOf f.q pos)).take
              (moved f.q (min count (f.size - pos)) pos)) := by
        rw [Flat.gave, hbytes]
        rfl
      rw [hresult]
      refine Flat.Step.read ⟨hpos, hbytes, fun j b hj hcell => ?_⟩
      rw [hbytes] at hj
      have hbyte := h.cells _ b hcell
      obtain ⟨hdiv, hoffs'⟩ := add_div_of_lt hs.q_pos (by omega : offsOf f.q pos + j < f.q)
      rw [byteIn, key_div f hdiv, hu, Option.bind_some, offs_key, hoffs'] at hbyte
      rw [List.getElem?_take_of_lt hj, List.getElem?_drop]
      exact hbyte

/-- **A write** leaves in the heap what it leaves in the cells. -/
theorem write_shows {u : Quantum} {new : List UInt8} (h : Shows k f nodes) (hs : Sized k f.q f.n)
    (hfit : offsOf f.q pos + new.length ≤ f.q)
    (hwrote : Wrote k k' nodes nodes' (itemOf f.q f.n pos) (slotOf f.q f.n pos) u (offsOf f.q pos) new) :
    ∀ c b, Flat.put f.cell (f.key pos) new c = some b → byteIn nodes' f.q f.n c = some b := by
  intro c b hc
  have hlen : u.bytes.length = f.q := by
    rw [hwrote.length, h.q]
  have hhere := hwrote.changed.here
  rw [quantumIn_key] at hhere
  have hin := in_put_iff (c := c) hs.q_pos hfit
  unfold Flat.put at hc
  by_cases hrange : f.key pos ≤ c ∧ c < f.key pos + new.length
  · -- a byte that has been written
    rw [if_pos hrange] at hc
    obtain ⟨hdiv, hle, hlt⟩ := hin.mp hrange
    have hidx : c - f.key pos = c % f.q - offsOf f.q pos := by
      have h₁ := Nat.div_add_mod c f.q
      have h₂ := Nat.div_add_mod (f.key pos) f.q
      rw [offs_key] at h₂
      rw [hdiv] at h₁
      omega
    rw [byteIn, hdiv, hhere]
    show (splice u.bytes (offsOf f.q pos) new)[c % f.q]? = some b
    rw [splice_inside (by omega) hle hlt, ← hidx]
    exact hc
  · rw [if_neg hrange] at hc
    have hold := h.cells c b hc
    by_cases hdiv : c / f.q = f.key pos / f.q
    · -- another byte of the same quantum, which was there already
      obtain ⟨o, ho, hb⟩ := Option.bind_eq_some_iff.mp hold
      have huo : u = o := by
        refine hwrote.old o ?_
        rw [quantumIn_key, ← hdiv]
        exact ho
      rw [byteIn, hdiv, hhere]
      show (splice u.bytes (offsOf f.q pos) new)[c % f.q]? = some b
      rw [splice_outside (by omega) fun hinside => hrange (hin.mpr ⟨hdiv, hinside⟩), huo]
      exact hb
    · -- another quantum
      have hother : quantumNo nodes' f.n (c / f.q) = quantumNo nodes f.n (c / f.q) := by
        refine hwrote.changed.other _ _ ?_
        rintro ⟨hi, hsl⟩
        refine hdiv ?_
        have h₁ := Nat.div_add_mod (c / f.q) f.n
        have h₂ := Nat.div_add_mod (f.key pos / f.q) f.n
        rw [hi, hsl, itemOf_key, slotOf_key, h₂] at h₁
        exact h₁.symm
      rw [byteIn, hother]
      exact hold

/-- The sizes are set when a write has returned. -/
theorem sane_of_write {buf : List UInt8} {count : ℕ} {out : Outcome} (hready : Ready k nodes)
    (hcall : scullWrite buf count pos k = .ok (out, k')) : Sane k.dev.quantum k.dev.qset := by
  cases hready with
  | sane hsane => exact hsane
  | untouched hq hn _ _ =>
      have hfails := write_divides hq hn buf count pos
      rw [Fails, hcall] at hfails
      cases hfails

/-- What a write has done to the device, in terms of the file. -/
theorem Wrote.shows {u : Quantum} {new : List UInt8} {i s off size : ℕ} {cell : ℕ → Option UInt8}
    (h : Shows k f nodes) (hsane : Sane k.dev.quantum k.dev.qset)
    (hwrote : Wrote k k' nodes nodes' i s u off new) (hsize : k'.dev.size = size)
    (hcells : ∀ c b, cell c = some b → byteIn nodes' f.q f.n c = some b) :
    Shows k' { f with cell := cell, size := size } nodes' := by
  have hdev := hwrote.settled.dev
  refine ⟨hwrote.holds, Ready.sane ?_, ?_, ?_, hsize, ?_, ?_, hcells⟩
  · rw [hdev]
    exact hsane
  · rw [hdev]
    exact h.q
  · rw [hdev]
    exact h.n
  · exact hwrote.settled.scullQuantum.trans h.scullQuantum
  · exact hwrote.settled.scullQset.trans h.scullQset

theorem write_simulates {buf : List UInt8} {count : ℕ} {out : Outcome} (h : Shows k f nodes)
    (hcall : scullWrite buf count pos k = .ok (out, k')) :
    ∃ f', Flat.Step f ((.write buf count pos, out), refused k k') f' ∧
      ∃ nodes', Shows k' f' nodes' := by
  have hsane := sane_of_write h.ready hcall
  have hs := h.sized hsane
  obtain ⟨nodes', ⟨rfl, hstarved⟩ | ⟨u, hwrote, hout⟩⟩ :=
    (scullWrite_spec h.holds hs count).holds hcall
  · rw [hstarved.refused]
    exact ⟨f, .starved, nodes', h.settled hstarved.settled hsane hstarved.holds hstarved.same⟩
  · rw [hwrote.granted]
    have hfit : offsOf f.q pos + (padded buf (moved f.q count pos)).length ≤ f.q := by
      have ho := offsOf_lt hs.q_pos pos
      rw [length_padded, moved]
      omega
    have hcells := write_shows h hs hfit hwrote
    by_cases hfault : buf.length < moved f.q count pos
    · rw [if_pos hfault] at hout
      rw [hout.1]
      exact ⟨_, .fault hfault, nodes', hwrote.shows h hsane (hout.2.trans h.size) hcells⟩
    · rw [if_neg hfault] at hout
      have hbuf := Nat.le_of_not_lt hfault
      have hpadded : padded buf (moved f.q count pos) = buf.take (moved f.q count pos) := by
        rw [padded, Nat.sub_eq_zero_of_le hbuf, List.replicate_zero, List.append_nil]
      rw [hpadded] at hcells
      rw [h.size] at hout
      rw [hout.1]
      exact ⟨_, .write hbuf, nodes', hwrote.shows h hsane hout.2 hcells⟩

theorem read_simulates {room count : ℕ} {out : Outcome} (h : Shows k f nodes)
    (hcall : scullRead room count pos k = .ok (out, k')) (b : Bool) :
    Flat.Step f ((.read room count pos, out), b) f ∧ ∃ nodes', Shows k' f nodes' := by
  by_cases hpos : pos < k.dev.size
  · cases hready : h.ready with
    | untouched _ _ hsize _ =>
        rw [hsize] at hpos
        exact absurd hpos (Nat.not_lt_zero _)
    | sane hsane =>
        have hs := h.sized hsane
        obtain ⟨rfl, hsettled, extra, hholds, hblank⟩ :=
          (scullRead_spec h.holds hs hpos room count).holds hcall
        rw [h.size] at hpos ⊢
        refine ⟨read_shows h hs hpos room count b, nodes ++ extra, ?_⟩
        exact h.settled hsettled hsane hholds (quantumIn_append hblank)
  · have hle := Nat.le_of_not_lt hpos
    rw [scullRead_end hle] at hcall
    cases hcall
    rw [h.size] at hle
    exact ⟨.readEnd hle, nodes, h⟩

theorem trim_simulates (h : Shows k f nodes) (hsane : Sane k.scullQuantum k.scullQset)
    (hcall : scullTrim k = .ok ((), k')) : Shows k' f.emptied [] := by
  obtain ⟨hm, -, hquantum, hqset, hdev⟩ := (scullTrim_spec h.holds).holds hcall
  have hsane' : Sane k'.dev.quantum k'.dev.qset := by
    rw [hdev]
    exact hsane
  refine ⟨⟨hm, by rw [hdev]; rfl, fun nd hmem => absurd hmem List.not_mem_nil⟩,
    Ready.sane hsane', ?_, ?_, ?_, hquantum.trans h.scullQuantum, hqset.trans h.scullQset, ?_⟩
  · rw [hdev]
    exact congrArg Int.toNat h.scullQuantum
  · rw [hdev]
    exact congrArg Int.toNat h.scullQset
  · rw [hdev]
    rfl
  · intro c b hc
    cases hc

/-- **Call by call** the driver does what the file may do. -/
theorem step_simulates {c : Op × Outcome} (h : ∃ nodes, Shows k f nodes) (hsane : TakesSane k c)
    (hstep : step k c = some k') :
    ∃ f', Flat.Step f (c, refused k k') f' ∧ ∃ nodes', Shows k' f' nodes' := by
  obtain ⟨nodes, h⟩ := h
  have hcall := call_of_step hstep
  obtain ⟨op, out⟩ := c
  cases op with
  | «open» flags =>
      obtain ⟨_, k₁, hopen, hdone⟩ := of_run_bind hcall
      cases hdone
      unfold scullOpen at hopen
      by_cases hw : wronly flags = true
      · rw [if_pos hw] at hopen
        exact ⟨f.emptied, .trim hw, [], trim_simulates h (hsane hw) hopen⟩
      · rw [if_neg hw] at hopen
        cases hopen
        exact ⟨f, .open (by simpa using hw), nodes, h⟩
  | release =>
      cases hcall
      exact ⟨f, .release, nodes, h⟩
  | read room count pos =>
      obtain ⟨hflat, hshows⟩ := read_simulates h hcall (refused k k')
      exact ⟨f, hflat, hshows⟩
  | write buf count pos => exact write_simulates h hcall
  | setQuantum value =>
      cases hcall
      refine ⟨_, .setQuantum, nodes, ⟨⟨⟨h.holds.mem.owns, h.holds.mem.fresh⟩, h.holds.head,
        h.holds.shaped⟩, ?_, h.q, h.n, h.size, rfl, h.scullQset, h.cells⟩⟩
      cases h.ready with
      | sane hsane => exact Ready.sane hsane
      | untouched hq hn hsize hnodes => exact Ready.untouched hq hn hsize hnodes
  | setQset value =>
      cases hcall
      refine ⟨_, .setQset, nodes, ⟨⟨⟨h.holds.mem.owns, h.holds.mem.fresh⟩, h.holds.head,
        h.holds.shaped⟩, ?_, h.q, h.n, h.size, h.scullQuantum, rfl, h.cells⟩⟩
      cases h.ready with
      | sane hsane => exact Ready.sane hsane
      | untouched hq hn hsize hnodes => exact Ready.untouched hq hn hsize hnodes

theorem loaded_shows (grant : ℕ → Option (ℕ → UInt8)) (quantum qset : Int) :
    Shows (loaded grant quantum qset) (Flat.start quantum qset) [] := by
  refine ⟨⟨⟨Alloc.owns_nil_iff.mpr rfl, fun _ _ => rfl⟩, rfl, ?_⟩, .untouched rfl rfl rfl rfl,
    rfl, rfl, rfl, rfl, rfl, ?_⟩
  · exact fun nd hmem => absurd hmem List.not_mem_nil
  · intro c b hc
    cases hc

/-- Without an open for writing the parameters are not taken over. -/
theorem takesSane_of_noOpen (trace : List (Op × Outcome)) (h : ∀ c ∈ trace, c.1.wronly = false) :
    ∀ k, EachStep step TakesSane k trace := by
  induction trace with
  | nil => exact fun _ => trivial
  | cons c rest ih =>
      intro k
      obtain ⟨hc, hrest⟩ := List.forall_mem_cons.mp h
      refine ⟨fun hw => ?_, fun k₁ _ => ih hrest k₁⟩
      rw [hc] at hw
      cases hw

theorem takesSane_cons {c : Op × Outcome} {rest : List (Op × Outcome)} (hc : TakesSane k c)
    (hrest : ∀ c ∈ rest, c.1.wronly = false) : EachStep step TakesSane k (c :: rest) :=
  ⟨hc, fun k₁ _ => takesSane_of_noOpen rest hrest k₁⟩

/-- Run by run the driver does what the file may do. -/
theorem run_shows {trace : List ((Op × Outcome) × Bool)} (h : ∃ nodes, Shows k f nodes)
    (hsane : EachStep step TakesSane k (trace.map Prod.fst))
    (hrun : run (noting step refused) k trace = some k') :
    ∃ f', Path Flat.Step f trace f' ∧ ∃ nodes', Shows k' f' nodes' := by
  have hstep : ∀ (s : Kernel) (a : (Op × Outcome) × Bool) (s' : Kernel) (t : Flat),
      (∃ nodes, Shows s t nodes) → TakesSane s a.1 → noting step refused s a = some s' →
        ∃ t', Flat.Step t a t' ∧ ∃ nodes, Shows s' t' nodes := by
    rintro s ⟨c, b⟩ s' t hshows hs hnoted
    obtain ⟨hfirst, rfl⟩ := noting_eq_some hnoted
    exact step_simulates hshows hs hfirst
  exact run_simulates hstep trace k k' f h (eachStep_noting hsane) hrun

/-- **The device is a flat file**: whatever calls are made of it and whatever memory there is, the
file may give the same answers to the same calls, and it has the device's size at the end. -/
theorem device_refines_flat (grant : ℕ → Option (ℕ → UInt8)) (quantum qset : Int)
    (trace : List ((Op × Outcome) × Bool)) (k : Kernel)
    (hsane : EachStep step TakesSane (loaded grant quantum qset) (trace.map Prod.fst))
    (hrun : run (noting step refused) (loaded grant quantum qset) trace = some k) :
    ∃ f, Path Flat.Step (Flat.start quantum qset) trace f ∧ k.dev.size = f.size := by
  obtain ⟨f, hpath, nodes, hshows⟩ :=
    run_shows ⟨[], loaded_shows grant quantum qset⟩ hsane hrun
  exact ⟨f, hpath, hshows.size⟩

/-- There is memory for all but the third call of `kmalloc`. -/
def grantTwo : ℕ → Option (ℕ → UInt8) := fun c => if c = 2 then none else some fun _ => 0

/-- A write that finds no memory for its quantum, and two bytes behind a hole that are written and
read back. -/
def sampleCalls : List ((Op × Outcome) × Bool) :=
  [((.open 1, done), false), ((.write [7, 8] 2 1, noMemory 1), true),
    ((.write [7, 8] 2 1, { ret := 2, fPos := 3, out := [] }), false),
    ((.read 5 5 1, { ret := 2, fPos := 3, out := [7, 8] }), false)]

theorem device_refines_flat_example :
    ∃ k, run (noting step refused) (loaded grantTwo 4 2) sampleCalls = some k ∧
      ∃ f, Path Flat.Step (Flat.start 4 2) sampleCalls f ∧ k.dev.size = f.size := by
  obtain ⟨k, hk⟩ := Option.isSome_iff_exists.mp (by decide +kernel :
    (run (noting step refused) (loaded grantTwo 4 2) sampleCalls).isSome = true)
  have hsane : EachStep step TakesSane (loaded grantTwo 4 2) (sampleCalls.map Prod.fst) := by
    refine takesSane_cons (fun _ => ⟨by decide, by decide, by decide⟩) ?_
    decide
  exact ⟨k, hk, device_refines_flat grantTwo 4 2 sampleCalls k hsane hk⟩

end Scull
