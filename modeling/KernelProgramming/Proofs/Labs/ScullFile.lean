/-
Where a position of the device is kept, and what a read and a write do there.

A position is in one quantum: of the array of the node `item`, the pointer `slot`, and there the
byte `offs`.  The list has no node for an `int` of 2^32 and above, so `item` is a remainder, and
positions that are 2^32 items apart are the same bytes.  A read returns bytes of that quantum
and no other, and a write changes that one only.
-/
import KernelProgramming.Labs.ScullFlat
import KernelProgramming.Proofs.Labs.ScullMemory

namespace Scull

open Alloc Stateful

variable {k k' : Kernel} {l : List (Addr × Block)} {nodes nodes' : List Node}

/-! ### Positions -/

/-- Sizes for which the arithmetic of the driver does not leave `int`. -/
structure Sane (quantum qset : Int) : Prop where
  quantum_pos : 0 < quantum
  qset_pos : 0 < qset
  small : quantum * qset < 2147483648

instance (quantum qset : Int) : Decidable (Sane quantum qset) :=
  decidable_of_iff (0 < quantum ∧ 0 < qset ∧ quantum * qset < 2147483648)
    ⟨fun h => ⟨h.1, h.2.1, h.2.2⟩, fun h => ⟨h.quantum_pos, h.qset_pos, h.small⟩⟩

/-- The node and the slot of a position, for quanta of `q` bytes and arrays of `n`. -/
def itemOf (q n pos : ℕ) : ℕ := pos / (q * n) % 4294967296

def slotOf (q n pos : ℕ) : ℕ := pos % (q * n) / q

theorem slotOf_lt {q n : ℕ} (hq : 0 < q) (hn : 0 < n) (pos : ℕ) : slotOf q n pos < n :=
  Nat.div_lt_of_lt_mul (Nat.mod_lt _ (Nat.mul_pos hq hn))

theorem offsOf_lt {q : ℕ} (hq : 0 < q) (pos : ℕ) : offsOf q pos < q := Nat.mod_lt _ hq

theorem int32_of_lt {n : ℕ} (h : n < 2147483648) : int32 n = n := by
  refine Int.bmod_eq_of_le ?_ ?_ <;> omega

/-- The loop of `scull_follow` goes on to the node of the position. -/
theorem rounds_item (q n pos : ℕ) : rounds (int32 (pos / (q * n) : ℕ)) = itemOf q n pos := by
  have hmod : int32 (pos / (q * n) : ℕ) % 4294967296 = ((pos / (q * n) : ℕ) : Int) % 4294967296 :=
    Int.bmod_emod
  rw [rounds, hmod, itemOf]
  omega

/-- **The four lines that find a position**, for sizes the arithmetic is good for. -/
theorem locate_spec {q n : ℕ} (hq : 0 < q) (hn : 0 < n) (hsmall : q * n < 2147483648) (pos : ℕ)
    (k : Kernel) :
    locate q n pos k
      = .ok ({ item := int32 (pos / (q * n) : ℕ), sPos := slotOf q n pos, qPos := offsOf q pos }, k) := by
  have hpos : 0 < q * n := Nat.mul_pos hq hn
  have hrest : pos % (q * n) < 2147483648 := Nat.lt_trans (Nat.mod_lt _ hpos) hsmall
  have hslot : slotOf q n pos < 2147483648 := Nat.lt_of_le_of_lt (Nat.div_le_self _ _) hrest
  have hoffs : pos % (q * n) % q < 2147483648 := Nat.lt_of_le_of_lt (Nat.mod_le _ _) hrest
  have hitemsize : int32 ((q : Int) * n) = ((q * n : ℕ) : Int) := by
    rw [← Int.natCast_mul]
    exact int32_of_lt hsmall
  have hne : ((q * n : ℕ) : Int) ≠ 0 := by omega
  have hqne : (q : Int) ≠ 0 := by omega
  have hdiv (a b : ℕ) (hb : (b : Int) ≠ 0) : divide a b k = .ok (int32 (a / b : ℕ), k) := by
    rw [divide, if_neg hb, Int.ofNat_tdiv]
    rfl
  have hmod (a b : ℕ) (hb : (b : Int) ≠ 0) : modulo a b k = .ok (int32 (a % b : ℕ), k) := by
    rw [modulo, if_neg hb, Int.ofNat_tmod]
    rfl
  unfold locate
  rw [hitemsize, run_bind_ok (hdiv pos (q * n) hne), run_bind_ok (hmod pos (q * n) hne),
    int32_of_lt hrest, run_bind_ok (hdiv _ q hqne), run_bind_ok (hmod _ q hqne)]
  have hs : int32 (pos % (q * n) / q : ℕ) = slotOf q n pos := int32_of_lt hslot
  have ho : int32 (pos % (q * n) % q : ℕ) = offsOf q pos := by
    rw [int32_of_lt hoffs, Nat.mod_mul_right_mod]
    rfl
  rw [hs, ho]
  rfl

/-! ### The quantum of a position -/

/-- The quantum at a slot of a node, if it has been allocated. -/
def quantumIn (nodes : List Node) (i s : ℕ) : Option Quantum :=
  (nodes[i]?.bind Node.table).bind fun t => t.slots[s]?.join

theorem quantumIn_append {extra : List Node} (hblank : ∀ nd ∈ extra, nd.table = none) (i s : ℕ) :
    quantumIn (nodes ++ extra) i s = quantumIn nodes i s := by
  unfold quantumIn
  by_cases hi : i < nodes.length
  · rw [List.getElem?_append_left hi]
  · rw [List.getElem?_append_right (Nat.le_of_not_lt hi),
      List.getElem?_eq_none (Nat.le_of_not_lt hi)]
    cases hget : extra[i - nodes.length]? with
    | none => rfl
    | some nd => simp [hblank nd (List.mem_of_getElem? hget)]

theorem split_at {nd : Node} {i : ℕ} (h : nodes[i]? = some nd) :
    ∃ l₁ l₂, nodes = l₁ ++ nd :: l₂ ∧ l₁.length = i := by
  obtain ⟨hi, hget⟩ := List.getElem?_eq_some_iff.mp h
  refine ⟨nodes.take i, nodes.drop (i + 1), ?_, by simp; omega⟩
  rw [← hget, List.getElem_cons_drop, List.take_append_drop]

theorem get_middle {l₁ l₂ : List Node} {nd : Node} : (l₁ ++ nd :: l₂)[l₁.length]? = some nd := by
  rw [List.getElem?_append_right (Nat.le_refl _), Nat.sub_self, List.getElem?_cons_zero]

theorem quantumIn_of_get {nd : Node} {i : ℕ} (h : nodes[i]? = some nd) (s : ℕ) :
    quantumIn nodes i s = nd.table.bind fun t => t.slots[s]?.join := by
  rw [quantumIn, h]
  rfl

/-- Two lists that differ in one node. -/
theorem quantumIn_other {l₁ l₂ : List Node} {nd nd' : Node} {i : ℕ} (hi : i ≠ l₁.length) (s : ℕ) :
    quantumIn (l₁ ++ nd' :: l₂) i s = quantumIn (l₁ ++ nd :: l₂) i s := by
  unfold quantumIn
  rcases Nat.lt_or_gt_of_ne hi with hlt | hgt
  · rw [List.getElem?_append_left hlt, List.getElem?_append_left hlt]
  · obtain ⟨j, rfl⟩ : ∃ j, i = l₁.length + (j + 1) := ⟨i - l₁.length - 1, by omega⟩
    rw [List.getElem?_append_right (by omega), List.getElem?_append_right (by omega)]
    simp

/-- **One node is changed** and the others are as they were. -/
theorem Holds.replace {l₁ l₂ : List Node} {nd nd' : Node} (h : Holds k (l₁ ++ nd :: l₂))
    (hq : Quiet k k') (haddr : nd'.addr = nd.addr)
    (hmem : Mem k' ((nd.addr, nd'.block (firstTo none l₂)) ::
      (tableFoot nd'.table ++ around none l₁ nd.addr l₂)))
    (hshaped : nd'.Shaped k.dev.quantum.toNat k.dev.qset.toNat) : Holds k' (l₁ ++ nd' :: l₂) where
  mem := by
    refine hmem.perm ?_
    have hsplit := @footTo_split none l₁ nd' l₂
    rw [haddr] at hsplit
    exact hsplit.symm
  head := by
    rw [hq.dev, h.head, firstTo_append, firstTo_append]
    simp only [firstTo, haddr]
  shaped := by
    intro nd₀ hnd₀
    rw [hq.dev]
    rcases List.mem_append.mp hnd₀ with hl | hr
    · exact h.shaped nd₀ (List.mem_append_left _ hl)
    · rcases List.mem_cons.mp hr with rfl | hr
      · exact hshaped
      · exact h.shaped nd₀ (List.mem_append_right _ (List.mem_cons_of_mem _ hr))

theorem Holds.quiet (h : Holds k nodes) (hq : Quiet k k') (hmem : Mem k' (footTo none nodes)) :
    Holds k' nodes where
  mem := hmem
  head := by rw [hq.dev, h.head]
  shaped := by rw [hq.dev]; exact h.shaped

/-- The sizes of the device as natural numbers. -/
structure Sized (k : Kernel) (q n : ℕ) : Prop where
  quantum : k.dev.quantum = q
  qset : k.dev.qset = n
  q_pos : 0 < q
  n_pos : 0 < n
  small : q * n < 2147483648

theorem Sane.sized (h : Sane k.dev.quantum k.dev.qset) :
    Sized k k.dev.quantum.toNat k.dev.qset.toNat := by
  obtain ⟨hq, hn, hsmall⟩ := h
  have hq' : ((k.dev.quantum.toNat : ℕ) : Int) = k.dev.quantum := Int.toNat_of_nonneg (by omega)
  have hn' : ((k.dev.qset.toNat : ℕ) : Int) = k.dev.qset := Int.toNat_of_nonneg (by omega)
  refine ⟨hq'.symm, hn'.symm, by omega, by omega, ?_⟩
  have hcast : ((k.dev.quantum.toNat * k.dev.qset.toNat : ℕ) : Int) < 2147483648 := by
    rw [Int.natCast_mul, hq', hn']
    exact hsmall
  omega

variable {q n i : ℕ} {nd : Node}

theorem Sized.q_lt (h : Sized k q n) : q < 2147483648 :=
  Nat.lt_of_le_of_lt (Nat.le_mul_of_pos_right q h.n_pos) h.small

theorem Sized.n_lt (h : Sized k q n) : n < 2147483648 :=
  Nat.lt_of_le_of_lt (Nat.le_mul_of_pos_left n h.q_pos) h.small

theorem Holds.shapedOf (h : Holds k nodes) (hs : Sized k q n) (hmem : nd ∈ nodes) :
    nd.Shaped q n := by
  have hshaped := h.shaped nd hmem
  rwa [hs.quantum, hs.qset, Int.toNat_natCast, Int.toNat_natCast] at hshaped

/-- The array of a node with its own blocks in front of all the others. -/
theorem Holds.front (h : Holds k nodes) {l₁ l₂ : List Node} (hnodes : nodes = l₁ ++ nd :: l₂) :
    Mem k ((nd.addr, nd.block (firstTo none l₂)) ::
      (tableFoot nd.table ++ around none l₁ nd.addr l₂)) := by
  rw [hnodes] at h
  exact h.mem.perm (footTo_split l₁ nd l₂)

/-- An array that has just been allocated and cleared. -/
def emptyTable (a : Addr) (n : ℕ) : Table where
  addr := a
  slots := List.replicate n none

theorem emptyTable_foot (a : Addr) (n : ℕ) :
    (emptyTable a n).foot = [(a, .array (List.replicate n none))] := by
  simp [emptyTable, Table.foot, Table.block, slotsFoot]

theorem emptyTable_slot (a : Addr) (n s : ℕ) : (emptyTable a n).slots[s]?.join = none := by
  rw [emptyTable, List.getElem?_replicate]
  split <;> rfl

/-- **The array of a node** is there, or is allocated and empty, or there is no memory. -/
theorem arrayFor_spec (h : Holds k nodes) (hs : Sized k q n) (hget : nodes[i]? = some nd) :
    Post (arrayFor k.dev.qset (some nd.addr)) k fun r k' => Quiet k k' ∧
      refused k k' = r.isNone ∧ ((r = none ∧ Holds k' nodes) ∨
        ∃ nodes' t, r = some t.addr ∧ Holds k' nodes' ∧
          nodes'[i]? = some { addr := nd.addr, table := some t } ∧
          ∀ j s, quantumIn nodes' j s = quantumIn nodes j s) := by
  obtain ⟨l₁, l₂, hnodes, hlen⟩ := split_at hget
  have hfront := h.front hnodes
  refine Post.bind_eq (hfront.peek (List.mem_cons_self ..) rfl) ?_
  obtain ⟨addr, table⟩ := nd
  cases table with
  | some t =>
      exact Post.pure ⟨Quiet.refl k, refused_same rfl,
        Or.inr ⟨nodes, t, rfl, h, hget, fun _ _ => rfl⟩⟩
  | none =>
      have hslots : size64 (k.dev.qset * 8) / 8 = n := by
        have hn := hs.n_lt
        rw [hs.qset, size64]
        omega
      refine Post.bind (hfront.kmalloc _) ?_
      rintro r k₁ ⟨hq₁, ⟨rfl, hm₁, hrefused⟩ | ⟨a, memory, rfl, hm₁, hgranted⟩⟩
      · refine Post.bind (hm₁.poke (c := .qset none (firstTo none l₂)) rfl) ?_
        rintro _ k₂ ⟨hq₂, hm₂, hc₂⟩
        have hq := hq₁.trans hq₂
        refine Post.pure ⟨hq, ?_, Or.inl ⟨rfl, h.quiet hq ?_⟩⟩
        · rw [hq₁.refused_eq hq₂, hrefused]
          rfl
        · rw [hnodes]
          exact hm₂.perm (footTo_split l₁ _ l₂).symm
      · rw [hslots] at hm₁
        refine Post.bind ((hm₁.perm (List.Perm.swap ..)).poke
          (c := .qset (some a) (firstTo none l₂)) rfl) ?_
        rintro _ k₂ ⟨hq₂, hm₂, hc₂⟩
        have hq := hq₁.trans hq₂
        subst hnodes
        refine Post.pure ⟨hq, ?_, Or.inr ⟨l₁ ++ ⟨addr, some (emptyTable a n)⟩ :: l₂, emptyTable a n,
          rfl, ?_, ?_, ?_⟩⟩
        · rw [hq₁.refused_eq hq₂, hgranted, refused_same hc₂]
          rfl
        · refine h.replace hq rfl ?_ ?_
          · rw [tableFoot, Option.elim_some, emptyTable_foot]
            exact hm₂
          · rintro t ⟨rfl⟩
            rw [hs.quantum, hs.qset, Int.toNat_natCast, Int.toNat_natCast]
            exact ⟨List.length_replicate, fun u hu => by simp [emptyTable] at hu⟩
        · rw [← hlen, get_middle]
        · intro j s
          by_cases hj : j = l₁.length
          · rw [hj, quantumIn_of_get get_middle, quantumIn_of_get get_middle]
            exact emptyTable_slot a n s
          · exact quantumIn_other hj s

/-- Two lists of slots that differ in one. -/
theorem slot_other {s₁ s₂ : List (Option Quantum)} {o o' : Option Quantum} {s : ℕ}
    (hs : s ≠ s₁.length) : (s₁ ++ o' :: s₂)[s]? = (s₁ ++ o :: s₂)[s]? := by
  rcases Nat.lt_or_gt_of_ne hs with hlt | hgt
  · rw [List.getElem?_append_left hlt, List.getElem?_append_left hlt]
  · obtain ⟨j, rfl⟩ : ∃ j, s = s₁.length + (j + 1) := ⟨s - s₁.length - 1, by omega⟩
    rw [List.getElem?_append_right (by omega), List.getElem?_append_right (by omega)]
    simp

theorem split_slot {slots : List (Option Quantum)} {s : ℕ} (h : s < slots.length) :
    ∃ s₁ o s₂, slots = s₁ ++ o :: s₂ ∧ s₁.length = s := by
  refine ⟨slots.take s, slots[s], slots.drop (s + 1), ?_, by simp; omega⟩
  rw [List.getElem_cons_drop, List.take_append_drop]

/-- What is in front of `s₀` is brought to the front of everything. -/
theorem perm_front {x y : Addr × Block} {o s s₀ r : List (Addr × Block)} (hs : s.Perm (o ++ s₀)) :
    (x :: (y :: s ++ r)).Perm (o ++ y :: (s₀ ++ x :: r)) := by
  have hinner : (x :: (s ++ r)).Perm (o ++ (s₀ ++ x :: r)) :=
    calc (x :: (s ++ r)).Perm (x :: (o ++ s₀ ++ r)) := (hs.append_right r).cons x
      _ = x :: (o ++ (s₀ ++ r)) := by rw [List.append_assoc]
      List.Perm _ (o ++ x :: (s₀ ++ r)) := List.perm_middle.symm
      List.Perm _ (o ++ (s₀ ++ x :: r)) := List.perm_middle.symm.append_left o
  calc (x :: (y :: s ++ r)).Perm (y :: x :: (s ++ r)) := List.Perm.swap ..
    List.Perm _ (y :: (o ++ (s₀ ++ x :: r))) := hinner.cons y
    List.Perm _ (o ++ y :: (s₀ ++ x :: r)) := List.perm_middle.symm

/-- The blocks of the device with the quantum of one slot in front. -/
theorem footTo_slot (l₁ l₂ : List Node) (a ta : Addr) (s₁ s₂ : List (Option Quantum))
    (o : Option Quantum) :
    (footTo none (l₁ ++ ⟨a, some ⟨ta, s₁ ++ o :: s₂⟩⟩ :: l₂)).Perm
      ((o.map Quantum.entry).toList ++ (ta, Table.block ⟨ta, s₁ ++ o :: s₂⟩) ::
        (slotsFoot (s₁ ++ s₂) ++ ((a, .qset (some ta) (firstTo none l₂)) :: around none l₁ a l₂))) :=
  (footTo_split l₁ _ l₂).trans (perm_front (slotsFoot_split s₁ o s₂))

/-- The quantum at one place is another, and all the others are as they were. -/
structure Changed (nodes nodes' : List Node) (i s : ℕ) (u : Quantum) : Prop where
  here : quantumIn nodes' i s = some u
  other : ∀ j t, ¬(j = i ∧ t = s) → quantumIn nodes' j t = quantumIn nodes j t

/-- **One slot is changed** and the others are as they were. -/
theorem Holds.changeSlot {l₁ l₂ : List Node} {a ta : Addr} {s₁ s₂ : List (Option Quantum)}
    {o : Option Quantum} {u : Quantum}
    (h : Holds k (l₁ ++ ⟨a, some ⟨ta, s₁ ++ o :: s₂⟩⟩ :: l₂)) (hs : Sized k q n) (hq : Quiet k k')
    (hu : u.bytes.length = q)
    (hmem : Mem k' (u.entry :: (ta, Table.block ⟨ta, s₁ ++ some u :: s₂⟩) ::
      (slotsFoot (s₁ ++ s₂) ++ ((a, .qset (some ta) (firstTo none l₂)) :: around none l₁ a l₂)))) :
    Holds k' (l₁ ++ ⟨a, some ⟨ta, s₁ ++ some u :: s₂⟩⟩ :: l₂) ∧
      Changed (l₁ ++ ⟨a, some ⟨ta, s₁ ++ o :: s₂⟩⟩ :: l₂)
        (l₁ ++ ⟨a, some ⟨ta, s₁ ++ some u :: s₂⟩⟩ :: l₂) l₁.length s₁.length u := by
  have hold := h.shapedOf hs (List.mem_append_right _ (List.mem_cons_self ..))
  obtain ⟨hcount, hbytes⟩ := hold _ rfl
  constructor
  · refine h.replace hq rfl ?_ ?_
    · have hslot := footTo_slot l₁ l₂ a ta s₁ s₂ (some u)
      exact hmem.perm (hslot.symm.trans (footTo_split l₁ _ l₂))
    · rintro t ⟨rfl⟩
      rw [hs.quantum, hs.qset, Int.toNat_natCast, Int.toNat_natCast]
      refine ⟨by simpa using hcount, fun u' hu' => ?_⟩
      rcases List.mem_append.mp hu' with hl | hr
      · exact hbytes u' (List.mem_append_left _ hl)
      · rcases List.mem_cons.mp hr with heq | hr
        · cases heq
          exact hu
        · exact hbytes u' (List.mem_append_right _ (List.mem_cons_of_mem _ hr))
  · constructor
    · rw [quantumIn_of_get get_middle]
      simp
    · intro j t hjt
      by_cases hj : j = l₁.length
      · subst hj
        have ht : t ≠ s₁.length := fun heq => hjt ⟨rfl, heq⟩
        rw [quantumIn_of_get get_middle, quantumIn_of_get get_middle]
        show (s₁ ++ some u :: s₂)[t]?.join = (s₁ ++ o :: s₂)[t]?.join
        rw [slot_other ht]
      · exact quantumIn_other hj t

theorem quantumIn_split {u : Quantum} {s : ℕ} (h : quantumIn nodes i s = some u) :
    ∃ l₁ l₂ a ta s₁ s₂, nodes = l₁ ++ ⟨a, some ⟨ta, s₁ ++ some u :: s₂⟩⟩ :: l₂ ∧
      l₁.length = i ∧ s₁.length = s := by
  obtain ⟨t, htable, hslot⟩ := Option.bind_eq_some_iff.mp h
  obtain ⟨nd, hget, hnd⟩ := Option.bind_eq_some_iff.mp htable
  have hslot' : t.slots[s]? = some (some u) := Option.join_eq_some_iff.mp hslot
  obtain ⟨hlt, hval⟩ := List.getElem?_eq_some_iff.mp hslot'
  obtain ⟨l₁, l₂, hnodes, hl⟩ := split_at hget
  obtain ⟨s₁, o, s₂, hslots, hs⟩ := split_slot hlt
  refine ⟨l₁, l₂, nd.addr, t.addr, s₁, s₂, ?_, hl, hs⟩
  have ho : o = some u := by
    rw [← hs, hslots, List.getElem?_append_right (Nat.le_refl _), Nat.sub_self] at hslot'
    exact Option.some.inj hslot'
  obtain ⟨a, table⟩ := nd
  obtain ⟨ta, slots⟩ := t
  cases hnd
  have hslots' : slots = s₁ ++ o :: s₂ := hslots
  rw [hnodes, hslots', ho]

/-- A slot of an array is set. -/
theorem setSlot_block (ta : Addr) (s₁ s₂ : List (Option Quantum)) (o : Option Quantum) :
    Block.setSlot s₁.length (o.map Quantum.addr) (Table.block ⟨ta, s₁ ++ none :: s₂⟩)
      = some (Table.block ⟨ta, s₁ ++ o :: s₂⟩) := by
  have hin : (0 : Int) ≤ s₁.length ∧ (s₁.length : Int)
      < ((s₁ ++ none :: s₂).map (Option.map Quantum.addr)).length := by
    rw [List.length_map, List.length_append, List.length_cons]
    omega
  rw [Table.block, Block.setSlot, if_pos hin]
  simp [Table.block]

/-- **The quantum of a slot** is there, or is allocated with what the memory holds, or there is no
memory. -/
theorem quantumFor_spec {a : Addr} {t : Table} {s : ℕ} (h : Holds k nodes) (hs : Sized k q n)
    (hget : nodes[i]? = some ⟨a, some t⟩) (hslot : s < n) :
    Post (quantumFor k.dev.quantum s (some t.addr)) k fun r k' => Quiet k k' ∧
      refused k k' = r.isNone ∧ ((r = none ∧ Holds k' nodes) ∨
        ∃ nodes' u, r = some u.addr ∧ Holds k' nodes' ∧ Changed nodes nodes' i s u ∧
          ∀ old, quantumIn nodes i s = some old → u = old) := by
  have hshaped := h.shapedOf hs (List.mem_of_getElem? hget)
  obtain ⟨hcount, -⟩ := hshaped t rfl
  obtain ⟨l₁, l₂, hnodes, hlen⟩ := split_at hget
  obtain ⟨s₁, o, s₂, hslots, hlen'⟩ := split_slot (hcount ▸ hslot : s < t.slots.length)
  obtain ⟨ta, slots⟩ := t
  have hslots' : slots = s₁ ++ o :: s₂ := hslots
  subst hslots' hnodes hlen hlen'
  have hm := h.mem.perm (footTo_slot l₁ l₂ a ta s₁ s₂ o)
  have hin : quantumIn (l₁ ++ ⟨a, some ⟨ta, s₁ ++ o :: s₂⟩⟩ :: l₂) l₁.length s₁.length = o := by
    rw [quantumIn_of_get get_middle]
    simp
  have hpeek : Block.slot? s₁.length (Table.block ⟨ta, s₁ ++ o :: s₂⟩)
      = some (o.map Quantum.addr) := by
    simp [Block.slot?, Table.block]
  refine Post.bind_eq (hm.peek (List.mem_append_right _ (List.mem_cons_self ..)) hpeek) ?_
  cases o with
  | some u =>
      refine Post.pure ⟨Quiet.refl k, refused_same rfl,
        Or.inr ⟨_, u, rfl, h, ⟨hin, fun _ _ _ => rfl⟩, ?_⟩⟩
      intro old hold
      rw [hin] at hold
      exact Option.some.inj hold
  | none =>
      refine Post.bind (hm.kmalloc _) ?_
      rintro r k₁ ⟨hq₁, ⟨rfl, hm₁, hrefused⟩ | ⟨b, memory, rfl, hm₁, hgranted⟩⟩
      · refine Post.bind (hm₁.poke (setSlot_block ta s₁ s₂ none)) ?_
        rintro _ k₂ ⟨hq₂, hm₂, hc₂⟩
        have hq := hq₁.trans hq₂
        refine Post.pure ⟨hq, ?_, Or.inl ⟨rfl, h.quiet hq ?_⟩⟩
        · rw [hq₁.refused_eq hq₂, hrefused]
          rfl
        · exact hm₂.perm (footTo_slot l₁ l₂ a ta s₁ s₂ none).symm
      · have hsize : size64 k.dev.quantum = q := by
          have hq := hs.q_lt
          rw [hs.quantum, size64]
          omega
        have hpoke := setSlot_block ta s₁ s₂ (some ⟨b, (List.range q).map memory⟩)
        rw [hsize] at hm₁
        refine Post.bind ((hm₁.perm (List.Perm.swap ..)).poke hpoke) ?_
        rintro _ k₂ ⟨hq₂, hm₂, hc₂⟩
        have hq := hq₁.trans hq₂
        obtain ⟨hholds, hchanged⟩ := h.changeSlot (u := ⟨b, (List.range q).map memory⟩) hs hq
          (by simp) (hm₂.perm (List.Perm.swap ..))
        refine Post.pure ⟨hq, ?_, Or.inr ⟨_, _, rfl, hholds, hchanged, fun old hold => ?_⟩⟩
        · rw [hq₁.refused_eq hq₂, hgranted, refused_same hc₂]
          rfl
        · rw [hin] at hold
          cases hold

/-- `new` written over the bytes from `off` on. -/
def splice (bytes : List UInt8) (off : ℕ) (new : List UInt8) : List UInt8 :=
  bytes.take off ++ new ++ bytes.drop (off + new.length)

/-- **Bytes are written** to one quantum. -/
theorem setBytes_spec {u : Quantum} {s off : ℕ} {new : List UInt8} (h : Holds k nodes)
    (hs : Sized k q n) (hu : quantumIn nodes i s = some u) (hfit : off + new.length ≤ q) :
    Post (poke (Block.setBytes off new) (some u.addr)) k fun _ k' => Quiet k k' ∧
      refused k k' = false ∧ ∃ nodes', Holds k' nodes' ∧ Changed nodes nodes' i s ⟨u.addr, splice u.bytes off new⟩ := by
  obtain ⟨l₁, l₂, a, ta, s₁, s₂, rfl, rfl, rfl⟩ := quantumIn_split hu
  have hlen : u.bytes.length = q := by
    have hshaped := h.shapedOf hs (List.mem_append_right _ (List.mem_cons_self ..))
    exact (hshaped _ rfl).2 u (List.mem_append_right _ (List.mem_cons_self ..))
  have hm := h.mem.perm (footTo_slot l₁ l₂ a ta s₁ s₂ (some u))
  have hwrite : Block.setBytes off new (.quantum u.bytes) = some (.quantum (splice u.bytes off new)) := by
    rw [Block.setBytes, if_pos ⟨by omega, by omega⟩, Int.toNat_natCast]
    rfl
  refine (hm.poke hwrite).mono ?_
  rintro _ k₁ ⟨hq, hm₁, hc₁⟩
  have hsplice : (splice u.bytes off new).length = q := by
    simp only [splice, List.length_append, List.length_take, List.length_drop]
    omega
  have hblock : Table.block ⟨ta, s₁ ++ some ⟨u.addr, splice u.bytes off new⟩ :: s₂⟩
      = Table.block ⟨ta, s₁ ++ some u :: s₂⟩ := by
    simp [Table.block]
  obtain ⟨hholds, hchanged⟩ := h.changeSlot (u := ⟨u.addr, splice u.bytes off new⟩) hs hq hsplice
    (by rw [hblock]; exact hm₁)
  exact ⟨hq, refused_same hc₁, _, hholds, hchanged⟩

/-! ### `scull_read` -/

theorem Settled.sized (h : Settled k k') (hs : Sized k q n) : Sized k' q n := by
  refine ⟨?_, ?_, hs.q_pos, hs.n_pos, hs.small⟩
  · rw [h.dev]
    exact hs.quantum
  · rw [h.dev]
    exact hs.qset

/-- What `scull_follow` leaves is a device as before. -/
theorem Followed.holds {r : Option Addr} {extra : List Node} (h : Holds k nodes)
    (hf : Followed k k' nodes i r extra) : Holds k' (nodes ++ extra) where
  mem := hf.mem
  head := hf.head
  shaped := by
    intro nd hnd
    rw [hf.settled.dev]
    rcases List.mem_append.mp hnd with hl | hr
    · exact h.shaped nd hl
    · intro t ht
      rw [hf.blank nd hr] at ht
      cases ht

theorem cut_eq (hs : Sized k q n) (count pos : ℕ) :
    cut k.dev.quantum (offsOf q pos) count = moved q count pos := by
  have hq := hs.q_lt
  have ho := offsOf_lt hs.q_pos pos
  have hsize : size64 (k.dev.quantum - offsOf q pos) = q - offsOf q pos := by
    rw [hs.quantum, size64]
    omega
  rw [cut, hsize, moved]
  split <;> omega

/-- What a read returns when `u` is the quantum of its position. -/
def readResult (u : Option Quantum) (q size room count pos : ℕ) : Outcome :=
  match u with
  | none => { ret := 0, fPos := pos, out := [] }
  | some u =>
      let m := moved q (min count (size - pos)) pos
      let bytes := (u.bytes.drop (offsOf q pos)).take m
      if room < m then { ret := efault, fPos := pos, out := bytes.take room }
      else { ret := m, fPos := pos + m, out := bytes }

theorem scullRead_end {pos : ℕ} (h : k.dev.size ≤ pos) (room count : ℕ) :
    scullRead room count pos k = .ok ({ ret := 0, fPos := pos, out := [] }, k) := by
  show (if pos ≥ k.dev.size then _ else _ : Driver Outcome) k = _
  rw [if_pos h]
  rfl

/-- The quantum of a position, followed from the node `scull_follow` gave. -/
theorem quantumAt_spec {r : Option Addr} {extra : List Node} {s : ℕ} (h : Holds k nodes)
    (hs : Sized k q n) (hslot : s < n) (hf : Followed k k' nodes i r extra) :
    quantumAt r s k' = .ok ((quantumIn nodes i s).map Quantum.addr, k') := by
  have hholds := hf.holds h
  cases r with
  | none =>
      have hmissing : quantumIn nodes i s = none := by
        rw [quantumIn, List.getElem?_eq_none (hf.missing rfl)]
        rfl
      rw [hmissing]
      rfl
  | some a =>
      obtain ⟨nd, hget, rfl⟩ := hf.found a rfl
      obtain ⟨l₁, l₂, hnodes, -⟩ := split_at hget
      have hfront := hholds.front hnodes
      rw [← quantumIn_append hf.blank, quantumIn_of_get hget]
      have hdata : peek Block.data? (some nd.addr) k' = .ok (nd.table.map Table.addr, k') :=
        hfront.peek (List.mem_cons_self ..) rfl
      show (peek Block.data? (some nd.addr) >>= _) k' = _
      rw [run_bind_ok hdata]
      have hshaped := hholds.shapedOf (hf.settled.sized hs) (List.mem_of_getElem? hget)
      obtain ⟨addr, table⟩ := nd
      cases table with
      | none => rfl
      | some t =>
          have hlt : s < t.slots.length := by
            rw [(hshaped t rfl).1]
            exact hslot
          have htake : Block.slot? s t.block = some ((t.slots[s]?.join).map Quantum.addr) := by
            simp [Block.slot?, Table.block, hlt]
          refine hfront.peek (List.mem_cons_of_mem _ ?_) htake
          exact List.mem_append_left _ (List.mem_cons_self ..)

/-- Bytes of an allocated quantum. -/
theorem bytes_spec {u : Quantum} {s off m : ℕ} (h : Holds k nodes) (hs : Sized k q n)
    (hu : quantumIn nodes i s = some u) (hfit : off + m ≤ q) :
    peek (Block.bytes? off m) (some u.addr) k = .ok ((u.bytes.drop off).take m, k) := by
  obtain ⟨l₁, l₂, a, ta, s₁, s₂, rfl, rfl, rfl⟩ := quantumIn_split hu
  have hlen : u.bytes.length = q := by
    have hshaped := h.shapedOf hs (List.mem_append_right _ (List.mem_cons_self ..))
    exact (hshaped _ rfl).2 u (List.mem_append_right _ (List.mem_cons_self ..))
  have hm := h.mem.perm (footTo_slot l₁ l₂ a ta s₁ s₂ (some u))
  refine hm.peek (List.mem_append_left _ (List.mem_singleton.mpr rfl)) ?_
  rw [Block.bytes?, if_pos ⟨by omega, by omega⟩, Int.toNat_natCast]

/-- **What a read does**: it returns bytes of the quantum of its position, and at most lengthens
the list. -/
theorem scullRead_spec {pos : ℕ} (h : Holds k nodes) (hs : Sized k q n) (hpos : pos < k.dev.size)
    (room count : ℕ) :
    Post (scullRead room count pos) k fun out k' =>
      out = readResult (quantumIn nodes (itemOf q n pos) (slotOf q n pos)) q k.dev.size room count pos ∧
        Settled k k' ∧ ∃ extra, Holds k' (nodes ++ extra) ∧ ∀ nd ∈ extra, nd.table = none := by
  refine Post.get_bind ?_
  rw [if_neg (Nat.not_le_of_lt hpos)]
  have hcount : (if pos + count > k.dev.size then k.dev.size - pos else count)
      = min count (k.dev.size - pos) := by
    split <;> omega
  have hslot := slotOf_lt hs.q_pos hs.n_pos pos
  have hlocate := locate_spec hs.q_pos hs.n_pos hs.small pos k
  rw [← hs.quantum, ← hs.qset] at hlocate
  have hfollow := scullFollow_spec h (int32 (pos / (q * n) : ℕ))
  rw [rounds_item] at hfollow
  refine Post.bind_eq hlocate ?_
  dsimp only
  refine Post.bind hfollow ?_
  rintro r k₁ ⟨extra, hf⟩
  refine Post.bind_eq (quantumAt_spec h hs hslot hf) ?_
  have hholds := hf.holds h
  cases hu : quantumIn nodes (itemOf q n pos) (slotOf q n pos) with
  | none => exact Post.pure ⟨rfl, hf.settled, extra, hholds, hf.blank⟩
  | some u =>
      have hu' : quantumIn (nodes ++ extra) (itemOf q n pos) (slotOf q n pos) = some u := by
        rw [quantumIn_append hf.blank, hu]
      have hfit : offsOf q pos + moved q (min count (k.dev.size - pos)) pos ≤ q := by
        have ho := offsOf_lt hs.q_pos pos
        rw [moved]
        omega
      have hpeek := bytes_spec hholds (hf.settled.sized hs) hu' hfit
      simp only [Option.map_some, hcount]
      unfold copyOut
      rw [cut_eq hs]
      refine Post.bind_eq hpeek ?_
      simp only [readResult]
      split
      · exact Post.pure ⟨rfl, hf.settled, extra, hholds, hf.blank⟩
      · exact Post.pure ⟨rfl, hf.settled, extra, hholds, hf.blank⟩

/-! ### `scull_write` -/

theorem length_padded (buf : List UInt8) (m : ℕ) : (padded buf m).length = m := by
  simp only [padded, List.length_append, List.length_take, List.length_replicate]
  omega

/-- The kernel with another size of the device. -/
def Kernel.resized (k : Kernel) (size : ℕ) : Kernel := { k with dev := { k.dev with size := size } }

theorem Settled.resized (h : Settled k k') (size : ℕ) : Settled (k.resized size) (k'.resized size) := by
  refine ⟨?_, h.grant, h.scullQuantum, h.scullQset, h.calls⟩
  simp only [Kernel.resized]
  rw [h.dev]

/-- There was no memory for a write, and nothing is lost. -/
structure Starved (k k' : Kernel) (nodes nodes' : List Node) : Prop where
  holds : Holds k' nodes'
  settled : Settled k k'
  same : ∀ j s, quantumIn nodes' j s = quantumIn nodes j s
  refused : refused k k' = true

/-- A write has come to its quantum `u`: the old one if there was one. -/
structure Wrote (k k' : Kernel) (nodes nodes' : List Node) (i s : ℕ) (u : Quantum) (off : ℕ)
    (new : List UInt8) : Prop where
  holds : Holds k' nodes'
  settled : Settled (k.resized k'.dev.size) k'
  old : ∀ o, quantumIn nodes i s = some o → u = o
  length : u.bytes.length = k.dev.quantum.toNat
  granted : refused k k' = false
  changed : Changed nodes nodes' i s ⟨u.addr, splice u.bytes off new⟩

/-- `copy_from_user` and what follows it. -/
theorem copyIn_spec {u : Quantum} {s pos : ℕ} (place : Place) (buf : List UInt8) (h : Holds k nodes)
    (hs : Sized k q n) (hu : quantumIn nodes i s = some u) (hplace : place.qPos = offsOf q pos)
    (count : ℕ) :
    Post (copyIn k.dev.quantum place buf count pos (some u.addr)) k fun out k' => ∃ nodes',
      Wrote k k' nodes nodes' i s u (offsOf q pos) (padded buf (moved q count pos)) ∧
        if buf.length < moved q count pos then
          out = { ret := efault, fPos := pos, out := [] } ∧ k'.dev.size = k.dev.size
        else
          out = { ret := moved q count pos, fPos := pos + moved q count pos, out := [] } ∧
            k'.dev.size = max k.dev.size (pos + moved q count pos) := by
  have hfit : offsOf q pos + (padded buf (moved q count pos)).length ≤ q := by
    have ho := offsOf_lt hs.q_pos pos
    rw [length_padded, moved]
    omega
  have hlength : u.bytes.length = k.dev.quantum.toNat := by
    obtain ⟨l₁, l₂, a, ta, s₁, s₂, rfl, -, -⟩ := quantumIn_split hu
    have hshaped := h.shaped _ (List.mem_append_right _ (List.mem_cons_self ..))
    exact (hshaped _ rfl).2 u (List.mem_append_right _ (List.mem_cons_self ..))
  have hold : ∀ o, quantumIn nodes i s = some o → u = o := by
    intro o ho
    rw [hu] at ho
    exact Option.some.inj ho
  unfold copyIn
  rw [hplace, cut_eq hs]
  refine Post.bind (setBytes_spec h hs hu hfit) ?_
  rintro _ k₁ ⟨hq, hgranted, nodes', hholds, hchanged⟩
  by_cases hfault : buf.length < moved q count pos
  · rw [if_pos hfault]
    refine Post.pure ⟨nodes', ⟨hholds, hq.settled.resized _, hold, hlength, hgranted, hchanged⟩, ?_⟩
    rw [if_pos hfault]
    exact ⟨rfl, by rw [hq.dev]⟩
  · rw [if_neg hfault]
    refine Post.modify_bind (Post.pure ⟨nodes', ?_, ?_⟩)
    · rw [growTo]
      split
      · exact ⟨⟨⟨hholds.mem.owns, hholds.mem.fresh⟩, hholds.head, hholds.shaped⟩,
          hq.settled.resized _, hold, hlength, hgranted, hchanged⟩
      · exact ⟨hholds, hq.settled.resized _, hold, hlength, hgranted, hchanged⟩
    · rw [if_neg hfault, growTo, hq.dev]
      refine ⟨rfl, ?_⟩
      split
      · show pos + moved q count pos = _
        omega
      · rw [hq.dev]
        omega

/-- **What a write does**: it changes the quantum of its position and no other, from its byte on,
or finds no memory. -/
theorem scullWrite_spec {pos : ℕ} {buf : List UInt8} (h : Holds k nodes) (hs : Sized k q n)
    (count : ℕ) :
    Post (scullWrite buf count pos) k fun out k' => ∃ nodes',
      (out = noMemory pos ∧ Starved k k' nodes nodes') ∨
      ∃ u, Wrote k k' nodes nodes' (itemOf q n pos) (slotOf q n pos) u (offsOf q pos)
          (padded buf (moved q count pos)) ∧
        if buf.length < moved q count pos then
          out = { ret := efault, fPos := pos, out := [] } ∧ k'.dev.size = k.dev.size
        else
          out = { ret := moved q count pos, fPos := pos + moved q count pos, out := [] } ∧
            k'.dev.size = max k.dev.size (pos + moved q count pos) := by
  have hslot := slotOf_lt hs.q_pos hs.n_pos pos
  have hlocate := locate_spec hs.q_pos hs.n_pos hs.small pos k
  rw [← hs.quantum, ← hs.qset] at hlocate
  have hfollow := scullFollow_spec h (int32 (pos / (q * n) : ℕ))
  rw [rounds_item] at hfollow
  refine Post.get_bind (Post.bind_eq hlocate ?_)
  dsimp only
  refine Post.bind hfollow ?_
  rintro r k₁ ⟨extra, hf⟩
  have hholds₁ := hf.holds h
  have hs₁ := hf.settled.sized hs
  have hdev₁ : k₁.dev.qset = k.dev.qset ∧ k₁.dev.quantum = k.dev.quantum := by
    rw [hf.settled.dev]
    exact ⟨rfl, rfl⟩
  cases r with
  | none =>
      refine Post.pure ⟨nodes ++ extra, Or.inl ⟨rfl, hholds₁, hf.settled, ?_, hf.starved⟩⟩
      exact quantumIn_append hf.blank
  | some a =>
      obtain ⟨nd, hget, rfl⟩ := hf.found a rfl
      have harray := arrayFor_spec hholds₁ hs₁ hget
      rw [hdev₁.1] at harray
      refine Post.bind harray ?_
      rintro r k₂ ⟨hq₂, hstarved₂, ⟨rfl, hholds₂⟩ | ⟨nodes₂, t, rfl, hholds₂, hget₂, hsame₂⟩⟩
      · refine Post.pure ⟨nodes ++ extra, Or.inl ⟨rfl, hholds₂, hf.settled.trans hq₂.settled,
          quantumIn_append hf.blank, ?_⟩⟩
        rw [hf.settled.refused_eq hq₂.settled, hstarved₂]
        exact Bool.or_true _
      · have hs₂ := hq₂.settled.sized hs₁
        have hsettled₂ := hf.settled.trans hq₂.settled
        have hgranted₂ : refused k k₂ = false := by
          rw [hf.settled.refused_eq hq₂.settled, hf.starved, hstarved₂]
          rfl
        have hquantum := quantumFor_spec hholds₂ hs₂ hget₂ hslot
        rw [hq₂.dev, hdev₁.2] at hquantum
        refine Post.bind hquantum ?_
        rintro r k₃ ⟨hq₃, hstarved₃, ⟨rfl, hholds₃⟩ | ⟨nodes₃, u, rfl, hholds₃, hchanged₃, hold₃⟩⟩
        · refine Post.pure ⟨nodes₂, Or.inl ⟨rfl, hholds₃, hsettled₂.trans hq₃.settled, ?_, ?_⟩⟩
          · intro j s
            rw [hsame₂, quantumIn_append hf.blank]
          · rw [hsettled₂.refused_eq hq₃.settled, hstarved₃]
            exact Bool.or_true _
        · have hgranted₃ : refused k k₃ = false := by
            rw [hsettled₂.refused_eq hq₃.settled, hgranted₂, hstarved₃]
            rfl
          have hs₃ := hq₃.settled.sized hs₂
          have hsettled₃ := hsettled₂.trans hq₃.settled
          have hcopy := copyIn_spec ⟨int32 (pos / (q * n) : ℕ), slotOf q n pos, offsOf q pos⟩ buf
            hholds₃ hs₃ hchanged₃.here rfl count
          rw [hq₃.dev, hq₂.dev, hdev₁.2] at hcopy
          refine hcopy.mono ?_
          rintro out k₄ ⟨nodes₄, hwrote, hout⟩
          have hsize : k₁.dev.size = k.dev.size := by rw [hf.settled.dev]
          rw [hsize] at hout
          refine ⟨nodes₄, Or.inr ⟨u, ⟨hwrote.holds, ?_, ?_, ?_, ?_, hwrote.changed.here, ?_⟩, hout⟩⟩
          · exact (hsettled₃.resized k₄.dev.size).trans hwrote.settled
          · intro o ho
            refine hold₃ o ?_
            rw [hsame₂, quantumIn_append hf.blank]
            exact ho
          · have hlength := hwrote.length
            rwa [hq₃.dev, hq₂.dev, hdev₁.2] at hlength
          · have heq : refused k k₄ = (refused k k₃ || refused k₃ k₄) :=
              (hsettled₃.resized k₄.dev.size).refused_eq hwrote.settled
            rw [heq, hgranted₃, hwrote.granted]
            rfl
          · intro j s hjs
            rw [hwrote.changed.other j s hjs, hchanged₃.other j s hjs, hsame₂,
              quantumIn_append hf.blank]

end Scull
