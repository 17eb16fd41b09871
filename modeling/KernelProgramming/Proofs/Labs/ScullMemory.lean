/-
The memory of the scull device.

The blocks that hang off the device are described by a list of nodes, and `footTo` lists them.
`Mem` says that these are all the blocks there are, so that a block the driver lost sight of,
or one that two pointers lead to, cannot go with it.  Each of the primitive operations on
memory is a rule about that list; `scull_trim` then gives back every block, each once, and
`scull_follow` lengthens the list of nodes and changes nothing else.
-/
import KernelProgramming.Labs.Scull
import KernelProgramming.Lib.Alloc
import KernelProgramming.Lib.Stateful

namespace Scull

open Alloc Stateful

/-! ### What hangs off the device -/

/-- An allocated quantum. -/
structure Quantum where
  addr : Addr
  bytes : List UInt8

/-- An allocated array of pointers to quanta. -/
structure Table where
  addr : Addr
  slots : List (Option Quantum)

/-- A `struct scull_qset` of the list. -/
structure Node where
  addr : Addr
  table : Option Table

def Quantum.entry (u : Quantum) : Addr × Block := (u.addr, .quantum u.bytes)

/-- The pointers an array holds. -/
def Table.block (t : Table) : Block := .array (t.slots.map (Option.map Quantum.addr))

def slotsFoot (slots : List (Option Quantum)) : List (Addr × Block) :=
  slots.filterMap (Option.map Quantum.entry)

/-- The blocks of an array: its own and its quanta. -/
def Table.foot (t : Table) : List (Addr × Block) := (t.addr, t.block) :: slotsFoot t.slots

/-- What a node owns besides itself. -/
def tableFoot (t : Option Table) : List (Addr × Block) := t.elim [] Table.foot

/-- The pointer to the first of the nodes, where the last one's `next` is `last`. -/
def firstTo (last : Option Addr) : List Node → Option Addr
  | [] => last
  | nd :: _ => some nd.addr

/-- The block of a node. -/
def Node.block (nd : Node) (next : Option Addr) : Block := .qset (nd.table.map Table.addr) next

/-- The blocks of the nodes, where the last one's `next` is `last`. -/
def footTo (last : Option Addr) : List Node → List (Addr × Block)
  | [] => []
  | nd :: rest =>
      (nd.addr, nd.block (firstTo last rest)) :: (tableFoot nd.table ++ footTo last rest)

variable {k k' : Kernel} {l l' : List (Addr × Block)} {last : Option Addr}

theorem firstTo_append (l₁ l₂ : List Node) :
    firstTo last (l₁ ++ l₂) = firstTo (firstTo last l₂) l₁ := by
  cases l₁ with
  | nil => rfl
  | cons nd rest => rfl

theorem footTo_append (l₁ l₂ : List Node) :
    footTo last (l₁ ++ l₂) = footTo (firstTo last l₂) l₁ ++ footTo last l₂ := by
  induction l₁ with
  | nil => rfl
  | cons nd rest ih =>
      rw [List.cons_append, footTo, footTo, firstTo_append, ih, List.cons_append, List.append_assoc]

/-- What the nodes around one of them own. -/
def around (last : Option Addr) (l₁ : List Node) (a : Addr) (l₂ : List Node) :
    List (Addr × Block) :=
  footTo (some a) l₁ ++ footTo last l₂

/-- **One node brought to the front.** -/
theorem footTo_split (l₁ : List Node) (nd : Node) (l₂ : List Node) :
    (footTo last (l₁ ++ nd :: l₂)).Perm
      ((nd.addr, nd.block (firstTo last l₂)) :: (tableFoot nd.table ++ around last l₁ nd.addr l₂)) := by
  rw [footTo_append]
  show (footTo (some nd.addr) l₁ ++ ((nd.addr, nd.block (firstTo last l₂)) ::
    (tableFoot nd.table ++ footTo last l₂))).Perm _
  refine List.perm_middle.trans (List.Perm.cons _ ?_)
  rw [around, ← List.append_assoc, ← List.append_assoc]
  exact List.perm_append_comm.append_right _

/-- **One slot brought to the front.** -/
theorem slotsFoot_split (s₁ : List (Option Quantum)) (o : Option Quantum)
    (s₂ : List (Option Quantum)) :
    (slotsFoot (s₁ ++ o :: s₂)).Perm ((o.map Quantum.entry).toList ++ slotsFoot (s₁ ++ s₂)) := by
  cases o with
  | none =>
      rw [slotsFoot, slotsFoot, List.filterMap_append, List.filterMap_append,
        List.filterMap_cons_none (by rfl)]
      exact List.Perm.refl _
  | some u =>
      rw [slotsFoot, slotsFoot, List.filterMap_append, List.filterMap_append,
        List.filterMap_cons_some (b := u.entry) (by rfl)]
      exact List.perm_middle

/-! ### The primitives -/

/-- The list names every block, and the addresses to come are free. -/
structure Mem (k : Kernel) (l : List (Addr × Block)) : Prop where
  owns : Owns k.heap l
  fresh : ∀ a, k.calls ≤ a → k.heap a = none

/-- Only the memory has changed. -/
structure Quiet (k k' : Kernel) : Prop where
  dev : k'.dev = k.dev
  grant : k'.grant = k.grant
  scullQuantum : k'.scullQuantum = k.scullQuantum
  scullQset : k'.scullQset = k.scullQset
  calls : k.calls ≤ k'.calls

theorem Quiet.refl (k : Kernel) : Quiet k k := ⟨rfl, rfl, rfl, rfl, Nat.le_refl _⟩

theorem Quiet.trans {k'' : Kernel} (h : Quiet k k') (h' : Quiet k' k'') : Quiet k k'' :=
  ⟨h'.dev.trans h.dev, h'.grant.trans h.grant, h'.scullQuantum.trans h.scullQuantum,
    h'.scullQset.trans h.scullQset, Nat.le_trans h.calls h'.calls⟩

theorem refused_iff : refused k k' = true ↔ ∃ c, k.calls ≤ c ∧ c < k'.calls ∧ k.grant c = none := by
  rw [refused, List.any_eq_true]
  refine exists_congr fun c => ?_
  rw [List.mem_range, Bool.and_eq_true, decide_eq_true_eq, Option.isNone_iff_eq_none]
  exact and_left_comm

/-- Nobody has asked for memory. -/
theorem refused_same (h : k'.calls = k.calls) : refused k k' = false := by
  rw [Bool.eq_false_iff, ne_eq, refused_iff]
  rintro ⟨c, hle, hlt, -⟩
  omega

/-- **One after the other**: what was refused was refused in one of the two. -/
theorem refused_trans {k'' : Kernel} (hgrant : k'.grant = k.grant) (hcalls : k.calls ≤ k'.calls)
    (hcalls' : k'.calls ≤ k''.calls) : refused k k'' = (refused k k' || refused k' k'') := by
  rw [Bool.eq_iff_iff, Bool.or_eq_true, refused_iff, refused_iff, refused_iff, hgrant]
  constructor
  · rintro ⟨c, hle, hlt, hnone⟩
    by_cases hc : c < k'.calls
    · exact Or.inl ⟨c, hle, hc, hnone⟩
    · exact Or.inr ⟨c, by omega, hlt, hnone⟩
  · rintro (⟨c, hle, hlt, hnone⟩ | ⟨c, hle, hlt, hnone⟩)
    · exact ⟨c, hle, by omega, hnone⟩
    · exact ⟨c, by omega, hlt, hnone⟩

theorem Quiet.refused_eq {k'' : Kernel} (h : Quiet k k') (h' : Quiet k' k'') :
    refused k k'' = (refused k k' || refused k' k'') := refused_trans h.grant h.calls h'.calls

theorem Mem.perm (h : Mem k l) (hperm : l.Perm l') : Mem k l' := ⟨h.owns.perm hperm, h.fresh⟩

/-- **An allocation** is refused, or gives a block that was not there. -/
theorem Mem.kmalloc (h : Mem k l) (block : (ℕ → UInt8) → Block) :
    Post (kmalloc block) k fun r k' => Quiet k k' ∧
      ((r = none ∧ Mem k' l ∧ refused k k' = true) ∨
        ∃ a memory, r = some a ∧ Mem k' ((a, block memory) :: l) ∧ refused k k' = false) := by
  cases hgrant : k.grant k.calls with
  | none =>
      have heq : Scull.kmalloc block k = .ok (none, { k with calls := k.calls + 1 }) := by
        simp only [Scull.kmalloc, hgrant]
      refine Post.of_eq heq ⟨⟨rfl, rfl, rfl, rfl, Nat.le_succ _⟩,
        Or.inl ⟨rfl, ⟨h.owns, fun a ha => ?_⟩, ?_⟩⟩
      · exact h.fresh a (Nat.le_of_succ_le ha)
      · exact refused_iff.mpr ⟨k.calls, Nat.le_refl _, Nat.lt_succ_self _, hgrant⟩
  | some memory =>
      have heq : Scull.kmalloc block k = .ok (some k.calls, { k with
          calls := k.calls + 1
          heap := Function.update k.heap k.calls (some (block memory)) }) := by
        simp only [Scull.kmalloc, hgrant]
      refine Post.of_eq heq ⟨⟨rfl, rfl, rfl, rfl, Nat.le_succ _⟩,
        Or.inr ⟨k.calls, memory, rfl, ⟨h.owns.alloc (h.fresh _ (Nat.le_refl _)) _, fun a ha => ?_⟩, ?_⟩⟩
      · have hne : a ≠ k.calls := Nat.ne_of_gt ha
        show Function.update k.heap k.calls _ a = none
        rw [Function.update_of_ne hne]
        exact h.fresh a (Nat.le_of_succ_le ha)
      · rw [Bool.eq_false_iff, ne_eq, refused_iff]
        rintro ⟨c, hle, hlt, hnone⟩
        have hc : c = k.calls := by
          dsimp only at hlt
          omega
        rw [hc, hgrant] at hnone
        cases hnone

/-- A block that is there can be given back. -/
theorem Mem.kfree {a : Addr} {b : Block} (h : Mem k ((a, b) :: l)) :
    Post (kfree (some a)) k fun _ k' => Quiet k k' ∧ Mem k' l ∧ k'.calls = k.calls := by
  have hlive : k.heap a = some b := h.owns.get (List.mem_cons_self ..)
  have heq : Scull.kfree (some a) k
      = .ok ((), { k with heap := Function.update k.heap a none }) := by
    simp only [Scull.kfree, hlive, Option.isSome_some, if_true]
  refine Post.of_eq heq ⟨⟨rfl, rfl, rfl, rfl, Nat.le_refl _⟩, ⟨h.owns.free, fun c hc => ?_⟩, rfl⟩
  show Function.update k.heap a none c = none
  by_cases hca : c = a
  · rw [hca, Function.update_self]
  · rw [Function.update_of_ne hca]
    exact h.fresh c hc

theorem Mem.peek {α : Type} {take : Block → Option α} {a : Addr} {b : Block} {x : α} (h : Mem k l)
    (hmem : (a, b) ∈ l) (htake : take b = some x) : peek take (some a) k = .ok (x, k) := by
  have hlive : k.heap a = some b := h.owns.get hmem
  simp only [Scull.peek, Option.bind_some, hlive, htake]

theorem Mem.poke {write : Block → Option Block} {a : Addr} {b c : Block}
    (h : Mem k ((a, b) :: l)) (hwrite : write b = some c) :
    Post (poke write (some a)) k fun _ k' =>
      Quiet k k' ∧ Mem k' ((a, c) :: l) ∧ k'.calls = k.calls := by
  have hlive : k.heap a = some b := h.owns.get (List.mem_cons_self ..)
  have heq : Scull.poke write (some a) k
      = .ok ((), { k with heap := Function.update k.heap a (some c) }) := by
    simp only [Scull.poke, Option.bind_some, hlive, hwrite]
  refine Post.of_eq heq ⟨⟨rfl, rfl, rfl, rfl, Nat.le_refl _⟩, ⟨h.owns.store c, fun x hx => ?_⟩, rfl⟩
  have hxa : x ≠ a := by
    rintro rfl
    rw [h.fresh x hx] at hlive
    cases hlive
  show Function.update k.heap a (some c) x = none
  rw [Function.update_of_ne hxa]
  exact h.fresh x hx

/-! ### `scull_trim` -/

/-- The loop over an array gives back the quanta it points to from `s₁` on. -/
theorem freeSlots_spec {t : Addr} (s₂ : List (Option Quantum)) :
    ∀ (s₁ : List (Option Addr)) {k : Kernel} {l : List (Addr × Block)},
      Mem k ((t, .array (s₁ ++ s₂.map (Option.map Quantum.addr))) :: (slotsFoot s₂ ++ l)) →
      Post (freeSlots (some t) s₂.length s₁.length) k fun _ k' => Quiet k k' ∧ k'.calls = k.calls ∧
        Mem k' ((t, .array (s₁ ++ s₂.map (Option.map Quantum.addr))) :: l) := by
  induction s₂ with
  | nil =>
      intro s₁ k l h
      exact Post.pure ⟨Quiet.refl k, rfl, h⟩
  | cons o rest ih =>
      intro s₁ k l h
      have hslot : Block.slot? (s₁.length : Int)
          (.array (s₁ ++ (o :: rest).map (Option.map Quantum.addr)))
            = some (o.map Quantum.addr) := by
        simp [Block.slot?]
      have hnext : s₁ ++ (o :: rest).map (Option.map Quantum.addr)
          = (s₁ ++ [o.map Quantum.addr]) ++ rest.map (Option.map Quantum.addr) := by simp
      have hlen : ((s₁.length : Int) + 1) = ((s₁ ++ [o.map Quantum.addr]).length : Int) := by simp
      refine Post.bind_eq (h.peek (List.mem_cons_self ..) hslot) ?_
      rw [hlen]
      cases o with
      | none =>
          have h' : Mem k ((t, .array (s₁ ++ [none] ++ rest.map (Option.map Quantum.addr))) ::
              (slotsFoot rest ++ l)) := hnext ▸ h
          refine Post.bind_eq (rfl : kfree none k = .ok ((), k)) ?_
          refine (ih (s₁ ++ [none]) h').mono ?_
          rintro _ k' ⟨hq, hc, hm⟩
          exact ⟨hq, hc, hnext ▸ hm⟩
      | some u =>
          have hfront : Mem k (u.entry ::
              (t, .array (s₁ ++ (some u :: rest).map (Option.map Quantum.addr))) ::
                (slotsFoot rest ++ l)) := h.perm (List.Perm.swap ..)
          rw [hnext] at hfront
          refine Post.bind hfront.kfree ?_
          rintro _ k₁ ⟨hq₁, hm₁, hc₁⟩
          refine (ih (s₁ ++ [some u.addr]) hm₁).mono ?_
          rintro _ k' ⟨hq, hc, hm⟩
          exact ⟨hq₁.trans hq, hc.trans hc₁, hnext ▸ hm⟩

/-- The array of a node has `n` slots, and its quanta `q` bytes each. -/
def Node.Shaped (q n : ℕ) (nd : Node) : Prop :=
  ∀ t ∈ nd.table, t.slots.length = n ∧ ∀ u, some u ∈ t.slots → u.bytes.length = q

/-- What a node points to is given back, and the pointer cleared. -/
theorem freeData_spec {nd : Node} {next : Option Addr} {q : ℕ} {qset : Int}
    (hshaped : nd.Shaped q qset.toNat)
    (h : Mem k ((nd.addr, nd.block next) :: (tableFoot nd.table ++ l))) :
    Post (freeData qset (some nd.addr)) k fun _ k' =>
      Quiet k k' ∧ k'.calls = k.calls ∧ Mem k' ((nd.addr, .qset none next) :: l) := by
  refine Post.bind_eq (h.peek (List.mem_cons_self ..) rfl) ?_
  cases htable : nd.table with
  | none =>
      rw [htable] at h
      simp only [Node.block, htable] at h
      exact Post.pure ⟨Quiet.refl k, rfl, h⟩
  | some t =>
      have hlen := (hshaped t htable).1
      have harray : Mem k ((t.addr, t.block) ::
          (slotsFoot t.slots ++ ((nd.addr, nd.block next) :: l))) := by
        rw [htable] at h
        refine (h.perm (List.Perm.swap ..)).perm (List.Perm.cons _ ?_)
        exact List.perm_middle.symm
      have hslots := freeSlots_spec t.slots [] harray
      rw [hlen] at hslots
      refine Post.bind hslots ?_
      rintro _ k₁ ⟨hq₁, hc₁, hm₁⟩
      refine Post.bind hm₁.kfree ?_
      rintro _ k₂ ⟨hq₂, hm₂, hc₂⟩
      refine (hm₂.poke (c := .qset none next) rfl).mono ?_
      rintro _ k₃ ⟨hq₃, hm₃, hc₃⟩
      exact ⟨(hq₁.trans hq₂).trans hq₃, hc₃.trans (hc₂.trans hc₁), hm₃⟩

/-- **The loop of `scull_trim`** gives back every block of the list. -/
theorem trimLoop_spec {q : ℕ} {qset : Int} (nodes : List Node) :
    ∀ {k : Kernel} {fuel : ℕ}, nodes.length < fuel → (∀ nd ∈ nodes, nd.Shaped q qset.toNat) →
      Mem k (footTo none nodes) →
      Post (trimLoop qset fuel (firstTo none nodes)) k fun _ k' => Quiet k k' ∧ Mem k' [] := by
  induction nodes with
  | nil =>
      intro k fuel hfuel _ h
      cases fuel with
      | zero => exact absurd hfuel (Nat.not_lt_zero _)
      | succ fuel => exact Post.pure ⟨Quiet.refl k, h⟩
  | cons nd rest ih =>
      intro k fuel hfuel hshaped h
      cases fuel with
      | zero => exact absurd hfuel (Nat.not_lt_zero _)
      | succ fuel =>
          refine Post.bind (freeData_spec (hshaped nd (List.mem_cons_self ..)) h) ?_
          rintro _ k₁ ⟨hq₁, -, hm₁⟩
          refine Post.bind_eq (hm₁.peek (List.mem_cons_self ..) rfl) ?_
          refine Post.bind hm₁.kfree ?_
          rintro _ k₂ ⟨hq₂, hm₂, -⟩
          refine (ih (Nat.lt_of_succ_lt_succ hfuel)
            (fun nd' hmem => hshaped nd' (List.mem_cons_of_mem _ hmem)) hm₂).mono ?_
          rintro _ k₃ ⟨hq₃, hm₃⟩
          exact ⟨(hq₁.trans hq₂).trans hq₃, hm₃⟩

/-- There are not more blocks than calls of `kmalloc`. -/
theorem Mem.length_le (h : Mem k l) : l.length ≤ k.calls := by
  have hsub : l.map Prod.fst ⊆ List.range k.calls := by
    intro a ha
    obtain ⟨⟨a, b⟩, hpair, rfl⟩ := List.mem_map.mp ha
    refine List.mem_range.mpr (Nat.lt_of_not_le fun hle => ?_)
    have hlive := h.owns.get hpair
    rw [h.fresh a hle] at hlive
    cases hlive
  have hle := (List.subperm_of_subset h.owns.nodup hsub).length_le
  rwa [List.length_map, List.length_range] at hle

theorem length_le_footTo (nodes : List Node) : nodes.length ≤ (footTo last nodes).length := by
  induction nodes with
  | nil => exact Nat.le_refl _
  | cons nd rest ih =>
      simp only [footTo, List.length_cons, List.length_append]
      omega

/-- **The device and its blocks**: everything allocated hangs off `scull_device`, in arrays and
quanta of the sizes it has. -/
structure Holds (k : Kernel) (nodes : List Node) : Prop where
  mem : Mem k (footTo none nodes)
  head : k.dev.data = firstTo none nodes
  shaped : ∀ nd ∈ nodes, nd.Shaped k.dev.quantum.toNat k.dev.qset.toNat

/-- **`scull_trim`** gives back everything there is and takes the parameters over. -/
theorem scullTrim_spec {nodes : List Node} (h : Holds k nodes) :
    Post scullTrim k fun _ k' => Mem k' [] ∧ (k'.grant = k.grant ∧ k.calls ≤ k'.calls) ∧
      k'.scullQuantum = k.scullQuantum ∧ k'.scullQset = k.scullQset ∧
      k'.dev = { data := none, quantum := k.scullQuantum, qset := k.scullQset, size := 0 } := by
  have hfuel : nodes.length < k.calls + 1 := by
    have hle := @length_le_footTo none nodes
    have hle' := h.mem.length_le
    omega
  refine Post.get_bind ?_
  rw [h.head]
  refine Post.bind (trimLoop_spec nodes hfuel h.shaped h.mem) ?_
  rintro _ k₁ ⟨hq, hm⟩
  refine Post.of_modify ⟨⟨hm.owns, hm.fresh⟩, ⟨hq.grant, hq.calls⟩, hq.scullQuantum, hq.scullQset, ?_⟩
  simp only [resetDev, hq.scullQuantum, hq.scullQset]

/-! ### `scull_follow` -/

/-- Only the memory and the pointer to the list have changed. -/
structure Settled (k k' : Kernel) : Prop where
  dev : k'.dev = { k.dev with data := k'.dev.data }
  grant : k'.grant = k.grant
  scullQuantum : k'.scullQuantum = k.scullQuantum
  scullQset : k'.scullQset = k.scullQset
  calls : k.calls ≤ k'.calls

theorem Quiet.settled (h : Quiet k k') : Settled k k' :=
  ⟨by rw [h.dev], h.grant, h.scullQuantum, h.scullQset, h.calls⟩

theorem Settled.trans {k'' : Kernel} (h : Settled k k') (h' : Settled k' k'') : Settled k k'' := by
  refine ⟨?_, h'.grant.trans h.grant, h'.scullQuantum.trans h.scullQuantum,
    h'.scullQset.trans h.scullQset, Nat.le_trans h.calls h'.calls⟩
  have hdev := h'.dev
  rw [h.dev] at hdev
  exact hdev

theorem Settled.refused_eq {k'' : Kernel} (h : Settled k k') (h' : Settled k' k'') :
    refused k k'' = (refused k k' || refused k' k'') := refused_trans h.grant h.calls h'.calls

/-- A node that has just been allocated. -/
def blank (a : Addr) : Node where
  addr := a
  table := none

/-- What `scull_follow` leaves: the list is as it was, or longer by nodes without an array. -/
structure Followed (k k' : Kernel) (nodes : List Node) (i : ℕ) (r : Option Addr)
    (extra : List Node) : Prop where
  settled : Settled k k'
  mem : Mem k' (footTo none (nodes ++ extra))
  head : k'.dev.data = firstTo none (nodes ++ extra)
  blank : ∀ nd ∈ extra, nd.table = none
  /-- The pointer is to node `i`. -/
  found : ∀ a, r = some a → ∃ nd, (nodes ++ extra)[i]? = some nd ∧ nd.addr = a
  /-- There was no node `i`. -/
  missing : r = none → nodes.length ≤ i
  /-- The pointer is null when there was no memory. -/
  starved : refused k k' = r.isNone

/-- The nodes are as they were. -/
theorem Followed.same {nodes : List Node} {i : ℕ} {r : Option Addr} (hq : Settled k k')
    (h : Mem k' (footTo none nodes)) (hhead : k'.dev.data = firstTo none nodes)
    (hfound : ∀ a, r = some a → ∃ nd, nodes[i]? = some nd ∧ nd.addr = a)
    (hmissing : r = none → nodes.length ≤ i) (hrefused : refused k k' = r.isNone) :
    Followed k k' nodes i r [] where
  settled := hq
  mem := by rwa [List.append_nil]
  head := by rwa [List.append_nil]
  blank nd hmem := absurd hmem List.not_mem_nil
  found := by rwa [List.append_nil]
  missing := hmissing
  starved := hrefused

/-- One more node, and then what is done with it. -/
theorem Followed.more {k₁ : Kernel} {nodes extra : List Node} {i : ℕ} {r : Option Addr} {a : Addr}
    (hq : Settled k k₁) (hgranted : refused k k₁ = false)
    (h : Followed k₁ k' (nodes ++ [Scull.blank a]) i r extra) :
    Followed k k' nodes i r (Scull.blank a :: extra) := by
  have hassoc : nodes ++ [Scull.blank a] ++ extra = nodes ++ Scull.blank a :: extra := by simp
  refine ⟨hq.trans h.settled, hassoc ▸ h.mem, hassoc ▸ h.head, ?_, hassoc ▸ h.found, fun hr => ?_, ?_⟩
  · intro nd hmem
    rcases List.mem_cons.mp hmem with rfl | hmem
    · rfl
    · exact h.blank nd hmem
  · have hle := h.missing hr
    rw [List.length_append, List.length_singleton] at hle
    omega
  · rw [hq.refused_eq h.settled, hgranted, Bool.false_or]
    exact h.starved

/-- A node linked behind the last one. -/
theorem footTo_blank (l₁ : List Node) (nd : Node) (a : Addr) :
    ((nd.addr, nd.block (some a)) :: (a, .qset none none) ::
      (tableFoot nd.table ++ around none l₁ nd.addr [])).Perm
        (footTo none (l₁ ++ [nd] ++ [blank a])) := by
  have hsplit := @footTo_split none l₁ nd [blank a]
  rw [List.append_assoc]
  refine List.Perm.trans (List.Perm.cons _ ?_) hsplit.symm
  simp only [around, footTo, firstTo, Node.block, blank, tableFoot, Option.map_none,
    Option.elim_none, List.append_nil]
  rw [← List.append_assoc]
  exact (List.perm_append_singleton ..).symm

/-- **The loop of `scull_follow`**, from a node of the list on. -/
theorem followLoop_spec (n : ℕ) :
    ∀ {k : Kernel} (l₁ : List Node) (nd : Node) (l₂ : List Node),
      Mem k (footTo none (l₁ ++ nd :: l₂)) → k.dev.data = firstTo none (l₁ ++ nd :: l₂) →
      Post (followLoop n (some nd.addr)) k fun r k' =>
        ∃ extra, Followed k k' (l₁ ++ nd :: l₂) (l₁.length + n) r extra := by
  induction n with
  | zero =>
      intro k l₁ nd l₂ h hhead
      refine Post.pure ⟨[], Followed.same (Quiet.refl k).settled h hhead (fun a ha => ?_)
        (fun hr => ?_) (refused_same rfl)⟩
      · refine ⟨nd, ?_, Option.some.inj ha⟩
        rw [Nat.add_zero, List.getElem?_append_right (Nat.le_refl _), Nat.sub_self]
        rfl
      · cases hr
  | succ n ih =>
      intro k l₁ nd l₂ h hhead
      have hfront := h.perm (footTo_split l₁ nd l₂)
      have hlen : l₁.length + (n + 1) = (l₁ ++ [nd]).length + n := by
        rw [List.length_append, List.length_singleton]
        omega
      refine Post.bind_eq (hfront.peek (List.mem_cons_self ..) rfl) ?_
      cases l₂ with
      | cons nd₂ rest =>
          -- the next node is there
          have hassoc : l₁ ++ nd :: nd₂ :: rest = (l₁ ++ [nd]) ++ nd₂ :: rest := by simp
          rw [hassoc, hlen]
          exact ih (l₁ ++ [nd]) nd₂ rest (hassoc ▸ h) (hassoc ▸ hhead)
      | nil =>
          refine Post.bind (hfront.kmalloc _) ?_
          rintro r k₁ ⟨hq₁, ⟨rfl, hm₁, hrefused⟩ | ⟨a, memory, rfl, hm₁, hgranted⟩⟩
          · -- no memory: the `next` that was null is null again
            refine Post.bind (hm₁.poke (c := nd.block none) rfl) ?_
            rintro _ k₂ ⟨hq₂, hm₂, -⟩
            have hq := hq₁.trans hq₂
            refine Post.pure ⟨[], Followed.same hq.settled (hm₂.perm (footTo_split l₁ nd []).symm)
              (by rw [hq.dev, hhead]) (fun a ha => ?_) (fun _ => ?_) ?_⟩
            · cases ha
            · rw [List.length_append, List.length_singleton]
              omega
            · rw [hq₁.refused_eq hq₂, hrefused]
              rfl
          · -- a node of zeros is linked behind this one
            have hnew := hm₁.perm (List.Perm.swap ..)
            refine Post.bind (hnew.poke (c := nd.block (some a)) rfl) ?_
            rintro _ k₂ ⟨hq₂, hm₂, hc₂⟩
            have hq := hq₁.trans hq₂
            have hgranted₂ : refused k k₂ = false := by
              rw [hq₁.refused_eq hq₂, hgranted, refused_same hc₂]
              rfl
            have hhead₂ : k₂.dev.data = firstTo none (l₁ ++ [nd] ++ [blank a]) := by
              rw [hq.dev, hhead]
              cases l₁ with
              | nil => rfl
              | cons nd₀ rest => rfl
            refine (ih (l₁ ++ [nd]) (blank a) [] (hm₂.perm (footTo_blank l₁ nd a)) hhead₂).mono ?_
            rintro r k₃ ⟨extra, hf⟩
            rw [← hlen] at hf
            exact ⟨blank a :: extra, Followed.more hq.settled hgranted₂ hf⟩

/-- **`scull_follow`** finds node `rounds n`, or makes the list long enough for it. -/
theorem scullFollow_spec {nodes : List Node} (h : Holds k nodes) (n : Int) :
    Post (scullFollow n) k fun r k' => ∃ extra, Followed k k' nodes (rounds n) r extra := by
  refine Post.get_bind ?_
  cases nodes with
  | cons nd rest =>
      rw [h.head]
      have hloop := followLoop_spec (rounds n) [] nd rest h.mem h.head
      rw [List.length_nil, Nat.zero_add] at hloop
      exact hloop
  | nil =>
      rw [h.head]
      refine Post.bind (h.mem.kmalloc _) ?_
      rintro r k₁ ⟨hq₁, ⟨rfl, hm₁, hrefused⟩ | ⟨a, memory, rfl, hm₁, hgranted⟩⟩
      · refine Post.modify_bind (Post.pure ⟨[], Followed.same ?_ ⟨hm₁.owns, hm₁.fresh⟩ rfl
          (fun a ha => ?_) (fun _ => Nat.zero_le _) hrefused⟩)
        · exact ⟨by rw [hq₁.dev], hq₁.grant, hq₁.scullQuantum, hq₁.scullQset, hq₁.calls⟩
        · cases ha
      · refine Post.modify_bind ?_
        have hq : Settled k { k₁ with dev := { k₁.dev with data := some a } } :=
          ⟨by rw [hq₁.dev], hq₁.grant, hq₁.scullQuantum, hq₁.scullQset, hq₁.calls⟩
        have hm : Mem { k₁ with dev := { k₁.dev with data := some a } }
            (footTo none ([] ++ [blank a])) := ⟨hm₁.owns, hm₁.fresh⟩
        refine (followLoop_spec (rounds n) [] (blank a) [] hm rfl).mono ?_
        rintro r k₂ ⟨extra, hf⟩
        rw [List.length_nil, Nat.zero_add] at hf
        exact ⟨blank a :: extra, Followed.more hq hgranted hf⟩

end Scull
