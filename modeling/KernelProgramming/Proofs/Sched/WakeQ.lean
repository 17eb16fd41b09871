/-
Wake queues do what they are for.

The pointers of a queue spell out its list of tasks, between any two steps of any
number of CPUs; `wake_q.next` is not `NULL` exactly while the task is on a list.
From there the steps follow the operations on lists, and no task is woken that was
not added, none is forgotten, and none goes away while a queue still needs it.
-/
import KernelProgramming.Lib.Shares
import KernelProgramming.Sched.WakeQ

namespace WakeQ

variable {H T : Type}

/-! ### The pointers of one queue -/

/-- The chain without the marks: `WAKE_Q_TAIL` and `NULL` both end it. -/
def chain (next : T → Option (Link T)) (t : T) : Option T := (next t).join

/-- The last pointer of a chain. -/
def endSlot (l : List T) : Slot T :=
  match l.getLast? with
  | none => .first
  | some u => .next u

theorem endSlot_nil : endSlot ([] : List T) = .first := rfl

theorem endSlot_append (l : List T) (u : T) : endSlot (l ++ [u]) = .next u := by
  simp [endSlot]

/-- What the pointers of a queue say about its tasks, wherever its owner has got to. -/
inductive Linked (next : T → Option (Link T)) (head : WakeQHead T) : List T → Stage T → Prop
  | idle (phase : head.phase = .idle) : Linked next head [] .idle
  | adding {l : List T} (phase : head.phase = .adding)
      (seg : Links.Seg (chain next) head.first l none) (lastp : head.lastp = endSlot l) :
      Linked next head l .adding
  | linking {l : List T} {t : T} (phase : head.phase = .linking t)
      (seg : Links.Seg (chain next) head.first l none) (lastp : head.lastp = endSlot l)
      (tail : next t = some none) : Linked next head (l ++ [t]) .linking
  | walking {l : List T} {node : Link T} (phase : head.phase = .walking node)
      (seg : Links.Seg (chain next) node l none) : Linked next head l .walking
  | waking {l : List T} {t : T} {node : Link T} (phase : head.phase = .waking t node)
      (seg : Links.Seg (chain next) node l none) : Linked next head l (.waking t)

theorem chain_update [DecidableEq T] {next : T → Option (Link T)} (t u : T) :
    chain (Function.update next t (some (some u))) = Function.update (chain next) t (some u) := by
  funext x
  by_cases hx : x = t
  · subst hx
    simp [chain]
  · simp [chain, Function.update_of_ne hx]

/-- Only the links of the queue's own tasks matter. -/
theorem Linked.congr {next next' : T → Option (Link T)} {head : WakeQHead T} {l : List T}
    {stage : Stage T} (h : Linked next head l stage) (heq : ∀ t ∈ l, next' t = next t) :
    Linked next' head l stage := by
  have hchain : ∀ {p l₁}, (∀ t ∈ l₁, next' t = next t) → Links.Seg (chain next) p l₁ none →
      Links.Seg (chain next') p l₁ none := by
    intro p l₁ hl hseg
    refine hseg.congr fun t ht => ?_
    rw [chain, hl t ht, chain]
  cases h with
  | idle phase => exact .idle phase
  | adding phase seg lastp => exact .adding phase (hchain heq seg) lastp
  | linking phase seg lastp tail =>
      refine .linking phase (hchain (fun u hu => heq u (List.mem_append_left _ hu)) seg) lastp ?_
      rw [heq _ (List.mem_append_right _ List.mem_cons_self)]
      exact tail
  | walking phase seg => exact .walking phase (hchain heq seg)
  | waking phase seg => exact .waking phase (hchain heq seg)

theorem Linked.of_idle {next : T → Option (Link T)} {head : WakeQHead T} {l : List T}
    {stage : Stage T} (h : Linked next head l stage) (hidle : head.phase = .idle) :
    l = [] ∧ stage = .idle := by
  cases h with
  | idle => exact ⟨rfl, rfl⟩
  | adding phase | linking phase | walking phase | waking phase =>
      rw [hidle] at phase
      cases phase

theorem Linked.adding_of_phase {next : T → Option (Link T)} {head : WakeQHead T} {l : List T}
    {stage : Stage T} (h : Linked next head l stage) (hadding : head.phase = .adding) :
    stage = .adding := by
  cases h with
  | adding => rfl
  | idle phase | linking phase | walking phase | waking phase =>
      rw [hadding] at phase
      cases phase

/-! ### All queues together -/

/-- The state spells out the lists. -/
structure Repr (s : Sys H T) (q : Queues H T) : Prop where
  linked : ∀ h, Linked s.next (s.head h) (q.pending h) (q.stage h)
  marked : ∀ t, s.next t ≠ none ↔ q.Pending t
  apart : ∀ h h' t, t ∈ q.pending h → t ∈ q.pending h' → h = h'
  nodup : ∀ h, (q.pending h).Nodup
  woken : s.woken = q.woken

theorem start_repr (usage : T → Nat) : Repr (start usage : Sys H T) Queues.start where
  linked _ := .idle rfl
  marked t := by simp [start, Queues.Pending, Queues.start]
  apart _ _ _ ht := absurd ht List.not_mem_nil
  nodup _ := List.nodup_nil
  woken := rfl

section Changes

variable [DecidableEq H]

theorem Queues.pending_set (q : Queues H T) (h : H) (l : List T) (stage : Stage T) (k : H) :
    (q.set h l stage).pending k = if k = h then l else q.pending k := by
  rw [set]
  exact Function.update_apply ..

theorem Queues.stage_set (q : Queues H T) (h : H) (l : List T) (stage : Stage T) (k : H) :
    (q.set h l stage).stage k = if k = h then stage else q.stage k := by
  rw [set]
  exact Function.update_apply ..

/--
One CPU changes its own queue: it may change the links of tasks that are on no other
queue, and leave there only tasks that were on none.
-/
theorem Repr.change {s s' : Sys H T} {q : Queues H T} (hR : Repr s q) {h : H} {l : List T}
    {stage : Stage T} (hothers : ∀ k, k ≠ h → s'.head k = s.head k)
    (hlinked : Linked s'.next (s'.head h) l stage)
    (hnext : ∀ k, k ≠ h → ∀ t ∈ q.pending k, s'.next t = s.next t)
    (hmarked : ∀ t, s'.next t ≠ none ↔ t ∈ l ∨ ∃ k, k ≠ h ∧ t ∈ q.pending k)
    (hfree : ∀ t ∈ l, ∀ k, k ≠ h → t ∉ q.pending k) (hnodup : l.Nodup)
    (hwoken : s'.woken = q.woken) : Repr s' (q.set h l stage) where
  linked k := by
    rw [Queues.pending_set, Queues.stage_set]
    split
    · rename_i hk
      rw [hk]
      exact hlinked
    · rename_i hk
      rw [hothers k hk]
      exact (hR.linked k).congr (hnext k hk)
  marked t := by
    rw [hmarked t, Queues.Pending]
    constructor
    · rintro (hl | ⟨k, hk, ht⟩)
      · exact ⟨h, by rw [Queues.pending_set, if_pos rfl]; exact hl⟩
      · exact ⟨k, by rw [Queues.pending_set, if_neg hk]; exact ht⟩
    · rintro ⟨k, ht⟩
      rw [Queues.pending_set] at ht
      split at ht
      · exact .inl ht
      · rename_i hk
        exact .inr ⟨k, hk, ht⟩
  apart k k' t ht ht' := by
    rw [Queues.pending_set] at ht ht'
    split at ht <;> split at ht'
    · rename_i hk hk'
      rw [hk, hk']
    · rename_i hk hk'
      exact absurd ht' (hfree t ht k' hk')
    · rename_i hk hk'
      exact absurd ht (hfree t ht' k hk)
    · exact hR.apart k k' t ht ht'
  nodup k := by
    rw [Queues.pending_set]
    split
    · exact hnodup
    · exact hR.nodup k
  woken := hwoken

omit [DecidableEq H] in
/-- A task waits on a given queue or on another. -/
theorem Queues.pending_iff (q : Queues H T) (h : H) (t : T) :
    q.Pending t ↔ t ∈ q.pending h ∨ ∃ k, k ≠ h ∧ t ∈ q.pending k := by
  constructor
  · rintro ⟨k, ht⟩
    by_cases hk : k = h
    · subst hk
      exact .inl ht
    · exact .inr ⟨k, hk, ht⟩
  · rintro (ht | ⟨k, -, ht⟩)
    · exact ⟨h, ht⟩
    · exact ⟨k, ht⟩

/-- A step that leaves the tasks of every queue where they are. -/
theorem Repr.stay {s s' : Sys H T} {q : Queues H T} (hR : Repr s q) {h : H} {stage : Stage T}
    (hothers : ∀ k, k ≠ h → s'.head k = s.head k) (hnext : s'.next = s.next)
    (hlinked : Linked s.next (s'.head h) (q.pending h) stage) (hwoken : s'.woken = q.woken) :
    Repr s' (q.set h (q.pending h) stage) := by
  refine hR.change hothers ?_ (fun _ _ _ _ => by rw [hnext]) ?_ ?_ (hR.nodup h) hwoken
  · rw [hnext]
    exact hlinked
  · intro t
    rw [hnext, hR.marked t]
    exact q.pending_iff h t
  · intro t ht k hk hother
    exact hk (hR.apart k h t hother ht)

theorem setHead_of_ne (s : Sys H T) {h k : H} (hk : k ≠ h) (head : WakeQHead T) :
    (s.setHead h head).head k = s.head k := Function.update_of_ne hk ..

theorem setHead_self (s : Sys H T) (h : H) (head : WakeQHead T) :
    (s.setHead h head).head h = head := Function.update_self ..

theorem setHead_next (s : Sys H T) (h : H) (head : WakeQHead T) :
    (s.setHead h head).next = s.next := rfl

end Changes

theorem setNext_next [DecidableEq T] (s : Sys H T) (t : T) (link : Option (Link T)) :
    (s.setNext t link).next = Function.update s.next t link := rfl

/-! ### One step -/

variable [DecidableEq H] [DecidableEq T] {s : Sys H T} {q : Queues H T}

theorem defineWakeQ_sim (hR : Repr s q) (h : H) :
    Repr (defineWakeQ s h) (q.step (.defineWakeQ h)) := by
  have hlinked := hR.linked h
  simp only [Queues.step]
  generalize hl : q.pending h = l at hlinked
  generalize hstage : q.stage h = stage at hlinked
  cases hlinked with
  | idle phase =>
      rw [if_pos rfl, defineWakeQ, phase, ← hl]
      refine hR.stay (fun k hk => setHead_of_ne s hk _) rfl ?_ hR.woken
      rw [setHead_self, hl]
      exact .adding rfl rfl rfl
  | adding phase | linking phase | walking phase | waking phase =>
      rw [if_neg (by simp), defineWakeQ, phase]
      exact hR

theorem link_sim (hR : Repr s q) (h : H) : Repr (link s h) (q.step (.link h)) := by
  have hlinked := hR.linked h
  have hnodup := hR.nodup h
  simp only [Queues.step]
  generalize hl : q.pending h = l at hlinked hnodup
  generalize hstage : q.stage h = stage at hlinked
  cases hlinked with
  | linking phase seg lastp tail =>
      rename_i l t
      rw [if_pos rfl, link, phase]
      have hend : chain s.next t = none := by rw [chain, tail]; rfl
      rcases List.eq_nil_or_concat l with rfl | ⟨l₁, u, rfl⟩
      · simp only [lastp, endSlot_nil]
        rw [← hl]
        refine hR.stay (fun k hk => setHead_of_ne s hk _) rfl ?_ hR.woken
        rw [setHead_self, hl]
        exact .adding rfl ⟨rfl, hend⟩ rfl
      · rw [List.concat_eq_append] at seg lastp hl hnodup ⊢
        have htu : t ∉ l₁ ++ [u] := fun hmem =>
          (List.nodup_append.mp hnodup).2.2 t hmem t List.mem_cons_self rfl
        have hu : u ∈ q.pending h := by
          rw [hl]
          simp
        have hunext : s.next u ≠ none := (hR.marked u).mpr ⟨h, hu⟩
        simp only [lastp, endSlot_append]
        refine hR.change (fun k hk => setHead_of_ne _ hk _) ?_ ?_ ?_ ?_ hnodup hR.woken
        · rw [setHead_self]
          refine .adding rfl ?_ ?_
          · rw [setHead_next, setNext_next, chain_update]
            exact seg.snoc htu hend
          · rw [endSlot_append]
        · intro k hk v hv
          refine Function.update_of_ne ?_ _ _
          rintro rfl
          exact hk (hR.apart k h v hv hu)
        · intro v
          have hmark : (s.setNext u (some (some t))).next v ≠ none ↔ s.next v ≠ none := by
            by_cases hv : v = u
            · subst hv
              simp [setNext_next, hunext]
            · rw [setNext_next, Function.update_of_ne hv]
          rw [setHead_next, hmark, hR.marked v, q.pending_iff h v, hl]
        · intro v hv k hk hother
          rw [← hl] at hv
          exact hk (hR.apart k h v hother hv)
  | idle phase | adding phase | walking phase | waking phase =>
      rw [if_neg (by simp), link, phase]
      exact hR

theorem wakeQAdd_sim (hR : Repr s q) (h : H) (task : T) :
    Repr (wakeQAdd s h task) (q.step (.wakeQAdd h task)) := by
  have hlinked := hR.linked h
  have hmarked := hR.marked task
  simp only [Queues.step]
  generalize hstage : q.stage h = stage at hlinked
  generalize hl : q.pending h = l at hlinked
  cases hlinked with
  | adding phase seg lastp =>
      rw [wakeQAdd, phase]
      by_cases hsome : (s.next task).isSome = true
      · have hpending : q.Pending task := hmarked.mp (Option.isSome_iff_ne_none.mp hsome)
        have hskip : ¬(Stage.adding = (Stage.adding : Stage T) ∧ ¬q.Pending task) :=
          fun hadd => hadd.2 hpending
        rw [if_neg hskip]
        simp only [hsome, if_true]
        exact hR
      · have hfree : ¬q.Pending task := fun hpending =>
          hsome (Option.isSome_iff_ne_none.mpr (hmarked.mpr hpending))
        have hnot : ∀ k, task ∉ q.pending k := fun k ht => hfree ⟨k, ht⟩
        have hgrab : Stage.adding = (Stage.adding : Stage T) ∧ ¬q.Pending task := ⟨rfl, hfree⟩
        rw [if_pos hgrab]
        simp only [hsome, Bool.false_eq_true, if_false]
        have hself : ∀ t ∈ l, Function.update s.next task (some none) t = s.next t := by
          intro t ht
          refine Function.update_of_ne ?_ _ _
          rintro rfl
          exact hnot h (by rw [hl]; exact ht)
        refine hR.change (fun k hk => setHead_of_ne _ hk _) ?_ ?_ ?_ ?_ ?_ hR.woken
        · simp only [getTaskStruct, Sys.setPhase, setHead_self]
          refine .linking rfl ?_ lastp ?_
          · refine seg.congr fun t ht => ?_
            rw [chain, setHead_next, setNext_next, hself t ht, chain]
          · exact Function.update_self ..
        · intro k _ t ht
          refine Function.update_of_ne ?_ _ _
          rintro rfl
          exact hnot k ht
        · intro t
          by_cases ht : t = task
          · subst ht
            simp [getTaskStruct, Sys.setPhase, setHead_next, setNext_next]
          · have hsame : (getTaskStruct ((s.setNext task (some none)).setPhase h (.linking task))
                task).next t = s.next t := Function.update_of_ne ht _ _
            rw [hsame, hR.marked t, q.pending_iff h t, hl, List.mem_append, List.mem_singleton]
            simp only [ht, or_false]
        · intro t ht k hk hother
          rcases List.mem_append.mp ht with hold | hnew
          · rw [← hl] at hold
            exact hk (hR.apart k h t hother hold)
          · rw [List.mem_singleton.mp hnew] at hother
            exact hnot k hother
        · have hnodup := hR.nodup h
          rw [hl] at hnodup
          refine List.nodup_append.mpr ⟨hnodup, List.nodup_singleton task, fun t ht u hu heq => ?_⟩
          rw [List.mem_singleton.mp hu] at heq
          exact hnot h (by rw [hl, ← heq]; exact ht)
  | idle phase | linking phase | walking phase | waking phase =>
      rw [if_neg (by simp), wakeQAdd, phase]
      exact hR

theorem wakeUpQ_sim (hR : Repr s q) (h : H) : Repr (wakeUpQ s h) (q.step (.wakeUpQ h)) := by
  have hlinked := hR.linked h
  simp only [Queues.step]
  generalize hl : q.pending h = l at hlinked
  generalize hstage : q.stage h = stage at hlinked
  cases hlinked with
  | adding phase seg lastp =>
      rw [if_pos rfl, wakeUpQ, phase, ← hl]
      refine hR.stay (fun k hk => setHead_of_ne s hk _) rfl ?_ hR.woken
      rw [Sys.setPhase, setHead_self, hl]
      exact .walking rfl seg
  | idle phase | linking phase | walking phase | waking phase =>
      rw [if_neg (by simp), wakeUpQ, phase]
      exact hR

/-- **`wake_up_q` never follows a `NULL`**: what it comes to is on its own queue. -/
theorem pop_sim (hR : Repr s q) (h : H) :
    ∃ s', pop s h = some s' ∧ Repr s' (q.step (.pop h)) := by
  have hlinked := hR.linked h
  simp only [Queues.step]
  generalize hl : q.pending h = l at hlinked
  generalize hstage : q.stage h = stage at hlinked
  cases hlinked with
  | walking phase seg =>
      rename_i node
      rw [if_pos rfl, pop, phase]
      cases l with
      | nil =>
          obtain rfl : node = none := seg
          refine ⟨_, rfl, ?_⟩
          simp only
          rw [← hl]
          refine hR.stay (fun k hk => setHead_of_ne s hk _) rfl ?_ hR.woken
          rw [Sys.setPhase, setHead_self, hl]
          exact .idle rfl
      | cons t rest =>
          obtain ⟨rfl, hrest⟩ := seg
          have ht : t ∈ q.pending h := by
            rw [hl]
            exact List.mem_cons_self
          obtain ⟨node, hnext⟩ := Option.ne_none_iff_exists'.mp ((hR.marked t).mpr ⟨h, ht⟩)
          have hnodup := hR.nodup h
          rw [hl] at hnodup
          obtain ⟨hfirst, hrestNodup⟩ := List.nodup_cons.mp hnodup
          refine ⟨(s.setNext t none).setPhase h (.waking t node), ?_, ?_⟩
          · simp only [hnext, Option.map_some]
          simp only
          refine hR.change (fun k hk => setHead_of_ne _ hk _) ?_ ?_ ?_ ?_ hrestNodup hR.woken
          · rw [Sys.setPhase, setHead_self, setHead_next]
            refine .waking rfl ?_
            have hnode : chain s.next t = node := by
              rw [chain, hnext]
              rfl
            rw [hnode] at hrest
            refine hrest.congr fun u hu => ?_
            have hne : u ≠ t := fun heq => hfirst (heq ▸ hu)
            rw [chain, setNext_next, Function.update_of_ne hne, chain]
          · intro k hk u hu
            refine Function.update_of_ne ?_ _ _
            rintro rfl
            exact hk (hR.apart k h u hu ht)
          · intro u
            by_cases hu : u = t
            · subst hu
              have hothers : ¬∃ k, k ≠ h ∧ u ∈ q.pending k := by
                rintro ⟨k, hk, huk⟩
                exact hk (hR.apart k h u huk ht)
              simp [Sys.setPhase, setHead_next, setNext_next, hfirst, hothers]
            · rw [Sys.setPhase, setHead_next, setNext_next, Function.update_of_ne hu, hR.marked u,
                q.pending_iff h u, hl, List.mem_cons]
              simp only [hu, false_or]
          · intro u hu k hk hother
            refine hk (hR.apart k h u hother ?_)
            rw [hl]
            exact List.mem_cons_of_mem t hu
  | idle phase | adding phase | linking phase | waking phase =>
      refine ⟨s, by rw [pop, phase], ?_⟩
      rw [if_neg (by simp)]
      exact hR

theorem wakeUpProcess_sim (hR : Repr s q) (h : H) :
    Repr (wakeUpProcess s h) (q.step (.wakeUpProcess h)) := by
  have hlinked := hR.linked h
  simp only [Queues.step]
  generalize hl : q.pending h = l at hlinked
  generalize hstage : q.stage h = stage at hlinked
  cases hlinked with
  | waking phase seg =>
      rename_i t node
      rw [wakeUpProcess, phase]
      simp only
      have hmoved : Repr (s.setPhase h (.walking node)) (q.set h (q.pending h) .walking) := by
        refine hR.stay (fun k hk => setHead_of_ne s hk _) rfl ?_ hR.woken
        rw [Sys.setPhase, setHead_self, hl]
        exact .walking rfl seg
      rw [hl] at hmoved
      exact ⟨hmoved.linked, hmoved.marked, hmoved.apart, hmoved.nodup, by
        simp only [putTaskStruct, hR.woken]⟩
  | idle phase | adding phase | linking phase | walking phase =>
      rw [wakeUpProcess, phase]
      exact hR

/-- **Every step follows the operation on lists**, and none goes wrong. -/
theorem step_sim (hR : Repr s q) (op : Op H T) :
    ∃ s', step s op = some s' ∧ Repr s' (q.step op) := by
  cases op with
  | defineWakeQ h => exact ⟨_, rfl, defineWakeQ_sim hR h⟩
  | wakeQAdd h task => exact ⟨_, rfl, wakeQAdd_sim hR h task⟩
  | link h => exact ⟨_, rfl, link_sim hR h⟩
  | wakeUpQ h => exact ⟨_, rfl, wakeUpQ_sim hR h⟩
  | pop h => exact pop_sim hR h
  | wakeUpProcess h => exact ⟨_, rfl, wakeUpProcess_sim hR h⟩

theorem run_sim : ∀ (ops : List (Op H T)) (s : Sys H T) (q : Queues H T), Repr s q →
    ∃ s', run s ops = some s' ∧ Repr s' (ops.foldl Queues.step q) := by
  intro ops
  induction ops with
  | nil =>
      intro s q hR
      exact ⟨s, rfl, hR⟩
  | cons op rest ih =>
      intro s q hR
      obtain ⟨s₁, hfirst, hR₁⟩ := step_sim hR op
      obtain ⟨s', hrest, hR'⟩ := ih s₁ _ hR₁
      refine ⟨s', ?_, hR'⟩
      rw [run, Runs.run, hfirst]
      exact hrest

/--
**Wake queues are lists.**  Any number of CPUs may run the functions in any order, each
on a queue of its own, and be interrupted between any two steps: the pointers spell out
the lists, each task is on one of them at most, and the tasks are woken in the order of
the lists.
-/
theorem wake_queues_are_lists (usage : T → Nat) (ops : List (Op H T)) :
    ∃ s, run (start usage) ops = some s ∧ Repr s (ops.foldl Queues.step Queues.start) :=
  run_sim ops (start usage) Queues.start (start_repr usage)

/-! ### No wakeup is lost -/

/-- Since `woken` was the log, the task has been woken, or it still will be. -/
def Owed (woken : List T) (task : T) (q : Queues H T) : Prop :=
  ∃ w, q.woken = woken ++ w ∧
    (task ∈ w ∨ q.Pending task ∨ ∃ h, q.stage h = .waking task)

omit [DecidableEq T] in
/-- What a step must keep of a queue that is to wake the task. -/
theorem Owed.set {woken : List T} {task : T} (howed : Owed woken task q) {h : H} {l : List T}
    {stage : Stage T} (hpending : task ∈ q.pending h → task ∈ l ∨ stage = .waking task)
    (hwaking : q.stage h = .waking task → stage = .waking task) :
    Owed woken task (q.set h l stage) := by
  obtain ⟨w, hw, hdone | ⟨k, hk⟩ | ⟨k, hk⟩⟩ := howed
  · exact ⟨w, hw, .inl hdone⟩
  · refine ⟨w, hw, .inr ?_⟩
    by_cases hkh : k = h
    · subst hkh
      rcases hpending hk with hl | hstage
      · exact .inl ⟨k, by rw [Queues.pending_set, if_pos rfl]; exact hl⟩
      · exact .inr ⟨k, by rw [Queues.stage_set, if_pos rfl]; exact hstage⟩
    · exact .inl ⟨k, by rw [Queues.pending_set, if_neg hkh]; exact hk⟩
  · refine ⟨w, hw, .inr (.inr ⟨k, ?_⟩)⟩
    rw [Queues.stage_set]
    split
    · rename_i hkh
      subst hkh
      exact hwaking hk
    · exact hk

theorem step_owed (hR : Repr s q) {woken : List T} {task : T} (howed : Owed woken task q)
    (op : Op H T) : Owed woken task (q.step op) := by
  cases op with
  | defineWakeQ h =>
      simp only [Queues.step]
      split
      · rename_i hidle
        refine howed.set (fun ht => ?_) fun hstage => ?_
        · have hlinked := hR.linked h
          rw [hidle] at hlinked
          generalize q.pending h = l at hlinked ht
          cases hlinked with
          | idle => exact absurd ht List.not_mem_nil
        · rw [hidle] at hstage
          cases hstage
      · exact howed
  | wakeQAdd h t =>
      simp only [Queues.step]
      split
      · rename_i hadd
        refine howed.set (fun ht => .inl (List.mem_append_left _ ht)) fun hstage => ?_
        rw [hadd.1] at hstage
        cases hstage
      · exact howed
  | link h =>
      simp only [Queues.step]
      split
      · rename_i hlinking
        refine howed.set .inl fun hstage => ?_
        rw [hlinking] at hstage
        cases hstage
      · exact howed
  | wakeUpQ h =>
      simp only [Queues.step]
      split
      · rename_i hadding
        refine howed.set .inl fun hstage => ?_
        rw [hadding] at hstage
        cases hstage
      · exact howed
  | pop h =>
      simp only [Queues.step]
      split
      · rename_i hwalking
        have hnot : q.stage h = .waking task → ∀ stage : Stage T, stage = .waking task := by
          intro hstage
          rw [hwalking] at hstage
          cases hstage
        split
        · rename_i hnil
          refine howed.set (fun ht => ?_) fun hstage => hnot hstage _
          rw [hnil] at ht
          exact absurd ht List.not_mem_nil
        · rename_i t rest hcons
          refine howed.set (fun ht => ?_) fun hstage => hnot hstage _
          rw [hcons] at ht
          rcases List.mem_cons.mp ht with heq | hrest
          · exact .inr (by rw [heq])
          · exact .inl hrest
      · exact howed
  | wakeUpProcess h =>
      simp only [Queues.step]
      split
      · rename_i t hwaking
        by_cases ht : t = task
        · subst ht
          obtain ⟨w, hw, -⟩ := howed
          refine ⟨w ++ [t], ?_, .inl (List.mem_append_right _ List.mem_cons_self)⟩
          rw [hw, List.append_assoc]
        · have hkept : Owed woken task (q.set h (q.pending h) .walking) := by
            refine howed.set .inl fun hstage => ?_
            rw [hwaking] at hstage
            exact absurd (Stage.waking.inj hstage) ht
          obtain ⟨w, hw, hlater⟩ := hkept
          have hw' : q.woken = woken ++ w := hw
          refine ⟨w ++ [t], ?_, hlater.imp_left (List.mem_append_left [t])⟩
          rw [hw', List.append_assoc]
      · exact howed

theorem run_owed {woken : List T} {task : T} : ∀ (ops : List (Op H T)) (s s' : Sys H T)
    (q : Queues H T), Repr s q → Owed woken task q → run s ops = some s' →
    ∃ q', Repr s' q' ∧ Owed woken task q' := by
  intro ops
  induction ops with
  | nil =>
      intro s s' q hR howed hrun
      cases hrun
      exact ⟨q, hR, howed⟩
  | cons op rest ih =>
      intro s s' q hR howed hrun
      obtain ⟨s₁, hfirst, hrest⟩ := Runs.run_cons hrun
      obtain ⟨s₂, hsecond, hR₁⟩ := step_sim hR op
      rw [hfirst] at hsecond
      obtain rfl := Option.some.inj hsecond
      exact ih s₁ s' _ hR₁ (step_owed hR howed op) hrest

/-- A task that is added waits on a queue from then on, whoever put it there. -/
theorem pending_of_wakeQAdd {h : H} {task : T} (hadding : q.stage h = .adding) :
    (q.step (.wakeQAdd h task)).Pending task := by
  simp only [Queues.step]
  split
  · exact ⟨h, by rw [Queues.pending_set, if_pos rfl]; simp⟩
  · rename_i hnot
    by_contra hfree
    exact hnot ⟨hadding, hfree⟩

/--
**No wakeup is lost.**  A task handed to `wake_q_add` is woken afterwards, by the time
all queues have been woken up and are out of use: also when another CPU had it on its
queue already, or was about to take it off.
-/
theorem no_wakeup_lost (usage : T → Nat) (before after : List (Op H T)) (h : H) (task : T)
    {s₀ s : Sys H T} (hbefore : run (start usage) before = some s₀)
    (hadding : (s₀.head h).phase = .adding)
    (hafter : run s₀ (.wakeQAdd h task :: after) = some s)
    (hidle : ∀ k, (s.head k).phase = .idle) :
    ∃ w, s.woken = s₀.woken ++ w ∧ task ∈ w := by
  obtain ⟨s₁, hrun, hR⟩ := run_sim before (start usage) Queues.start (start_repr usage)
  rw [hbefore] at hrun
  obtain rfl := Option.some.inj hrun
  obtain ⟨s₁, hfirst, hrest⟩ := Runs.run_cons hafter
  obtain ⟨s₂, hsecond, hR₁⟩ := step_sim hR (.wakeQAdd h task)
  rw [hfirst] at hsecond
  obtain rfl := Option.some.inj hsecond
  have hstage := (hR.linked h).adding_of_phase hadding
  have hwoken : s₁.woken = s₀.woken := by
    obtain rfl := Option.some.inj hfirst
    rw [wakeQAdd, hadding]
    simp only
    split <;> rfl
  have howed : Owed s₀.woken task ((before.foldl Queues.step Queues.start).step (.wakeQAdd h task)) :=
    ⟨[], by rw [← hR₁.woken, hwoken, List.append_nil], .inr (.inl (pending_of_wakeQAdd hstage))⟩
  obtain ⟨q', hR', w, hw, hdone | ⟨k, hk⟩ | ⟨k, hk⟩⟩ := run_owed after s₁ s _ hR₁ howed hrest
  · exact ⟨w, by rw [hR'.woken, hw], hdone⟩
  · rw [((hR'.linked k).of_idle (hidle k)).1] at hk
    exact absurd hk List.not_mem_nil
  · rw [((hR'.linked k).of_idle (hidle k)).2] at hk
    cases hk

/-- Two CPUs with a queue each; the first has grabbed task 7 and not linked it in yet. -/
def grabOps : List (Op Bool Nat) :=
  [.defineWakeQ false, .defineWakeQ true, .wakeQAdd false 7]

/-- Both queues are woken up. -/
def wakeOps : List (Op Bool Nat) :=
  [.wakeUpQ true, .link false, .pop true, .wakeUpQ false, .pop false, .wakeUpProcess false,
    .pop false]

/-- The second CPU adds the task too, finds its queue empty, and still gets its wakeup. -/
theorem no_wakeup_lost_twoCpus :
    ∃ s₀ s, run (start fun _ => 1) grabOps = some s₀ ∧
      run s₀ (.wakeQAdd true 7 :: wakeOps) = some s ∧ ∃ w, s.woken = s₀.woken ++ w ∧ 7 ∈ w := by
  obtain ⟨s, hrun, -⟩ :=
    run_sim (grabOps ++ .wakeQAdd true 7 :: wakeOps) (start fun _ => 1) _ (start_repr _)
  obtain ⟨s₀, hbefore, hafter⟩ := Runs.run_append hrun
  have hadding : (run (start fun _ => 1) grabOps).all
      (fun s => decide ((s.head true).phase = .adding)) = true := by decide
  have hidle : (run (start fun _ => 1) (grabOps ++ .wakeQAdd true 7 :: wakeOps)).all
      (fun s => decide (∀ k, (s.head k).phase = .idle)) = true := by decide
  have hbefore' : run (start fun _ => 1) grabOps = some s₀ := hbefore
  rw [hbefore'] at hadding
  rw [hrun] at hidle
  exact ⟨s₀, s, hbefore, hafter, no_wakeup_lost (fun _ => 1) grabOps wakeOps true 7 hbefore
    (of_decide_eq_true hadding) hafter (of_decide_eq_true hidle)⟩

/-! ### References -/

/-- What a queue holds of the references to a task: one while it is on the list or being woken. -/
def held (q : Queues H T) (t : T) (h : H) : Int :=
  (if t ∈ q.pending h then 1 else 0) + if q.stage h = .waking t then 1 else 0

omit [DecidableEq H] in
theorem held_nonneg (q : Queues H T) (t : T) (h : H) : 0 ≤ held q t h := by
  rw [held]
  split <;> split <;> omega

theorem held_set (q : Queues H T) (h : H) (l : List T) (stage : Stage T) (t : T) :
    held (q.set h l stage) t =
      Function.update (held q t) h
        ((if t ∈ l then 1 else 0) + if stage = .waking t then 1 else 0) := by
  funext k
  rw [Function.update_apply, held, Queues.pending_set, Queues.stage_set]
  split
  · rfl
  · rfl

omit [DecidableEq T] in
theorem defineWakeQ_same (s : Sys H T) (h : H) :
    (defineWakeQ s h).usage = s.usage ∧ (defineWakeQ s h).woken = s.woken := by
  rw [defineWakeQ]
  split <;> exact ⟨rfl, rfl⟩

theorem link_same (s : Sys H T) (h : H) :
    (link s h).usage = s.usage ∧ (link s h).woken = s.woken := by
  rw [link]
  split
  · split <;> exact ⟨rfl, rfl⟩
  · exact ⟨rfl, rfl⟩

omit [DecidableEq T] in
theorem wakeUpQ_same (s : Sys H T) (h : H) :
    (wakeUpQ s h).usage = s.usage ∧ (wakeUpQ s h).woken = s.woken := by
  rw [wakeUpQ]
  split <;> exact ⟨rfl, rfl⟩

theorem pop_same {s' : Sys H T} {h : H} (hpop : pop s h = some s') :
    s'.usage = s.usage ∧ s'.woken = s.woken := by
  rw [pop] at hpop
  split at hpop
  · cases hpop
    exact ⟨rfl, rfl⟩
  · obtain ⟨node, -, rfl⟩ := Option.map_eq_some_iff.mp hpop
    exact ⟨rfl, rfl⟩
  · cases hpop
    exact ⟨rfl, rfl⟩

/-- How often an operation hands a task to `wake_q_add`. -/
def Op.adds (t : T) : Op H T → Nat
  | .wakeQAdd _ task => if task = t then 1 else 0
  | _ => 0

def adds (t : T) (ops : List (Op H T)) : Nat := (ops.map (Op.adds t)).sum

section References

variable [Fintype H] {usage : T → Nat} {added : T → Nat}

/--
Every reference beyond those there were is held by a queue, and every wakeup has given
back one that an add has taken.
-/
structure Counted (usage added : T → Nat) (s : Sys H T) (q : Queues H T) : Prop where
  refs : ∀ t, (s.usage t : Int) = usage t + ∑ h, held q t h
  paid : ∀ t, s.usage t + s.woken.count t ≤ usage t + added t

/-- A queue that changes takes or gives back the references it holds. -/
theorem sum_held_set (q : Queues H T) (h : H) (l : List T) (stage : Stage T) (t : T) :
    ∑ k, held (q.set h l stage) t k =
      ∑ k, held q t k - held q t h +
        ((if t ∈ l then 1 else 0) + if stage = .waking t then 1 else 0) := by
  rw [held_set, Shares.sum_update]

omit [DecidableEq H] in
theorem Counted.of_same (hc : Counted usage added s q) {s' : Sys H T}
    (hsame : s'.usage = s.usage ∧ s'.woken = s.woken) : Counted usage added s' q where
  refs t := by
    rw [hsame.1]
    exact hc.refs t
  paid t := by
    rw [hsame.1, hsame.2]
    exact hc.paid t

/-- A step that neither takes nor gives back a reference. -/
theorem Counted.set (hc : Counted usage added s q) {s' : Sys H T}
    (hsame : s'.usage = s.usage ∧ s'.woken = s.woken) {h : H} {l : List T} {stage : Stage T}
    (hheld : ∀ t, ((if t ∈ l then 1 else 0) + if stage = .waking t then 1 else 0 : Int) =
      held q t h) : Counted usage added s' (q.set h l stage) where
  refs t := by
    rw [hsame.1, hc.refs t, sum_held_set, hheld t]
    omega
  paid t := by
    rw [hsame.1, hsame.2]
    exact hc.paid t

/-- A step from one stage to another, neither of them waking a task. -/
theorem Counted.move (hc : Counted usage added s q) {s' : Sys H T}
    (hsame : s'.usage = s.usage ∧ s'.woken = s.woken) {h : H} {stage : Stage T}
    (hbefore : ∀ t, q.stage h ≠ .waking t) (hafter : ∀ t, stage ≠ .waking t) :
    Counted usage added s' (q.set h (q.pending h) stage) := by
  refine hc.set hsame fun t => ?_
  rw [held, if_neg (hbefore t), if_neg (hafter t)]

theorem wakeQAdd_counted (hc : Counted usage added s q) (hR : Repr s q) (h : H) (task : T) :
    Counted usage (fun t => added t + (Op.wakeQAdd h task : Op H T).adds t) (wakeQAdd s h task)
      (q.step (.wakeQAdd h task)) := by
  have hmore : Counted usage (fun t => added t + (Op.wakeQAdd h task : Op H T).adds t) s q :=
    ⟨hc.refs, fun t => (hc.paid t).trans (by omega)⟩
  simp only [Queues.step]
  split
  · rename_i hgrab
    have hphase : (s.head h).phase = .adding := by
      have hlinked := hR.linked h
      rw [hgrab.1] at hlinked
      generalize q.pending h = l at hlinked
      cases hlinked with
      | adding phase => exact phase
    have hnull : ¬(s.next task).isSome = true := fun hsome =>
      hgrab.2 ((hR.marked task).mp (Option.isSome_iff_ne_none.mp hsome))
    have hnot : task ∉ q.pending h := fun ht => hgrab.2 ⟨h, ht⟩
    rw [wakeQAdd, hphase]
    simp only [hnull, Bool.false_eq_true, if_false]
    refine ⟨fun t => ?_, fun t => ?_⟩
    · have hrefs := hc.refs t
      rw [sum_held_set, held, hgrab.1]
      by_cases ht : t = task
      · subst ht
        simp only [getTaskStruct, Function.update_self, Sys.setPhase, Sys.setHead, Sys.setNext,
          List.mem_append, List.mem_singleton, or_true, if_true, hnot, if_false]
        simp only [reduceCtorEq, if_false]
        omega
      · simp only [getTaskStruct, Function.update_of_ne ht, Sys.setPhase, Sys.setHead, Sys.setNext,
          List.mem_append, List.mem_singleton, ht, or_false]
        simp only [reduceCtorEq, if_false]
        omega
    · have hpaid := hc.paid t
      simp only [getTaskStruct, Sys.setPhase, Sys.setHead, Sys.setNext, Op.adds]
      by_cases ht : t = task
      · subst ht
        simp only [Function.update_self, if_true]
        omega
      · rw [Function.update_of_ne ht, if_neg (Ne.symm ht)]
        omega
  · rename_i hskip
    refine hmore.of_same ?_
    rw [wakeQAdd]
    split
    · rename_i hphase
      have hstage := (hR.linked h).adding_of_phase hphase
      have hpending : q.Pending task := by
        by_contra hfree
        exact hskip ⟨hstage, hfree⟩
      rw [if_pos (Option.isSome_iff_ne_none.mpr ((hR.marked task).mpr hpending))]
      exact ⟨rfl, rfl⟩
    · exact ⟨rfl, rfl⟩

theorem wakeUpProcess_counted (hc : Counted usage added s q) (hR : Repr s q) (h : H) :
    Counted usage added (wakeUpProcess s h) (q.step (.wakeUpProcess h)) := by
  have hlinked := hR.linked h
  simp only [Queues.step]
  generalize hl : q.pending h = l at hlinked
  generalize hstage : q.stage h = stage at hlinked
  cases hlinked with
  | waking phase seg =>
      rename_i task node
      rw [wakeUpProcess, phase]
      have hone : 1 ≤ held q task h := by
        rw [held, if_pos hstage]
        split <;> omega
      have hall : held q task h ≤ ∑ k, held q task k :=
        Finset.single_le_sum (fun k _ => held_nonneg q task k) (Finset.mem_univ h)
      have htask := hc.refs task
      refine ⟨fun t => ?_, fun t => ?_⟩
      · have hrefs := hc.refs t
        have hsum := sum_held_set q h l .walking t
        rw [held, hl, hstage] at hsum
        simp only [reduceCtorEq, if_false] at hsum
        by_cases ht : t = task
        · subst ht
          simp only [putTaskStruct, Function.update_self, Sys.setPhase, Sys.setHead]
          simp only [if_true] at hsum
          have hsum' : ∑ k, held { q.set h l .walking with woken := q.woken ++ [t] } t k =
              ∑ k, held (q.set h l .walking) t k := rfl
          rw [hsum', hsum]
          omega
        · simp only [putTaskStruct, Function.update_of_ne ht, Sys.setPhase, Sys.setHead]
          simp only [Stage.waking.injEq, Ne.symm ht, if_false] at hsum
          have hsum' : ∑ k, held { q.set h l .walking with woken := q.woken ++ [task] } t k =
              ∑ k, held (q.set h l .walking) t k := rfl
          rw [hsum', hsum]
          omega
      · have hpaid := hc.paid t
        simp only [putTaskStruct, Sys.setPhase, Sys.setHead, List.count_append]
        by_cases ht : t = task
        · subst ht
          rw [Function.update_self, List.count_singleton_self]
          omega
        · rw [Function.update_of_ne ht, List.count_singleton, if_neg (by simpa using Ne.symm ht)]
          omega
  | idle phase | adding phase | linking phase | walking phase =>
      rw [wakeUpProcess, phase]
      exact hc

theorem step_counted (hc : Counted usage added s q) (hR : Repr s q) {op : Op H T}
    {s' : Sys H T} (hstep : step s op = some s') :
    Counted usage (fun t => added t + op.adds t) s' (q.step op) := by
  cases op with
  | defineWakeQ h =>
      cases hstep
      simp only [Queues.step, Op.adds, Nat.add_zero]
      split
      · rename_i hidle
        have hlinked := hR.linked h
        rw [hidle] at hlinked
        have hnil : q.pending h = [] := by
          generalize q.pending h = l at hlinked
          cases hlinked with
          | idle => rfl
        rw [← hnil]
        refine hc.move (defineWakeQ_same s h) (fun t heq => ?_) fun t => by simp
        rw [hidle] at heq
        cases heq
      · exact hc.of_same (defineWakeQ_same s h)
  | wakeQAdd h task =>
      cases hstep
      exact wakeQAdd_counted hc hR h task
  | link h =>
      cases hstep
      simp only [Queues.step, Op.adds, Nat.add_zero]
      split
      · rename_i hlinking
        refine hc.move (link_same s h) (fun t heq => ?_) fun t => by simp
        rw [hlinking] at heq
        cases heq
      · exact hc.of_same (link_same s h)
  | wakeUpQ h =>
      cases hstep
      simp only [Queues.step, Op.adds, Nat.add_zero]
      split
      · rename_i hadding
        refine hc.move (wakeUpQ_same s h) (fun t heq => ?_) fun t => by simp
        rw [hadding] at heq
        cases heq
      · exact hc.of_same (wakeUpQ_same s h)
  | pop h =>
      have hsame := pop_same hstep
      simp only [Queues.step, Op.adds, Nat.add_zero]
      split
      · rename_i hwalking
        have hnodup := hR.nodup h
        split
        · rename_i hnil
          refine hc.set hsame fun t => ?_
          rw [held, hnil, hwalking]
          simp
        · rename_i u rest hcons
          rw [hcons] at hnodup
          have hfirst : u ∉ rest := (List.nodup_cons.mp hnodup).1
          refine hc.set hsame fun t => ?_
          rw [held, hcons, hwalking]
          by_cases ht : t = u
          · subst ht
            simp [hfirst]
          · simp [ht, Ne.symm ht]
      · exact hc.of_same hsame
  | wakeUpProcess h =>
      cases hstep
      exact wakeUpProcess_counted hc hR h

theorem run_counted : ∀ (ops : List (Op H T)) (s s' : Sys H T) (q : Queues H T)
    (added : T → Nat), Repr s q → Counted usage added s q → run s ops = some s' →
    ∃ q', Repr s' q' ∧ Counted usage (fun t => added t + adds t ops) s' q' := by
  intro ops
  induction ops with
  | nil =>
      intro s s' q added hR hc hrun
      cases hrun
      exact ⟨q, hR, hc.refs, hc.paid⟩
  | cons op rest ih =>
      intro s s' q added hR hc hrun
      obtain ⟨s₁, hfirst, hrest⟩ := Runs.run_cons hrun
      obtain ⟨s₂, hsecond, hR₁⟩ := step_sim hR op
      rw [hfirst] at hsecond
      obtain rfl := Option.some.inj hsecond
      obtain ⟨q', hR', hc'⟩ := ih s₁ s' _ _ hR₁ (step_counted hc hR hfirst) hrest
      refine ⟨q', hR', hc'.refs, fun t => ?_⟩
      have hpaid := hc'.paid t
      have hsplit : adds t (op :: rest) = op.adds t + adds t rest := by
        simp only [adds, List.map_cons, List.sum_cons]
      omega

omit [DecidableEq H] in
theorem start_counted (usage : T → Nat) :
    Counted usage (fun _ => 0) (start usage : Sys H T) Queues.start where
  refs t := by simp [start, Queues.start, held]
  paid t := by simp [start]

/--
**No task goes away while a queue needs it**, and no reference is kept longer.  A task
that is on a queue, or taken off and about to be woken, has a reference more than it
had; once no queue is in use the references are what they were; and no task has been
woken more often than it was added.
-/
theorem references_kept (usage : T → Nat) (ops : List (Op H T)) :
    ∃ s, run (start usage) ops = some s ∧
      (∀ t, s.next t ≠ none ∨ (∃ h node, (s.head h).phase = .waking t node) →
        usage t < s.usage t) ∧
      ((∀ h, (s.head h).phase = .idle) → s.usage = usage ∧ ∀ t, s.next t = none) ∧
      ∀ t, s.woken.count t ≤ adds t ops := by
  obtain ⟨s, hrun, -⟩ := run_sim ops (start usage) Queues.start (start_repr usage)
  obtain ⟨q, hR, hc⟩ :=
    run_counted ops (start usage) s Queues.start (fun _ => 0) (start_repr usage) (start_counted usage)
      hrun
  have hpart : ∀ t h, held q t h ≤ ∑ k, held q t k := fun t h =>
    Finset.single_le_sum (fun k _ => held_nonneg q t k) (Finset.mem_univ h)
  refine ⟨s, hrun, fun t ht => ?_, fun hidle => ?_, fun t => ?_⟩
  · have hrefs := hc.refs t
    have hone : ∃ h, 1 ≤ held q t h := by
      rcases ht with hnext | ⟨h, node, hphase⟩
      · obtain ⟨h, hmem⟩ := (hR.marked t).mp hnext
        refine ⟨h, ?_⟩
        rw [held, if_pos hmem]
        split <;> omega
      · refine ⟨h, ?_⟩
        have hstage : q.stage h = .waking t := by
          have hlinked := hR.linked h
          generalize q.pending h = l at hlinked
          generalize q.stage h = stage at hlinked
          cases hlinked with
          | waking phase =>
              rw [hphase] at phase
              cases phase
              rfl
          | idle phase | adding phase | linking phase | walking phase =>
              rw [hphase] at phase
              cases phase
        rw [held, if_pos hstage]
        split <;> omega
    obtain ⟨h, hone⟩ := hone
    have hall := hpart t h
    omega
  · have hnone : ∀ t h, held q t h = 0 := by
      intro t h
      obtain ⟨hnil, hstage⟩ := (hR.linked h).of_idle (hidle h)
      rw [held, hnil, hstage]
      simp
    constructor
    · funext t
      have hrefs := hc.refs t
      simp only [hnone, Finset.sum_const_zero] at hrefs
      omega
    · intro t
      by_contra hnext
      obtain ⟨h, hmem⟩ := (hR.marked t).mp hnext
      rw [((hR.linked h).of_idle (hidle h)).1] at hmem
      exact absurd hmem List.not_mem_nil
  · have hpaid := hc.paid t
    have hrefs := hc.refs t
    have hnonneg : 0 ≤ ∑ h, held q t h := Finset.sum_nonneg fun h _ => held_nonneg q t h
    simp only [Nat.zero_add] at hpaid
    omega

end References

end WakeQ
