import CqlDriver.Pool.OpenCount

/-! # Connections that outlive their pool -/

namespace CqlDriver.PoolLife

open Lib HostConnectionPool

/-! ## What is held -/

section Held

variable {τ : Type} {closed listed closed' listed' : Prop} {owns : τ → Bool} {tasks tasks' : List τ}

def Held (closed listed : Prop) (owns : τ → Bool) (tasks : List τ) : Prop :=
  closed ∨ listed ∨ ∃ task ∈ tasks, owns task = true

variable (h : Held closed listed owns tasks)
include h

theorem Held.mono (hcls : closed → closed') (hlst : listed → listed')
    (hts : tasks ⊆ tasks') : Held closed' listed' owns tasks' := by
  rcases h with h | h | ⟨task, ht, ho⟩
  · exact .inl (hcls h)
  · exact .inr (.inl (hlst h))
  · exact .inr (.inr ⟨task, hts ht, ho⟩)

theorem Held.eraseIdx {idx : Nat} {task : τ}
    (ht : tasks[idx]? = some task) (hf : owns task = false) : Held closed listed owns (tasks.eraseIdx idx) := by
  rcases h with hcls | hlst | ⟨x, hx, ho⟩
  · exact .inl hcls
  · exact .inr (.inl hlst)
  obtain ⟨hlt, heq⟩ := List.getElem?_eq_some_iff.mp ht
  have hmem := (List.getElem_cons_eraseIdx_perm hlt).mem_iff.mpr hx
  rw [heq, List.mem_cons] at hmem
  rcases hmem with rfl | hmem
  · rw [hf] at ho
    cases ho
  · exact .inr (.inr ⟨x, hmem, ho⟩)

end Held

/-! ## Closed connections -/

section ClosedAt

variable {conns : List PooledConn} {c : Nat}

variable {k : PooledConn → PooledConn}

theorem closedAt_modify_self (hk : ∀ conn, (k conn).isClosed) (conns : List PooledConn) (c : Nat) :
    ClosedAt (conns.modify c k) c := by
  intro conn hc
  rw [List.getElem?_modify_eq] at hc
  obtain ⟨old, -, rfl⟩ := Option.map_eq_some_iff.mp hc
  exact hk old

theorem closedAt_append (h : ClosedAt conns c) (hc : c ≠ conns.length) (new : PooledConn) :
    ClosedAt (conns ++ [new]) c := by
  intro conn hcn
  apply h
  rw [List.getElem?_append] at hcn
  split at hcn
  · exact hcn
  rw [List.getElem?_singleton] at hcn
  split at hcn
  · omega
  · cases hcn

theorem all_closed_of_held {τ : Type} {listed : Nat → Prop} {owns : Nat → τ → Bool}
    (h : ∀ c, Held (ClosedAt conns c) (listed c) (owns c) []) (hlst : ∀ c, ¬ listed c) :
    ∀ conn ∈ conns, conn.isClosed := by
  intro conn hcn
  obtain ⟨c, hc⟩ := List.mem_iff_getElem?.mp hcn
  rcases h c with hcls | hl | ⟨task, ht, -⟩
  · exact hcls conn hc
  · exact absurd hl (hlst c)
  · cases ht

end ClosedAt

/-! ## The pool -/

def Task.owns (c : Nat) : Task → Bool
  | .settingKeyspace _ c' | .adding _ c' | .closing c' _ => c' == c
  | _ => false

/-- The call that holds the lock has taken `c` out of `_connections`. -/
def Lock.owns (c : Nat) : Lock → Bool
  | .checking c' | .trashing c' | .replaced c' => c' == c
  | _ => false

def Closing.beforeTrash : Closing → Bool
  | .no | .flagged | .connections _ | .countingDown _ => true
  | _ => false

namespace HostConnectionPool

/-- Where the loops of `shutdown` will come to. -/
def listed (s : HostConnectionPool) (c : Nat) : Prop :=
  match s.closing with
  | .no | .flagged => c ∈ s.connections ∨ c ∈ s.trash
  | .connections rest | .countingDown rest => c ∈ rest ∨ c ∈ s.trash
  | .trash rest _ => c ∈ rest
  | .done => False
  | .raised => True

/-- What is open comes into a list before the loop over it, or is closed. -/
def leavesNothing (s : HostConnectionPool) (a : Oracle × Act) : Bool :=
  match a.2 with
  | .task index =>
    match s.tasks[index]? with
    | some (.settingKeyspace _ _) => a.1.raises.isNone || a.1.closes
    | some (.adding _ _) => s.closing.beforeLoops
    | _ => true
  | .holderNext =>
    match s.lock with
    | .trashing c => s.closing.beforeTrash || s.conns[c]?.all PooledConn.isClosed
    | _ => true
  | _ => true

end HostConnectionPool

/-- Connection `c` is closed, listed, or in the hand of a call. -/
def Kept (s : HostConnectionPool) (c : Nat) : Prop :=
  Held (ClosedAt s.conns c) (s.lock.owns c = true ∨ s.listed c) (Task.owns c) s.tasks

variable {s s' : HostConnectionPool} {c : Nat}

theorem Kept.mono (h : Kept s c) (hcls : ClosedAt s.conns c → ClosedAt s'.conns c)
    (hlst : s.lock.owns c ∨ s.listed c → s'.lock.owns c ∨ s'.listed c) (ht : s.tasks ⊆ s'.tasks) : Kept s' c :=
  Held.mono h hcls hlst ht

theorem kept_submit (h : Kept s c) (task : Task) : Kept (s.submit task) c :=
  h.mono id id (List.subset_append_left ..)

variable {task : Task} {d : Nat}

theorem kept_owned (ho : task.owns c) : Kept (s.submit task) c :=
  .inr (.inr ⟨task, List.mem_append_right _ List.mem_cons_self, ho⟩)

theorem Kept.submits (h : Kept s c) (hs : Submits s s') : Kept s' c := by
  obtain ⟨conns, tasks, scheduled, rfl, -, hcls⟩ := hs
  exact h.mono (hcls c) id (List.subset_append_left ..)

theorem kept_close_own (h : c ≠ d → Kept s c) : Kept (s.close d) c := by
  by_cases hc : c = d
  · rw [hc]
    exact .inl (closedAt_modify_self (fun _ => rfl) s.conns d)
  · exact (h hc).submits (submits_modConn s d fun _ _ => rfl)

theorem kept_closing (h : Kept s c) {closing : Closing} (hl : s.listed c → { s with closing }.listed c) :
    Kept { s with closing } c := h.mono id (Or.imp_right hl) fun _ => id

theorem kept_shutdown (h : Kept s c) : Kept s.shutdown c := by
  unfold shutdown
  split
  · exact h
  rename_i hno
  have hcls : s.closing = .no := by simpa [isShutdown] using hno
  exact kept_closing h (by simp [listed, hcls])

theorem kept_closeNext (h : Kept s c) : Kept s.closeNext c := by
  unfold closeNext
  split
  · exact h
  · exact h
  · exact h
  · rename_i hcls
    exact kept_closing h (by simp [listed, hcls])
  · rename_i d rest hcls
    have hd : c ≠ d → Kept { s with closing := .countingDown rest } c := fun hne =>
      kept_closing h (by simp [listed, hcls, hne])
    exact (kept_close_own hd).mono id id fun _ => id
  · rename_i rest hcls
    have hk : Kept { s with closing := .connections rest } c := kept_closing h (by simp [listed, hcls])
    exact hk.mono id id fun _ => id
  · rename_i hcls
    exact kept_closing h (by simp [listed, hcls])
  rename_i rest size hcls
  split
  · exact kept_closing h fun _ => trivial
  split
  · rename_i d rest
    have hd : c ≠ d → Kept { s with closing := .trash rest size } c := fun hne =>
      kept_closing h (by simp [listed, hcls, hne])
    exact (kept_close_own hd).mono id id fun _ => id
  · exact kept_closing h (by simp [listed, hcls])

/-! ## The steps of the calls -/

theorem kept_failed (h : Kept s c) (org : Origin) (raised : Raised) : Kept (s.failed org raised) c := by
  cases raised <;> exact kept_submit h _

theorem kept_opened (org : Origin) (h : Kept s c) :
    Kept ({ s with conns := s.conns ++ [({} : PooledConn)] }.submit (.settingKeyspace org s.conns.length)) c := by
  by_cases hnew : c = s.conns.length
  · exact kept_owned (by simp [Task.owns, hnew])
  apply kept_submit
  exact h.mono (fun hcls => closedAt_append hcls hnew _) id fun _ => id

theorem kept_added (h : c ≠ d → Kept s c) (hbef : s.closing.beforeLoops) :
    Kept { s with connections := s.connections ++ [d] } c := by
  have hlst : ∀ {x}, s.listed x ∨ x = d → ({ s with connections := s.connections ++ [d] }).listed x := by
    intro x hx
    unfold listed at hx ⊢
    cases hcls : s.closing <;> simp_all
    all_goals tauto
  by_cases hc : c = d
  · exact .inr (.inl (.inr (hlst (.inr hc))))
  · exact (h hc).mono id (Or.imp_right fun hl => hlst (.inl hl)) fun _ => id

theorem listed_erase (hne : c ≠ d) (lock : Lock) :
    s.listed c → ({ s with connections := s.connections.erase d, lock }).listed c := by
  unfold listed
  cases s.closing <;> simp [List.mem_erase_of_ne hne]

/-- The lock is taken; nothing was in the hand of its holder. -/
theorem Kept.locked (h : Kept s c) (hfree : s.lock = .free) (hcls : ClosedAt s.conns c → ClosedAt s'.conns c)
    (hlst : s.listed c → s'.listed c) (ht : s.tasks ⊆ s'.tasks) : Kept s' c := by
  refine h.mono hcls ?_ ht
  rintro (ho | hl)
  · rw [hfree] at ho
    cases ho
  · exact .inr (hlst hl)

theorem kept_maybeTrashConnection (h : Kept s c) (hfree : s.lock = .free) (d : Nat) :
    Kept (s.maybeTrashConnection d) c := by
  unfold maybeTrashConnection
  split
  · exact h.locked hfree id id fun _ => id
  · exact h

theorem kept_replace (h : Kept s c) (hfree : s.lock = .free) (d : Nat) : Kept (s.replace d) c := by
  unfold replace
  split
  · by_cases hc : c = d
    · exact .inr (.inl (.inl (by simp [Lock.owns, hc])))
    · exact h.locked hfree id (listed_erase hc _) fun _ => id
  · exact kept_submit h _

theorem listed_insert (hb : c = d → s.closing.beforeTrash) (hl : c ≠ d → s.listed c) (lock : Lock) :
    ({ s with trash := s.trash.insert d, lock }).listed c := by
  unfold listed at hl ⊢
  by_cases hc : c = d
  · have hb := hb hc
    cases hcls : s.closing <;> simp_all [Closing.beforeTrash]
  · have hl := hl hc
    cases hcls : s.closing <;> simp_all

theorem kept_holderNext (h : Kept s c)
    (ha : ∀ d, s.lock = .trashing d → s.closing.beforeTrash ∨ ClosedAt s.conns d) : Kept s.holderNext c := by
  unfold holderNext
  split <;> rename_i hlock
  · exact h
  · refine h.mono id (Or.imp_left fun ho => ?_) fun _ => id
    rw [hlock] at ho
    exact ho
  · rename_i d
    by_cases hc : c = d
    · exact .inr (.inl (.inl (by simp [Lock.owns, hc])))
    refine h.mono id (Or.imp (fun ho => ?_) (listed_erase hc _)) fun _ => id
    rw [hlock] at ho
    cases ho
  · rename_i d
    have hd : c ≠ d → Kept { s with lock := .free } c := by
      intro hne
      refine h.mono id (Or.imp_left fun ho => ?_) fun _ => id
      rw [hlock] at ho
      exact absurd (beq_iff_eq.mp ho).symm hne
    split
    · exact (kept_close_own hd).mono id id fun _ => id
    · refine h.mono id (Or.imp_left fun ho => ?_) fun _ => id
      rwa [hlock] at ho
  · rename_i d
    -- `d` is in the trash now, unless it is closed.
    by_cases hcd : c = d ∧ ClosedAt s.conns d
    · exact .inl (hcd.1 ▸ hcd.2)
    have hb : c = d → s.closing.beforeTrash := fun hc => (ha d hlock).resolve_right fun hcl => hcd ⟨hc, hcl⟩
    by_cases hc : c = d
    · exact .inr (.inl (.inr (listed_insert hb (fun hne => absurd hc hne) _)))
    refine h.mono id ?_ fun _ => id
    rintro (ho | hl)
    · rw [hlock] at ho
      exact absurd (beq_iff_eq.mp ho).symm hc
    · exact .inr (listed_insert hb (fun _ => hl) _)
  · rename_i d
    by_cases hc : c = d
    · exact kept_owned (by simp [Task.owns, hc])
    apply kept_submit
    refine h.mono id (Or.imp_left fun ho => ?_) fun _ => id
    rw [hlock] at ho
    exact absurd (beq_iff_eq.mp ho).symm hc

theorem kept_inTrash (h : Kept s c) (d : Nat) :
    Kept ({ s with trash := s.trash.erase d }.submit (.closing d false)) c := by
  by_cases hc : c = d
  · exact kept_owned (by simp [Task.owns, hc])
  apply kept_submit
  refine h.mono id (Or.imp_right ?_) fun _ => id
  unfold listed
  cases s.closing <;> simp [List.mem_erase_of_ne hc]

theorem kept_addConnIfUnderMax (o : Oracle) (h : task.owns c = false → Kept s c)
    (hcl : ∀ org d, task = .settingKeyspace org d → o.raises = none ∨ o.closes)
    (ha : ∀ org d, task = .adding org d → s.closing.beforeLoops)
    (hadd : task.adds) : Kept (s.addConnIfUnderMax o task) c := by
  cases task with
  | queued org =>
    have h := h rfl
    simp only [addConnIfUnderMax]
    split_ifs
    · exact kept_submit h _
    · exact kept_submit h _
    · exact kept_submit (h.mono id id fun _ => id) _
  | opening org =>
    have h := h rfl
    simp only [addConnIfUnderMax]
    split
    · exact kept_failed h org _
    · exact kept_opened org h
  | settingKeyspace org d =>
    have h : c ≠ d → Kept s c := fun hne => h (by simpa [Task.owns] using Ne.symm hne)
    simp only [addConnIfUnderMax]
    split
    · rename_i raised heq
      apply kept_failed
      rw [if_pos ((hcl org d rfl).resolve_left (by rw [heq]; simp))]
      exact kept_close_own h
    by_cases hc : c = d
    · exact kept_owned (by simp [Task.owns, hc])
    · exact kept_submit (h hc) _
  | adding org d =>
    have h : c ≠ d → Kept s c := fun hne => h (by simpa [Task.owns] using Ne.symm hne)
    exact kept_submit (kept_added h (ha org d rfl)) _
  | countingDown org signals =>
    have h : Kept { s with openCount := s.openCount - 1 } c := (h rfl).mono id id fun _ => id
    simp only [addConnIfUnderMax]
    split
    · exact kept_submit h _
    · exact kept_submit h _
  | _ => cases hadd

theorem kept_runTask (o : Oracle) (h : task.owns c = false → Kept s c) (hfree : task.locks → s.lock = .free)
    (hc : ∀ org d, task = .settingKeyspace org d → o.raises = none ∨ o.closes)
    (ha : ∀ org d, task = .adding org d → s.closing.beforeLoops) : Kept (s.runTask o task) c := by
  cases task with
  | shuttingDown org =>
    cases org with
    | none => exact kept_shutdown (h rfl)
    | some org => exact kept_submit (kept_shutdown (h rfl)) _
  | inTrash d =>
    simp only [runTask]
    split
    · exact kept_inTrash (h rfl) d
    · exact h rfl
  | maybeTrash d => exact kept_maybeTrashConnection (h rfl) (hfree rfl) d
  | replacing d => exact kept_replace (h rfl) (hfree rfl) d
  | closing d replace =>
    have hcl : Kept (s.close d) c := kept_close_own fun hne => h (by simpa [Task.owns] using Ne.symm hne)
    simp only [runTask]
    split
    · exact kept_submit hcl _
    · exact hcl
  | queued | opening | settingKeyspace | adding | countingDown => exact kept_addConnIfUnderMax o h hc ha rfl
  | _ => exact (h rfl).submits (submits_runTask o rfl)

theorem kept_step (s : HostConnectionPool) (a : Oracle × Act) (h : ∀ c, Kept s c) (ha : s.leavesNothing a)
    (c : Nat) : Kept (step s a) c := by
  obtain ⟨o, act⟩ := a
  cases act with
  | closeNext => exact kept_closeNext (h c)
  | holderNext =>
    refine kept_holderNext (h c) fun d hl => ?_
    simp only [leavesNothing, hl, Bool.or_eq_true] at ha
    refine ha.imp_right fun hcl conn hcn => ?_
    simpa [hcn] using hcl
  | task idx =>
    cases ht : s.tasks[idx]? with
    | none => simpa only [step, ht] using h c
    | some task =>
      simp only [step, ht]
      simp only [leavesNothing, ht] at ha
      split
      · exact h c
      rename_i hlock
      refine kept_runTask o (Held.eraseIdx (h c) ht) (fun hl => ?_) ?_ ?_
      · exact not_not.mp fun hne => hlock ⟨hl, hne⟩
      · rintro org d rfl
        simpa using ha
      rintro org d rfl
      exact ha
  | _ => exact (h c).submits (submits_step o rfl)

theorem kept_init (core maxC : Nat) (minReqs maxReqs maxId : Int) (c : Nat) :
    Kept (HostConnectionPool.init core maxC minReqs maxReqs maxId) c := by
  by_cases hc : c < core
  · exact .inr (.inl (.inr (.inl (by simpa [HostConnectionPool.init] using hc))))
  left
  intro conn hcn
  simp only [HostConnectionPool.init, List.getElem?_replicate, if_neg hc] at hcn
  cases hcn

theorem pool_all_closed (core maxC : Nat) (minReqs maxReqs maxId : Int) {acts : List (Oracle × Act)}
    (h : RunOk step (fun s a => s.leavesNothing a)
      (HostConnectionPool.init core maxC minReqs maxReqs maxId) acts)
    (hd : (run step (HostConnectionPool.init core maxC minReqs maxReqs maxId) acts).closing = .done)
    (hl : (run step (HostConnectionPool.init core maxC minReqs maxReqs maxId) acts).lock = .free)
    (ht : (run step (HostConnectionPool.init core maxC minReqs maxReqs maxId) acts).tasks = []) :
    ∀ conn ∈ (run step (HostConnectionPool.init core maxC minReqs maxReqs maxId) acts).conns, conn.isClosed := by
  have hk := run_invariant kept_step (kept_init core maxC minReqs maxReqs maxId) h
  simp only [Kept, ht] at hk
  exact all_closed_of_held hk fun c => by simp [listed, Lock.owns, hd, hl]

end CqlDriver.PoolLife
