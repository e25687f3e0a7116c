import CqlDriver.Pool.Life

/-! # `open_count` -/

namespace CqlDriver.PoolLife

open Lib HostConnectionPool Closing

def Task.holds : Task → Bool
  | .opening _ | .settingKeyspace _ _ | .adding _ _ | .countingDown _ _ => true
  | _ => false

/-- It is on its way to a new connection. -/
def Task.adds : Task → Bool
  | .queued _ => true
  | task => task.holds

def Task.opens : Task → Bool
  | .opening _ | .settingKeyspace _ _ => true
  | _ => false

def Closing.beforeLoops : Closing → Bool
  | .no | .flagged => true
  | _ => false

/-- How often the loops will still count down. -/
def Closing.toClose : Closing → Nat
  | .connections rest => rest.length
  | .countingDown rest => rest.length + 1
  | _ => 0

/-- A connection that is in `_connections` is not counted any more. -/
def Lock.ahead : Lock → Int
  | .removing _ => 1
  | _ => 0

/-- A connection that is out of `_connections` is still counted. -/
def Lock.behind : Lock → Int
  | .replaced _ => 1
  | _ => 0

/-- What is found in `_connections` stays there while the lock is held. -/
def Lock.found : Lock → Option Nat
  | .counting c | .removing c => some c
  | _ => none

namespace HostConnectionPool

def held (s : HostConnectionPool) : Nat := s.tasks.countP Task.holds

/-- What is raised counts down again, and nothing is taken out while the loops of `shutdown` run. -/
def accountable (s : HostConnectionPool) (a : Oracle × Act) : Bool :=
  match a.2 with
  | .task index =>
    match s.tasks[index]? with
    | some (.opening _) | some (.settingKeyspace _ _) => a.1.raises ≠ some .other
    | some (.replacing c) => s.closing.beforeLoops || c ∉ s.connections
    | _ => true
  | .closeNext => s.closing ≠ .flagged || s.lock.ahead = 0
  | .holderNext =>
    match s.lock with
    | .counting _ => s.closing.beforeLoops
    | _ => true
  | _ => true

end HostConnectionPool

/-! ## Steps that only submit tasks -/

def ClosedAt (conns : List PooledConn) (c : Nat) : Prop := ∀ conn, conns[c]? = some conn → conn.isClosed = true

theorem closedAt_modify {conns : List PooledConn} {c : Nat} {k : PooledConn → PooledConn}
    (hk : ∀ conn, conn.isClosed → (k conn).isClosed) (d : Nat)
    (h : ClosedAt conns c) : ClosedAt (conns.modify d k) c := by
  intro conn hc
  rw [List.getElem?_modify] at hc
  obtain ⟨old, hget, rfl⟩ := Option.map_eq_some_iff.mp hc
  split
  · exact hk old (h old hget)
  · exact h old hget

/-- No list or count of the pool is changed, and no task is submitted that holds a count. -/
def Submits (s s' : HostConnectionPool) : Prop :=
  ∃ conns tasks scheduledForCreation, s' = { s with conns, scheduledForCreation, tasks := s.tasks ++ tasks } ∧
    (∀ task ∈ tasks, task.holds = false) ∧ ∀ c, ClosedAt s.conns c → ClosedAt conns c

variable {s s' : HostConnectionPool} {k : Int} {task : Task} {c : Nat}

theorem submits_refl (s : HostConnectionPool) : Submits s s := ⟨_, [], _, by rw [List.append_nil], by simp, fun _ => id⟩

theorem submits_modConn (s : HostConnectionPool) (d : Nat) {k : PooledConn → PooledConn}
    (hk : ∀ conn, conn.isClosed → (k conn).isClosed) : Submits s (s.modConn d k) :=
  ⟨_, [], _, by rw [List.append_nil]; rfl, by simp, fun _ => closedAt_modify hk d⟩

theorem Submits.submit (h : Submits s s') (hh : task.holds = false) : Submits s (s'.submit task) := by
  obtain ⟨conns, tasks, scheduled, rfl, hts, hcls⟩ := h
  refine ⟨conns, tasks ++ [task], scheduled, ?_, ?_, hcls⟩
  · rw [← List.append_assoc]
    rfl
  · simpa [or_imp, forall_and, hh] using hts

def Task.plain : Task → Bool
  | .signalingFailure _ | .ending _ _ | .returning _ _ | .lookingUp _ _ | .measuring _ _ | .signaling _ | .ensuringCore
  | .picking | .borrowing _ | .borrowed _ | .filling | .spawning => true
  | _ => false

theorem submits_runTask (o : Oracle) (hp : task.plain) : Submits s (s.runTask o task) := by
  have hs := submits_refl s
  cases task with
  | signalingFailure org | lookingUp c fl | picking =>
    simp only [runTask, addConnIfUnderMax]
    split <;> exact hs.submit rfl
  | ending org replaced =>
    cases org with
    | createNewConnection => exact ⟨_, [], _, by rw [List.append_nil]; rfl, by simp, fun _ => id⟩
    | retryingReplace =>
      simp only [runTask, addConnIfUnderMax]
      split
      · exact hs
      · exact hs.submit rfl
  | returning c fl =>
    simp only [runTask, returnConnection]
    split
    · exact hs
    split_ifs
    · exact hs
    · exact hs.submit rfl
    · exact hs.submit rfl
  | signaling c =>
    simp only [runTask]
    split <;> exact .submit (submits_modConn s c fun _ h => h) rfl
  | measuring c fl | borrowed c | filling =>
    simp only [runTask]
    split
    · exact hs.submit rfl
    · exact hs
  | ensuringCore => exact ⟨_, _, _, rfl, by simp [Task.holds], fun _ => id⟩
  | borrowing c =>
    simp only [runTask]
    split
    · exact .submit (submits_modConn s c fun _ h => h) rfl
    · exact hs
  | spawning =>
    simp only [runTask, maybeSpawnNewConnection]
    split_ifs
    · exact hs
    · exact hs
    · exact ⟨_, _, _, rfl, by simp [Task.holds], fun _ => id⟩
  | _ => cases hp

def Act.begins : Act → Bool
  | .closeNext | .holderNext | .task _ => false
  | _ => true

/-- A call that begins only submits a task. -/
theorem submits_step (o : Oracle) {act : Act} (hb : act.begins) : Submits s (step s (o, act)) := by
  have hs := submits_refl s
  cases act with
  | borrowConnection | ensureCoreConnections =>
    simp only [step]
    split
    · exact hs
    · exact hs.submit rfl
  | returnConnection c => exact .submit (submits_modConn s c fun _ h => h) rfl
  | maybeTrashConnection c | replace c | retryingReplace | createNewConnection | shutdown => exact hs.submit rfl
  | closeNext | holderNext | task idx => cases hb
  | defunct c =>
    refine submits_modConn s c fun conn hcls => ?_
    simp [hcls]
  | close c => exact submits_modConn s c fun _ _ => rfl

/-! ## The count -/

/-- The count, with `k` counts of calls that are not among the tasks. -/
structure Counted (k : Int) (s : HostConnectionPool) : Prop where
  before : s.closing.beforeLoops = true →
    s.openCount + s.lock.ahead = s.connections.length + s.held + k + s.lock.behind
  least : s.closing.toClose + s.held + k + s.lock.behind ≤ s.openCount + s.lock.ahead
  found : ∀ c, s.lock.found = some c → c ∈ s.connections
  early : s.lock.ahead ≠ 0 → s.closing.beforeLoops = true

theorem toClose_of_beforeLoops (h : s.closing.beforeLoops) : s.closing.toClose = 0 := by
  cases hc : s.closing <;> simp_all [beforeLoops, toClose]

/-- Only the number of tasks that hold a count matters. -/
theorem Counted.congr {k' : Int} (h : Counted k s) (tasks : List Task)
    (hh : (tasks.countP Task.holds : Int) + k' = s.held + k) : Counted k' { s with tasks } where
  before hb := by
    have heq := h.before hb
    simp only [held]
    omega
  least := by
    have hl := h.least
    simp only [held]
    omega
  found := h.found
  early := h.early

theorem counted_submit (h : Counted (k + if task.holds then 1 else 0) s) : Counted k (s.submit task) := by
  refine h.congr _ ?_
  rw [List.countP_append, List.countP_singleton, held]
  split_ifs <;> push_cast <;> omega

theorem counted_plainSubmit (hh : task.holds = false) (h : Counted k s) : Counted k (s.submit task) :=
  counted_submit (by simpa [hh] using h)

theorem counted_eraseIdx {idx : Nat} (ht : s.tasks[idx]? = some task) (h : Counted k s) :
    Counted (k + if task.holds then 1 else 0) { s with tasks := s.tasks.eraseIdx idx } := by
  obtain ⟨hlt, rfl⟩ := List.getElem?_eq_some_iff.mp ht
  have hh := (List.getElem_cons_eraseIdx_perm hlt).countP_eq Task.holds
  rw [List.countP_cons] at hh
  refine h.congr _ ?_
  unfold held
  split_ifs at hh ⊢ <;> omega

theorem counted_conns (conns : List PooledConn) (h : Counted k s) : Counted k { s with conns } :=
  ⟨h.before, h.least, h.found, h.early⟩

theorem Counted.submits (h : Counted k s) (hs : Submits s s') : Counted k s' := by
  obtain ⟨conns, tasks, scheduled, rfl, hh, -⟩ := hs
  have hc : Counted k { s with conns, scheduledForCreation := scheduled } := ⟨h.before, h.least, h.found, h.early⟩
  refine hc.congr _ ?_
  have hz : tasks.countP Task.holds = 0 := List.countP_eq_zero.mpr fun task ht => by simp [hh task ht]
  rw [List.countP_append, hz]
  rfl

theorem counted_shutdown (h : Counted k s) : Counted k s.shutdown := by
  unfold shutdown
  split
  · exact h
  rename_i hno
  have hcls : s.closing = .no := by simpa [isShutdown] using hno
  obtain ⟨hbef, hl, hf, he⟩ := h
  rw [hcls] at hbef hl he
  exact ⟨fun _ => hbef rfl, hl, hf, fun _ => rfl⟩

theorem counted_closeNext (h : Counted k s) (ho : s.closing = .flagged → s.lock.ahead = 0) : Counted k s.closeNext := by
  obtain ⟨hbef, hl, hf, he⟩ := h
  -- Once the loops have begun, only `least` says something.
  have hloop : ∀ (conns : List PooledConn) openCount closing, s.closing.beforeLoops = false →
      s.openCount - openCount = s.closing.toClose - (closing.toClose : Int) →
      Closing.beforeLoops closing = false → Counted k { s with conns, openCount, closing } := by
    intro conns openCount closing hb hc hb'
    refine ⟨fun h => ?_, ?_, hf, fun h => ?_⟩
    · rw [hb'] at h
      cases h
    · simp only [held] at hl ⊢
      omega
    · rw [he h] at hb
      cases hb
  unfold closeNext
  split <;> rename_i hcls
  · exact ⟨hbef, hl, hf, he⟩
  · exact ⟨hbef, hl, hf, he⟩
  · exact ⟨hbef, hl, hf, he⟩
  · have heq := hbef (by rw [hcls]; rfl)
    have hz := ho hcls
    refine ⟨fun hb => by simp [beforeLoops] at hb, ?_, hf, fun h => absurd hz h⟩
    simp only [held, toClose] at heq ⊢
    omega
  · exact hloop _ s.openCount _ (by rw [hcls]; rfl) (by simp [hcls, toClose]) rfl
  · refine hloop _ (s.openCount - 1) _ (by rw [hcls]; rfl) ?_ rfl
    simp only [hcls, toClose]
    omega
  · exact hloop _ s.openCount _ (by rw [hcls]; rfl) (by simp [hcls, toClose]) rfl
  split
  · exact hloop _ s.openCount _ (by rw [hcls]; rfl) (by simp [hcls, toClose]) rfl
  · split <;> exact hloop _ s.openCount _ (by rw [hcls]; rfl) (by simp [hcls, toClose]) rfl

theorem counted_failed (org : Origin) {raised : Raised} (hrsd : raised ≠ .other) (h : Counted (k + 1) s) :
    Counted k (s.failed org raised) := by
  cases raised with
  | connectionException | authenticationFailed => exact counted_submit (by simpa [Task.holds] using h)
  | other => exact absurd rfl hrsd

/-- `open_count` and the counts that are held change together. -/
theorem counted_openCount (h : Counted k s) (n : Int) : Counted (k + n) { s with openCount := s.openCount + n } where
  before hb := by
    have heq := h.before hb
    simp only [held] at heq ⊢
    omega
  least := by
    have hl := h.least
    simp only [held] at hl ⊢
    omega
  found := h.found
  early := h.early

theorem counted_down (h : Counted (k + 1) s) : Counted k { s with openCount := s.openCount - 1 } := by
  have hd := counted_openCount h (-1)
  rwa [Int.add_neg_cancel_right, ← Int.sub_eq_add_neg] at hd

theorem counted_add (c : Nat) (h : Counted (k + 1) s) : Counted k { s with connections := s.connections ++ [c] } where
  before hb := by
    have heq := h.before hb
    simp only [held, List.length_append, List.length_singleton] at heq ⊢
    omega
  least := by
    have hl := h.least
    simp only [held] at hl ⊢
    omega
  found d hd := List.mem_append_left _ (h.found d hd)
  early := h.early

theorem counted_addConnIfUnderMax (o : Oracle) (h : Counted (k + if task.holds then 1 else 0) s)
    (hrsd : task.opens → o.raises ≠ some .other) (hadd : task.adds) : Counted k (s.addConnIfUnderMax o task) := by
  cases task with
  | queued org =>
    simp only [Task.holds, Bool.false_eq_true, if_false, Int.add_zero] at h
    simp only [addConnIfUnderMax]
    split_ifs with hs hmax
    · exact counted_plainSubmit rfl h
    · exact counted_plainSubmit rfl h
    · exact counted_submit (counted_openCount h 1)
  | opening org =>
    simp only [addConnIfUnderMax]
    split
    · rename_i raised heq
      exact counted_failed org (fun ho => hrsd rfl (by rw [heq, ho])) h
    · exact counted_submit (counted_conns _ h)
  | settingKeyspace org c =>
    simp only [addConnIfUnderMax]
    split
    · rename_i raised heq
      refine counted_failed org (fun ho => hrsd rfl (by rw [heq, ho])) ?_
      split
      · exact counted_conns _ h
      · exact h
    · exact counted_submit h
  | adding org c => exact counted_plainSubmit rfl (counted_add c h)
  | countingDown org signals =>
    simp only [addConnIfUnderMax]
    split <;> exact counted_plainSubmit rfl (counted_down h)
  | _ => cases hadd

section

variable (h : Counted k s)
include h

theorem counted_maybeTrashConnection (hfree : s.lock = .free) : Counted k (s.maybeTrashConnection c) := by
  unfold maybeTrashConnection
  split
  · rename_i hmem
    obtain ⟨hbef, hl, -, -⟩ := h
    rw [hfree] at hbef hl
    refine ⟨hbef, hl, ?_, fun hne => absurd rfl hne⟩
    rintro d ⟨⟩
    exact hmem.1
  · exact h

theorem counted_replace (hfree : s.lock = .free) (ho : s.closing.beforeLoops ∨ c ∉ s.connections) :
    Counted k (s.replace c) := by
  unfold replace
  split
  · rename_i hmem
    have hb := ho.resolve_right (not_not_intro hmem)
    have heq := h.before hb
    have hlen := List.length_erase_add_one hmem
    rw [hfree] at heq
    refine ⟨fun _ => ?_, ?_, by rintro d ⟨⟩, fun hne => absurd rfl hne⟩
    · simp only [held, Lock.ahead, Lock.behind] at heq ⊢
      omega
    simp only [held, Lock.ahead, Lock.behind, toClose_of_beforeLoops hb] at heq ⊢
    omega
  · exact counted_plainSubmit rfl h

theorem counted_holderNext (ho : ∀ c, s.lock = .counting c → s.closing.beforeLoops) : Counted k s.holderNext := by
  obtain ⟨hbef, hl, hf, he⟩ := h
  unfold holderNext
  split <;> rename_i hlock
  · exact ⟨hbef, hl, hf, he⟩
  · rename_i c
    rw [hlock] at hbef hl hf
    refine ⟨fun hb => ?_, ?_, hf, fun _ => ho c hlock⟩
    · have heq := hbef hb
      simp only [held, Lock.ahead, Lock.behind] at heq ⊢
      omega
    simp only [held, Lock.ahead, Lock.behind] at hl ⊢
    omega
  · rename_i c
    rw [hlock] at hbef hf he
    have hb := he (by simp [Lock.ahead])
    have heq := hbef hb
    have hlen := List.length_erase_add_one (hf c rfl)
    refine ⟨fun _ => ?_, ?_, by rintro d ⟨⟩, fun hne => absurd rfl hne⟩
    · simp only [held, Lock.ahead, Lock.behind] at heq ⊢
      omega
    simp only [held, Lock.ahead, Lock.behind, toClose_of_beforeLoops hb] at heq ⊢
    omega
  · rw [hlock] at hbef hl
    split <;> exact ⟨hbef, hl, by rintro d ⟨⟩, fun hne => absurd rfl hne⟩
  · rw [hlock] at hbef hl
    exact ⟨hbef, hl, by rintro d ⟨⟩, fun hne => absurd rfl hne⟩
  · rw [hlock] at hbef hl
    apply counted_plainSubmit rfl
    refine ⟨fun hb => ?_, ?_, by rintro d ⟨⟩, fun hne => absurd rfl hne⟩
    · have heq := hbef hb
      simp only [held, Lock.ahead, Lock.behind] at heq ⊢
      omega
    simp only [held, Lock.ahead, Lock.behind] at hl ⊢
    omega

end

theorem counted_runTask (o : Oracle) (h : Counted (k + if task.holds then 1 else 0) s)
    (hrsd : task.opens → o.raises ≠ some .other) (hfree : task.locks → s.lock = .free)
    (hr : ∀ c, task = .replacing c → s.closing.beforeLoops ∨ c ∉ s.connections) :
    Counted k (s.runTask o task) := by
  by_cases hh : task.holds
  · have hadd := counted_addConnIfUnderMax o h hrsd
    cases task <;> simp_all [Task.holds, Task.adds, runTask]
  replace h : Counted k s := by simpa [hh] using h
  cases task with
  | shuttingDown org =>
    cases org with
    | none => exact counted_shutdown h
    | some org => exact counted_plainSubmit rfl (counted_shutdown h)
  | inTrash c =>
    simp only [runTask]
    split
    · exact counted_plainSubmit rfl ⟨h.before, h.least, h.found, h.early⟩
    · exact h
  | maybeTrash c => exact counted_maybeTrashConnection h (hfree rfl)
  | replacing c => exact counted_replace h (hfree rfl) (hr c rfl)
  | closing c replace =>
    simp only [runTask]
    split
    · exact counted_plainSubmit rfl (counted_conns _ h)
    · exact counted_conns _ h
  | queued org => exact counted_addConnIfUnderMax o (by simpa [hh] using h) hrsd rfl
  | opening | settingKeyspace | adding | countingDown => exact absurd rfl hh
  | _ => exact h.submits (submits_runTask o rfl)

theorem counted_step (s : HostConnectionPool) (a : Oracle × Act) (h : Counted 0 s) (ha : s.accountable a) :
    Counted 0 (step s a) := by
  obtain ⟨o, act⟩ := a
  cases act with
  | closeNext => exact counted_closeNext h fun hf => by simpa [accountable, hf] using ha
  | holderNext => exact counted_holderNext h fun c hl => by simpa [accountable, hl] using ha
  | task idx =>
    cases ht : s.tasks[idx]? with
    | none => simpa only [step, ht] using h
    | some task =>
      simp only [step, ht]
      simp only [accountable, ht] at ha
      split
      · exact h
      rename_i hlock
      refine counted_runTask o (counted_eraseIdx ht h) (fun ho => ?_) (fun hl => ?_) ?_
      · cases task <;> simp_all [Task.opens]
      · exact not_not.mp fun hne => hlock ⟨hl, hne⟩
      rintro c rfl
      simpa using ha
  | _ => exact h.submits (submits_step o rfl)

theorem counted_init (core maxC : Nat) (minReqs maxReqs maxId : Int) :
    Counted 0 (HostConnectionPool.init core maxC minReqs maxReqs maxId) := by
  constructor <;> simp [HostConnectionPool.init, held, toClose, Lock.ahead, Lock.behind, Lock.found]

/-- **The size of a pool.** `open_count` is the number of connections whenever no call holds a count
or the lock before `shutdown`, and it is never negative. -/
theorem open_count_is_size (coreConns maxConns : Nat) (minReqs maxReqs maxRequestId : Int) (acts : List (Oracle × Act))
    (h : RunOk step (fun s a => s.accountable a = true)
      (HostConnectionPool.init coreConns maxConns minReqs maxReqs maxRequestId) acts) :
    let s := run step (HostConnectionPool.init coreConns maxConns minReqs maxReqs maxRequestId) acts
    (s.isShutdown = false → s.held = 0 → s.lock = .free → s.openCount = s.connections.length) ∧ 0 ≤ s.openCount := by
  intro s
  have hs : Counted 0 s := run_invariant counted_step (counted_init ..) h
  refine ⟨fun hno hh hlock => ?_, ?_⟩
  · have hcls : s.closing = .no := by simpa [isShutdown] using hno
    have heq := hs.before (by rw [hcls]; rfl)
    rw [hh, hlock] at heq
    simpa [Lock.ahead, Lock.behind] using heq
  have hl := hs.least
  cases hlock : s.lock with
  | removing c =>
    -- The connection that is counted no more is still in the list.
    have heq := hs.before (hs.early (by simp [hlock, Lock.ahead]))
    have hpos := List.length_pos_of_mem (hs.found c (by rw [hlock]; rfl))
    simp only [hlock, Lock.ahead, Lock.behind] at heq
    omega
  | _ =>
    simp only [hlock, Lock.ahead, Lock.behind] at hl
    omega

/-- Nothing raises. -/
def quietly {α : Type} (acts : List α) : List (Oracle × α) := acts.map fun act => ({}, act)

def trashAndReplace : List (Oracle × Act) :=
  quietly ([.createNewConnection] ++ List.replicate 5 (.task 0) ++ [.maybeTrashConnection 0, .task 0] ++
      List.replicate 3 .holderNext ++ [.defunct 1, .replace 1, .task 0, .holderNext, .task 0]) ++
    List.replicate 2 ({ raises := some .connectionException }, .task 0) ++ quietly [.task 0, .task 0]

theorem open_count_is_size_replaced : let s := run step (HostConnectionPool.init 1 2 5 100 127) trashAndReplace
    s.openCount = s.connections.length ∧ 0 ≤ s.openCount := by
  have h := open_count_is_size 1 2 5 100 127 trashAndReplace (by decide +kernel)
  exact ⟨h.1 (by decide +kernel) (by decide +kernel) (by decide +kernel), h.2⟩

/-- `connection_factory` raises an `OperationTimedOut`. -/
def openedTooLate : HostConnectionPool :=
  run step (HostConnectionPool.init 1 2 5 100 127)
    [({}, .createNewConnection), ({}, .task 0), ({ raises := some .other }, .task 0), ({}, .task 0)]

def returnedInShutdown : HostConnectionPool :=
  run step (HostConnectionPool.init 1 2 5 100 127) (quietly
    ([.borrowConnection] ++ List.replicate 3 (.task 0) ++ [.shutdown, .task 0] ++ List.replicate 3 .closeNext ++
      [.returnConnection 0] ++ List.replicate 3 (.task 0) ++ [.holderNext]))

/-- A connection that could not be opened in time is counted for ever, and one returned during
`shutdown` is counted down twice. -/
theorem open_count_differs : openedTooLate.isShutdown = false ∧ openedTooLate.tasks = [] ∧ openedTooLate.openCount = 2 ∧
      openedTooLate.connections = [0] ∧ returnedInShutdown.openCount = -1 := by
  decide +kernel

end CqlDriver.PoolLife
