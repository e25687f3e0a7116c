import CqlDriver.Pool.Leaks

/-! # The life of a `HostConnection` -/

namespace CqlDriver.PoolLife

open Lib

namespace HostConnection

inductive Task
  | returning (c : Nat)
  /-- The connection is closed, and `signaled_error` is looked at a second time. -/
  | checking (c : Nat)
  | signaling (c : Nat) (signals : Bool)
  | shuttingDown
  | dropping
  | submitting
  | replacing
  | opening
  | settingKeyspace (c : Nat)
  | installing (c : Nat)
  | installed
  | borrowing (c : Nat)
  deriving DecidableEq

inductive Closing
  | no
  | flagged
  | checked
  | closed
  | done
  /-- `None` has no `close`. -/
  | raised
  deriving DecidableEq

end HostConnection

structure HostConnection where
  maxRequestId : Int
  shutdownOnError : Bool := false
  conns : List PooledConn
  connection : Option Nat
  isReplacing : Bool := false
  closing : HostConnection.Closing := .no
  tasks : List HostConnection.Task := []

namespace HostConnection

/-- No connection is opened to a host that is ignored. -/
def init (connects : Bool) (maxRequestId : Int) : HostConnection where
  maxRequestId
  conns := if connects then [({} : PooledConn)] else []
  connection := if connects then some 0 else none

def isShutdown (s : HostConnection) : Bool := s.closing ≠ .no

def submit (s : HostConnection) (task : Task) : HostConnection := { s with tasks := s.tasks ++ [task] }

def modConn (s : HostConnection) (c : Nat) (k : PooledConn → PooledConn) : HostConnection :=
  { s with conns := s.conns.modify c k }

def close (s : HostConnection) (c : Nat) : HostConnection := s.modConn c fun conn => { conn with isClosed := true }

def shutdown (s : HostConnection) : HostConnection := if s.isShutdown then s else { s with closing := .flagged }

/-- It reads `_connection` twice. -/
def closeNext (s : HostConnection) : HostConnection :=
  match s.closing with
  | .no | .done | .raised => s
  | .flagged => { s with closing := if s.connection.isSome then .checked else .done }
  | .checked =>
    match s.connection with
    | none => { s with closing := .raised }
    | some c => { s.close c with closing := .closed }
  | .closed => { s with connection := none, closing := .done }

def runTask (o : Oracle) (s : HostConnection) : Task → HostConnection
  | .returning c =>
    match s.conns[c]? with
    | none => s
    | some conn =>
      if conn.isDefunct || conn.isClosed then
        if conn.signaledError && !s.shutdownOnError then s else s.submit (.checking c)
      else s
  | .checking c => s.submit (.signaling c (s.conns[c]?.any fun conn => !conn.signaledError))
  | .signaling c signals =>
    (s.modConn c fun conn => { conn with signaledError := conn.signaledError || signals }).submit
      (if (signals && o.isDown) || s.shutdownOnError then .shuttingDown else .dropping)
  | .shuttingDown => s.shutdown
  | .dropping => { s with connection := none }.submit .submitting
  | .submitting => if s.isReplacing then s else { s with isReplacing := true }.submit .replacing
  | .replacing => if s.isShutdown then s else s.submit .opening
  | .opening =>
    match o.raises with
    | some _ => s.submit .replacing
    | none => { s with conns := s.conns ++ [({} : PooledConn)] }.submit (.settingKeyspace s.conns.length)
  | .settingKeyspace c =>
    match o.raises with
    | some _ => (if o.closes then s.close c else s).submit .replacing
    | none => s.submit (.installing c)
  -- `is_shutdown` is not looked at again
  | .installing c => { s with connection := some c }.submit .installed
  | .installed => { s with isReplacing := false }
  | .borrowing c =>
    if s.conns[c]?.any fun conn => conn.inFlight ≤ s.maxRequestId then
      s.modConn c fun conn => { conn with inFlight := conn.inFlight + 1 }
    -- it waits until it has room or the time is over
    else if o.raises.isSome then s
    else s.submit (.borrowing c)

inductive Act
  | borrowConnection
  | returnConnection (c : Nat)
  | shutdownOnError
  | shutdown
  | closeNext
  | task (index : Nat)
  | defunct (c : Nat)
  | close (c : Nat)

def step (s : HostConnection) (a : Oracle × Act) : HostConnection :=
  match a.2 with
  | .borrowConnection =>
    if s.isShutdown then s
    else
      match s.connection with
      | none => s
      | some c => s.submit (.borrowing c)
  | .returnConnection c =>
    (s.modConn c fun conn => { conn with inFlight := conn.inFlight - 1 }).submit (.returning c)
  | .shutdownOnError => { s with shutdownOnError := true }
  | .shutdown => s.shutdown
  | .closeNext => s.closeNext
  | .task index =>
    match s.tasks[index]? with
    | none => s
    | some task => { s with tasks := s.tasks.eraseIdx index }.runTask a.1 task
  | .defunct c => s.modConn c fun conn =>
    if conn.isDefunct || conn.isClosed then conn else { conn with isDefunct := true, isClosed := true }
  | .close c => s.close c

/-! ## Leaks -/

def Task.owns (c : Nat) : Task → Bool
  | .settingKeyspace c' | .installing c' => c' == c
  | _ => false

/-- Where `shutdown` will come to; after it raised, anywhere. -/
def listed (s : HostConnection) (c : Nat) : Prop :=
  match s.closing with
  | .no | .flagged | .checked => s.connection = some c
  | .closed | .done => False
  | .raised => True

def lost (s : HostConnection) : Bool := s.connection.all fun c => s.conns[c]?.all PooledConn.isClosed

/-- Nothing open is overwritten, and new connections come in time. -/
def leavesNothing (s : HostConnection) (a : Oracle × Act) : Bool :=
  match a.2 with
  | .task index =>
    match s.tasks[index]? with
    | some .dropping => s.lost
    | some (.settingKeyspace _) => a.1.raises.isNone || a.1.closes
    | some (.installing _) => s.lost && (s.closing = .no || s.closing = .flagged)
    | _ => true
  | _ => true

def Kept (s : HostConnection) (c : Nat) : Prop := Held (ClosedAt s.conns c) (s.listed c) (Task.owns c) s.tasks

variable {s s' : HostConnection} {c : Nat}

theorem Kept.mono (h : Kept s c) (hcls : ClosedAt s.conns c → ClosedAt s'.conns c)
    (hlst : s.listed c → s'.listed c) (ht : s.tasks ⊆ s'.tasks) : Kept s' c :=
  Held.mono h hcls hlst ht

theorem kept_submit (h : Kept s c) (task : Task) : Kept (s.submit task) c :=
  h.mono id id (List.subset_append_left ..)

variable {task : Task} {d : Nat}

theorem kept_owned (ho : task.owns c) : Kept (s.submit task) c :=
  .inr (.inr ⟨task, List.mem_append_right _ List.mem_cons_self, ho⟩)

theorem kept_modConn (d : Nat) (k : PooledConn → PooledConn)
    (hk : ∀ conn, conn.isClosed → (k conn).isClosed) (h : Kept s c) : Kept (s.modConn d k) c :=
  h.mono (closedAt_modify hk d) id (List.Subset.refl _)

theorem kept_close (h : c ≠ d → Kept s c) : Kept (s.close d) c := by
  by_cases hc : c = d
  · rw [hc]
    exact .inl (closedAt_modify_self (fun _ => rfl) s.conns d)
  · exact kept_modConn d _ (fun _ _ => rfl) (h hc)

theorem kept_closing (h : Kept s c) {closing : Closing} (hl : s.listed c → { s with closing }.listed c) :
    Kept { s with closing } c := h.mono id hl fun _ => id

theorem kept_shutdown (h : Kept s c) : Kept s.shutdown c := by
  unfold shutdown
  split
  · exact h
  rename_i hno
  have hcls : s.closing = .no := by simpa [isShutdown] using hno
  exact kept_closing h (by simp [listed, hcls])

theorem kept_closeNext (h : Kept s c) : Kept s.closeNext c := by
  unfold closeNext
  split
  · exact h
  · exact h
  · exact h
  · rename_i hcls
    refine kept_closing h ?_
    simp only [listed, hcls]
    intro hc
    rw [hc]
    rfl
  · rename_i hcls
    split
    · exact kept_closing h fun _ => trivial
    rename_i d hd
    have hdn : c ≠ d → Kept { s with closing := .closed } c := fun hne =>
      kept_closing h (by simp [listed, hcls, hd, Ne.symm hne])
    exact (kept_close hdn).mono id id fun _ => id
  rename_i hcls
  refine h.mono id ?_ fun _ => id
  simp [listed, hcls]

theorem closedAt_of_lost (hl : s.lost) (hc : s.connection = some c) : ClosedAt s.conns c := by
  intro conn hcn
  simpa [lost, hc, hcn] using hl

theorem kept_overwrite (h : Kept s c) (hl : s.lost) (connection : Option Nat) :
    Kept { s with connection } c := by
  have hold : s.connection = some c → ClosedAt s.conns c := closedAt_of_lost hl
  rcases h with hcls | hlst | ho
  · exact .inl hcls
  · unfold listed at hlst
    cases hc : s.closing <;> simp only [hc] at hlst
    case raised => exact .inr (.inl trivial)
    all_goals exact .inl (hold hlst)
  · exact .inr (.inr ho)

theorem kept_install (h : c ≠ d → Kept s c) (hl : s.lost)
    (hcls : s.closing = .no ∨ s.closing = .flagged) : Kept { s with connection := some d } c := by
  by_cases hc : c = d
  · refine .inr (.inl ?_)
    rcases hcls with hcls | hcls <;> simp [listed, hcls, hc]
  · exact kept_overwrite (h hc) hl _

theorem kept_opened (h : Kept s c) :
    Kept ({ s with conns := s.conns ++ [({} : PooledConn)] }.submit (.settingKeyspace s.conns.length)) c := by
  by_cases hnew : c = s.conns.length
  · exact kept_owned (by simp [Task.owns, hnew])
  apply kept_submit
  exact h.mono (fun hcls => closedAt_append hcls hnew _) id fun _ => id

theorem kept_runTask (o : Oracle) (h : task.owns c = false → Kept s c) (hd : task = .dropping → s.lost)
    (hcl : ∀ d, task = .settingKeyspace d → o.raises = none ∨ o.closes)
    (hi : ∀ d, task = .installing d → s.lost ∧ (s.closing = .no ∨ s.closing = .flagged)) :
    Kept (s.runTask o task) c := by
  cases task with
  | returning d =>
    simp only [runTask]
    split
    · exact h rfl
    split_ifs
    · exact h rfl
    · exact kept_submit (h rfl) _
    · exact h rfl
  | checking d => exact kept_submit (h rfl) _
  | signaling d signals =>
    apply kept_submit
    exact kept_modConn d _ (fun _ hcls => hcls) (h rfl)
  | shuttingDown => exact kept_shutdown (h rfl)
  | dropping =>
    apply kept_submit
    exact kept_overwrite (h rfl) (hd rfl) none
  | submitting =>
    simp only [runTask]
    split
    · exact h rfl
    apply kept_submit
    exact (h rfl).mono id id fun _ => id
  | replacing =>
    simp only [runTask]
    split
    · exact h rfl
    · exact kept_submit (h rfl) _
  | opening =>
    simp only [runTask]
    split
    · exact kept_submit (h rfl) _
    · exact kept_opened (h rfl)
  | settingKeyspace d =>
    have h : c ≠ d → Kept s c := fun hne => h (by simpa [Task.owns] using Ne.symm hne)
    simp only [runTask]
    split
    · rename_i heq
      apply kept_submit
      rw [if_pos ((hcl d rfl).resolve_left (by rw [heq]; simp))]
      exact kept_close h
    by_cases hc : c = d
    · exact kept_owned (by simp [Task.owns, hc])
    · exact kept_submit (h hc) _
  | installing d =>
    have h : c ≠ d → Kept s c := fun hne => h (by simpa [Task.owns] using Ne.symm hne)
    obtain ⟨hl, hcs⟩ := hi d rfl
    apply kept_submit
    exact kept_install h hl hcs
  | installed => exact (h rfl).mono id id fun _ => id
  | borrowing d =>
    simp only [runTask]
    split_ifs
    · exact kept_modConn d _ (fun _ hcls => hcls) (h rfl)
    · exact h rfl
    · exact kept_submit (h rfl) _

theorem kept_step (s : HostConnection) (a : Oracle × Act) (h : ∀ c, Kept s c) (ha : s.leavesNothing a)
    (c : Nat) : Kept (step s a) c := by
  obtain ⟨o, act⟩ := a
  cases act with
  | borrowConnection =>
    simp only [step]
    split
    · exact h c
    split
    · exact h c
    · exact kept_submit (h c) _
  | returnConnection d =>
    apply kept_submit
    exact kept_modConn d _ (fun _ hcls => hcls) (h c)
  | shutdownOnError => exact (h c).mono id id fun _ => id
  | shutdown => exact kept_shutdown (h c)
  | closeNext => exact kept_closeNext (h c)
  | task idx =>
    cases ht : s.tasks[idx]? with
    | none => simpa only [step, ht] using h c
    | some task =>
      simp only [step, ht]
      simp only [leavesNothing, ht] at ha
      refine kept_runTask o (Held.eraseIdx (h c) ht) ?_ ?_ ?_
      · rintro rfl
        exact ha
      · rintro d rfl
        simpa using ha
      rintro d rfl
      simp only [Bool.and_eq_true, Bool.or_eq_true, decide_eq_true_eq] at ha
      exact ha
  | defunct d =>
    refine kept_modConn d _ (fun conn hcls => ?_) (h c)
    simp [hcls]
  | close d => exact kept_close fun _ => h c

theorem kept_init (cts : Bool) (maxId : Int) (c : Nat) : Kept (init cts maxId) c := by
  cases cts with
  | false => exact .inl fun conn hcn => by simp [init] at hcn
  | true =>
    by_cases hc : c = 0
    · exact .inr (.inl (by simp [listed, init, hc]))
    refine .inl fun conn hcn => ?_
    simp [init, hc] at hcn

theorem single_all_closed {cts : Bool} {maxId : Int} {acts : List (Oracle × Act)}
    (h : RunOk step (fun s a => s.leavesNothing a) (init cts maxId) acts)
    (hd : (run step (init cts maxId) acts).closing = .done) (ht : (run step (init cts maxId) acts).tasks = []) :
    ∀ conn ∈ (run step (init cts maxId) acts).conns, conn.isClosed := by
  have hk := run_invariant kept_step (kept_init cts maxId) h
  simp only [Kept, ht] at hk
  exact all_closed_of_held hk fun c => by simp [listed, hd]

end HostConnection

/-- **No leak.** Behind the last call `shutdown` leaves nothing open, in both pools. -/
theorem no_connection_outlives_pool (coreConns maxConns : Nat) (minReqs maxReqs maxRequestId : Int) (connects : Bool)
    (acts : List (Oracle × Act)) (acts' : List (Oracle × HostConnection.Act)) :
    let s := run step (HostConnectionPool.init coreConns maxConns minReqs maxReqs maxRequestId) acts
    let s' := run HostConnection.step (HostConnection.init connects maxRequestId) acts'
    (RunOk step (fun s a => s.leavesNothing a = true)
        (HostConnectionPool.init coreConns maxConns minReqs maxReqs maxRequestId) acts →
      s.closing = .done → s.lock = .free → s.tasks = [] → ∀ conn ∈ s.conns, conn.isClosed = true) ∧
    (RunOk HostConnection.step (fun s a => s.leavesNothing a = true) (HostConnection.init connects maxRequestId) acts' →
      s'.closing = .done → s'.tasks = [] → ∀ conn ∈ s'.conns, conn.isClosed = true) := by
  constructor
  · intro h hd hl ht
    exact pool_all_closed coreConns maxConns minReqs maxReqs maxRequestId h hd hl ht
  intro h hd ht
  exact HostConnection.single_all_closed h hd ht

def createThenShutdown : List (Oracle × Act) :=
  quietly ([.createNewConnection] ++ List.replicate 5 (.task 0) ++ [.shutdown, .task 0] ++ List.replicate 7 .closeNext)

def loseConnection : List HostConnection.Act :=
  [.borrowConnection, .task 0, .defunct 0, .returnConnection 0] ++ List.replicate 6 (.task 0)

def replaceThenShutdown : List (Oracle × HostConnection.Act) :=
  quietly (loseConnection ++ List.replicate 4 (.task 0) ++ [.shutdown] ++ List.replicate 3 .closeNext)

theorem no_connection_outlives_pool_two :
    ((run step (HostConnectionPool.init 1 2 5 100 127) createThenShutdown).conns.length = 2 ∧
      ∀ conn ∈ (run step (HostConnectionPool.init 1 2 5 100 127) createThenShutdown).conns, conn.isClosed = true) ∧
    (run HostConnection.step (HostConnection.init true 127) replaceThenShutdown).conns.length = 2 ∧
      ∀ conn ∈ (run HostConnection.step (HostConnection.init true 127) replaceThenShutdown).conns,
        conn.isClosed = true := by
  obtain ⟨hp, hs⟩ :=
    no_connection_outlives_pool 1 2 5 100 127 true createThenShutdown replaceThenShutdown
  refine ⟨⟨by decide +kernel, ?_⟩, by decide +kernel, ?_⟩
  · exact hp (by decide +kernel) (by decide +kernel) (by decide +kernel) (by decide +kernel)
  · exact hs (by decide +kernel) (by decide +kernel) (by decide +kernel)

/-- `_create_new_connection` is in `connection_factory` while `shutdown` runs. -/
def createdTooLate : HostConnectionPool :=
  run step (HostConnectionPool.init 1 2 5 100 127) (quietly
    ([.createNewConnection, .task 0, .shutdown, .task 1] ++ List.replicate 5 .closeNext ++ List.replicate 4 (.task 0)))

/-- `shutdown` and the last return of connection 0 come before `_trash.add`. -/
def trashedTooLate : HostConnectionPool :=
  run step (HostConnectionPool.init 1 2 5 100 127) (quietly
    ([.createNewConnection] ++ List.replicate 5 (.task 0) ++ [.borrowConnection] ++ List.replicate 3 (.task 0) ++
      [.shutdown, .task 0, .maybeTrashConnection 0, .task 0, .holderNext, .holderNext, .holderNext] ++
      List.replicate 5 .closeNext ++ [.returnConnection 0] ++ List.replicate 3 (.task 0) ++ [.holderNext]))

def replacedTooLate : HostConnection :=
  run HostConnection.step (HostConnection.init true 127) (quietly
    (loseConnection ++ [.shutdown, .closeNext] ++ List.replicate 4 (.task 0)))

/-- `set_keyspace_blocking` raises an `InvalidRequest`, and the new connection is forgotten. -/
def wrongKeyspace : HostConnection :=
  run HostConnection.step (HostConnection.init true 127) (quietly (loseConnection ++ [.task 0]) ++
    ({ raises := some .other, closes := false }, .task 0) :: quietly [.shutdown, .closeNext, .task 0])

/-- `shutdown` has returned and nothing is under way, but a connection is open. -/
theorem connections_outlive_pools : createdTooLate.closing = .done ∧ createdTooLate.tasks = [] ∧
      createdTooLate.lock = .free ∧ createdTooLate.conns = [{ isClosed := true }, {}] ∧
    trashedTooLate.closing = .done ∧ trashedTooLate.tasks = [] ∧ trashedTooLate.lock = .free ∧
      trashedTooLate.conns = [{}, { isClosed := true }] ∧
    replacedTooLate.closing = .done ∧ replacedTooLate.tasks = [] ∧
      replacedTooLate.conns = [{ isClosed := true, isDefunct := true, signaledError := true }, {}] ∧
    wrongKeyspace.closing = .done ∧ wrongKeyspace.tasks = [] ∧
      wrongKeyspace.conns = [{ isClosed := true, isDefunct := true, signaledError := true }, {}] := by
  decide +kernel

end CqlDriver.PoolLife
