import CqlDriver.Lib.Run
import Mathlib.Data.List.Sort

/-!
# `execute_concurrent`

The executors of `cassandra/concurrent.py`. What runs under the condition's lock is one step, in
which other threads can still do what takes no lock: a future fires at any time, and the list form
appends its result before `_put_result` waits for the lock.
-/

namespace CqlDriver.Concurrent

structure ExecutionResult (ρ : Type) where
  success : Bool
  resultOrExc : ρ
  deriving DecidableEq

/-- How `execute_async` and its future behave for one statement. -/
inductive Answer (ρ : Type)
  | raises (exc : ρ)
  /-- The future has fired when `add_callbacks` is called, which calls back at once. -/
  | immediate (result : ExecutionResult ρ)
  | later (result : ExecutionResult ρ)

def Answer.outcome {ρ : Type} : Answer ρ → ExecutionResult ρ
  | .raises exc => ⟨false, exc⟩
  | .immediate result | .later result => result

/-- What the executor runs on. -/
structure Env (σ ρ : Type) where
  executeAsync : Nat → σ → Answer ρ
  /-- How many calls of `_execute` can nest on the interpreter's stack. -/
  maxDepth : Nat
  recursionError : ρ

inductive Form
  | list
  | generator
  deriving DecidableEq

inductive Consumer (ρ : Type)
  | start
  | waiting
  | notified
  | yielding
  | finished
  | raised (exc : ρ)
  deriving DecidableEq

/-- `clear`: no failed result is in the queue. `left`: statements are left. -/
inductive Event
  | started (idx : Nat) (clear : Bool)
  | finished (idx : Nat)
  | recorded (idx : Nat) (success left : Bool)
  deriving DecidableEq

/-- What a thread without the lock can do. -/
inductive Arrival
  | fire (i : Nat)
  | runTask (i : Nat)

/-- What `_execute_next` comes to. -/
inductive Next
  | started
  | exhausted
  | overflow
  deriving DecidableEq

def maxErrorRecursion : Nat := 100

structure Executor (σ ρ : Type) where
  enumStatements : List (Nat × σ)
  failFast : Bool
  resultsQueue : List (Nat × ExecutionResult ρ) := []
  current : Nat := 0
  execCount : Nat := 0
  execDepth : Nat := 0
  exception : Option ρ := none
  futures : List (Nat × ExecutionResult ρ) := []
  tasks : List (Nat × ExecutionResult ρ) := []
  /-- Calls of `_put_result` that wait for the lock. -/
  blocked : List (Nat × ExecutionResult ρ) := []
  consumer : Consumer ρ := .start
  yielded : List (ExecutionResult ρ) := []
  /-- What arrives before each of the next calls of `_execute_next`. -/
  arrivals : List (List Arrival) := []
  log : List Event := []

variable {σ ρ : Type}

def Executor.event (e : Executor σ ρ) (event : Event) : Executor σ ρ := { e with log := e.log ++ [event] }

def notify (e : Executor σ ρ) : Executor σ ρ :=
  match e.consumer with
  | .waiting => { e with consumer := .notified }
  | _ => e

/-- Entries of `_results_queue` compare by their index. -/
def Precedes (a b : Nat × ExecutionResult ρ) : Prop := a.1 ≤ b.1

instance : DecidableRel (@Precedes ρ) := fun a b => inferInstanceAs (Decidable (a.1 ≤ b.1))

instance : Std.Total (@Precedes ρ) := ⟨fun a b => Nat.le_total a.1 b.1⟩

instance : IsTrans (Nat × ExecutionResult ρ) Precedes := ⟨fun _ _ _ => Nat.le_trans⟩

/-- `heapq` keeps the least entry in front; the heap is a sorted list. -/
def heappush (queue : List (Nat × ExecutionResult ρ)) (entry : Nat × ExecutionResult ρ) :
    List (Nat × ExecutionResult ρ) := queue.orderedInsert Precedes entry

def hasFailure (e : Executor σ ρ) : Bool := e.resultsQueue.any fun entry => !entry.2.success

/-! ## Starting statements -/

section Regions

variable (form : Form) (env : Env σ ρ)

def record (entry : Nat × ExecutionResult ρ) (e : Executor σ ρ) : Executor σ ρ :=
  e.event (.recorded entry.1 entry.2.success !e.enumStatements.isEmpty)

/-- The part of `_put_result` before the lock: the list form appends without it. -/
def putUnlocked (entry : Nat × ExecutionResult ρ) (e : Executor σ ρ) : Executor σ ρ :=
  match form with
  | .list => record entry { e with resultsQueue := e.resultsQueue ++ [entry] }
  | .generator => e

def arrive (e : Executor σ ρ) : Arrival → Executor σ ρ
  | .fire i =>
    match e.futures[i]? with
    | none => e
    | some entry =>
      let e := { e with futures := e.futures.eraseIdx i, blocked := e.blocked ++ [entry] }
      putUnlocked form entry (e.event (.finished entry.1))
  | .runTask i =>
    match e.tasks[i]? with
    | none => e
    | some entry =>
      putUnlocked form entry { e with tasks := e.tasks.eraseIdx i, blocked := e.blocked ++ [entry] }

def arriveAll (e : Executor σ ρ) : Executor σ ρ :=
  (e.arrivals.headD []).foldl (arrive form) { e with arrivals := e.arrivals.tail }

/-- The flag says that a `RecursionError` goes through the call. -/
def putLocked (executeNext : Executor σ ρ → Executor σ ρ × Next) (entry : Nat × ExecutionResult ρ)
    (e : Executor σ ρ) : Executor σ ρ × Bool :=
  match form with
  | .generator =>
    match executeNext (record entry { e with resultsQueue := heappush e.resultsQueue entry }) with
    | (e, .overflow) => (e, true)
    | (e, _) => (notify e, false)
  | .list =>
    let e := { e with current := e.current + 1 }
    if !entry.2.success && e.failFast then
      (notify { e with exception := e.exception.or (some entry.2.resultOrExc) }, false)
    else
      match executeNext e with
      | (e, .overflow) => (e, true)
      | (e, more) => (if more = .exhausted ∧ e.current = e.execCount then notify e else e, false)

def putResult (executeNext : Executor σ ρ → Executor σ ρ × Next) (entry : Nat × ExecutionResult ρ)
    (e : Executor σ ρ) : Executor σ ρ × Bool := putLocked form executeNext entry (putUnlocked form entry e)

def leave (e : Executor σ ρ) : Executor σ ρ × Next := ({ e with execDepth := e.execDepth - 1 }, .started)

/-- The `except` branch of `_execute`. -/
def caught (executeNext : Executor σ ρ → Executor σ ρ × Next) (idx : Nat) (exc : ρ) (e : Executor σ ρ) :
    Executor σ ρ × Next :=
  if e.execDepth < maxErrorRecursion then
    match putResult form executeNext (idx, ⟨false, exc⟩) e with
    | (e, true) => (e, .overflow)
    | (e, false) => leave e
  else leave { e with tasks := e.tasks ++ [(idx, ExecutionResult.mk false exc)] }

def execute (executeNext : Executor σ ρ → Executor σ ρ × Next) (idx : Nat) (statement : σ)
    (e : Executor σ ρ) : Executor σ ρ × Next :=
  let e := { e with execDepth := e.execDepth + 1 }
  -- `execute_async` raises, and `submit` in the `except` branch too.
  if env.maxDepth < e.execDepth then (e, .overflow)
  else
    match env.executeAsync idx statement with
    | .raises exc => caught form executeNext idx exc (e.event (.finished idx))
    | .immediate result =>
      match putResult form executeNext (idx, result) (e.event (.finished idx)) with
      | (e, true) => caught form executeNext idx env.recursionError e
      | (e, false) => leave e
    | .later result => leave { e with futures := e.futures ++ [(idx, result)] }

/-- The statement is taken and about to be passed to `execute_async`. -/
def opened (e : Executor σ ρ) (idx : Nat) (rest : List (Nat × σ)) : Executor σ ρ :=
  { e with enumStatements := rest, execCount := e.execCount + 1, log := e.log ++ [.started idx !hasFailure e] }

def executeUpTo : Nat → Executor σ ρ → Executor σ ρ × Next
  | 0, e => (e, .exhausted)
  | fuel + 1, e =>
    match e.enumStatements with
    | [] => (e, .exhausted)
    | (idx, statement) :: rest =>
      execute form env (executeUpTo fuel) idx statement (opened (arriveAll form e) idx rest)

/-- Each nested call has taken a statement, which bounds the fuel. -/
def executeNext (e : Executor σ ρ) : Executor σ ρ × Next :=
  executeUpTo form env e.enumStatements.length e

def executeLoop : Nat → Executor σ ρ → Executor σ ρ
  | 0, e => e
  | n + 1, e =>
    match executeNext form env e with
    | (e, .started) => executeLoop n e
    | (e, .exhausted) => e
    | (e, .overflow) => { e with consumer := .raised env.recursionError }

/-! ## The consumer -/

def returnList (e : Executor σ ρ) : Executor σ ρ :=
  match e.failFast, e.exception with
  | true, some exc => { e with consumer := .raised exc }
  | _, _ =>
    { e with
      consumer := .finished
      yielded := (e.resultsQueue.insertionSort Precedes).map Prod.snd }

/-- `_results` of the list form from the test of its loop on. -/
def listLoop (e : Executor σ ρ) : Executor σ ρ :=
  if e.current < e.execCount then { e with consumer := .waiting } else returnList e

def listResults (e : Executor σ ρ) : Executor σ ρ :=
  match e.consumer with
  | .start => listLoop e
  | .notified =>
    match e.failFast, e.exception with
    | true, some exc => { e with consumer := .raised exc }
    | _, _ => listLoop e
  | .waiting | .yielding | .finished | .raised _ => e

/-- Yields or raises the next result; without one it goes on at `otherwise`. -/
def yieldNext (e otherwise : Executor σ ρ) : Executor σ ρ :=
  match e.resultsQueue with
  | [] => otherwise
  | (idx, res) :: rest =>
    if idx = e.current then
      if e.failFast && !res.success then { e with resultsQueue := rest, consumer := .raised res.resultOrExc }
      else { e with resultsQueue := rest, consumer := .yielding, yielded := e.yielded ++ [res] }
    else otherwise

def generatorLoop (e : Executor σ ρ) : Executor σ ρ :=
  if e.current < e.execCount then yieldNext e { e with consumer := .waiting }
  else { e with consumer := .finished }

def generatorResults (e : Executor σ ρ) : Executor σ ρ :=
  match e.consumer with
  | .start => generatorLoop e
  | .notified => yieldNext e { e with consumer := .waiting }
  | .yielding =>
    let e := { e with current := e.current + 1 }
    yieldNext e (generatorLoop e)
  | .waiting | .finished | .raised _ => e

def results (e : Executor σ ρ) : Executor σ ρ :=
  match form with
  | .list => listResults e
  | .generator => generatorResults e

/-! ## Runs -/

inductive Action
  | arrive (arrival : Arrival)
  | put (i : Nat) (arrivals : List (List Arrival))
  | consume

def step (e : Executor σ ρ) : Action → Executor σ ρ
  | .arrive arrival => arrive form e arrival
  | .put i arrivals =>
    match e.blocked[i]? with
    | none => e
    | some entry =>
      (putLocked form (executeNext form env) entry { e with blocked := e.blocked.eraseIdx i, arrivals }).1
  | .consume => results form e

def Consumer.Runs : Consumer ρ → Prop
  | .start | .notified | .yielding => True
  | .waiting | .finished | .raised _ => False

instance : (consumer : Consumer ρ) → Decidable consumer.Runs
  | .start | .notified | .yielding => isTrue trivial
  | .waiting | .finished | .raised _ => isFalse id

def Enabled (e : Executor σ ρ) : Action → Prop
  | .arrive (.fire i) => i < e.futures.length
  | .arrive (.runTask i) => i < e.tasks.length
  | .put i _ => i < e.blocked.length
  | .consume => e.consumer.Runs

instance (e : Executor σ ρ) : (action : Action) → Decidable (Enabled e action)
  | .arrive (.fire i) => inferInstanceAs (Decidable (i < e.futures.length))
  | .arrive (.runTask i) => inferInstanceAs (Decidable (i < e.tasks.length))
  | .put i _ => inferInstanceAs (Decidable (i < e.blocked.length))
  | .consume => inferInstanceAs (Decidable e.consumer.Runs)

/-- `execute_concurrent` up to the start of `_results`; `none` is the `ValueError`. -/
def executeConcurrent (statements : List σ) (concurrency : Int) (raiseOnFirstError : Bool)
    (arrivals : List (List Arrival)) : Option (Executor σ ρ) :=
  if concurrency ≤ 0 then none
  else if statements.isEmpty then
    some { enumStatements := [], failFast := raiseOnFirstError, consumer := .finished }
  else
    some (executeLoop form env concurrency.toNat
      { enumStatements := statements.zipIdx.map Prod.swap, failFast := raiseOnFirstError, arrivals })

end Regions

end CqlDriver.Concurrent
