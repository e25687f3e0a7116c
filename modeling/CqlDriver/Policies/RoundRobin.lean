import CqlDriver.Lib.Rotation
import CqlDriver.Policies.Populate
import Mathlib.Data.Finset.Card
import Mathlib.Data.List.FinRange

/-! # Round robin -/

namespace CqlDriver.Policies

open Lib List

variable {η : Type} [DecidableEq η]

/-- Each plan is consumed before the next action. -/
inductive PolicyAction (η : Type)
  | event (event : HostEvent η)
  | makeQueryPlan

def PolicyAction.isPlan : PolicyAction η → Bool
  | .event _ => false
  | .makeQueryPlan => true

/-! ## `RoundRobinPolicy` -/

/-- The order in which an unchanged `frozenset` is iterated. -/
structure FrozenOrder (η : Type) where
  list : Finset η → List η
  nodup : ∀ hosts, (list hosts).Nodup
  mem_iff : ∀ hosts host, host ∈ list hosts ↔ host ∈ hosts

structure RoundRobinPolicy (η : Type) where
  liveHosts : Finset η := ∅
  position : Nat := 0

namespace RoundRobinPolicy

def onUp (p : RoundRobinPolicy η) (host : η) : RoundRobinPolicy η := { p with liveHosts := p.liveHosts ∪ {host} }

def onDown (p : RoundRobinPolicy η) (host : η) : RoundRobinPolicy η := { p with liveHosts := p.liveHosts \ {host} }

omit [DecidableEq η] in
def makeQueryPlan (p : RoundRobinPolicy η) (order : FrozenOrder η) : List η × RoundRobinPolicy η :=
  let hosts := order.list p.liveHosts
  let length := hosts.length
  (if length ≠ 0 then hosts.rotate (p.position % length) else [], { p with position := p.position + 1 })

def act (order : FrozenOrder η) (p : RoundRobinPolicy η) : PolicyAction η → RoundRobinPolicy η
  | .event (.onUp host) | .event (.onAdd host) => p.onUp host
  | .event (.onDown host) | .event (.onRemove host) => p.onDown host
  | .event (.updateLocation host _) => (p.onDown host).onUp host
  | .makeQueryPlan => (p.makeQueryPlan order).2

omit [DecidableEq η] in
theorem plan_eq (p : RoundRobinPolicy η) (ord : FrozenOrder η) :
    (p.makeQueryPlan ord).1 = (ord.list p.liveHosts).rotate p.position := by
  unfold makeQueryPlan
  dsimp only
  split
  · exact rotate_mod ..
  rename_i he
  rw [length_eq_zero_iff.mp (not_not.mp he), rotate_nil]

theorem position_act (order : FrozenOrder η) (p : RoundRobinPolicy η) (action : PolicyAction η) :
    (p.act order action).position = if action.isPlan then p.position + 1 else p.position := by
  cases action with
  | makeQueryPlan => rfl
  | event event => cases event <;> rfl

end RoundRobinPolicy

/-! ## `DCAwareRoundRobinPolicy` -/

namespace World

def localLive (w : World η) : List η := w.policy.bucket w.policy.localDc

def act (w : World η) : PolicyAction η → World η
  | .event event => w.step event
  | .makeQueryPlan => { w with policy := { w.policy with position := w.policy.position + 1 } }

omit [DecidableEq η] in
theorem localPlan_eq (w : World η) : w.policy.localPlan = w.localLive.rotate w.policy.position := by
  unfold DCAwareRoundRobinPolicy.localPlan localLive
  simp only
  split
  · rename_i he
    rw [he, rotate_nil, rotate_nil]
  · exact rotate_mod ..

variable {host : η}

theorem position_up {w : World η} : (w.up host).policy.position = w.policy.position := by
  have hd : (w.policy.detect (w.datacenter host) host).position = w.policy.position := by
    unfold DCAwareRoundRobinPolicy.detect
    split
    · split <;> rfl
    · rfl
  rw [← hd]
  simp only [up, DCAwareRoundRobinPolicy.onUp, DCAwareRoundRobinPolicy.file]
  split <;> rfl

theorem position_down {w : World η} : (w.down host).policy.position = w.policy.position := by
  simp only [down, DCAwareRoundRobinPolicy.onDown]
  repeat' split
  all_goals rfl

theorem position_act (w : World η) (action : PolicyAction η) :
    (w.act action).policy.position = if action.isPlan then w.policy.position + 1 else w.policy.position := by
  cases action with
  | makeQueryPlan => rfl
  | event event =>
    cases event with
    | onUp host | onAdd host => exact position_up
    | onDown host | onRemove host => exact position_down
    | updateLocation host datacenter => exact position_up.trans position_down

def Distinct (w : World η) : Prop := ∀ dc, (w.policy.bucket dc).Nodup

variable {w : World η}

theorem distinct_up (h : Distinct w) : Distinct (w.up host) := by
  intro dc
  have hd : ((w.policy.detect (w.datacenter host) host).bucket dc) = w.policy.bucket dc := by
    unfold DCAwareRoundRobinPolicy.detect
    split
    · split <;> rfl
    · rfl
  rw [up, DCAwareRoundRobinPolicy.onUp, DCAwareRoundRobinPolicy.bucket_file, hd]
  split
  · rename_i hnew
    exact nodup_append_host (h dc) hnew.2
  · exact h dc

theorem distinct_down (h : Distinct w) : Distinct (w.down host) := by
  intro dc
  rw [down, DCAwareRoundRobinPolicy.bucket_onDown]
  split
  · exact (h dc).filter _
  · exact h dc

theorem distinct_act (h : Distinct w) (action : PolicyAction η) : Distinct (w.act action) := by
  cases action with
  | makeQueryPlan => exact h
  | event event =>
    cases event with
    | onUp host | onAdd host => exact distinct_up h
    | onDown host | onRemove host => exact distinct_down h
    | updateLocation host datacenter =>
      refine distinct_up ?_
      exact distinct_down h

theorem distinct_start (ldc : String) (used : Nat) (ord : SetOrder η) (d : η → Option String)
    (cps hs : List η) (pos : Nat) : Distinct (start ldc used ord d cps hs pos) := by
  intro dc
  exact DCAwareRoundRobinPolicy.nodup_filed ord _ hs dc

end World

/-! ## Balance -/

/-- **Round robin is balanced**, and so is the local part of `DCAwareRoundRobinPolicy`. -/
theorem round_robin_balanced : (∀ (order : FrozenOrder η) (p : RoundRobinPolicy η) (past block : List (PolicyAction η)),
      let start := run (RoundRobinPolicy.act order) p past
      RunOk (RoundRobinPolicy.act order) (fun p action => (p.act order action).liveHosts = p.liveHosts) start block →
      block.countP PolicyAction.isPlan = start.liveHosts.card → Balanced (order.list start.liveHosts)
        (turnsOf (RoundRobinPolicy.act order) PolicyAction.isPlan (fun p => (p.makeQueryPlan order).1) start block)) ∧
    ∀ (localDc : String) (used : Nat) (order : SetOrder η) (datacenter : η → Option String)
      (contactPoints hosts : List η) (position : Nat) (past block : List (PolicyAction η)),
      let start := run World.act (World.start localDc used order datacenter contactPoints hosts position) past
      RunOk World.act (fun w action => (w.act action).localLive = w.localLive) start block →
      block.countP PolicyAction.isPlan = start.localLive.length →
      Balanced start.localLive (turnsOf World.act PolicyAction.isPlan (fun w => w.policy.localPlan) start block) := by
  constructor
  · intro order p past block start hs hc
    have hl : RunOk (RoundRobinPolicy.act order)
        (fun p action => order.list (p.act order action).liveHosts = order.list p.liveHosts) start block :=
      hs.imp fun p action h => congrArg order.list h
    have hlen : (order.list start.liveHosts).length = start.liveHosts.card := by
      rw [← toFinset_card_of_nodup (order.nodup _)]
      congr
      ext host
      rw [mem_toFinset, order.mem_iff]
    rw [turnsOf_eq (fun p => p.plan_eq order) (RoundRobinPolicy.position_act order) block start hl, hc, ← hlen]
    exact balanced_turnsFrom (order.nodup _) _
  intro localDc used order datacenter contactPoints hosts position past block start hs hc
  have hst : ∀ (w : World η) action, w.Distinct → (w.act action).Distinct := fun w action h => World.distinct_act h action
  have hd : start.Distinct := run_invariant_all hst past
    (World.distinct_start localDc used order datacenter contactPoints hosts position)
  rw [turnsOf_eq World.localPlan_eq World.position_act block start hs, hc]
  exact balanced_turnsFrom (hd _) _

def ascending : FrozenOrder (Fin 4) where
  list hosts := (List.finRange 4).filter (· ∈ hosts)
  nodup _ := (nodup_finRange 4).filter _
  mem_iff _ _ := by simp

theorem round_robin_balanced_three :
    Balanced [(1 : Fin 4), 2, 3] [[3, 1, 2], [1, 2, 3], [2, 3, 1]] ∧ Balanced [1, 2] [[2, 1], [1, 2]] := by
  have h := (@round_robin_balanced _ _).1 ascending ⟨{1, 2, 3}, 7⟩
    [.event (.onDown 2), .makeQueryPlan, .event (.onUp 2)]
    [.makeQueryPlan, .makeQueryPlan, .event (.onUp 3), .makeQueryPlan] (by decide +kernel) (by decide +kernel)
  refine ⟨?_, (@round_robin_balanced Nat _).2 "dc1" 1 firstSeen (fun n => if n = 3 then some "dc2" else some "dc1") []
    [1, 2, 3] 4 [.makeQueryPlan] [.makeQueryPlan, .event (.onUp 1), .makeQueryPlan] (by decide +kernel)
    (by decide +kernel)⟩
  convert h using 1 <;> decide +kernel

end CqlDriver.Policies
