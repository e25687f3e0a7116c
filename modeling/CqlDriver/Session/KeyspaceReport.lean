import CqlDriver.Session.Keyspace
import Mathlib.Data.List.Nodup
import Mathlib.Data.List.Perm.Basic
import Mathlib.Data.List.Flatten
import Mathlib.Algebra.Order.Group.Multiset

/-! # What the keyspace switch reports -/

namespace CqlDriver.Session

open Lib List Option Finish HostPool

variable {κ : Type} {setup : Setup κ}

/-! ## What has to finish -/

abbrev Key := Nat × Option Nat

def Finish.key (f : Finish) : Key := (f.pool, f.conn)

def connKey (x : Nat × Nat) : Key := (x.1, some x.2)

/-- What has to finish before a pool has. -/
def HostPool.keys (p : Nat) : HostPool → List Key
  | .hostConnection isShutdown hasConnection => if isShutdown || !hasConnection then [(p, none)] else [(p, some 0)]
  | .hostConnectionPool size => if size = 0 then [(p, none)] else (List.range size).map fun c => (p, some c)

def poolKeys (setup : Setup κ) (p : Nat) : List Key := (setup.pools[p]?.map (HostPool.keys p)).getD []

def allKeys (setup : Setup κ) : List Key := (List.range setup.pools.length).flatMap (poolKeys setup)

variable {key : Key} {p q : Nat} {lost : List Key} {s : Switch κ}

theorem HostPool.keys_spec {p : Nat} (pool : HostPool) :
    pool.keys p ≠ [] ∧ (pool.keys p).Nodup ∧ ∀ key ∈ pool.keys p, key.1 = p := by
  cases pool with
  | hostConnection sd hc =>
    simp only [HostPool.keys]
    split <;> simp
  | hostConnectionPool size =>
    simp only [HostPool.keys]
    split
    · simp
    rename_i hs
    refine ⟨by simpa using hs, nodup_range.map fun a b hab => by simpa using hab, ?_⟩
    intro key hkey
    obtain ⟨c, -, rfl⟩ := mem_map.mp hkey
    rfl

theorem mem_poolKeys (h : key ∈ poolKeys setup p) :
    key.1 = p ∧ ∃ pool, setup.pools[p]? = some pool ∧ key ∈ pool.keys p := by
  unfold poolKeys at h
  cases hp : setup.pools[p]? with
  | none => simp [hp] at h
  | some pool =>
    simp only [hp] at h
    exact ⟨(pool.keys_spec).2.2 key h, pool, rfl, h⟩

theorem lt_of_mem_poolKeys (h : key ∈ poolKeys setup p) : p < setup.pools.length := by
  obtain ⟨-, pool, hp, -⟩ := mem_poolKeys h
  exact (List.getElem?_eq_some_iff.mp hp).1

theorem poolKeys_nodup {setup : Setup κ} {p : Nat} : (poolKeys setup p).Nodup := by
  unfold poolKeys
  cases setup.pools[p]? with
  | none => simp
  | some pool => exact (pool.keys_spec).2.1

theorem allKeys_nodup {setup : Setup κ} : (allKeys setup).Nodup := by
  rw [allKeys, nodup_flatMap]
  refine ⟨fun p _ => poolKeys_nodup, ?_⟩
  apply nodup_range.imp
  intro p q hpq key hp hq
  exact hpq ((mem_poolKeys hp).1.symm.trans (mem_poolKeys hq).1)

theorem mem_allKeys : key ∈ allKeys setup ↔ key.1 < setup.pools.length ∧ key ∈ poolKeys setup key.1 := by
  rw [allKeys, mem_flatMap]
  constructor
  · rintro ⟨p, hp, hkey⟩
    obtain ⟨rfl, -⟩ := mem_poolKeys hkey
    exact ⟨mem_range.mp hp, hkey⟩
  rintro ⟨hlt, hkey⟩
  exact ⟨key.1, mem_range.mpr hlt, hkey⟩

def Open (setup : Setup κ) (log : List Finish) (p : Nat) : Prop :=
  ∃ key ∈ poolKeys setup p, key ∉ log.map Finish.key

def hostErrors (log : List Finish) (p : Nat) : List Exc :=
  (log.filter (·.pool = p)).filterMap (·.outcome.exc)

variable {log : List Finish} {toAsk : List Nat}

theorem open_append_other {f : Finish} (hq : q ≠ f.pool) : Open setup (log ++ [f]) q ↔ Open setup log q := by
  constructor
  · rintro ⟨key, hkey, hf⟩
    refine ⟨key, hkey, fun hmem => hf ?_⟩
    rw [map_append]
    exact mem_append_left _ hmem
  rintro ⟨key, hkey, hf⟩
  refine ⟨key, hkey, fun hmem => ?_⟩
  rw [map_append, mem_append, map_singleton, mem_singleton] at hmem
  rcases hmem with hmem | rfl
  · exact hf hmem
  · exact hq (mem_poolKeys hkey).1.symm

theorem hostErrors_append {log : List Finish} {f : Finish} {q : Nat} :
    hostErrors (log ++ [f]) q = hostErrors log q ++ if f.pool = q then f.outcome.exc.toList else [] := by
  unfold hostErrors
  by_cases hq : f.pool = q
  · cases hexc : f.outcome.exc <;> simp [hq, hexc]
  · simp [hq]

theorem hostErrors_eq_nil (h : ∀ g ∈ log, g.pool ≠ p) : hostErrors log p = [] := by
  unfold hostErrors
  rw [filter_eq_nil_iff.mpr fun g hg => by simpa using h g hg, filterMap_nil]

/-! ## Where each of them is -/

/-- Every key is in exactly one place. -/
def Accounted (setup : Setup κ) (s : Switch κ) (lost : List Key) : Prop :=
  (↑(s.log.map Finish.key) + ↑(s.inFlight.map connKey) + ↑(s.toSet.map connKey) +
    ↑(s.toAsk.flatMap (poolKeys setup)) + ↑lost : Multiset Key) = ↑(allKeys setup)

def pending (setup : Setup κ) (s : Switch κ) (lost : List Key) : List Key :=
  s.inFlight.map connKey ++ s.toSet.map connKey ++ s.toAsk.flatMap (poolKeys setup) ++ lost

theorem accounted_iff :
    Accounted setup s lost ↔ (s.log.map Finish.key ++ pending setup s lost).Perm (allKeys setup) := by
  rw [← Multiset.coe_eq_coe]
  simp only [Accounted, pending, ← Multiset.coe_add, add_assoc]

structure Counted (setup : Setup κ) (s : Switch κ) : Prop where
  pools : ∀ p, p ∈ s.remainingPools ↔ p < setup.pools.length ∧ Open setup s.log p
  nodup : s.remainingPools.Nodup
  calls : s.remainingPools ≠ [] ∧ s.calls = [] ∨
    s.remainingPools = [] ∧ (∃ last ∈ s.log.getLast?, s.calls = [⟨hostErrors s.log last.pool, true⟩]) ∨
    setup.pools = [] ∧ s.log = [] ∧ s.calls = [⟨[], true⟩]

structure PoolsCounted (setup : Setup κ) (unasked : List Nat) (s : Switch κ) : Prop where
  remaining : ∀ p size, setup.pools[p]? = some (.hostConnectionPool size) → p ∉ unasked →
    ∀ c, c ∈ s.remaining p ↔ c < size ∧ (p, some c) ∉ s.log.map Finish.key
  nodup : ∀ p, (s.remaining p).Nodup
  errors : ∀ p size, setup.pools[p]? = some (.hostConnectionPool size) → s.errors p = hostErrors s.log p

section

variable (h : Accounted setup s lost)
include h

theorem fresh_of_accounted (hkey : key ∈ pending setup s lost) : key ∉ s.log.map Finish.key := by
  have hn := (accounted_iff.mp h).nodup_iff.mpr allKeys_nodup
  exact fun hlog => (disjoint_of_nodup_append hn) hlog hkey

theorem key_of_pending (hkey : key ∈ pending setup s lost) : key.1 < setup.pools.length ∧ key ∈ poolKeys setup key.1 :=
  mem_allKeys.mp ((accounted_iff.mp h).mem_iff.mp (mem_append_right _ hkey))

theorem all_finished (hd : ∀ p, p < setup.pools.length → ¬Open setup s.log p) :
    s.toSet = [] ∧ s.inFlight = [] ∧ lost = [] ∧ s.toAsk.flatMap (poolKeys setup) = [] := by
  have hnil : pending setup s lost = [] := by
    apply eq_nil_iff_forall_not_mem.mpr
    intro key hkey
    obtain ⟨hlt, hp⟩ := key_of_pending h hkey
    exact hd key.1 hlt ⟨key, hp, fresh_of_accounted h hkey⟩
  simp only [pending, append_eq_nil_iff, map_eq_nil_iff] at hnil
  exact ⟨hnil.1.1.2, hnil.1.1.1, hnil.2, hnil.1.2⟩

end

theorem poolKeys_ne_nil (hp : p < setup.pools.length) : poolKeys setup p ≠ [] := by
  unfold poolKeys
  rw [getElem?_eq_getElem hp]
  exact (keys_spec _).1

theorem toAsk_nil (hlt : ∀ p ∈ toAsk, p < setup.pools.length) (h : toAsk.flatMap (poolKeys setup) = []) :
    toAsk = [] := by
  cases toAsk with
  | nil => rfl
  | cons p rest =>
    rw [flatMap_cons, append_eq_nil_iff] at h
    exact absurd h.1 (poolKeys_ne_nil (hlt p mem_cons_self))

theorem poolFinished_eq {s : Switch κ} {p : Nat} {errs : List Exc} : poolFinished s p errs =
      { s with
        remainingPools := s.remainingPools.erase p
        sessionErrors := if errs ≠ [] then s.sessionErrors ++ [(p, errs)] else s.sessionErrors
        calls :=
          if s.remainingPools.erase p = [] then
            s.calls ++ [⟨errs, s.toAsk = [] ∧ s.toSet = [] ∧ s.inFlight = []⟩]
          else s.calls } := by
  by_cases he : errs = [] <;> by_cases hl : s.remainingPools.erase p = [] <;> simp [poolFinished, he, hl]

section Finishing

variable {s : Switch κ} {f : Finish} {unasked : List Nat}

theorem Counted.silent (h : Counted setup s) (hp : p ∈ s.remainingPools) : s.calls = [] := by
  obtain ⟨hlt, -⟩ := (h.pools p).mp hp
  rcases h.calls with ⟨-, hn⟩ | ⟨hnil, -⟩ | ⟨hnil, -⟩
  · exact hn
  · rw [hnil] at hp
    cases hp
  rw [hnil] at hlt
  cases hlt

theorem Counted.remains (h : Counted setup s) (hkey : key ∈ poolKeys setup p)
    (hf : key ∉ s.log.map Finish.key) : p ∈ s.remainingPools :=
  (h.pools p).mpr ⟨lt_of_mem_poolKeys hkey, key, hkey, hf⟩

theorem counted_poolFinished {lost : List Key} (hcnt : Counted setup s) (hkey : f.key ∈ poolKeys setup f.pool)
    (hfr : f.key ∉ s.log.map Finish.key) (hd : ¬Open setup (s.log ++ [f]) f.pool)
    (ha : ∀ p ∈ s.toAsk, p < setup.pools.length)
    (hacc : Accounted setup { s with log := s.log ++ [f] } lost) {errs : List Exc}
    (he : errs = hostErrors (s.log ++ [f]) f.pool) :
    Counted setup (poolFinished { s with log := s.log ++ [f] } f.pool errs) := by
  have hc : s.calls = [] := hcnt.silent (hcnt.remains hkey hfr)
  have hpl : ∀ p, p ∈ s.remainingPools.erase f.pool ↔ p < setup.pools.length ∧ Open setup (s.log ++ [f]) p := by
    intro p
    rw [hcnt.nodup.mem_erase_iff, hcnt.pools]
    by_cases hp : p = f.pool
    · subst hp
      simp [hd]
    · simp [hp, open_append_other hp]
  have hn := hcnt.nodup.erase f.pool
  rw [poolFinished_eq]
  refine ⟨hpl, hn, ?_⟩
  by_cases hl : s.remainingPools.erase f.pool = []
  · right; left
    have hnn : ∀ p, p < setup.pools.length → ¬Open setup (s.log ++ [f]) p := by
      intro p hp ho
      simpa [hl] using (hpl p).mpr ⟨hp, ho⟩
    obtain ⟨hset, hf, -, hask⟩ := all_finished hacc hnn
    dsimp only at hset hf hask
    simp [hl, hc, hset, hf, toAsk_nil ha hask, he]
  left
  exact ⟨hl, by simp [hl, hc]⟩

theorem counted_logged (hcnt : Counted setup s) (hkey : f.key ∈ poolKeys setup f.pool)
    (hf : f.key ∉ s.log.map Finish.key) (ho : Open setup (s.log ++ [f]) f.pool) :
    Counted setup { s with log := s.log ++ [f] } := by
  have hmem : f.pool ∈ s.remainingPools := hcnt.remains hkey hf
  refine ⟨?_, hcnt.nodup, .inl ⟨ne_nil_of_mem hmem, hcnt.silent hmem⟩⟩
  intro p
  by_cases hp : p = f.pool
  · subst hp
    simp [hmem, lt_of_mem_poolKeys hkey, ho]
  · rw [hcnt.pools, open_append_other hp]

theorem poolsCounted_poolFinished (h : PoolsCounted setup unasked s) (p : Nat) (errs : List Exc) :
    PoolsCounted setup unasked (poolFinished s p errs) := by
  rw [poolFinished_eq]
  exact ⟨h.remaining, h.nodup, h.errors⟩

theorem poolsCounted_logged (h : PoolsCounted setup unasked s)
    (hf : ∀ size, setup.pools[f.pool]? = some (.hostConnectionPool size) → f.conn = none ∧ f.outcome.exc = none) :
    PoolsCounted setup unasked { s with log := s.log ++ [f] } := by
  refine ⟨?_, h.nodup, ?_⟩
  · intro p size hp ha c
    have hne : f.key ≠ (p, some c) := by
      intro heq
      obtain ⟨rfl, hc⟩ := Prod.mk.inj heq
      rw [(hf size hp).1] at hc
      cases hc
    rw [h.remaining p size hp ha, map_append, mem_append, map_singleton]
    simp [Ne.symm hne]
  intro p size hp
  rw [h.errors p size hp, hostErrors_append]
  by_cases hpl : f.pool = p
  · subst hpl
    simp [(hf size hp).2]
  · simp [hpl]

variable {c p : Nat} {outcome : Outcome}

theorem poolsCounted_erase {size : Nat} (h : PoolsCounted setup unasked s)
    (hp : setup.pools[p]? = some (.hostConnectionPool size)) : PoolsCounted setup unasked { s with
      log := s.log ++ [⟨p, some c, outcome⟩]
      remaining := Function.update s.remaining p ((s.remaining p).erase c)
      errors := Function.update s.errors p (s.errors p ++ outcome.exc.toList) } := by
  refine ⟨?_, ?_, ?_⟩
  · intro q size' hq ha d
    by_cases hqp : q = p
    · subst hqp
      simp only [Function.update_self, (h.nodup q).mem_erase_iff, h.remaining q size' hq ha, map_append,
        mem_append, map_singleton, mem_singleton, Finish.key, Prod.mk.injEq, some.injEq]
      tauto
    simp [h.remaining q size' hq ha, Finish.key, hqp]
  · intro q
    by_cases hqp : q = p
    · subst hqp
      simpa using (h.nodup q).erase c
    · simpa [Function.update_of_ne hqp] using h.nodup q
  intro q size' hq
  rw [hostErrors_append]
  by_cases hqp : q = p
  · subst hqp
    simp [h.errors q size' hq]
  · simp [Function.update_of_ne hqp, Ne.symm hqp, h.errors q size' hq]

theorem poolKeys_of_conn (hkey : (p, some c) ∈ poolKeys setup p) :
    (∃ sd hc, setup.pools[p]? = some (.hostConnection sd hc) ∧ poolKeys setup p = [(p, some c)]) ∨
    ∃ size, setup.pools[p]? = some (.hostConnectionPool size) ∧
      poolKeys setup p = (range size).map fun d => (p, some d) := by
  obtain ⟨-, pool, hp, hmem⟩ := mem_poolKeys hkey
  unfold poolKeys
  rw [hp]
  cases pool with
  | hostConnection sd hc =>
    refine .inl ⟨sd, hc, rfl, ?_⟩
    simp only [map_some, getD_some, HostPool.keys] at hmem ⊢
    split at hmem
    · simp at hmem
    rename_i hask
    rw [if_neg hask, mem_singleton.mp hmem]
  | hostConnectionPool size =>
    refine .inr ⟨size, rfl, ?_⟩
    simp only [map_some, getD_some, HostPool.keys] at hmem ⊢
    split at hmem
    · simp at hmem
    rename_i hs
    rw [if_neg hs]

theorem key_of_logged {lost : List Key} (h : Accounted setup s lost) {g : Finish} (hg : g ∈ s.log) :
    g.key ∈ poolKeys setup g.pool :=
  (mem_allKeys.mp ((accounted_iff.mp h).mem_iff.mp (mem_append_left _ (mem_map_of_mem hg)))).2

theorem single_finished {lost : List Key} (hacc : Accounted setup s lost)
    (hk : poolKeys setup f.pool = [f.key]) (hf : f.key ∉ s.log.map Finish.key) :
    ¬Open setup (s.log ++ [f]) f.pool ∧ f.outcome.exc.toList = hostErrors (s.log ++ [f]) f.pool := by
  constructor
  · rintro ⟨key, hkey, hnot⟩
    rw [hk] at hkey
    simp [hkey] at hnot
  have ho : ∀ g ∈ s.log, g.pool ≠ f.pool := by
    intro g hg hp
    have hgk := key_of_logged hacc hg
    rw [hp, hk, mem_singleton] at hgk
    exact hf (hgk ▸ mem_map_of_mem hg)
  rw [hostErrors_append, if_pos rfl, hostErrors_eq_nil ho, nil_append]

theorem accounted_logged {lost : List Key} (h : Accounted setup s (f.key :: lost)) :
    Accounted setup { s with log := s.log ++ [f] } lost := by
  rw [accounted_iff] at h ⊢
  refine Perm.trans ?_ h
  rw [map_append, append_assoc]
  change Perm (_ ++ f.key :: (_ ++ lost)) _
  exact perm_middle.symm.append_left _

theorem counted_connectionFinished {lost : List Key} (hcnt : Counted setup s)
    (hpools : PoolsCounted setup unasked s) (hacc : Accounted setup s ((p, some c) :: lost))
    (ha : ∀ q ∈ s.toAsk, q < setup.pools.length) (hp : p ∉ unasked) {outcome : Outcome} :
    Counted setup (connectionFinished setup s p c outcome.exc outcome) ∧
    PoolsCounted setup unasked (connectionFinished setup s p c outcome.exc outcome) := by
  let f : Finish := ⟨p, some c, outcome⟩
  have hpn : f.key ∈ pending setup s ((p, some c) :: lost) := by simp [pending, f, key]
  have hf := fresh_of_accounted hacc hpn
  have hkey : (p, some c) ∈ poolKeys setup p := (key_of_pending hacc hpn).2
  have hl : Accounted setup { s with log := s.log ++ [f] } lost := accounted_logged hacc
  rcases poolKeys_of_conn hkey with ⟨sd, hasConnection, hpl, hk⟩ | ⟨size, hpl, hk⟩
  · obtain ⟨hdn, he⟩ := single_finished hacc hk hf
    have hc : connectionFinished setup s p c outcome.exc outcome =
        poolFinished { s with log := s.log ++ [f] } p outcome.exc.toList := by
      simp [connectionFinished, hpl, f]
    rw [hc]
    refine ⟨counted_poolFinished hcnt hkey hf hdn ha hl he, ?_⟩
    apply poolsCounted_poolFinished
    apply poolsCounted_logged hpools
    intro size hs
    rw [hpl] at hs
    cases hs
  let s' : Switch κ := { s with
    remaining := Function.update s.remaining p ((s.remaining p).erase c)
    errors := Function.update s.errors p (s.errors p ++ outcome.exc.toList) }
  have hcnt' : Counted setup s' := { hcnt with }
  have hp' : PoolsCounted setup unasked { s' with log := s'.log ++ [f] } := poolsCounted_erase hpools hpl
  have ho : s'.remaining p = [] ↔ ¬Open setup (s.log ++ [f]) p := by
    rw [eq_nil_iff_forall_not_mem, Open, hk]
    constructor
    · rintro hn ⟨key, hkey', hnot⟩
      obtain ⟨d, hd, rfl⟩ := mem_map.mp hkey'
      exact hn d ((hp'.remaining p size hpl hp d).mpr ⟨mem_range.mp hd, hnot⟩)
    intro hdn d hd
    obtain ⟨hlt, hnot⟩ := (hp'.remaining p size hpl hp d).mp hd
    exact hdn ⟨_, mem_map.mpr ⟨d, mem_range.mpr hlt, rfl⟩, hnot⟩
  have hc : connectionFinished setup s p c outcome.exc outcome =
      if s'.remaining p = [] then poolFinished { s' with log := s'.log ++ [f] } p (s'.errors p)
      else { s' with log := s'.log ++ [f] } := by
    simp [connectionFinished, hpl, s', f]
  rw [hc]
  split
  · rename_i hn
    refine ⟨?_, poolsCounted_poolFinished hp' _ _⟩
    exact counted_poolFinished hcnt' hkey hf (ho.mp hn) ha hl (hp'.errors p size hpl)
  rename_i hsm
  exact ⟨counted_logged hcnt' hkey hf (not_not.mp (mt ho.mpr hsm)), hp'⟩

end Finishing

/-! ## Every step -/

/-- What holds in every state of a switch. -/
structure Switching (setup : Setup κ) (lost : List Key) (unasked : List Nat) (s : Switch κ) : Prop where
  accounted : Accounted setup s lost
  asks : ∀ p ∈ s.toAsk, p < setup.pools.length
  ahead : ∀ p ∈ s.toAsk, p ∈ unasked
  asked : ∀ x ∈ s.inFlight ++ s.toSet, x.1 ∉ unasked
  counted : Counted setup s
  pools : PoolsCounted setup unasked s
  outcomes : ∀ f ∈ s.log, ∀ c, f.conn = some c →
    ((s.connections f.pool c).keyspace = some setup.keyspace ↔ f.outcome.isSet = true)
  empties : ∀ f ∈ s.log, f.conn = none →
    setup.pools[f.pool]? = some (.hostConnectionPool 0) ∧ f.outcome = .noConnections
  flying : ∀ x ∈ s.inFlight,
    (s.connections x.1 x.2).keyspace ≠ some setup.keyspace ∧ (s.connections x.1 x.2).isDown = false

theorem poolFinished_frame {s : Switch κ} (p : Nat) (errs : List Exc) : ∃ remainingPools sessionErrors calls,
    poolFinished s p errs = { s with remainingPools, sessionErrors, calls } :=
  ⟨_, _, _, poolFinished_eq⟩

theorem connectionFinished_frame {setup : Setup κ} {s : Switch κ} {p c : Nat} (error : Option Exc) {outcome : Outcome} :
    ∃ remaining errors remainingPools sessionErrors calls, connectionFinished setup s p c error outcome =
      { s with
        log := s.log ++ [⟨p, some c, outcome⟩], remaining, errors, remainingPools, sessionErrors, calls } := by
  unfold connectionFinished
  split
  · simp only
    split
    · obtain ⟨remainingPools, sessionErrors, calls, heq⟩ := poolFinished_frame p _
      exact ⟨_, _, remainingPools, sessionErrors, calls, heq⟩
    · exact ⟨_, _, s.remainingPools, s.sessionErrors, s.calls, rfl⟩
  all_goals
    obtain ⟨remainingPools, sessionErrors, calls, heq⟩ := poolFinished_frame p _
    exact ⟨s.remaining, s.errors, remainingPools, sessionErrors, calls, heq⟩

variable {c : Nat} {unasked : List Nat}

theorem Switching.moved {inFlight toSet : List (Nat × Nat)} {lost' : List Key} (h : Switching setup lost unasked s)
    (hk : (pending setup { s with inFlight, toSet, toAsk } lost').Perm (pending setup s lost))
    (hask : toAsk ⊆ s.toAsk) (ha : ∀ x ∈ inFlight ++ toSet, x.1 ∉ unasked) (hf : ∀ x ∈ inFlight, x ∈ s.inFlight ∨
      (s.connections x.1 x.2).keyspace ≠ some setup.keyspace ∧ (s.connections x.1 x.2).isDown = false) :
    Switching setup lost' unasked { s with inFlight, toSet, toAsk }  where
  accounted := accounted_iff.mpr ((hk.append_left _).trans (accounted_iff.mp h.accounted))
  asks p hp := h.asks p (hask hp)
  ahead p hp := h.ahead p (hask hp)
  asked := ha
  counted := { h.counted with }
  pools := { h.pools with }
  outcomes := h.outcomes
  empties := h.empties
  flying x hx := (hf x hx).elim (h.flying x) id

theorem switching_finished (h : Switching setup ((p, some c) :: lost) unasked s) (hp : p ∉ unasked) {outcome : Outcome}
    (hc : (s.connections p c).keyspace = some setup.keyspace ↔ outcome.isSet) :
    Switching setup lost unasked (connectionFinished setup s p c outcome.exc outcome) := by
  obtain ⟨hcnt, hpl⟩ := counted_connectionFinished h.counted h.pools h.accounted h.asks hp
  obtain ⟨remaining, errs, rps, ses, calls, heq⟩ :=
    connectionFinished_frame outcome.exc
  rw [heq] at hcnt hpl ⊢
  exact { h with
    accounted := accounted_logged h.accounted
    counted := hcnt
    pools := hpl
    outcomes := forall_mem_append.mpr ⟨h.outcomes, by simpa using hc⟩
    empties := forall_mem_append.mpr ⟨h.empties, by simp⟩ }

variable {conn : Connection κ}

theorem setConnection_self {s : Switch κ} {p c : Nat} : (s.setConnection p c conn).connections p c = conn := by
  simp [Switch.setConnection]

theorem setConnection_other {s : Switch κ} {d : Nat} (h : ¬(q = p ∧ d = c)) :
    (s.setConnection p c conn).connections q d = s.connections q d := by
  by_cases hp : q = p
  · have hc : d ≠ c := fun hc => h ⟨hp, hc⟩
    simp [Switch.setConnection, hp, hc]
  · simp [Switch.setConnection, hp]

theorem switching_setConnection (h : Switching setup lost unasked s) (hfl : (p, c) ∉ s.inFlight)
    (hl : (p, some c) ∈ s.log.map Finish.key → conn.keyspace = (s.connections p c).keyspace) :
    Switching setup lost unasked (s.setConnection p c conn) := by
  refine { h with counted := { h.counted with }, pools := { h.pools with }, outcomes := ?_, flying := ?_ }
  · intro f hf d hd
    rw [← h.outcomes f hf d hd]
    by_cases hs : f.pool = p ∧ d = c
    · obtain ⟨rfl, rfl⟩ := hs
      rw [setConnection_self, hl (mem_map.mpr ⟨f, hf, by rw [key, hd]⟩)]
    · rw [setConnection_other hs]
  intro x hx
  have ho : ¬(x.1 = p ∧ x.2 = c) := by
    rintro ⟨rfl, rfl⟩
    exact hfl hx
  rw [setConnection_other ho]
  exact h.flying x hx

theorem switching_flight (h : Switching setup lost unasked s) (hf : (p, c) ∈ s.inFlight) {outcome : Outcome}
    (hc : conn.keyspace = some setup.keyspace ↔ outcome.isSet) :
    Switching setup lost unasked (connectionFinished setup
      (Switch.setConnection { s with inFlight := s.inFlight.erase (p, c) } p c conn) p c outcome.exc outcome) := by
  have hk := (perm_cons_erase hf).map connKey
  have hn : (s.inFlight.map connKey).Nodup := by
    have hall := (accounted_iff.mp h.accounted).nodup_iff.mpr allKeys_nodup
    simp only [pending, append_assoc] at hall
    exact hall.of_append_right.of_append_left
  have hm : Switching setup ((p, some c) :: lost) unasked { s with inFlight := s.inFlight.erase (p, c) } := by
    refine h.moved ?_ (fun _ => id) ?_ fun x hx => .inl (mem_of_mem_erase hx)
    · exact perm_middle.trans (((hk.symm.append_right _).append_right _).append_right _)
    · exact fun x hx => h.asked x ((erase_sublist.append_right _).subset hx)
  have hg : (p, c) ∉ s.inFlight.erase (p, c) := fun hmem =>
    ((Nodup.of_map _ hn).mem_erase_iff.mp hmem).1 rfl
  have hp : (p, some c) ∈ pending setup { s with inFlight := s.inFlight.erase (p, c) } ((p, some c) :: lost) := by
    simp [pending]
  refine switching_finished (switching_setConnection hm hg fun hmem =>
    absurd hmem (fresh_of_accounted hm.accounted hp))
    (h.asked _ (mem_append_left _ hf)) ?_
  rw [setConnection_self]
  exact hc

/-! ## Asking a pool -/

section Asked

variable {remaining : Nat → List Nat} {rest : List Nat}

theorem moved_ask (h : Switching setup lost unasked s) (hask : s.toAsk = p :: rest) :
    Switching setup (poolKeys setup p ++ lost) unasked { s with toAsk := rest } ∧ p ∉ rest := by
  constructor
  · refine h.moved ?_ (by simp [hask]) h.asked fun x hx => .inl hx
    simp only [pending, hask, flatMap_cons, append_assoc]
    exact ((perm_append_comm_assoc _ _ _).append_left _).append_left _
  intro hmem
  have hn := (accounted_iff.mp h.accounted).nodup_iff.mpr allKeys_nodup
  simp only [pending, hask, append_assoc] at hn
  have hf := hn.of_append_right.of_append_right.of_append_right.of_append_left
  obtain ⟨key, hkey⟩ := exists_mem_of_ne_nil _ (poolKeys_ne_nil (h.asks p (by simp [hask])))
  exact disjoint_of_nodup_append hf hkey (mem_flatMap.mpr ⟨p, hmem, hkey⟩)

variable (h : Switching setup (poolKeys setup p ++ lost) unasked s)
include h

theorem switching_asked (hp : p ∉ s.toAsk) (ho : ∀ q, q ≠ p → remaining q = s.remaining q) (hn : (remaining p).Nodup)
    (hs : ∀ size, setup.pools[p]? = some (.hostConnectionPool size) → remaining p = range size) :
    Switching setup (poolKeys setup p ++ lost) (unasked.filter (· ≠ p)) { s with remaining } := by
  refine { h with ahead := ?_, asked := ?_, counted := { h.counted with }, pools := ⟨?_, ?_, h.pools.errors⟩ }
  · intro q hq
    exact mem_filter.mpr ⟨h.ahead q hq, by simpa using fun heq : q = p => hp (heq ▸ hq)⟩
  · intro x hx hmem
    exact h.asked x hx (mem_filter.mp hmem).1
  · intro q size hq hmem c
    by_cases hqp : q = p
    · subst hqp
      simp only [hs size hq, mem_range]
      refine ⟨fun hc => ⟨hc, fresh_of_accounted h.accounted (mem_append_right _ (mem_append_left _ ?_))⟩,
        fun hc => hc.1⟩
      simp [poolKeys, hq, HostPool.keys, Nat.ne_of_gt (Nat.zero_lt_of_lt hc), hc]
    simp only [ho q hqp]
    exact h.pools.remaining q size hq (fun hun => hmem (mem_filter.mpr ⟨hun, by simpa using hqp⟩)) c
  intro q
  by_cases hqp : q = p
  · exact hqp ▸ hn
  simp only [ho q hqp]
  exact h.pools.nodup q

theorem switching_toSet {toSet : List (Nat × Nat)}
    (hp : p ∉ unasked) (hset : s.toSet = []) (hk : poolKeys setup p = toSet.map connKey) (hpl : ∀ x ∈ toSet, x.1 = p) :
    Switching setup lost unasked { s with toSet } := by
  refine h.moved ?_ (fun _ => id) ?_ fun x hx => .inl hx
  · simp only [pending, hset, hk, append_assoc]
    exact (perm_append_comm_assoc _ _ _).append_left _
  refine forall_mem_append.mpr ⟨fun x hx => h.asked x (mem_append_left _ hx), fun x hx => ?_⟩
  rw [hpl x hx]
  exact hp

theorem switching_askEmpty (hp : setup.pools[p]? = some (.hostConnectionPool 0)) :
    Switching setup lost unasked (poolFinished { s with log := s.log ++ [⟨p, none, .noConnections⟩] } p []) := by
  let f : Finish := ⟨p, none, .noConnections⟩
  have hk : poolKeys setup p = [f.key] := by simp [poolKeys, hp, HostPool.keys, f, key]
  have hmem : f.key ∈ poolKeys setup p := by simp [hk]
  have hf := fresh_of_accounted h.accounted (mem_append_right _ (mem_append_left _ hmem))
  obtain ⟨hd, he⟩ := single_finished h.accounted hk hf
  have hacc := h.accounted
  rw [hk] at hacc
  have hcnt := counted_poolFinished h.counted hmem hf hd h.asks (accounted_logged hacc) he
  have hpl := poolsCounted_poolFinished (poolsCounted_logged (f := f) h.pools fun _ _ => ⟨rfl, rfl⟩) p []
  obtain ⟨rps, ses, calls, heq⟩ := poolFinished_frame p []
  have he' : f.outcome.exc.toList = [] := rfl
  rw [he', heq] at hcnt
  rw [heq] at hpl ⊢
  exact { h with
    accounted := accounted_logged hacc
    counted := hcnt
    pools := hpl
    outcomes := forall_mem_append.mpr ⟨h.outcomes, by simp⟩
    empties := forall_mem_append.mpr ⟨h.empties, by simp [f, hp]⟩ }

end Asked

theorem switching_start {setup : Setup κ} (conns : Nat → Nat → Connection κ) :
    Switching setup [] (range setup.pools.length) (setKeyspaceForAllPools setup conns) := by
  refine ⟨?_, fun p hp => mem_range.mp hp, fun p hp => hp, fun x hx => (by cases hx), ⟨?_, nodup_range, ?_⟩,
    ⟨?_, fun _ => nodup_nil, fun _ _ _ => rfl⟩, fun f hf => (by cases hf), fun f hf => (by cases hf),
    fun x hx => (by cases hx)⟩
  · simp [Accounted, setKeyspaceForAllPools, allKeys]
  · intro p
    simp only [setKeyspaceForAllPools, mem_range]
    refine ⟨fun hp => ⟨hp, ?_⟩, fun hp => hp.1⟩
    obtain ⟨key, hkey⟩ := exists_mem_of_ne_nil _ (poolKeys_ne_nil hp)
    exact ⟨key, hkey, by simp⟩
  · by_cases hnil : setup.pools = []
    · exact .inr (.inr ⟨hnil, rfl, by simp [setKeyspaceForAllPools, hnil]⟩)
    · exact .inl ⟨by simpa [setKeyspaceForAllPools] using hnil, by simp [setKeyspaceForAllPools, hnil]⟩
  intro p size hp hmem
  exact absurd (mem_range.mpr (List.getElem?_eq_some_iff.mp hp).1) hmem

/-! ## The report -/

theorem logged_of_complete (h : Switching setup [] unasked s) (hcmp : Complete s) (hkey : key ∈ poolKeys setup p) :
    ∃ f ∈ s.log, f.key = key := by
  obtain ⟨hask, hset, hf⟩ := hcmp
  have hmem := (accounted_iff.mp h.accounted).mem_iff.mpr (mem_allKeys.mpr
    ⟨(mem_poolKeys hkey).1 ▸ lt_of_mem_poolKeys hkey, (mem_poolKeys hkey).1 ▸ hkey⟩)
  simp only [pending, hask, hset, hf, map_nil, flatMap_nil, append_nil] at hmem
  exact mem_map.mp hmem

theorem HostPool.conn_mem_keys {pool : HostPool} : (p, some c) ∈ pool.keys p ↔ c < pool.size ∧ pool.answers := by
  cases pool with
  | hostConnection sd hc =>
    cases sd <;> cases hc <;> simp [HostPool.keys, size, answers]
  | hostConnectionPool size =>
    by_cases hs : size = 0 <;> simp [HostPool.keys, HostPool.size, HostPool.answers, hs]

theorem unset_iff (h : Switching setup [] unasked s) (hcmp : Complete s) :
    (∃ p pool c, setup.pools[p]? = some pool ∧ c < pool.size ∧
      (s.connections p c).keyspace ≠ some setup.keyspace) ↔ ∃ f ∈ s.log, f.outcome.isSet = false := by
  constructor
  · rintro ⟨p, pool, c, hp, hc, hu⟩
    have hk : poolKeys setup p = pool.keys p := by simp [poolKeys, hp]
    cases ha : pool.answers with
    | true =>
      obtain ⟨f, hf, hfk⟩ := logged_of_complete h hcmp (hk ▸ conn_mem_keys.mpr ⟨hc, ha⟩)
      obtain ⟨rfl, hcn⟩ := Prod.mk.inj hfk
      exact ⟨f, hf, by simpa using mt (h.outcomes f hf c hcn).mpr hu⟩
    | false =>
      have hn : (p, none) ∈ poolKeys setup p := by
        cases pool with
        | hostConnection sd hasConnection =>
          cases sd <;> cases hasConnection <;> simp_all [HostPool.keys, answers]
        | hostConnectionPool size => cases ha
      obtain ⟨f, hf, hfk⟩ := logged_of_complete h hcmp hn
      obtain ⟨rfl, hcn⟩ := Prod.mk.inj hfk
      rw [(h.empties f hf hcn).1] at hp
      cases hp
      cases ha
  rintro ⟨f, hf, hfl⟩
  cases hcn : f.conn with
  | none =>
    rw [(h.empties f hf hcn).2] at hfl
    cases hfl
  | some c =>
    obtain ⟨-, pool, hp, hmem⟩ := mem_poolKeys (key_of_logged h.accounted hf)
    rw [key, hcn] at hmem
    refine ⟨f.pool, pool, c, hp, (conn_mem_keys.mp hmem).1, ?_⟩
    rw [Ne, h.outcomes f hf c hcn, hfl]
    exact Bool.false_ne_true

theorem hostErrors_ne_nil : hostErrors log p ≠ [] ↔ ∃ x ∈ log, x.pool = p ∧ x.outcome.exc.isSome := by
  unfold hostErrors
  rw [Ne, filterMap_eq_nil_iff]
  simp [not_forall, isSome_iff_ne_none]

theorem lastReports_iff {last : Finish} (hl : log.getLast? = some last) :
    LastReports log ↔ (hostErrors log last.pool ≠ [] ↔ ∃ f ∈ log, f.outcome.isSet = false) := by
  have hall : (∀ x ∈ log, x.outcome.isSet) ↔ ¬∃ f ∈ log, f.outcome.isSet = false := by simp
  have hf : hostErrors log last.pool ≠ [] → ∃ f ∈ log, f.outcome.isSet = false := by
    rw [hostErrors_ne_nil]
    rintro ⟨x, hx, -, hexc⟩
    refine ⟨x, hx, ?_⟩
    cases ho : x.outcome <;> simp_all [Outcome.exc, Outcome.isSet]
  rw [LastReports, hall, hl]
  simp only [mem_some_iff, exists_eq_left', ← hostErrors_ne_nil]
  exact ⟨fun h => ⟨hf, fun hE => h.resolve_left (not_not_intro hE)⟩, fun h => (Classical.em _).symm.imp_right h.mpr⟩

/-! ## Every act -/

section Steps

variable [DecidableEq κ]

variable {lost : List Key} {s : Switch κ} {unasked : List Nat} {c p : Nat}

section

variable (h : Switching setup lost unasked s)
include h

theorem switching_respond {p c : Nat} (resp : Response) :
    Switching setup lost unasked (step setup s (.respond p c resp)) := by
  simp only [step]
  split
  · rename_i hf
    obtain ⟨hu, hup⟩ := h.flying _ hf
    cases resp with
    | result => exact switching_flight h hf (by simp [Outcome.isSet])
    | invalidRequest =>
      have hs : Switch.setConnection { s with inFlight := s.inFlight.erase (p, c) } p c (s.connections p c) =
          { s with inFlight := s.inFlight.erase (p, c) } := by simp [Switch.setConnection]
      rw [← hs]
      exact switching_flight h hf (by simpa [Outcome.isSet] using hu)
    | error =>
      simp only [processResult, defunct, hup]
      exact switching_flight h hf (by simpa [Outcome.isSet] using hu)
  · exact h

theorem switching_lose {p c : Nat} : Switching setup lost unasked (step setup s (.lose p c)) := by
  simp only [step]
  split
  · rename_i hf
    have hs : Switch.setConnection { s.setConnection p c { s.connections p c with isDown := true } with
          inFlight := s.inFlight.erase (p, c) } p c { s.connections p c with isDown := true } =
        Switch.setConnection { s with inFlight := s.inFlight.erase (p, c) } p c
          { s.connections p c with isDown := true } := by
      simp [Switch.setConnection]
    simp only [setConnection_self, defunct, if_true, hs]
    exact switching_flight h hf (by simpa [Outcome.isSet] using (h.flying _ hf).1)
  rename_i hf
  exact switching_setConnection h hf fun _ => rfl

theorem switching_set {rest : List (Nat × Nat)} (hset : s.toSet = (p, c) :: rest) :
    ∃ lost', Switching setup lost' unasked (setKeyspaceAsync setup { s with toSet := rest } p c) ∧
      (lost' = [] ↔ lost = [] ∧
        ((s.connections p c).keyspace = some setup.keyspace ∨ (s.connections p c).isDown = false)) := by
  have hp : p ∉ unasked := h.asked (p, c) (by simp [hset])
  have ha : ∀ x ∈ s.inFlight ++ rest, x.1 ∉ unasked := fun x hx =>
    h.asked x (hset ▸ ((sublist_cons_self _ _).append_left _).subset hx)
  by_cases hks : (s.connections p c).keyspace = some setup.keyspace
  · refine ⟨lost, ?_, by simp [hks]⟩
    rw [setKeyspaceAsync, if_pos hks]
    refine switching_finished (h.moved ?_ (fun _ => id) ha fun x hx => .inl hx) hp
      (by simpa [Outcome.isSet] using hks)
    refine perm_iff_count.mpr fun key => ?_
    simp only [pending, hset, map_cons, count_append, count_cons, connKey]
    omega
  rw [setKeyspaceAsync, if_neg hks]
  cases hd : (s.connections p c).isDown with
  | true =>
    -- Everything that was still to be asked is lost.
    refine ⟨s.toSet.map connKey ++ s.toAsk.flatMap (poolKeys setup) ++ lost, ?_, by simp [hks, hset]⟩
    refine h.moved (by simp [pending]) (nil_subset _) ?_ fun x hx => .inl hx
    exact fun x hx => ha x (((nil_sublist _).append_left _).subset hx)
  | false =>
    refine ⟨lost, ?_, by simp⟩
    refine h.moved (by simp [pending, hset]) (fun _ => id) ?_ ?_
    · simpa [hset] using h.asked
    · exact forall_mem_append.mpr ⟨fun x hx => .inl hx, by simp [hks, hd]⟩

theorem switching_ask {rest : List Nat} (hset : s.toSet = []) (hask : s.toAsk = p :: rest) :
    ∃ lost' unasked', Switching setup lost' unasked' (askPool setup { s with toAsk := rest } p) ∧
      (lost' = [] ↔ lost = [] ∧ Reaches setup s .advance) := by
  obtain ⟨hm, hrs⟩ := moved_ask h hask
  have hlt : p < setup.pools.length := h.asks p (by simp [hask])
  obtain ⟨pool, hp⟩ : ∃ pool, setup.pools[p]? = some pool := ⟨_, getElem?_eq_getElem hlt⟩
  have hr : Reaches setup s .advance ↔ pool.answers := by simp [Reaches, reaches, hset, hask, hp]
  cases pool with
  | hostConnection sd hc =>
    have ha := switching_asked hm hrs (fun _ _ => rfl) (h.pools.nodup p) (by simp [hp])
    cases hno : sd || !hc with
    | true =>
      refine ⟨poolKeys setup p ++ lost, unasked.filter (· ≠ p), ?_, ?_⟩
      · simp only [askPool, hp, hno]
        exact ha
      have hk : poolKeys setup p = [(p, none)] := by simp [poolKeys, hp, HostPool.keys, hno]
      cases sd <;> cases hc <;> simp_all [answers]
    | false =>
      refine ⟨lost, unasked.filter (· ≠ p), ?_, by cases sd <;> cases hc <;> simp_all [answers]⟩
      simp only [askPool, hp, hno]
      exact switching_toSet ha (by simp) hset (by simp [poolKeys, hp, HostPool.keys, hno, connKey]) (by simp)
  | hostConnectionPool size =>
    have ha := switching_asked hm hrs
      (fun q hq => Function.update_of_ne hq (range size) s.remaining) (by simpa using nodup_range) (by simp [hp])
    refine ⟨lost, unasked.filter (· ≠ p), ?_, by simp [hr, answers]⟩
    by_cases hs : size = 0
    · subst hs
      simp only [askPool, hp]
      exact switching_askEmpty ha hp
    simp only [askPool, hp, hs]
    exact switching_toSet ha (by simp) hset (by simp [poolKeys, hp, HostPool.keys, hs, connKey]) (by simp)

theorem switching_step (act : Act) : ∃ lost' unasked', Switching setup lost' unasked' (step setup s act) ∧
      (lost' = [] ↔ lost = [] ∧ Reaches setup s act) := by
  cases act with
  | respond p c resp => exact ⟨lost, unasked, switching_respond h resp, by simp [Reaches, reaches]⟩
  | lose p c => exact ⟨lost, unasked, switching_lose h, by simp [Reaches, reaches]⟩
  | advance =>
    cases hset : s.toSet with
    | cons x rest =>
      obtain ⟨lost', hn, hl⟩ := switching_set h hset
      refine ⟨lost', unasked, ?_, ?_⟩
      · simp only [step, hset]
        exact hn
      rw [hl]
      simp [Reaches, reaches, hset]
    | nil =>
      cases hask : s.toAsk with
      | nil =>
        refine ⟨lost, unasked, ?_, by simp [Reaches, reaches, hset, hask]⟩
        simp only [step, hset, hask]
        exact h
      | cons p rest =>
        have hs : step setup s .advance = askPool setup { s with toAsk := rest } p := by
          simp [step, hset, hask]
        rw [hs]
        exact switching_ask h hset hask

theorem switching_run {acts : List Act} : ∃ lost' unasked', Switching setup lost' unasked' (run (step setup) s acts) ∧
      (lost' = [] ↔ lost = [] ∧ RunOk (step setup) (Reaches setup) s acts) := by
  induction acts generalizing s lost unasked with
  | nil => exact ⟨lost, unasked, h, by simp [RunOk]⟩
  | cons act acts ih =>
    obtain ⟨lost₁, unasked₁, hs, hl⟩ := switching_step h act
    obtain ⟨lost₂, unasked₂, hrun, hl'⟩ := ih hs
    refine ⟨lost₂, unasked₂, hrun, ?_⟩
    rw [hl', hl, RunOk, and_assoc]

end

end Steps

def askBoth : List Act := [.advance, .advance, .advance, .advance]

def bothPools : Setup Nat := ⟨1, [.hostConnection false true, .hostConnectionPool 1]⟩

end CqlDriver.Session
