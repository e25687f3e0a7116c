import CqlDriver.Connection.Timers
import Mathlib.Order.Bounds.Basic

/-! # What a service call does -/

namespace CqlDriver.Timers

open Lib Heap List Turn

variable {T : Type} [LinearOrder T] {cb : Callbacks T} {now : T}

def CanceledBy (cb : Callbacks T) (m : Manager T) (n : Nat) (t : Timer T) : Prop :=
  t ∈ m.canceled ∨ ∃ k < n, Action.cancel t ∈ cb.effects (m.invoked + k)

variable {m m' m₀ : Manager T} {n : Nat} {t : Timer T} {e : Entry T} {ts : List (Turn T)} {r : Option T}
  {new : List (Entry T)}

theorem canceledBy_succ : CanceledBy cb m (n + 1) t ↔
      CanceledBy cb m n t ∨ Action.cancel t ∈ cb.effects (m.invoked + n) := by
  constructor
  · rintro (h | ⟨k, hk, h⟩)
    · exact .inl (.inl h)
    rcases Nat.lt_succ_iff_lt_or_eq.mp hk with hlt | rfl
    · exact .inl (.inr ⟨k, hlt, h⟩)
    · exact .inr h
  rintro ((h | ⟨k, hk, h⟩) | h)
  · exact .inl h
  · exact .inr ⟨k, hk.trans (Nat.lt_succ_self n), h⟩
  · exact .inr ⟨n, Nat.lt_succ_self n, h⟩

theorem CanceledBy.mono {k : Nat} (h : CanceledBy cb m n t) (hle : n ≤ k) : CanceledBy cb m k t :=
  h.imp_right fun ⟨i, hi, hc⟩ => ⟨i, hi.trans_le hle, hc⟩

/-! ## One call -/

structure Serving (cb : Callbacks T) (now : T) (m₀ m : Manager T) (ts : List (Turn T)) : Prop where
  turns : m.turns = m₀.turns ++ ts
  calls : m.calls = m₀.calls
  invoked : m.invoked = m₀.invoked + ts.countP ran
  queue : m₀.queue.items.Perm (ts.map entry ++ m.queue.items)
  canceled : ∀ t, t ∈ m.canceled ↔ CanceledBy cb m₀ (ts.countP ran) t
  added : ∃ new, m.added = m₀.added ++ new ∧ m.newTimers = m₀.newTimers ++ new ∧
    new.map Entry.serial = List.range' m₀.added.length new.length
  decides : ∀ before t after, ts = before ++ t :: after →
    (t.ran = true ↔ ¬ CanceledBy cb m₀ (before.countP ran) t.entry.timer)
  due : ∀ t ∈ ts, t.ran = true → t.entry.endTime ≤ now
  sorted : (ts.map fun t => t.entry.endTime).Pairwise (· ≤ ·)
  ahead : ∀ t ∈ ts, ∀ e ∈ m.queue.items, t.entry.endTime ≤ e.endTime

theorem Serving.start (m : Manager T) : Serving cb now m m [] where
  turns := by simp
  calls := rfl
  invoked := rfl
  queue := Perm.refl _
  canceled t := by simp [CanceledBy]
  added := ⟨[], by simp⟩
  decides before t after h := by simp at h
  due := nofun
  sorted := Pairwise.nil
  ahead := nofun

structure Takes (cb : Callbacks T) (now : T) (m m' : Manager T) (t : Turn T) : Prop where
  turns : m'.turns = m.turns ++ [t]
  calls : m'.calls = m.calls
  invoked : m'.invoked = m.invoked + t.ran.toNat
  queue : m'.queue = m.queue.pop
  canceled : ∀ u, u ∈ m'.canceled ↔
    u ∈ m.canceled ∨ (t.ran = true ∧ Action.cancel u ∈ cb.effects m.invoked)
  added : ∃ new, m'.added = m.added ++ new ∧ m'.newTimers = m.newTimers ++ new ∧
    new.map Entry.serial = List.range' m.added.length new.length
  ran : t.ran = true ↔ t.entry.timer ∉ m.canceled
  due : t.ran = true → t.entry.endTime ≤ now

theorem TurnOf.takes (h : TurnOf cb now m e m') (hr : cb.raises e.timer = false) : ∃ b, Takes cb now m m' ⟨e, b⟩ := by
  cases h with
  | canceled hc => exact ⟨false, by constructor <;> simp [hc]⟩
  | returned hc hdue _ =>
    have ha := invoke_acted cb m e
    exact ⟨true, ha.turns, ha.calls, ha.invoked, rfl, by simpa using ha.canceled,
      ha.added, by simpa using hc, fun _ => hdue⟩
  | raised _ _ hrs => exact absurd hrs (by simp [hr])

theorem Serving.step (h : Serving cb now m₀ m ts) {t : Turn T} {l : List (Entry T)}
    (hq : m.queue.items = t.entry :: l) (ht : Takes cb now m m' t) : Serving cb now m₀ m' (ts ++ [t]) := by
  have hpop : m.queue.items.Perm (t.entry :: m'.queue.items) := ht.queue ▸ Queue.pop_perm hq
  have hmem : ∀ e ∈ m'.queue.items, e ∈ m.queue.items :=
    fun e he => hpop.mem_iff.mpr (mem_cons_of_mem _ he)
  have hc : (ts ++ [t]).countP ran = ts.countP ran + t.ran.toNat := by
    cases hran : t.ran <;> simp [hran]
  refine ⟨?_, ht.calls.trans h.calls, ?_, ?_, ?_, ?_, ?_, ?_, ?_, ?_⟩
  · rw [ht.turns, h.turns, append_assoc]
  · rw [ht.invoked, h.invoked, hc, Nat.add_assoc]
  · refine h.queue.trans ?_
    rw [map_append, append_assoc]
    exact hpop.append_left _
  · intro u
    rw [ht.canceled, h.canceled, hc, h.invoked]
    cases hran : t.ran <;> simp [canceledBy_succ]
  · obtain ⟨new, had, hnew, hser⟩ := h.added
    obtain ⟨new', ha', hnew', hser'⟩ := ht.added
    refine ⟨new ++ new', ?_, ?_, ?_⟩
    · rw [ha', had, append_assoc]
    · rw [hnew', hnew, append_assoc]
    · rw [map_append, hser, hser', had, length_append, length_append, range'_append_1]
  · intro bef u aft hs
    rcases eq_nil_or_concat aft with rfl | ⟨init, last, rfl⟩
    · obtain ⟨rfl, hl⟩ := append_inj' hs rfl
      obtain rfl := singleton_inj.mp hl
      rw [ht.ran, h.canceled]
    rw [concat_eq_append, ← cons_append, ← append_assoc] at hs
    exact h.decides bef u init (append_inj' hs rfl).1
  · intro u hu
    rcases mem_append.mp hu with hu | hu
    · exact h.due u hu
    rw [mem_singleton.mp hu]
    exact ht.due
  · rw [map_append, pairwise_append]
    refine ⟨h.sorted, pairwise_singleton _ _, fun a ha b hb => ?_⟩
    obtain ⟨u, hu, rfl⟩ := mem_map.mp ha
    obtain rfl := mem_singleton.mp hb
    exact h.ahead u hu t.entry (hq ▸ mem_cons_self)
  intro u hu e he
  rcases mem_append.mp hu with hu | hu
  · exact h.ahead u hu e (hmem e he)
  rw [mem_singleton.mp hu]
  exact Queue.head_le hq (hmem e he)

section

variable (hcb : ∀ t, cb.raises t = false)
include hcb

theorem serving_body (h : ∃ ts, Serving cb now m₀ m ts) (hb : serviceBody cb now m = .inr m') :
    (∃ ts, Serving cb now m₀ m' ts) ∧ m'.queue.items.length < m.queue.items.length := by
  obtain ⟨ts, hts⟩ := h
  obtain ⟨e, l, hq, htr⟩ := serviceBody_inr.mp hb
  obtain ⟨b, ht⟩ := htr.takes (hcb e.timer)
  refine ⟨⟨_, hts.step (t := ⟨e, b⟩) hq ht⟩, ?_⟩
  rw [(Queue.pop_perm hq).length_eq, ht.queue]
  exact Nat.lt_succ_self _

theorem exists_serves (now : T) (m : Manager T) : ∃ r m', Serves cb now m r m' := by
  have hb : ∀ s s', (∃ ts, Serving cb now (pushNew m now) s ts) → serviceBody cb now s = .inr s' →
      (∃ ts, Serving cb now (pushNew m now) s' ts) ∧ s'.queue.items.length < s.queue.items.length :=
    fun _ _ => serving_body hcb
  obtain ⟨n, r, m', hl⟩ := loop_ends hb ⟨[], Serving.start _⟩
  exact ⟨r, m', n, hl⟩

theorem Serves.serving (h : Serves cb now m r m') :
    ∃ ts, Serving cb now (pushNew m now) m' ts ∧ serviceBody cb now m' = .inl r := by
  obtain ⟨n, hl⟩ := h
  obtain ⟨⟨ts, hts⟩, hend⟩ := loop_invariant (fun s s' hs hb => (serving_body hcb hs hb).1) ⟨[], Serving.start _⟩ hl
  exact ⟨ts, hts, hend⟩

end

theorem Serving.mem_turns (h : Serving cb now m₀ m ts) (hend : serviceBody cb now m = .inl r)
    (he : e ∈ m₀.queue.items) (hdue : e.endTime ≤ now) : e ∈ ts.map entry := by
  rcases mem_append.mp (h.queue.mem_iff.mp he) with ht | hl
  · exact ht
  · exact absurd hdue (not_le.mpr (lt_of_serviceBody_inl hend hl))

/-! ## The books of a manager -/

/-- The first late enough call since the entry was added. -/
def FirstDue (m : Manager T) (now : T) (e : Entry T) : Prop :=
  e.endTime ≤ now ∧ ∀ c ∈ m.calls, e.serial < c.known → c.now < e.endTime

structure Books (m : Manager T) : Prop where
  numbered : m.added.map Entry.serial = List.range m.added.length
  accounted : m.added.Perm (m.turns.map entry ++ m.pending)
  known : ∀ c ∈ m.calls, c.known ≤ m.added.length
  waiting : ∀ e ∈ m.pending, ∀ c ∈ m.calls, e.serial < c.known → c.now < e.endTime
  ran : ∀ e, ⟨e, true⟩ ∈ m.turns → ∃ c ∈ m.calls, e.serial < c.known ∧ e.endTime ≤ c.now
  dropped : ∀ e, ⟨e, false⟩ ∈ m.turns → e.timer ∈ m.canceled

theorem books_init : Books (Manager.init : Manager T) where
  numbered := rfl
  accounted := Perm.refl _
  known := nofun
  waiting := nofun
  ran := nofun
  dropped := nofun

theorem Books.serial_lt (h : Books m) (he : e ∈ m.added) : e.serial < m.added.length := by
  have hmem : e.serial ∈ m.added.map Entry.serial := mem_map_of_mem he
  rw [h.numbered] at hmem
  exact mem_range.mp hmem

theorem Books.nodup (h : Books m) : m.added.Nodup := by
  apply Nodup.of_map Entry.serial
  rw [h.numbered]
  exact nodup_range

theorem Books.mem_added_of_pending (h : Books m) (he : e ∈ m.pending) : e ∈ m.added :=
  h.accounted.mem_iff.mpr (mem_append_right _ he)

omit [LinearOrder T] in
theorem numbered_append {added : List (Entry T)} (h : added.map Entry.serial = range added.length)
    (hnew : new.map Entry.serial = range' added.length new.length) :
    (added ++ new).map Entry.serial = range (added ++ new).length := by
  rw [map_append, h, hnew, length_append, range_eq_range', range_eq_range']
  have happ := @range'_append_1 0 added.length new.length
  rwa [Nat.zero_add] at happ

omit [LinearOrder T] in
theorem le_serial_of_mem_new (hnew : new.map Entry.serial = range' n new.length) (he : e ∈ new) :
    n ≤ e.serial := by
  have hmem : e.serial ∈ new.map Entry.serial := mem_map_of_mem he
  rw [hnew] at hmem
  exact (mem_range'_1.mp hmem).1

theorem Books.act (h : Books m) (a : Action T) : Books (act m a) := by
  have ha := act_acted m a
  obtain ⟨new, had, hnew, hser⟩ := ha.added
  have hp : (Timers.act m a).pending = m.pending ++ new := by
    unfold Manager.pending
    rw [ha.queue, hnew, append_assoc]
  refine ⟨?_, ?_, ?_, ?_, ?_, ?_⟩
  · rw [had]
    exact numbered_append h.numbered hser
  · rw [had, ha.turns, hp, ← append_assoc]
    exact h.accounted.append_right new
  · intro c hc
    rw [had, length_append]
    exact (h.known c (ha.calls ▸ hc)).trans (Nat.le_add_right _ _)
  · intro e he c hc hlt
    rw [ha.calls] at hc
    rcases mem_append.mp (hp ▸ he) with he | he
    · exact h.waiting e he c hc hlt
    have hle := le_serial_of_mem_new hser he
    have hk := h.known c hc
    omega
  · intro e he
    rw [ha.turns] at he
    rw [ha.calls]
    exact h.ran e he
  intro e he
  rw [ha.turns] at he
  exact (ha.canceled e.timer).mpr (.inl (h.dropped e he))

theorem Books.service (hcb : ∀ t, cb.raises t = false) (h : Books m) (hs : Serves cb now m r m') : Books m' := by
  obtain ⟨ts, hts, hend⟩ := hs.serving hcb
  obtain ⟨new, ha, hnew, hser⟩ := hts.added
  have hp : m.pending.Perm (ts.map entry ++ m'.queue.items) :=
    (pushNew_perm m now).symm.trans hts.queue
  have hnew' : m'.newTimers = new := hnew
  have hk : ∀ e ∈ ts.map entry ++ m'.queue.items, e.serial < m.added.length :=
    fun e he => h.serial_lt (h.mem_added_of_pending (hp.mem_iff.mpr he))
  have hcl : m'.calls = m.calls ++ [⟨now, m.added.length⟩] := hts.calls
  refine ⟨?_, ?_, ?_, ?_, ?_, ?_⟩
  · rw [ha]
    exact numbered_append h.numbered hser
  · have hall := h.accounted.trans (hp.append_left _)
    have ht : m'.turns.map entry ++ m'.pending = (m.turns.map entry ++ (ts.map entry ++ m'.queue.items)) ++ new := by
      have htr : m'.turns = m.turns ++ ts := hts.turns
      rw [htr, Manager.pending, hnew', map_append]
      simp only [append_assoc]
    rw [ht, ha]
    exact hall.append_right new
  · intro c hc
    rw [ha, length_append]
    rcases mem_append.mp (hcl ▸ hc) with hc | hc
    · exact (h.known c hc).trans (Nat.le_add_right _ _)
    rw [mem_singleton.mp hc]
    exact Nat.le_add_right _ _
  · intro e he c hc hlt
    rcases mem_append.mp he with he | he
    · rcases mem_append.mp (hcl ▸ hc) with hc | hc
      · exact h.waiting e (hp.mem_iff.mpr (mem_append_right _ he)) c hc hlt
      rw [mem_singleton.mp hc]
      exact lt_of_serviceBody_inl hend he
    have hle := le_serial_of_mem_new hser (hnew' ▸ he)
    have hle' : c.known ≤ m.added.length := by
      rcases mem_append.mp (hcl ▸ hc) with hc | hc
      · exact h.known c hc
      · rw [mem_singleton.mp hc]
    exact absurd (hlt.trans_le hle') (not_lt.mpr hle)
  · intro e he
    rw [hcl]
    rcases mem_append.mp (hts.turns ▸ he) with he | he
    · obtain ⟨c, hc, hran⟩ := h.ran e he
      exact ⟨c, mem_append_left _ hc, hran⟩
    refine ⟨⟨now, m.added.length⟩, mem_append_right _ (mem_singleton.mpr rfl), ?_, ?_⟩
    · exact hk e (mem_append_left _ (mem_map_of_mem (f := entry) he))
    · exact hts.due _ he rfl
  intro e he
  rw [hts.canceled]
  rcases mem_append.mp (hts.turns ▸ he) with he | he
  · exact .inl (h.dropped e he)
  obtain ⟨bef, aft, rfl⟩ := append_of_mem he
  have hcn := (not_congr (hts.decides bef _ aft rfl)).mp (by simp)
  refine (not_not.mp hcn).mono ?_
  rw [countP_append]
  exact Nat.le_add_right _ _

theorem Reachable.books (hcb : ∀ t, cb.raises t = false) (h : Reachable cb m) : Books m := by
  induction h with
  | init => exact books_init
  | act a _ ih => exact ih.act a
  | service _ hs ih => exact ih.service hcb hs

/-! ## The call in the life of its manager -/

structure Served (cb : Callbacks T) (now : T) (m : Manager T) (r : Option T) (m' : Manager T)
    (ts : List (Turn T)) : Prop where
  serves : Serves cb now m r m'
  turns : m'.turns = m.turns ++ ts
  once : (m'.turns.map entry).Nodup
  runs : ∀ e, ⟨e, true⟩ ∈ ts → e ∈ m.added ∧ FirstDue m now e
  /-- An entry gets its turn in the first late enough call. -/
  comes : ∀ e ∈ m.added, FirstDue m now e → e.timer ∉ m.canceled → ∃ b, ⟨e, b⟩ ∈ ts
  /-- At its turn the callback runs unless cancelled by then. -/
  decides : ∀ before t after, ts = before ++ t :: after →
    (t.ran = true ↔ ¬ CanceledBy cb m (before.countP ran) t.entry.timer)
  sorted : (ts.map fun t => t.entry.endTime).Pairwise (· ≤ ·)
  next : ∀ e ∈ m'.queue.items, e.timer ∉ m'.canceled → ∃ least, r = some least ∧
    IsLeast {end' | ∃ x ∈ m'.queue.items, x.timer ∉ m'.canceled ∧ x.endTime = end'} least

theorem isLeast_of_serviceBody_inl (h : serviceBody cb now m = .inl r) (he : e ∈ m.queue.items) :
    ∃ least, r = some least ∧ IsLeast {end' | ∃ x ∈ m.queue.items, x.timer ∉ m.canceled ∧ x.endTime = end'} least := by
  rcases serviceBody_inl.mp h with ⟨hnil, -⟩ | ⟨first, l, hq, hc, -, hr⟩
  · rw [hnil] at he
    exact absurd he not_mem_nil
  refine ⟨first.endTime, hr, ⟨first, hq ▸ mem_cons_self, hc, rfl⟩, ?_⟩
  rintro _ ⟨x, hx, -, rfl⟩
  exact Queue.head_le hq hx

/-- **Timer service.** When no callback raises, a call does what `Served` says. -/
theorem service_timeouts_served (hcb : ∀ t, cb.raises t = false) {m : Manager T}
    (hm : Reachable cb m) (now : T) : ∃ r m' ts, Served cb now m r m' ts := by
  have hb := hm.books hcb
  obtain ⟨r, m', hs⟩ := exists_serves hcb now m
  obtain ⟨ts, hts, hend⟩ := hs.serving hcb
  have hps : m.pending.Perm (ts.map entry ++ m'.queue.items) :=
    (pushNew_perm m now).symm.trans hts.queue
  have hen : ∀ {t : Turn T}, t ∈ ts → t.entry ∈ m.pending := fun ht =>
    hps.mem_iff.mpr (mem_append_left _ (mem_map_of_mem ht))
  refine ⟨r, m', ts, hs, hts.turns, ?_, ?_, ?_, hts.decides, hts.sorted,
    fun e he _ => isLeast_of_serviceBody_inl hend he⟩
  · have hb' := hb.service hcb hs
    exact (nodup_append.mp (hb'.accounted.nodup_iff.mp hb'.nodup)).1
  · intro e he
    have hp : e ∈ m.pending := hen he
    exact ⟨hb.mem_added_of_pending hp, hts.due _ he rfl, hb.waiting e hp⟩
  intro e he hf hc
  rcases mem_append.mp (hb.accounted.mem_iff.mp he) with htr | hp
  · -- an earlier turn would have been in a call that was late enough, or found it cancelled
    obtain ⟨⟨e, b⟩, hran, rfl⟩ := mem_map.mp htr
    cases b with
    | true =>
      obtain ⟨c, hcl, hk, hl⟩ := hb.ran e hran
      exact absurd (hf.2 c hcl hk) (not_lt.mpr hl)
    | false => exact absurd (hb.dropped e hran) hc
  have htr := hts.mem_turns hend ((pushNew_perm m now).mem_iff.mpr hp) hf.1
  obtain ⟨⟨e, b⟩, hmem, rfl⟩ := mem_map.mp htr
  exact ⟨b, hmem⟩

def threeTimers : Manager Nat :=
  [⟨0, 5⟩, ⟨1, 3⟩, ⟨2, 4⟩].foldl addTimer Manager.init

def cancelling : Callbacks Nat where
  effects n := if n = 0 then [.cancel ⟨2, 4⟩, .addTimer ⟨3, 1⟩] else []
  raises _ := false

theorem threeTimers_served : ∃ r m' ts, Served cancelling 4 threeTimers r m' ts :=
  service_timeouts_served (fun _ => rfl)
    (.act (.addTimer ⟨2, 4⟩) (.act (.addTimer ⟨1, 3⟩) (.act (.addTimer ⟨0, 5⟩) .init))) 4

example : (serviceTimeouts cancelling 4 4 threeTimers).map (fun (r, m) => (r, m.turns, m.newTimers)) =
    some (some 5, [⟨⟨⟨1, 3⟩, 1⟩, true⟩, ⟨⟨⟨2, 4⟩, 2⟩, false⟩], [⟨⟨3, 1⟩, 3⟩]) := by decide

end CqlDriver.Timers
