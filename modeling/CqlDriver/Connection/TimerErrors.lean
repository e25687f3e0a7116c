import CqlDriver.Connection.TimerService

/-!
# Callbacks that raise

When a callback raises, `service_timeouts` goes on with its loop, but the timer is still at the
front of the heap. The loop is compared with the one in which a callback that raises counts as one
that returned (`Callbacks.caught`).
-/

namespace CqlDriver.Timers

open Lib Heap List

variable {T : Type} [LinearOrder T] {cb : Callbacks T} {now : T}

/-- It returns, runs what is due exactly once, and leaves the rest. -/
def ServesAll (cb : Callbacks T) (now : T) (m : Manager T) : Prop :=
  ∃ r m' ts, Serves cb now m r m' ∧ m'.turns = m.turns ++ ts ∧
    (∀ e ∈ m.pending, e.endTime ≤ now → ∃ before b after, ts = before ++ ⟨e, b⟩ :: after ∧
      (b = true ↔ ¬ CanceledBy cb m (before.countP Turn.ran) e.timer) ∧
      ts.count ⟨e, true⟩ = b.toNat) ∧
    ∀ e ∈ m'.queue.items, now < e.endTime

def Callbacks.caught (cb : Callbacks T) : Callbacks T := { cb with raises := fun _ => false }

/-- From the `n`-th on, a callback that raises cancels its own timer first. -/
def QuietFrom (cb : Callbacks T) : Nat → List (Turn T) → Prop
  | _, [] => True
  | n, t :: ts =>
    (t.ran = true → cb.raises t.entry.timer = true → Action.cancel t.entry.timer ∈ cb.effects n) ∧
      QuietFrom cb (n + t.ran.toNat) ts

/-- The same, for the callbacks that would run were exceptions caught. -/
def Quiet (cb : Callbacks T) (now : T) (m : Manager T) : Prop :=
  ∀ r m' ts, Serves cb.caught now m r m' → m'.turns = m.turns ++ ts → QuietFrom cb m.invoked ts

/-- A timer cancelled by its own raising callback gets another turn. -/
def echo (cb : Callbacks T) (t : Turn T) : List (Turn T) :=
  if t.ran && cb.raises t.entry.timer then [t, ⟨t.entry, false⟩] else [t]

/-! ## The two loops side by side -/

def Manager.withTurns (m : Manager T) (tr : List (Turn T)) : Manager T := { m with turns := tr }

theorem foldl_act_withTurns (acts : List (Action T)) (m : Manager T) (tr : List (Turn T)) :
    acts.foldl act (m.withTurns tr) = (acts.foldl act m).withTurns tr := by
  induction acts generalizing m with
  | nil => rfl
  | cons a acts ih =>
    rw [foldl_cons, foldl_cons, ← ih]
    cases a <;> rfl

variable {tr : List (Turn T)}

theorem invoke_withTurns (m : Manager T) (e : Entry T) :
    invoke cb (m.withTurns tr) e = (invoke cb m e).withTurns (tr ++ [⟨e, true⟩]) := by
  let next : Manager T := { m with invoked := m.invoked + 1 }
  have hf := foldl_act_withTurns (cb.effects m.invoked) next
  calc invoke cb (m.withTurns tr) e = (cb.effects m.invoked).foldl act (next.withTurns (tr ++ [⟨e, true⟩])) := rfl
    _ = ((cb.effects m.invoked).foldl act next).withTurns (tr ++ [⟨e, true⟩]) := hf _
    _ = ((cb.effects m.invoked).foldl act (next.withTurns (m.turns ++ [⟨e, true⟩]))).withTurns
          (tr ++ [⟨e, true⟩]) := by rw [hf]; rfl

variable {m m' m₁ : Manager T} {n : Nat} {r : Option T} {e : Entry T} {l : List (Entry T)} {t : Turn T}
  {ts : List (Turn T)}

theorem loop_turns (h : loop (serviceBody cb now) n m = some (r, m')) : ∃ ts, m'.turns = m.turns ++ ts := by
  have hbd : ∀ s s', (∃ ts, s.turns = m.turns ++ ts) → serviceBody cb now s = .inr s' →
      ∃ ts, s'.turns = m.turns ++ ts := by
    rintro s s' ⟨ts, hts⟩ hb
    obtain ⟨e, l, -, ht⟩ := serviceBody_inr.mp hb
    cases ht with
    | canceled => exact ⟨ts ++ [⟨e, false⟩], by rw [hts, append_assoc]⟩
    | returned | raised =>
      refine ⟨ts ++ [⟨e, true⟩], ?_⟩
      rw [← append_assoc, ← hts]
      exact (invoke_acted cb s e).turns
  exact (loop_invariant hbd ⟨[], (append_nil _).symm⟩ h).1

theorem called_again (hq : m.queue.items = e :: l) (hc : e.timer ∉ m.canceled) (hdue : e.endTime ≤ now)
    (hr : cb.raises e.timer) (hk : Action.cancel e.timer ∉ cb.effects m.invoked)
    (h : loop (serviceBody cb now) n m = some (r, m')) : ∃ ts, m'.turns = m.turns ++ ⟨e, true⟩ :: ⟨e, true⟩ :: ts := by
  have ha := invoke_acted cb m e
  have hq₁ : (invoke cb m e).queue.items = e :: l := by rw [ha.queue]; exact hq
  have hc₁ : e.timer ∉ (invoke cb m e).canceled := by
    rw [ha.canceled]
    exact not_or.mpr ⟨hc, hk⟩
  have hf := serviceBody_inr.mpr ⟨e, l, hq, TurnOf.raised hc hdue hr⟩
  have hsnd := serviceBody_inr.mpr ⟨e, l, hq₁, TurnOf.raised hc₁ hdue hr⟩
  have hrs := loop_mono h 2
  rw [loop_next hf, loop_next hsnd] at hrs
  obtain ⟨ts, hts⟩ := loop_turns hrs
  refine ⟨ts, ?_⟩
  rw [hts, (invoke_acted cb _ e).turns, ha.turns]
  simp only [append_assoc, cons_append, nil_append]

theorem TurnOf.follows (hq : m.queue.items = e :: l) (htr : TurnOf cb.caught now m e m₁)
    (ht : m₁.turns = m.turns ++ [t])
    (hquiet : t.ran → cb.raises t.entry.timer → Action.cancel t.entry.timer ∈ cb.effects m.invoked) :
    ∃ k, ∀ n, loop (serviceBody cb now) (n + k) (m.withTurns tr) =
      loop (serviceBody cb now) n (m₁.withTurns (tr ++ echo cb t)) := by
  cases htr with
  | canceled hc =>
    obtain rfl := singleton_inj.mp (append_cancel_left ht)
    refine ⟨1, fun n => loop_next ?_ n⟩
    exact serviceBody_inr.mpr ⟨e, l, hq, .canceled hc⟩
  | returned hc hdue _ =>
    have ha := invoke_acted cb m e
    have htn : m.turns ++ [t] = m.turns ++ [⟨e, true⟩] := ht.symm.trans ha.turns
    obtain rfl := singleton_inj.mp (append_cancel_left htn)
    have hi : invoke cb (m.withTurns tr) e = _ := invoke_withTurns m e
    cases hr : cb.raises e.timer with
    | false =>
      have he : echo cb ⟨e, true⟩ = [⟨e, true⟩] := by simp [echo, hr]
      rw [he]
      refine ⟨1, fun n => loop_next ?_ n⟩
      rw [serviceBody_inr]
      refine ⟨e, l, hq, ?_⟩
      have hret := TurnOf.returned (m := m.withTurns tr) hc hdue hr
      rw [hi] at hret
      exact hret
    | true =>
      have he : echo cb ⟨e, true⟩ = [⟨e, true⟩, ⟨e, false⟩] := by simp [echo, hr]
      have hf : serviceBody cb now (m.withTurns tr) = .inr (invoke cb (m.withTurns tr) e) :=
        serviceBody_inr.mpr ⟨e, l, hq, .raised hc hdue hr⟩
      rw [hi] at hf
      have hc₁ : e.timer ∈ (invoke cb m e).canceled := (ha.canceled e.timer).mpr (.inr (hquiet rfl hr))
      have hq₁ : (invoke cb m e).queue.items = e :: l := by rw [ha.queue]; exact hq
      have hsnd : serviceBody cb now ((invoke cb m e).withTurns (tr ++ [⟨e, true⟩])) = .inr
          { (invoke cb m e) with turns := tr ++ [⟨e, true⟩] ++ [⟨e, false⟩], queue := (invoke cb m e).queue.pop } :=
        serviceBody_inr.mpr ⟨e, l, hq₁, .canceled hc₁⟩
      refine ⟨2, fun n => (loop_next hf _).trans ((loop_next hsnd n).trans ?_)⟩
      rw [he, ha.queue, append_assoc]
      rfl
  | raised _ _ hr => exact absurd hr (by simp [Callbacks.caught])

theorem caught_cases (h : loop (serviceBody cb.caught now) n m = some (r, m')) :
    (m' = m ∧ serviceBody cb.caught now m = .inl r) ∨
      ∃ k t l m₁, n = k + 1 ∧ m.queue.items = t.entry :: l ∧ TurnOf cb.caught now m t.entry m₁ ∧
        Takes cb.caught now m m₁ t ∧ loop (serviceBody cb.caught now) k m₁ = some (r, m') := by
  obtain ⟨k, rfl, ⟨r', hb, hout⟩ | ⟨m₁, hb, hr⟩⟩ := loop_eq_some h
  · cases hout
    exact .inl ⟨rfl, hb⟩
  obtain ⟨e, l, hq, htr⟩ := serviceBody_inr.mp hb
  obtain ⟨b, ht⟩ := htr.takes rfl
  exact .inr ⟨k, ⟨e, b⟩, l, m₁, rfl, hq, htr, ht, hr⟩

theorem turns_cons (ht : m₁.turns = m.turns ++ [t]) (h : loop (serviceBody cb now) n m₁ = some (r, m'))
    (hts : m'.turns = m.turns ++ ts) : ∃ rest, ts = t :: rest ∧ m'.turns = m₁.turns ++ rest := by
  obtain ⟨rest, hr⟩ := loop_turns h
  refine ⟨rest, ?_, hr⟩
  apply (append_right_inj m.turns).mp
  rw [← hts, hr, ht, append_assoc, singleton_append]

theorem loop_of_quiet : ∀ {m m' : Manager T} {r : Option T} {ts : List (Turn T)},
    loop (serviceBody cb.caught now) n m = some (r, m') → m'.turns = m.turns ++ ts →
    QuietFrom cb m.invoked ts → ∀ tr, ∃ k, loop (serviceBody cb now) k (m.withTurns tr) =
      some (r, m'.withTurns (tr ++ ts.flatMap (echo cb))) := by
  induction n with
  | zero => intro m m' r ts h; cases h
  | succ n ih =>
    intro m m' r ts h hts hquiet tr
    obtain ⟨rfl, hend⟩ | ⟨k, t, l, m₁, hk, hq, htr, ht, hr⟩ := caught_cases h
    · obtain rfl : ts = [] := self_eq_append_right.mp hts
      have hend' : serviceBody cb now (m'.withTurns tr) = .inl r := by
        rw [serviceBody_inl] at hend ⊢
        exact hend
      refine ⟨1, (loop_end hend' 0).trans ?_⟩
      rw [flatMap_nil, append_nil]
    obtain rfl : n = k := Nat.succ.inj hk
    obtain ⟨rest, rfl, hrs⟩ := turns_cons ht.turns hr hts
    obtain ⟨j, hj⟩ := htr.follows hq ht.turns hquiet.1
    have hq' : QuietFrom cb m₁.invoked rest := ht.invoked ▸ hquiet.2
    obtain ⟨i, hi⟩ := ih hr hrs hq' _
    refine ⟨i + j, ?_⟩
    rw [hj, hi, flatMap_cons, append_assoc]

theorem twice_of_not_quiet : ∀ {m m' : Manager T} {r : Option T} {ts : List (Turn T)},
    loop (serviceBody cb.caught now) n m = some (r, m') → m'.turns = m.turns ++ ts →
    ¬ QuietFrom cb m.invoked ts → ∀ {tr k r' m''}, loop (serviceBody cb now) k (m.withTurns tr) = some (r', m'') →
      ∃ ts' e, m''.turns = tr ++ ts' ∧ e ∈ m.queue.items ∧ e.endTime ≤ now ∧ 2 ≤ ts'.count ⟨e, true⟩ := by
  induction n with
  | zero => intro m m' r ts h; cases h
  | succ n ih =>
    intro m m' r ts h hts hquiet tr k r' m'' hc
    obtain ⟨rfl, hend⟩ | ⟨k', t, l, m₁, hk, hq, htr, ht, hr⟩ := caught_cases h
    · obtain rfl : ts = [] := self_eq_append_right.mp hts
      exact absurd trivial hquiet
    obtain rfl : n = k' := Nat.succ.inj hk
    obtain ⟨rest, rfl, hrt⟩ := turns_cons ht.turns hr hts
    by_cases hf : t.ran → cb.raises t.entry.timer → Action.cancel t.entry.timer ∈ cb.effects m.invoked
    · obtain ⟨j, hj⟩ := htr.follows hq ht.turns hf
      have hc' := (hj k).symm.trans (loop_mono hc j)
      have hq' : ¬ QuietFrom cb m₁.invoked rest := fun hr => hquiet ⟨hf, ht.invoked ▸ hr⟩
      obtain ⟨ts', e, hts', he, hdue, htw⟩ := ih hr hrt hq' hc'
      refine ⟨echo cb t ++ ts', e, by rw [hts', append_assoc], ?_, hdue, ?_⟩
      · exact (Queue.pop_perm hq).mem_iff.mpr (mem_cons_of_mem _ (ht.queue ▸ he))
      rw [count_append]
      exact htw.trans (Nat.le_add_left _ _)
    simp only [not_forall] at hf
    obtain ⟨hran, hrs, hkp⟩ := hf
    obtain ⟨ts', hts'⟩ := called_again (m := m.withTurns tr) hq (ht.ran.mp hran) (ht.due hran) hrs hkp hc
    refine ⟨_, t.entry, hts', hq ▸ mem_cons_self, ht.due hran, ?_⟩
    simp

/-! ## The callbacks of a call -/

omit [LinearOrder T] in
theorem countP_flatMap_echo {ts : List (Turn T)} : (ts.flatMap (echo cb)).countP Turn.ran = ts.countP Turn.ran := by
  induction ts with
  | nil => rfl
  | cons t ts ih =>
    have he : (echo cb t).countP Turn.ran = [t].countP Turn.ran := by
      unfold echo
      split <;> simp [countP_cons]
    rw [flatMap_cons, countP_append, ih, he, ← countP_append, singleton_append]

theorem count_flatMap_echo {ts : List (Turn T)} {e : Entry T} :
    (ts.flatMap (echo cb)).count ⟨e, true⟩ = ts.count ⟨e, true⟩ := by
  induction ts with
  | nil => rfl
  | cons t ts ih =>
    have he : (echo cb t).count ⟨e, true⟩ = [t].count ⟨e, true⟩ := by
      unfold echo
      split <;> simp [count_cons]
    rw [flatMap_cons, count_append, ih, he, ← count_append, singleton_append]

theorem count_of_nodup {bef aft : List (Turn T)} {b : Bool} (h : ((bef ++ ⟨e, b⟩ :: aft).map Turn.entry).Nodup) :
    (bef ++ ⟨e, b⟩ :: aft).count ⟨e, true⟩ = b.toNat := by
  rw [map_append, map_cons, nodup_middle, nodup_cons, ← map_append] at h
  have ho : (bef ++ aft).count ⟨e, true⟩ = 0 :=
    count_eq_zero_of_not_mem fun hmem => h.1 (mem_map.mpr ⟨_, hmem, rfl⟩)
  rw [count_append, count_cons, ← Nat.add_assoc, ← count_append, ho]
  cases b <;> simp

theorem servesAll_iff_quiet {m : Manager T} (hnodup : m.pending.Nodup) : ServesAll cb now m ↔ Quiet cb now m := by
  constructor
  · rintro ⟨r, m', ts, ⟨n, hcd⟩, hts, hall, -⟩ r₀ m₀ ts₀ ⟨n₀, hc⟩ hts₀
    by_contra hq
    obtain ⟨ts', e, hts', he, hdue, htw⟩ := twice_of_not_quiet hc hts₀ hq hcd
    obtain rfl : ts = ts' := append_cancel_left (hts.symm.trans hts')
    obtain ⟨before, b, after, -, -, hcn⟩ := hall e ((pushNew_perm m now).mem_iff.mp he) hdue
    have hb := Bool.toNat_le b
    omega
  intro hq
  obtain ⟨r, m', hs⟩ := exists_serves (show ∀ t, cb.caught.raises t = false from fun _ => rfl) now m
  obtain ⟨ts, hts, hend⟩ := hs.serving fun _ => rfl
  have hp : m.pending.Perm (ts.map Turn.entry ++ m'.queue.items) :=
    (pushNew_perm m now).symm.trans hts.queue
  obtain ⟨n, hc⟩ := hs
  obtain ⟨k, hcd⟩ := loop_of_quiet hc hts.turns (hq r m' ts ⟨n, hc⟩ hts.turns) m.turns
  refine ⟨r, _, ts.flatMap _, ⟨k, hcd⟩, rfl, ?_, fun e he => lt_of_serviceBody_inl hend he⟩
  intro e he hdue
  have ht := hts.mem_turns hend ((pushNew_perm m now).mem_iff.mpr he) hdue
  obtain ⟨⟨e, b⟩, hmem, rfl⟩ := mem_map.mp ht
  obtain ⟨before, after, rfl⟩ := append_of_mem hmem
  obtain ⟨more, hm⟩ : ∃ more, echo cb ⟨e, b⟩ = ⟨e, b⟩ :: more := by
    unfold echo
    split <;> exact ⟨_, rfl⟩
  refine ⟨before.flatMap (echo cb), b, more ++ after.flatMap (echo cb), ?_, ?_, ?_⟩
  · rw [flatMap_append, flatMap_cons, hm, cons_append]
  · rw [countP_flatMap_echo]
    exact hts.decides before _ after rfl
  rw [count_flatMap_echo]
  exact count_of_nodup (nodup_append.mp (hp.nodup_iff.mp hnodup)).1

omit [LinearOrder T] in
theorem quietFrom_of_forall (h : ∀ t ∈ ts, t.ran → cb.raises t.entry.timer = false) (n : Nat) :
    QuietFrom cb n ts := by
  induction ts generalizing n with
  | nil => trivial
  | cons t ts ih =>
    refine ⟨fun hran hrs => ?_, ih (fun u hu => h u (mem_cons_of_mem _ hu)) _⟩
    exact absurd hrs (by rw [h t mem_cons_self hran]; nofun)

theorem quiet_of_due (h : ∀ e ∈ m.pending, e.endTime ≤ now → e.timer ∉ m.canceled → cb.raises e.timer = false) :
    Quiet cb now m := by
  intro r m' ts hs hts
  obtain ⟨ts', hts', -⟩ := hs.serving fun _ => rfl
  obtain rfl : ts = ts' := append_cancel_left (hts.symm.trans hts'.turns)
  refine quietFrom_of_forall (fun t ht hran => h t.entry ?_ (hts'.due t ht hran) fun hc => ?_) m.invoked
  · apply ((pushNew_perm m now).symm.trans hts'.queue).mem_iff.mpr
    exact mem_append_left _ (mem_map_of_mem ht)
  obtain ⟨bef, aft, rfl⟩ := append_of_mem ht
  exact (hts'.decides bef t aft rfl).mp hran (.inl hc)

omit [LinearOrder T] in
theorem QuietFrom.cancels {n : Nat} (h : QuietFrom cb n ts) (ht : t ∈ ts) (hran : t.ran)
    (hr : cb.raises t.entry.timer) : ∃ k, Action.cancel t.entry.timer ∈ cb.effects k := by
  induction ts generalizing n with
  | nil => cases ht
  | cons u ts ih =>
    rcases mem_cons.mp ht with rfl | ht
    · exact ⟨n, h.1 hran hr⟩
    · exact ih h.2 ht

theorem Quiet.due (hq : Quiet cb now m) (hcancel : ∀ n t, Action.cancel t ∉ cb.effects n) (he : e ∈ m.pending)
    (hdue : e.endTime ≤ now) (hc : e.timer ∉ m.canceled) : cb.raises e.timer = false := by
  obtain ⟨r, m', hs⟩ := exists_serves (show ∀ t, cb.caught.raises t = false from fun _ => rfl) now m
  obtain ⟨ts, hts, hend⟩ := hs.serving fun _ => rfl
  obtain ⟨⟨e, b⟩, hmem, rfl⟩ :=
    mem_map.mp (hts.mem_turns hend ((pushNew_perm m now).mem_iff.mpr he) hdue)
  obtain ⟨bef, aft, rfl⟩ := append_of_mem hmem
  have hran : b = true := by
    refine (hts.decides bef _ aft rfl).mpr ?_
    rintro (hcd | ⟨k, -, hk⟩)
    · exact hc hcd
    · exact hcancel _ _ hk
  by_contra hr
  obtain ⟨k, hk⟩ := (hq r m' _ hs hts.turns).cancels hmem hran (by simpa using hr)
  exact hcancel k _ hk

/-- **Raising callbacks.** The call works when no callback due raises; without cancellations, only
then. -/
theorem servesAll_iff_due {m : Manager T} (hnodup : m.pending.Nodup) :
    ((∀ e ∈ m.pending, e.endTime ≤ now → e.timer ∉ m.canceled → cb.raises e.timer = false) → ServesAll cb now m) ∧
    ((∀ n t, Action.cancel t ∉ cb.effects n) → ServesAll cb now m →
      ∀ e ∈ m.pending, e.endTime ≤ now → e.timer ∉ m.canceled → cb.raises e.timer = false) := by
  rw [servesAll_iff_quiet hnodup]
  exact ⟨quiet_of_due, fun hcancel hq e => hq.due hcancel⟩

def raisingLate : Callbacks Nat := ⟨fun _ => [], fun t => 3 < t.endTime⟩

theorem threeTimers_servesAll : threeTimers.pending.Nodup ∧ ServesAll raisingLate 3 threeTimers := by
  have hn : threeTimers.pending.Nodup := by decide
  exact ⟨hn, (servesAll_iff_due hn).1 (by decide)⟩

/-- The callback of end 4 raises, and the call does not return. -/
theorem threeTimers_stuck : (∀ fuel, serviceTimeouts raisingLate fuel 4 threeTimers = none) ∧
    ¬ ServesAll raisingLate 4 threeTimers := by
  have hst : ∀ s : Manager Nat, s.queue.items.head? = some ⟨⟨2, 4⟩, 2⟩ ∧ s.canceled = [] →
      ∃ s', serviceBody raisingLate 4 s = .inr s' ∧ s'.queue.items.head? = some ⟨⟨2, 4⟩, 2⟩ ∧ s'.canceled = [] := by
    rintro s ⟨hh, hc⟩
    obtain ⟨l, hq⟩ := head?_eq_some_iff.mp hh
    refine ⟨invoke raisingLate s ⟨⟨2, 4⟩, 2⟩, serviceBody_inr.mpr ⟨_, l, hq, ?_⟩, hh, hc⟩
    exact .raised (by simp [hc]) (by decide) (by decide)
  have hn : ∀ fuel, serviceTimeouts raisingLate fuel 4 threeTimers = none := by
    intro fuel
    cases fuel with
    | zero => rfl
    | succ n =>
      -- the first turn runs the timer of end 3
      exact loop_eq_none hst n (by decide)
  refine ⟨hn, ?_⟩
  rintro ⟨r, m', ts, ⟨fuel, hs⟩, -⟩
  rw [hn] at hs
  cases hs

end CqlDriver.Timers
