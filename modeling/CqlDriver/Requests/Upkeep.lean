import CqlDriver.Requests.Future
import Mathlib.Data.List.Induction
import Mathlib.Data.List.Perm.Basic

/-! # What the pools do to the requests of a session -/

namespace CqlDriver.Requests

open Lib Conn List

namespace Session

def entries (s : Session) : List Callback := s.conns.flatMap fun conn => conn.requests.values

def outstanding (s : Session) : List Callback := s.entries ++ s.calls.filterMap Call.owing

def Busy (s : Session) (f : FutureId) : Prop :=
  (∃ cb ∈ s.entries, cb.future = f) ∨ ∃ call ∈ s.calls, call.future = some f

def Registered (s : Session) (c : ConnId) (id : Int) (cb : Callback) : Prop :=
  ∃ conn, s.conns[c]? = some conn ∧ conn.requests.get? id = some cb

def ConnsOk (s : Session) : Prop := ∀ conn ∈ s.conns, IdsOk ⟨conn, []⟩

end Session

structure Completion where
  event : Bool
  finalResult : Option (Option Results)
  finalException : Option Exc
  callbacks : List UserFn
  errbacks : List UserFn
  history : List FutureEvent

def ResponseFuture.completion (fut : ResponseFuture) : Completion where
  event := fut.event
  finalResult := fut.finalResult
  finalException := fut.finalException
  callbacks := fut.callbacks
  errbacks := fut.errbacks
  history := fut.history

def Session.completions (s : Session) : List Completion := s.futures.map ResponseFuture.completion

open Session

/-! ## Replacing one connection -/

section

variable {α β : Type}

variable {a : α} {i : Nat} {l : List α}

theorem flatMap_perm_eraseIdx (f : α → List β) (h : l[i]? = some a) :
    (l.flatMap f).Perm (f a ++ (l.eraseIdx i).flatMap f) := by
  obtain ⟨hi, rfl⟩ := List.getElem?_eq_some_iff.mp h
  have hs : l = l.take i ++ l[i] :: l.drop (i + 1) := by
    rw [← drop_eq_getElem_cons, take_append_drop]
  rw [eraseIdx_eq_take_drop_succ]
  conv_lhs => rw [hs]
  simp only [flatMap_append]
  exact perm_append_comm_assoc ..

theorem flatMap_set_perm (f : α → List β) (a' : α) (h : l[i]? = some a) :
    ((l.set i a').flatMap f).Perm (f a' ++ (l.eraseIdx i).flatMap f) := by
  obtain ⟨hi, -⟩ := List.getElem?_eq_some_iff.mp h
  have := flatMap_perm_eraseIdx f (getElem?_set_self (a := a') hi)
  rwa [eraseIdx_set_eq] at this

end

variable {c c' : ConnId} {conn conn' : Connection Callback} {s s' : Session} {cb : Callback} {id : Int}
  {g : Connection Callback → Connection Callback} {α β κ : Type} {f : FutureId}

theorem entries_perm (h : s.conns[c]? = some conn) :
    s.entries.Perm (conn.requests.values ++ (s.conns.eraseIdx c).flatMap fun conn => conn.requests.values) :=
  flatMap_perm_eraseIdx _ h

theorem inFlightOf_set (hs : s'.conns = s.conns.set c conn) (hc : c < s.conns.length) (c' : ConnId) :
    s'.inFlightOf c' = if c' = c then conn.inFlight else s.inFlightOf c' := by
  unfold inFlightOf
  rw [hs]
  by_cases h : c = c'
  · subst h
    simp [hc]
  · simp [h, Ne.symm h]

theorem connsOk_set (hs : s'.conns = s.conns.set c conn) (h : s.ConnsOk) (hc : IdsOk ⟨conn, []⟩) : s'.ConnsOk := by
  intro x hx
  rw [hs] at hx
  rcases mem_or_eq_of_mem_set hx with hx | rfl
  · exact h x hx
  · exact hc

theorem registered_set_iff (hcn : s.conns[c]? = some conn) (hs : s'.conns = s.conns.set c conn') :
    s'.Registered c' id cb ↔ if c' = c then conn'.requests.get? id = some cb else s.Registered c' id cb := by
  obtain ⟨hlt, -⟩ := List.getElem?_eq_some_iff.mp hcn
  unfold Registered
  rw [hs]
  split
  · rename_i hc
    simp [hc, hlt]
  · rename_i hc
    simp [getElem?_set_ne (Ne.symm hc)]

theorem registered_set (hc : s.conns[c]? = some conn) (hs : s'.conns = s.conns.set c conn')
    (hreq : ∀ id cb, conn'.requests.get? id = some cb → conn.requests.get? id = some cb) (h : s'.Registered c' id cb) :
    s.Registered c' id cb := by
  rw [registered_set_iff hc hs] at h
  split at h
  · rename_i hcc
    exact ⟨conn, hcc ▸ hc, hreq id cb h⟩
  · exact h

theorem registered_modConn (hreq : ∀ conn, (g conn).requests = conn.requests)
    (h : (s.modConn c g).Registered c' id cb) : s.Registered c' id cb := by
  obtain ⟨x, hx, hget⟩ := h
  unfold modConn at hx
  rw [getElem?_modify, Option.map_eq_map, Option.map_eq_some_iff] at hx
  obtain ⟨conn, hc, rfl⟩ := hx
  refine ⟨conn, hc, ?_⟩
  split at hget
  · rwa [hreq] at hget
  · exact hget

theorem map_modify {l : List α} {g : α → α} {part : α → β} (h : ∀ a, part (g a) = part a) (i : Nat) :
    (l.modify i g).map part = l.map part := by
  apply ext_getElem?
  intro j
  rw [getElem?_map, getElem?_map, getElem?_modify]
  cases l[j]? with
  | none => rfl
  | some a => by_cases hj : i = j <;> simp [hj, h]

theorem getElem?_map_modify (l : List α) (g : α → α) (part : α → β) (i j : Nat) :
    ((l.modify i g).map part)[j]? = if i = j then l[j]?.map fun a => part (g a) else (l.map part)[j]? := by
  rw [getElem?_map, getElem?_modify]
  split
  · rw [Option.map_eq_map, Option.map_map]
    rfl
  · simp

/-! ## The relation -/

structure SameBooks (s s' : Session) : Prop where
  outstanding : s'.outstanding.Perm s.outstanding
  inFlight : ∀ c, s'.inFlightOf c = s.inFlightOf c
  length : s.conns.length ≤ s'.conns.length
  connsOk : 1 ≤ s.maxInFlight → s.ConnsOk → s'.ConnsOk
  borrowed : s'.borrowed = s.borrowed
  returned : s'.returned = s.returned
  sends : s'.sends = s.sends
  raisedSends : s'.raisedSends = s.raisedSends
  maxInFlight : s'.maxInFlight = s.maxInFlight

theorem SameBooks.trans {s s' s'' : Session} (h : SameBooks s s') (h' : SameBooks s' s'') : SameBooks s s'' where
  outstanding := h'.outstanding.trans h.outstanding
  inFlight c := (h'.inFlight c).trans (h.inFlight c)
  length := Nat.le_trans h.length h'.length
  connsOk hm hs := h'.connsOk (by rw [h.maxInFlight]; exact hm) (h.connsOk hm hs)
  borrowed := h'.borrowed.trans h.borrowed
  returned := h'.returned.trans h.returned
  sends := h'.sends.trans h.sends
  raisedSends := h'.raisedSends.trans h.raisedSends
  maxInFlight := h'.maxInFlight.trans h.maxInFlight

structure Upkeep (s s' : Session) : Prop extends SameBooks s s' where
  busy : ∀ f, s'.Busy f → s.Busy f
  registered : ∀ c id cb, s'.Registered c id cb → s.Registered c id cb
  completions : s'.completions = s.completions

theorem Upkeep.refl (s : Session) : Upkeep s s :=
  ⟨⟨Perm.refl _, fun _ => rfl, Nat.le_refl _, fun _ h => h, rfl, rfl, rfl, rfl, rfl⟩, fun _ h => h, fun _ _ _ h => h, rfl⟩

theorem Upkeep.trans {s s' s'' : Session} (h : Upkeep s s') (h' : Upkeep s' s'') : Upkeep s s'' where
  toSameBooks := h.toSameBooks.trans h'.toSameBooks
  busy f hf := h.busy f (h'.busy f hf)
  registered c id cb hr := h.registered c id cb (h'.registered c id cb hr)
  completions := h'.completions.trans h.completions

theorem upkeep_pools {s : Session} (pools : List Pool) (poolOf : Dict Host PoolId) :
    Upkeep s { s with pools, poolOf } :=
  { Upkeep.refl s with }

theorem upkeep_modFuture (s : Session) (f : FutureId) (g : ResponseFuture → ResponseFuture)
    (h : ∀ fut, (g fut).completion = fut.completion) : Upkeep s (s.modFuture f g) :=
  { Upkeep.refl s with completions := map_modify h f }

theorem entries_modConn {s : Session} {c : ConnId} {g : Connection Callback → Connection Callback}
    (hreq : ∀ conn, (g conn).requests = conn.requests) : (s.modConn c g).entries = s.entries := by
  unfold Session.entries modConn
  simp only [flatMap]
  congr 1
  apply ext_getElem?
  intro i
  rw [getElem?_map, getElem?_map, getElem?_modify]
  cases s.conns[i]? with
  | none => rfl
  | some conn => by_cases hi : c = i <;> simp [hi, hreq]

theorem connsOk_modConn (hids : ∀ conn, IdsOk (κ := Callback) ⟨conn, []⟩ → IdsOk ⟨g conn, []⟩) (h : s.ConnsOk) :
    (s.modConn c g).ConnsOk := by
  intro conn hc
  obtain ⟨i, hi⟩ := mem_iff_getElem?.mp hc
  unfold modConn at hi
  rw [getElem?_modify] at hi
  obtain ⟨old, hget, rfl⟩ := Option.map_eq_some_iff.mp hi
  have hold := h old (mem_of_getElem? hget)
  split
  · exact hids old hold
  · exact hold

theorem upkeep_modConn {s : Session} {c : ConnId} {g : Connection Callback → Connection Callback}
    (hreq : ∀ conn, (g conn).requests = conn.requests) (hfl : ∀ conn, (g conn).inFlight = conn.inFlight)
    (hids : ∀ conn, IdsOk (κ := Callback) ⟨conn, []⟩ → IdsOk ⟨g conn, []⟩) : Upkeep s (s.modConn c g) := by
  refine ⟨⟨?_, ?_, by simp [modConn], fun _ => connsOk_modConn hids, rfl, rfl, rfl, rfl, rfl⟩, ?_,
    fun _ _ _ => registered_modConn hreq, rfl⟩
  · unfold Session.outstanding
    rw [entries_modConn hreq]
    exact .refl _
  · intro i
    unfold inFlightOf modConn
    simp only [getElem?_modify]
    cases s.conns[i]? with
    | none => rfl
    | some conn => by_cases hi : c = i <;> simp [hi, hfl]
  intro f hf
  unfold Busy at hf
  rwa [entries_modConn hreq] at hf

variable {call : Call} {fut : ResponseFuture} {o : Oracle} {resp : Response}

theorem upkeep_submit {s : Session} (h : call.future = none) : Upkeep s (s.submit call) := by
  have ho : call.owing = none := by
    cases call <;> first | rfl | cases h
  refine ⟨⟨?_, fun _ => rfl, Nat.le_refl _, fun _ h => h, rfl, rfl, rfl, rfl, rfl⟩, ?_, fun _ _ _ h => h, rfl⟩
  · simp [Session.outstanding, Session.entries, submit, ho]
  rintro f (hf | ⟨x, hx, hxf⟩)
  · exact .inl hf
  simp only [submit, mem_append, mem_singleton] at hx
  rcases hx with hx | rfl
  · exact .inr ⟨x, hx, hxf⟩
  rw [h] at hxf
  cases hxf

theorem upkeep_addConn {s : Session} : Upkeep s s.addConn := by
  have hreq : (Connection.init s.protocolVersion s.maxInFlight : Connection Callback).requests = Dict.empty := by
    unfold Connection.init
    split <;> rfl
  have hfl : (Connection.init s.protocolVersion s.maxInFlight : Connection Callback).inFlight = 0 := by
    unfold Connection.init
    split <;> rfl
  have he : s.addConn.entries = s.entries := by simp [Session.entries, addConn, hreq]
  refine ⟨⟨?_, ?_, by simp [addConn], ?_, rfl, rfl, rfl, rfl, rfl⟩, ?_, ?_, rfl⟩
  · unfold Session.outstanding
    rw [he]
    exact .refl _
  · intro c
    unfold inFlightOf addConn
    simp only [getElem?_append]
    split
    · rfl
    have hn : s.conns[c]? = none := getElem?_eq_none (by omega)
    rw [hn]
    cases hi : c - s.conns.length with
    | zero => simp [hfl]
    | succ n => simp
  · intro hmax hs conn hc
    simp only [addConn, mem_append, mem_singleton] at hc
    rcases hc with hc | rfl
    · exact hs conn hc
    · exact ids_init_ok _ _ hmax
  · intro f hf
    unfold Busy at hf
    rwa [he] at hf
  rintro c id cb ⟨conn, hc, hget⟩
  unfold addConn at hc
  rw [getElem?_append] at hc
  split at hc
  · exact ⟨conn, hc, hget⟩
  rw [mem_singleton.mp (mem_of_getElem? hc), hreq] at hget
  cases hget

/-! ## Closing a connection -/

theorem errorOrder_perm (cbs : List κ) : (errorOrder cbs).Perm cbs := by
  unfold errorOrder
  cases h : cbs.getLast? with
  | none =>
    rw [getLast?_eq_none_iff] at h
    rw [h]
  | some cb =>
    have hs := dropLast_append_getLast? cb h
    have hp : (cb :: cbs.dropLast).Perm (cbs.dropLast ++ [cb]) := (perm_append_singleton ..).symm
    rwa [hs] at hp

structure Stopped {κ : Type} (conn conn' : Connection κ) (cbs : List κ) : Prop where
  requests : (conn'.requests.values ++ cbs).Perm conn.requests.values
  registered : ∀ id cb, conn'.requests.get? id = some cb → conn.requests.get? id = some cb
  inFlight : conn'.inFlight = conn.inFlight
  ids : IdsOk ⟨conn, []⟩ → IdsOk ⟨conn', []⟩

theorem close_stopped (conn : Connection κ) : Stopped conn (close conn).1 (close conn).2 := by
  refine ⟨?_, ?_, ?_, close_ok⟩
  · unfold close
    split
    · simp
    simp only
    split
    · simp
    · exact errorOrder_perm _
  · intro id cb h
    unfold close at h
    split at h
    · exact h
    simp only at h
    split at h
    · exact h
    · cases h
  unfold close
  split
  · rfl
  simp only
  split <;> rfl

theorem defunct_stopped (conn : Connection κ) : Stopped conn (defunct conn).1 (defunct conn).2 := by
  refine ⟨?_, ?_, ?_, defunct_ok⟩
  · unfold defunct
    split
    · simp
    rename_i hdd
    simp only [Bool.or_eq_true, not_or] at hdd
    simp only [hdd.2]
    exact errorOrder_perm _
  · intro id cb h
    rcases defunct_cases conn with hd | hd <;> rw [hd] at h
    · exact h
    · cases h
  · rcases defunct_cases conn with h | h <;> rw [h]

theorem mem_entries : cb ∈ s.entries ↔ ∃ conn ∈ s.conns, cb ∈ conn.requests.values := mem_flatMap

theorem upkeep_stopConn {stop : Connection Callback → Connection Callback × List Callback}
    (hst : ∀ conn, Stopped conn (stop conn).1 (stop conn).2) {s : Session} {c : ConnId} :
    Upkeep s (s.stopConn stop c) := by
  unfold stopConn
  split
  · exact Upkeep.refl s
  rename_i conn hcn
  obtain ⟨hc, -⟩ := List.getElem?_eq_some_iff.mp hcn
  have hcalls : ∀ cbs : List Callback, (cbs.map (Call.callback · .connectionShutdown)).filterMap Call.owing = cbs := by
    intro cbs
    rw [filterMap_map]
    exact filterMap_some
  have hnew := flatMap_set_perm (fun conn => conn.requests.values) (stop conn).1 hcn
  refine ⟨⟨?_, ?_, by simp, ?_, rfl, rfl, rfl, rfl, rfl⟩, ?_, ?_, rfl⟩
  · -- The requests that leave the table are exactly those that are called back.
    rw [perm_iff_count]
    intro cb
    have h1 := hnew.count_eq cb
    have h2 := (entries_perm hcn).count_eq cb
    have h3 := (hst conn).requests.count_eq cb
    simp only [Session.outstanding, Session.entries, filterMap_append, hcalls, count_append] at h1 h2 h3 ⊢
    omega
  · intro c'
    rw [inFlightOf_set rfl hc]
    split
    · rename_i hcc
      subst hcc
      rw [(hst conn).inFlight]
      simp [inFlightOf, hcn]
    · rfl
  · intro _ hs
    exact connsOk_set rfl hs ((hst conn).ids (hs conn (mem_of_getElem? hcn)))
  · rintro f (⟨cb, hcb, hf⟩ | ⟨call, hcl, hf⟩)
    · left
      refine ⟨cb, ?_, hf⟩
      have hmem := hnew.mem_iff.mp hcb
      refine (entries_perm hcn).mem_iff.mpr ?_
      rw [mem_append] at hmem ⊢
      rcases hmem with hmem | hmem
      · exact .inl ((hst conn).requests.mem_iff.mp (mem_append_left _ hmem))
      · exact .inr hmem
    simp only [mem_append, mem_map] at hcl
    rcases hcl with hcl | ⟨cb, hcb, rfl⟩
    · exact .inr ⟨call, hcl, hf⟩
    left
    refine ⟨cb, ?_, by simpa [Call.future] using hf⟩
    rw [mem_entries]
    exact ⟨conn, mem_of_getElem? hcn, (hst conn).requests.mem_iff.mp (mem_append_right _ hcb)⟩
  intro c' id cb
  exact registered_set hcn rfl (hst conn).registered

theorem upkeep_closeConn (s : Session) (c : ConnId) : Upkeep s (s.closeConn c) := upkeep_stopConn close_stopped

theorem upkeep_defunctConn (s : Session) (c : ConnId) : Upkeep s (s.defunctConn c) :=
  upkeep_stopConn defunct_stopped

/-! ## The pools -/

theorem upkeep_signaledError {s : Session} {c : ConnId} :
    Upkeep s (s.modConn c fun conn => { conn with signaledError := true }) :=
  upkeep_modConn (fun _ => rfl) (fun _ => rfl) fun _ h => ⟨h.once, h.range, h.highest⟩

theorem PoolWork.upkeep (h : PoolWork s s') : Upkeep s s' := by
  induction h with
  | refl => exact Upkeep.refl s
  | pools _ pools poolOf ih => exact ih.trans (upkeep_pools ..)
  | signaled _ c ih => exact ih.trans (upkeep_signaledError ..)
  | close _ c ih => exact ih.trans (upkeep_closeConn ..)
  | connect _ ih => exact ih.trans upkeep_addConn
  | submit _ call hc ih => exact ih.trans (upkeep_submit hc)

theorem upkeep_keyspace (s : Session) (c : ConnId) (keyspace : Option String) :
    Upkeep s (s.modConn c fun conn => { conn with keyspace }) :=
  upkeep_modConn (fun _ => rfl) (fun _ => rfl) fun _ h => ⟨h.once, h.range, h.highest⟩

def Session.countedDown (s : Session) (f : FutureId) (c : ConnId) : Session :=
  { s.modConn c giveBack with returned := (f, c) :: s.returned }

theorem countedDown_entries (s : Session) (f : FutureId) (c : ConnId) : (s.countedDown f c).entries = s.entries :=
  entries_modConn fun _ => rfl

theorem countedDown_inFlightOf (f : FutureId) (hc : c < s.conns.length) (c' : ConnId) :
    (s.countedDown f c).inFlightOf c' = s.inFlightOf c' - if c' = c then 1 else 0 := by
  unfold inFlightOf countedDown modConn
  by_cases h : c = c'
  · subst h
    simp [getElem?_eq_getElem hc, giveBack]
  · simp [h, Ne.symm h]

theorem countedDown_connsOk : (s.countedDown f c).ConnsOk ↔ s.ConnsOk := by
  refine ⟨fun h conn hc => ?_, connsOk_modConn fun conn h => ⟨h.once, h.range, h.highest⟩⟩
  obtain ⟨i, hi⟩ := mem_iff_getElem?.mp hc
  have hget : (s.countedDown f c).conns[i]? = some (if c = i then giveBack conn else conn) := by
    simp only [countedDown, modConn, getElem?_modify, hi]
    split <;> rfl
  have := h _ (mem_of_getElem? hget)
  split at this
  · exact ⟨this.once, this.range, this.highest⟩
  · exact this

theorem countedDown_registered : (s.countedDown f c).Registered c' id cb ↔ s.Registered c' id cb := by
  refine ⟨registered_modConn (g := giveBack) fun _ => rfl, ?_⟩
  rintro ⟨conn, hc, hget⟩
  refine ⟨if c = c' then giveBack conn else conn, ?_, ?_⟩
  · simp only [Session.countedDown, modConn, getElem?_modify, hc]
    split <;> rfl
  · split <;> exact hget

theorem Upkeep.countedDown (h : Upkeep s s') (f : FutureId) (hc : c < s.conns.length) :
    Upkeep (s.countedDown f c) (s'.countedDown f c)  where
  outstanding := by
    have := h.outstanding
    unfold Session.outstanding at ⊢
    rwa [countedDown_entries, countedDown_entries]
  busy := by
    intro g hg
    have := h.busy g
    unfold Busy at hg ⊢
    rw [countedDown_entries] at hg ⊢
    exact this hg
  inFlight c' := by
    rw [countedDown_inFlightOf f hc, countedDown_inFlightOf f (Nat.lt_of_lt_of_le hc h.length), h.inFlight]
  length := by simpa [Session.countedDown, modConn] using h.length
  connsOk hmax hs := countedDown_connsOk.mpr (h.connsOk hmax (countedDown_connsOk.mp hs))
  registered c id cb hr := countedDown_registered.mpr (h.registered c id cb (countedDown_registered.mp hr))
  completions := h.completions
  borrowed := h.borrowed
  returned := by simp [Session.countedDown, h.returned]
  sends := h.sends
  raisedSends := h.raisedSends
  maxInFlight := h.maxInFlight

theorem upkeep_returnConnection (o : Oracle) (s : Session) (f : FutureId) (p : PoolId) (c : ConnId) :
    Upkeep (s.countedDown f c) (s.returnConnection o f p c) := (PoolWork.returnConnection o s f p c).upkeep

/-! ## Futures -/

theorem exists_future (h : s'.completions = s.completions) (hf : s.futures[f]? = some fut) :
    ∃ fut', s'.futures[f]? = some fut' ∧ fut'.completion = fut.completion := by
  have hget : s'.completions[f]? = some fut.completion := by
    rw [h, completions, getElem?_map, hf]
    rfl
  rwa [completions, getElem?_map, Option.map_eq_some_iff] at hget

theorem startTimer_completion (o : Oracle) (fut : ResponseFuture) : (fut.startTimer o).completion = fut.completion := by
  unfold ResponseFuture.startTimer
  split
  · rfl
  split
  · rfl
  · split <;> rfl

theorem upkeep_startTimer (o : Oracle) (s : Session) (f : FutureId) :
    Upkeep s (s.modFuture f (ResponseFuture.startTimer o)) := upkeep_modFuture s f _ (startTimer_completion o)

theorem noteResponse_completion : (noteResponse o resp fut).completion = fut.completion := by
  unfold noteResponse
  split
  · rfl
  · rfl
  · split <;> rfl

theorem upkeep_note (o : Oracle) (s : Session) (f : FutureId) (fut : ResponseFuture) (resp : Response) :
    Upkeep s ((s.noteStatement fut resp).modFuture f (noteResponse o resp)) := by
  have hs : Upkeep s (s.noteStatement fut resp) := by
    unfold noteStatement
    split
    · split
      · split
        · exact { Upkeep.refl s with }
        · exact Upkeep.refl s
      · exact Upkeep.refl s
    · exact Upkeep.refl s
  exact hs.trans (upkeep_modFuture _ f _ fun _ => noteResponse_completion)

theorem upkeep_defunctOwn (s : Session) (fut : ResponseFuture) : Upkeep s (s.defunctOwn fut) := by
  unfold defunctOwn
  split
  · exact Upkeep.refl s
  · exact upkeep_defunctConn ..

/-! ## Messages -/

theorem upkeep_reorder {s : Session} {calls : List Call} (h : calls.Perm s.calls) : Upkeep s { s with calls } := by
  refine ⟨⟨?_, fun _ => rfl, Nat.le_refl _, fun _ h => h, rfl, rfl, rfl, rfl, rfl⟩, ?_, fun _ _ _ h => h, rfl⟩
  · exact (h.filterMap Call.owing).append_left s.entries
  rintro f (hf | ⟨call, hc, hf⟩)
  · exact .inl hf
  · exact .inr ⟨call, h.mem_iff.mp hc, hf⟩

theorem upkeep_defunct_first {s : Session} {c : ConnId} :
    Upkeep ((s.submit call).defunctConn c) ((s.defunctConn c).submit call) := by
  have hc : (s.submit call).conns = s.conns := rfl
  unfold defunctConn stopConn
  rw [hc]
  cases s.conns[c]? with
  | none => exact Upkeep.refl _
  | some conn =>
    refine upkeep_reorder ?_
    simp only [submit, append_assoc]
    exact perm_append_comm.append_left _

theorem upkeep_takeRequest {stream : Int} (hcn : s.conns[c]? = some conn)
    (ht : takeRequest conn stream = some (cb, conn')) :
    Upkeep s (({ s with conns := s.conns.set c conn' } : Session).submit (.callback cb resp)) := by
  obtain ⟨hc, -⟩ := List.getElem?_eq_some_iff.mp hcn
  obtain ⟨hget, heq⟩ := takeRequest_eq_some ht
  have hreq : conn'.requests = conn.requests.erase stream := by rw [heq]
  have hnew := flatMap_set_perm (fun conn => conn.requests.values) conn' hcn
  have hv := Dict.values_of_get? hget
  refine ⟨⟨?_, ?_, by simp [submit], ?_, rfl, rfl, rfl, rfl, rfl⟩, ?_, ?_, rfl⟩
  · rw [perm_iff_count]
    intro x
    have h1 := hnew.count_eq x
    have h2 := (entries_perm hcn).count_eq x
    have h3 := hv.count_eq x
    rw [← singleton_append] at h3
    simp only [Session.outstanding, Session.entries, submit, hreq, filterMap_append, filterMap_cons, Call.owing,
      filterMap_nil, count_append] at h1 h2 h3 ⊢
    omega
  · intro c'
    rw [inFlightOf_set rfl hc]
    split
    · rename_i hcc
      subst hcc
      simp [inFlightOf, hcn, heq]
    · rfl
  · intro _ hs
    exact connsOk_set rfl hs (takeRequest_ok (s := ⟨conn, []⟩) (hs conn (mem_of_getElem? hcn)) ht)
  · rintro f (⟨x, hx, hf⟩ | ⟨call, hcl, hf⟩)
    · left
      refine ⟨x, (entries_perm hcn).mem_iff.mpr ?_, hf⟩
      have hmem := hnew.mem_iff.mp hx
      rw [mem_append, hreq] at hmem
      rw [mem_append]
      rcases hmem with hmem | hmem
      · exact .inl (hv.mem_iff.mpr (mem_cons_of_mem _ hmem))
      · exact .inr hmem
    simp only [submit, mem_append, mem_singleton] at hcl
    rcases hcl with hcl | rfl
    · exact .inr ⟨call, hcl, hf⟩
    left
    refine ⟨cb, mem_entries.mpr ⟨conn, mem_of_getElem? hcn, ?_⟩, by simpa [Call.future] using hf⟩
    exact hv.mem_iff.mpr mem_cons_self
  intro c' id x
  refine registered_set hcn rfl fun id x hx => ?_
  rw [hreq, Dict.get?_erase] at hx
  split at hx
  · cases hx
  · exact hx

theorem upkeep_processMsg (d : Decoding Callback Response Response) (s : Session) (c : ConnId) (fr : Frame) :
    Upkeep s (s.processMsg d c fr) := by
  unfold Session.processMsg
  split
  · exact Upkeep.refl s
  rename_i conn hcn
  have hset : ({ s with conns := s.conns.set c conn } : Session) = s := by
    obtain ⟨hc, rfl⟩ := List.getElem?_eq_some_iff.mp hcn
    rw [set_getElem_self]
  rcases processMsg_handled d conn fr with
    (h | ⟨_, h⟩ | ⟨_, h⟩) | ⟨cb, conn', ht, ⟨response, h⟩ | ⟨response, h⟩ | ⟨exc, h⟩⟩ <;> rw [h] <;> simp only
  · rw [hset]
    exact Upkeep.refl s
  · rw [hset]
    exact Upkeep.refl s
  · rw [hset]
    exact upkeep_defunctConn s c
  · exact upkeep_takeRequest hcn ht
  · -- Here the callback is called after those that `defunct` calls.
    exact ((upkeep_takeRequest hcn ht).trans (upkeep_defunctConn _ c)).trans (upkeep_defunct_first ..)
  · exact (upkeep_takeRequest hcn ht).trans (upkeep_defunctConn _ c)

end CqlDriver.Requests
