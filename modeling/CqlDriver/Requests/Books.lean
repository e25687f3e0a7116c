import CqlDriver.Requests.Query

/-! # What a handler leaves alone -/

namespace CqlDriver.Requests

open Lib Conn Session

variable {s : Session} {call : Call}

/-! ## Futures and calls -/

theorem sameBooks_modFuture (s : Session) (f : FutureId) (g : ResponseFuture → ResponseFuture) :
    SameBooks s (s.modFuture f g) :=
  ⟨List.Perm.refl _, fun _ => rfl, Nat.le_refl _, fun _ h => h, rfl, rfl, rfl, rfl, rfl⟩

theorem sameBooks_submit (s : Session) (h : call.owing = none) : SameBooks s (s.submit call) := by
  refine ⟨?_, fun _ => rfl, Nat.le_refl _, fun _ h => h, rfl, rfl, rfl, rfl, rfl⟩
  simp [Session.outstanding, Session.entries, submit, h]

theorem sameBooks_eraseIdx {idx : Nat} (hc : s.calls[idx]? = some call) (ho : call.owing = none) :
    SameBooks s { s with calls := s.calls.eraseIdx idx } := by
  refine ⟨?_, fun _ => rfl, Nat.le_refl _, fun _ h => h, rfl, rfl, rfl, rfl, rfl⟩
  obtain ⟨hi, rfl⟩ := List.getElem?_eq_some_iff.mp hc
  have hp := (List.getElem_cons_eraseIdx_perm hi).filterMap Call.owing
  rw [List.filterMap_cons, ho] at hp
  exact hp.append_left s.entries

/-! ## Handlers -/

theorem sameBooks_retry (s : Session) (f : FutureId) (ru : Bool) (host : Host) : SameBooks s (s.retry f ru host) := by
  unfold retry
  split
  · exact (Upkeep.refl s).toSameBooks
  split
  · exact (Upkeep.refl s).toSameBooks
  · exact sameBooks_submit _ rfl

theorem sameBooks_setResult (o : Oracle) (s : Session) (cb : Callback) (resp : Response) :
    SameBooks s (s.setResult o cb resp) := by
  unfold setResult
  split
  · exact (Upkeep.refl s).toSameBooks
  rename_i fut _
  have hn := (upkeep_note o s cb.future fut resp).toSameBooks
  generalize (s.noteStatement fut resp).modFuture cb.future (noteResponse o resp) = s' at hn ⊢
  cases s.verdict o fut resp with
  | final oc =>
    have hset : SameBooks s (s'.settle o cb.future oc) := hn.trans (sameBooks_modFuture ..)
    simp only
    split
    · split
      · exact hset.trans (upkeep_addError ..).toSameBooks
      · exact hset
    · exact hset
  | setKeyspace | schemaChange | reprepare => exact hn.trans (sameBooks_submit _ rfl)
  | retry ru =>
    have hr := hn.trans (sameBooks_retry s' cb.future ru cb.host)
    simp only
    split
    · exact hr.trans (upkeep_addError ..).toSameBooks
    · exact hr
  | connectionError => exact (hn.trans (upkeep_defunctOwn _ fut).toSameBooks).trans (sameBooks_submit _ rfl)
  | unexpected =>
    have hcan := hn.trans (sameBooks_modFuture s' cb.future ResponseFuture.cancelTimer)
    exact (hcan.trans (upkeep_defunctOwn _ fut).toSameBooks).trans (sameBooks_submit _ rfl)

end CqlDriver.Requests
