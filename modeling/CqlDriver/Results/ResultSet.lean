import Mathlib.Data.List.Basic
import Mathlib.Data.List.TakeWhile

/-!
# Iterating over the pages of a result

`ResultSet` with the part of its future that fetches pages. The server is the list of pages to come.
-/

namespace CqlDriver.Results

open List

variable {ρ : Type}

structure Page (ρ : Type) where
  rows : List ρ
  pagingState : Option (List UInt8)

structure ResponseFuture (ρ : Type) where
  pagingState : Option (List UInt8)
  /-- `_NOT_SET` is `none`. -/
  finalResult : Option (List ρ)
  server : List (Page ρ)

namespace ResponseFuture

def hasMorePages (f : ResponseFuture ρ) : Bool := f.pagingState.isSome

def exhausted (f : ResponseFuture ρ) : Bool := f.pagingState.all List.isEmpty

def answered (f : ResponseFuture ρ) : ResponseFuture ρ :=
  match f.server with
  | [] => f
  | page :: rest => ⟨page.pagingState, some page.rows, rest⟩

/-- `none` is the `QueryExhausted`. -/
def startFetchingNextPage (f : ResponseFuture ρ) : Option (ResponseFuture ρ) :=
  if f.exhausted then none else some ({ f with finalResult := none } : ResponseFuture ρ).answered

end ResponseFuture

structure ResultSet (ρ : Type) where
  responseFuture : ResponseFuture ρ
  currentRows : List ρ
  pageIter : Option (List ρ)
  listMode : Bool

inductive Next (ρ : Type)
  | row (row : ρ)
  | stopIteration
  /-- Another exception, or a wait for a page that does not come. -/
  | raised

namespace ResultSet

def init (responseFuture : ResponseFuture ρ) (initialResponse : List ρ) : ResultSet ρ :=
  ⟨responseFuture, initialResponse, none, false⟩

def iter (rs : ResultSet ρ) : ResultSet ρ := { rs with pageIter := some rs.currentRows }

def fetchNextPage (rs : ResultSet ρ) : Option (ResultSet ρ) :=
  if rs.responseFuture.hasMorePages then
    rs.responseFuture.startFetchingNextPage.bind fun f =>
      f.finalResult.map fun rows => { rs with responseFuture := f, currentRows := rows }
  else some { rs with currentRows := [] }

def nextRow (rs : ResultSet ρ) : ResultSet ρ × Next ρ :=
  match rs.pageIter with
  | none => (rs, .raised)
  | some [] => (rs, .stopIteration)
  | some (row :: rest) => ({ rs with pageIter := some rest }, .row row)

/-- The page after an exhausted one is asked once. -/
def next (rs : ResultSet ρ) : ResultSet ρ × Next ρ :=
  match rs.nextRow with
  | (rs, .stopIteration) =>
    if rs.responseFuture.hasMorePages then
      match rs.fetchNextPage with
      | none => (rs, .raised)
      | some rs => rs.iter.nextRow
    else (if rs.listMode then rs else { rs with currentRows := [] }, .stopIteration)
  | result => result

/-- In at most `fuel` calls of `next`. -/
def drain : Nat → ResultSet ρ → Option (List ρ × ResultSet ρ)
  | 0, _ => none
  | fuel + 1, rs =>
    match rs.next with
    | (rs, .row row) => (drain fuel rs).map fun (rows, rs) => (row :: rows, rs)
    | (rs, .stopIteration) => some ([], rs)
    | (_, .raised) => none

def list (fuel : Nat) (rs : ResultSet ρ) : Option (List ρ × ResultSet ρ) :=
  if rs.listMode then some (rs.currentRows, rs) else drain fuel rs.iter

def fetchAll (fuel : Nat) (rs : ResultSet ρ) : Option (ResultSet ρ) :=
  (rs.list fuel).map fun (rows, rs) => { rs with currentRows := rows, pageIter := none }

/-- `none` is the `RuntimeError` of a result that has been iterated. -/
def enterListMode (fuel : Nat) (rs : ResultSet ρ) : Option (ResultSet ρ) :=
  if rs.listMode then some rs
  else if rs.pageIter.isSome then none
  else (rs.fetchAll fuel).map fun rs => { rs with listMode := true }

/-- The inner `none` is an `IndexError`. -/
def getItem (fuel : Nat) (rs : ResultSet ρ) (i : Nat) : Option (ResultSet ρ × Option ρ) :=
  (rs.enterListMode fuel).map fun rs => (rs, rs.currentRows[i]?)

def eq [DecidableEq ρ] (fuel : Nat) (rs : ResultSet ρ) (other : List ρ) : Option (ResultSet ρ × Bool) :=
  (rs.enterListMode fuel).map fun rs => (rs, decide (rs.currentRows = other))

end ResultSet

/-! ## Pages of a query -/

/-- All pages but the last have a paging state. -/
def WellPaged : List (Page ρ) → Prop
  | [] => False
  | [page] => page.pagingState = none
  | page :: rest => page.pagingState.any (! ·.isEmpty) = true ∧ WellPaged rest

def resultOf (first : Page ρ) (rest : List (Page ρ)) : ResultSet ρ :=
  .init ⟨first.pagingState, some first.rows, rest⟩ first.rows

def allRows (pages : List (Page ρ)) : List ρ := pages.flatMap Page.rows

/-! ## One call of `next` -/

namespace ResultSet

def Fetching (rs : ResultSet ρ) (pages : List (Page ρ)) : Prop :=
  rs.listMode = false ∧ rs.responseFuture.server = pages ∧
    (pages = [] ∧ rs.responseFuture.pagingState = none ∨
      rs.responseFuture.pagingState.any (! ·.isEmpty) = true ∧ WellPaged pages)

variable {fst : Page ρ} {rest : List (Page ρ)} {rs : ResultSet ρ} {fuel : Nat}

theorem fetching_resultOf (h : WellPaged (fst :: rest)) : (resultOf fst rest).Fetching rest := by
  refine ⟨rfl, rfl, ?_⟩
  cases rest with
  | nil => exact .inl ⟨rfl, h⟩
  | cons page rest => exact .inr h

theorem next_row {row : ρ} {rest : List ρ} (h : rs.pageIter = some (row :: rest)) :
    rs.next = ({ rs with pageIter := some rest }, .row row) := by
  simp only [next, nextRow, h]

theorem next_last (h : rs.pageIter = some []) (hf : rs.Fetching []) :
    rs.next = ({ rs with currentRows := [] }, .stopIteration) := by
  obtain ⟨hm, -, ⟨-, hn⟩ | ⟨-, hp⟩⟩ := hf
  · simp [next, nextRow, h, ResponseFuture.hasMorePages, hn, hm]
  · exact hp.elim

theorem next_page {page : Page ρ} {pages : List (Page ρ)} (h : rs.pageIter = some [])
    (hf : rs.Fetching (page :: pages)) :
    ∃ rs' : ResultSet ρ, rs'.pageIter = some page.rows ∧ rs'.Fetching pages ∧ rs.next = rs'.nextRow := by
  obtain ⟨hm, hs, ⟨hnil, -⟩ | ⟨hst, hp⟩⟩ := hf
  · cases hnil
  obtain ⟨state, hsm, hst⟩ := (Option.any_eq_true _ _).mp hst
  have he : state.isEmpty = false := by simpa using hst
  refine ⟨⟨⟨page.pagingState, some page.rows, pages⟩, page.rows, some page.rows, rs.listMode⟩, rfl, ⟨hm, rfl, ?_⟩, ?_⟩
  · cases pages with
    | nil => exact .inl ⟨rfl, hp⟩
    | cons next pages => exact .inr hp
  simp [next, nextRow, h, fetchNextPage, ResponseFuture.hasMorePages, ResponseFuture.startFetchingNextPage,
    ResponseFuture.exhausted, ResponseFuture.answered, hsm, he, hs, iter]

/-! ## The loop -/

theorem drain_rows (fuel : Nat) (rows : List ρ) :
    ∀ rs : ResultSet ρ, rs.pageIter = some rows → drain (rows.length + fuel) rs =
      (drain fuel { rs with pageIter := some [] }).map fun (later, rs) => (rows ++ later, rs) := by
  induction rows with
  | nil =>
    intro rs h
    obtain ⟨f, current, it, mode⟩ := rs
    cases h
    simp
  | cons row rest ih =>
    intro rs h
    have hf : (row :: rest).length + fuel = (rest.length + fuel) + 1 := by
      rw [length_cons]
      omega
    rw [hf, drain, next_row h]
    simp only
    rw [ih _ rfl, Option.map_map]
    rfl

theorem drain_pages (pages : List (Page ρ)) :
    ∀ (rs : ResultSet ρ) (fuel : Nat), rs.pageIter = some [] → rs.Fetching pages → (allRows pages).length < fuel →
      ∃ rs' : ResultSet ρ, drain fuel rs = some (allRows (pages.takeWhile fun page => !page.rows.isEmpty), rs') ∧
        rs'.listMode = false := by
  induction pages with
  | nil =>
    intro rs fuel h hf hfl
    obtain _ | fuel := fuel
    · omega
    refine ⟨{ rs with currentRows := [] }, ?_, hf.1⟩
    rw [drain, next_last h hf]
    rfl
  | cons page pages ih =>
    intro rs fuel h hf hfl
    obtain _ | fuel := fuel
    · omega
    obtain ⟨rs₁, hi, hf₁, hn⟩ := next_page h hf
    rw [drain, hn, nextRow, hi]
    cases hr : page.rows with
    | nil =>
      refine ⟨rs₁, ?_, hf₁.1⟩
      simp [hr, allRows]
    | cons row rest =>
      -- The first row comes with the page, the others one call after another.
      have hlen : (allRows (page :: pages)).length = rest.length + 1 + (allRows pages).length := by
        simp only [allRows, flatMap_cons, hr, length_append, length_cons]
      obtain ⟨k, rfl⟩ : ∃ k, fuel = rest.length + k := ⟨fuel - rest.length, by omega⟩
      obtain ⟨rs₂, hd, hm⟩ := ih { rs₁ with pageIter := some [] } k rfl hf₁ (by omega)
      refine ⟨rs₂, ?_, hm⟩
      simp only
      rw [drain_rows k rest _ rfl, hd]
      simp [hr, allRows]

theorem list_resultOf (h : WellPaged (fst :: rest)) (hf : (allRows (fst :: rest)).length < fuel) :
    ∃ rs : ResultSet ρ, (resultOf fst rest).list fuel =
      some (fst.rows ++ allRows (rest.takeWhile fun page => !page.rows.isEmpty), rs) ∧ rs.listMode = false := by
  have hlen : (allRows (fst :: rest)).length = fst.rows.length + (allRows rest).length := by simp [allRows]
  obtain ⟨k, rfl⟩ : ∃ k, fuel = fst.rows.length + k := ⟨fuel - fst.rows.length, by omega⟩
  obtain ⟨rs, hd, hm⟩ := drain_pages rest { (resultOf fst rest).iter with pageIter := some [] } k rfl
    (fetching_resultOf h) (by omega)
  refine ⟨rs, ?_, hm⟩
  have hl : (resultOf fst rest).list (fst.rows.length + k) = drain (fst.rows.length + k) (resultOf fst rest).iter := rfl
  rw [hl, drain_rows k fst.rows _ rfl, hd]
  rfl

theorem enterListMode_resultOf (h : WellPaged (fst :: rest)) (hf : (allRows (fst :: rest)).length < fuel) :
    ∃ rs : ResultSet ρ, (resultOf fst rest).enterListMode fuel = some rs ∧ rs.listMode ∧
      rs.currentRows = fst.rows ++ allRows (rest.takeWhile fun page => !page.rows.isEmpty) := by
  obtain ⟨rs, hl, -⟩ := list_resultOf h hf
  have hm : (resultOf fst rest).listMode = false := rfl
  have hi : (resultOf fst rest).pageIter = none := rfl
  simp [enterListMode, fetchAll, hm, hi, hl]

end ResultSet

/-! ## Every row -/

/-- Each way to read gives all rows. -/
structure ReturnsEveryRow [DecidableEq ρ] (fuel : Nat) (result : ResultSet ρ) (rows : List ρ) : Prop where
  iterated : ∃ rs, result.list fuel = some (rows, rs)
  indexed : ∀ i, ∃ rs, result.getItem fuel i = some (rs, rows[i]?) ∧ rs.list fuel = some (rows, rs)
  compared : ∀ other, ∃ rs, result.eq fuel other = some (rs, decide (rows = other)) ∧ rs.list fuel = some (rows, rs)

theorem allRows_takeWhile (first : Page ρ) (rest : List (Page ρ)) :
    first.rows ++ allRows (rest.takeWhile fun page => !page.rows.isEmpty) = allRows (first :: rest) ↔
      ∀ page ∈ rest.dropWhile (fun page => !page.rows.isEmpty), page.rows = [] := by
  have hs : allRows (first :: rest) = first.rows ++ (allRows (rest.takeWhile fun page => !page.rows.isEmpty) ++
      allRows (rest.dropWhile fun page => !page.rows.isEmpty)) := by
    unfold allRows
    rw [flatMap_cons, ← flatMap_append, takeWhile_append_dropWhile]
  rw [hs, append_cancel_left_eq, self_eq_append_right, allRows, flatMap_eq_nil_iff]

/-- **Result iteration** gives every row exactly when no rows follow an empty page. -/
theorem result_returns_every_row [DecidableEq ρ] (first : Page ρ) (rest : List (Page ρ)) (fuel : Nat)
    (h : WellPaged (first :: rest)) (hfuel : (allRows (first :: rest)).length < fuel) :
    ReturnsEveryRow fuel (resultOf first rest) (allRows (first :: rest)) ↔
      ∀ page ∈ rest.dropWhile (fun page => !page.rows.isEmpty), page.rows = [] := by
  rw [← allRows_takeWhile]
  obtain ⟨rs, hl, -⟩ := ResultSet.list_resultOf h hfuel
  obtain ⟨rs', he, hm, hr⟩ := ResultSet.enterListMode_resultOf h hfuel
  constructor
  · rintro ⟨⟨rs'', hall⟩, -, -⟩
    rw [hl, Option.some.injEq, Prod.mk.injEq] at hall
    exact hall.1
  intro hall
  rw [hall] at hl hr
  have ha : rs'.list fuel = some (allRows (first :: rest), rs') := by
    simp [ResultSet.list, hm, hr]
  refine ⟨⟨rs, hl⟩, fun i => ⟨rs', ?_, ha⟩, fun other => ⟨rs', ?_, ha⟩⟩
  · simp [ResultSet.getItem, he, hr]
  · simp [ResultSet.eq, he, hr]

theorem result_returns_every_row_first_empty :
    ReturnsEveryRow 4 (resultOf ⟨[], some [1]⟩ [⟨[7, 8], some [2]⟩, ⟨[], none⟩]) [7, 8] :=
  (result_returns_every_row ⟨[], some [1]⟩ [⟨[7, 8], some [2]⟩, ⟨[], none⟩] 4 ⟨rfl, rfl, rfl⟩ (by decide)).mpr
    (by decide)

/-- The row after an empty page is never given. -/
theorem empty_page_ends_iteration : WellPaged [(⟨[7], some [1]⟩ : Page Nat), ⟨[], some [2]⟩, ⟨[8], none⟩] ∧
      ∀ fuel, ¬ ReturnsEveryRow fuel (resultOf (⟨[7], some [1]⟩ : Page Nat) [⟨[], some [2]⟩, ⟨[8], none⟩]) [7, 8] := by
  refine ⟨⟨rfl, rfl, rfl⟩, ?_⟩
  rintro fuel ⟨⟨rs, hr⟩, -, -⟩
  match fuel with
  | 0 => cases hr
  | 1 => cases hr
  | fuel + 2 => cases hr

end CqlDriver.Results
