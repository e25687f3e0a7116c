import CqlDriver.Lib.Bytes

/-! # Reading from a stream of bytes -/

namespace CqlDriver.Lib

open Option

/-- `\s` of a pattern over texts. -/
def isSpace (c : Char) : Bool :=
  let n := c.toNat
  (0x09 ≤ n && n ≤ 0x0d) || (0x1c ≤ n && n ≤ 0x20) || (0x2000 ≤ n && n ≤ 0x200a) ||
    [0x85, 0xa0, 0x1680, 0x2028, 0x2029, 0x202f, 0x205f, 0x3000].contains n

variable {σ α β : Type}

/-- A reader of the bytes that are left. `none` is an exception. -/
abbrev Reader (σ α : Type) := StateT (Bytes × σ) Option α

namespace Reader

/-- A negative size reads all there is. -/
def read (size : Int) : Reader σ Bytes := fun s =>
  if size < 0 then some (s.1, [], s.2) else some (s.1.take size.toNat, s.1.drop size.toNat, s.2)

def onlyIf (flag : Bool) (m : Reader σ α) : Reader σ (Option α) := if flag then some <$> m else pure none

def times : Nat → Reader σ α → Reader σ (List α)
  | 0, _ => pure []
  | n + 1, m => do
    let a ← m
    let as ← times n m
    return a :: as

/-- The reader takes these bytes and no more, and returns the value. -/
def Consumes (m : Reader σ α) (b : Bytes) (a : α) : Prop :=
  ∀ rest s, ∃ s', m (b ++ rest, s) = some (a, rest, s')

theorem Consumes.pure (a : α) : Consumes (pure a : Reader σ α) [] a := fun _ s => ⟨s, rfl⟩

variable {a : α} {b : Bytes} {m : Reader σ α} {c : β} {f : α → Reader σ β} {o : Option α} {w : Option Bytes}
  {ws : List (Option Bytes)} {write : α → Option Bytes}

theorem Consumes.run_bind (h : Consumes m b a) (f : α → Reader σ β) (rest : Bytes) (s : σ) :
    ∃ s', (m >>= f) (b ++ rest, s) = f a (rest, s') := by
  obtain ⟨s', hs'⟩ := h rest s
  have hrun : (m >>= f) (b ++ rest, s) = (m (b ++ rest, s)).bind fun x => f x.1 x.2 := rfl
  exact ⟨s', by rw [hrun, hs', bind_some]⟩

theorem Consumes.bind {b₁ b₂ : Bytes} (h₁ : Consumes m b₁ a) (h₂ : Consumes (f a) b₂ c) :
    Consumes (m >>= f) (b₁ ++ b₂) c := by
  intro rest s
  obtain ⟨s₁, hs₁⟩ := h₁.run_bind f (b₂ ++ rest) s
  obtain ⟨s₂, hs₂⟩ := h₂ rest s₁
  exact ⟨s₂, by rw [List.append_assoc, hs₁, hs₂]⟩

theorem Consumes.bind_nil (h₁ : Consumes m [] a) (h₂ : Consumes (f a) b c) : Consumes (m >>= f) b c := h₁.bind h₂

theorem Consumes.then (h₁ : Consumes m b a) (h₂ : Consumes (f a) [] c) : Consumes (m >>= f) b c := by
  have h := h₁.bind h₂
  rwa [List.append_nil] at h

theorem Consumes.lift (h : o = some a) : Consumes (liftM o : Reader σ α) [] a := by
  subst h
  exact fun _ s => ⟨s, rfl⟩

theorem Consumes.map (h : Consumes m b a) (f : α → β) : Consumes (f <$> m) b (f a) := by
  intro rest s
  obtain ⟨s', hs'⟩ := h rest s
  refine ⟨s', ?_⟩
  have hrun : (f <$> m) (b ++ rest, s) = (m (b ++ rest, s)).bind fun x => some (f x.1, x.2) := rfl
  rw [hrun, hs']
  rfl

theorem Consumes.optional {enc : α → Bytes} (h : ∀ a ∈ o, Consumes m (enc a) a) :
    Consumes (Reader.onlyIf o.isSome m) ((o.map enc).getD []) o := by
  cases o with
  | none => exact .pure none
  | some a => exact (h a rfl).map some

theorem Consumes.read {n : Int} (h : n = b.length) : Consumes (Reader.read n : Reader σ Bytes) b b := by
  intro rest s
  refine ⟨s, ?_⟩
  subst h
  rw [Reader.read, if_neg (by omega), Int.toNat_natCast, List.take_left, List.drop_left]

theorem Consumes.times {ι : Type} (enc : ι → Bytes) (val : ι → α) (l : List ι)
    (h : ∀ i ∈ l, Consumes m (enc i) (val i)) : Consumes (Reader.times l.length m) (l.flatMap enc) (l.map val) := by
  induction l with
  | nil => exact .pure []
  | cons i l ih =>
    rw [List.forall_mem_cons] at h
    exact h.1.bind ((ih h.2).then (.pure _))

theorem Consumes.all {m : Reader Unit α} (h : Consumes m b a) : m (b, ()) = some (a, [], ()) := by
  obtain ⟨_, hrun⟩ := h [] ()
  rwa [List.append_nil] at hrun

/-! ## Writing -/

def writeAll : List (Option Bytes) → Option Bytes
  | [] => some []
  | w :: ws => do return (← w) ++ (← writeAll ws)

theorem writeAll_singleton (w : Option Bytes) : writeAll [w] = w := by cases w <;> simp [writeAll]

def writeSome (o : Option α) (write : α → Option Bytes) : Option Bytes := o.elim (some []) write

theorem writeSome_some (a : α) (write : α → Option Bytes) : writeSome (some a) write = write a := rfl

/-- Whatever is written, the reader reads back. -/
def ReadsBack (w : Option Bytes) (m : Reader σ α) (a : α) : Prop := ∀ b, w = some b → Consumes m b a

theorem ReadsBack.nil (a : α) : ReadsBack (writeAll []) (pure a : Reader σ α) a := by
  rintro _ ⟨⟩
  exact .pure a

theorem ReadsBack.cons (h : ReadsBack w m a) (hs : ReadsBack (writeAll ws) (f a) c) :
    ReadsBack (writeAll (w :: ws)) (m >>= f) c := by
  intro b hb
  simp only [writeAll, bind_eq_bind, bind_eq_some_iff, pure_def, some.injEq] at hb
  obtain ⟨b₁, hb₁, b₂, hb₂, rfl⟩ := hb
  exact (h b₁ hb₁).bind (hs b₂ hb₂)

theorem ReadsBack.skip (h : ReadsBack (writeAll ws) m a) : ReadsBack (writeAll (some [] :: ws)) m a := by
  intro b hb
  refine h b ?_
  simpa [writeAll] using hb

theorem ReadsBack.then (h : ReadsBack w m a) (hf : Consumes (f a) [] c) : ReadsBack w (m >>= f) c := fun b hb => (h b hb).then hf

theorem ReadsBack.optional_map {flag : Bool} (hf : flag = o.isSome) {m : Reader σ β} {g : α → β}
    (h : ∀ a, ReadsBack (write a) m (g a)) : ReadsBack (writeSome o write) (Reader.onlyIf flag m) (o.map g) := by
  subst hf
  intro b hb
  cases o with
  | none =>
    cases hb
    exact .pure none
  | some a => exact (h a b hb).map some

theorem ReadsBack.optional {flag : Bool} (hf : flag = o.isSome) (h : ∀ a, ReadsBack (write a) m a) :
    ReadsBack (writeSome o write) (Reader.onlyIf flag m) o := by
  simpa using ReadsBack.optional_map (g := id) hf h

theorem ReadsBack.times (h : ∀ a, ReadsBack (write a) m a) (l : List α) :
    ReadsBack (writeAll (l.map write)) (Reader.times l.length m) l := by
  induction l with
  | nil => exact .nil []
  | cons a l ih => exact (h a).cons (ih.then (.pure _))

/-- Whatever is written, the reader reads up to these last bytes. -/
def Leaves (w : Option Bytes) (m : Reader σ α) (a : α) (unread : Bytes) : Prop :=
  ∀ b, w = some b → ∃ b', b = b' ++ unread ∧ Consumes m b' a

theorem Leaves.unread (h : Consumes m [] a) (b : Bytes) : Leaves (some b) m a b :=
  fun _ hb => ⟨[], (some.inj hb).symm, h⟩

theorem ReadsBack.leaves {unread : Bytes} (h : ReadsBack w m a) (hs : Leaves (writeAll ws) (f a) c unread) :
    Leaves (writeAll (w :: ws)) (m >>= f) c unread := by
  intro b hb
  simp only [writeAll, bind_eq_bind, bind_eq_some_iff, pure_def, some.injEq] at hb
  obtain ⟨b₁, hb₁, b₂, hb₂, rfl⟩ := hb
  obtain ⟨b', rfl, hb'⟩ := hs b₂ hb₂
  exact ⟨b₁ ++ b', (List.append_assoc ..).symm, (h b₁ hb₁).bind hb'⟩

end Reader

/-! ## Quoted texts -/

section Quoted

variable {α : Type} [DecidableEq α] {q : α}

def doubled (q : α) (s : List α) : List α := s.flatMap fun c => if c = q then [q, q] else [c]

/-- What stands before the closing quote, and what follows it. -/
def readQuoted (q : α) : List α → Option (List α × List α)
  | [] => none
  | [c] => if c = q then some ([], []) else none
  | c :: d :: rest =>
    if c = q then
      if d = q then (readQuoted q rest).map fun (s, r) => (q :: s, r) else some ([], d :: rest)
    else (readQuoted q (d :: rest)).map fun (s, r) => (c :: s, r)

theorem readQuoted_cons {c : α} (hc : c ≠ q) {t s r : List α} (h : readQuoted q t = some (s, r)) :
    readQuoted q (c :: t) = some (c :: s, r) := by
  cases t with
  | nil => cases h
  | cons d t => rw [readQuoted, if_neg hc, h, Option.map_some]

theorem readQuoted_quote {rest : List α} (hr : rest.head? ≠ some q) : readQuoted q (q :: rest) = some ([], rest) := by
  cases rest with
  | nil => simp [readQuoted]
  | cons d rest => simp_all [readQuoted]

theorem readQuoted_doubled (s : List α) {rest : List α} (hr : rest.head? ≠ some q) :
    readQuoted q (doubled q s ++ q :: rest) = some (s, rest) := by
  induction s with
  | nil => exact readQuoted_quote hr
  | cons c s ih =>
    unfold doubled at ih ⊢
    rw [List.flatMap_cons, List.append_assoc]
    by_cases hc : c = q
    · rw [if_pos hc, List.cons_append, List.cons_append, List.nil_append, readQuoted, if_pos rfl, if_pos rfl, ih,
        Option.map_some, hc]
    rw [if_neg hc]
    exact readQuoted_cons hc ih

end Quoted

end CqlDriver.Lib
