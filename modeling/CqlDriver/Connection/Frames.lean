import CqlDriver.Connection.Basic
import CqlDriver.Lib.Bytes
import Mathlib.Tactic.IntervalCases

/-! # Cutting the byte stream into frames -/

namespace CqlDriver.Conn

open Lib List

/-! ## The buffer, `io.BytesIO` -/

structure IoBuf where
  bytes : Bytes
  pos : Nat
  deriving DecidableEq

def IoBuf.write (b : IoBuf) (data : Bytes) : IoBuf where
  bytes := b.bytes.take b.pos ++ List.replicate (b.pos - b.bytes.length) 0 ++ data ++
    b.bytes.drop (b.pos + data.length)
  pos := b.pos + data.length

def IoBuf.seek (b : IoBuf) (pos : Nat) : IoBuf := { b with pos }

def IoBuf.read (b : IoBuf) (size : Nat) : Bytes × IoBuf :=
  let data := (b.bytes.drop b.pos).take size
  (data, { b with pos := b.pos + data.length })

def IoBuf.readAll (b : IoBuf) : Bytes := b.bytes.drop b.pos

/-! ## Writing a frame -/

def streamSize (version : Nat) : Nat := if version ≥ 3 then 2 else 1

def writeHeader (version flags : Nat) (stream : Int) (opcode length : Nat) : Option Bytes := do
  let version' ← packUnsigned 1 version
  let flags' ← packUnsigned 1 flags
  let stream' ← packSigned (streamSize version) stream
  let opcode' ← packUnsigned 1 opcode
  let length' ← packSigned 4 length
  return version' ++ flags' ++ stream' ++ opcode' ++ length'

def frameBytes (f : Frame) : Option Bytes := do
  let header ← writeHeader f.version f.flags f.stream f.opcode f.body.length
  return header ++ f.body

/-! ## Reading frames -/

structure FrameHeader where
  version : Nat
  flags : Nat
  stream : Int
  opcode : Nat
  bodyOffset : Nat
  endPos : Nat
  deriving DecidableEq

def maxSupported : Nat := 5

/-- The header in `buf`, if it is all there. -/
def parseHeader (buf : Bytes) : Option (Option FrameHeader) :=
  match buf with
  | [] => some none
  | first :: rest =>
    let version := (first &&& 0x7f).toNat
    if version > maxSupported then none
    else
      let size := streamSize version
      let headerSize := 1 + size + 1 + 4 + 1
      if buf.length ≥ headerSize then
        let flags := beDecode (rest.take 1)
        let stream := signedValue ((rest.drop 1).take size)
        let opcode := beDecode ((rest.drop (1 + size)).take 1)
        let bodyLen := signedValue ((rest.drop (1 + size + 1)).take 4)
        if bodyLen < 0 then none
        else some (some { version, flags, stream, opcode, bodyOffset := headerSize,
                          endPos := bodyLen.toNat + headerSize })
      else some none

structure Reader where
  iobuf : IoBuf
  currentFrame : Option FrameHeader
  processed : List Frame
  isDefunct : Bool
  deriving DecidableEq

def Reader.init : Reader := ⟨⟨[], 0⟩, none, [], false⟩

/-- `_read_frame_header` for no current frame. An exception makes the connection defunct. -/
def readFrameHeader (r : Reader) : Reader × Option Nat :=
  match parseHeader r.iobuf.bytes with
  | none => ({ r with isDefunct := true }, none)
  | some currentFrame => ({ r with currentFrame }, some r.iobuf.bytes.length)

def resetFrame (r : Reader) : Reader :=
  let rest := r.iobuf.readAll
  { r with iobuf := ⟨rest, rest.length⟩, currentFrame := none }

def ensureHeader (r : Reader) : Reader × Option Nat :=
  match r.currentFrame with
  | none => readFrameHeader r
  | some _ => (r, some r.iobuf.pos)

def processLoop : Nat → Reader → Reader
  | 0, r => r
  | fuel + 1, r =>
    let (r, pos) := ensureHeader r
    match r.currentFrame, pos with
    | some frame, some pos =>
      if pos < frame.endPos then r
      else
        let (body, iobuf) := (r.iobuf.seek frame.bodyOffset).read (frame.endPos - frame.bodyOffset)
        let msg : Frame := ⟨frame.version, frame.flags, frame.stream, frame.opcode, body⟩
        processLoop fuel (resetFrame { r with iobuf, processed := r.processed ++ [msg] })
    | _, _ => r

/-- Each round but the last takes off a header. -/
def processIoBuffer (r : Reader) : Reader := processLoop (r.iobuf.bytes.length + 1) r

/-- The reactor's read handler. -/
def handleRead (r : Reader) (chunk : Bytes) : Reader :=
  processIoBuffer { r with iobuf := r.iobuf.write chunk }

/-! ## Well-formed frames -/

structure WellFormed (f : Frame) : Prop where
  version : 1 ≤ f.version ∧ f.version ≤ maxSupported
  flags : f.flags < 256
  stream : -256 ^ streamSize f.version ≤ 2 * f.stream ∧ 2 * f.stream < 256 ^ streamSize f.version
  opcode : f.opcode < 256
  body : f.body.length < 2 ^ 31

def fieldBytes (f : Frame) : Bytes :=
  UInt8.ofNat f.flags :: (signedBytes (streamSize f.version) f.stream ++
    (UInt8.ofNat f.opcode :: signedBytes 4 f.body.length))

def headerBytes (f : Frame) : Bytes := UInt8.ofNat f.version :: fieldBytes f

def wireBytes (f : Frame) : Bytes := headerBytes f ++ f.body

def headerSize (f : Frame) : Nat := 1 + streamSize f.version + 1 + 4 + 1

/-- The complete frames, and the bytes of the next one. -/
def received : List Frame → Bytes → List Frame × Bytes
  | [], arrived => ([], arrived)
  | f :: fs, arrived =>
    if (wireBytes f).length ≤ arrived.length then
      let (done, rest) := received fs (arrived.drop (wireBytes f).length)
      (f :: done, rest)
    else ([], arrived)

/-! ## Headers -/

def headerOf (f : Frame) : FrameHeader :=
  ⟨f.version, f.flags, f.stream, f.opcode, headerSize f, f.body.length + headerSize f⟩

@[simp] theorem headerBytes_length {f : Frame} : (headerBytes f).length = headerSize f := by
  simp [headerBytes, fieldBytes, headerSize]
  omega

theorem wireBytes_length {f : Frame} : (wireBytes f).length = f.body.length + headerSize f := by
  simp [wireBytes, Nat.add_comm]

theorem headerSize_pos (f : Frame) : 0 < headerSize f := by
  unfold headerSize
  omega

theorem packUnsigned_byte {n : Nat} (h : n < 256) : packUnsigned 1 n = some [UInt8.ofNat n] := by
  rw [packUnsigned, if_pos (by omega)]
  simp [beEncode, Nat.mod_eq_of_lt h]

variable {f : Frame} {b rest : Bytes} {r : Reader} {fuel : Nat} {fs frames : List Frame}

theorem body_length_signed (h : WellFormed f) :
    -256 ^ 4 ≤ 2 * (f.body.length : Int) ∧ 2 * (f.body.length : Int) < 256 ^ 4 := by
  have := h.body
  omega

theorem frameBytes_eq (h : WellFormed f) : frameBytes f = some (wireBytes f) := by
  have hv : packUnsigned 1 f.version = some [UInt8.ofNat f.version] :=
    packUnsigned_byte (by have := h.version.2; unfold maxSupported at this; omega)
  have hs : packSigned (streamSize f.version) f.stream = some (signedBytes (streamSize f.version) f.stream) := by
    rw [packSigned, if_pos h.stream]
  have hl : packSigned 4 f.body.length = some (signedBytes 4 f.body.length) := by
    rw [packSigned, if_pos (body_length_signed h)]
  simp [frameBytes, writeHeader, hv, packUnsigned_byte h.flags, hs, packUnsigned_byte h.opcode, hl,
    wireBytes, headerBytes, fieldBytes]

theorem version_byte {v : Nat} (h : v ≤ maxSupported) : (UInt8.ofNat v &&& 0x7f).toNat = v := by
  unfold maxSupported at h
  interval_cases v <;> rfl

theorem beDecode_byte {n : Nat} (h : n < 256) : beDecode [UInt8.ofNat n] = n := by
  simp [beDecode, Nat.mod_eq_of_lt h]

theorem field_stream {f : Frame} {rest : Bytes} : ((fieldBytes f ++ rest).drop 1).take (streamSize f.version) =
      signedBytes (streamSize f.version) f.stream := by
  rw [fieldBytes, cons_append, drop_succ_cons, append_assoc]
  exact take_left' (signedBytes_length _ _)

theorem field_drop_stream {f : Frame} {rest : Bytes} : (fieldBytes f ++ rest).drop (1 + streamSize f.version) =
      UInt8.ofNat f.opcode :: (signedBytes 4 f.body.length ++ rest) := by
  rw [fieldBytes, cons_append, Nat.add_comm, append_assoc]
  exact drop_left' (signedBytes_length _ _)

theorem field_length {f : Frame} {rest : Bytes} : ((fieldBytes f ++ rest).drop (1 + streamSize f.version + 1)).take 4 =
      signedBytes 4 f.body.length := by
  rw [← drop_drop, field_drop_stream, drop_succ_cons]
  exact take_left' (signedBytes_length _ _)

theorem parseHeader_full (h : WellFormed f) (rest : Bytes) :
    parseHeader (headerBytes f ++ rest) = some (some (headerOf f)) := by
  have hver := version_byte h.version.2
  have hl : (headerBytes f ++ rest).length ≥ 1 + streamSize f.version + 1 + 4 + 1 := by
    rw [length_append, headerBytes_length, headerSize]
    omega
  have hf : beDecode ((fieldBytes f ++ rest).take 1) = f.flags := by
    simpa [fieldBytes] using beDecode_byte h.flags
  have ho : beDecode (((fieldBytes f ++ rest).drop (1 + streamSize f.version)).take 1) = f.opcode := by
    rw [field_drop_stream]
    simpa using beDecode_byte h.opcode
  have hs := signedValue_signedBytes _ _ h.stream.1 h.stream.2
  have hlen := signedValue_signedBytes _ _ (body_length_signed h).1 (body_length_signed h).2
  rw [headerBytes, cons_append] at hl ⊢
  simp only [parseHeader, hver]
  rw [if_neg (by have := h.version.2; omega), if_pos hl, hf, field_stream, ho, field_length, hs, hlen]
  simp [headerOf, headerSize]

theorem parseHeader_short (h : WellFormed f) (hb : b <+: wireBytes f) (hlen : b.length < headerSize f) :
    parseHeader b = some none := by
  cases b with
  | nil => rfl
  | cons first rest =>
    have hf : first = UInt8.ofNat f.version := by
      rw [wireBytes, headerBytes, cons_append, cons_prefix_cons] at hb
      exact hb.1
    have hver := version_byte h.version.2
    simp only [parseHeader, hf, hver]
    unfold headerSize at hlen
    rw [length_cons] at hlen
    rw [if_neg (by have := h.version.2; omega), if_neg (by rw [length_cons]; omega)]

/-! ## The loop -/

structure Ready (r : Reader) (b : Bytes) : Prop where
  iobuf : r.iobuf = ⟨b, b.length⟩
  frame : ∀ header, r.currentFrame = some header →
    ∃ f rest, WellFormed f ∧ b = headerBytes f ++ rest ∧ header = headerOf f

theorem Ready.of_none (hb : r.iobuf = ⟨b, b.length⟩) (hn : r.currentFrame = none) : Ready r b :=
  ⟨hb, fun header h => by rw [hn] at h; simp at h⟩

theorem ensureHeader_eq {fr : Option FrameHeader} (h : Ready r b) (hp : parseHeader b = some fr) :
    ensureHeader r = ({ r with currentFrame := fr }, some b.length) := by
  unfold ensureHeader
  split
  · rw [readFrameHeader, h.iobuf, hp]
  rename_i header hf
  obtain ⟨f, rest, hwf, rfl, rfl⟩ := h.frame header hf
  rw [parseHeader_full hwf, Option.some.injEq] at hp
  have hpos : r.iobuf.pos = (headerBytes f ++ rest).length := by rw [h.iobuf]
  rw [← hp, ← hf, hpos]

theorem processLoop_no_header (h : Ready r b) (hp : parseHeader b = some none) :
    processLoop (fuel + 1) r = { r with currentFrame := none } := by
  rw [processLoop, ensureHeader_eq h hp]

theorem processLoop_incomplete {fr : FrameHeader} (h : Ready r b) (hp : parseHeader b = some (some fr))
    (hlen : b.length < fr.endPos) : processLoop (fuel + 1) r = { r with currentFrame := some fr } := by
  simp only [processLoop, ensureHeader_eq h hp, if_pos hlen]

theorem processLoop_frame (hf : WellFormed f) (h : Ready r (wireBytes f ++ rest)) : processLoop (fuel + 1) r =
      processLoop fuel { r with
        iobuf := ⟨rest, rest.length⟩, currentFrame := none, processed := r.processed ++ [f] } := by
  have hp : parseHeader (wireBytes f ++ rest) = some (some (headerOf f)) := by
    rw [wireBytes, append_assoc]
    exact parseHeader_full hf _
  have hend : ¬ (wireBytes f ++ rest).length < (headerOf f).endPos := by
    rw [length_append, wireBytes_length]
    simp only [headerOf]
    omega
  have hb : (f.body ++ rest).take f.body.length = f.body := take_left' rfl
  have hr : (r.iobuf.seek (headerOf f).bodyOffset).read ((headerOf f).endPos - (headerOf f).bodyOffset) =
      (f.body, ⟨wireBytes f ++ rest, headerSize f + f.body.length⟩) := by
    have hd : (wireBytes f ++ rest).drop (headerSize f) = f.body ++ rest := by
      rw [wireBytes, append_assoc]
      exact drop_left' headerBytes_length
    simp [IoBuf.seek, IoBuf.read, h.iobuf, headerOf, hd]
  have hrs : (wireBytes f ++ rest).drop (headerSize f + f.body.length) = rest := by
    rw [Nat.add_comm]
    exact drop_left' wireBytes_length
  simp only [processLoop, ensureHeader_eq h hp, if_neg hend, hr, resetFrame, IoBuf.readAll, hrs]
  rfl

theorem received_of_le :
    received (f :: fs) (wireBytes f ++ rest) = (f :: (received fs rest).1, (received fs rest).2) := by
  rw [received, if_pos (by simp), drop_left' rfl]

theorem received_of_lt (h : b.length < (wireBytes f).length) : received (f :: fs) b = ([], b) := by
  rw [received, if_neg (by omega)]

theorem processLoop_spec {frames : List Frame} : ∀ (b : Bytes) (r : Reader) (fuel : Nat), (∀ f ∈ frames, WellFormed f) →
      b <+: frames.flatMap wireBytes → Ready r b → b.length < fuel → Ready (processLoop fuel r) (received frames b).2 ∧
        (processLoop fuel r).processed = r.processed ++ (received frames b).1 ∧
        (processLoop fuel r).isDefunct = r.isDefunct := by
  induction frames with
  | nil =>
    intro b r fuel _ hb h hfl
    obtain _ | k := fuel
    · omega
    obtain rfl : b = [] := by simpa using hb
    rw [processLoop_no_header h rfl]
    exact ⟨Ready.of_none h.iobuf rfl, by simp [received], rfl⟩
  | cons f fs ih =>
    intro b r fuel hwf hb h hfl
    obtain _ | k := fuel
    · omega
    have hf : WellFormed f := hwf f mem_cons_self
    rw [flatMap_cons] at hb
    rcases Nat.lt_or_ge b.length (wireBytes f).length with hlt | hge
    · -- The first frame is not all there yet.
      have hpre : b <+: wireBytes f := prefix_of_prefix_length_le hb (prefix_append _ _) hlt.le
      rw [received_of_lt hlt]
      rcases Nat.lt_or_ge b.length _ with hs | hh
      · rw [processLoop_no_header h (parseHeader_short hf hpre hs)]
        exact ⟨Ready.of_none h.iobuf rfl, by simp, rfl⟩
      obtain ⟨t, rfl⟩ : headerBytes f <+: b :=
        prefix_of_prefix_length_le (prefix_append _ _) hpre (by simpa using hh)
      have hp := parseHeader_full hf t
      rw [wireBytes_length] at hlt
      rw [processLoop_incomplete h hp (by simpa [headerOf] using hlt)]
      refine ⟨⟨h.iobuf, ?_⟩, by simp, rfl⟩
      intro header hhd
      exact ⟨f, t, hf, rfl, (Option.some.inj hhd).symm⟩
    -- The first frame is complete: process it, then the rest.
    obtain ⟨t, rfl⟩ : wireBytes f <+: b :=
      prefix_of_prefix_length_le (prefix_append _ _) hb hge
    rw [prefix_append_right_inj] at hb
    have hpos := headerSize_pos f
    rw [length_append, wireBytes_length] at hfl
    rw [processLoop_frame hf h, received_of_le]
    have := ih t { r with iobuf := ⟨t, t.length⟩, currentFrame := none, processed := r.processed ++ [f] } k
      (fun g hg => hwf g (mem_cons_of_mem _ hg)) hb (Ready.of_none rfl rfl) (by omega)
    exact ⟨this.1, by rw [this.2.1]; simp, this.2.2⟩

/-! ## Chunks -/

theorem write_at_end {b ck : Bytes} : (IoBuf.write ⟨b, b.length⟩ ck) = ⟨b ++ ck, (b ++ ck).length⟩ := by
  simp [IoBuf.write]

theorem received_rest {frames : List Frame} (b : Bytes) (h : b <+: frames.flatMap wireBytes) :
    (received frames b).1 = frames.take (received frames b).1.length ∧
      b = (received frames b).1.flatMap wireBytes ++ (received frames b).2 := by
  induction frames generalizing b with
  | nil => simp [received]
  | cons f fs ih =>
    rw [flatMap_cons] at h
    rcases Nat.lt_or_ge b.length (wireBytes f).length with hlt | hge
    · simp [received_of_lt hlt]
    obtain ⟨t, rfl⟩ : wireBytes f <+: b :=
      prefix_of_prefix_length_le (prefix_append _ _) h hge
    rw [prefix_append_right_inj] at h
    obtain ⟨h1, h2⟩ := ih t h
    rw [received_of_le]
    simp only [length_cons, take_succ_cons, flatMap_cons, append_assoc]
    exact ⟨by rw [← h1], by rw [← h2]⟩

theorem received_next {frames : List Frame} (b : Bytes) {f : Frame}
    (hf : frames[(received frames b).1.length]? = some f) : (received frames b).2.length < (wireBytes f).length := by
  induction frames generalizing b with
  | nil => simp at hf
  | cons g gs ih =>
    rcases Nat.lt_or_ge b.length (wireBytes g).length with hlt | hge
    · rw [received_of_lt hlt] at hf ⊢
      obtain rfl : g = f := by simpa using hf
      exact hlt
    · simp only [received, if_pos hge] at hf ⊢
      exact ih _ hf

theorem received_all (frames : List Frame) : received frames (frames.flatMap wireBytes) = (frames, []) := by
  induction frames with
  | nil => rfl
  | cons f fs ih => rw [flatMap_cons, received_of_le, ih]

theorem received_append {frames : List Frame} (b c : Bytes) (h : b ++ c <+: frames.flatMap wireBytes) :
    received frames (b ++ c) = ((received frames b).1 ++
          (received (frames.drop (received frames b).1.length) ((received frames b).2 ++ c)).1,
        (received (frames.drop (received frames b).1.length) ((received frames b).2 ++ c)).2) := by
  induction frames generalizing b with
  | nil => simp [received]
  | cons f fs ih =>
    rcases Nat.lt_or_ge b.length (wireBytes f).length with hlt | hge
    · simp [received_of_lt hlt]
    rw [flatMap_cons] at h
    obtain ⟨t, rfl⟩ : wireBytes f <+: b :=
      prefix_of_prefix_length_le (prefix_append _ _) ((prefix_append b c).trans h) hge
    rw [append_assoc, prefix_append_right_inj] at h
    rw [append_assoc, received_of_le, received_of_le, ih t h]
    simp

structure HasRead (frames : List Frame) (b : Bytes) (r : Reader) : Prop where
  ready : Ready r (received frames b).2
  processed : r.processed = (received frames b).1
  isDefunct : r.isDefunct = false

theorem handleRead_spec (hwf : ∀ f ∈ frames, WellFormed f) {ck : Bytes}
    (hb : b ++ ck <+: frames.flatMap wireBytes) (h : HasRead frames b r) :
    HasRead frames (b ++ ck) (handleRead r ck) := by
  obtain ⟨hr, hp, hdef⟩ := h
  obtain ⟨hd, hbt⟩ := received_rest b ((prefix_append b ck).trans hb)
  have hs := received_append b ck hb
  generalize received frames b = got at *
  obtain ⟨done, rest⟩ := got
  -- The left-over bytes with the chunk begin the frames that are left.
  have hl : rest ++ ck <+: (frames.drop done.length).flatMap wireBytes := by
    have hall : frames.flatMap wireBytes = done.flatMap wireBytes ++ (frames.drop done.length).flatMap wireBytes := by
      conv_lhs => rw [← take_append_drop done.length frames, flatMap_append, ← hd]
    rw [hall, hbt, append_assoc, prefix_append_right_inj] at hb
    exact hb
  have hr' : Ready { r with iobuf := r.iobuf.write ck } (rest ++ ck) := by
    refine ⟨by rw [hr.iobuf, write_at_end], ?_⟩
    intro header hh
    obtain ⟨f, t, hf, rfl, rfl⟩ := hr.frame header hh
    exact ⟨f, t ++ ck, hf, by simp, rfl⟩
  have hlp := processLoop_spec _
    { r with iobuf := r.iobuf.write ck } ((r.iobuf.write ck).bytes.length + 1)
    (fun f hf => hwf f (mem_of_mem_drop hf)) hl hr'
    (by rw [hr.iobuf, write_at_end]; exact Nat.lt_succ_self _)
  refine ⟨?_, ?_, ?_⟩
  · rw [hs]; exact hlp.1
  · rw [hs, handleRead, processIoBuffer, hlp.2.1, hp]
  · rw [handleRead, processIoBuffer, hlp.2.2, hdef]

theorem handleRead_chunks (hwf : ∀ f ∈ frames, WellFormed f) :
    ∀ (cs : List Bytes), cs.flatten <+: frames.flatMap wireBytes →
      HasRead frames cs.flatten (run handleRead Reader.init cs) := by
  intro cs
  induction cs using reverseRecOn with
  | nil =>
    intro _
    have hnil : received frames [] = ([], []) := by
      cases frames with
      | nil => rfl
      | cons f fs =>
        have := headerSize_pos f
        exact received_of_lt (by rw [wireBytes_length]; simp; omega)
    refine ⟨?_, ?_, rfl⟩ <;> simp only [flatten_nil, hnil]
    · exact Ready.of_none rfl rfl
    · rfl
  | append_singleton cs ck ih =>
    intro hb
    rw [flatten_append, flatten_singleton] at hb ⊢
    rw [run_append]
    exact handleRead_spec hwf hb (ih ((prefix_append _ _).trans hb))

/-- **Frame reassembly.** However the bytes are cut, the complete frames are processed. -/
theorem frames_reassembled (frames : List Frame) (hwf : ∀ f ∈ frames, WellFormed f) :
    (∀ f ∈ frames, frameBytes f = some (wireBytes f)) ∧
      ∀ chunks : List Bytes, chunks.flatten = frames.flatMap wireBytes →
        (∀ n, ∃ m, let r := run handleRead Reader.init (chunks.take n)
          r.processed = frames.take m ∧
          (chunks.take n).flatten = (frames.take m).flatMap wireBytes ++ r.iobuf.bytes ∧
          (∀ next, frames[m]? = some next → r.iobuf.bytes.length < (wireBytes next).length) ∧
          r.isDefunct = false) ∧
        (run handleRead Reader.init chunks).processed = frames ∧
        (run handleRead Reader.init chunks).iobuf.bytes = [] := by
  refine ⟨fun f hf => frameBytes_eq (hwf f hf), ?_⟩
  intro chunks hc
  have ha : ∀ n, (chunks.take n).flatten <+: frames.flatMap wireBytes := by
    intro n
    rw [← hc]
    conv_rhs => rw [← take_append_drop n chunks, flatten_append]
    exact prefix_append _ _
  have hr : ∀ n, HasRead frames (chunks.take n).flatten (run handleRead Reader.init (chunks.take n)) :=
    fun n => handleRead_chunks hwf _ (ha n)
  have hfl := hr chunks.length
  rw [take_length, hc] at hfl
  refine ⟨?_, by rw [hfl.processed, received_all], by rw [hfl.ready.iobuf, received_all]⟩
  intro n
  have hbuf : (run handleRead Reader.init (chunks.take n)).iobuf.bytes =
      (received frames (chunks.take n).flatten).2 := by rw [(hr n).ready.iobuf]
  obtain ⟨hd, hb⟩ := received_rest _ (ha n)
  refine ⟨(received frames (chunks.take n).flatten).1.length, ?_, ?_, ?_, (hr n).isDefunct⟩
  · rw [(hr n).processed, ← hd]
  · rw [hbuf, ← hd, ← hb]
  intro next hn
  rw [hbuf]
  exact received_next _ hn

theorem frames_reassembled_two :
    let frames : List Frame := [⟨4, 0, 7, 8, [1, 2]⟩, ⟨2, 1, -1, 12, [3, 4, 5]⟩]
    let bytes := frames.flatMap wireBytes
    let chunks := [bytes.take 5, (bytes.drop 5).take 15, bytes.drop 20]
    (run handleRead Reader.init (chunks.take 2)).processed = frames.take 1 ∧
      (run handleRead Reader.init chunks).processed = frames := by
  intro frames bytes chunks
  have hwf : ∀ f ∈ frames, WellFormed f := by
    intro f hf
    simp only [frames, mem_cons, not_mem_nil, or_false] at hf
    rcases hf with rfl | rfl <;> constructor <;> decide
  exact ⟨by decide, ((frames_reassembled frames hwf).2 chunks (by decide)).2.1⟩

end CqlDriver.Conn
