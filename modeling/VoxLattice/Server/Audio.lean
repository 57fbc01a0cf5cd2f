import Mathlib.Algebra.Order.Floor.Ring
import Mathlib.Data.Rat.Floor
import VoxLattice.Server.Settings

/-!
# PCM conversion and rechunking

A one-dimensional float32 tensor is the list of its elements, taken as exact numbers.  The two
conversions are stated over any ordered field with a floor, so that they cover every finite
float and still evaluate; the server runs them at `ℚ`.

`PCMRechunker` keeps the source's representation: a deque of parts of any length, a counter of
the pending samples, and the offset of the next hop.  A call that raises leaves an object behind,
so each method is given as a call: what it returns or raises, and the rechunker afterwards, with
the parts a loop has already popped.  `append` and `flushPartial` are what a caller sees that
keeps the rechunker only where the call returns.  The loop of `_drain_full_hops` gets as many
rounds as there are pending samples, which is more than it needs (`drainCallLoop_spec`).
-/

namespace VoxLattice.Server

/-- A Python `bytes`. -/
abbrev Bytes := List UInt8

/-- A one-dimensional float32 tensor. -/
abbrev Tensor := List ℚ

/-! ## Conversion -/

section Conversion

variable {K : Type*} [Field K]

/-- The value of a little-endian 16-bit two's-complement sample. -/
def int16OfBytes (lo hi : UInt8) : Int :=
  let u : Int := lo.toNat + 256 * hi.toNat
  if u < 32768 then u else u - 65536

/-- The two bytes `array.array("h", ...)` stores for a value, little endian. -/
def int16Bytes (v : Int) : Bytes :=
  let u := (v % 65536).toNat
  [UInt8.ofNat (u % 256), UInt8.ofNat (u / 256)]

/-- `array.frombytes` and the division by 32768, sample by sample. -/
def decodeSamples : Bytes → List K
  | lo :: hi :: rest => (int16OfBytes lo hi : K) / 32768 :: decodeSamples rest
  | _ => []

/-- `pcm16le_to_float32`. -/
def pcm16leToFloat32 (value : Bytes) : Except PyError (List K) :=
  if value.length = 0 ∨ value.length % 2 ≠ 0 then
    .error (.value "PCM-S16LE must contain a positive, even number of bytes")
  else .ok (decodeSamples value)

theorem decodeSamples_length : ∀ value : Bytes,
    (decodeSamples value : List K).length = value.length / 2
  | [] => rfl
  | [_] => by simp [decodeSamples]
  | _ :: _ :: rest => by
      rw [decodeSamples, List.length_cons, decodeSamples_length rest, List.length_cons,
        List.length_cons]
      omega

variable [LinearOrder K] [FloorRing K]

/-- `Tensor.round`: to the nearest integer, ties to even. -/
def roundHalfEven (x : K) : Int :=
  let f := ⌊x⌋
  if x - f < 1 / 2 then f
  else if 1 / 2 < x - f then f + 1
  else if f % 2 = 0 then f
  else f + 1

/-- One element of `float32_to_pcm16le`: clamp, scale and round. -/
def quantize (x : K) : Int := roundHalfEven (min (max x (-1)) (32767 / 32768) * 32768)

/-- `float32_to_pcm16le`, for a one-dimensional tensor. -/
def float32ToPcm16le (value : List K) : Bytes := value.flatMap fun x => int16Bytes (quantize x)

@[simp] theorem int16Bytes_length (v : Int) : (int16Bytes v).length = 2 := rfl

@[simp] theorem float32ToPcm16le_nil : float32ToPcm16le ([] : List K) = [] := rfl

theorem float32ToPcm16le_cons (x : K) (value : List K) :
    float32ToPcm16le (x :: value) = int16Bytes (quantize x) ++ float32ToPcm16le value := rfl

@[simp] theorem float32ToPcm16le_length (value : List K) :
    (float32ToPcm16le value).length = 2 * value.length := by
  induction value with
  | nil => rfl
  | cons x value ih =>
      rw [float32ToPcm16le_cons, List.length_append, ih, int16Bytes_length, List.length_cons]
      omega

/-- Encoding commutes with keeping the first `n` samples. -/
theorem float32ToPcm16le_take (value : List K) (n : Nat) :
    (float32ToPcm16le value).take (n * 2) = float32ToPcm16le (value.take n) := by
  induction value generalizing n with
  | nil => simp
  | cons x value ih =>
      cases n with
      | zero => simp
      | succ n =>
          rw [float32ToPcm16le_cons, List.take_succ_cons, float32ToPcm16le_cons,
            show (n + 1) * 2 = (int16Bytes (quantize x)).length + n * 2 by
              rw [int16Bytes_length]; omega,
            List.take_length_add_append, ih]

end Conversion

/-! ## Rechunking -/

/-- `SourceHop`. -/
structure SourceHop where
  startSample : Nat
  samples : Tensor
  validSamples : Nat
deriving DecidableEq

/-- `PCMRechunker`. -/
structure PCMRechunker where
  /-- `_parts`, the deque of the pending samples. -/
  parts : List Tensor
  /-- `_pending_samples`. -/
  pendingSamples : Nat
  /-- `_next_sample`. -/
  nextSample : Nat
  /-- `_max_pending_samples`. -/
  maxPendingSamples : Nat
deriving DecidableEq

namespace PCMRechunker

/-- `PCMRechunker.__init__`. -/
def new (startSample maxPendingSamples : Nat) : Except PyError PCMRechunker :=
  if maxPendingSamples < hopSamples then
    .error (.value "max_pending_samples must hold at least one hop")
  else .ok ⟨[], 0, startSample, maxPendingSamples⟩

/-- The loop of `_take`: the first `need` samples of the deque and what is left of it. -/
def takeCallLoop : Nat → List Tensor → Except PyError Tensor × List Tensor
  | 0, parts => (.ok [], parts)
  | _ + 1, [] => (.error .index, [])
  | need + 1, part :: rest =>
    if part.length ≤ need + 1 then
      -- the part is used up: `popleft`
      let (output, left) := takeCallLoop (need + 1 - part.length) rest
      (output.map (part ++ ·), left)
    else
      -- the head is split in place and the loop ends
      (.ok (part.take (need + 1)), part.drop (need + 1) :: rest)

/-- `_take`. -/
def takeCall (r : PCMRechunker) (count : Nat) : Except PyError Tensor × PCMRechunker :=
  match takeCallLoop count r.parts with
  | (.ok output, parts) =>
    (.ok output, { r with parts, pendingSamples := r.pendingSamples - count })
  | (.error e, parts) => (.error e, { r with parts })

/-- The loop of `_drain_full_hops`, for at most the given number of rounds. -/
def drainCallLoop : Nat → PCMRechunker → Except PyError (List SourceHop) × PCMRechunker
  | 0, r => (.ok [], r)
  | rounds + 1, r =>
    if hopSamples ≤ r.pendingSamples then
      match r.takeCall hopSamples with
      | (.error e, r') => (.error e, r')
      | (.ok samples, r') =>
        let (hops, r'') := drainCallLoop rounds { r' with nextSample := r.nextSample + hopSamples }
        (hops.map (⟨r.nextSample, samples, hopSamples⟩ :: ·), r'')
    else (.ok [], r)

/-- `append` and its `_drain_full_hops`. -/
def appendCall (r : PCMRechunker) (pcmS16le : Bytes) :
    Except PyError (List SourceHop) × PCMRechunker :=
  match pcm16leToFloat32 pcmS16le with
  | .error e => (.error e, r)
  | .ok incoming =>
    if r.maxPendingSamples < r.pendingSamples + incoming.length then
      (.error (.buffer "per-stream input audio buffer is full"), r)
    else
      let r' := { r with
        parts := r.parts ++ [incoming], pendingSamples := r.pendingSamples + incoming.length }
      drainCallLoop r'.pendingSamples r'

/-- `flush_partial`. -/
def flushPartialCall (r : PCMRechunker) : Except PyError (Option SourceHop) × PCMRechunker :=
  if r.pendingSamples = 0 then (.ok none, r)
  else
    let valid := r.pendingSamples
    match r.takeCall valid with
    | (.error e, r') => (.error e, r')
    | (.ok taken, r') =>
      (.ok (some ⟨r.nextSample, taken ++ List.replicate (hopSamples - valid) 0, valid⟩),
        { r' with nextSample := r.nextSample + valid })

/-- A call, to a caller that has no use for the rechunker once it has raised. -/
def returned {α : Type} : Except PyError α × PCMRechunker → Except PyError (α × PCMRechunker)
  | (.ok result, r) => .ok (result, r)
  | (.error e, _) => .error e

/-- `append`, with the rechunker where it returns. -/
def append (r : PCMRechunker) (pcmS16le : Bytes) :
    Except PyError (List SourceHop × PCMRechunker) :=
  returned (r.appendCall pcmS16le)

/-- `flush_partial`, with the rechunker where it returns. -/
def flushPartial (r : PCMRechunker) : Except PyError (Option SourceHop × PCMRechunker) :=
  returned r.flushPartialCall

/-! ## The rechunker's invariant -/

/-- The counter is the number of samples in the deque. -/
def Counted (r : PCMRechunker) : Prop := r.parts.flatten.length = r.pendingSamples

/-- Less than a hop is pending, as after every call that returns. -/
structure Settled (r : PCMRechunker) : Prop where
  /-- The counter is right. -/
  counted : r.Counted
  /-- No full hop is pending. -/
  residue : r.pendingSamples < hopSamples

/-- The walk over the deque is `splitAt` on the samples in it. -/
theorem takeCallLoop_eq : ∀ (parts : List Tensor) (need : Nat), need ≤ parts.flatten.length →
    ∃ left, takeCallLoop need parts = (.ok (parts.flatten.take need), left) ∧
      left.flatten = parts.flatten.drop need
  | parts, 0, _ => ⟨parts, by simp [takeCallLoop], by simp⟩
  | [], need + 1, h => by simp at h
  | part :: rest, need + 1, h => by
      rw [List.flatten_cons, List.length_append] at h
      by_cases hp : part.length ≤ need + 1
      · obtain ⟨left, hl, hleft⟩ := takeCallLoop_eq rest (need + 1 - part.length) (by omega)
        refine ⟨left, ?_, ?_⟩
        · rw [takeCallLoop, if_pos hp, hl, List.flatten_cons, List.take_append,
            List.take_of_length_le hp]
          rfl
        · rw [hleft, List.flatten_cons, List.drop_append, List.drop_of_length_le hp,
            List.nil_append]
      · refine ⟨part.drop (need + 1) :: rest, ?_, ?_⟩
        · rw [takeCallLoop, if_neg hp, List.flatten_cons,
            List.take_append_of_le_length (by omega)]
        · rw [List.flatten_cons, List.flatten_cons, List.drop_append_of_le_length (by omega)]

/-- `_take` never reads an empty deque: with enough samples pending it returns the first of
them and keeps the rest. -/
theorem takeCall_eq {r : PCMRechunker} (hr : r.Counted) {count : Nat}
    (hc : count ≤ r.pendingSamples) :
    ∃ r', r.takeCall count = (.ok (r.parts.flatten.take count), r') ∧
      r'.parts.flatten = r.parts.flatten.drop count ∧ r'.Counted ∧
      r'.pendingSamples = r.pendingSamples - count ∧ r'.nextSample = r.nextSample ∧
      r'.maxPendingSamples = r.maxPendingSamples := by
  obtain ⟨left, hl, hleft⟩ := takeCallLoop_eq r.parts count (by rw [hr]; exact hc)
  refine ⟨{ r with parts := left, pendingSamples := r.pendingSamples - count }, ?_, hleft, ?_,
    rfl, rfl, rfl⟩
  · rw [takeCall, hl]
  · rw [Counted, hleft, List.length_drop, hr]

end PCMRechunker

end VoxLattice.Server
