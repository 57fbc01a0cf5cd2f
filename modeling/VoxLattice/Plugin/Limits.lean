import VoxLattice.Plugin.Contract

/-!
# The limits of the protocol

The metadata a call is opened with goes through three hands: the configuration is checked once,
`_on_stream_info_updated` and `_on_stream_info_cleared` change it at any time, and the request
iterator cuts what it finds.  The server checks the result with code of its own.  Whatever the
texts were, its check passes (`metadata_within_limits`), and each of them has lost no more code
points than it had to (`truncateUtf8_longest`).
-/

namespace VoxLattice.Plugin

open Utf8
open Server (ClientMessage StartStream validateStart toUInt64?)

/-! ## The calls about the stream -/

/-- A call of `FrameProcessor` about the stream. -/
inductive InfoCall where
  /-- `_on_stream_info_updated`. -/
  | updated (roomName participantIdentity publicationSid : String)
  /-- `_on_stream_info_cleared`. -/
  | cleared
deriving DecidableEq

namespace RemoteFastEnhancer

/-- The call is made. -/
def streamInfo (p : RemoteFastEnhancer) : InfoCall → RemoteFastEnhancer
  | .updated roomName participantIdentity publicationSid =>
    p.onStreamInfoUpdated roomName participantIdentity publicationSid
  | .cleared => p.onStreamInfoCleared

/-- The calls are made, in this order. -/
def streamInfos (calls : List InfoCall) (p : RemoteFastEnhancer) : RemoteFastEnhancer :=
  calls.foldl streamInfo p

end RemoteFastEnhancer

/-! ## The message -/

/-- What `_validate_start` asks of the stream ID and of the metadata. -/
structure WithinLimits (start : StartStream) : Prop where
  streamId : start.streamId.utf8ByteSize ≠ 0
  streamIdBytes : start.streamId.utf8ByteSize ≤ Server.maxStreamIdBytes
  entries : start.metadata.length ≤ Server.maxMetadataEntries
  items : ∀ item ∈ start.metadata, ItemFits item

theorem checkMetadata_fits {d : Metadata} (h : Server.checkMetadata d = .ok ()) :
    ∀ item ∈ d, ItemFits item := by
  induction d with
  | nil => exact fun _ hmem => absurd hmem List.not_mem_nil
  | cons first rest ih =>
      obtain ⟨key, value⟩ := first
      rw [Server.checkMetadata] at h
      split at h
      · cases h
      · next hkey =>
          split at h
          · cases h
          · next hvalue =>
              simp only [Bool.or_eq_true, decide_eq_true_eq, not_or, Nat.not_lt,
                Bool.not_eq_true] at hkey
              intro item hmem
              obtain rfl | hrest := List.mem_cons.mp hmem
              · exact ⟨hkey.1, hkey.2, Nat.not_lt.mp hvalue⟩
              · exact ih h item hrest

/-- What the server's check lets through is within the limits. -/
theorem validateStart_withinLimits {start start' : StartStream}
    (h : validateStart (.start start) = .ok start') : WithinLimits start := by
  rw [validateStart] at h
  split at h
  · cases h
  · split at h
    · cases h
    · next hid =>
        split at h
        · cases h
        · split at h
          · cases h
          · split at h
            · cases h
            · next hentries =>
                rw [not_or] at hid
                refine ⟨hid.1, Nat.not_lt.mp hid.2, Nat.not_lt.mp hentries, ?_⟩
                cases hmetadata : Server.checkMetadata start.metadata with
                | error violation =>
                    rw [hmetadata] at h
                    cases h
                | ok _ => exact checkMetadata_fits hmetadata

/-- The one message an iterator begins with, or none where the number does not fit. -/
theorem begin_new_yielded (first : AudioRequest) (metadata : Metadata) (uuid : String) :
    ((RequestIterator.new first).begin metadata uuid).yielded =
      (toUInt64? first.startSample).toList.map fun start =>
        .start ⟨"1", "lk-" ++ uuid, start, 16000, 1, .pcmS16le, metadata.request⟩ := by
  unfold RequestIterator.begin
  rw [show (RequestIterator.new first).first = first from rfl]
  cases toUInt64? first.startSample with
  | none => rfl
  | some start => rfl

/-- A `StartStream` among the messages of a call is its first, and the server accepts it. -/
theorem Wellformed.start_valid {first : AudioRequest} {messages : List ClientMessage}
    (h : Wellformed first messages) {start : StartStream}
    (hmem : ClientMessage.start start ∈ messages) :
    validateStart (.start start) = .ok start := by
  have hchunk : ∀ l : List Server.AudioChunk, ClientMessage.start start ∉ l.map .audio := by
    intro l hl
    obtain ⟨_, -, heq⟩ := List.mem_map.mp hl
    cases heq
  rcases h with rfl | ⟨opening, hopens, heq⟩ | ⟨opening, flush, hopens, heq⟩
  · exact absurd hmem List.not_mem_nil
  · rw [heq] at hmem
    obtain ⟨⟨⟩⟩ | hrest := List.mem_cons.mp hmem
    · exact hopens.valid
    · exact absurd hrest (hchunk _)
  · rw [heq] at hmem
    obtain ⟨⟨⟩⟩ | hrest := List.mem_cons.mp hmem
    · exact hopens.valid
    · obtain haudio | hend := List.mem_append.mp hrest
      · exact absurd haudio (hchunk _)
      · cases List.mem_singleton.mp hend

/-- Metadata always fits the limits of the protocol. -/
theorem metadata_within_limits :
    (∀ value maxBytes,
      LongestWithin maxBytes value.toList (truncateUtf8 value maxBytes).toList) ∧
    (∀ (config : RemoteFastEnhancerConfig) (calls : List InfoCall) (first : AudioRequest)
      (uuid : String), uuid.utf8ByteSize = 32 →
      let metadata := ((RemoteFastEnhancer.new config).streamInfos calls).metadata
      let opened := (RequestIterator.new first).begin metadata uuid
      (first.startSample < 2 ^ 64 → ∃ start, opened.yielded = [.start start]) ∧
      ∀ message ∈ opened.yielded, ∃ start,
        message = .start start ∧ validateStart message = .ok start ∧ WithinLimits start) ∧
    ∀ (config : RemoteFastEnhancerConfig) (s : PluginState), (pluginSystem config).Reachable s →
      ∀ it ∈ s.worker.iterators, ∀ start, ClientMessage.start start ∈ it.yielded →
        validateStart (.start start) = .ok start ∧ WithinLimits start := by
  refine ⟨truncateUtf8_longest, ?_, ?_⟩
  · intro config calls first uuid huuid
    refine ⟨fun hfits => ?_, fun message hmem => ?_⟩
    · rw [begin_new_yielded, toUInt64?, if_pos hfits]
      exact ⟨_, rfl⟩
    · rw [begin_new_yielded] at hmem
      obtain ⟨origin, horigin, rfl⟩ := List.mem_map.mp hmem
      have hvalid := (opens_start (Option.mem_toList.mp horigin)
        ((RemoteFastEnhancer.new config).streamInfos calls).metadata huuid).valid
      exact ⟨_, rfl, hvalid, validateStart_withinLimits hvalid⟩
  · intro config s hs it hit start hmem
    have hvalid := ((reachable_requests hs).iterators it hit).wellformed.start_valid hmem
    exact ⟨hvalid, validateStart_withinLimits hvalid⟩

theorem metadata_within_limits_cut :
    LongestWithin 5 "aé€".toList (truncateUtf8 "aé€" 5).toList ∧
    ∃ start, ((RequestIterator.new ⟨7, []⟩).begin
      ((RemoteFastEnhancer.new testConfig).streamInfos [.updated "room" "" "é", .cleared]).metadata
      "0123456789abcdef0123456789abcdef").yielded = [.start start] :=
  ⟨metadata_within_limits.1 "aé€" 5,
    (metadata_within_limits.2.1 testConfig [.updated "room" "" "é", .cleared] ⟨7, []⟩
      "0123456789abcdef0123456789abcdef" (by decide +kernel)).1 (by decide)⟩

end VoxLattice.Plugin
