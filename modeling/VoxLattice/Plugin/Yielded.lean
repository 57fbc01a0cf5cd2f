import VoxLattice.Lib.Intervals
import VoxLattice.Plugin.System

/-!
# What a request iterator yields

A request iterator yields nothing, or a `StartStream` that the server's check accepts and then
chunks whose sequence numbers count from 0 and whose intervals are adjacent from the first
request on, and at the very end perhaps an `EndStream`.  `Yields P` says this of an iterator,
together with a property `P` of the requests it was made from and holds; `Requests P` says it of
all iterators and of all requests on their way to one (`Requests.step`).
-/

namespace VoxLattice.Plugin

open Intervals
open Server (AudioChunk ClientMessage StartStream validateStart toUInt64?)

/-! ## The messages of a call -/

/-- The chunk of a message, if it is one. -/
def chunk? : ClientMessage → Option AudioChunk
  | .audio chunk => some chunk
  | _ => none

/-- The chunks among the messages of a call. -/
def chunks (messages : List ClientMessage) : List AudioChunk := messages.filterMap chunk?

/-- The request a chunk was made from. -/
def requestOf (chunk : AudioChunk) : AudioRequest :=
  ⟨chunk.inputStartSample.toNat, chunk.pcmS16le⟩

/-- `StartStream` as the server wants it, for this first request. -/
structure Opens (first : AudioRequest) (start : StartStream) : Prop where
  valid : validateStart (.start start) = .ok start
  origin : start.inputStartSample.toNat = first.startSample

/-- Each chunk has its number in the list as its sequence number, from `n` on. -/
def Numbered : Nat → List AudioChunk → Prop
  | _, [] => True
  | n, chunk :: rest => chunk.sequence.toNat = n ∧ Numbered (n + 1) rest

theorem numbered_append {n : Nat} {l l' : List AudioChunk} :
    Numbered n (l ++ l') ↔ Numbered n l ∧ Numbered (n + l.length) l' := by
  induction l generalizing n with
  | nil => simp [Numbered]
  | cons chunk rest ih =>
      rw [List.cons_append, Numbered, Numbered, ih, List.length_cons, and_assoc,
        show n + (rest.length + 1) = n + 1 + rest.length by omega]

/-- The messages open a call and go on with chunks. -/
def Streams (first : AudioRequest) (messages : List ClientMessage) : Prop :=
  ∃ start, Opens first start ∧ messages = .start start :: (chunks messages).map .audio

/-- The messages are those of a call, of which some may be missing at the end. -/
def Wellformed (first : AudioRequest) (messages : List ClientMessage) : Prop :=
  messages = [] ∨ Streams first messages ∨
    ∃ start flush, Opens first start ∧
      messages = .start start :: ((chunks messages).map .audio ++ [.endStream flush])

theorem chunks_append (l l' : List ClientMessage) : chunks (l ++ l') = chunks l ++ chunks l' :=
  List.filterMap_append

theorem chunks_map_audio (l : List AudioChunk) : chunks (l.map .audio) = l := by
  induction l with
  | nil => rfl
  | cons chunk rest ih => exact congrArg (chunk :: ·) ih

theorem Streams.audio {first : AudioRequest} {messages : List ClientMessage}
    (h : Streams first messages) (chunk : AudioChunk) :
    Streams first (messages ++ [.audio chunk]) := by
  obtain ⟨start, hopens, heq⟩ := h
  refine ⟨start, hopens, ?_⟩
  rw [chunks_append]
  nth_rewrite 1 [heq]
  rw [List.map_append, List.cons_append]
  rfl

theorem Streams.endStream {first : AudioRequest} {messages : List ClientMessage}
    (h : Streams first messages) (flush : Bool) :
    Wellformed first (messages ++ [.endStream flush]) := by
  obtain ⟨start, hopens, heq⟩ := h
  refine .inr (.inr ⟨start, flush, hopens, ?_⟩)
  rw [chunks_append]
  nth_rewrite 1 [heq]
  rw [List.cons_append, show chunks [ClientMessage.endStream flush] = [] from rfl,
    List.append_nil]

theorem Streams.wellformed {first : AudioRequest} {messages : List ClientMessage}
    (h : Streams first messages) : Wellformed first messages := .inr (.inl h)

/-- The conditions of `_validate_start`. -/
theorem validateStart_ok {start : StartStream}
    (hversion : start.protocolVersion = Server.protocolVersion)
    (hid : start.streamId.utf8ByteSize ≠ 0)
    (hmax : start.streamId.utf8ByteSize ≤ Server.maxStreamIdBytes)
    (hrate : start.sampleRateHz.toNat = Server.sampleRateHz) (hchannels : start.channels = 1)
    (hformat : start.sampleFormat = .pcmS16le)
    (hlen : start.metadata.length ≤ Server.maxMetadataEntries)
    (hmetadata : Server.checkMetadata start.metadata = .ok ()) :
    validateStart (.start start) = .ok start := by
  rw [validateStart, if_neg (not_not.mpr hversion),
    if_neg (not_or.mpr ⟨hid, Nat.not_lt.mpr hmax⟩),
    if_neg (not_or.mpr ⟨not_not.mpr hrate, not_not.mpr hchannels⟩), if_neg (not_not.mpr hformat),
    if_neg (Nat.not_lt.mpr hlen), hmetadata]
  rfl

/-- The `StartStream` of the iterator passes the check of the server. -/
theorem opens_start {first : AudioRequest} {start : UInt64}
    (hstart : toUInt64? first.startSample = some start) (metadata : Metadata) {uuid : String}
    (huuid : uuid.utf8ByteSize = 32) :
    Opens first ⟨"1", "lk-" ++ uuid, start, 16000, 1, .pcmS16le, metadata.request⟩ where
  valid := by
    obtain ⟨hmetadata, hlen⟩ := request_fits metadata
    have hid : ("lk-" ++ uuid).utf8ByteSize = 35 := by
      rw [String.utf8ByteSize_append, huuid]
      rfl
    exact validateStart_ok rfl (by rw [hid]; decide) (by rw [hid]; decide) rfl rfl rfl hlen
      hmetadata
  origin := Server.toUInt64?_eq_some hstart

/-! ## One iterator -/

/-- The iterator is past its first message and before its last. -/
def IteratorPlace.streaming : IteratorPlace → Bool
  | .yieldedStart | .looping _ | .yieldedAudio _ | .accounting _ | .getting => true
  | _ => false

/-- The samples of the chunk that is yielded and not accounted for. -/
def IteratorPlace.unaccounted : IteratorPlace → Option Nat
  | .yieldedAudio samples | .accounting samples => some samples
  | _ => none

/-- What an iterator has yielded is in order, and it was made from requests with `P`. -/
structure Yields (P : AudioRequest → Prop) (it : RequestIterator) : Prop where
  fresh : it.place = .created ∨ it.place = .begun → it.yielded = []
  streams : it.place.streaming = true → Streams it.first it.yielded
  wellformed : Wellformed it.first it.yielded
  numbered : Numbered 0 (chunks it.yielded)
  adjacent : Adjacent (·.inputStartSample.toNat) AudioChunk.samples it.first.startSample
    (chunks it.yielded)
  sequence : (chunks it.yielded).length = it.sequence + it.place.unaccounted.elim 0 fun _ => 1
  expected : it.first.startSample + total AudioChunk.samples (chunks it.yielded) =
    it.expectedSample + it.place.unaccounted.getD 0
  first : P it.first
  current : ∀ request, it.place = .looping (.audio request) → P request
  made : ∀ chunk ∈ chunks it.yielded, P (requestOf chunk)

namespace Yields

variable {P Q : AudioRequest → Prop} {it it' : RequestIterator}

theorem mono (h : Yields P it) (hPQ : ∀ r, P r → Q r) : Yields Q it :=
  { h with
    first := hPQ _ h.first
    current := fun request hplace => hPQ _ (h.current request hplace)
    made := fun chunk hmem => hPQ _ (h.made chunk hmem) }

theorem new {first : AudioRequest} (h : P first) : Yields P (.new first) where
  fresh _ := rfl
  streams := nofun
  wellformed := .inl rfl
  numbered := trivial
  adjacent := trivial
  sequence := rfl
  expected := rfl
  first := h
  current := nofun
  made _ hmem := absurd hmem List.not_mem_nil

/-- The status of the call does not matter. -/
theorem status (h : Yields P it) (status : CallStatus) : Yields P { it with status } := by
  exact ⟨h.fresh, h.streams, h.wellformed, h.numbered, h.adjacent, h.sequence, h.expected,
    h.first, h.current, h.made⟩

theorem endCall (h : Yields P it) : Yields P it.endCall := by
  unfold RequestIterator.endCall
  split
  · exact h.status .ended
  · exact h

/-- The iterator goes on without yielding. -/
theorem move (h : Yields P it) {place : IteratorPlace}
    (hfresh : place = .created ∨ place = .begun → it.place = .created ∨ it.place = .begun)
    (hstreams : place.streaming = true → it.place.streaming = true)
    (hunaccounted : place.unaccounted = it.place.unaccounted)
    (hcurrent : ∀ request, place = .looping (.audio request) → P request) :
    Yields P { it with place } where
  fresh hplace := h.fresh (hfresh hplace)
  streams hplace := h.streams (hstreams hplace)
  wellformed := h.wellformed
  numbered := h.numbered
  adjacent := h.adjacent
  sequence := by rw [h.sequence, hunaccounted]
  expected := by rw [h.expected, hunaccounted]
  first := h.first
  current := hcurrent
  made := h.made

theorem finish (h : Yields P it) (hunaccounted : it.place.unaccounted = none) :
    Yields P { it with place := .finished } :=
  h.move nofun nofun hunaccounted.symm nofun

theorem raise (h : Yields P it) (hunaccounted : it.place.unaccounted = none) :
    Yields P it.raise := (h.finish hunaccounted).endCall

theorem pull (h : Yields P it) (hpull : it.pull = some it') : Yields P it' := by
  unfold RequestIterator.pull at hpull
  split at hpull
  · split at hpull
    · next hplace =>
        cases hpull
        exact h.move (fun _ => .inl hplace) nofun (by rw [hplace]; rfl) nofun
    · next hplace =>
        cases hpull
        refine h.move nofun (fun _ => by rw [hplace]; rfl) (by rw [hplace]; rfl) ?_
        rintro _ ⟨⟩
        exact h.first
    · next hplace =>
        cases hpull
        exact h.move nofun (fun _ => by rw [hplace]; rfl) (by rw [hplace]; rfl) nofun
    · next hplace =>
        cases hpull
        exact h.finish (by rw [hplace]; rfl)
    · cases hpull
  · cases hpull

theorem begin (h : Yields P it) (hplace : it.place = .begun) (metadata : Metadata)
    {uuid : String} (huuid : uuid.utf8ByteSize = 32) : Yields P (it.begin metadata uuid) := by
  have hnone : it.yielded = [] := h.fresh (.inr hplace)
  have hsequence := h.sequence
  have hexpected := h.expected
  rw [hplace, hnone] at hsequence hexpected
  unfold RequestIterator.begin
  split
  · exact h.raise (by rw [hplace]; rfl)
  · next start hstart =>
      have hstreams : Streams it.first
          (it.yielded ++ [.start ⟨"1", "lk-" ++ uuid, start, 16000, 1, .pcmS16le,
            metadata.request⟩]) := by
        rw [hnone]
        exact ⟨_, opens_start hstart metadata huuid, rfl⟩
      have hchunks : chunks (it.yielded ++ [.start ⟨"1", "lk-" ++ uuid, start, 16000, 1, .pcmS16le,
          metadata.request⟩]) = [] := by rw [hnone]; rfl
      unfold RequestIterator.yieldMessage
      constructor
      · nofun
      · exact fun _ => hstreams
      · exact hstreams.wellformed
      · rw [hchunks]
        trivial
      · rw [hchunks]
        trivial
      · rw [hchunks]
        exact hsequence
      · rw [hchunks]
        exact hexpected
      · exact h.first
      · nofun
      · rw [hchunks]
        exact fun _ hmem => absurd hmem List.not_mem_nil

/-- A chunk is yielded. -/
theorem audio (h : Yields P it) {request : AudioRequest}
    (hplace : it.place = .looping (.audio request)) {sequence start : UInt64}
    (hsequence : toUInt64? it.sequence = some sequence)
    (hstart : toUInt64? request.startSample = some start)
    (hexpected : request.startSample = it.expectedSample) :
    Yields P (it.yieldMessage (.audio ⟨sequence, start, request.pcmS16le⟩)
      (.yieldedAudio request.samples)) := by
  have hstreams := h.streams (by rw [hplace]; rfl)
  have hcount := h.sequence
  have htotal := h.expected
  rw [hplace] at hcount htotal
  have hchunks : chunks (it.yielded ++ [.audio ⟨sequence, start, request.pcmS16le⟩]) =
      chunks it.yielded ++ [⟨sequence, start, request.pcmS16le⟩] := chunks_append _ _
  have hrequest : requestOf ⟨sequence, start, request.pcmS16le⟩ = request := by
    rw [requestOf, Server.toUInt64?_eq_some hstart]
  unfold RequestIterator.yieldMessage
  constructor
  · nofun
  · exact fun _ => hstreams.audio _
  · exact (hstreams.audio _).wellformed
  · rw [hchunks, numbered_append]
    refine ⟨h.numbered, ?_, trivial⟩
    rw [Server.toUInt64?_eq_some hsequence, hcount, Nat.zero_add]
    rfl
  · rw [hchunks, adjacent_append]
    refine ⟨h.adjacent, ?_, trivial⟩
    rw [htotal, ← hexpected]
    exact Server.toUInt64?_eq_some hstart
  · rw [hchunks, List.length_append, hcount]
    rfl
  · rw [hchunks, total_append, ← Nat.add_assoc, htotal]
    rfl
  · exact h.first
  · nofun
  · rw [hchunks]
    intro chunk hmem
    obtain hold | hnew := List.mem_append.mp hmem
    · exact h.made chunk hold
    · obtain rfl := List.mem_singleton.mp hnew
      rw [hrequest]
      exact h.current request hplace

theorem endStream (h : Yields P it) {flush : Bool}
    (hplace : it.place = .looping (.endStream flush)) :
    Yields P (it.yieldMessage (.endStream flush) .yieldedEnd) := by
  have hstreams := h.streams (by rw [hplace]; rfl)
  have hchunks : chunks (it.yielded ++ [.endStream flush]) = chunks it.yielded := by
    rw [chunks_append]
    exact List.append_nil _
  have hcount := h.sequence
  have htotal := h.expected
  rw [hplace] at hcount htotal
  unfold RequestIterator.yieldMessage
  constructor
  · nofun
  · nofun
  · exact hstreams.endStream flush
  · rw [hchunks]
    exact h.numbered
  · rw [hchunks]
    exact h.adjacent
  · rw [hchunks]
    exact hcount
  · rw [hchunks]
    exact htotal
  · exact h.first
  · nofun
  · rw [hchunks]
    exact h.made

theorem loop (h : Yields P it) {request : Request} (hplace : it.place = .looping request)
    (reset : Bool) : Yields P (it.loop reset request) := by
  have hunaccounted : it.place.unaccounted = none := by rw [hplace]; rfl
  unfold RequestIterator.loop
  split
  · split
    · exact h.finish hunaccounted
    · next hgoes =>
        rw [not_or, Decidable.not_not] at hgoes
        split
        · next hsequence hstart => exact h.audio hplace hsequence hstart hgoes.1
        · exact h.raise hunaccounted
  · split
    · exact h.finish hunaccounted
    · exact h.endStream hplace
  · exact h.finish hunaccounted

theorem account (h : Yields P it) {samples : Nat} (hplace : it.place = .accounting samples) :
    Yields P (it.account samples) := by
  have hcount := h.sequence
  have htotal := h.expected
  rw [hplace] at hcount htotal
  unfold RequestIterator.account
  exact ⟨nofun, fun _ => h.streams (by rw [hplace]; rfl), h.wellformed, h.numbered, h.adjacent,
    hcount, htotal, h.first, nofun, h.made⟩

/-- The iterator gets a request. -/
theorem resume (h : Yields P it) (hplace : it.place = .getting) {request : Request}
    (hrequest : ∀ r, request = .audio r → P r) :
    Yields P { it with place := .looping request } := by
  refine h.move nofun (fun _ => by rw [hplace]; rfl) (by rw [hplace]; rfl) ?_
  rintro r ⟨⟩
  exact hrequest r rfl

theorem iterates {e : WorkerEvent} {reset : Bool} (h : Yields P it)
    (hmove : Iterates e reset it it')
    (huuid : ∀ k metadata uuid, e = .begin k metadata uuid → uuid.utf8ByteSize = 32) :
    Yields P it' := by
  cases hmove with
  | pull hpull => exact h.pull hpull
  | begin k metadata uuid event hplace => exact h.begin hplace metadata (huuid k _ _ event)
  | loop hplace => exact h.loop hplace reset
  | account hplace => exact h.account hplace

end Yields

/-! ## All iterators -/

/-- All requests have `P`, and all iterators yield what they should. -/
structure Requests (P : AudioRequest → Prop) (w : GRPCWorker) : Prop where
  sends : ∀ request ∈ w.sends, P request
  queued : ∀ queued ∈ w.requests.items, ∀ request, queued.request = .audio request → P request
  iterators : ∀ it ∈ w.iterators, Yields P it

namespace Requests

variable {P Q : AudioRequest → Prop} {config : TransportConfig} {w w' : GRPCWorker}
  {e : WorkerEvent}

theorem mono (h : Requests P w) (hPQ : ∀ r, P r → Q r) : Requests Q w where
  sends request hmem := hPQ _ (h.sends request hmem)
  queued queued hmem request heq := hPQ _ (h.queued queued hmem request heq)
  iterators it hmem := (h.iterators it hmem).mono hPQ

theorem init : Requests P (.new config) where
  sends _ hmem := absurd hmem List.not_mem_nil
  queued _ hmem := absurd hmem List.not_mem_nil
  iterators _ hmem := absurd hmem List.not_mem_nil

theorem step {made : Option Callback} (h : Requests P w)
    (hs : w.step config e = some (w', made))
    (hsent : ∀ request, e = .trySend request → P request)
    (huuid : ∀ k metadata uuid, e = .begin k metadata uuid → uuid.utf8ByteSize = 32) :
    Requests P w' := by
  cases GRPCWorker.step_effect hs with
  | quiet hquiet =>
      refine ⟨hquiet.sends ▸ h.sends, ?_, hquiet.iterators ▸ h.iterators⟩
      rw [hquiet.requests]
      exact h.queued
  | reserved request event sends requests _ iterators =>
      refine ⟨?_, requests ▸ h.queued, iterators ▸ h.iterators⟩
      rw [sends]
      intro r hmem
      obtain hold | hnew := List.mem_append.mp hmem
      · exact h.sends r hold
      · obtain rfl := List.mem_singleton.mp hnew
        exact hsent r event
  | put request _ items sends _ iterators =>
      have hold : ∀ r ∈ request.audio?.toList ++ w'.sends, P r :=
        fun r hmem => h.sends r (sends.mem_iff.mpr hmem)
      refine ⟨fun r hmem => hold r (List.mem_append_right _ hmem), ?_, iterators ▸ h.iterators⟩
      rw [items]
      intro queued hmem r hr
      obtain hqueued | hnew := List.mem_append.mp hmem
      · exact h.queued queued hqueued r hr
      · obtain rfl := List.mem_singleton.mp hnew
        obtain rfl : request = .audio r := hr
        exact hold r (List.mem_append_left _ (List.mem_singleton_self r))
  | took _ queued takes _ iterators =>
      refine ⟨takes.sends ▸ h.sends, fun q hmem => h.queued q ?_, iterators ▸ h.iterators⟩
      rw [takes.items]
      exact List.mem_cons_of_mem _ hmem
  | received queued first takes request iterators =>
      have hfirst : P first :=
        h.queued queued (by rw [takes.items]; exact List.mem_cons_self) first request
      refine ⟨takes.sends ▸ h.sends, fun q hmem => h.queued q ?_, ?_⟩
      · rw [takes.items]
        exact List.mem_cons_of_mem _ hmem
      · rw [iterators]
        intro it hmem
        obtain hold | hnew := List.mem_append.mp hmem
        · exact h.iterators it hold
        · obtain rfl := List.mem_singleton.mp hnew
          exact .new hfirst
  | resumed k it queued here place takes iterators =>
      have hqueued : queued ∈ w.requests.items := by
        rw [takes.items]
        exact List.mem_cons_self
      refine ⟨takes.sends ▸ h.sends, fun q hmem => h.queued q ?_, ?_⟩
      · rw [takes.items]
        exact List.mem_cons_of_mem _ hmem
      · rw [iterators]
        intro it' hmem
        obtain hold | rfl := List.mem_or_eq_of_mem_set hmem
        · exact h.iterators it' hold
        · exact (h.iterators it (List.mem_of_getElem? here)).resume place
            fun r hr => h.queued queued hqueued r hr
  | moved k it it₁ here move iterators requests _ sends =>
      refine ⟨sends ▸ h.sends, requests ▸ h.queued, ?_⟩
      rw [iterators]
      intro it' hmem
      obtain hold | rfl := List.mem_or_eq_of_mem_set hmem
      · exact h.iterators it' hold
      · exact (h.iterators it (List.mem_of_getElem? here)).iterates move huuid
  | callsEnd iterators requests _ sends =>
      refine ⟨sends ▸ h.sends, requests ▸ h.queued, ?_⟩
      intro it' hmem
      obtain ⟨k, hk⟩ := List.mem_iff_getElem?.mp hmem
      obtain hsame | hends := GRPCWorker.ends_cases (iterators k)
      · exact h.iterators it' (List.mem_of_getElem? (hsame ▸ hk))
      · rw [hends, Option.map_eq_some_iff] at hk
        obtain ⟨it, hit, rfl⟩ := hk
        exact (h.iterators it (List.mem_of_getElem? hit)).endCall
  | callBegins _ _ iterators requests _ sends =>
      refine ⟨sends ▸ h.sends, requests ▸ h.queued, ?_⟩
      rw [iterators]
      intro it' hmem
      obtain ⟨k, hk⟩ := List.mem_iff_getElem?.mp hmem
      rw [GRPCWorker.openCall, List.getElem?_modify, Option.map_eq_map,
        Option.map_eq_some_iff] at hk
      obtain ⟨it, hit, heq⟩ := hk
      have hyields := h.iterators it (List.mem_of_getElem? hit)
      split at heq
      · subst heq
        exact hyields.status .active
      · subst heq
        exact hyields

end Requests

end VoxLattice.Plugin
