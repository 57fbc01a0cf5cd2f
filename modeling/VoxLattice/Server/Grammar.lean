import VoxLattice.Lib.Acceptors
import VoxLattice.Server.Slicing

/-!
# The grammar of the request stream

After its `StartStream` a client sends audio chunks, one `EndStream`, and then ends the stream.
An input is a message or, as `none`, the end.  `Accepted` is the documented grammar, with what it
asks of the chunks (`ValidChunks`).

*Beginnings.*  `Conforms` derives the beginnings of the accepted inputs one input at a time, and
`Offends` lists the inputs that do not continue them, each with the status that belongs to it.
The two exclude each other (`Offends.not_continues`), and a beginning has one derivation
(`Conforms.unique`), so the first offending input is well defined.

*Works.*  `worksOf` is what the scheduler gets for a beginning.
-/

namespace VoxLattice.Server

open Intervals Samples Acceptors

/-! ## The grammar -/

/-- How far the client has come. -/
inductive Stage where
  /-- Chunks may follow. -/
  | audio
  /-- `EndStream` was sent. -/
  | ended (flush : Bool)
  /-- The request stream has ended. -/
  | closed (flush : Bool)
deriving DecidableEq

/-- What a chunk must be like, after others. -/
structure FitsStream (settings : ServerSettings) (start : Nat) (before : List AudioChunk)
    (chunk : AudioChunk) : Prop where
  size : 0 < chunk.pcmS16le.length ∧ chunk.pcmS16le.length % 2 = 0
  limit : chunk.samples ≤ settings.maxAudioChunkSamples
  sequence : chunk.sequence.toNat = before.length
  offset : chunk.inputStartSample.toNat = start + total AudioChunk.samples before
  /-- The rechunker still holds what the full hops have left over. -/
  room : total AudioChunk.samples before % hopSamples + chunk.samples ≤
    settings.queueHops * hopSamples

/-- Every chunk fits the ones before it. -/
def ValidChunks (settings : ServerSettings) (start : Nat) (chunks : List AudioChunk) : Prop :=
  ∀ before chunk after, chunks = before ++ chunk :: after → FitsStream settings start before chunk

/-- The inputs of some chunks and what follows them. -/
def inputsOf (chunks : List AudioChunk) : Stage → List (Option ClientMessage)
  | .audio => chunks.map fun chunk => some (.audio chunk)
  | .ended flush => (chunks.map fun chunk => some (.audio chunk)) ++ [some (.endStream flush)]
  | .closed flush =>
      (chunks.map fun chunk => some (.audio chunk)) ++ [some (.endStream flush)] ++ [none]

/-- The inputs of a client that sends the messages and ends the stream. -/
def inputSequence (messages : List ClientMessage) : List (Option ClientMessage) :=
  messages.map some ++ [none]

/-- The messages are valid chunks and one `EndStream`. -/
def Accepted (settings : ServerSettings) (start : Nat) (messages : List ClientMessage) : Prop :=
  ∃ chunks flush, messages = chunks.map .audio ++ [.endStream flush] ∧
    ValidChunks settings start chunks

/-! ## Beginnings -/

section Beginnings

variable (settings : ServerSettings) (start : Nat)

/-- The inputs that continue a beginning. -/
inductive Continues : List AudioChunk → Stage → Option ClientMessage → List AudioChunk → Stage →
    Prop where
  | chunk {chunks chunk} (hfits : FitsStream settings start chunks chunk) :
      Continues chunks .audio (some (.audio chunk)) (chunks ++ [chunk]) .audio
  | ends {chunks} (flush) :
      Continues chunks .audio (some (.endStream flush)) chunks (.ended flush)
  | closes {chunks} (flush) : Continues chunks (.ended flush) none chunks (.closed flush)

/-- The beginnings of the accepted inputs. -/
inductive Conforms : List (Option ClientMessage) → List AudioChunk → Stage → Prop where
  | nil : Conforms [] [] .audio
  | snoc {inputs chunks stage x chunks' stage'} (h : Conforms inputs chunks stage)
      (hnext : Continues settings start chunks stage x chunks' stage') :
      Conforms (inputs ++ [x]) chunks' stage'

/-- The inputs that do not continue a beginning, with the failure of the first check that finds
it, in the order the checks are made. -/
inductive Offends (chunks : List AudioChunk) : Stage → Option ClientMessage → ProtocolViolation →
    Prop where
  | afterEnd (flush message) : Offends chunks (.ended flush) (some message)
      ⟨.failedPrecondition, "message received after EndStream"⟩
  | noEnd : Offends chunks .audio none ⟨.failedPrecondition, "EndStream is required"⟩
  | duplicateStart (start') : Offends chunks .audio (some (.start start'))
      ⟨.failedPrecondition, "duplicate StartStream"⟩
  | empty : Offends chunks .audio (some .empty) ⟨.invalidArgument, "empty client message"⟩
  | size (chunk) (hsize : ¬ (0 < chunk.pcmS16le.length ∧ chunk.pcmS16le.length % 2 = 0)) :
      Offends chunks .audio (some (.audio chunk))
        ⟨.invalidArgument, "audio payload must have positive even length"⟩
  | limit (chunk) (hsize : 0 < chunk.pcmS16le.length ∧ chunk.pcmS16le.length % 2 = 0)
      (hlimit : settings.maxAudioChunkSamples < chunk.samples) :
      Offends chunks .audio (some (.audio chunk)) ⟨.resourceExhausted, "audio chunk too large"⟩
  | sequence (chunk) (hsize : 0 < chunk.pcmS16le.length ∧ chunk.pcmS16le.length % 2 = 0)
      (hlimit : chunk.samples ≤ settings.maxAudioChunkSamples)
      (hsequence : chunk.sequence.toNat ≠ chunks.length) :
      Offends chunks .audio (some (.audio chunk))
        ⟨.invalidArgument, "audio sequence is not contiguous"⟩
  | offset (chunk) (hsize : 0 < chunk.pcmS16le.length ∧ chunk.pcmS16le.length % 2 = 0)
      (hlimit : chunk.samples ≤ settings.maxAudioChunkSamples)
      (hsequence : chunk.sequence.toNat = chunks.length)
      (hoffset : chunk.inputStartSample.toNat ≠ start + total AudioChunk.samples chunks) :
      Offends chunks .audio (some (.audio chunk))
        ⟨.invalidArgument, "audio offset is not contiguous"⟩
  | room (chunk) (hsize : 0 < chunk.pcmS16le.length ∧ chunk.pcmS16le.length % 2 = 0)
      (hlimit : chunk.samples ≤ settings.maxAudioChunkSamples)
      (hsequence : chunk.sequence.toNat = chunks.length)
      (hoffset : chunk.inputStartSample.toNat = start + total AudioChunk.samples chunks)
      (hroom : settings.queueHops * hopSamples <
        total AudioChunk.samples chunks % hopSamples + chunk.samples) :
      Offends chunks .audio (some (.audio chunk))
        ⟨.resourceExhausted, "per-stream input audio buffer is full"⟩

end Beginnings

section Lemmas

variable {settings : ServerSettings} {start : Nat} {chunks chunks' : List AudioChunk}
  {stage stage' : Stage} {inputs inputs' : List (Option ClientMessage)}
  {x : Option ClientMessage} {violation : ProtocolViolation} {messages : List ClientMessage}

theorem ValidChunks.nil : ValidChunks settings start [] := by
  intro before chunk after h
  exact absurd h.symm (List.append_ne_nil_of_right_ne_nil _ nofun)

theorem ValidChunks.snoc {chunk : AudioChunk} (h : ValidChunks settings start chunks)
    (hfits : FitsStream settings start chunks chunk) :
    ValidChunks settings start (chunks ++ [chunk]) := by
  intro before chunk' after heq
  rcases List.eq_nil_or_concat' after with rfl | ⟨after', last, rfl⟩
  · obtain ⟨rfl, hlast⟩ := List.append_inj' heq rfl
    obtain rfl := List.singleton_inj.mp hlast
    exact hfits
  · rw [← List.cons_append, ← List.append_assoc] at heq
    exact h before chunk' after' (List.append_inj' heq rfl).1

theorem ValidChunks.of_concat {chunk : AudioChunk}
    (h : ValidChunks settings start (chunks ++ [chunk])) :
    ValidChunks settings start chunks ∧ FitsStream settings start chunks chunk := by
  refine ⟨fun before chunk' after heq => ?_, h chunks chunk [] rfl⟩
  exact h before chunk' (after ++ [chunk]) (by rw [heq, List.append_assoc, List.cons_append])

/-- Valid chunks have samples. -/
theorem ValidChunks.eq_nil (h : ValidChunks settings start chunks) (hpcm : pcmOf chunks = []) :
    chunks = [] := by
  cases chunks with
  | nil => rfl
  | cons chunk rest =>
      obtain ⟨hpos, heven⟩ := (h [] chunk rest rfl).size
      have hlength := congrArg List.length hpcm
      rw [pcmOf_length, total_cons, List.length_nil] at hlength
      have hsamples : chunk.samples = chunk.pcmS16le.length / 2 := rfl
      omega

/-- A beginning is what its chunks and its stage say. -/
theorem conforms_iff : Conforms settings start inputs chunks stage ↔
    inputs = inputsOf chunks stage ∧ ValidChunks settings start chunks := by
  constructor
  · intro h
    induction h with
    | nil => exact ⟨rfl, .nil⟩
    | snoc h hnext ih =>
        obtain ⟨rfl, hvalid⟩ := ih
        cases hnext with
        | chunk hfits => exact ⟨by simp [inputsOf], hvalid.snoc hfits⟩
        | ends flush => exact ⟨rfl, hvalid⟩
        | closes flush => exact ⟨rfl, hvalid⟩
  · rintro ⟨rfl, hvalid⟩
    have haudio : Conforms settings start (inputsOf chunks .audio) chunks .audio := by
      induction chunks using List.reverseRecOn with
      | nil => exact .nil
      | append_singleton chunks chunk ih =>
          obtain ⟨hbefore, hfits⟩ := hvalid.of_concat
          have hnext := (ih hbefore).snoc (.chunk hfits)
          rwa [show inputsOf chunks .audio ++ [some (.audio chunk)] =
            inputsOf (chunks ++ [chunk]) .audio by simp [inputsOf]] at hnext
    cases stage with
    | audio => exact haudio
    | ended flush => exact haudio.snoc (.ends flush)
    | closed flush => exact (haudio.snoc (.ends flush)).snoc (.closes flush)

/-- One input continues a beginning in one way. -/
theorem Continues.unique {chunks₁ chunks₂ : List AudioChunk} {stage₁ stage₂ : Stage}
    (h₁ : Continues settings start chunks stage x chunks₁ stage₁)
    (h₂ : Continues settings start chunks stage x chunks₂ stage₂) :
    chunks₁ = chunks₂ ∧ stage₁ = stage₂ := by
  cases h₁ with
  | chunk _ =>
      cases h₂
      exact ⟨rfl, rfl⟩
  | ends flush =>
      cases h₂
      exact ⟨rfl, rfl⟩
  | closes flush =>
      cases h₂
      exact ⟨rfl, rfl⟩

/-- The last input of a beginning continues the beginning before it. -/
theorem Conforms.of_concat (h : Conforms settings start (inputs ++ [x]) chunks' stage') :
    ∃ chunks stage, Conforms settings start inputs chunks stage ∧
      Continues settings start chunks stage x chunks' stage' := by
  generalize hall : inputs ++ [x] = all at h
  cases h with
  | nil => exact absurd hall (List.append_ne_nil_of_right_ne_nil _ nofun)
  | snoc h hnext =>
      obtain ⟨rfl, hlast⟩ := List.append_inj' hall rfl
      obtain rfl := List.singleton_inj.mp hlast
      exact ⟨_, _, h, hnext⟩

theorem Conforms.of_isPrefix (h : Conforms settings start inputs' chunks' stage')
    (hstarts : inputs <+: inputs') :
    ∃ chunks stage, Conforms settings start inputs chunks stage := by
  induction h with
  | nil =>
      obtain rfl := List.prefix_nil.mp hstarts
      exact ⟨[], .audio, .nil⟩
  | snoc h hnext ih =>
      rcases List.prefix_concat_iff.mp hstarts with rfl | hshort
      · exact ⟨_, _, h.snoc hnext⟩
      · exact ih hshort

/-- A beginning has one derivation. -/
theorem Conforms.unique (h : Conforms settings start inputs chunks stage)
    (h' : Conforms settings start inputs chunks' stage') : chunks = chunks' ∧ stage = stage' := by
  induction h generalizing chunks' stage' with
  | nil =>
      generalize hempty : ([] : List (Option ClientMessage)) = inputs at h'
      cases h' with
      | nil => exact ⟨rfl, rfl⟩
      | snoc _ _ => exact absurd hempty.symm (List.append_ne_nil_of_right_ne_nil _ nofun)
  | snoc h hnext ih =>
      obtain ⟨chunks₁, stage₁, h₁, hnext₁⟩ := h'.of_concat
      obtain ⟨rfl, rfl⟩ := ih h₁
      exact hnext.unique hnext₁

/-- What offends does not continue. -/
theorem Offends.not_continues (h : Offends settings start chunks stage x violation) :
    ¬ Continues settings start chunks stage x chunks' stage' := by
  intro hnext
  cases hnext with
  | chunk hfits =>
      cases h with
      | size _ hsize => exact hsize hfits.size
      | limit _ _ hlimit => exact absurd hfits.limit (Nat.not_le.mpr hlimit)
      | sequence _ _ _ hsequence => exact hsequence hfits.sequence
      | offset _ _ _ _ hoffset => exact hoffset hfits.offset
      | room _ _ _ _ _ hroom => exact absurd hfits.room (Nat.not_le.mpr hroom)
  | ends flush => cases h
  | closes flush => cases h

/-- The beginning before an input that offends is the longest. -/
theorem Offends.longest {tail : List (Option ClientMessage)}
    (h : Offends settings start chunks stage x violation)
    (hconforms : Conforms settings start inputs chunks stage)
    (heq : inputs' = inputs ++ x :: tail) :
    Longest (fun inputs => ∃ chunks stage, Conforms settings start inputs chunks stage) inputs'
      inputs := by
  refine ⟨⟨x :: tail, heq.symm⟩, ⟨chunks, stage, hconforms⟩, fun other hother hconf => ?_⟩
  by_contra hlonger
  have hstarts : inputs ++ [x] <+: other := by
    refine List.prefix_of_prefix_length_le ⟨tail, by rw [heq]; simp⟩ hother ?_
    rw [List.length_append, List.length_singleton]
    omega
  obtain ⟨chunks', stage', hconf⟩ := hconf
  obtain ⟨chunks₁, stage₁, hone⟩ := hconf.of_isPrefix hstarts
  obtain ⟨chunks₂, stage₂, htwo, hnext⟩ := hone.of_concat
  obtain ⟨rfl, rfl⟩ := hconforms.unique htwo
  exact h.not_continues hnext

/-- The accepted messages are those whose inputs lead to the end of the stream. -/
theorem accepted_iff : Accepted settings start messages ↔
    ∃ chunks flush, Conforms settings start (inputSequence messages) chunks (.closed flush) := by
  constructor
  · rintro ⟨chunks, flush, rfl, hvalid⟩
    exact ⟨chunks, flush, conforms_iff.mpr ⟨by simp [inputSequence, inputsOf], hvalid⟩⟩
  · rintro ⟨chunks, flush, h⟩
    obtain ⟨hinputs, hvalid⟩ := conforms_iff.mp h
    refine ⟨chunks, flush, ?_, hvalid⟩
    have hmap : messages.map some =
        (chunks.map ClientMessage.audio ++ [ClientMessage.endStream flush]).map some := by
      rw [List.map_append, List.map_map]
      exact (List.append_inj' hinputs rfl).1
    exact List.map_injective_iff.mpr (Option.some_injective _) hmap

/-- Where an input offends, the messages are not accepted. -/
theorem Offends.not_accepted {tail : List (Option ClientMessage)}
    (h : Offends settings start chunks stage x violation)
    (hconforms : Conforms settings start inputs chunks stage)
    (heq : inputSequence messages = inputs ++ x :: tail) :
    ¬ Accepted settings start messages := by
  rw [accepted_iff]
  rintro ⟨chunks', flush, hall⟩
  have hle := (h.longest hconforms heq).longest _ List.prefix_rfl ⟨_, _, hall⟩
  rw [heq, List.length_append, List.length_cons] at hle
  omega

end Lemmas

end VoxLattice.Server
