import VoxLattice.Lib.Acceptors
import VoxLattice.Plugin.Loop
import VoxLattice.Plugin.Places

/-!
# The loop over the responses

`_run_generation` as a function of what the server sends: the callbacks it makes, and how it
ends.  The messages the loop survives are the beginnings of an answer as the protocol has it, so
`on_audio` is called with the audio of the longest such beginning and with nothing else, and the
message after it decides the end (`generation_accepts`).

The worker takes the messages one by one, between the steps of the other threads.  What it has
done after some of them is what the function says (`Hears.follows`).
-/

namespace VoxLattice.Plugin

open Acceptors
open Server (Bytes EnhancedAudio ServerMessage StreamAccepted)

/-! ## The loop -/

/-- How `_run_generation` ends. -/
inductive GenerationExit where
  | returned
  | valueError (detail : String)
  | connectionError
deriving DecidableEq

/-- The loop over the responses of a generation. -/
def responseLoop (config : TransportConfig) (generation : Nat) :
    Acceptor Streaming ServerMessage Callback GenerationExit where
  round streaming message :=
    match streaming.handle config message with
    | .accepted streaming => .ok (streaming, [.onGeneration generation .active])
    | .audio streaming startSample pcmS16le =>
      .ok (streaming, [.onAudio generation startSample pcmS16le])
    | .returned => .error .returned
    | .raised detail => .error (.valueError detail)

/-- How the generation ends when the responses stop by themselves. -/
def responsesStop (stop : Bool) : GenerationExit := if stop then .returned else .connectionError

/-- `_run_generation`, for the responses of its call.  The flag is `_stop` at their end. -/
def runGeneration (config : TransportConfig) (first : AudioRequest) (generation : Nat)
    (stop : Bool) (messages : List ServerMessage) : List Callback × GenerationExit :=
  let (callbacks, result) :=
    (responseLoop config generation).run ⟨false, 0, first.startSample⟩ messages
  (.onGeneration generation .connecting :: callbacks,
    match result with
    | .error exit => exit
    | .ok _ => responsesStop stop)

/-- The call of `on_audio` that a callback is. -/
def Callback.audio? : Callback → Option (Nat × Nat × Bytes)
  | .onAudio generation startSample pcmS16le => some (generation, startSample, pcmS16le)
  | _ => none

/-! ## The answer of a server -/

/-- `StreamAccepted` is that of the locked contract. -/
structure MatchesContract (config : TransportConfig) (accepted : StreamAccepted) : Prop where
  protocolVersion : accepted.protocolVersion = "1"
  modelName : accepted.modelName = "FastEnhancer-B"
  modelRevision : accepted.modelRevision = config.expectedModelRevision
  modelSha256 : accepted.modelSha256 = config.expectedModelSha256
  sampleRateHz : accepted.sampleRateHz = 16000
  channels : accepted.channels = 1
  sampleFormat : accepted.sampleFormat = .pcmS16le
  hopSamples : accepted.hopSamples = 256
  algorithmicDelaySamples : accepted.algorithmicDelaySamples = 256

/-- The audio counts from `n`, is contiguous from `start`, and has samples. -/
def Outputs : Nat → Nat → List EnhancedAudio → Prop
  | _, _, [] => True
  | n, start, audio :: rest =>
    audio.outputSequence.toNat = n ∧ audio.outputStartSample.toNat = start ∧
      0 < audio.validSamples.toNat ∧ audio.pcmS16le.length = 2 * audio.validSamples.toNat ∧
      Outputs (n + 1) (start + audio.validSamples.toNat) rest

/-- A beginning of an answer, for a generation whose first request starts at `start`. -/
inductive Answer (config : TransportConfig) (start : Nat) : List ServerMessage → Prop where
  | none : Answer config start []
  | audio (accepted : StreamAccepted) (audios : List EnhancedAudio)
      (contract : MatchesContract config accepted) (outputs : Outputs 0 start audios) :
      Answer config start (.accepted accepted :: audios.map .audio)

/-- The audio of a message, if it has some. -/
def audio? : ServerMessage → Option EnhancedAudio
  | .audio audio => some audio
  | _ => none

/-- The message is a `StreamEnded`. -/
def isEnded : ServerMessage → Bool
  | .ended _ => true
  | _ => false

variable {config : TransportConfig} {generation start : Nat}

theorem validateAccepted_ok_iff {accepted : StreamAccepted} :
    validateAccepted config accepted = .ok () ↔ MatchesContract config accepted := by
  unfold validateAccepted
  constructor
  · intro h
    split at h
    · next hall =>
        obtain ⟨h1, h2, h3, h4, h5, h6, h7, h8, h9⟩ := hall
        exact ⟨h1, h2, h3, h4, h5, h6, h7, h8, h9⟩
    · cases h
  · intro h
    exact if_pos ⟨h.protocolVersion, h.modelName, h.modelRevision, h.modelSha256, h.sampleRateHz,
      h.channels, h.sampleFormat, h.hopSamples, h.algorithmicDelaySamples⟩

/-! ## A round -/

/-- The call of `on_audio` for a message. -/
def onAudioOf (generation : Nat) (audio : EnhancedAudio) : Callback :=
  .onAudio generation audio.outputStartSample.toNat audio.pcmS16le

/-- The samples of some audio. -/
def validTotal (audios : List EnhancedAudio) : Nat := (audios.map (·.validSamples.toNat)).sum

theorem MatchesContract.round {accepted : StreamAccepted} (h : MatchesContract config accepted)
    (n : Nat) :
    (responseLoop config generation).round ⟨false, n, start⟩ (.accepted accepted) =
      .ok (⟨true, n, start⟩, [.onGeneration generation .active]) := by
  simp [responseLoop, Streaming.handle, validateAccepted_ok_iff.mpr h]

theorem Outputs.round {n : Nat} {audio : EnhancedAudio} (h : Outputs n start [audio]) :
    (responseLoop config generation).round ⟨true, n, start⟩ (.audio audio) =
      .ok (⟨true, n + 1, start + audio.validSamples.toNat⟩, [onAudioOf generation audio]) := by
  obtain ⟨hsequence, hstart, hpos, hbytes, -⟩ := h
  have hne : audio.validSamples ≠ 0 := by
    rintro hzero
    rw [hzero] at hpos
    exact absurd hpos (by decide)
  simp [responseLoop, Streaming.handle, hsequence, hstart, hne, hbytes, Nat.mul_comm, onAudioOf]

/-- The first message accepts the stream, or the loop is left with a `ValueError`. -/
theorem round_first (config : TransportConfig) (generation n start : Nat)
    (message : ServerMessage) :
    (∃ accepted, message = .accepted accepted ∧ MatchesContract config accepted) ∨
    ∃ detail, (responseLoop config generation).round ⟨false, n, start⟩ message =
      .error (.valueError detail) := by
  cases message with
  | accepted accepted =>
      cases hvalid : validateAccepted config accepted with
      | ok _ => exact .inl ⟨accepted, rfl, validateAccepted_ok_iff.mp hvalid⟩
      | error detail =>
          refine .inr ⟨detail, ?_⟩
          simp [responseLoop, Streaming.handle, hvalid]
  | audio audio => exact .inr ⟨_, rfl⟩
  | ended ended => exact .inr ⟨_, rfl⟩
  | error => exact .inr ⟨_, rfl⟩
  | empty => exact .inr ⟨_, rfl⟩

/-- A later message is the next audio, or the loop is left: by `StreamEnded` without an error. -/
theorem round_accepted (config : TransportConfig) (generation n start : Nat)
    (message : ServerMessage) :
    (∃ audio, message = .audio audio ∧ Outputs n start [audio]) ∨
    (isEnded message = true ∧ (responseLoop config generation).round ⟨true, n, start⟩ message =
      .error .returned) ∨
    isEnded message = false ∧ ∃ detail,
      (responseLoop config generation).round ⟨true, n, start⟩ message =
        .error (.valueError detail) := by
  cases message with
  | accepted accepted => exact .inr (.inr ⟨rfl, _, rfl⟩)
  | ended ended => exact .inr (.inl ⟨rfl, rfl⟩)
  | error => exact .inr (.inr ⟨rfl, _, rfl⟩)
  | empty => exact .inr (.inr ⟨rfl, _, rfl⟩)
  | audio audio =>
      by_cases hsequence : audio.outputSequence.toNat = n
      · by_cases hstart : audio.outputStartSample.toNat = start
        · by_cases hbytes :
              audio.validSamples = 0 ∨ audio.pcmS16le.length ≠ audio.validSamples.toNat * 2
          · refine .inr (.inr ⟨rfl, "server output byte count is invalid", ?_⟩)
            simp [responseLoop, Streaming.handle, hsequence, hstart, hbytes]
          · rw [not_or, Decidable.not_not] at hbytes
            have hpos : 0 < audio.validSamples.toNat :=
              Nat.pos_of_ne_zero fun hzero => hbytes.1 (UInt32.toNat_inj.mp hzero)
            refine .inl ⟨audio, rfl, hsequence, hstart, hpos, ?_, trivial⟩
            rw [hbytes.2, Nat.mul_comm]
        · refine .inr (.inr ⟨rfl, "server output offset has a gap or overlap", ?_⟩)
          simp [responseLoop, Streaming.handle, hsequence, hstart]
      · refine .inr (.inr ⟨rfl, "server output sequence is not contiguous", ?_⟩)
        simp [responseLoop, Streaming.handle, hsequence]

/-! ## What the loop survives -/

theorem outputs_cons {n : Nat} {audio : EnhancedAudio} {rest : List EnhancedAudio} :
    Outputs n start (audio :: rest) ↔ Outputs n start [audio] ∧
      Outputs (n + 1) (start + audio.validSamples.toNat) rest := by
  simp [Outputs, and_assoc]

/-- The loop survives the next audio. -/
theorem Outputs.survives {n : Nat} {audios : List EnhancedAudio} (h : Outputs n start audios) :
    (responseLoop config generation).Survives ⟨true, n, start⟩ (audios.map .audio)
      (audios.map (onAudioOf generation))
      ⟨true, n + audios.length, start + validTotal audios⟩ := by
  induction audios generalizing n start with
  | nil => exact .nil
  | cons audio rest ih =>
      obtain ⟨hone, hrest⟩ := outputs_cons.mp h
      have hall := (Acceptor.Survives.nil.round hone.round).append (ih hrest)
      rwa [Nat.add_assoc, Nat.add_comm 1, Nat.add_assoc] at hall

/-- It survives nothing else. -/
theorem outputs_of_survives {n : Nat} {messages : List ServerMessage} {callbacks : List Callback}
    {streaming : Streaming}
    (h : (responseLoop config generation).Survives ⟨true, n, start⟩ messages callbacks streaming) :
    ∃ audios, messages = audios.map .audio ∧ Outputs n start audios := by
  induction messages generalizing n start callbacks with
  | nil => exact ⟨[], rfl, trivial⟩
  | cons message rest ih =>
      unfold Acceptor.Survives at h
      rcases round_accepted config generation n start message with
        ⟨audio, rfl, hone⟩ | ⟨-, hround⟩ | ⟨-, detail, hround⟩
      · rw [Acceptor.run_round hone.round, Prod.mk.injEq] at h
        obtain ⟨audios, rfl, houtputs⟩ := ih (Prod.ext rfl h.2)
        exact ⟨audio :: audios, rfl, outputs_cons.mpr ⟨hone, houtputs⟩⟩
      · rw [Acceptor.run_exit hround] at h
        cases h
      · rw [Acceptor.run_exit hround] at h
        cases h

/-- The callbacks for a beginning of an answer. -/
def answerCallbacks (generation : Nat) (messages : List ServerMessage) : List Callback :=
  if messages = [] then []
  else .onGeneration generation .active ::
    (messages.filterMap audio?).map (onAudioOf generation)

theorem filterMap_audio? (audios : List EnhancedAudio) :
    (audios.map ServerMessage.audio).filterMap audio? = audios := by
  induction audios with
  | nil => rfl
  | cons audio rest ih => exact congrArg (audio :: ·) ih

theorem answerCallbacks_accepted (accepted : StreamAccepted) (audios : List EnhancedAudio) :
    answerCallbacks generation (.accepted accepted :: audios.map .audio) =
      .onGeneration generation .active :: audios.map (onAudioOf generation) := by
  show _ :: ((audios.map ServerMessage.audio).filterMap audio?).map _ = _
  rw [filterMap_audio?]

/-- The loop survives a beginning of an answer, and has then accepted the stream, unless there
was no message. -/
theorem Answer.survives {messages : List ServerMessage} (h : Answer config start messages)
    (generation : Nat) :
    ∃ n expected, (responseLoop config generation).Survives ⟨false, 0, start⟩ messages
      (answerCallbacks generation messages) ⟨decide (messages ≠ []), n, expected⟩ := by
  cases h with
  | none => exact ⟨0, start, .nil⟩
  | audio accepted audios contract outputs =>
      refine ⟨0 + audios.length, start + validTotal audios, ?_⟩
      rw [answerCallbacks_accepted]
      exact (Acceptor.Survives.nil.round (contract.round 0)).append outputs.survives

/-- The sequences the loop survives are the beginnings of an answer. -/
theorem answer_iff_survives (generation : Nat) {messages : List ServerMessage} :
    Answer config start messages ↔
      ∃ callbacks streaming, (responseLoop config generation).Survives ⟨false, 0, start⟩ messages
        callbacks streaming := by
  constructor
  · intro h
    obtain ⟨_, _, hsurvives⟩ := h.survives generation
    exact ⟨_, _, hsurvives⟩
  · rintro ⟨callbacks, streaming, h⟩
    cases messages with
    | nil => exact .none
    | cons message rest =>
        unfold Acceptor.Survives at h
        rcases round_first config generation 0 start message with
          ⟨accepted, rfl, hcontract⟩ | ⟨detail, hround⟩
        · rw [Acceptor.run_round (hcontract.round 0), Prod.mk.injEq] at h
          obtain ⟨audios, rfl, houtputs⟩ := outputs_of_survives (Prod.ext rfl h.2)
          exact .audio accepted audios hcontract houtputs
        · rw [Acceptor.run_exit hround] at h
          cases h

/-- The calls of `on_audio` for a beginning of an answer. -/
theorem answerCallbacks_audio (generation : Nat) (messages : List ServerMessage) :
    (answerCallbacks generation messages).filterMap Callback.audio? =
      (messages.filterMap audio?).map fun audio =>
        (generation, audio.outputStartSample.toNat, audio.pcmS16le) := by
  have hmap (audios : List EnhancedAudio) :
      (audios.map (onAudioOf generation)).filterMap Callback.audio? =
        audios.map fun audio => (generation, audio.outputStartSample.toNat, audio.pcmS16le) := by
    induction audios with
    | nil => rfl
    | cons audio rest ih => exact congrArg (_ :: ·) ih
  unfold answerCallbacks
  split
  · next hnil =>
      rw [hnil]
      rfl
  · exact hmap _

/-- Behind a beginning of an answer, only a `StreamEnded` that follows the acceptance leaves the
loop without an error. -/
theorem round_error {accepted : Bool} {n expected : Nat} {message : ServerMessage}
    {exit : GenerationExit}
    (h : (responseLoop config generation).round ⟨accepted, n, expected⟩ message = .error exit) :
    accepted = true ∧ isEnded message = true ∧ exit = .returned ∨
    ¬ (accepted = true ∧ isEnded message = true) ∧ ∃ detail, exit = .valueError detail := by
  cases accepted with
  | false =>
      rcases round_first config generation n expected message with
        ⟨accepted, rfl, hcontract⟩ | ⟨detail, hround⟩
      · rw [hcontract.round] at h
        cases h
      · rw [hround] at h
        cases h
        exact .inr ⟨nofun, detail, rfl⟩
  | true =>
      rcases round_accepted config generation n expected message with
        ⟨audio, rfl, hone⟩ | ⟨hended, hround⟩ | ⟨hended, detail, hround⟩
      · rw [hone.round] at h
        cases h
      · rw [hround] at h
        cases h
        exact .inl ⟨rfl, hended, rfl⟩
      · rw [hround] at h
        cases h
        exact .inr ⟨by simp [hended], detail, rfl⟩

/-- The loop accepts just the answers of the protocol: `on_audio` gets the audio of the longest
beginning of one, and what follows it decides how the generation ends. -/
theorem generation_accepts (config : TransportConfig) (first : AudioRequest) (generation : Nat)
    (stop : Bool) (messages : List ServerMessage) :
    ∃ valid rest, Longest (Answer config first.startSample) messages valid ∧
      messages = valid ++ rest ∧
      (runGeneration config first generation stop messages).1.filterMap Callback.audio? =
        ((valid.filterMap audio?).map fun audio =>
          (generation, audio.outputStartSample.toNat, audio.pcmS16le)) ∧
      ((runGeneration config first generation stop messages).2 = .returned ↔
        (valid ≠ [] ∧ ∃ ended tail, rest = .ended ended :: tail) ∨ rest = [] ∧ stop = true) ∧
      ((∃ detail, (runGeneration config first generation stop messages).2 = .valueError detail) ↔
        ∃ message tail, rest = message :: tail ∧ ¬ (valid ≠ [] ∧ isEnded message = true)) ∧
      ((runGeneration config first generation stop messages).2 = .connectionError ↔
        rest = [] ∧ stop = false) := by
  obtain ⟨valid, hvalid⟩ :=
    Longest.exists_longest (P := Answer config first.startSample) .none messages
  obtain ⟨rest, hrest⟩ := hvalid.starts
  obtain ⟨callbacks, streaming, hsurvives, hleft⟩ := Acceptor.run_longest
    (fun ms => answer_iff_survives generation) hvalid
  obtain ⟨n, expected, hanswer⟩ := hvalid.holds.survives generation
  cases hsurvives.symm.trans hanswer
  refine ⟨valid, rest, hvalid, hrest.symm, ?_⟩
  have hcalls : (runGeneration config first generation stop messages).1.filterMap
      Callback.audio? = (valid.filterMap audio?).map fun audio =>
        (generation, audio.outputStartSample.toNat, audio.pcmS16le) := by
    rw [← answerCallbacks_audio generation valid]
    rcases hleft rest hrest.symm with ⟨-, hrun⟩ | ⟨_, _, _, -, -, hrun⟩
    · rw [runGeneration, hrun]
      rfl
    · rw [runGeneration, hrun]
      rfl
  refine ⟨hcalls, ?_⟩
  rcases hleft rest hrest.symm with ⟨rfl, hrun⟩ | ⟨message, tail, exit, rfl, hround, hrun⟩
  · have hexit : (runGeneration config first generation stop messages).2 = responsesStop stop := by
      rw [runGeneration, hrun]
    rw [hexit]
    cases stop <;> simp [responsesStop]
  · have hexit : (runGeneration config first generation stop messages).2 = exit := by
      rw [runGeneration, hrun]
    rw [hexit]
    rcases round_error hround with ⟨haccepted, hended, rfl⟩ | ⟨hother, detail, rfl⟩
    · have hvalid' : valid ≠ [] := of_decide_eq_true haccepted
      refine ⟨⟨fun _ => .inl ⟨hvalid', ?_⟩, fun _ => rfl⟩, ⟨nofun, ?_⟩, ⟨nofun, nofun⟩⟩
      · cases message with
        | ended ended => exact ⟨ended, tail, rfl⟩
        | _ => cases hended
      · rintro ⟨_, _, heq, hother⟩
        cases heq
        exact absurd ⟨hvalid', hended⟩ hother
    · refine ⟨⟨nofun, ?_⟩, ⟨fun _ => ⟨message, tail, rfl, ?_⟩, fun _ => ⟨detail, rfl⟩⟩,
        ⟨nofun, nofun⟩⟩
      · rintro (⟨hvalid', ended, tail', heq⟩ | ⟨hnil, -⟩)
        · cases heq
          exact absurd ⟨decide_eq_true hvalid', rfl⟩ hother
        · cases hnil
      · exact fun h => hother ⟨decide_eq_true h.1, h.2⟩

/-! ## The worker -/

namespace GRPCWorker

variable {w w' : GRPCWorker} {e : WorkerEvent}

theorem generation_inside {made : Option Callback} (hs : w.step config e = some (w', made))
    (inside : w.run.streaming?.isSome = true) : w'.generation = w.generation := by
  rcases (step_effect hs).generation_cases with hsame | ⟨hrun, -⟩
  · exact hsame
  · rw [hrun] at inside
    cases inside

/-- The steps of all threads while the worker is in the loop over the responses, with the
messages the loop has taken and the callbacks it has made. -/
inductive Hears (config : TransportConfig) (w : GRPCWorker) :
    List ServerMessage → List Callback → GRPCWorker → Prop
  | none : Hears config w [] [] w
  | step {messages callbacks w₁ e made w₂} (h : Hears config w messages callbacks w₁)
      (inside : w₁.run.streaming?.isSome = true) (hs : w₁.step config e = some (w₂, made)) :
      Hears config w (messages ++ e.response?.toList) (callbacks ++ made.toList) w₂

/-- Where the worker is when the loop has this result on the messages so far. -/
def At (w : GRPCWorker) : Except GenerationExit Streaming → Prop
  | .ok streaming => w.run.streaming? = some streaming ∨
      -- the responses have stopped, or a callback has raised
      w.run = .draining ∨ w.run = .finalizing ∧ w.stop = true ∨ w.run = .dying
  | .error .returned => w.run = .finalizing
  | .error (.valueError detail) => w.run = .mismatched detail
  | .error .connectionError => False

/-- Inside the loop, its result so far is its variables. -/
theorem At.inside {result : Except GenerationExit Streaming} {streaming : Streaming}
    (h : w.At result) (hinside : w.run.streaming? = some streaming) : result = .ok streaming := by
  cases result with
  | ok streaming' =>
      rcases h with hplace | hrun | ⟨hrun, -⟩ | hrun
      · rw [Option.some.inj (hplace.symm.trans hinside)]
      · rw [hrun] at hinside
        cases hinside
      · rw [hrun] at hinside
        cases hinside
      · rw [hrun] at hinside
        cases hinside
  | error exit =>
      cases exit with
      | returned =>
          rw [show w.run = .finalizing from h] at hinside
          cases hinside
      | valueError detail =>
          rw [show w.run = .mismatched detail from h] at hinside
          cases hinside
      | connectionError => exact h.elim

/-- A step inside the loop that takes no message leaves the result of the loop as it is. -/
theorem Moves.at_quiet {made : Option Callback} {streaming : Streaming}
    (h : Moves config e w w' made) (hinside : w.run.streaming? = some streaming)
    (hquiet : e.response? = none) : w'.At (.ok streaming) ∧ made = none := by
  have hplace {run : RunPlace} {streaming' : Streaming} (hrun : w.run = run)
      (hrun' : run.streaming? = some streaming') : streaming' = streaming := by
    rw [hrun, hrun'] at hinside
    exact Option.some.inj hinside
  cases h with
  | other run => exact ⟨.inl (run ▸ hinside), rfl⟩
  | outside before =>
      rw [before] at hinside
      cases hinside
  | enters _ before =>
      rw [before] at hinside
      cases hinside
  | resets k streaming' _ before after =>
      obtain rfl := hplace before rfl
      exact ⟨.inl (by rw [after]; rfl), rfl⟩
  | resumes k streaming' _ before eq =>
      obtain rfl := hplace before rfl
      exact ⟨.inl (by rw [eq]; rfl), rfl⟩
  | dies k streaming' _ _ eq => exact ⟨.inr (.inr (.inr (by rw [eq]))), rfl⟩
  | accepted message _ _ event =>
      rw [event] at hquiet
      cases hquiet
  | audio message _ _ _ _ event =>
      rw [event] at hquiet
      cases hquiet
  | returned streaming' before eq how =>
      rcases how with ⟨message, rfl, -⟩ | ⟨-, hstop⟩
      · cases hquiet
      · exact ⟨.inr (.inr (.inl (by rw [eq]; exact ⟨rfl, hstop⟩))), rfl⟩
  | refused message _ _ event =>
      rw [event] at hquiet
      cases hquiet
  | broken streaming' _ eq => exact ⟨.inr (.inl (by rw [eq])), rfl⟩
  | rested _ before =>
      rw [before] at hinside
      cases hinside

/-- A message is a round of the loop. -/
theorem response_round {message : ServerMessage} {made : Option Callback} {streaming : Streaming}
    (hs : w.response config message = some (w', made))
    (hinside : w.run.streaming? = some streaming) :
    (∃ streaming', (responseLoop config w.generation).round streaming message =
      .ok (streaming', made.toList) ∧ w'.run = .streaming streaming') ∨
    made = none ∧ ∃ exit, (responseLoop config w.generation).round streaming message =
      .error exit ∧ w'.At (.error exit) := by
  unfold response at hs
  split at hs
  · next streaming₁ hrun =>
      rw [hrun] at hinside
      obtain rfl := Option.some.inj hinside
      split at hs
      · next streaming' hhandled =>
          cases hs
          exact .inl ⟨streaming', by simp only [responseLoop, hhandled]; rfl, rfl⟩
      · next streaming' startSample pcm hhandled =>
          cases hs
          exact .inl ⟨streaming', by simp only [responseLoop, hhandled]; rfl, rfl⟩
      · next hhandled =>
          cases hs
          exact .inr ⟨rfl, .returned, by simp only [responseLoop, hhandled], rfl⟩
      · next detail hhandled =>
          cases hs
          exact .inr ⟨rfl, .valueError detail, by simp only [responseLoop, hhandled], rfl⟩
  · cases hs

/-- Whatever the other threads do, the worker handles the messages as the function does. -/
theorem Hears.follows {messages : List ServerMessage} {callbacks : List Callback}
    (h : Hears config w messages callbacks w') (hw : w.run = .streaming ⟨false, 0, start⟩) :
    w'.generation = w.generation ∧
      ((responseLoop config w.generation).run ⟨false, 0, start⟩ messages).1 = callbacks ∧
      w'.At ((responseLoop config w.generation).run ⟨false, 0, start⟩ messages).2 := by
  induction h with
  | none => exact ⟨rfl, rfl, .inl (by rw [hw]; rfl)⟩
  | @step messages callbacks w₁ e made w₂ hrest inside hs ih =>
      obtain ⟨hgeneration, hcallbacks, hat⟩ := ih
      obtain ⟨streaming, hstreaming⟩ := Option.isSome_iff_exists.mp inside
      have hsurvives : (responseLoop config w.generation).Survives ⟨false, 0, start⟩ messages
          callbacks streaming := Prod.ext hcallbacks (hat.inside hstreaming)
      refine ⟨(generation_inside hs inside).trans hgeneration, ?_⟩
      cases hresponse : e.response? with
      | none =>
          obtain ⟨hat', rfl⟩ := (GRPCWorker.step_moves hs).at_quiet hstreaming hresponse
          rw [Option.toList_none, List.append_nil, Option.toList_none, List.append_nil, hsurvives]
          exact ⟨rfl, hat'⟩
      | some message =>
          obtain rfl : e = .response message := by
            cases e <;> cases hresponse
            rfl
          rw [Option.toList_some]
          rcases response_round hs hstreaming with ⟨streaming', hround, hrun⟩ |
            ⟨rfl, exit, hround, hat'⟩
          · rw [hgeneration] at hround
            rw [hsurvives.round hround]
            exact ⟨rfl, .inl (by rw [hrun]; rfl)⟩
          · rw [hgeneration] at hround
            rw [hsurvives.run_left hround, Option.toList_none, List.append_nil]
            exact ⟨rfl, hat'⟩

end GRPCWorker

end VoxLattice.Plugin
