import VoxLattice.Lib.Intervals
import VoxLattice.Server.Backlog

/-!
# What the generator yields

The generator takes the events of the output queue in order and turns each into a message.
While the stream is not cancelled, the queue holds the emitted audio the generator has not yet
taken, and then the completion, if there is one (`Clean`).  A stream that fails is cancelled
and its queue is replaced by the failure, after which the generator yields nothing.

`Log` is the invariant.  The part that outlives the stream is `Transcript`: the messages
yielded are the acceptance, an initial segment of the emitted audio numbered from zero, and at
most one `StreamEnded`, which comes after all of the audio and whose counts are `Final`.
-/

namespace VoxLattice.Server

open Intervals

variable {κ : Type*}

/-- The output event a message was built from. -/
def EnhancedAudio.event (message : EnhancedAudio) : OutputAudio :=
  ⟨message.outputStartSample.toNat, message.pcmS16le, message.validSamples.toNat⟩

/-- The stream completed with a flush: the completion is queued or was yielded. -/
def Stream.Flushed (st : Stream κ) : Prop :=
  (∃ completion, .completion completion ∈ st.session.outputQueue.items ∧
    completion.flushed = true) ∨
  ∃ ended, .ended ended ∈ st.history.yielded ∧ ended.flushed = true

/-- The messages are the first of the emitted events, numbered from zero. -/
structure Sent (emitted : List OutputAudio) (messages : List EnhancedAudio) : Prop where
  events : messages.map EnhancedAudio.event = emitted.take messages.length
  numbered : messages.map (fun message => message.outputSequence.toNat) =
    List.range messages.length

/-- The counts of a completed stream. -/
structure Final (history : History) (completion : StreamCompletion) : Prop where
  inputSamples : completion.inputSamples = total AudioChunk.samples history.accepted
  outputSamples : completion.outputSamples = total OutputAudio.validSamples history.emitted
  flushed : completion.flushed = true → completion.outputSamples = completion.inputSamples
  unflushed : completion.flushed = false → completion.outputSamples =
    hopSamples * (completion.inputSamples / hopSamples - 1)

/-- The output queue of a stream that is not cancelled, of whose emitted audio the generator
has taken the first `taken`. -/
structure Clean (st : Stream κ) (taken : Nat) : Prop where
  cancelled : st.session.cancelled = false
  queue : (st.session.ended = false ∧
      st.session.outputQueue.items = (st.history.emitted.drop taken).map .audio) ∨
    (st.session.ended = true ∧ ∃ completion, Final st.history completion ∧
      st.session.outputQueue.items =
        (st.history.emitted.drop taken).map .audio ++ [.completion completion])

/-- The output queue of a stream whose generator still takes events. -/
def Queue (st : Stream κ) (taken : Nat) : Prop :=
  Clean st taken ∨ ∃ failure rest, st.session.outputQueue.items = .failure failure :: rest

/-- The messages a generator has yielded at any time. -/
inductive Transcript (capabilities : StreamAccepted) (history : History) (ended : Bool) : Prop where
  | nothing (h : history.yielded = [])
  | running (messages) (hsent : Sent history.emitted messages)
      (h : history.yielded = .accepted capabilities :: messages.map .audio)
  | ended (messages message completion) (hsent : Sent history.emitted messages)
      (hall : messages.length = history.emitted.length) (hended : ended = true)
      (hfinal : Final history completion) (hmessage : streamEnded? completion = some message)
      (h : history.yielded = .accepted capabilities :: messages.map .audio ++ [.ended message])

/-- The state of a generator that has yielded audio messages and takes events. -/
structure Running (capabilities : StreamAccepted) (st : Stream κ) (messages : List EnhancedAudio) :
    Prop where
  yielded : st.history.yielded = .accepted capabilities :: messages.map .audio
  sent : Sent st.history.emitted messages
  sequence : (if st.enhance = .audio then st.session.outputSequence + 1
    else st.session.outputSequence) = messages.length
  queue : Queue st messages.length

/-- The generator still takes events. -/
def Generator.running : Generator → Bool
  | .accepted | .waiting | .audio => true
  | _ => false

/-- The invariant of the generator. -/
structure Log (capabilities : StreamAccepted) (st : Stream κ) : Prop where
  running : st.enhance.running = true → ∃ messages, Running capabilities st messages
  transcript : Transcript capabilities st.history st.session.ended

theorem Sent.length_le {emitted : List OutputAudio} {messages : List EnhancedAudio}
    (h : Sent emitted messages) : messages.length ≤ emitted.length := by
  have hlen := congrArg List.length h.events
  rw [List.length_map, List.length_take] at hlen
  omega

theorem Sent.append {emitted : List OutputAudio} {messages : List EnhancedAudio}
    (h : Sent emitted messages) (more : List OutputAudio) : Sent (emitted ++ more) messages :=
  ⟨by rw [h.events, List.take_append_of_le_length h.length_le], h.numbered⟩

/-- The generator yields the next event. -/
theorem Sent.snoc {emitted : List OutputAudio} {messages : List EnhancedAudio}
    (h : Sent emitted messages) {message : EnhancedAudio} {rest : List OutputAudio}
    (hnext : emitted.drop messages.length = message.event :: rest)
    (hseq : message.outputSequence.toNat = messages.length) :
    Sent emitted (messages ++ [message]) where
  events := by
    have hget : emitted[messages.length]? = some message.event := by
      rw [← List.head?_drop, hnext, List.head?_cons]
    rw [List.map_append, h.events, List.length_append, List.length_singleton, List.take_add_one,
      hget]
    rfl
  numbered := by
    rw [List.map_append, h.numbered, List.length_append, List.length_singleton,
      List.range_succ, List.map_cons, List.map_nil, hseq]

/-- A change that only adds to the history, and nothing once the stream has ended. -/
structure Grows (st st' : Stream κ) : Prop where
  yielded : st'.history.yielded = st.history.yielded
  emitted : st.history.emitted <+: st'.history.emitted
  ended : st.session.ended = true → st'.session.ended = true ∧
    st'.history.emitted = st.history.emitted ∧ st'.history.accepted = st.history.accepted

section Log

variable {capabilities : StreamAccepted} {st st' : Stream κ}

theorem Final.congr {history history' : History} {completion : StreamCompletion}
    (h : Final history completion) (ha : history'.accepted = history.accepted)
    (he : history'.emitted = history.emitted) : Final history' completion :=
  ⟨by rw [ha, h.inputSamples], by rw [he, h.outputSamples], h.flushed, h.unflushed⟩

theorem Transcript.grows (h : Transcript capabilities st.history st.session.ended)
    (hg : Grows st st') : Transcript capabilities st'.history st'.session.ended := by
  obtain ⟨more, hmore⟩ := hg.emitted
  cases h with
  | nothing h => exact .nothing (hg.yielded.trans h)
  | running messages hsent h =>
      exact .running messages (hmore ▸ hsent.append more) (hg.yielded.trans h)
  | ended messages message completion hsent hall hended hfinal hmessage h =>
      obtain ⟨hended', hemitted, haccepted⟩ := hg.ended hended
      exact .ended messages message completion (by rw [hemitted]; exact hsent)
        (by rw [hemitted]; exact hall) hended' (hfinal.congr haccepted hemitted) hmessage
        (hg.yielded.trans h)

/-- A step of the reader or the scheduler, seen by the generator. -/
theorem Log.step (h : Log capabilities st) (hgen : st'.generatorSide = st.generatorSide)
    (hg : Grows st st')
    (hq : ∀ taken, taken ≤ st.history.emitted.length → Queue st taken → Queue st' taken) :
    Log capabilities st' where
  running := by
    intro hr
    have henhance : st'.enhance = st.enhance := congrArg GeneratorSide.enhance hgen
    have hsequence : st'.session.outputSequence = st.session.outputSequence :=
      congrArg GeneratorSide.outputSequence hgen
    obtain ⟨messages, hm⟩ := h.running (henhance ▸ hr)
    obtain ⟨more, hmore⟩ := hg.emitted
    refine ⟨messages, hg.yielded.trans hm.yielded, hmore ▸ hm.sent.append more, ?_,
      hq _ hm.sent.length_le hm.queue⟩
    rw [henhance, hsequence]
    exact hm.sequence
  transcript := h.transcript.grows hg

/-- The generator stops. -/
theorem Log.stop (h : Log capabilities st) (hy : st'.history = st.history)
    (he : st'.session.ended = st.session.ended) (hr : st'.enhance.running = false) :
    Log capabilities st' where
  running hr' := absurd (hr.symm.trans hr') Bool.false_ne_true
  transcript := by
    rw [hy, he]
    exact h.transcript

/-! ## The output queue -/

/-- The stream failed. -/
theorem Queue.failed {failure : ProtocolViolation} {taken : Nat}
    (h : st'.session.outputQueue.items = [.failure failure]) : Queue st' taken :=
  .inr ⟨failure, [], h⟩

/-- Nothing the queue depends on changed. -/
theorem Queue.same {taken : Nat} (h : Queue st taken)
    (hc : st'.session.cancelled = st.session.cancelled)
    (he : st'.session.ended = st.session.ended)
    (hq : st'.session.outputQueue = st.session.outputQueue)
    (hemitted : st'.history.emitted = st.history.emitted)
    (haccepted : st.session.ended = true → st'.history.accepted = st.history.accepted) :
    Queue st' taken := by
  obtain h | ⟨failure, rest, h⟩ := h
  · refine .inl ⟨hc.trans h.cancelled, ?_⟩
    rw [he, hq, hemitted]
    obtain h | ⟨hended, completion, hfinal, hitems⟩ := h.queue
    · exact .inl h
    · exact .inr ⟨hended, completion, hfinal.congr (haccepted hended) hemitted, hitems⟩
  · exact .inr ⟨failure, rest, by rw [hq, h]⟩

/-- A put after the clean audio of the queue. -/
theorem Queue.put {taken : Nat} (h : Queue st taken) {event : OutputEvent}
    (hq : st'.session.outputQueue.items = st.session.outputQueue.items ++ [event])
    (hclean : Clean st taken → Queue st' taken) : Queue st' taken := by
  obtain h | ⟨failure, rest, h⟩ := h
  · exact hclean h
  · exact .inr ⟨failure, rest ++ [event], by rw [hq, h, List.cons_append]⟩

/-- The stream completes or fails. -/
theorem Log.complete (h : Log capabilities st) (flushed : Bool) (m : Metrics)
    (hfinal : st.session.cancelled = false → st.session.ended = false →
      Final st.history ⟨st.session.inputSamples, st.session.outputSamples, flushed⟩) :
    Log capabilities (complete flushed st m).1 := by
  have hcompletes := complete_completes flushed st m
  generalize Server.complete flushed st m = next at hcompletes ⊢
  cases hcompletes with
  | already _ => exact h
  | queued q he hput =>
      obtain ⟨-, hitems, -⟩ := BoundedQueue.putNowait_eq_some hput
      refine h.step rfl ⟨rfl, List.prefix_refl _, fun _ => ⟨rfl, rfl, rfl⟩⟩ ?_
      intro taken _ hq
      refine hq.put hitems fun hclean => .inl ⟨hclean.cancelled, .inr ⟨rfl, _,
        hfinal hclean.cancelled he, ?_⟩⟩
      obtain ⟨-, hqueue⟩ | ⟨hended, -⟩ := hclean.queue
      · rw [hitems]
        exact congrArg (· ++ _) hqueue
      · exact absurd (he.symm.trans hended) nofun
  | full he _ =>
      exact h.step rfl ⟨rfl, List.prefix_refl _, fun hended => absurd (he.symm.trans hended) nofun⟩
        fun _ _ _ => .failed rfl

theorem Log.fail (h : Log capabilities st) (status : StatusCode) (detail : String) (m : Metrics) :
    Log capabilities (fail status detail st m).1 :=
  h.step rfl ⟨rfl, List.prefix_refl _, fun hended => ⟨hended, rfl, rfl⟩⟩ fun _ _ _ => .failed rfl

/-- The reader fails. -/
theorem Log.failReader (h : Log capabilities st) (hgen : st'.generatorSide = st.generatorSide)
    (hhistory : st'.history = st.history) (hended : st'.session.ended = st.session.ended)
    {failure : ProtocolViolation} (hq : st'.session.outputQueue.items = [.failure failure]) :
    Log capabilities st' := by
  refine h.step hgen ⟨by rw [hhistory], by rw [hhistory], fun he => ?_⟩ fun _ _ _ => .failed hq
  exact ⟨hended.trans he, by rw [hhistory], by rw [hhistory]⟩

/-- A step that leaves the queue and the emitted audio alone, and the accepted chunks too once
the stream has ended. -/
theorem Log.quiet (h : Log capabilities st) (hgen : st'.generatorSide = st.generatorSide)
    (hc : st'.session.cancelled = st.session.cancelled)
    (he : st'.session.ended = st.session.ended)
    (hq : st'.session.outputQueue = st.session.outputQueue)
    (hemitted : st'.history.emitted = st.history.emitted)
    (haccepted : st.session.ended = true → st'.history.accepted = st.history.accepted) :
    Log capabilities st' := by
  refine h.step hgen ⟨congrArg GeneratorSide.yielded hgen, by rw [hemitted], fun hended => ?_⟩
    fun taken _ hqueue => hqueue.same hc he hq hemitted haccepted
  exact ⟨he.trans hended, hemitted, haccepted hended⟩

/-- The scheduler emits the delayed hop of a live stream. -/
theorem Log.emits (h : Log capabilities st) (hended : st.session.ended = false)
    {audio : OutputAudio} {outputQueue : BoundedQueue OutputEvent}
    (hput : st.session.outputQueue.putNowait (.audio audio) = some outputQueue) :
    Log capabilities (st.emits audio outputQueue) := by
  obtain ⟨-, hitems, -⟩ := BoundedQueue.putNowait_eq_some hput
  refine h.step rfl ⟨rfl, List.prefix_append _ _, fun he => ?_⟩ fun taken htaken hq => ?_
  · exact absurd (hended.symm.trans he) Bool.false_ne_true
  · refine hq.put hitems fun hclean => .inl ⟨hclean.cancelled, .inl ⟨hended, ?_⟩⟩
    obtain ⟨-, hqueue⟩ | ⟨he, -⟩ := hclean.queue
    · change outputQueue.items = ((st.history.emitted ++ [audio]).drop taken).map .audio
      rw [hitems, hqueue, List.drop_append_of_le_length htaken, List.map_append, List.map_cons,
        List.map_nil]
    · exact absurd (hended.symm.trans he) Bool.false_ne_true

/-! ## The generator -/

/-- Taking an event out of the queue. -/
theorem Running.next (messages : List EnhancedAudio) (h : Running capabilities st messages)
    {event : OutputEvent} {q : BoundedQueue OutputEvent}
    (hget : st.session.outputQueue.getNowait = some (event, q)) :
    (∃ audio rest, event = .audio audio ∧
      st.history.emitted.drop messages.length = audio :: rest ∧
      Queue (st.withOutput q) (messages.length + 1)) ∨
    (∃ completion, event = .completion completion ∧ Final st.history completion ∧
      st.session.ended = true ∧ messages.length = st.history.emitted.length) ∨
    ∃ failure, event = .failure failure := by
  obtain ⟨hitems, -⟩ := BoundedQueue.getNowait_eq_some hget
  have hle := h.sent.length_le
  obtain hclean | ⟨failure, rest, hq⟩ := h.queue
  · cases hdrop : st.history.emitted.drop messages.length with
    | nil =>
        obtain ⟨-, hq⟩ | ⟨hended, completion, hfinal, hq⟩ := hclean.queue
        · rw [hdrop, hitems] at hq
          cases hq
        · rw [hdrop, hitems] at hq
          obtain ⟨hevent, -⟩ := List.cons.inj hq
          have hlen := List.drop_eq_nil_iff.mp hdrop
          exact .inr (.inl ⟨completion, hevent, hfinal, hended, by omega⟩)
    | cons audio rest =>
        have hrest : st.history.emitted.drop (messages.length + 1) = rest := by
          rw [← List.drop_drop, hdrop, List.drop_one, List.tail_cons]
        have hqueue := hclean.queue
        rw [hdrop, hitems, List.map_cons] at hqueue
        have hevent : event = .audio audio := by
          obtain ⟨-, hq⟩ | ⟨-, _, -, hq⟩ := hqueue
          · exact (List.cons.inj hq).1
          · exact (List.cons.inj hq).1
        refine .inl ⟨audio, rest, hevent, rfl, .inl ⟨hclean.cancelled, ?_⟩⟩
        change (st.session.ended = false ∧ q.items =
          (st.history.emitted.drop (messages.length + 1)).map .audio) ∨
          (st.session.ended = true ∧ ∃ completion, Final st.history completion ∧ q.items =
            (st.history.emitted.drop (messages.length + 1)).map .audio ++ [.completion completion])
        rw [hrest]
        obtain ⟨hended, hq⟩ | ⟨hended, completion, hfinal, hq⟩ := hqueue
        · exact .inl ⟨hended, (List.cons.inj hq).2⟩
        · exact .inr ⟨hended, completion, hfinal, (List.cons.inj hq).2⟩
  · rw [hitems] at hq
    exact .inr (.inr ⟨failure, (List.cons.inj hq).1⟩)

theorem enhancedAudio?_spec {outputSequence : Nat} {event : OutputAudio} {message : EnhancedAudio}
    (h : enhancedAudio? outputSequence event = some message) :
    message.event = event ∧ message.outputSequence.toNat = outputSequence := by
  unfold enhancedAudio? at h
  simp only [Option.bind_eq_bind, Option.bind_eq_some_iff, Option.pure_def,
    Option.some.injEq] at h
  obtain ⟨u, hu, v, hv, w, hw, rfl⟩ := h
  exact ⟨by rw [EnhancedAudio.event, toUInt64?_eq_some hv, toUInt32?_eq_some hw],
    toUInt64?_eq_some hu⟩

theorem streamEnded?_spec {completion : StreamCompletion} {message : StreamEnded}
    (h : streamEnded? completion = some message) :
    message.inputSamples.toNat = completion.inputSamples ∧
      message.outputSamples.toNat = completion.outputSamples ∧
      message.flushed = completion.flushed := by
  unfold streamEnded? at h
  simp only [Option.bind_eq_bind, Option.bind_eq_some_iff, Option.pure_def,
    Option.some.injEq] at h
  obtain ⟨u, hu, v, hv, rfl⟩ := h
  exact ⟨toUInt64?_eq_some hu, toUInt64?_eq_some hv, rfl⟩

theorem Log.handle (h : Log capabilities st) (he : st.enhance = .waiting) {event : OutputEvent}
    {q : BoundedQueue OutputEvent} {m m' : Metrics}
    (hget : st.session.outputQueue.getNowait = some (event, q))
    (hh : handleEvent event (st.withOutput q) m = (some st', m')) : Log capabilities st' := by
  obtain ⟨messages, hm⟩ := h.running (by rw [he]; rfl)
  obtain ⟨audio, rest, rfl, hdrop, hqueue⟩ | ⟨completion, rfl, hfinal, hended, hall⟩ |
    ⟨failure, rfl⟩ := hm.next messages hget
  · simp only [handleEvent, Prod.mk.injEq, Option.map_eq_some_iff] at hh
    obtain ⟨⟨message, hmessage, rfl⟩, -⟩ := hh
    obtain ⟨hevent, hsequence⟩ := enhancedAudio?_spec hmessage
    have hseq := hm.sequence
    rw [he, if_neg (by rintro ⟨⟩)] at hseq
    have hsent : Sent st.history.emitted (messages ++ [message]) :=
      hm.sent.snoc (by rw [hdrop, hevent]) (hsequence.trans hseq)
    have hyielded : st.history.yielded ++ [.audio message] =
        .accepted capabilities :: (messages ++ [message]).map .audio := by
      rw [hm.yielded, List.map_append]
      rfl
    refine ⟨fun _ => ⟨messages ++ [message], hyielded, hsent, ?_, ?_⟩,
      .running _ hsent hyielded⟩
    · simp [Stream.yields, Stream.withOutput, hseq]
    · rw [List.length_append, List.length_singleton]
      exact hqueue.same rfl rfl rfl rfl fun _ => rfl
  · simp only [handleEvent, Prod.mk.injEq, Option.map_eq_some_iff] at hh
    obtain ⟨⟨message, hmessage, rfl⟩, -⟩ := hh
    refine ⟨by rintro ⟨⟩, .ended messages message completion hm.sent hall hended ?_ hmessage ?_⟩
    · exact hfinal.congr rfl rfl
    · change st.history.yielded ++ [.ended message] = _
      rw [hm.yielded]
  · simp only [handleEvent, Prod.mk.injEq, Option.some.injEq] at hh
    obtain ⟨rfl, -⟩ := hh
    exact h.stop rfl rfl rfl

theorem Log.afterAccepted (h : Log capabilities st) (he : st.enhance = .accepted) (m : Metrics) :
    Log capabilities (afterAccepted st m).1 where
  running _ := by
    obtain ⟨messages, hm⟩ := h.running (by rw [he]; rfl)
    have hseq := hm.sequence
    rw [he, if_neg nofun] at hseq
    exact ⟨messages, hm.yielded, hm.sent, hseq, hm.queue.same rfl rfl rfl rfl fun _ => rfl⟩
  transcript := h.transcript

theorem Log.afterAudio (h : Log capabilities st) (he : st.enhance = .audio) (m : Metrics) :
    Log capabilities (afterAudio st m).1 where
  running _ := by
    obtain ⟨messages, hm⟩ := h.running (by rw [he]; rfl)
    have hseq := hm.sequence
    rw [he, if_pos rfl] at hseq
    exact ⟨messages, hm.yielded, hm.sent, hseq, hm.queue.same rfl rfl rfl rfl fun _ => rfl⟩
  transcript := h.transcript

end Log

end VoxLattice.Server
