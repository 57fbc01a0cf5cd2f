import VoxLattice.Server.Slicing
import VoxLattice.Server.Sources

/-!
# Offsets and the wire format

A client chooses the offset its stream starts at, and the offsets of the output count on from
there.  The server counts in unbounded integers and checks the range nowhere; the messages have
`uint64` fields.  The offset that matters is that of the last hop of the accepted audio
(`lastOffset`): while it fits, every offset does, and once all of the audio is emitted, one
offset is too large if it is (`output_offsets_fit`).
-/

namespace VoxLattice.Server

open Intervals Samples

variable {κ : Type*} {settings : ServerSettings} {model : StreamingModel κ} {s : ServerState κ}
  {i : Nat} {st : Stream κ}

/-- Where the last hop of some samples starts. -/
def lastOffset (start samples : Nat) : Nat := start + hopSamples * ((samples - 1) / hopSamples)

/-- A hop of the given length that starts at a multiple of 256, within the samples. -/
theorem offset_le {k samples : Nat} (h : hopSamples * k < samples) (start : Nat) :
    start + hopSamples * k ≤ lastOffset start samples := by
  have hle : k ≤ (samples - 1) / hopSamples :=
    (Nat.le_div_iff_mul_le (by decide)).mpr (by rw [Nat.mul_comm]; omega)
  exact Nat.add_le_add_left (Nat.mul_le_mul_left hopSamples hle) start

/-- A hop that ends where the samples do is the last one. -/
theorem offset_eq {k n samples : Nat} (hn : 0 < n) (hle : n ≤ hopSamples)
    (h : hopSamples * k + n = samples) (start : Nat) :
    start + hopSamples * k = lastOffset start samples := by
  have hlast : (samples - 1) / hopSamples = k := by
    rw [← h, Nat.add_sub_assoc hn, Nat.mul_add_div (by decide), Nat.div_eq_of_lt (by omega),
      Nat.add_zero]
  rw [lastOffset, hlast]

/-- The hops start at multiples of 256, within the accepted samples. -/
theorem Sliced.start_eq (h : Sliced st) {hop : SourceHop} (hmem : hop ∈ st.history.hops) :
    ∃ k, hop.startSample = st.session.inputStartSample + hopSamples * k ∧
      hopSamples * k < total AudioChunk.samples st.history.accepted := by
  have hfull : ∀ hop ∈ hopsOf st.session.inputStartSample (pcmOf st.history.accepted),
      ∃ k, hop.startSample = st.session.inputStartSample + hopSamples * k ∧
        hopSamples * k < total AudioChunk.samples st.history.accepted := by
    intro hop hmem
    obtain ⟨k, hk, rfl⟩ := List.mem_map.mp hmem
    refine ⟨k, rfl, ?_⟩
    rw [← pcmOf_length]
    have hlt := (Nat.le_div_iff_mul_le (by decide)).mp (Nat.succ_le_of_lt (List.mem_range.mp hk))
    rw [Nat.succ_mul, Nat.mul_comm] at hlt
    exact Nat.lt_of_lt_of_le (Nat.lt_add_of_pos_right (by decide)) hlt
  rcases h with hhops | ⟨last, hlast, hhops⟩
  · rw [hhops] at hmem
    exact hfull hop hmem
  · rw [hhops] at hmem
    rcases List.mem_append.mp hmem with hbefore | hend
    · exact hfull hop hbefore
    · obtain rfl := List.mem_singleton.mp hend
      rw [remainder?] at hlast
      split at hlast
      · cases hlast
      · next hleft =>
          obtain rfl := Option.some.inj hlast
          refine ⟨_, rfl, ?_⟩
          have hpos := List.length_pos_iff.mpr hleft
          rw [leftOver_length] at hpos
          rw [← pcmOf_length]
          have hdiv := Nat.div_add_mod (pcmOf st.history.accepted).length hopSamples
          omega

/-- Emitted audio starts where a hop does and is no longer. -/
theorem emitted_hop (hmodel : model.RowPerStream) (h : (system settings model).Reachable s)
    (hst : s.streams[i]? = some st) {audio : OutputAudio} (hmem : audio ∈ st.history.emitted) :
    ∃ k, audio.startSample = st.session.inputStartSample + hopSamples * k ∧
      hopSamples * k < total AudioChunk.samples st.history.accepted ∧
      audio.validSamples ≤ hopSamples := by
  have hemitted := (reachable_sourced hmodel h hst).emitted
  obtain ⟨hop, hhop, heq⟩ := List.mem_map.mp (hemitted.subset (List.mem_map_of_mem hmem))
  obtain ⟨hstart, hvalid⟩ := Prod.mk.inj heq
  obtain ⟨k, hk, hlt⟩ := (reachable_sliced h hst).start_eq hhop
  exact ⟨k, hstart ▸ hk, hlt, hvalid ▸ ((reachable_intake h hst).shape hop hhop).2⟩

/-- The generator takes the emitted audio in order and counts what it has sent. -/
theorem next_drop (hmodel : model.RowPerStream) (h : (system settings model).Reachable s)
    (hst : s.streams[i]? = some st) (hwaiting : st.enhance = .waiting) {audio : OutputAudio}
    {q : BoundedQueue OutputEvent}
    (hnext : st.session.outputQueue.getNowait = some (.audio audio, q)) :
    ∃ rest, st.history.emitted.drop st.session.outputSequence = audio :: rest := by
  obtain ⟨-, -, -, hlog⟩ := reachable_stream hmodel.delivers (fun _ _ => trivial)
    (ledger_invariant settings model) h hst
  obtain ⟨messages, hrunning⟩ := hlog.running (by rw [hwaiting]; rfl)
  have hsequence : st.session.outputSequence = messages.length := by
    rw [← hrunning.sequence, if_neg (by rw [hwaiting]; rintro ⟨⟩)]
  have hitems := (BoundedQueue.getNowait_eq_some hnext).1
  rw [hsequence]
  rcases hrunning.queue with hclean | ⟨failure, rest, hfailed⟩
  · cases hdrop : st.history.emitted.drop messages.length with
    | nil =>
        rcases hclean.queue with ⟨-, hqueue⟩ | ⟨-, completion, -, hqueue⟩
        · rw [hdrop, hitems] at hqueue
          cases hqueue
        · rw [hdrop, hitems] at hqueue
          cases (List.cons.inj hqueue).1
    | cons first rest =>
        have hfirst : OutputEvent.audio audio = .audio first := by
          rcases hclean.queue with ⟨-, hqueue⟩ | ⟨-, completion, -, hqueue⟩
          · rw [hdrop, hitems] at hqueue
            exact (List.cons.inj hqueue).1
          · rw [hdrop, hitems] at hqueue
            exact (List.cons.inj hqueue).1
        exact ⟨rest, by rw [OutputEvent.audio.inj hfirst]⟩
  · rw [hitems] at hfailed
    cases (List.cons.inj hfailed).1

/-- The event a generator takes next is one the scheduler emitted. -/
theorem next_emitted (hmodel : model.RowPerStream) (h : (system settings model).Reachable s)
    (hst : s.streams[i]? = some st) (hwaiting : st.enhance = .waiting) {audio : OutputAudio}
    {q : BoundedQueue OutputEvent}
    (hnext : st.session.outputQueue.getNowait = some (.audio audio, q)) :
    audio ∈ st.history.emitted := by
  obtain ⟨rest, hdrop⟩ := next_drop hmodel h hst hwaiting hnext
  exact List.mem_of_mem_drop (hdrop ▸ List.mem_cons_self)

/-- The audio that was emitted last starts at the last offset, once all that was accepted is
emitted. -/
theorem last_emitted (hmodel : model.RowPerStream) (h : (system settings model).Reachable s)
    (hst : s.streams[i]? = some st)
    (hall : total OutputAudio.validSamples st.history.emitted =
      total AudioChunk.samples st.history.accepted)
    (hpos : 0 < total AudioChunk.samples st.history.accepted) :
    ∃ audio ∈ st.history.emitted, audio.startSample =
      lastOffset st.session.inputStartSample (total AudioChunk.samples st.history.accepted) := by
  have htiles := (reachable_stream hmodel.delivers (fun _ _ => trivial)
    (ledger_invariant settings model) h hst).2.outputs.tiles
  rcases List.eq_nil_or_concat' st.history.emitted with hnil | ⟨before, audio, hlast⟩
  · rw [hnil, total_nil] at hall
    omega
  · have hmem : audio ∈ st.history.emitted := by
      rw [hlast]
      exact List.mem_append_right _ (List.mem_singleton_self audio)
    obtain ⟨k, hk, -, hle⟩ := emitted_hop hmodel h hst hmem
    rw [hlast] at htiles hall
    obtain ⟨-, hstart, hvalid, -⟩ := tiles_append.mp htiles
    rw [total_append, total_cons, total_nil] at hall
    refine ⟨audio, hmem, hk.trans (offset_eq hvalid hle ?_ _)⟩
    omega

/-- While the last hop of the accepted audio starts below `2 ^ 64`, every emitted offset fits
its field, and the generator can build its next message.  Once all accepted audio is emitted,
the offsets fit only then. -/
theorem output_offsets_fit (hmodel : model.RowPerStream) (h : (system settings model).Reachable s)
    (hst : s.streams[i]? = some st) :
    (lastOffset st.session.inputStartSample (total AudioChunk.samples st.history.accepted) <
        2 ^ 64 →
      (∀ audio ∈ st.history.emitted, audio.startSample < 2 ^ 64) ∧
      ∀ audio q, st.enhance = .waiting →
        st.session.outputQueue.getNowait = some (.audio audio, q) →
        (toUInt64? audio.startSample).isSome = true) ∧
    (total OutputAudio.validSamples st.history.emitted =
        total AudioChunk.samples st.history.accepted →
      0 < total AudioChunk.samples st.history.accepted →
      ((∀ audio ∈ st.history.emitted, audio.startSample < 2 ^ 64) ↔
        lastOffset st.session.inputStartSample (total AudioChunk.samples st.history.accepted) <
          2 ^ 64)) := by
  have hfit (hlast : lastOffset st.session.inputStartSample
      (total AudioChunk.samples st.history.accepted) < 2 ^ 64) :
      ∀ audio ∈ st.history.emitted, audio.startSample < 2 ^ 64 := by
    intro audio hmem
    obtain ⟨k, hk, hlt, -⟩ := emitted_hop hmodel h hst hmem
    exact hk ▸ (offset_le hlt _).trans_lt hlast
  refine ⟨fun hlast => ⟨hfit hlast, fun audio q hwaiting hnext => ?_⟩, fun hall hpos =>
    ⟨fun hevery => ?_, hfit⟩⟩
  · rw [toUInt64?, if_pos (hfit hlast audio (next_emitted hmodel h hst hwaiting hnext))]
    rfl
  · obtain ⟨audio, hmem, hstart⟩ := last_emitted hmodel h hst hall hpos
    exact hstart ▸ hevery audio hmem

/-! ## The audio before the last -/

/-- Every hop of the accepted audio that is not the last starts below `2 ^ 64`. -/
def Stream.OffsetsFit (st : Stream κ) : Prop :=
  ∀ k, hopSamples * (k + 1) < total AudioChunk.samples st.history.accepted →
    st.session.inputStartSample + hopSamples * k < 2 ^ 64

theorem Stream.OffsetsFit.of_le {st' : Stream κ} (h : st'.OffsetsFit)
    (hstart : st'.session.inputStartSample = st.session.inputStartSample)
    (hle : total AudioChunk.samples st.history.accepted ≤
      total AudioChunk.samples st'.history.accepted) : st.OffsetsFit := fun k hk =>
  hstart ▸ h k (hk.trans_le hle)

/-- Protobuf refuses an audio message for its offset only. -/
theorem next_refused (hmodel : model.RowPerStream) (h : (system settings model).Reachable s)
    (hst : s.streams[i]? = some st) (hwaiting : st.enhance = .waiting) {audio : OutputAudio}
    {q : BoundedQueue OutputEvent}
    (hnext : st.session.outputQueue.getNowait = some (.audio audio, q))
    (hrefused : enhancedAudio? st.session.outputSequence audio = none) :
    2 ^ 64 ≤ audio.startSample := by
  by_contra hstart
  rw [Nat.not_le] at hstart
  obtain ⟨rest, hdrop⟩ := next_drop hmodel h hst hwaiting hnext
  have hemitted := next_emitted hmodel h hst hwaiting hnext
  -- the samples before the audio are at least as many as the messages sent
  have hsequence : st.session.outputSequence ≤ audio.startSample := by
    have htiles := (reachable_stream hmodel.delivers (fun _ _ => trivial)
      (ledger_invariant settings model) h hst).2.outputs.tiles
    rw [← List.take_append_drop st.session.outputSequence st.history.emitted, hdrop] at htiles
    have hcount := (tiles_append.mp htiles).1.length_le_total
    have hlength := congrArg List.length hdrop
    rw [List.length_drop, List.length_cons] at hlength
    rw [List.length_take] at hcount
    rw [htiles.start_eq]
    omega
  obtain ⟨-, -, -, hvalid⟩ := emitted_hop hmodel h hst hemitted
  have hhop : hopSamples < 2 ^ 32 := by decide
  rw [enhancedAudio?, toUInt64?, toUInt64?, toUInt32?, if_pos (hsequence.trans_lt hstart),
    if_pos hstart, if_pos (hvalid.trans_lt hhop)] at hrefused
  cases hrefused

/-- A live stream is one hop behind: after each emitted audio comes another hop. -/
theorem emitted_behind (hmodel : model.RowPerStream) (h : (system settings model).Reachable s)
    (hst : s.streams[i]? = some st) (ha : st.Alive) {audio : OutputAudio}
    (hmem : audio ∈ st.history.emitted) :
    ∃ k, audio.startSample = st.session.inputStartSample + hopSamples * k ∧
      hopSamples * (k + 1) < total AudioChunk.samples st.history.accepted := by
  obtain ⟨⟨hintake, hbacklog⟩, houtputs, -, -⟩ := reachable_stream hmodel.delivers
    (fun _ _ => trivial) (ledger_invariant settings model) h hst
  obtain ⟨before, after, last, hw⟩ := hbacklog.working ha.cancelled ha.ended
  have hdelayed := houtputs.delayed ha before hw.applied
  obtain ⟨hop, hhop, heq⟩ := List.mem_map.mp (hdelayed ▸ List.mem_map_of_mem hmem)
  obtain ⟨hstart, -⟩ := Prod.mk.inj heq
  rcases List.eq_nil_or_concat' before with rfl | ⟨init, final, rfl⟩
  · cases hhop
  · rw [List.dropLast_concat] at hhop
    have htiles := hintake.tiles
    rw [hw.hops, List.append_assoc, List.append_assoc, List.singleton_append] at htiles
    obtain ⟨-, hend, hpos⟩ := (tiles_append.mp htiles).1.mem_bounds hhop
    have hfinal := htiles.start_eq
    have hsliced := reachable_sliced h hst
    have hin : hop ∈ st.history.hops := by simp [hw.hops, hhop]
    have hlast : final ∈ st.history.hops := by simp [hw.hops]
    obtain ⟨k, hk, -⟩ := hsliced.start_eq hin
    obtain ⟨k', hk', hlt⟩ := hsliced.start_eq hlast
    have hless : hopSamples * k < hopSamples * k' := by omega
    have hsucc := Nat.mul_le_mul_left hopSamples (Nat.lt_of_mul_lt_mul_left hless)
    exact ⟨k, hstart ▸ hk, hsucc.trans_lt hlt⟩

/-- What the generator of a stream has taken fits.  With nothing in the output queue, that is all
that was emitted. -/
theorem drained_fits {capabilities : StreamAccepted} (hlog : Log capabilities st)
    (hrun : st.enhance.running = true) (hempty : st.session.outputQueue.items = []) :
    ∀ audio ∈ st.history.emitted, audio.startSample < 2 ^ 64 := by
  obtain ⟨messages, hrunning⟩ := hlog.running hrun
  have hdrop : st.history.emitted.drop messages.length = [] := by
    rcases hrunning.queue with hclean | ⟨failure, rest, hfailed⟩
    · rcases hclean.queue with ⟨-, hqueue⟩ | ⟨-, completion, -, hqueue⟩
      · exact List.map_eq_nil_iff.mp (hqueue.symm.trans hempty)
      · rw [hempty] at hqueue
        simp at hqueue
    · rw [hempty] at hfailed
      cases hfailed
  intro audio hmem
  rw [← List.take_append_drop messages.length st.history.emitted, hdrop, List.append_nil,
    ← hrunning.sent.events] at hmem
  obtain ⟨message, -, rfl⟩ := List.mem_map.mp hmem
  exact UInt64.toNat_lt _

/-- A stream that has just completed with a flush has emitted all that was accepted. -/
theorem flushed_total {capabilities : StreamAccepted} (hlog : Log capabilities st)
    (hrun : st.enhance.running = true)
    (hclean : ∀ failure, .failure failure ∉ st.session.outputQueue.items)
    (hflushed : st.Flushed) : total OutputAudio.validSamples st.history.emitted =
      total AudioChunk.samples st.history.accepted := by
  obtain ⟨messages, hrunning⟩ := hlog.running hrun
  rcases hflushed with ⟨completion, hmem, hflush⟩ | ⟨ended, hmem, -⟩
  · rcases hrunning.queue with hqueue | ⟨failure, rest, hfailed⟩
    · rcases hqueue.queue with ⟨-, hqueue⟩ | ⟨-, completion', hfinal, hqueue⟩
      · rw [hqueue, List.mem_map] at hmem
        obtain ⟨_, -, ⟨⟩⟩ := hmem
      · rw [hqueue, List.mem_append, List.mem_map, List.mem_singleton] at hmem
        obtain ⟨_, -, ⟨⟩⟩ | hmem := hmem
        obtain rfl := OutputEvent.completion.inj hmem
        rw [← hfinal.outputSamples, ← hfinal.inputSamples, hfinal.flushed hflush]
    · exact absurd (hfailed ▸ List.mem_cons_self) (hclean failure)
  · rw [hrunning.yielded] at hmem
    simp at hmem

/-- Once all of the accepted audio is emitted, its offsets fit if those of the audio before the
last do. -/
theorem offsetsFit_of_emitted (hmodel : model.RowPerStream)
    (h : (system settings model).Reachable s) (hst : s.streams[i]? = some st)
    (hall : total OutputAudio.validSamples st.history.emitted =
      total AudioChunk.samples st.history.accepted)
    (hfit : ∀ audio ∈ st.history.emitted.dropLast, audio.startSample < 2 ^ 64) :
    st.OffsetsFit := by
  intro k hk
  rw [← hall] at hk
  have htiles := (reachable_stream hmodel.delivers (fun _ _ => trivial)
    (ledger_invariant settings model) h hst).2.outputs.tiles
  rcases List.eq_nil_or_concat' st.history.emitted with hnil | ⟨before, audio, hlast⟩
  · rw [hnil, total_nil] at hk
    omega
  · have hin : audio ∈ st.history.emitted := by simp [hlast]
    obtain ⟨n, hn, -, hvalid⟩ := emitted_hop hmodel h hst hin
    rw [hlast, total_append, total_cons, total_nil] at hk
    rw [hlast] at htiles hfit
    rw [List.dropLast_concat] at hfit
    have hstart := htiles.start_eq
    -- the last audio starts at the `n`-th hop, which comes after the `k`-th
    rcases List.eq_nil_or_concat' before with rfl | ⟨init, previous, rfl⟩
    · rw [total_nil] at hk hstart
      simp only [hopSamples] at hk hvalid
      omega
    · have hprevious := hfit previous (by simp)
      have hin' : previous ∈ st.history.emitted := by simp [hlast]
      obtain ⟨n', hn', -, hvalid'⟩ := emitted_hop hmodel h hst hin'
      rw [List.append_assoc, List.singleton_append] at htiles
      have hstart' := htiles.start_eq
      rw [total_append, total_cons, total_nil] at hk hstart
      simp only [hopSamples] at hk hn hn' hvalid hvalid' ⊢
      omega

/-- A flushed stream of 300 samples from offset 100. -/
theorem output_offsets_fit_flushed :
    ∃ (s : ServerState Unit) (st : Stream Unit), s.streams[0]? = some st ∧
      0 < st.history.emitted.length ∧ ∀ audio ∈ st.history.emitted, audio.startSample < 2 ^ 64 := by
  obtain ⟨s, -, hr, hp⟩ := Lts.System.Reachable.of_run (system .defaults silenceModel)
    flushedStream (fun s => s.streams[0]?.any fun (st : Stream Unit) =>
      decide (0 < st.history.emitted.length ∧ lastOffset st.session.inputStartSample
        (total AudioChunk.samples st.history.accepted) < 2 ^ 64))
    (by decide +kernel) (by decide +kernel)
  cases hst : s.streams[0]? with
  | none => simp [hst] at hp
  | some st =>
      rw [hst, Option.any_some, decide_eq_true_eq] at hp
      exact ⟨s, st, hst, hp.1,
        ((output_offsets_fit silenceModel_rowPerStream hr hst).1 hp.2).1⟩

/-- The audio event of an output queue, if it is one. -/
def OutputEvent.audio? : OutputEvent → Option OutputAudio
  | .audio output => some output
  | _ => none

/-- Two hops from the last offset a hop fits at, flushed. -/
def overflowingStream : List (Event Unit) :=
  let batch : List (Event Unit) :=
    [.gather, .dispatch, .inferenceReturned [List.replicate hopSamples 0] [()]]
  [.enhance (testStart "a" 18446744073709551360), .resume 0,
    .deliver 0 (testAudio 0 18446744073709551360 512), .put 0, .put 0,
    .deliver 0 (.endStream true), .put 0] ++ batch ++ batch ++ [.resume 0, .resume 0] ++ batch

/-- The second hop of that stream starts at `2 ^ 64`.  It is emitted, and the generator cannot
build its message. -/
theorem output_offset_overflows :
    ∃ (s : ServerState Unit) (st : Stream Unit) (audio : OutputAudio)
      (q : BoundedQueue OutputEvent),
      (system .defaults silenceModel).Reachable s ∧ s.streams[0]? = some st ∧
      audio ∈ st.history.emitted ∧ audio.startSample = 2 ^ 64 ∧ st.enhance = .waiting ∧
      st.session.outputQueue.getNowait = some (.audio audio, q) ∧
      enhancedAudio? st.session.outputSequence audio = none := by
  obtain ⟨s, -, hr, hp⟩ := Lts.System.Reachable.of_run (system .defaults silenceModel)
    overflowingStream (fun s => s.streams[0]?.any fun (st : Stream Unit) =>
      decide (st.enhance = .waiting) && st.session.outputQueue.getNowait.any fun next =>
        next.1.audio?.any fun audio => decide (audio.startSample = 2 ^ 64) &&
          (enhancedAudio? st.session.outputSequence audio).isNone)
    (by decide +kernel) (by decide +kernel)
  cases hst : s.streams[0]? with
  | none => simp [hst] at hp
  | some st =>
      rw [hst, Option.any_some, Bool.and_eq_true, decide_eq_true_eq] at hp
      obtain ⟨hwaiting, hp⟩ := hp
      cases hget : st.session.outputQueue.getNowait with
      | none =>
          rw [hget] at hp
          cases hp
      | some next =>
          obtain ⟨event, q⟩ := next
          rw [hget, Option.any_some] at hp
          cases event with
          | audio audio =>
              rw [OutputEvent.audio?, Option.any_some, Bool.and_eq_true, decide_eq_true_eq,
                Option.isNone_iff_eq_none] at hp
              exact ⟨s, st, audio, q, hr, hst,
                next_emitted silenceModel_rowPerStream hr hst hwaiting hget, hp.1, hwaiting, hget,
                hp.2⟩
          | completion completion => cases hp
          | failure failure => cases hp

end VoxLattice.Server
