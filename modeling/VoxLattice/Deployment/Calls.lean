import Mathlib.Logic.Function.Basic
import VoxLattice.Plugin.Callbacks
import VoxLattice.Server.Sources

/-!
# The plugin and the server

A plugin and a server, with the calls of `Enhance` between them.

*Calls.*  A call has the request iterator of its generation at one end and, once its first
message has passed the checks, a stream of the server at the other.  gRPC delivers the messages
of each direction in order: a `Link` counts how many of the messages the iterator has yielded
have reached the server, and how many of those the generator has yielded have reached
`_run_generation`.  A message may take any time, and need not arrive at all.

*Disconnection.*  Either end may learn at any time that the call is over, whatever the other end
knows: the steps by which the two learn of it are steps of the plugin and of the server alone.

*The rest of the world.*  The server has other clients, which may send anything.  The server
answers `GetCapabilities` with what it says of itself in `StreamAccepted`.
-/

namespace VoxLattice

open Server (AudioChunk ClientMessage ServerMessage ServerSettings ServerState Stream
  StreamAccepted StreamingModel capabilities)
open Plugin (PluginEvent PluginState RemoteFastEnhancerConfig RequestIterator chunks)

/-! ## The system -/

/-- A call, between its two ends. -/
structure Link where
  /-- The stream the server has opened for the call. -/
  stream : Option Nat
  /-- The messages of the iterator that have reached the server. -/
  delivered : Nat
  /-- The messages of the generator that have reached the plugin. -/
  received : Nat
deriving DecidableEq

/-- One more message of the generator reaches the plugin. -/
def Link.receive (link : Link) : Link := { link with received := link.received + 1 }

/-- A plugin and a server. -/
structure Deployment (κ : Type*) where
  plugin : PluginState
  server : ServerState κ
  /-- The calls, by the numbers of their iterators. -/
  links : Nat → Link

inductive DeploymentEvent (κ : Type*) where
  /-- A step of the plugin that is not about a message of the server. -/
  | plugin (event : PluginEvent)
  /-- A step of the server that is not about a message of the plugin. -/
  | server (event : Server.Event κ)
  /-- The first message of a call reaches the server. -/
  | connect (k : Nat)
  /-- The next message of a call reaches its reader. -/
  | deliver (k : Nat)
  /-- The next message of the server reaches `_run_generation`. -/
  | respond

namespace Deployment

variable {κ : Type*}

def init (config : RemoteFastEnhancerConfig) (settings : ServerSettings) : Deployment κ where
  plugin := .init config
  server := .init settings
  links _ := ⟨none, 0, 0⟩

/-- The number of the iterator of the current generation. -/
def current (d : Deployment κ) : Nat := d.plugin.worker.generation - 1

/-- A message that an iterator has yielded. -/
def sent (k n : Nat) (d : Deployment κ) : Option ClientMessage :=
  d.plugin.worker.iterators[k]?.bind fun it => it.yielded[n]?

/-- The message of the server that reaches `_run_generation` next. -/
def answer (d : Deployment κ) : Option ServerMessage :=
  match (d.links d.current).stream with
  | some j => d.server.streams[j]?.bind fun st => st.history.yielded[(d.links d.current).received]?
  | none => none

/-- A link changes. -/
def setLink (k : Nat) (link : Link) (d : Deployment κ) : Deployment κ :=
  { d with links := Function.update d.links k link }

/-- The stream that a call adds, if it adds one. -/
def opened (server server' : ServerState κ) : Option Nat :=
  if server.streams.length < server'.streams.length then some server.streams.length else none

/-- The effect of an event. -/
def step (config : RemoteFastEnhancerConfig) (settings : ServerSettings) (model : StreamingModel κ)
    (d : Deployment κ) : DeploymentEvent κ → Option (Deployment κ)
  | .plugin event => (d.plugin.step config event).map fun plugin => { d with plugin }
  | .server event => (Server.step settings model d.server event).map fun server => { d with server }
  | .connect k =>
    match d.links k, d.sent k 0 with
    | ⟨none, 0, received⟩, some first =>
      let server := Server.enhance settings model first d.server
      some ({ d with server }.setLink k ⟨opened d.server server, 1, received⟩)
    | _, _ => none
  | .deliver k =>
    match d.links k with
    | ⟨some j, delivered, received⟩ =>
      match d.sent k delivered with
      | some message =>
        (Server.step settings model d.server (.deliver j message)).map fun server =>
          { d with server }.setLink k ⟨some j, delivered + 1, received⟩
      | none => none
    | _ => none
  | .respond =>
    match d.answer with
    | some message =>
      (d.plugin.step config (.worker (.response message))).map fun plugin =>
        { d with plugin }.setLink d.current (d.links d.current).receive
    | none => none

/-- No call of the plugin has this stream. -/
def Foreign (d : Deployment κ) (j : Nat) : Prop :=
  ∀ k < d.plugin.worker.generation, (d.links k).stream ≠ some j

/-- The messages between the plugin and the server come from the two. -/
def allows (settings : ServerSettings) (model : StreamingModel κ) (d : Deployment κ) :
    DeploymentEvent κ → Prop
  | .plugin (.worker (.response _)) => False
  | .plugin (.worker (.ready (.capabilities accepted))) => accepted = capabilities settings model
  | .plugin event => d.plugin.allows event
  | .server (.deliver j _) => d.Foreign j
  | .server event => Server.allows model d.server event
  | .connect _ | .deliver _ | .respond => True

instance (d : Deployment κ) (j : Nat) : Decidable (d.Foreign j) :=
  inferInstanceAs (Decidable (∀ k < d.plugin.worker.generation, (d.links k).stream ≠ some j))

instance (settings : ServerSettings) (model : StreamingModel κ) [∀ hops caches wav updated,
    Decidable (model.returns hops caches wav updated)] (d : Deployment κ)
    (e : DeploymentEvent κ) : Decidable (allows settings model d e) := by
  unfold allows
  split <;> infer_instance

end Deployment

/-- A plugin and a server as a transition system. -/
def deployment {κ : Type*} (config : RemoteFastEnhancerConfig) (settings : ServerSettings)
    (model : StreamingModel κ) : Lts.System (Deployment κ) (DeploymentEvent κ) where
  init := .init config settings
  step := Deployment.step config settings model
  allows := Deployment.allows settings model

instance {κ : Type*} (config : RemoteFastEnhancerConfig) (settings : ServerSettings)
    (model : StreamingModel κ) [∀ hops caches wav updated,
    Decidable (model.returns hops caches wav updated)] (d : Deployment κ)
    (e : DeploymentEvent κ) : Decidable ((deployment config settings model).allows d e) :=
  inferInstanceAs (Decidable (Deployment.allows settings model d e))

namespace Deployment

variable {κ : Type*} {config : RemoteFastEnhancerConfig} {settings : ServerSettings}
  {model : StreamingModel κ} {d d' : Deployment κ} {e : DeploymentEvent κ}

/-- What a step does. -/
inductive Effect (config : RemoteFastEnhancerConfig) (settings : ServerSettings)
    (model : StreamingModel κ) (d : Deployment κ) : Deployment κ → Prop where
  | plugin (event plugin) (hs : (Plugin.pluginSystem config).Step d.plugin event plugin)
      (hresponse : ∀ message, event ≠ .worker (.response message))
      (hready : ∀ accepted, event = .worker (.ready (.capabilities accepted)) →
        accepted = capabilities settings model) :
      Effect config settings model d { d with plugin }
  | server (event server) (hs : (Server.system settings model).Step d.server event server)
      (hforeign : ∀ j message, event = .deliver j message → d.Foreign j) :
      Effect config settings model d { d with server }
  | connect (k received first) (hlink : d.links k = ⟨none, 0, received⟩)
      (hsent : d.sent k 0 = some first) :
      Effect config settings model d
        ({ d with server := Server.enhance settings model first d.server }.setLink k
          ⟨opened d.server (Server.enhance settings model first d.server), 1, received⟩)
  | deliver (k j delivered received message server)
      (hlink : d.links k = ⟨some j, delivered, received⟩)
      (hsent : d.sent k delivered = some message)
      (hs : (Server.system settings model).Step d.server (.deliver j message) server) :
      Effect config settings model d
        ({ d with server }.setLink k ⟨some j, delivered + 1, received⟩)
  | respond (message plugin) (hanswer : d.answer = some message)
      (hs : (Plugin.pluginSystem config).Step d.plugin (.worker (.response message)) plugin) :
      Effect config settings model d
        ({ d with plugin }.setLink d.current (d.links d.current).receive)

theorem plugin_effect {event : PluginEvent} (ha : allows settings model d (.plugin event))
    (hs : step config settings model d (.plugin event) = some d') :
    Effect config settings model d d' := by
  obtain ⟨plugin, hplugin, rfl⟩ := Option.map_eq_some_iff.mp hs
  refine .plugin event plugin ⟨?_, hplugin⟩ ?_ ?_
  · cases event with
    | begin k uuid => exact ha
    | _ => trivial
  · rintro message rfl
    exact ha
  · rintro accepted rfl
    exact ha

theorem step_enhance (first : ClientMessage) (server : ServerState κ) :
    (Server.system settings model).Step server (.enhance first)
      (Server.enhance settings model first server) := ⟨trivial, rfl⟩

theorem server_effect {event : Server.Event κ} (ha : allows settings model d (.server event))
    (hs : step config settings model d (.server event) = some d') :
    Effect config settings model d d' := by
  obtain ⟨server, hserver, rfl⟩ := Option.map_eq_some_iff.mp hs
  refine .server event server ⟨?_, hserver⟩ ?_
  · cases event with
    | deliver j message => trivial
    | inferenceReturned wav updated => exact ha
    | _ => trivial
  · rintro j message rfl
    exact ha

theorem step_effect (hs : (deployment config settings model).Step d e d') :
    Effect config settings model d d' := by
  obtain ⟨ha, hs⟩ := hs
  cases e with
  | plugin event => exact plugin_effect ha hs
  | server event => exact server_effect ha hs
  | connect k =>
      simp only [deployment, step] at hs
      split at hs
      · next received first hlink hsent =>
          cases hs
          exact .connect k received first hlink hsent
      · cases hs
  | deliver k =>
      simp only [deployment, step] at hs
      split at hs
      · next j delivered received hlink =>
          split at hs
          · next message hsent =>
              obtain ⟨server, hserver, rfl⟩ := Option.map_eq_some_iff.mp hs
              exact .deliver k j delivered received message server hlink hsent
                ⟨trivial, hserver⟩
          · cases hs
      · cases hs
  | respond =>
      simp only [deployment, step] at hs
      split at hs
      · next message hanswer =>
          obtain ⟨plugin, hplugin, rfl⟩ := Option.map_eq_some_iff.mp hs
          exact .respond message plugin hanswer ⟨trivial, hplugin⟩
      · cases hs

/-! ## The parts -/

/-- The server of a deployment is a server. -/
theorem reachable_server (h : (deployment config settings model).Reachable d) :
    (Server.system settings model).Reachable d.server := by
  induction h with
  | init => exact .init
  | step _ hs ih =>
      cases step_effect hs with
      | plugin event plugin _ _ _ => exact ih
      | server event server hserver _ => exact ih.step hserver
      | connect k received first _ _ => exact ih.step (step_enhance first _)
      | deliver k j delivered received message server _ _ hserver => exact ih.step hserver
      | respond message plugin _ _ => exact ih

/-- The plugin of a deployment is a plugin. -/
theorem reachable_plugin (h : (deployment config settings model).Reachable d) :
    (Plugin.pluginSystem config).Reachable d.plugin := by
  induction h with
  | init => exact .init
  | step _ hs ih =>
      cases step_effect hs with
      | plugin event plugin hplugin _ _ => exact ih.step hplugin
      | server event server _ _ => exact ih
      | connect k received first _ _ => exact ih
      | deliver k j delivered received message server _ _ _ => exact ih
      | respond message plugin _ hplugin => exact ih.step hplugin

/-! ## The two ends of a call -/

/-- The stream has got what the iterator has yielded, and nothing else. -/
structure Fed (it : RequestIterator) (st : Stream κ) : Prop where
  start : st.session.inputStartSample = it.first.startSample
  accepted : ∀ chunk ∈ st.history.accepted, chunk ∈ chunks it.yielded

/-- The calls have streams of their own. -/
structure Calls (d : Deployment κ) : Prop where
  fresh : ∀ k, d.plugin.worker.generation ≤ k → d.links k = ⟨none, 0, 0⟩
  known : ∀ k j, (d.links k).stream = some j → j < d.server.streams.length
  apart : ∀ k k' j, (d.links k).stream = some j → (d.links k').stream = some j → k = k'
  fed : ∀ (k j : Nat) (it : RequestIterator) (st : Stream κ), (d.links k).stream = some j →
    d.plugin.worker.iterators[k]? = some it → d.server.streams[j]? = some st → Fed it st

theorem Calls.lt (h : Calls d) {k j : Nat} (hlink : (d.links k).stream = some j) :
    k < d.plugin.worker.generation := by
  by_contra hle
  rw [h.fresh k (Nat.le_of_not_lt hle)] at hlink
  cases hlink

theorem calls_init (config : RemoteFastEnhancerConfig) (settings : ServerSettings) :
    Calls (init config settings : Deployment κ) where
  fresh _ _ := rfl
  known k j hlink := by cases hlink
  apart k k' j hlink := by cases hlink
  fed k j it st hlink := by cases hlink

/-- The iterators only yield more. -/
theorem Fed.grows {it it' : RequestIterator} {st : Stream κ} (h : Fed it st)
    (hgrows : it.Grows it') : Fed it' st where
  start := h.start.trans (congrArg Plugin.AudioRequest.startSample hgrows.first).symm
  accepted chunk hmem := (hgrows.yielded.filterMap _).subset (h.accepted chunk hmem)

/-- What happens to the streams of the calls while the server takes a step. -/
theorem Calls.server (h : Calls d) (hreach : (Server.system settings model).Reachable d.server)
    {event : Server.Event κ} {server : ServerState κ}
    (hs : (Server.system settings model).Step d.server event server) {k j : Nat}
    {it : RequestIterator} {st' : Stream κ} (hlink : (d.links k).stream = some j)
    (hit : d.plugin.worker.iterators[k]? = some it) (hst' : server.streams[j]? = some st')
    (hdelivered : ∀ chunk, event = .deliver j (.audio chunk) → chunk ∈ chunks it.yielded) :
    Fed it st' := by
  have hlt := h.known k j hlink
  obtain ⟨st₁, hst₁, heff⟩ := Server.step_effect model.delivers_any
    (Server.reachable_scheduling hreach) hs (List.getElem?_eq_getElem hlt)
  obtain rfl := Option.some.inj (hst'.symm.trans hst₁)
  have hadds := heff.grows
  have hfed := h.fed k j it _ hlink hit (List.getElem?_eq_getElem hlt)
  refine ⟨hadds.start.trans hfed.start, fun chunk hmem => ?_⟩
  rcases hadds.accepted chunk hmem with hold | hnew
  · exact hfed.accepted chunk hold
  · exact hdelivered chunk hnew

/-- No step of the server takes a stream away. -/
theorem streams_length (hreach : (Server.system settings model).Reachable d.server)
    {event : Server.Event κ} {server : ServerState κ}
    (hs : (Server.system settings model).Step d.server event server) {j : Nat}
    (hlt : j < d.server.streams.length) : j < server.streams.length := by
  obtain ⟨st', hst', -⟩ := Server.step_effect model.delivers_any
    (Server.reachable_scheduling hreach) hs (List.getElem?_eq_getElem hlt)
  exact (List.getElem?_eq_some_iff.mp hst').1

/-- A step of the plugin only adds generations and messages. -/
theorem Calls.plugin (h : Calls d) {event : PluginEvent} {plugin : PluginState}
    (hs : (Plugin.pluginSystem config).Step d.plugin event plugin) :
    Calls { d with plugin } := by
  have hgeneration : d.plugin.worker.generation ≤ plugin.worker.generation :=
    PluginState.step_worker (Q := fun w => d.plugin.worker.generation ≤ w.generation)
      (fun w event w' made hQ _ hstep => by
        rcases (Plugin.GRPCWorker.step_effect hstep).generation_cases with heq | ⟨-, -, heq⟩
        · exact heq ▸ hQ
        · exact heq ▸ hQ.trans (Nat.le_succ _))
      le_rfl hs
  refine ⟨fun k hk => h.fresh k (hgeneration.trans hk), h.known, h.apart, ?_⟩
  intro k j it' st hlink hit' hst
  have hlt : k < d.plugin.worker.iterators.length := h.lt hlink
  have hit := List.getElem?_eq_getElem hlt
  obtain ⟨it'', hit'', hgrows⟩ := PluginState.step_worker
    (Q := fun w => ∃ it', w.iterators[k]? = some it' ∧ (d.plugin.worker.iterators[k]).Grows it')
    (fun w event w' made hQ _ hstep => by
      obtain ⟨it₁, hit₁, hgrows₁⟩ := hQ
      obtain ⟨it₂, hit₂, hgrows₂⟩ := (Plugin.GRPCWorker.step_effect hstep).grows hit₁
      exact ⟨it₂, hit₂, hgrows₁.trans hgrows₂⟩)
    ⟨_, hit, .refl _⟩ hs
  obtain rfl := Option.some.inj (hit'.symm.trans hit'')
  exact (h.fed k j _ st hlink hit hst).grows hgrows

/-- The stream of the link stays. -/
theorem Calls.setLink (h : Calls d) {k : Nat} {link : Link}
    (hk : k < d.plugin.worker.generation) (hstream : link.stream = (d.links k).stream) :
    Calls (d.setLink k link) := by
  have hsame : ∀ k', ((d.setLink k link).links k').stream = (d.links k').stream := by
    intro k'
    change (Function.update d.links k link k').stream = _
    by_cases heq : k' = k
    · rw [heq, Function.update_self, hstream]
    · rw [Function.update_of_ne heq]
  constructor
  · intro k' hk'
    change Function.update d.links k link k' = _
    rw [Function.update_of_ne (Nat.ne_of_gt (Nat.lt_of_lt_of_le hk hk'))]
    exact h.fresh k' hk'
  · intro k' j hlink
    exact h.known k' j ((hsame k').symm.trans hlink)
  · intro k' k'' j hlink hlink'
    exact h.apart k' k'' j ((hsame k').symm.trans hlink) ((hsame k'').symm.trans hlink')
  · intro k' j it st hlink
    exact h.fed k' j it st ((hsame k').symm.trans hlink)

/-- A step of the server that brings a stream no message of the plugin. -/
theorem Calls.foreign (h : Calls d) (hreach : (Server.system settings model).Reachable d.server)
    {event : Server.Event κ} {server : ServerState κ}
    (hs : (Server.system settings model).Step d.server event server)
    (hforeign : ∀ j message, event = .deliver j message → d.Foreign j) :
    Calls { d with server } := by
  refine ⟨h.fresh, fun k j hlink => streams_length hreach hs (h.known k j hlink), h.apart, ?_⟩
  intro k j it st' hlink hit hst'
  refine h.server hreach hs hlink hit hst' fun chunk heq => ?_
  exact absurd hlink (hforeign j _ heq k (h.lt hlink))

theorem Calls.deliver (h : Calls d) (hreach : (Server.system settings model).Reachable d.server)
    {k j n : Nat} {message : ClientMessage} {server : ServerState κ}
    (hlink : (d.links k).stream = some j) (hsent : d.sent k n = some message)
    (hs : (Server.system settings model).Step d.server (.deliver j message) server) :
    Calls { d with server } := by
  refine ⟨h.fresh, fun k j hlink => streams_length hreach hs (h.known k j hlink), h.apart, ?_⟩
  intro k' j' it st' hlink' hit hst'
  refine h.server hreach hs hlink' hit hst' fun chunk heq => ?_
  cases heq
  obtain rfl := h.apart k k' j hlink hlink'
  obtain ⟨it', hit', hmessage⟩ := Option.bind_eq_some_iff.mp hsent
  obtain rfl := Option.some.inj (hit.symm.trans hit')
  exact List.mem_filterMap.mpr ⟨_, List.mem_of_getElem? hmessage, rfl⟩

/-- The first message of a call opens it. -/
theorem sent_opens (hreach : (Plugin.pluginSystem config).Reachable d.plugin) {k : Nat}
    {first : ClientMessage} {it : RequestIterator} (hit : d.plugin.worker.iterators[k]? = some it)
    (hsent : d.sent k 0 = some first) :
    ∃ start, first = .start start ∧ Plugin.Opens it.first start := by
  obtain ⟨it', hit', hfirst⟩ := Option.bind_eq_some_iff.mp hsent
  obtain rfl := Option.some.inj (hit.symm.trans hit')
  have hyields := (Plugin.reachable_behind hreach).iterators it (List.mem_of_getElem? hit)
  rcases hyields.wellformed with hnil | ⟨start, hopens, heq⟩ | ⟨start, flush, hopens, heq⟩
  · rw [hnil] at hfirst
    cases hfirst
  · rw [heq] at hfirst
    exact ⟨start, (Option.some.inj hfirst).symm, hopens⟩
  · rw [heq] at hfirst
    exact ⟨start, (Option.some.inj hfirst).symm, hopens⟩

/-- The server opens a stream for a call. -/
theorem fed_opened {server : ServerState κ} {first : ClientMessage}
    {start : Server.StartStream} {it : RequestIterator} {st : Stream κ}
    (hfirst : first = .start start) (hopens : Plugin.Opens it.first start)
    (hst : (Server.enhance settings model first server).streams[server.streams.length]? = some st) :
    Fed it st := by
  have hspec := Server.enhance_spec settings model first server
  generalize Server.enhance settings model first server = server' at hspec hst
  subst hfirst
  cases hspec with
  | invalid violation _ => simp at hst
  | refused start' violation hvalid _ =>
      obtain rfl := Except.ok.inj (hopens.valid.symm.trans hvalid)
      obtain rfl : _ = st := by simpa using hst
      exact ⟨hopens.origin, fun _ hmem => absurd hmem List.not_mem_nil⟩
  | unannounced start' hvalid _ _ _ =>
      obtain rfl := Except.ok.inj (hopens.valid.symm.trans hvalid)
      obtain rfl : _ = st := by simpa using hst
      exact ⟨hopens.origin, fun _ hmem => absurd hmem List.not_mem_nil⟩
  | admitted start' hvalid _ _ _ =>
      obtain rfl := Except.ok.inj (hopens.valid.symm.trans hvalid)
      obtain rfl : _ = st := by simpa using hst
      exact ⟨hopens.origin, fun _ hmem => absurd hmem List.not_mem_nil⟩

theorem opened_eq_some {server server' : ServerState κ} {j : Nat}
    (h : opened server server' = some j) :
    j = server.streams.length ∧ j < server'.streams.length := by
  unfold opened at h
  split at h
  · next hlt =>
      cases h
      exact ⟨rfl, hlt⟩
  · cases h

theorem Calls.connect (h : Calls d)
    (hserver : (Server.system settings model).Reachable d.server)
    (hplugin : (Plugin.pluginSystem config).Reachable d.plugin) {k received : Nat}
    {first : ClientMessage} (hsent : d.sent k 0 = some first) :
    Calls ({ d with server := Server.enhance settings model first d.server }.setLink k
      ⟨opened d.server (Server.enhance settings model first d.server), 1, received⟩) := by
  have hs : (Server.system settings model).Step d.server (.enhance first)
      (Server.enhance settings model first d.server) := step_enhance first d.server
  generalize hserver' : Server.enhance settings model first d.server = server' at hs
  obtain ⟨it, hit, -⟩ := Option.bind_eq_some_iff.mp hsent
  have hlt : k < d.plugin.worker.generation := (List.getElem?_eq_some_iff.mp hit).1
  have hothers : Calls { d with server := server' } := h.foreign hserver hs nofun
  -- a stream of the calls is the new one, or an old one of another call
  have hcases : ∀ k' j, (Function.update d.links k ⟨opened d.server server', 1, received⟩
      k').stream = some j →
      k' = k ∧ j = d.server.streams.length ∧ j < server'.streams.length ∨
        k' ≠ k ∧ (d.links k').stream = some j := by
    intro k' j hlink
    by_cases heq : k' = k
    · rw [heq, Function.update_self] at hlink
      exact .inl ⟨heq, opened_eq_some hlink⟩
    · rw [Function.update_of_ne heq] at hlink
      exact .inr ⟨heq, hlink⟩
  constructor
  · intro k' hk'
    change Function.update d.links k _ k' = _
    rw [Function.update_of_ne (Nat.ne_of_gt (Nat.lt_of_lt_of_le hlt hk'))]
    exact h.fresh k' hk'
  · intro k' j hlink
    rcases hcases k' j hlink with ⟨-, -, hj⟩ | ⟨-, hold⟩
    · exact hj
    · exact hothers.known k' j hold
  · intro k' k'' j hlink hlink'
    rcases hcases k' j hlink with ⟨heq, hj, -⟩ | ⟨-, hold⟩
    · rcases hcases k'' j hlink' with ⟨heq', -, -⟩ | ⟨-, hold'⟩
      · rw [heq, heq']
      · exact absurd (h.known k'' j hold') (by omega)
    · rcases hcases k'' j hlink' with ⟨-, hj, -⟩ | ⟨-, hold'⟩
      · exact absurd (h.known k' j hold) (by omega)
      · exact h.apart k' k'' j hold hold'
  · intro k' j it' st hlink hit' hst
    rcases hcases k' j hlink with ⟨rfl, rfl, -⟩ | ⟨-, hold⟩
    · obtain rfl := Option.some.inj (hit.symm.trans hit')
      obtain ⟨start, hfirst, hopens⟩ := sent_opens hplugin hit hsent
      rw [← hserver'] at hst
      exact fed_opened hfirst hopens hst
    · exact hothers.fed k' j it' st hold hit' hst

theorem answer_link {message : ServerMessage} (h : d.answer = some message) :
    ∃ (j : Nat) (st : Stream κ), (d.links d.current).stream = some j ∧
      d.server.streams[j]? = some st ∧
      st.history.yielded[(d.links d.current).received]? = some message := by
  unfold answer at h
  split at h
  · next j hlink =>
      obtain ⟨st, hst, hmessage⟩ := Option.bind_eq_some_iff.mp h
      exact ⟨j, st, hlink, hst, hmessage⟩
  · cases h

theorem reachable_calls (h : (deployment config settings model).Reachable d) : Calls d := by
  refine Lts.System.Reachable.invariant₂ (I := Calls) (calls_init config settings) ?_ h
  intro d e d' hreach hcalls hs
  have hserver := reachable_server hreach
  cases step_effect hs with
  | plugin event plugin hplugin _ _ => exact hcalls.plugin hplugin
  | server event server hstep hforeign => exact hcalls.foreign hserver hstep hforeign
  | connect k received first _ hsent =>
      exact hcalls.connect hserver (reachable_plugin hreach) hsent
  | deliver k j delivered received message server hlink hsent hstep =>
      have hstream : (d.links k).stream = some j := congrArg Link.stream hlink
      exact (hcalls.deliver hserver hstream hsent hstep).setLink (hcalls.lt hstream) hstream.symm
  | respond message plugin hanswer hplugin =>
      obtain ⟨j, st, hlink, -, -⟩ := answer_link hanswer
      have hplugins := hcalls.plugin hplugin
      exact hplugins.setLink (hplugins.lt hlink) rfl

end Deployment

end VoxLattice
