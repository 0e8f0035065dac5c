import RpcFramework.Registry.Serving

/-!
# How a server stays listed

`start` detaches a thread that registers the two services at the registry, and gives up when one
exchange with the registry fails; and it starts a thread that sends heartbeats for them, a round
every fifteen seconds for as long as the server runs.  An exchange is a connection of its own:
connect, send, receive.  Meanwhile the registry handles what others send it, and sweeps; and
time passes.

To the registry a heartbeat is a registration, so it makes no difference whether the
registrations came through.  What matters is how much later than it is due a round of heartbeats
may end: a service may be late in one round and early in the one before.

## Main definitions

* `KeepAlive.State`, `KeepAlive.step` — the system `keepAlive`.
* `KeepAlive.Prompt` — no exchange of a heartbeat fails, and no round ends too late.
* `KeepAlive.Kept` — the invariant: how recent the latest registrations are.

## Main results

* `KeepAlive.registration_heartbeat` — a heartbeat registers.
* `keepAlive_listed_iff` — **how late a round may end** for the services to stay listed.
-/

open Rpc Wire

namespace KeepAlive

/-- The services that are registered, whatever handlers there are. -/
def services : List Bytes := [utf8 "EchoService", utf8 "CalculatorService"]

def host : Bytes := utf8 "127.0.0.1"

/-! Times are in nanoseconds. -/

/-- `start` waits so long before it registers the services, -/
def registrationDelay : ℤ := 500 * 10 ^ 6

/-- and so long between the first and the second. -/
def registrationPause : ℤ := 200 * 10 ^ 6

/-- The first round of heartbeats comes so long after `start`. -/
def heartbeatDelay : ℤ := 2 * 10 ^ 9

/-- From the end of a round to the next. -/
def heartbeatInterval : ℤ := 15 * 10 ^ 9

/-- Where a thread is in an exchange with the registry. -/
inductive Exchange where
  | connecting
  | connected
  | sent
  /-- The registry has handled the request; this is what there is to receive. -/
  | answered (response : Bytes)
  deriving DecidableEq, Repr

/-- Where the thread of `registerToRegistry` is, with the services it has not come to yet. -/
inductive Registrar where
  | unstarted
  | asleep (wake : ℤ) (rest : List Bytes)
  | registering (serviceName : Bytes) (rest : List Bytes) (exchange : Exchange)
  | returned
  deriving DecidableEq, Repr

/-- Where the thread of the heartbeats is. -/
inductive Heartbeat where
  | unstarted
  | asleep
  /-- The loop has seen `running_`, and `sendHeartbeat` has not. -/
  | entering
  | beating (serviceName : Bytes) (rest : List Bytes) (exchange : Exchange)
  | returned
  deriving DecidableEq, Repr

structure State where
  /-- The registry, the clock, and the record of registrations. -/
  serving : Serving.State := {}
  running : Bool := false
  registrar : Registrar := .unstarted
  heartbeat : Heartbeat := .unstarted
  /-- What the heartbeat thread sleeps until; in a round, when the round was due. -/
  due : ℤ := 0
  /-- When `start` was called.  No step reads this. -/
  startedAt : ℤ := 0

inductive Action where
  /-- The registry handles a message of somebody else, or sweeps, or time passes. -/
  | registry (action : Serving.Action)
  | start
  | stop
  /-- A thread goes on; what it asks of the system succeeds, or fails. -/
  | register (ok : Bool)
  | beat (ok : Bool)
  /-- The registry handles what the thread has sent. -/
  | handleRegistration
  | handleHeartbeat
  deriving DecidableEq, Repr

/-- The registration of a service of the server on the port, as the registry receives it. -/
def registrationData (port : ℤ) (serviceName : Bytes) : Bytes :=
  ClientRequest.received (.serviceRegister ⟨serviceName, host, port⟩)

/-- The heartbeat. -/
def heartbeatData (port : ℤ) (serviceName : Bytes) : Bytes :=
  ClientRequest.received (.heartbeat ⟨serviceName, host, port⟩)

/-- The registry handles a message, and its answer is on the way. -/
def exchange (serving : Serving.State) (data : Bytes) : Serving.State × Exchange :=
  let (serving, response) := serving.handle data
  (serving, .answered (response.elim [] TcpConnection.transmit))

/-- `registerSingleService` returns, and does not throw. -/
def registered (response : Bytes) : Bool :=
  response ≠ [] && (Serializer.deserialize ServiceRegisterResponse.codec response).isSome

namespace State

/-- `registerToRegistry` behind a registration that succeeded. -/
def registerNext (s : State) : List Bytes → State
  | [] => { s with registrar := .returned }
  | rest => { s with registrar := .asleep (s.serving.now + registrationPause) rest }

/-- The end of a round. -/
def sleep (s : State) : State :=
  { s with heartbeat := .asleep, due := s.serving.now + heartbeatInterval }

/-- `sendHeartbeat` where it comes to the next service, or returns. -/
def beatNext (s : State) : List Bytes → State
  | [] => s.sleep
  | serviceName :: rest => { s with heartbeat := .beating serviceName rest .connecting }

end State

/-- The registration thread goes on; an exception ends it. -/
def register (s : State) (ok : Bool) : Option State :=
  match s.registrar with
  | .asleep wake (serviceName :: rest) =>
      if wake ≤ s.serving.now then
        some { s with registrar := .registering serviceName rest .connecting }
      else none
  | .registering serviceName rest .connecting =>
      some
        { s with registrar := if ok then .registering serviceName rest .connected else .returned }
  | .registering serviceName rest .connected =>
      some { s with registrar := if ok then .registering serviceName rest .sent else .returned }
  | .registering _ _ .sent => if ok then none else some { s with registrar := .returned }
  | .registering _ rest (.answered response) =>
      if ok && registered response then some (s.registerNext rest)
      else some { s with registrar := .returned }
  | .unstarted | .asleep _ [] | .returned => none

/-- The heartbeat thread goes on; after a failure it turns to the next service. -/
def beat (s : State) (ok : Bool) : Option State :=
  match s.heartbeat with
  | .asleep =>
      if s.due ≤ s.serving.now then
        some { s with heartbeat := if s.running then .entering else .returned }
      else none
  | .entering => some (if s.running then s.beatNext services else s.sleep)
  | .beating serviceName rest .connecting =>
      some (if ok then { s with heartbeat := .beating serviceName rest .connected }
        else s.beatNext rest)
  | .beating serviceName rest .connected =>
      some (if ok then { s with heartbeat := .beating serviceName rest .sent }
        else s.beatNext rest)
  | .beating _ rest .sent => if ok then none else some (s.beatNext rest)
  -- what the response says is printed
  | .beating _ rest (.answered _) => some (s.beatNext rest)
  | .unstarted | .returned => none

/-- The registry handles what the registration thread has sent. -/
def handleRegistration (s : State) (serviceName : Bytes) (rest : List Bytes) (data : Bytes) :
    State :=
  let (serving, answer) := exchange s.serving data
  { s with serving := serving, registrar := .registering serviceName rest answer }

/-- The registry handles what the heartbeat thread has sent. -/
def handleHeartbeat (s : State) (serviceName : Bytes) (rest : List Bytes) (data : Bytes) :
    State :=
  let (serving, answer) := exchange s.serving data
  { s with serving := serving, heartbeat := .beating serviceName rest answer }

/-- One step. -/
def step (port : ℤ) (s : State) : Action → Option State
  | .registry action =>
      (Serving.step s.serving action).map fun serving => { s with serving := serving }
  | .start =>
      if s.heartbeat = .unstarted then
        some
          { s with
            running := true
            registrar := .asleep (s.serving.now + registrationDelay) services
            heartbeat := .asleep
            due := s.serving.now + heartbeatDelay
            startedAt := s.serving.now }
      else none
  | .stop => some { s with running := false }
  | .register ok => register s ok
  | .beat ok => beat s ok
  | .handleRegistration =>
      match s.registrar with
      | .registering serviceName rest .sent =>
          some (handleRegistration s serviceName rest (registrationData port serviceName))
      | _ => none
  | .handleHeartbeat =>
      match s.heartbeat with
      | .beating serviceName rest .sent =>
          some (handleHeartbeat s serviceName rest (heartbeatData port serviceName))
      | _ => none

/-- While the server runs, no exchange of a heartbeat fails, and no round ends more than `delay`
after it was due. -/
def Prompt (delay : ℕ) (s : State) : Action → Prop
  | .registry (.pass time) => s.running = true → s.serving.now + time ≤ s.due + delay
  | .beat ok => s.running = true → ok = true
  | _ => True

instance decidablePrompt (delay : ℕ) (s : State) (a : Action) : Decidable (Prompt delay s a) :=
  match a with
  | .registry (.pass _) => inferInstanceAs (Decidable (_ → _ ≤ _))
  | .beat _ => inferInstanceAs (Decidable (_ → _ = _))
  | .registry (.handle _) | .registry .checkHeartbeat | .start | .stop | .register _
  | .handleRegistration | .handleHeartbeat => isTrue trivial

end KeepAlive

open KeepAlive

/-- The registry, and a server on the port that has not been started. -/
def keepAlive (port : ℤ) : System KeepAlive.State KeepAlive.Action where
  init := {}
  step := KeepAlive.step port

namespace KeepAlive

/-! ### What the registry makes of the requests -/

section Messages

variable {port : ℤ} {serviceName : Bytes}

/-- The instance of the service that the server on the port is. -/
def key (port : ℤ) (serviceName : Bytes) : InstanceKey := ⟨serviceName, host, port⟩

theorem dispatch_registration (hport : 0 < port) (hrange : port < 2 ^ 31)
    (hname : serviceName ∈ services) :
    RegistryServer.dispatch (registrationData port serviceName) =
      some (.serviceRegister ⟨serviceName, host, port⟩) := by
  have hservice : serviceName ≠ [] ∧ validUtf8 serviceName = true ∧ serviceName.length ≤ 17 := by
    revert serviceName
    decide
  obtain ⟨hne, htext, hlen⟩ := hservice
  have hhost : host ≠ [] ∧ validUtf8 host = true ∧ host.length ≤ 9 := by decide
  have hinRange : InRange 32 port := ⟨by omega, by omega⟩
  refine (ClientRequest.registry_iff (q := .serviceRegister ⟨serviceName, host, port⟩)
    ⟨⟨hne, hhost.1, hport⟩, ServiceRegisterRequest.typed_iff.mpr hinRange⟩).mpr
    ⟨⟨?_, ?_⟩, htext, hhost.2.1⟩
  · -- the name is written
    intro hnil
    have hlength := congrArg List.length hnil
    rw [Codec.encode, ServiceRegisterRequest.fields_eq, length_encodeFields_append,
      length_encodeFields_append, bytesField, if_neg hne] at hlength
    have hpos := List.length_pos_iff.mpr
      (encodeField_ne_nil ⟨1, .lengthDelimited serviceName⟩)
    simp only [encodeFields, List.flatMap_cons, List.length_append, List.length_nil] at hlength
    omega
  · rw [Codec.encode, ServiceRegisterRequest.fields_eq, length_encodeFields_append,
      length_encodeFields_append]
    have h1 := length_bytesField_le 1 serviceName
    have h2 := length_bytesField_le 2 host
    have h3 := length_intField_le 3 port
    dsimp only [TcpConnection.maxMessage]
    omega

/-- **A heartbeat registers.** -/
theorem registration_heartbeat (hport : 0 < port) (hrange : port < 2 ^ 31)
    (hname : serviceName ∈ services) :
    Serving.registration (heartbeatData port serviceName) = some (key port serviceName) := by
  have hdata : heartbeatData port serviceName = registrationData port serviceName := by
    rw [heartbeatData, registrationData, ClientRequest.received_eq, ClientRequest.received_eq,
      ClientRequest.encode, ClientRequest.encode, HeartbeatRequest.encode_eq]
    rfl
  rw [hdata, Serving.registration, dispatch_registration hport hrange hname]
  rfl

end Messages

/-! ### What a round of heartbeats leaves -/

/-- The service's heartbeat of the round is still to be handled; between rounds, of the next. -/
def Heartbeat.pending (place : Heartbeat) (serviceName : Bytes) : Prop :=
  match place with
  | .beating current rest exchange =>
      serviceName ∈ rest ∨ serviceName = current ∧ ∀ response, exchange ≠ .answered response
  | _ => True

/-- A round has begun. -/
def Heartbeat.inRound : Heartbeat → Bool
  | .entering | .beating .. => true
  | .unstarted | .asleep | .returned => false

/-- The latest registration of the server's instance of the service is from the time `r`. -/
def State.Latest (port : ℤ) (s : State) (serviceName : Bytes) (r : ℤ) : Prop :=
  s.serving.latest (key port serviceName) = some r

/-- What holds while the server runs. -/
structure Kept (port : ℤ) (delay : ℕ) (s : State) : Prop where
  alive : s.heartbeat = .asleep ∨ s.heartbeat.inRound = true
  inRound : s.heartbeat.inRound = true → s.due ≤ s.serving.now
  due_le : s.due ≤ s.serving.now + heartbeatInterval
  now_le : s.serving.now ≤ s.due + delay
  started : s.startedAt ≤ s.serving.now ∧ s.startedAt + heartbeatDelay ≤ s.due
  /-- The next heartbeat will come in time. -/
  pending : ∀ serviceName ∈ services, s.heartbeat.pending serviceName →
    ∀ r, s.Latest port serviceName r → s.startedAt ≤ r → s.due + delay ≤ r + heartbeatTimeout
  /-- The heartbeat of this round has been handled. -/
  handled : ∀ serviceName ∈ services, ¬ s.heartbeat.pending serviceName →
    ∃ r, s.Latest port serviceName r ∧ s.due ≤ r
  /-- That of an earlier round has. -/
  later : s.startedAt + heartbeatDelay < s.due →
    ∀ serviceName ∈ services, ∃ r, s.Latest port serviceName r ∧ s.startedAt ≤ r

section Kept

variable {port : ℤ} {delay : ℕ} {s t : State}

/-- **A move of the thread, or a message**: what is handled now is as recent as can be. -/
theorem Kept.go (hs : Kept port delay s) (hsmall : heartbeatInterval + 2 * delay ≤ heartbeatTimeout)
    (hdue : t.due = s.due) (hstart : t.startedAt = s.startedAt)
    (hnow : t.serving.now = s.serving.now)
    (hlatest : ∀ serviceName,
      t.serving.latest (key port serviceName) = s.serving.latest (key port serviceName) ∨
        t.Latest port serviceName s.serving.now)
    (halive : t.heartbeat = .asleep ∨ t.heartbeat.inRound = true)
    (hround : t.heartbeat.inRound = true → s.due ≤ s.serving.now)
    (hpending : ∀ serviceName ∈ services, t.heartbeat.pending serviceName →
      s.heartbeat.pending serviceName)
    (hhandled : ∀ serviceName ∈ services, ¬ t.heartbeat.pending serviceName →
      ¬ s.heartbeat.pending serviceName ∨
        t.heartbeat.inRound = true ∧ t.Latest port serviceName s.serving.now) :
    Kept port delay t := by
  have hold : ∀ {serviceName : Bytes} {r : ℤ}, s.Latest port serviceName r →
      ∃ r', t.Latest port serviceName r' ∧ (r' = r ∨ r' = s.serving.now) := by
    intro serviceName r hr
    rcases hlatest serviceName with hsame | hnew
    · exact ⟨r, hsame.trans hr, Or.inl rfl⟩
    · exact ⟨s.serving.now, hnew, Or.inr rfl⟩
  have hnext := hs.due_le
  refine ⟨halive, fun h => ?_, ?_, ?_, ?_, ?_, ?_, ?_⟩
  · rw [hdue, hnow]
    exact hround h
  · rw [hdue, hnow]
    exact hs.due_le
  · rw [hdue, hnow]
    exact hs.now_le
  · rw [hdue, hnow, hstart]
    exact hs.started
  · intro serviceName hname hp r hr hsince
    rw [hstart] at hsince
    rw [hdue]
    rcases hlatest serviceName with hsame | hnew
    · exact hs.pending serviceName hname (hpending serviceName hname hp) r (hsame.symm.trans hr)
        hsince
    · obtain rfl : s.serving.now = r := Option.some.inj (hnew.symm.trans hr)
      omega
  · intro serviceName hname hp
    rw [hdue]
    rcases hhandled serviceName hname hp with hp | ⟨hinRound, hr⟩
    · obtain ⟨r, hr, hsince⟩ := hs.handled serviceName hname hp
      obtain ⟨r', hr', rfl | rfl⟩ := hold hr
      · exact ⟨r', hr', hsince⟩
      · refine ⟨_, hr', ?_⟩
        rcases hs.alive with halive | halive
        · exact absurd (by rw [halive]; trivial) hp
        · exact hs.inRound halive
    · exact ⟨_, hr, hround hinRound⟩
  · intro hlater serviceName hname
    rw [hdue, hstart] at hlater
    rw [hstart]
    obtain ⟨r, hr, hsince⟩ := hs.later hlater serviceName hname
    obtain ⟨r', hr', rfl | rfl⟩ := hold hr
    · exact ⟨r', hr', hsince⟩
    · exact ⟨_, hr', hs.started.1⟩

/-- **The end of a round**: this is where a service may have been early, and is going to be
late. -/
theorem Kept.sleep (hs : Kept port delay s)
    (hsmall : heartbeatInterval + 2 * delay ≤ heartbeatTimeout)
    (hdone : ∀ serviceName ∈ services, ¬ s.heartbeat.pending serviceName) :
    Kept port delay s.sleep := by
  obtain ⟨hsince, hfirst⟩ := hs.started
  have hlate := hs.now_le
  have hdelay : (0 : ℤ) ≤ heartbeatDelay ∧ heartbeatDelay ≤ heartbeatInterval := by decide
  refine ⟨Or.inl rfl, fun h => absurd h Bool.false_ne_true, le_refl _, ?_, ⟨hsince, ?_⟩, ?_, ?_, ?_⟩
  · show s.serving.now ≤ s.serving.now + heartbeatInterval + delay
    omega
  · show s.startedAt + heartbeatDelay ≤ s.serving.now + heartbeatInterval
    omega
  · intro serviceName hname _ r hr _
    obtain ⟨r', hr', hround⟩ := hs.handled serviceName hname (hdone serviceName hname)
    obtain rfl : r' = r := Option.some.inj (hr'.symm.trans hr)
    show s.serving.now + heartbeatInterval + delay ≤ r' + heartbeatTimeout
    omega
  · exact fun serviceName _ hp => absurd trivial hp
  · intro _ serviceName hname
    obtain ⟨r, hr, hround⟩ := hs.handled serviceName hname (hdone serviceName hname)
    refine ⟨r, hr, ?_⟩
    show s.startedAt ≤ r
    omega

end Kept

/-! ### What every step keeps -/

structure Invariant (port : ℤ) (delay : ℕ) (s : State) : Prop where
  ledger : Serving.Ledger s.serving
  unstarted : s.heartbeat = .unstarted → s.running = false
  kept : s.running = true → Kept port delay s

section Steps

variable {port : ℤ} {delay : ℕ} {s t : State}

theorem handleRegistration_eq (current : Bytes) (rest : List Bytes) (data : Bytes) :
    ∃ place, handleRegistration s current rest data =
      { s with serving := (s.serving.handle data).1, registrar := place } :=
  ⟨_, rfl⟩

theorem handleHeartbeat_eq (current : Bytes) (rest : List Bytes) (data : Bytes) :
    ∃ response, handleHeartbeat s current rest data =
      { s with
        serving := (s.serving.handle data).1
        heartbeat := .beating current rest (.answered response) } :=
  ⟨_, rfl⟩

/-- The threads at rest, the registry has handled a message. -/
theorem Kept.handle (hs : Kept port delay s)
    (hsmall : heartbeatInterval + 2 * delay ≤ heartbeatTimeout) (data : Bytes)
    (hdue : t.due = s.due) (hstart : t.startedAt = s.startedAt)
    (hheartbeat : t.heartbeat = s.heartbeat)
    (hserving : t.serving = (s.serving.handle data).1) : Kept port delay t := by
  refine hs.go hsmall hdue hstart (by rw [hserving]; rfl) (fun serviceName => ?_)
    (by rw [hheartbeat]; exact hs.alive) (by rw [hheartbeat]; exact hs.inRound)
    (fun _ _ hp => hheartbeat ▸ hp) (fun _ _ hp => Or.inl (hheartbeat ▸ hp))
  rw [State.Latest, hserving, Serving.latest_handle]
  split
  · exact Or.inr rfl
  · exact Or.inl rfl

/-- Nothing that the invariant is about has changed. -/
theorem Kept.same (hs : Kept port delay s)
    (hsmall : heartbeatInterval + 2 * delay ≤ heartbeatTimeout)
    (hdue : t.due = s.due) (hstart : t.startedAt = s.startedAt)
    (hheartbeat : t.heartbeat = s.heartbeat) (hnow : t.serving.now = s.serving.now)
    (hlatest : ∀ x, t.serving.latest x = s.serving.latest x) : Kept port delay t :=
  hs.go hsmall hdue hstart hnow (fun _ => Or.inl (hlatest _))
    (by rw [hheartbeat]; exact hs.alive) (by rw [hheartbeat]; exact hs.inRound)
    (fun _ _ hp => hheartbeat ▸ hp) (fun _ _ hp => Or.inl (hheartbeat ▸ hp))

theorem Kept.registry (hs : Kept port delay s)
    (hsmall : heartbeatInterval + 2 * delay ≤ heartbeatTimeout) (hrunning : s.running = true)
    {action : Serving.Action} (hprompt : Prompt delay s (.registry action))
    {serving : Serving.State} (hstep : Serving.step s.serving action = some serving) :
    Kept port delay { s with serving := serving } := by
  cases action with
  | handle data =>
    obtain rfl := Option.some.inj hstep
    exact hs.handle hsmall data rfl rfl rfl rfl
  | checkHeartbeat =>
    obtain rfl := Option.some.inj hstep
    exact hs.same hsmall rfl rfl rfl rfl fun _ => rfl
  | pass time =>
    obtain ⟨-, heq⟩ := Option.ite_none_right_eq_some.mp hstep
    obtain rfl := Option.some.inj heq
    obtain ⟨hsince, hfirst⟩ := hs.started
    have hnext := hs.due_le
    refine ⟨hs.alive, fun h => ?_, ?_, hprompt hrunning, ⟨?_, hfirst⟩, hs.pending, hs.handled,
      hs.later⟩
    · have := hs.inRound h
      show s.due ≤ s.serving.now + time
      omega
    · show s.due ≤ s.serving.now + time + heartbeatInterval
      omega
    · show s.startedAt ≤ s.serving.now + time
      omega

/-- At the start nothing is older than the start. -/
theorem Kept.start (hsmall : heartbeatInterval + 2 * delay ≤ heartbeatTimeout)
    (hrunning : t.heartbeat = .asleep) (hserving : t.serving = s.serving)
    (hdue : t.due = s.serving.now + heartbeatDelay) (hstart : t.startedAt = s.serving.now) :
    Kept port delay t := by
  have hdelay : (0 : ℤ) ≤ heartbeatDelay ∧ heartbeatDelay ≤ heartbeatInterval := by decide
  refine ⟨Or.inl hrunning, fun h => ?_, ?_, ?_, ?_, ?_, ?_, ?_⟩
  · rw [hrunning] at h
    exact absurd h Bool.false_ne_true
  · rw [hdue, hserving]
    omega
  · rw [hdue, hserving]
    omega
  · rw [hdue, hstart, hserving]
    exact ⟨le_refl _, le_refl _⟩
  · intro serviceName _ _ r _ hsince
    rw [hstart] at hsince
    rw [hdue]
    omega
  · intro serviceName _ hp
    rw [hrunning] at hp
    exact absurd trivial hp
  · intro hlater
    rw [hdue, hstart] at hlater
    exact absurd hlater (lt_irrefl _)

/-- The thread turns to the next service, or the round ends. -/
theorem Kept.beatNext (hs : Kept port delay s)
    (hsmall : heartbeatInterval + 2 * delay ≤ heartbeatTimeout)
    (hround : s.heartbeat.inRound = true) {rest : List Bytes}
    (hpending : ∀ serviceName ∈ services, s.heartbeat.pending serviceName ↔ serviceName ∈ rest) :
    Kept port delay (s.beatNext rest) := by
  cases rest with
  | nil =>
    refine hs.sleep hsmall fun serviceName hname hp => ?_
    exact absurd ((hpending serviceName hname).mp hp) List.not_mem_nil
  | cons current rest =>
    have hnext : ∀ serviceName,
        (Heartbeat.beating current rest .connecting).pending serviceName ↔
          serviceName ∈ current :: rest := by
      intro serviceName
      rw [List.mem_cons, or_comm]
      exact or_congr_right (and_iff_left fun _ => Exchange.noConfusion)
    refine hs.go hsmall rfl rfl rfl (fun _ => Or.inl rfl) (Or.inr rfl)
      (fun _ => hs.inRound hround) (fun serviceName hname hp => ?_) fun serviceName hname hp => ?_
    · exact (hpending serviceName hname).mpr ((hnext serviceName).mp hp)
    · exact Or.inl fun hp' => hp ((hnext serviceName).mpr ((hpending serviceName hname).mp hp'))

/-- **The heartbeat thread goes on**, and nothing fails. -/
theorem Kept.beat (hs : Kept port delay s)
    (hsmall : heartbeatInterval + 2 * delay ≤ heartbeatTimeout) (hrunning : s.running = true)
    (hstep : beat s true = some t) : Kept port delay t := by
  -- a request on its way is as good as none
  have hmove : ∀ {current : Bytes} {rest : List Bytes} {e e' : Exchange},
      s.heartbeat = .beating current rest e → (∀ response, e ≠ .answered response) →
      (∀ response, e' ≠ .answered response) →
        Kept port delay { s with heartbeat := .beating current rest e' } := by
    intro current rest e e' hplace he he'
    have hsame : ∀ serviceName, (Heartbeat.beating current rest e').pending serviceName ↔
        s.heartbeat.pending serviceName := by
      intro serviceName
      rw [hplace]
      exact or_congr_right (and_congr_right fun _ => iff_of_true he' he)
    exact hs.go hsmall rfl rfl rfl (fun _ => Or.inl rfl) (Or.inr rfl)
      (fun _ => hs.inRound (by rw [hplace]; rfl)) (fun serviceName _ => (hsame serviceName).mp)
      fun serviceName _ hp => Or.inl (mt (hsame serviceName).mpr hp)
  unfold KeepAlive.beat at hstep
  match hplace : s.heartbeat, hstep with
  | .asleep, hstep =>
    obtain ⟨hdue, heq⟩ := Option.ite_none_right_eq_some.mp hstep
    obtain rfl := Option.some.inj heq
    rw [if_pos hrunning]
    refine hs.go hsmall rfl rfl rfl (fun _ => Or.inl rfl) (Or.inr rfl) (fun _ => hdue)
      (fun _ _ _ => by rw [hplace]; trivial) fun _ _ hp => absurd trivial hp
  | .entering, hstep =>
    obtain rfl := Option.some.inj hstep
    rw [if_pos hrunning]
    refine hs.beatNext hsmall (by rw [hplace]; rfl) fun serviceName hname => ?_
    rw [hplace]
    exact iff_of_true trivial hname
  | .beating current rest .connecting, hstep =>
    obtain rfl := Option.some.inj hstep
    rw [if_pos rfl]
    exact hmove hplace (fun _ => Exchange.noConfusion) fun _ => Exchange.noConfusion
  | .beating current rest .connected, hstep =>
    obtain rfl := Option.some.inj hstep
    rw [if_pos rfl]
    exact hmove hplace (fun _ => Exchange.noConfusion) fun _ => Exchange.noConfusion
  | .beating _ rest (.answered response), hstep =>
    obtain rfl := Option.some.inj hstep
    refine hs.beatNext hsmall (by rw [hplace]; rfl) fun serviceName _ => ?_
    rw [hplace]
    exact or_iff_left fun h => h.2 response rfl

/-- **The registry handles the heartbeat**, and takes it for a registration. -/
theorem Kept.handleHeartbeat (hs : Kept port delay s)
    (hsmall : heartbeatInterval + 2 * delay ≤ heartbeatTimeout) {data current : Bytes}
    {rest : List Bytes} (hplace : s.heartbeat = .beating current rest .sent)
    (hregisters : current ∈ services → Serving.registration data = some (key port current))
    {response : Bytes} (hdue : t.due = s.due) (hstart : t.startedAt = s.startedAt)
    (hserving : t.serving = (s.serving.handle data).1)
    (hheartbeat : t.heartbeat = .beating current rest (.answered response)) :
    Kept port delay t := by
  have hlatest : ∀ x, t.serving.latest x =
      if Serving.registration data = some x then some s.serving.now else s.serving.latest x := by
    intro x
    rw [hserving]
    exact Serving.latest_handle _ _ _
  have hround : t.heartbeat.inRound = true := by rw [hheartbeat]; rfl
  refine hs.go hsmall hdue hstart (by rw [hserving]; rfl) (fun serviceName => ?_) (Or.inr hround)
    (fun _ => hs.inRound (by rw [hplace]; rfl)) (fun serviceName _ hp => ?_)
    fun serviceName hname hp => ?_
  · rw [State.Latest, hlatest]
    split
    · exact Or.inr rfl
    · exact Or.inl rfl
  · rw [hheartbeat] at hp
    rw [hplace]
    exact Or.inl (hp.resolve_right fun h => h.2 response rfl)
  · rw [hheartbeat] at hp
    by_cases hcurrent : serviceName = current
    · subst hcurrent
      refine Or.inr ⟨hround, ?_⟩
      rw [State.Latest, hlatest, hregisters hname, if_pos rfl]
    · rw [hplace]
      exact Or.inl fun hp' => hp (Or.inl (hp'.resolve_right fun h => hcurrent h.1))

/-- The registration thread changes neither the registry nor the heartbeats. -/
theorem register_cases {ok : Bool} (hstep : register s ok = some t) :
    ∃ place, t = { s with registrar := place } := by
  unfold register at hstep
  match s.registrar, hstep with
  | .asleep wake (serviceName :: rest), hstep =>
    obtain ⟨-, heq⟩ := Option.ite_none_right_eq_some.mp hstep
    exact ⟨_, (Option.some.inj heq).symm⟩
  | .registering serviceName rest .connecting, hstep =>
    exact ⟨_, (Option.some.inj hstep).symm⟩
  | .registering serviceName rest .connected, hstep =>
    exact ⟨_, (Option.some.inj hstep).symm⟩
  | .registering _ _ .sent, hstep =>
    obtain ⟨-, heq⟩ := Option.ite_none_left_eq_some.mp hstep
    exact ⟨_, (Option.some.inj heq).symm⟩
  | .registering _ rest (.answered response), hstep =>
    simp only at hstep
    split at hstep
    · obtain rfl := Option.some.inj hstep
      cases rest with
      | nil => exact ⟨_, rfl⟩
      | cons _ _ => exact ⟨_, rfl⟩
    · exact ⟨_, (Option.some.inj hstep).symm⟩

/-- What the heartbeat thread leaves alone. -/
theorem beat_cases {ok : Bool} (hstep : beat s ok = some t) :
    t.serving = s.serving ∧ t.running = s.running ∧
      (s.heartbeat ≠ .unstarted ∧ t.heartbeat ≠ .unstarted) := by
  have hnext : ∀ rest, (s.beatNext rest).serving = s.serving ∧
      (s.beatNext rest).running = s.running ∧ (s.beatNext rest).heartbeat ≠ .unstarted := by
    intro rest
    cases rest with
    | nil => exact ⟨rfl, rfl, Heartbeat.noConfusion⟩
    | cons _ _ => exact ⟨rfl, rfl, Heartbeat.noConfusion⟩
  unfold beat at hstep
  match hplace : s.heartbeat, hstep with
  | .asleep, hstep =>
    obtain ⟨-, heq⟩ := Option.ite_none_right_eq_some.mp hstep
    obtain rfl := Option.some.inj heq
    refine ⟨rfl, rfl, Heartbeat.noConfusion, ?_⟩
    show (if s.running = true then Heartbeat.entering else .returned) ≠ .unstarted
    split <;> exact Heartbeat.noConfusion
  | .entering, hstep =>
    obtain rfl := Option.some.inj hstep
    split
    · exact ⟨(hnext services).1, (hnext services).2.1, Heartbeat.noConfusion, (hnext services).2.2⟩
    · exact ⟨rfl, rfl, Heartbeat.noConfusion, Heartbeat.noConfusion⟩
  | .beating current rest .connecting, hstep | .beating current rest .connected, hstep =>
    obtain rfl := Option.some.inj hstep
    split
    · exact ⟨rfl, rfl, Heartbeat.noConfusion, Heartbeat.noConfusion⟩
    · exact ⟨(hnext rest).1, (hnext rest).2.1, Heartbeat.noConfusion, (hnext rest).2.2⟩
  | .beating _ rest .sent, hstep =>
    obtain ⟨-, heq⟩ := Option.ite_none_left_eq_some.mp hstep
    obtain rfl := Option.some.inj heq
    exact ⟨(hnext rest).1, (hnext rest).2.1, Heartbeat.noConfusion, (hnext rest).2.2⟩
  | .beating _ rest (.answered response), hstep =>
    obtain rfl := Option.some.inj hstep
    exact ⟨(hnext rest).1, (hnext rest).2.1, Heartbeat.noConfusion, (hnext rest).2.2⟩

/-- The steps of the registry, whatever it is that was sent. -/
theorem step_handleRegistration (hstep : step port s .handleRegistration = some t) :
    ∃ data place, t = { s with serving := (s.serving.handle data).1, registrar := place } := by
  simp only [step] at hstep
  split at hstep
  · next current rest _ =>
    obtain ⟨place, hafter⟩ := handleRegistration_eq (s := s) current rest
      (registrationData port current)
    exact ⟨_, place, (Option.some.inj hstep).symm.trans hafter⟩
  · cases hstep

theorem step_handleHeartbeat (hport : 0 < port) (hrange : port < 2 ^ 31)
    (hstep : step port s .handleHeartbeat = some t) :
    ∃ data current rest response, s.heartbeat = .beating current rest .sent ∧
      (current ∈ services → Serving.registration data = some (key port current)) ∧
        t =
          { s with
            serving := (s.serving.handle data).1
            heartbeat := .beating current rest (.answered response) } := by
  simp only [step] at hstep
  split at hstep
  · next current rest hplace =>
    obtain ⟨response, hafter⟩ := handleHeartbeat_eq (s := s) current rest
      (heartbeatData port current)
    exact ⟨_, current, rest, response, hplace, registration_heartbeat hport hrange,
      (Option.some.inj hstep).symm.trans hafter⟩
  · cases hstep

/-- **The invariant is kept** by every step that is prompt. -/
theorem Invariant.step (hs : Invariant port delay s)
    (hsmall : heartbeatInterval + 2 * delay ≤ heartbeatTimeout) (hport : 0 < port)
    (hrange : port < 2 ^ 31) {a : Action} (hprompt : Prompt delay s a)
    (hstep : step port s a = some t) : Invariant port delay t := by
  cases a with
  | registry action =>
    obtain ⟨serving, hserving, rfl⟩ := Option.map_eq_some_iff.mp hstep
    exact ⟨Serving.ledger_step hs.ledger hserving, hs.unstarted,
      fun hrunning => (hs.kept hrunning).registry hsmall hrunning hprompt hserving⟩
  | start =>
    obtain ⟨-, heq⟩ := Option.ite_none_right_eq_some.mp hstep
    obtain rfl := Option.some.inj heq
    exact ⟨hs.ledger, fun h => Heartbeat.noConfusion h,
      fun _ => Kept.start hsmall rfl rfl rfl rfl⟩
  | stop =>
    obtain rfl := Option.some.inj hstep
    exact ⟨hs.ledger, fun _ => rfl, fun h => absurd h Bool.false_ne_true⟩
  | register ok =>
    obtain ⟨place, rfl⟩ := register_cases hstep
    exact ⟨hs.ledger, hs.unstarted,
      fun hrunning => (hs.kept hrunning).same hsmall rfl rfl rfl rfl fun _ => rfl⟩
  | beat ok =>
    obtain ⟨hserving, hrunning, -, hplace⟩ := beat_cases hstep
    refine ⟨hserving ▸ hs.ledger, fun h => absurd h hplace, fun h => ?_⟩
    rw [hrunning] at h
    obtain rfl : ok = true := hprompt h
    exact (hs.kept h).beat hsmall h hstep
  | handleRegistration =>
    obtain ⟨data, place, rfl⟩ := step_handleRegistration hstep
    exact ⟨hs.ledger.handle data, hs.unstarted,
      fun hrunning => (hs.kept hrunning).handle hsmall data rfl rfl rfl rfl⟩
  | handleHeartbeat =>
    obtain ⟨data, current, rest, response, hplace, hregisters, rfl⟩ :=
      step_handleHeartbeat hport hrange hstep
    exact ⟨hs.ledger.handle data, fun h => Heartbeat.noConfusion h, fun hrunning =>
      (hs.kept hrunning).handleHeartbeat hsmall hplace hregisters rfl rfl rfl rfl⟩

theorem invariant_init : Invariant port delay {} where
  ledger := Serving.ledger_init
  unstarted _ := rfl
  kept h := absurd h Bool.false_ne_true

/-- While all is kept, what was registered since the start is listed; and all is registered when
the first round has ended. -/
theorem Kept.listed (hs : Kept port delay s) (hledger : Serving.Ledger s.serving)
    (hsmall : heartbeatInterval + 2 * delay ≤ heartbeatTimeout) {serviceName : Bytes}
    (hname : serviceName ∈ services)
    (h : (∃ r, s.Latest port serviceName r ∧ s.startedAt ≤ r) ∨
      s.startedAt + heartbeatDelay + delay < s.serving.now) :
    ⟨host, port⟩ ∈ s.serving.answer serviceName := by
  have hlate := hs.now_le
  have hswept := hledger.swept_le
  have hinterval : 0 ≤ heartbeatInterval := by decide
  have hsince : ∃ r, s.Latest port serviceName r ∧ s.startedAt ≤ r :=
    h.elim id fun hpast => hs.later (by omega) serviceName hname
  obtain ⟨r, hr, hstarted⟩ := hsince
  refine (hledger.mem_answer_iff serviceName ⟨host, port⟩).mpr ⟨r, hr, ?_⟩
  by_cases hp : s.heartbeat.pending serviceName
  · have hnext := hs.pending serviceName hname hp r hr hstarted
    omega
  · obtain ⟨r', hr', hround⟩ := hs.handled serviceName hname hp
    obtain rfl : r' = r := Option.some.inj (hr'.symm.trans hr)
    omega

end Steps

end KeepAlive

/-! ### How late a round may end -/

/-- In every prompt run of a server on some port, while it runs, a service is listed that was
registered since the start, and each of the services when the first round was to have ended. -/
def KeepAlive.StaysListed (delay : ℕ) : Prop :=
  ∀ port : ℤ, 0 < port → port < 2 ^ 31 → ∀ (as : List KeepAlive.Action) (t : KeepAlive.State),
    ((keepAlive port).restrict (Prompt delay)).exec (keepAlive port).init as = some t →
      t.running = true → ∀ serviceName ∈ services,
        ((∃ r, t.Latest port serviceName r ∧ t.startedAt ≤ r) ∨
            t.startedAt + heartbeatDelay + delay < t.serving.now) →
          ⟨host, port⟩ ∈ t.serving.answer serviceName

theorem KeepAlive.staysListed_of_small {delay : ℕ}
    (hsmall : heartbeatInterval + 2 * delay ≤ heartbeatTimeout) : StaysListed delay := by
  intro port hport hrange as t h hrunning serviceName hname hsince
  have ht : Invariant port delay t := by
    refine System.exec_invariant ?_ invariant_init h
    intro s a u hs hst
    obtain ⟨hprompt, hstep⟩ := System.step_restrict.mp hst
    exact hs.step hsmall hport hrange hprompt hstep
  exact (ht.kept hrunning).listed ht.ledger hsmall hname hsince

/-- The first heartbeat of a round that ends `delay` after it was due, and the registry sweeps
just when the next round is as late. -/
def KeepAlive.sampleLate (delay : ℕ) : List KeepAlive.Action :=
  [.start, .registry (.pass (2 * 10 ^ 9)), .beat true, .beat true, .beat true, .beat true,
    .handleHeartbeat, .registry (.pass delay), .beat true, .beat true, .beat true,
    .handleHeartbeat, .beat true, .registry (.pass (15 * 10 ^ 9 + delay)),
    .registry .checkHeartbeat]

/-- A nanosecond more than seven and a half seconds is too late. -/
theorem KeepAlive.sampleLate_unlisted : ∃ t,
    ((keepAlive 8080).restrict (Prompt 7500000001)).exec (keepAlive 8080).init
        (sampleLate 7500000001) = some t ∧
      t.running = true ∧
      (t.serving.latest (key 8080 (utf8 "EchoService"))).any (fun r => t.startedAt ≤ r) = true ∧
      ⟨host, 8080⟩ ∉ t.serving.answer (utf8 "EchoService") := by
  obtain ⟨t, ht, htest⟩ := ((keepAlive 8080).restrict (Prompt 7500000001)).exists_exec_of_any
    (keepAlive 8080).init (sampleLate 7500000001)
    (fun t => t.running &&
      (t.serving.latest (key 8080 (utf8 "EchoService"))).any (fun r => t.startedAt ≤ r) &&
      decide (⟨host, 8080⟩ ∉ t.serving.answer (utf8 "EchoService"))) (by decide +kernel)
  simp only [Bool.and_eq_true, decide_eq_true_eq] at htest
  exact ⟨t, ht, htest.1.1, htest.1.2, htest.2⟩

/-- **How late a round may end**: in every run in which no exchange of a heartbeat fails, whatever
becomes of the registrations and whatever else the registry is sent, the services stay listed
if no round ends more than half of what the timeout leaves of the interval after it was due; and
there is a run in which one does not if rounds may be any later. -/
theorem keepAlive_listed_iff (delay : ℕ) :
    KeepAlive.StaysListed delay ↔ heartbeatInterval + 2 * delay ≤ heartbeatTimeout := by
  constructor
  · intro hall
    by_contra hlate
    have hdelay : 7500000001 ≤ delay := by
      norm_num [heartbeatInterval, heartbeatTimeout] at hlate
      omega
    obtain ⟨t, ht, hrunning, hlatest, hunlisted⟩ := KeepAlive.sampleLate_unlisted
    obtain ⟨r, hr, hsince⟩ := (Option.any_eq_true _ _).mp hlatest
    -- what is prompt by the shorter delay is so by the longer
    have hprompt : ∀ s a, Prompt 7500000001 s a → Prompt delay s a := by
      intro s a h
      cases a with
      | registry action =>
        cases action with
        | pass time =>
          intro hrunning
          have hle := h hrunning
          omega
        | _ => trivial
      | beat ok => exact h
      | _ => trivial
    exact hunlisted (hall 8080 (by norm_num) (by norm_num) _ t
      (System.exec_restrict_mono hprompt ht) hrunning (utf8 "EchoService") (by decide)
      (Or.inl ⟨r, hr, of_decide_eq_true hsince⟩))
  · exact KeepAlive.staysListed_of_small
