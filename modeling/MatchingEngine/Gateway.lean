import MatchingEngine.Recovery

/-!
# Gateway: a request from its waiter to its answer

`submit_command` and `run_result_subscriber` of the API, for any number of API
processes beside the engine of `Runtime`. A request draws a correlation id,
registers a waiter under it, appends its envelope to `commands`, and waits five
seconds for the subscriber to hand it the reply it heard on `results`.

Everything in between is asynchronous: Redis may execute an `XADD` whose answer
the process never sees, or one that was given up already; a client may go away;
a subscription or a process may end. Correlation ids are fresh (`Uuid::new_v4`).
-/

namespace MatchingEngine

open RustArith HashModel LogModel SystemModel

/-! ## Answers -/

/-- The statuses the API answers with. -/
inductive StatusCode where
  | ok
  | noContent
  | badRequest
  | unauthorized
  | forbidden
  | notFound
  | conflict
  | internalServerError
  | gatewayTimeout
deriving DecidableEq, Repr

/-- The errors of the API, without the texts that come from its libraries. -/
inductive ApiError where
  | unauthorized
  | forbidden
  | emailTaken
  | badRequest (message : String)
  | notFound
  | timeout
  | internal
deriving DecidableEq, Repr

/-- The bodies that go with them, before they are serialized. -/
inductive Body where
  | empty
  | placed (placed : PlaceOrderResponse)
  | reason (reason : RejectReason)
  /-- `{ "available": .. }` -/
  | available (available : UInt64)
deriving DecidableEq

/-- An HTTP answer. -/
structure Response where
  status : StatusCode
  body : Body
deriving DecidableEq

/-- `ApiError::into_response`; the body of an error is text, and left out. -/
def ApiError.intoResponse : ApiError → Response
  | .unauthorized => ⟨.unauthorized, .empty⟩
  | .forbidden => ⟨.forbidden, .empty⟩
  | .emailTaken => ⟨.conflict, .empty⟩
  | .badRequest _ => ⟨.badRequest, .empty⟩
  | .notFound => ⟨.notFound, .empty⟩
  | .timeout => ⟨.gatewayTimeout, .empty⟩
  | .internal => ⟨.internalServerError, .empty⟩

/-- "The one place engine responses become HTTP responses." -/
def responseFor : CommandResponse → Response
  | .place (.ok r) => ⟨.ok, .placed r⟩
  | .place (.error e) => ⟨.badRequest, .reason e⟩
  | .cancel true => ⟨.noContent, .empty⟩
  | .cancel false => ApiError.notFound.intoResponse
  | .deposit (.ok available) => ⟨.ok, .available available⟩
  | .deposit (.error e) => ⟨.badRequest, .reason e⟩
  | .withdraw (.ok _) => ⟨.noContent, .empty⟩
  | .withdraw (.error e) => ⟨.badRequest, .reason e⟩
  | .listPair (.ok _) => ⟨.noContent, .empty⟩
  | .listPair (.error e) => ⟨.badRequest, .reason e⟩
  | .delistPair true => ⟨.noContent, .empty⟩
  | .delistPair false => ApiError.notFound.intoResponse
  | .duplicate => ⟨.conflict, .empty⟩

/-! ## `submit_command` -/

/-- How far a handler is in `submit_command`. Nobody is answered from `dropped` or
`lost`. -/
inductive Phase where
  /-- the waiter is registered, the `XADD` is under way -/
  | registered
  /-- in the `timeout` -/
  | waiting
  /-- the `XADD` returned an error -/
  | failed
  /-- no reply in time -/
  | expired
  | done (result : Except ApiError CommandResponse)
  /-- the client went away, and the future was dropped -/
  | dropped
  /-- the process ended -/
  | lost

/-- A request in `submit_command`: the process that serves it, what it sent, and what it
got. The id in the envelope is the waiter's. -/
structure Handler where
  server : ℕ
  envelope : CommandEnvelope
  /-- Redis executed the `XADD` -/
  sent : Bool
  /-- what the oneshot channel holds -/
  slot : Option ResponseEnvelope
  phase : Phase

/-- A handler that starts to wait. -/
def Handler.new (server : ℕ) (envelope : CommandEnvelope) : Handler where
  server := server
  envelope := envelope
  sent := false
  slot := none
  phase := .registered

/-- The parts of `submit_command` that only move the handler. -/
inductive Move where
  /-- the `XADD` returned the entry's id -/
  | logged
  | logFailed
  | answer
  | expire
  | drop

/-- The next state of a handler, `none` where it cannot move so. `timeout`
polls the receiver before the deadline, so it only expires without a reply. -/
def Handler.move (h : Handler) : Move → Option Handler
  | .logged =>
      match h.phase with
      | .registered => if h.sent then some { h with phase := .waiting } else none
      | _ => none
  | .logFailed =>
      match h.phase with
      | .registered => some { h with phase := .failed }
      | _ => none
  | .answer =>
      match h.phase, h.slot with
      | .waiting, some reply => some { h with phase := .done (.ok reply.response) }
      | _, _ => none
  | .expire =>
      match h.phase, h.slot with
      | .waiting, none => some { h with phase := .expired }
      | _, _ => none
  | .drop =>
      match h.phase with
      | .registered => some { h with phase := .dropped }
      | .waiting => some { h with phase := .dropped }
      | _ => none

/-- The error a handler returns once its waiter is removed. -/
def Phase.error? : Phase → Option ApiError
  | .failed => some .internal
  | .expired => some .timeout
  | _ => none

/-- Nobody removed the waiter yet, unless the subscriber did. -/
def Phase.registers : Phase → Bool
  | .done _ => false
  | .lost => false
  | _ => true

/-- The waiter of the handler is in the map. -/
def Handler.waits (h : Handler) : Bool := h.phase.registers && h.slot.isNone

/-! ## The processes -/

/-- `run_result_subscriber`; it is started once, with its process. -/
inductive Subscriber where
  | starting
  /-- subscribed, with the next message -/
  | listening (next : ℕ)
  | ended

/-- One API process. -/
structure ApiServer where
  pending : Finset Uuid
  subscriber : Subscriber

/-- Redis and the engine, the API processes by number, and the requests by correlation
id. A request stays here when it is answered. -/
structure Gateway where
  world : World
  servers : ℕ → ApiServer
  handlers : HashMap Uuid Handler

/-- No request yet, and no process subscribed. -/
def Gateway.init : Gateway where
  world := .init
  servers := fun _ => ⟨∅, .starting⟩
  handlers := ∅

/-- One process changes. -/
def Gateway.setServer (g : Gateway) (i : ℕ) (server : ApiServer) : Gateway :=
  { g with servers := Function.update g.servers i server }

/-- One request changes, or is new. -/
def Gateway.setHandler (g : Gateway) (id : Uuid) (h : Handler) : Gateway :=
  { g with handlers := g.handlers.insert id h }

/-- Who moves. The `XADD` of a request (`log`) and what its handler learns of it
(`move`) are two steps: Redis may execute an `XADD` whose answer gets lost, or execute
it after the handler gave up. -/
inductive GatewayAction where
  /-- the engine process; also an entry that does not parse -/
  | engine (a : Action)
  /-- a request arrives at an API process, which registers a waiter -/
  | submit (i : ℕ) (envelope : CommandEnvelope)
  /-- Redis executes the `XADD` of a request -/
  | log (id : Uuid)
  | move (id : Uuid) (m : Move)
  /-- the two error paths remove their waiter -/
  | unregister (id : Uuid)
  | subscribe (i : ℕ)
  /-- the next message on `results` -/
  | hear (i : ℕ)
  | endSubscription (i : ℕ)
  /-- an API process ends, another one starts in its place -/
  | restart (i : ℕ)

/-- An entry with an envelope on `commands`: only the API appends these. -/
def Action.appends : Action → Bool
  | .append (some _) => true
  | _ => false

/-- Whether a request arrives. -/
def GatewayAction.submits : GatewayAction → Bool
  | .submit _ _ => true
  | _ => false

/-- The end of a process for one of the handlers. -/
def Handler.lose (i : ℕ) (h : Handler) : Handler :=
  if h.server = i ∧ h.phase.registers then { h with phase := .lost } else h

/-- The next state, `none` where the action cannot be taken. -/
def Gateway.step (cfg : Config) (g : Gateway) : GatewayAction → Option Gateway
  | .engine a =>
      if a.appends then none
      else (g.world.step cfg a).map fun world => { g with world := world }
  | .submit i envelope =>
      match g.handlers.lookup envelope.correlationId with
      | some _ => none
      | none =>
          let server := g.servers i
          some ((g.setServer i
            { server with pending := insert envelope.correlationId server.pending }).setHandler
              envelope.correlationId (.new i envelope))
  | .log id =>
      match g.handlers.lookup id with
      | some h =>
          if h.sent then none
          else
            some ({ g with
              world := { g.world with
                commands := g.world.commands.append (some h.envelope) } }.setHandler id
                  { h with sent := true })
      | none => none
  | .move id m => do
      let h ← g.handlers.lookup id
      let h ← h.move m
      pure (g.setHandler id h)
  | .unregister id => do
      let h ← g.handlers.lookup id
      let error ← h.phase.error?
      let server := g.servers h.server
      pure ((g.setServer h.server { server with pending := server.pending.erase id }).setHandler id
        { h with phase := .done (.error error) })
  | .subscribe i =>
      match (g.servers i).subscriber with
      | .starting =>
          some (g.setServer i
            { g.servers i with subscriber := .listening g.world.results.length })
      | _ => none
  | .hear i =>
      match (g.servers i).subscriber with
      | .listening next => do
          let reply ← g.world.results[next]?
          let server : ApiServer := { g.servers i with subscriber := .listening (next + 1) }
          -- an absent waiter timed out, or is another process'
          if reply.correlationId ∈ server.pending then
            let h ← g.handlers.lookup reply.correlationId
            pure ((g.setServer i
              { server with pending := server.pending.erase reply.correlationId }).setHandler
                reply.correlationId { h with slot := some reply })
          else pure (g.setServer i server)
      | _ => none
  | .endSubscription i => some (g.setServer i { g.servers i with subscriber := .ended })
  | .restart i =>
      some { g.setServer i ⟨∅, .starting⟩ with handlers := mapValues (Handler.lose i) g.handlers }

/-! ## What an action does -/

/-- What each action can lead to. The invariants go by cases on this, and none of them
unfolds the step. -/
inductive Served (cfg : Config) (g : Gateway) : GatewayAction → Gateway → Prop where
  | engine {a : Action} {world : World} (hnone : a.appends = false)
      (hstep : g.world.step cfg a = some world) : Served cfg g (.engine a) { g with world := world }
  | submit (i : ℕ) {envelope : CommandEnvelope}
      (hfresh : g.handlers.lookup envelope.correlationId = none) :
      Served cfg g (.submit i envelope)
        ((g.setServer i
          { g.servers i with pending := insert envelope.correlationId (g.servers i).pending
            }).setHandler envelope.correlationId (.new i envelope))
  | log {id : Uuid} {h : Handler} (hlookup : g.handlers.lookup id = some h)
      (hunsent : h.sent = false) :
      Served cfg g (.log id)
        ({ g with
          world := { g.world with commands := g.world.commands.append (some h.envelope) }
          }.setHandler id { h with sent := true })
  | move {id : Uuid} {h h' : Handler} {m : Move} (hlookup : g.handlers.lookup id = some h)
      (hmove : h.move m = some h') : Served cfg g (.move id m) (g.setHandler id h')
  | unregister {id : Uuid} {h : Handler} {error : ApiError}
      (hlookup : g.handlers.lookup id = some h) (herror : h.phase.error? = some error) :
      Served cfg g (.unregister id)
        ((g.setServer h.server
          { g.servers h.server with pending := (g.servers h.server).pending.erase id
            }).setHandler id { h with phase := .done (.error error) })
  /-- a subscription starts or ends, or hears what nobody here waits for -/
  | listen {a : GatewayAction} (hnone : a.submits = false) (i : ℕ) (subscriber : Subscriber) :
      Served cfg g a (g.setServer i { g.servers i with subscriber := subscriber })
  | hear {i next : ℕ} {reply : ResponseEnvelope} {h : Handler}
      (hreply : g.world.results[next]? = some reply)
      (hwaits : reply.correlationId ∈ (g.servers i).pending)
      (hlookup : g.handlers.lookup reply.correlationId = some h) :
      Served cfg g (.hear i)
        ((g.setServer i
          { pending := (g.servers i).pending.erase reply.correlationId
            subscriber := .listening (next + 1) }).setHandler
              reply.correlationId { h with slot := some reply })
  | restart (i : ℕ) :
      Served cfg g (.restart i)
        { g.setServer i ⟨∅, .starting⟩ with handlers := mapValues (Handler.lose i) g.handlers }

theorem Gateway.step_cases {cfg : Config} {g g' : Gateway} {a : GatewayAction}
    (h : g.step cfg a = some g') : Served cfg g a g' := by
  cases a with
  | engine a =>
      simp only [Gateway.step] at h
      split at h
      · cases h
      · rename_i hnone
        obtain ⟨world, hstep, rfl⟩ := Option.map_eq_some_iff.mp h
        exact .engine (Bool.eq_false_iff.mpr hnone) hstep
  | submit i envelope =>
      simp only [Gateway.step] at h
      split at h
      · cases h
      · cases h
        exact .submit i ‹_›
  | log id =>
      simp only [Gateway.step] at h
      split at h
      · split at h
        · cases h
        · rename_i hlookup hunsent
          cases h
          exact .log hlookup (Bool.eq_false_iff.mpr hunsent)
      · cases h
  | move id m =>
      obtain ⟨hd, hlookup, h⟩ := Option.bind_eq_some_iff.mp h
      obtain ⟨hd', hmove, h⟩ := Option.bind_eq_some_iff.mp h
      cases h
      exact .move hlookup hmove
  | unregister id =>
      obtain ⟨hd, hlookup, h⟩ := Option.bind_eq_some_iff.mp h
      obtain ⟨error, herror, h⟩ := Option.bind_eq_some_iff.mp h
      cases h
      exact .unregister hlookup herror
  | subscribe i =>
      simp only [Gateway.step] at h
      split at h
      · cases h
        exact .listen rfl i _
      · cases h
  | hear i =>
      simp only [Gateway.step] at h
      split at h
      · obtain ⟨reply, hreply, h⟩ := Option.bind_eq_some_iff.mp h
        split at h
        · obtain ⟨hd, hlookup, h⟩ := Option.bind_eq_some_iff.mp h
          cases h
          exact .hear hreply ‹_› hlookup
        · cases h
          exact .listen rfl i _
      · cases h
  | endSubscription i =>
      cases h
      exact .listen rfl i _
  | restart i =>
      cases h
      exact .restart i

/-! ## Handlers after an action -/

section Handlers

variable {g : Gateway} {id id' : Uuid} {i j : ℕ} {h : Handler} {server : ApiServer}

theorem lookup_setHandler :
    (g.setHandler id h).handlers.lookup id' = if id' = id then some h else g.handlers.lookup id' :=
  lookup_insert_ite id id' h g.handlers

theorem servers_setServer :
    (g.setServer i server).servers j = if j = i then server else g.servers j :=
  Function.update_apply g.servers i server j

theorem Handler.move_frame {h' : Handler} {m : Move} (hmove : h.move m = some h') :
    h'.server = h.server ∧ h'.envelope = h.envelope ∧ h'.sent = h.sent ∧ h'.slot = h.slot := by
  unfold Handler.move at hmove
  split at hmove <;> split at hmove <;> first
    | (cases hmove; exact ⟨rfl, rfl, rfl, rfl⟩)
    | (split at hmove <;> cases hmove; exact ⟨rfl, rfl, rfl, rfl⟩)
    | cases hmove

end Handlers

end MatchingEngine
