import MatchingEngine.Gateway
import MatchingEngine.Idempotency

/-!
# Replies: what the client is told is what happened

The reply a handler returns is the one `apply` gave its own command, at the
place the command has on the log (`reply_integrity`), whatever the engine, the
subscribers and the other requests did in between.
-/

namespace MatchingEngine

open RustArith HashModel LogModel SystemModel

/-! ## The engine's side -/

/-- The entry after the first `k`, applied to the fold of these, is answered
`response`. -/
def AnsweredAt (cfg : Config) (commands : Log CommandEnvelope) (k : ℕ)
    (envelope : CommandEnvelope) (response : CommandResponse) : Prop :=
  commands.all[k]? = some (some envelope) ∧
    ∃ e h o e' batch, cfg.fold (commands.upTo k) = .ok (e, h) ∧
      apply cfg.build o e envelope.accountId envelope.clientOrderId envelope.command
        = .ok (e', response, batch)

/-- The reply that is not published yet. -/
def Process.reply? : Process → Option ResponseEnvelope
  | .running _ _ _ (.applied _ reply _) => some reply
  | .running _ _ _ (.emitted _ reply) => some reply
  | _ => none

/-- Some entry with the reply's correlation id was answered so. -/
def Answers (cfg : Config) (commands : Log CommandEnvelope) (reply : ResponseEnvelope) : Prop :=
  ∃ k envelope, envelope.correlationId = reply.correlationId ∧
    AnsweredAt cfg commands k envelope reply.response

/-- Every reply answers an entry of the log, with what `apply` returns there. -/
structure World.Answered (cfg : Config) (w : World) : Prop where
  results : ∀ reply ∈ w.results, Answers cfg w.commands reply
  reply : ∀ reply, w.process.reply? = some reply → Answers cfg w.commands reply

section World

variable {cfg : Config} {w w' : World} {a : Action} {commands : Log CommandEnvelope}

theorem Answers.append {reply : ResponseEnvelope} (h : Answers cfg commands reply)
    (entry : Option CommandEnvelope) : Answers cfg (commands.append entry) reply := by
  obtain ⟨k, envelope, hid, hget, hanswer⟩ := h
  have hlt : k < commands.all.length := (List.getElem?_eq_some_iff.mp hget).1
  refine ⟨k, envelope, hid, ?_, ?_⟩
  · rw [Log.append, List.getElem?_append_left hlt]
    exact hget
  · rw [Log.upTo_append hlt.le]
    exact hanswer

/-- **One action of the engine**. -/
theorem World.Answered.stepped (hw : w.Answered cfg) (hs : w.Sound cfg) (h : Stepped cfg w a w') :
    w'.Answered cfg := by
  have hold := hs.process
  cases h with
  | append entry =>
      exact ⟨fun reply hin => (hw.results reply hin).append entry,
        fun reply hin => (hw.reply reply hin).append entry⟩
  | fault => exact ⟨hw.results, hw.reply⟩
  | @apply o engine engine' since id env reply response batch hrunning hret =>
      refine ⟨hw.results, fun reply hin => ?_⟩
      cases hin
      rw [hrunning] at hold
      obtain ⟨done, hread⟩ := hold
      obtain ⟨_, _, hget, _⟩ := Log.segment_cons hread.rest.symm
      obtain ⟨h, hfold⟩ := hread.here.fold
      exact ⟨done, env, rfl, hget, engine, h, o, engine', batch, hfold, hret⟩
  | @emit engine since id reply response batch hrunning =>
      refine ⟨hw.results, fun reply hin => hw.reply reply ?_⟩
      rw [hrunning]
      exact hin
  | @publish engine since id reply response delivered hrunning =>
      refine ⟨fun reply hin => ?_, fun reply hin => by cases hin⟩
      cases delivered with
      | true =>
          rcases List.mem_append.mp hin with hin | hin
          · exact hw.results reply hin
          · rw [List.mem_singleton.mp hin]
            exact hw.reply response (by rw [hrunning]; rfl)
      | false => exact hw.results reply hin
  | trim => exact ⟨hw.results, fun reply hin => by cases hin⟩
  | _ => exact ⟨hw.results, fun reply hin => by cases hin⟩

/-- The engine does not change what is on `commands`, and takes no reply back. -/
theorem Stepped.keeps (h : Stepped cfg w a w') (hnone : a.appends = false) :
    w'.commands.all.reduceOption = w.commands.all.reduceOption ∧ w.results <+: w'.results := by
  cases h with
  | append entry =>
      cases entry with
      | some envelope => cases hnone
      | none =>
          refine ⟨?_, List.prefix_refl _⟩
          rw [Log.append, List.reduceOption_append]
          exact List.append_nil _
  | publish delivered hrunning =>
      cases delivered with
      | true => exact ⟨rfl, List.prefix_append _ _⟩
      | false => exact ⟨rfl, List.prefix_refl _⟩
  | _ => exact ⟨rfl, List.prefix_refl _⟩

end World

/-! ## The API's side: what is on the log -/

/-- Every envelope on `commands` is that of one handler, which sent it once. -/
structure Gateway.Logged (g : Gateway) : Prop where
  named : ∀ id h, g.handlers.lookup id = some h → h.envelope.correlationId = id
  sent : ∀ envelope ∈ g.world.commands.all.reduceOption,
    ∃ h, g.handlers.lookup envelope.correlationId = some h ∧ h.envelope = envelope ∧ h.sent = true
  once : (g.world.commands.all.reduceOption.map CommandEnvelope.correlationId).Nodup

section Logged

variable {cfg : Config} {g g' : Gateway} {a : GatewayAction} {id : Uuid} {h h' : Handler}

/-- Other handlers in place of the ones there are, with the same envelopes. -/
theorem Gateway.Logged.replace (hl : g.Logged)
    (hall : g'.world.commands.all.reduceOption = g.world.commands.all.reduceOption)
    (hnamed : ∀ id h', g'.handlers.lookup id = some h' → h'.envelope.correlationId = id)
    (hkept : ∀ id h, g.handlers.lookup id = some h → ∃ h', g'.handlers.lookup id = some h' ∧
      h'.envelope = h.envelope ∧ (h.sent = true → h'.sent = true)) : g'.Logged where
  named := hnamed
  sent := fun envelope hin => by
    rw [hall] at hin
    obtain ⟨h, hlookup, henvelope, hsent⟩ := hl.sent envelope hin
    obtain ⟨h', hlookup', henvelope', hsent'⟩ := hkept _ h hlookup
    exact ⟨h', hlookup', henvelope'.trans henvelope, hsent' hsent⟩
  once := by
    rw [hall]
    exact hl.once

theorem Gateway.Logged.setHandler (hl : g.Logged) (hlookup : g.handlers.lookup id = some h)
    (hall : g'.world.commands.all.reduceOption = g.world.commands.all.reduceOption)
    (hhandlers : g'.handlers = g.handlers.insert id h') (henvelope : h'.envelope = h.envelope)
    (hsent : h.sent = true → h'.sent = true) : g'.Logged := by
  refine hl.replace hall (fun id' h₁ hlookup₁ => ?_) fun id' h₀ hlookup₀ => ?_
  · rw [hhandlers, lookup_insert_ite] at hlookup₁
    split at hlookup₁
    · rename_i hid
      cases hlookup₁
      rw [henvelope, hid, hl.named id h hlookup]
    · exact hl.named id' h₁ hlookup₁
  · rw [hhandlers, lookup_insert_ite]
    split
    · rename_i hid
      rw [hid, hlookup] at hlookup₀
      cases hlookup₀
      exact ⟨h', rfl, henvelope, hsent⟩
    · exact ⟨h₀, hlookup₀, rfl, fun hsent => hsent⟩

/-- The entry of a handler that was not sent yet. -/
theorem Gateway.Logged.log (hl : g.Logged) (hlookup : g.handlers.lookup id = some h)
    (hunsent : h.sent = false) : Gateway.Logged
    ({ g with
      world := { g.world with commands := g.world.commands.append (some h.envelope) }
      }.setHandler id { h with sent := true }) := by
  have hall : (g.world.commands.append (some h.envelope)).all.reduceOption
      = g.world.commands.all.reduceOption ++ [h.envelope] := by
    rw [Log.append, List.reduceOption_append]
    rfl
  have hnamed := hl.named id h hlookup
  constructor
  case named =>
    intro id' h' hlookup'
    rw [lookup_setHandler] at hlookup'
    split at hlookup'
    · rename_i hid
      cases hlookup'
      exact hnamed.trans hid.symm
    · exact hl.named id' h' hlookup'
  case sent =>
    intro envelope hin
    rw [lookup_setHandler]
    rcases List.mem_append.mp (hall ▸ hin) with hin | hin
    · obtain ⟨h', hlookup', henvelope, hsent⟩ := hl.sent envelope hin
      split
      · rename_i hid
        rw [hid, hlookup] at hlookup'
        cases hlookup'
        exact ⟨_, rfl, henvelope, rfl⟩
      · exact ⟨h', hlookup', henvelope, hsent⟩
    · rw [List.mem_singleton.mp hin, if_pos hnamed]
      exact ⟨_, rfl, rfl, rfl⟩
  case once =>
    show ((g.world.commands.append (some h.envelope)).all.reduceOption.map _).Nodup
    rw [hall, List.map_append, List.nodup_append]
    refine ⟨hl.once, List.nodup_singleton _, fun x hx y hy heq => ?_⟩
    -- whoever has the id on the log already is this handler, and it was sent
    obtain ⟨envelope, hin, hx⟩ := List.mem_map.mp hx
    have hid : envelope.correlationId = id := by
      rw [hx, heq, List.mem_singleton.mp hy, hnamed]
    obtain ⟨h', hlookup', _, hsent⟩ := hl.sent envelope hin
    rw [hid, hlookup] at hlookup'
    cases hlookup'
    rw [hunsent] at hsent
    cases hsent

theorem Handler.lose_frame (i : ℕ) (h : Handler) :
    (h.lose i).server = h.server ∧ (h.lose i).envelope = h.envelope ∧
      (h.lose i).sent = h.sent ∧ (h.lose i).slot = h.slot := by
  unfold Handler.lose
  split <;> exact ⟨rfl, rfl, rfl, rfl⟩

/-- **One action** of anybody. -/
theorem Gateway.Logged.stepped (hl : g.Logged) (h : Served cfg g a g') : g'.Logged := by
  cases h with
  | engine hnone hstep =>
      exact hl.replace ((World.step_cases hstep).keeps hnone).1 hl.named
        fun _ h hlookup => ⟨h, hlookup, rfl, fun hsent => hsent⟩
  | @submit i envelope hfresh =>
      refine hl.replace rfl (fun id' h' hlookup' => ?_) fun id' h₀ hlookup₀ => ?_
      · rw [lookup_setHandler] at hlookup'
        split at hlookup'
        · rename_i hid
          cases hlookup'
          exact hid.symm
        · exact hl.named id' h' hlookup'
      · refine ⟨h₀, ?_, rfl, fun hsent => hsent⟩
        rw [lookup_setHandler, if_neg]
        · exact hlookup₀
        · rintro rfl
          rw [hfresh] at hlookup₀
          cases hlookup₀
  | log hlookup hunsent => exact hl.log hlookup hunsent
  | move hlookup hmove =>
      obtain ⟨_, henvelope, hsent, _⟩ := Handler.move_frame hmove
      exact hl.setHandler hlookup rfl rfl henvelope fun h => hsent.trans h
  | unregister hlookup => exact hl.setHandler hlookup rfl rfl rfl fun h => h
  | listen => exact ⟨hl.named, hl.sent, hl.once⟩
  | hear _ _ hlookup => exact hl.setHandler hlookup rfl rfl rfl fun h => h
  | restart i =>
      refine hl.replace rfl (fun id' h' hlookup' => ?_) fun id' h₀ hlookup₀ => ?_
      · rw [lookup_mapValues] at hlookup'
        obtain ⟨h₀, hlookup₀, rfl⟩ := Option.map_eq_some_iff.mp hlookup'
        rw [(h₀.lose_frame i).2.1]
        exact hl.named id' h₀ hlookup₀
      · obtain ⟨_, henvelope, hsent, _⟩ := h₀.lose_frame i
        refine ⟨h₀.lose i, ?_, henvelope, fun h => hsent.trans h⟩
        rw [lookup_mapValues, hlookup₀]
        rfl

theorem Gateway.init_logged : Gateway.init.Logged where
  named := fun _ _ hlookup => by cases hlookup
  sent := fun _ hin => absurd hin List.not_mem_nil
  once := List.nodup_nil

end Logged

/-! ## The API's side: what is handed out -/

/-- What a handler was given was published for it. -/
structure Handler.Sound (results : List ResponseEnvelope) (id : Uuid) (h : Handler) : Prop where
  slot : ∀ reply, h.slot = some reply → reply ∈ results ∧ reply.correlationId = id
  done : ∀ response, h.phase = .done (.ok response) →
    ∃ reply ∈ results, reply.correlationId = id ∧ reply.response = response

/-- The engine is sound, and every answer under way is one it gave. -/
structure Gateway.Sound (cfg : Config) (g : Gateway) : Prop where
  world : g.world.Sound cfg
  answered : g.world.Answered cfg
  handlers : ∀ id h, g.handlers.lookup id = some h → h.Sound g.world.results id

/-- A boot of the engine replays only where nothing it needs is gone. -/
def Gateway.Recovers (cfg : Config) (g : Gateway) (a : GatewayAction) : Prop :=
  ∀ o, a = .engine (.recover o) → g.world.Recoverable cfg

section Gateway

variable {cfg : Config} {g g' : Gateway} {a : GatewayAction} {results : List ResponseEnvelope}
  {id : Uuid} {h h' : Handler}

theorem Handler.Sound.mono {results' : List ResponseEnvelope} (hh : h.Sound results id)
    (hmore : results <+: results') : h.Sound results' id where
  slot := fun reply hslot => ⟨hmore.subset (hh.slot reply hslot).1, (hh.slot reply hslot).2⟩
  done := fun response hdone => by
    obtain ⟨reply, hin, hreply⟩ := hh.done response hdone
    exact ⟨reply, hmore.subset hin, hreply⟩

/-- No reply is in the slot, and none was returned. -/
theorem Handler.Sound.of_none (hslot : h.slot = none)
    (hphase : ∀ response, h.phase ≠ .done (.ok response)) : h.Sound results id where
  slot := fun reply hreply => by
    rw [hslot] at hreply
    cases hreply
  done := fun response hdone => absurd hdone (hphase response)

theorem Handler.Sound.move {m : Move} (hh : h.Sound results id) (hmove : h.move m = some h') :
    h'.Sound results id := by
  obtain ⟨_, _, _, hslot⟩ := Handler.move_frame hmove
  refine ⟨fun reply hreply => hh.slot reply (hslot ▸ hreply), fun response hdone => ?_⟩
  cases m with
  | answer =>
      simp only [Handler.move] at hmove
      split at hmove
      · rename_i reply _ hgiven
        cases hmove
        cases hdone
        obtain ⟨hin, hid⟩ := hh.slot reply hgiven
        exact ⟨reply, hin, hid, rfl⟩
      · cases hmove
  | _ =>
      simp only [Handler.move] at hmove
      repeat' split at hmove
      all_goals cases hmove
      all_goals cases hdone

/-- One handler in place of another, or of none. -/
theorem Gateway.Sound.setHandler (hs : g.Sound cfg) (hworld : g'.world = g.world)
    (hhandlers : g'.handlers = g.handlers.insert id h') (hh : h'.Sound g.world.results id) :
    g'.Sound cfg where
  world := hworld ▸ hs.world
  answered := hworld ▸ hs.answered
  handlers := fun id' h₁ hlookup₁ => by
    rw [hworld]
    rw [hhandlers, lookup_insert_ite] at hlookup₁
    split at hlookup₁
    · rename_i hid
      cases hlookup₁
      exact hid ▸ hh
    · exact hs.handlers id' h₁ hlookup₁

/-- **One action**. -/
theorem Gateway.Sound.stepped (hs : g.Sound cfg) (hmeets : g.Recovers cfg a)
    (h : Served cfg g a g') : g'.Sound cfg := by
  cases h with
  | @engine act world hnone hstep =>
      have hstepped := World.step_cases hstep
      exact ⟨hs.world.stepped (fun o ho => hmeets o (congrArg _ ho)) hstepped,
        hs.answered.stepped hs.world hstepped,
        fun id h hlookup => (hs.handlers id h hlookup).mono (hstepped.keeps hnone).2⟩
  | submit i hfresh =>
      exact hs.setHandler rfl rfl (.of_none rfl fun _ hdone => (by cases hdone))
  | @log id h hlookup hunsent =>
      have happend : Gateway.Sound cfg { g with
          world := { g.world with commands := g.world.commands.append (some h.envelope) } } :=
        ⟨hs.world.append (some h.envelope),
          ⟨fun reply hin => (hs.answered.results reply hin).append _,
            fun reply hin => (hs.answered.reply reply hin).append _⟩, hs.handlers⟩
      obtain ⟨hslot, hdone⟩ := hs.handlers id h hlookup
      exact happend.setHandler rfl rfl ⟨hslot, hdone⟩
  | @move id h h' m hlookup hmove =>
      exact hs.setHandler rfl rfl ((hs.handlers id h hlookup).move hmove)
  | @unregister id h error hlookup herror =>
      exact hs.setHandler rfl rfl
        ⟨(hs.handlers id h hlookup).slot, fun _ hdone => (by cases hdone)⟩
  | listen => exact ⟨hs.world, hs.answered, hs.handlers⟩
  | @hear i next reply h hreply _ hlookup =>
      refine hs.setHandler rfl rfl ⟨fun reply' hslot => ?_, (hs.handlers _ h hlookup).done⟩
      cases hslot
      exact ⟨List.mem_of_getElem? hreply, rfl⟩
  | restart i =>
      refine ⟨hs.world, hs.answered, fun id h' hlookup' => ?_⟩
      rw [lookup_mapValues] at hlookup'
      obtain ⟨h₀, hlookup₀, rfl⟩ := Option.map_eq_some_iff.mp hlookup'
      obtain ⟨hslot, hdone⟩ := hs.handlers id h₀ hlookup₀
      unfold Handler.lose
      split
      · exact ⟨hslot, fun _ hdone => (by cases hdone)⟩
      · exact ⟨hslot, hdone⟩

end Gateway

theorem Gateway.init_sound (cfg : Config) : Gateway.init.Sound cfg where
  world := World.init_sound cfg
  answered := ⟨fun _ hin => absurd hin List.not_mem_nil, fun _ hin => by cases hin⟩
  handlers := fun _ _ hlookup => by cases hlookup

/-! ## Runs of the API and the engine -/

theorem Gateway.logged {cfg : Config} {C : Gateway → GatewayAction → Prop} {g : Gateway}
    (hruns : Runs (Gateway.step cfg) C .init g) : g.Logged :=
  hruns.invariant Gateway.init_logged fun _ _ _ hl _ htaken =>
    hl.stepped (Gateway.step_cases htaken)

theorem Gateway.sound {cfg : Config} {g : Gateway}
    (hruns : Runs (Gateway.step cfg) (Gateway.Recovers cfg) .init g) : g.Sound cfg :=
  hruns.invariant (Gateway.init_sound cfg) fun _ _ _ hs hmeets htaken =>
    hs.stepped hmeets (Gateway.step_cases htaken)

/-! ## Integrity -/

section

variable {cfg : Config} {commands : Log CommandEnvelope} {j k : ℕ} {envelope : CommandEnvelope}
  {response response' : CommandResponse} {cs : List CommandEnvelope} {e e' : Engine}
  {hist hist' : List Record}

/-- An entry is answered the same whenever it is applied there. -/
theorem AnsweredAt.apply (h : AnsweredAt cfg commands k envelope response)
    (hfold : cfg.fold (commands.upTo k) = .ok (e, hist)) (o : Drains) :
    ∃ e' batch, MatchingEngine.apply cfg.build o e envelope.accountId envelope.clientOrderId
      envelope.command = .ok (e', response, batch) := by
  obtain ⟨_, e₁, hist₁, o₁, e', batch, hfold₁, happly⟩ := h
  cases hfold.symm.trans hfold₁
  obtain ⟨⟨e'', response'', batch''⟩, happly', _, hresponse, _⟩ :=
    apply_sim (fold_reaches hfold).shape o₁ o _ _ _ _ happly
  cases hresponse
  exact ⟨e'', batch'', happly'⟩

theorem AnsweredAt.unique (h : AnsweredAt cfg commands k envelope response)
    (h' : AnsweredAt cfg commands k envelope response') : response = response' := by
  obtain ⟨_, e, hist, o, e', batch, hfold, happly⟩ := h'
  obtain ⟨_, _, happly'⟩ := h.apply hfold o
  rw [happly] at happly'
  cases happly'
  rfl

end

/-- Whoever was answered has an entry, and the answer is the entry's. -/
theorem Gateway.Sound.answeredAt {cfg : Config} {g : Gateway} (hs : g.Sound cfg) (hl : g.Logged)
    {id : Uuid} {h : Handler} {response : CommandResponse} (hlookup : g.handlers.lookup id = some h)
    (hdone : h.phase = .done (.ok response)) :
    ∃ k, AnsweredAt cfg g.world.commands k h.envelope response := by
  obtain ⟨reply, hreply, hid, rfl⟩ := (hs.handlers id h hlookup).done response hdone
  obtain ⟨k, envelope, henvelope, hanswered⟩ := hs.answered.results reply hreply
  obtain ⟨h', hlookup', rfl, _⟩ := hl.sent envelope
    (List.reduceOption_mem_iff.mpr (List.mem_of_getElem? hanswered.1))
  rw [henvelope, hid, hlookup] at hlookup'
  cases hlookup'
  exact ⟨k, hanswered⟩

/-- **The reply is the command's own.** A request that was answered has one entry
on the log, and the answer is what `apply` returns for it, however the sets
drain, on the engine that folded what was logged before. -/
theorem reply_integrity {cfg : Config} {g : Gateway}
    (hruns : Runs (Gateway.step cfg) (Gateway.Recovers cfg) .init g) {id : Uuid} {h : Handler}
    {response : CommandResponse} (hlookup : g.handlers.lookup id = some h)
    (hdone : h.phase = .done (.ok response)) :
    ∃ k e hist, g.world.commands.all[k]? = some (some h.envelope) ∧
      (∀ j envelope, g.world.commands.all[j]? = some (some envelope) →
        envelope.correlationId = id → j = k) ∧
      cfg.fold (g.world.commands.upTo k) = .ok (e, hist) ∧
      ∀ o, ∃ e' batch, apply cfg.build o e h.envelope.accountId h.envelope.clientOrderId
        h.envelope.command = .ok (e', response, batch) := by
  have hl := Gateway.logged hruns
  obtain ⟨k, hanswered⟩ := (Gateway.sound hruns).answeredAt hl hlookup hdone
  obtain ⟨e, hist, _, _, _, hfold, _⟩ := hanswered.2
  refine ⟨k, e, hist, hanswered.1, fun j envelope hj hsame => ?_, hfold, hanswered.apply hfold⟩
  have hnamed := hl.named id h hlookup
  exact Log.place_unique hl.once hj hanswered.1 (hsame.trans hnamed.symm)

/-! ## A deposit, from the request to the answer -/

/-- One request to server 0, answered. -/
def answered (clientOrderId : UInt64) (id : Uuid) : List GatewayAction :=
  [.submit 0 { depositEnvelope clientOrderId with correlationId := id }, .log id, .engine .read,
    .engine (.apply .sorted), .engine .emit, .engine (.publish true), .engine .ack,
    .engine (.save false), .hear 0, .move id .logged, .move id .answer]

/-- A boot of the engine and of server 0. -/
def gatewayBoot : List GatewayAction := firstBoot.map .engine ++ [.subscribe 0]

/-- Whether a boot replays only where nothing it needs is gone. -/
def gatewayCheck (cfg : Config) (g : Gateway) : GatewayAction → Bool
  | .engine a => recoversCheck cfg g.world a
  | _ => true

theorem gateway_of_check {cfg : Config} (g : Gateway) (a : GatewayAction)
    (h : gatewayCheck cfg g a = true) : g.Recovers cfg a := by
  rintro o rfl
  exact recovers_of_check g.world (.recover o) h o rfl

/-- What a handler was answered. -/
def Gateway.response? (g : Gateway) (id : Uuid) : Option CommandResponse :=
  (g.handlers.lookup id).bind fun h =>
    match h.phase with
    | .done (.ok response) => some response
    | _ => none

theorem Gateway.done_of_response? {g : Gateway} {id : Uuid} {response : CommandResponse}
    (h : g.response? id = some response) :
    ∃ handler, g.handlers.lookup id = some handler ∧ handler.phase = .done (.ok response) := by
  obtain ⟨handler, hlookup, h⟩ := Option.bind_eq_some_iff.mp h
  refine ⟨handler, hlookup, ?_⟩
  split at h
  · cases h
    assumption
  · cases h

theorem reply_integrity_deposit : ∃ (g : Gateway) (h : Handler) (k : ℕ),
    g.handlers.lookup 7 = some h ∧ h.phase = .done (.ok (.deposit (.ok 10))) ∧
      g.world.commands.all[k]? = some (some h.envelope) := by
  have hcheck : (exec (Gateway.step everyCommand) (gatewayCheck everyCommand) .init
      (gatewayBoot ++ answered 1 7)).any (fun g =>
        g.response? 7 = some (.deposit (.ok 10))) = true := by decide +kernel
  obtain ⟨g, hruns, hg⟩ := exists_run gateway_of_check hcheck
  obtain ⟨h, hlookup, hdone⟩ := Gateway.done_of_response? (of_decide_eq_true hg)
  obtain ⟨k, _, _, hget, _⟩ := reply_integrity hruns hlookup hdone
  exact ⟨g, h, k, hlookup, hdone, hget⟩

end MatchingEngine
