import MatchingEngine.Access
import MatchingEngine.Lib.System
import MatchingEngine.Ownership
import MatchingEngine.Reconcile

/-!
# Sockets: the websocket feeds

`bin/api/ws.rs`: `tail` hands every batch it applies to a ring buffer, and each
socket takes the batches from there at its own pace. A socket that falls too far
behind is closed, so what one was sent has no gaps (`Hub.Sound`). A private
socket gets the events that name the account of its token.
-/

namespace MatchingEngine

open RustArith HashModel SystemModel

/-! ## The loops -/

/-- Ring buffer size for the websocket: how far a receiver may fall behind `tail`. -/
def eventBroadcastCapacity : ℕ := 1024

/-- What a socket sends, before it is serialized. -/
inductive FeedMessage where
  | market (message : MarketMessage)
  /-- "The raw `Event` is fine to forward as-is here" -/
  | order (event : Event)
deriving DecidableEq

/-- What a socket is about. -/
inductive Subject where
  | market (pair : Pair)
  | orders (accountId : AccountId)
deriving DecidableEq

/-- The body of the loop over a batch's events, in `public_market_loop` and in
`private_orders_loop`. -/
def Subject.messages (batch : EventBatch) : Subject → List FeedMessage
  | .market pair => (marketMessages pair batch).map .market
  | .orders accountId => (ownedBy accountId batch.events).map .order

/-- A receiver of the channel, and what went out of the socket. Batches are
numbered as in the stream. -/
structure Subscription where
  subject : Subject
  /-- when it was opened; no process keeps this -/
  opened : ℕ
  since : ℕ
  /-- the batch it gets next -/
  next : ℕ
  sent : List FeedMessage

/-- How far a websocket is. One that is closed had a subscription, or never got to one.
-/
inductive Socket where
  /-- waiting for `{"token": "<jwt>"}` -/
  | upgraded
  | subscribed (s : Subscription)
  | closed (s : Option Subscription)

/-- The first frame, or that there was none within `AUTH_TIMEOUT`. -/
inductive Frame where
  | text (text : Text)
  | other

/-- The secret of the process, and `serde_json` for the token of an `AuthMessage`. -/
structure SocketSite where
  jwt : Jwt
  authMessage : Text → Option Text

/-- `authenticate`: the first frame has to be a token that `verify` takes. -/
def authenticate (site : SocketSite) (now : ℕ) : Frame → Option AccountId
  | .other => none
  | .text text => do
      let token ← site.authMessage text
      let claims ← verify site.jwt now token
      pure claims.sub

theorem authenticate_ok {site : SocketSite} {now : ℕ} {frame : Frame} {accountId : AccountId}
    (h : authenticate site now frame = some accountId) : ∃ text token claims,
      site.authMessage text = some token ∧ site.jwt.decode token = some claims ∧
      claims.sub = accountId ∧ now ≤ claims.exp + tokenLeewaySecs := by
  cases frame with
  | other => cases h
  | text text =>
      obtain ⟨token, htoken, h⟩ := Option.bind_eq_some_iff.mp h
      obtain ⟨claims, hverify, h⟩ := Option.bind_eq_some_iff.mp h
      cases h
      obtain ⟨hdecode, hlive⟩ := verify_ok hverify
      exact ⟨text, token, claims, htoken, hdecode, rfl, hlive⟩

/-! ## One API process -/

/-- `tail` and the sockets of a process. The channel itself is the stream: a receiver
that is too far behind is closed. -/
structure Hub where
  /-- the batches applied to the store and, but for those of `bootstrap`, sent -/
  read : ℕ
  sockets : HashMap ℕ Socket
  now : ℕ

/-- A process that has bootstrapped its book: so many batches are applied, and no socket
is open. -/
def Hub.booted (read : ℕ) : Hub := { read := read, sockets := ∅, now := 0 }

/-- Who moves: `tail` reads a batch and sends it to all receivers, a client opens a
socket or sends its first frame, a socket takes the next batch from its channel, or a
client is gone in the middle of one. -/
inductive HubAction where
  | tick (seconds : ℕ)
  | tail
  /-- `GET /ws/market/:pair` -/
  | publicMarket (i : ℕ) (rawPair : Text)
  /-- `GET /ws/orders` -/
  | privateOrders (i : ℕ)
  | frame (i : ℕ) (frame : Frame)
  /-- `recv`, and the messages of the batch -/
  | deliver (i : ℕ)
  /-- the client is gone when `n` messages of a batch are out -/
  | gone (i n : ℕ)

/-- `state.event_tx.subscribe()`. -/
def Hub.subscribe (hub : Hub) (subject : Subject) : Subscription :=
  { subject := subject, opened := hub.now, since := hub.read, next := hub.read, sent := [] }

/-- One socket changes, or is new. -/
def Hub.set (hub : Hub) (i : ℕ) (socket : Socket) : Hub :=
  { hub with sockets := hub.sockets.insert i socket }

/-- The next state, `none` where the action cannot be taken. -/
def Hub.step (site : SocketSite) (batches : List EventBatch) (hub : Hub) :
    HubAction → Option Hub
  | .tick seconds => some { hub with now := hub.now + seconds }
  | .tail => if hub.read < batches.length then some { hub with read := hub.read + 1 } else none
  | .publicMarket i rawPair =>
      match hub.sockets.lookup i, Pair.tryFrom rawPair with
      | none, some pair => some (hub.set i (.subscribed (hub.subscribe (.market pair))))
      | none, none => some hub
      | some _, _ => none
  | .privateOrders i =>
      match hub.sockets.lookup i with
      | none => some (hub.set i .upgraded)
      | some _ => none
  | .frame i frame =>
      match hub.sockets.lookup i with
      | some .upgraded =>
          match authenticate site hub.now frame with
          | some accountId => some (hub.set i (.subscribed (hub.subscribe (.orders accountId))))
          | none => some (hub.set i (.closed none))
      | _ => none
  | .deliver i =>
      match hub.sockets.lookup i with
      | some (.subscribed s) =>
          if s.next + eventBroadcastCapacity < hub.read then
            -- `Lagged`
            some (hub.set i (.closed (some s)))
          else if s.next < hub.read then
            batches[s.next]?.map fun batch =>
              hub.set i (.subscribed { s with
                next := s.next + 1
                sent := s.sent ++ s.subject.messages batch })
          else none
      | _ => none
  | .gone i n =>
      match hub.sockets.lookup i with
      | some (.subscribed s) =>
          if s.next + eventBroadcastCapacity < hub.read then none
          else if s.next < hub.read then
            batches[s.next]?.map fun batch =>
              hub.set i (.closed (some { s with
                sent := s.sent ++ (s.subject.messages batch).take n }))
          else none
      | _ => none

/-! ## No gaps -/

/-- What the batches from `since` up to `next` are sent out as. -/
def Subject.stream (subject : Subject) (batches : List EventBatch) (since next : ℕ) :
    List FeedMessage :=
  ((batches.take next).drop since).flatMap fun batch => subject.messages batch

theorem Subject.stream_self (subject : Subject) (batches : List EventBatch) (since : ℕ) :
    subject.stream batches since since = [] := by
  rw [Subject.stream, List.drop_eq_nil_of_le (List.length_take_le ..)]
  rfl

/-- Two segments in a row are one. -/
theorem segment_append {α : Type} (xs : List α) {i j k : ℕ} (hij : i ≤ j) (hjk : j ≤ k) :
    (xs.take j).drop i ++ (xs.take k).drop j = (xs.take k).drop i := by
  have hsplit : xs.take k = xs.take j ++ (xs.take k).drop j := by
    have htake := List.take_append_drop j (xs.take k)
    rw [List.take_take, Nat.min_eq_left hjk] at htake
    exact htake.symm
  by_cases hlen : i ≤ (xs.take j).length
  · conv_rhs => rw [hsplit, List.drop_append_of_le_length hlen]
  · -- the list ends before
    rw [List.length_take] at hlen
    have hnone : ∀ n m, xs.length ≤ n → (xs.take m).drop n = [] := fun n m hn =>
      List.drop_eq_nil_of_le ((List.length_take_le' ..).trans hn)
    rw [hnone i j (by omega), hnone j k (by omega), hnone i k (by omega), List.nil_append]

theorem Subject.stream_append (subject : Subject) (batches : List EventBatch) {i j k : ℕ}
    (hij : i ≤ j) (hjk : j ≤ k) : subject.stream batches i j ++ subject.stream batches j k
      = subject.stream batches i k := by
  rw [Subject.stream, Subject.stream, ← List.flatMap_append, segment_append batches hij hjk,
    Subject.stream]

theorem Subject.stream_succ (subject : Subject) {batches : List EventBatch} {since next : ℕ}
    (hle : since ≤ next) {batch : EventBatch} (hnext : batches[next]? = some batch) :
    subject.stream batches since (next + 1)
      = subject.stream batches since next ++ subject.messages batch := by
  rw [← subject.stream_append batches hle (Nat.le_succ next)]
  have hone : subject.stream batches next (next + 1) = subject.messages batch := by
    have hlt := (List.getElem?_eq_some_iff.mp hnext).1
    rw [Subject.stream, List.take_add_one, hnext, List.drop_append_of_le_length (by
      rw [List.length_take]; omega), List.drop_eq_nil_of_le (List.length_take_le ..)]
    simp
  rw [hone]

/-- A private socket was opened with a live token of its account. -/
def Subscription.Authenticated (site : SocketSite) (s : Subscription) : Prop :=
  ∀ a, s.subject = .orders a → ∃ text token claims, site.authMessage text = some token ∧
    site.jwt.decode token = some claims ∧ claims.sub = a ∧
    s.opened ≤ claims.exp + tokenLeewaySecs

/-- A socket that is open was sent all it has received. -/
structure Subscription.Exact (site : SocketSite) (batches : List EventBatch) (hub : Hub)
    (s : Subscription) : Prop where
  authenticated : s.Authenticated site
  since : s.since ≤ s.next
  next : s.next ≤ hub.read
  sent : s.sent = s.subject.stream batches s.since s.next

/-- One that is closed was sent the beginning of it. -/
structure Subscription.Begun (site : SocketSite) (batches : List EventBatch) (hub : Hub)
    (s : Subscription) : Prop where
  authenticated : s.Authenticated site
  since : s.since ≤ hub.read
  sent : s.sent <+: s.subject.stream batches s.since hub.read

/-- **No gaps**: every socket was sent the messages of batches in order, from where
it subscribed, and every one. -/
structure Hub.Sound (site : SocketSite) (batches : List EventBatch) (hub : Hub) : Prop where
  read : hub.read ≤ batches.length
  subscribed : ∀ i s, hub.sockets.lookup i = some (.subscribed s) → s.Exact site batches hub
  closed : ∀ i s, hub.sockets.lookup i = some (.closed (some s)) → s.Begun site batches hub

section Steps

variable {site : SocketSite} {batches : List EventBatch} {hub : Hub}

theorem Subscription.Exact.begun {s : Subscription} (h : s.Exact site batches hub) :
    s.Begun site batches hub where
  authenticated := h.authenticated
  since := h.since.trans h.next
  sent := by
    rw [h.sent, ← s.subject.stream_append batches h.since h.next]
    exact List.prefix_append _ _

/-- One socket changes, the others do not. -/
theorem Hub.Sound.set (h : hub.Sound site batches) (i : ℕ) {socket : Socket}
    (hsubscribed : ∀ s, socket = .subscribed s → s.Exact site batches hub)
    (hclosed : ∀ s, socket = .closed (some s) → s.Begun site batches hub) :
    (hub.set i socket).Sound site batches where
  read := h.read
  subscribed j s hj := by
    rw [Hub.set, lookup_insert_ite] at hj
    split at hj
    · obtain ⟨hauth, hsince, hnext, hsent⟩ := hsubscribed s (Option.some.inj hj)
      exact ⟨hauth, hsince, hnext, hsent⟩
    · obtain ⟨hauth, hsince, hnext, hsent⟩ := h.subscribed j s hj
      exact ⟨hauth, hsince, hnext, hsent⟩
  closed j s hj := by
    rw [Hub.set, lookup_insert_ite] at hj
    split at hj
    · obtain ⟨hauth, hsince, hsent⟩ := hclosed s (Option.some.inj hj)
      exact ⟨hauth, hsince, hsent⟩
    · obtain ⟨hauth, hsince, hsent⟩ := h.closed j s hj
      exact ⟨hauth, hsince, hsent⟩

/-- A new subscription has been sent nothing. -/
theorem Hub.Sound.subscribe (h : hub.Sound site batches) (i : ℕ) {subject : Subject}
    (hauth : (hub.subscribe subject).Authenticated site) :
    (hub.set i (.subscribed (hub.subscribe subject))).Sound site batches := by
  refine h.set i (fun s hs => ?_) fun s hs => (by cases hs)
  cases hs
  exact ⟨hauth, le_rfl, le_rfl, (subject.stream_self batches hub.read).symm⟩

end Steps

/-- **One step**, of whichever process. -/
theorem Hub.Sound.stepped {site : SocketSite} {batches : List EventBatch} {hub hub' : Hub}
    {a : HubAction} (h : hub.Sound site batches) (hstep : hub.step site batches a = some hub') :
    hub'.Sound site batches := by
  cases a with
  | tick seconds =>
      cases hstep
      refine ⟨h.read, fun i s hi => ?_, fun i s hi => ?_⟩
      · obtain ⟨hauth, hsince, hnext, hsent⟩ := h.subscribed i s hi
        exact ⟨hauth, hsince, hnext, hsent⟩
      · obtain ⟨hauth, hsince, hsent⟩ := h.closed i s hi
        exact ⟨hauth, hsince, hsent⟩
  | tail =>
      simp only [Hub.step] at hstep
      split at hstep
      · rename_i hlt
        cases hstep
        refine ⟨hlt, fun i s hi => ?_, fun i s hi => ?_⟩
        · obtain ⟨hauth, hsince, hnext, hsent⟩ := h.subscribed i s hi
          exact ⟨hauth, hsince, hnext.trans (Nat.le_succ _), hsent⟩
        · obtain ⟨hauth, hsince, hsent⟩ := h.closed i s hi
          refine ⟨hauth, hsince.trans (Nat.le_succ _), hsent.trans ?_⟩
          show _ <+: s.subject.stream batches s.since (hub.read + 1)
          rw [← s.subject.stream_append batches hsince (Nat.le_succ hub.read)]
          exact List.prefix_append _ _
      · cases hstep
  | publicMarket i rawPair =>
      simp only [Hub.step] at hstep
      split at hstep
      · cases hstep
        exact h.subscribe i fun a ha => (by cases ha)
      · cases hstep
        exact h
      · cases hstep
  | privateOrders i =>
      simp only [Hub.step] at hstep
      split at hstep
      · cases hstep
        exact h.set i (fun s hs => (by cases hs)) fun s hs => (by cases hs)
      · cases hstep
  | frame i frame =>
      simp only [Hub.step] at hstep
      split at hstep
      · split at hstep
        · rename_i accountId hauth
          cases hstep
          refine h.subscribe i fun a ha => ?_
          cases ha
          exact authenticate_ok hauth
        · cases hstep
          exact h.set i (fun s hs => (by cases hs)) fun s hs => (by cases hs)
      · cases hstep
  | deliver i =>
      simp only [Hub.step] at hstep
      split at hstep
      · rename_i s hsocket
        have hexact := h.subscribed i s hsocket
        split at hstep
        · cases hstep
          refine h.set i (fun s' hs => (by cases hs)) fun s' hs => ?_
          cases hs
          exact hexact.begun
        · split at hstep
          · rename_i hlt
            obtain ⟨batch, hbatch, hhub⟩ := Option.map_eq_some_iff.mp hstep
            cases hhub
            refine h.set i (fun s' hs => ?_) fun s' hs => (by cases hs)
            cases hs
            refine ⟨hexact.authenticated, hexact.since.trans (Nat.le_succ _), hlt, ?_⟩
            dsimp only
            rw [s.subject.stream_succ hexact.since hbatch, ← hexact.sent]
          · cases hstep
      · cases hstep
  | gone i n =>
      simp only [Hub.step] at hstep
      split at hstep
      · rename_i s hsocket
        have hexact := h.subscribed i s hsocket
        split at hstep
        · cases hstep
        · split at hstep
          · rename_i hlt
            obtain ⟨batch, hbatch, hhub⟩ := Option.map_eq_some_iff.mp hstep
            cases hhub
            refine h.set i (fun s' hs => (by cases hs)) fun s' hs => ?_
            cases hs
            refine ⟨hexact.authenticated, hexact.since.trans hexact.next, ?_⟩
            -- the whole batch would have been in order too
            dsimp only
            rw [← s.subject.stream_append batches (hexact.since.trans (Nat.le_succ _)) hlt,
              s.subject.stream_succ hexact.since hbatch, ← hexact.sent]
            exact (List.prefix_append_right_inj _).mpr (List.take_prefix _ _) |>.trans
              (List.prefix_append _ _)
          · cases hstep
      · cases hstep

/-- **Every interleaving** of `tail`, the sockets and their clients. -/
theorem hub_sound {site : SocketSite} {batches : List EventBatch} {C : Hub → HubAction → Prop}
    {start : ℕ} {hub : Hub} (hstart : start ≤ batches.length)
    (h : Runs (Hub.step site batches) C (Hub.booted start) hub) : hub.Sound site batches := by
  refine h.invariant ⟨hstart, fun i s hi => ?_, fun i s hi => ?_⟩ fun hub a hub' hsound _ hstep =>
    hsound.stepped hstep
  · cases hi
  · cases hi

/-! ## Concrete runs -/

/-- The subscription of a socket that is open. -/
def Hub.receiver? (hub : Hub) (i : ℕ) : Option Subscription :=
  match hub.sockets.lookup i with
  | some (.subscribed s) => some s
  | _ => none

theorem Hub.receiver?_eq_some {hub : Hub} {i : ℕ} {s : Subscription}
    (h : hub.receiver? i = some s) : hub.sockets.lookup i = some (.subscribed s) := by
  unfold Hub.receiver? at h
  split at h
  · rename_i hsocket
    cases h
    exact hsocket
  · cases h

/-- A site whose tokens can be read, sent without an envelope. -/
def plainSocketSite : SocketSite := { jwt := plainJwt, authMessage := some }

end MatchingEngine
