import MatchingEngine.Auth
import MatchingEngine.Replies

/-!
# Access: every command has an owner

The API with its users: sign-up and login hand out tokens, write requests present
them. As long as nobody presents a token with a good signature that was not
handed out, every command on the log was asked for with a token that its account got
within the last day and minute, for the email and the password of its user,
and the markets are listed and delisted by the admin alone (`access_control`).

The servers share one clock, in unix seconds.
-/

namespace MatchingEngine

open RustArith HashModel LogModel SystemModel

/-- What the API processes are started with: the engine behind them, the two libraries
under their secrets, and the account of the admin. -/
structure Site where
  engine : Config
  jwt : Jwt
  argon2 : Argon2
  admin : AccountId

/-- A row of `users`, as far as `signup` and `login` read it. -/
structure User where
  id : ℕ
  email : Text
  passwordHash : Text

/-- The engine keys accounts by `u64`, the table by `BIGSERIAL`: `id as u64`. -/
def User.account (user : User) : AccountId := UInt64.ofNat user.id

/-- That a token was handed out, to whom and when. -/
structure Issue where
  account : AccountId
  email : Text
  password : Text
  time : ℕ

/-- What the client got; the same account gets the same token again within the second.
-/
def Issue.token (site : Site) (issue : Issue) : Text := sign site.jwt issue.time issue.account

/-- A request as it came, and when; the header with the token is part of it. -/
structure Arrival where
  time : ℕ
  request : HttpRequest

/-- The API with its users; `issued` and `arrivals` are what happened so far, no
process keeps them. -/
structure Exchange where
  gateway : Gateway
  users : List User
  /-- the sequence of `users.id` -/
  nextId : ℕ
  now : ℕ
  issued : List Issue
  /-- the requests that were admitted -/
  arrivals : HashMap Uuid Arrival

/-- No user, no token, an empty log; the sequence of `users.id` starts at 1. -/
def Exchange.init : Exchange where
  gateway := .init
  users := []
  nextId := 1
  now := 0
  issued := []
  arrivals := ∅

/-- Time passes, somebody signs up or logs in, a server gets a write request, or the
gateway moves on with those it has. -/
inductive ExchangeAction where
  | tick (seconds : ℕ)
  | signup (salt email password : Text)
  | login (email password : Text)
  /-- a write request arrives at a server and draws a correlation id -/
  | request (i : ℕ) (id : Uuid) (r : HttpRequest)
  /-- everything behind `submit_command` -/
  | inside (a : GatewayAction)

/-- `signup`. A duplicate email is 409, and takes a number of the sequence. -/
def Exchange.signup (site : Site) (x : Exchange) (salt email password : Text) : Exchange :=
  match site.argon2.hashPassword salt password with
  | none => x
  | some passwordHash =>
      if 2 ^ 63 ≤ x.nextId then x
      else if x.users.any fun user => user.email = email then { x with nextId := x.nextId + 1 }
      else
        let user : User := { id := x.nextId, email := email, passwordHash := passwordHash }
        { x with
          users := x.users ++ [user]
          nextId := x.nextId + 1
          issued := x.issued ++ [⟨user.account, email, password, x.now⟩] }

/-- `login`. A wrong password and an unknown email are both 401, and change nothing. -/
def Exchange.login (site : Site) (x : Exchange) (email password : Text) : Exchange :=
  match x.users.find? fun user => user.email = email with
  | none => x
  | some user =>
      match site.argon2.verifyPassword password user.passwordHash with
      | some true => { x with issued := x.issued ++ [⟨user.account, email, password, x.now⟩] }
      | _ => x

/-- The next state, `none` where the action cannot be taken. -/
def Exchange.step (site : Site) (x : Exchange) : ExchangeAction → Option Exchange
  | .tick seconds => some { x with now := x.now + seconds }
  | .signup salt email password => some (x.signup site salt email password)
  | .login email password => some (x.login site email password)
  | .request i id r =>
      match writeRequest site.jwt site.admin x.now r with
      | .error _ => some x
      | .ok (accountId, clientOrderId, command) =>
          (x.gateway.step site.engine (.submit i ⟨id, accountId, clientOrderId, command⟩)).map
            fun gateway =>
              { x with gateway := gateway, arrivals := x.arrivals.insert id ⟨x.now, r⟩ }
  | .inside a =>
      if a.submits then none
      else (x.gateway.step site.engine a).map fun gateway => { x with gateway := gateway }

/-- Nobody presents a token with a good signature that was not handed out. -/
def Unforged (site : Site) (x : Exchange) (a : ExchangeAction) : Prop :=
  ∀ i id r token claims, a = .request i id r →
    r.authorization = some ("Bearer ".toList ++ token) → site.jwt.decode token = some claims →
    ∃ issue ∈ x.issued, issue.token site = token

/-! ## What is secure -/

/-- The request came with a live token of the account. -/
structure Exchange.Admitted (site : Site) (x : Exchange) (envelope : CommandEnvelope) : Prop where
  token : ∃ arrival issue, x.arrivals.lookup envelope.correlationId = some arrival ∧
    issue ∈ x.issued ∧
    arrival.request.authorization = some ("Bearer ".toList ++ issue.token site) ∧
    issue.account = envelope.accountId ∧ issue.time ≤ arrival.time ∧
    arrival.time ≤ issue.time + tokenTtlSecs + tokenLeewaySecs
  admin : envelope.command.isAdmin = true → envelope.accountId = site.admin

/-- Who was handed a token knew the email and the password of the account. -/
structure Exchange.Identified (site : Site) (x : Exchange) (issue : Issue) : Prop where
  past : issue.time ≤ x.now
  user : ∃ user ∈ x.users, user.account = issue.account ∧ user.email = issue.email ∧
    site.argon2.verifyPassword issue.password user.passwordHash = some true

/-- What every run without forged tokens keeps: users are told apart by id and by email,
every token handed out was for somebody who knew both secrets, and every handler stands
for an admitted request. -/
structure Exchange.Secure (site : Site) (x : Exchange) : Prop where
  numbered : x.nextId ≤ 2 ^ 63
  ids : ∀ user ∈ x.users, user.id < x.nextId
  distinct : (x.users.map User.id).Nodup
  emails : (x.users.map User.email).Nodup
  issued : ∀ issue ∈ x.issued, x.Identified site issue
  logged : x.gateway.Logged
  admitted : ∀ id h, x.gateway.handlers.lookup id = some h → x.Admitted site h.envelope

section

variable {site : Site} {x x' : Exchange} {a : ExchangeAction}

/-- A new handler is one that was submitted. -/
theorem Served.handler {cfg : Config} {g g' : Gateway} {a : GatewayAction} {id : Uuid}
    {h' : Handler} (h : Served cfg g a g') (hlookup : g'.handlers.lookup id = some h') :
    (∃ h, g.handlers.lookup id = some h ∧ h.envelope = h'.envelope) ∨
      ∃ i, a = .submit i h'.envelope ∧ h'.envelope.correlationId = id ∧
        g.handlers.lookup id = none := by
  have hset : ∀ {id₀ h₀ h₁}, g.handlers.lookup id₀ = some h₀ → h₁.envelope = h₀.envelope →
      (g.handlers.insert id₀ h₁).lookup id = some h' →
      ∃ h, g.handlers.lookup id = some h ∧ h.envelope = h'.envelope := by
    intro id₀ h₀ h₁ hlookup₀ henvelope hlookup
    rw [lookup_insert_ite] at hlookup
    split at hlookup
    · rename_i hid
      cases hlookup
      exact ⟨h₀, hid ▸ hlookup₀, henvelope.symm⟩
    · exact ⟨h', hlookup, rfl⟩
  cases h with
  | engine => exact .inl ⟨h', hlookup, rfl⟩
  | @submit i envelope hfresh =>
      rw [lookup_setHandler] at hlookup
      split at hlookup
      · rename_i hid
        cases hlookup
        exact .inr ⟨i, rfl, hid.symm, hid ▸ hfresh⟩
      · exact .inl ⟨h', hlookup, rfl⟩
  | log hlookup₀ =>
      refine .inl (hset hlookup₀ ?_ hlookup)
      rfl
  | move hlookup₀ hmove => exact .inl (hset hlookup₀ (Handler.move_frame hmove).2.1 hlookup)
  | unregister hlookup₀ =>
      refine .inl (hset hlookup₀ ?_ hlookup)
      rfl
  | listen => exact .inl ⟨h', hlookup, rfl⟩
  | hear _ _ hlookup₀ =>
      refine .inl (hset hlookup₀ ?_ hlookup)
      rfl
  | restart i =>
      rw [lookup_mapValues] at hlookup
      obtain ⟨h₀, hlookup₀, rfl⟩ := Option.map_eq_some_iff.mp hlookup
      exact .inl ⟨h₀, hlookup₀, ((h₀.lose_frame i).2.1).symm⟩

theorem Exchange.Identified.mono {issue : Issue} (h : x.Identified site issue)
    (hnow : x.now ≤ x'.now) (husers : x.users ⊆ x'.users) : x'.Identified site issue where
  past := h.past.trans hnow
  user := by
    obtain ⟨user, hin, huser⟩ := h.user
    exact ⟨user, husers hin, huser⟩

theorem Exchange.Admitted.mono {envelope : CommandEnvelope} (h : x.Admitted site envelope)
    (harrivals : x'.arrivals = x.arrivals) (hissued : x.issued ⊆ x'.issued) :
    x'.Admitted site envelope where
  token := by
    obtain ⟨arrival, issue, harrived, hin, hrest⟩ := h.token
    exact ⟨arrival, issue, harrivals ▸ harrived, hissued hin, hrest⟩
  admin := h.admin

/-- A token handed out, the users as they were. -/
theorem Exchange.Secure.issue (hx : x.Secure site) {issue : Issue} (hnow : issue.time = x.now)
    (huser : ∃ user ∈ x.users, user.account = issue.account ∧ user.email = issue.email ∧
      site.argon2.verifyPassword issue.password user.passwordHash = some true) :
    Exchange.Secure site { x with issued := x.issued ++ [issue] } where
  numbered := hx.numbered
  ids := hx.ids
  distinct := hx.distinct
  emails := hx.emails
  issued := fun issue' hin => by
    rcases List.mem_append.mp hin with hin | hin
    · exact (hx.issued issue' hin).mono (Nat.le_refl _) (List.Subset.refl _)
    · rw [List.mem_singleton.mp hin]
      exact ⟨hnow.le, huser⟩
  logged := hx.logged
  admitted := fun id h hlookup =>
    (hx.admitted id h hlookup).mono rfl (List.subset_append_left _ _)

theorem Exchange.Secure.signup (hx : x.Secure site) (salt email password : Text) :
    (x.signup site salt email password).Secure site := by
  unfold Exchange.signup
  split
  · exact hx
  · rename_i passwordHash hhash
    split
    · exact hx
    · rename_i hroom
      have hnext : x.nextId + 1 ≤ 2 ^ 63 := by omega
      have hlater : ∀ user ∈ x.users, user.id < x.nextId + 1 := fun user hin =>
        Nat.lt_succ_of_lt (hx.ids user hin)
      split
      · exact ⟨hnext, hlater, hx.distinct, hx.emails, fun issue hin =>
          (hx.issued issue hin).mono (Nat.le_refl _) (List.Subset.refl _), hx.logged,
          fun id h hlookup => (hx.admitted id h hlookup).mono rfl (List.Subset.refl _)⟩
      · rename_i hnew
        have hadded : Exchange.Secure site { x with
            users := x.users ++ [⟨x.nextId, email, passwordHash⟩], nextId := x.nextId + 1 } := by
          constructor
          case numbered => exact hnext
          case ids =>
            intro user hin
            rcases List.mem_append.mp hin with hin | hin
            · exact hlater user hin
            · rw [List.mem_singleton.mp hin]
              exact Nat.lt_succ_self _
          case distinct =>
            rw [List.map_append, List.nodup_append]
            refine ⟨hx.distinct, List.nodup_singleton _, fun id hid id' hid' => ?_⟩
            obtain ⟨user, hin, rfl⟩ := List.mem_map.mp hid
            rw [List.mem_singleton.mp hid']
            exact (hx.ids user hin).ne
          case emails =>
            rw [List.map_append, List.nodup_append]
            refine ⟨hx.emails, List.nodup_singleton _, fun e he e' he' heq => hnew ?_⟩
            obtain ⟨user, hin, rfl⟩ := List.mem_map.mp he
            rw [List.mem_singleton.mp he'] at heq
            exact List.any_eq_true.mpr ⟨user, hin, decide_eq_true heq⟩
          case issued =>
            exact fun issue hin =>
              (hx.issued issue hin).mono (Nat.le_refl _) (List.subset_append_left _ _)
          case logged => exact hx.logged
          case admitted =>
            exact fun id h hlookup => (hx.admitted id h hlookup).mono rfl (List.Subset.refl _)
        exact hadded.issue rfl ⟨_, List.mem_append_right _ List.mem_cons_self, rfl, rfl,
          site.argon2.verify_hash salt password passwordHash hhash⟩

theorem Exchange.Secure.login (hx : x.Secure site) (email password : Text) :
    (x.login site email password).Secure site := by
  unfold Exchange.login
  split
  · exact hx
  · rename_i user huser
    split
    · rename_i hverify
      have hemail := List.find?_some huser
      exact hx.issue rfl ⟨user, List.mem_of_find?_eq_some huser, rfl, of_decide_eq_true hemail,
        hverify⟩
    · exact hx

/-- The gateway moves, and nothing is submitted. -/
theorem Exchange.Secure.inside (hx : x.Secure site) {act : GatewayAction} {gateway : Gateway}
    (hnone : act.submits = false) (hserved : Served site.engine x.gateway act gateway) :
    Exchange.Secure site { x with gateway := gateway } where
  numbered := hx.numbered
  ids := hx.ids
  distinct := hx.distinct
  emails := hx.emails
  issued := fun issue hin => (hx.issued issue hin).mono (Nat.le_refl _) (List.Subset.refl _)
  logged := hx.logged.stepped hserved
  admitted := fun id h' hlookup => by
    rcases hserved.handler hlookup with ⟨h, hlookup₀, henvelope⟩ | ⟨i, rfl, _⟩
    · exact henvelope ▸ (hx.admitted id h hlookup₀).mono rfl (List.Subset.refl _)
    · cases hnone

/-- A request that was admitted. -/
theorem Exchange.Secure.request (hx : x.Secure site) {i : ℕ} {envelope : CommandEnvelope}
    {gateway : Gateway} (hserved : Served site.engine x.gateway (.submit i envelope) gateway)
    {r : HttpRequest} (htoken : ∃ issue ∈ x.issued,
      r.authorization = some ("Bearer ".toList ++ issue.token site) ∧
      issue.account = envelope.accountId ∧ x.now ≤ issue.time + tokenTtlSecs + tokenLeewaySecs)
    (hadmin : envelope.command.isAdmin = true → envelope.accountId = site.admin) :
    Exchange.Secure site
      { x with
        gateway := gateway
        arrivals := x.arrivals.insert envelope.correlationId ⟨x.now, r⟩ } := by
  constructor
  case numbered => exact hx.numbered
  case ids => exact hx.ids
  case distinct => exact hx.distinct
  case emails => exact hx.emails
  case issued =>
    exact fun issue hin => (hx.issued issue hin).mono (Nat.le_refl _) (List.Subset.refl _)
  case logged => exact hx.logged.stepped hserved
  case admitted =>
    intro id h' hlookup
    rcases hserved.handler hlookup with ⟨h, hlookup₀, henvelope⟩ | ⟨j, hsubmit, hid, _⟩
    · obtain ⟨⟨arrival, issue, harrived, hrest⟩, hgate⟩ := hx.admitted id h hlookup₀
      refine henvelope ▸ ⟨⟨arrival, issue, ?_, hrest⟩, hgate⟩
      -- its id is not the new one, which no handler has
      have hnamed := hx.logged.named id h hlookup₀
      cases hserved with
      | submit _ hfresh =>
          rw [lookup_insert_ite, if_neg]
          · exact harrived
          · intro heq
            rw [← heq, hnamed, hlookup₀] at hfresh
            cases hfresh
      | listen hnone => cases hnone
    · cases hsubmit
      obtain ⟨issue, hin, hheader, haccount, hlive⟩ := htoken
      refine ⟨⟨⟨x.now, r⟩, issue, ?_, hin, hheader, haccount, (hx.issued issue hin).past, hlive⟩,
        hadmin⟩
      rw [lookup_insert_ite, if_pos rfl]

/-- **One action** that presents no forged token. -/
theorem Exchange.Secure.stepped (hx : x.Secure site) (hmeets : Unforged site x a)
    (htaken : x.step site a = some x') : x'.Secure site := by
  cases a with
  | tick seconds =>
      cases htaken
      exact ⟨hx.numbered, hx.ids, hx.distinct, hx.emails, fun issue hin =>
        (hx.issued issue hin).mono (Nat.le_add_right _ _) (List.Subset.refl _), hx.logged,
        fun id h hlookup => (hx.admitted id h hlookup).mono rfl (List.Subset.refl _)⟩
  | signup salt email password =>
      cases htaken
      exact hx.signup salt email password
  | login email password =>
      cases htaken
      exact hx.login email password
  | request i id r =>
      simp only [Exchange.step] at htaken
      split at htaken
      · cases htaken
        exact hx
      · rename_i accountId clientOrderId command hadmit
        obtain ⟨gateway, hstep, rfl⟩ := Option.map_eq_some_iff.mp htaken
        obtain ⟨⟨token, claims, hheader, hdecode, rfl, hlive⟩, hadmin⟩ := writeRequest_ok hadmit
        obtain ⟨issue, hin, rfl⟩ := hmeets i id r token claims rfl hheader hdecode
        rw [Issue.token, sign, site.jwt.decode_encode] at hdecode
        cases hdecode
        exact hx.request (Gateway.step_cases hstep) ⟨issue, hin, hheader, rfl, hlive⟩ hadmin
  | inside act =>
      simp only [Exchange.step] at htaken
      split at htaken
      · cases htaken
      · rename_i hnone
        obtain ⟨gateway, hstep, rfl⟩ := Option.map_eq_some_iff.mp htaken
        exact hx.inside (Bool.eq_false_iff.mpr hnone) (Gateway.step_cases hstep)

end

theorem Exchange.init_secure (site : Site) : Exchange.init.Secure site where
  numbered := by decide
  ids := fun _ hin => absurd hin List.not_mem_nil
  distinct := List.nodup_nil
  emails := List.nodup_nil
  issued := fun _ hin => absurd hin List.not_mem_nil
  logged := Gateway.init_logged
  admitted := fun _ _ hlookup => by cases hlookup

/-- Users have different accounts. -/
theorem Exchange.Secure.account_unique {site : Site} {x : Exchange} (hx : x.Secure site)
    {user user' : User} (hin : user ∈ x.users) (hin' : user' ∈ x.users)
    (haccount : user.account = user'.account) : user = user' := by
  have hword : ∀ user ∈ x.users, user.id < UInt64.size := fun user hin =>
    (hx.ids user hin).trans_le (hx.numbered.trans (by decide))
  have hid := congrArg UInt64.toNat haccount
  rw [User.account, User.account, UInt64.toNat_ofNat_of_lt' (hword user hin),
    UInt64.toNat_ofNat_of_lt' (hword user' hin')] at hid
  exact List.inj_on_of_nodup_map hx.distinct hin hin' hid

/-- **Access control.** In every run without forged tokens, every command on the
log belongs to exactly one user, and was asked for with a token that was handed
out for that user's email and password at most a day and a minute before; a
command that lists or delists a pair is the admin's. -/
theorem access_control {site : Site} {x : Exchange}
    (hruns : Runs (Exchange.step site) (Unforged site) .init x) {envelope : CommandEnvelope}
    (hlog : some envelope ∈ x.gateway.world.commands.all) :
    (∃ user ∈ x.users, user.account = envelope.accountId ∧
      (∀ user' ∈ x.users, user'.account = envelope.accountId → user' = user) ∧
      ∃ arrival issue, x.arrivals.lookup envelope.correlationId = some arrival ∧
        issue ∈ x.issued ∧
        arrival.request.authorization = some ("Bearer ".toList ++ issue.token site) ∧
        issue.account = envelope.accountId ∧ issue.email = user.email ∧
        site.argon2.verifyPassword issue.password user.passwordHash = some true ∧
        issue.time ≤ arrival.time ∧
        arrival.time ≤ issue.time + tokenTtlSecs + tokenLeewaySecs) ∧
      (envelope.command.isAdmin = true → envelope.accountId = site.admin) := by
  have hx : x.Secure site := hruns.invariant (Exchange.init_secure site)
    fun _ _ _ hx hmeets htaken => hx.stepped hmeets htaken
  obtain ⟨h, hlookup, rfl, _⟩ := hx.logged.sent envelope (List.reduceOption_mem_iff.mpr hlog)
  obtain ⟨⟨arrival, issue, harrived, hissue, hheader, haccount, hbefore, hlive⟩, hadmin⟩ :=
    hx.admitted _ h hlookup
  obtain ⟨user, huser, huserAccount, hemail, hverify⟩ := (hx.issued issue hissue).user
  refine ⟨⟨user, huser, huserAccount.trans haccount, fun user' huser' haccount' => ?_, arrival,
    issue, harrived, hissue, hheader, haccount, hemail.symm, hverify, hbefore, hlive⟩, hadmin⟩
  exact hx.account_unique huser' huser (haccount'.trans (huserAccount.trans haccount).symm)

/-! ## One user -/

/-- Tokens that can be read, `<sub>.<exp>`. -/
def plainJwt : Jwt where
  encode claims := Nat.toDigits 10 claims.sub.toNat ++ '.' :: Nat.toDigits 10 claims.exp
  decode token := do
    let (sub, exp) ← splitOnce '.' token
    let sub ← parseU64 sub
    pure { sub := sub, exp := Nat.ofDigitChars 10 exp 0 }
  decode_encode claims := by
    rw [splitOnce_append (notMem_toDigits rfl _)]
    simp [parseU64_toDigits]

/-- Passwords that can be read. -/
def plainArgon2 : Argon2 where
  hashPassword _ password := some password
  verifyPassword password hash := some (password = hash)
  verify_hash _ _ _ h := by
    cases h
    simp

/-- A site whose tokens and passwords can be read. -/
def plainSite : Site where
  engine := everyCommand
  jwt := plainJwt
  argon2 := plainArgon2
  admin := 1

/-- The first user lists a pair with its token. -/
def listedRun : List ExchangeAction :=
  [.signup [] ['a'] ['p'],
    .request 0 7
      { authorization := some ("Bearer ".toList ++ sign plainJwt 0 1)
        clientOrderId := some ['1']
        route := .listPair { base := .SOL, quote := .USD } },
    .inside (.log 7)]

/-- Whether the token of a request was handed out. -/
def unforgedCheck (site : Site) (x : Exchange) : ExchangeAction → Bool
  | .request _ _ r =>
      match r.authorization.bind (List.isPrefixOf? "Bearer ".toList) with
      | some token => x.issued.any fun issue => issue.token site = token
      | none => true
  | _ => true

theorem unforged_of_check {site : Site} (x : Exchange) (a : ExchangeAction)
    (h : unforgedCheck site x a = true) : Unforged site x a := by
  rintro i id r token claims rfl hheader _
  have htoken : r.authorization.bind (List.isPrefixOf? "Bearer ".toList) = some token := by
    rw [hheader, Option.bind_some]
    exact List.isPrefixOf?_eq_some_iff_append_eq.mpr rfl
  rw [unforgedCheck, htoken] at h
  obtain ⟨issue, hin, hsame⟩ := List.any_eq_true.mp h
  exact ⟨issue, hin, of_decide_eq_true hsame⟩

theorem access_control_listed : ∃ (x : Exchange) (envelope : CommandEnvelope) (user : User),
    some envelope ∈ x.gateway.world.commands.all ∧ user ∈ x.users ∧
      user.account = envelope.accountId ∧ envelope.accountId = plainSite.admin := by
  have hcheck : (exec (Exchange.step plainSite) (unforgedCheck plainSite) .init listedRun).any
      (fun x => x.gateway.world.commands.all.reduceOption.any fun envelope =>
        envelope.command.isAdmin) = true := by decide +kernel
  obtain ⟨x, hruns, hx⟩ := exists_run unforged_of_check hcheck
  obtain ⟨envelope, hin, hadmin⟩ := List.any_eq_true.mp hx
  have hlog := List.reduceOption_mem_iff.mp hin
  obtain ⟨⟨user, huser, haccount, _⟩, hgate⟩ := access_control hruns hlog
  exact ⟨x, envelope, user, hlog, huser, haccount, hgate hadmin⟩

end MatchingEngine
