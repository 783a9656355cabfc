import MatchingEngine.DbWriter
import MatchingEngine.Gateway

/-!
# Auth: who may submit which command

`auth.rs`, and what the handlers of `main.rs` check before they submit a command.
`jsonwebtoken` and `argon2` are parameters, with what the API relies on as their
laws. `writeRequest` is a whole write request up to `submit_command`.
-/

namespace MatchingEngine

open RustArith HashModel

/-! ## Headers and paths -/

/-- `str::trim`. -/
def trim (text : Text) : Text :=
  ((text.dropWhile Char.isWhitespace).reverse.dropWhile Char.isWhitespace).reverse

/-- `str::parse::<u64>`, its errors as `none`: a `+` may lead, and what is no word is an
error. -/
def parseU64 (text : Text) : Option UInt64 :=
  let digits := match text with
    | '+' :: digits => digits
    | digits => digits
  if digits.isEmpty ∨ !digits.all Char.isDigit then none
  else
    let x := Nat.ofDigitChars 10 digits 0
    if x < 2 ^ 64 then some (UInt64.ofNat x) else none

/-- `Currency::from_str`, its error as `none`. -/
def Currency.fromStr (text : Text) : Option Currency :=
  if text = "USD".toList then some .USD
  else if text = "SOL".toList then some .SOL
  else none

/-- `Pair::try_from`: `BASE-QUOTE`, in capital letters. `USD-USD` is a pair here, the
engine refuses it. -/
def Pair.tryFrom (text : Text) : Option Pair := do
  let (base, quote) ← splitOnce '-' text
  let base ← Currency.fromStr base
  let quote ← Currency.fromStr quote
  pure { base := base, quote := quote }

/-! ## Tokens and passwords -/

/-- What a token says: for whom it is, and until when. -/
structure Claims where
  sub : AccountId
  exp : ℕ
deriving DecidableEq

/-- `jsonwebtoken` with HS256 and the secret of the process: `decode` checks the
signature. -/
structure Jwt where
  encode : Claims → Text
  decode : Text → Option Claims
  decode_encode : ∀ claims, decode (encode claims) = some claims

/-- `argon2` with its default parameters; `none` is an error of the hasher. -/
structure Argon2 where
  /-- of a salt and a password -/
  hashPassword : Text → Text → Option Text
  /-- of a password and a hash -/
  verifyPassword : Text → Text → Option Bool
  verify_hash : ∀ salt password hash, hashPassword salt password = some hash →
    verifyPassword password hash = some true

/-- How long a token is good for. -/
def tokenTtlSecs : ℕ := 24 * 60 * 60

/-- `Validation::new` lets a token live a minute longer. -/
def tokenLeewaySecs : ℕ := 60

/-- "Mint a 24h HS256 token whose subject is the account id." -/
def sign (jwt : Jwt) (now : ℕ) (accountId : AccountId) : Text :=
  jwt.encode { sub := accountId, exp := now + tokenTtlSecs }

/-- "Verify signature + expiry and return the claims." -/
def verify (jwt : Jwt) (now : ℕ) (token : Text) : Option Claims :=
  (jwt.decode token).filter fun claims => now ≤ claims.exp + tokenLeewaySecs

/-! ## Requests -/

/-- The write routes, with the body parsed; a body that does not parse never gets here.
-/
inductive Route where
  | placeOrder (body : OrderRequest)
  | cancelOrder (orderId : UInt64)
  | deposit (body : DepositRequest)
  | withdraw (body : WithdrawRequest)
  | listPair (pair : Pair)
  | delistPair (rawPair : Text)

/-- A write request; a header that is absent or no visible ASCII is `none`. -/
structure HttpRequest where
  authorization : Option Text
  clientOrderId : Option Text
  route : Route

/-- The extractor of `AuthUser`: the header has to be `Bearer <token>`, and the token
one that `verify` takes. Whatever is wrong, the answer is 401. -/
def authUser (jwt : Jwt) (now : ℕ) (authorization : Option Text) : Except ApiError AccountId :=
  match authorization with
  | none => .error .unauthorized
  | some header =>
      match List.isPrefixOf? "Bearer ".toList header with
      | none => .error .unauthorized
      | some token =>
          match verify jwt now token with
          | some claims => .ok claims.sub
          | none => .error .unauthorized

/-- The extractor of `ClientOrderId`: the header has to hold a number, blanks around it
left out. -/
def clientOrderIdOf (header : Option Text) : Except ApiError UInt64 :=
  match header.bind fun text => parseU64 (trim text) with
  | some id => .ok id
  | none => .error (.badRequest "missing or invalid X-Client-Order-Id header")

/-- `require_admin`: 403 for everybody else. -/
def requireAdmin (admin accountId : AccountId) : Except ApiError Unit :=
  if accountId ≠ admin then .error .forbidden else .ok ()

/-- What the handler of a route submits. -/
def Route.command (admin accountId : AccountId) : Route → Except ApiError Command
  | .placeOrder body => .ok (.place body)
  | .cancelOrder orderId => .ok (.cancel { orderId := orderId })
  | .deposit body => .ok (.deposit body)
  | .withdraw body => .ok (.withdraw body)
  | .listPair pair => do
      requireAdmin admin accountId
      pure (.listPair pair)
  | .delistPair rawPair => do
      requireAdmin admin accountId
      match Pair.tryFrom rawPair with
      | some pair => pure (.delistPair pair)
      | none => .error (.badRequest "invalid pair, expected BASE-QUOTE")

/-- A write request up to `submit_command`: who it is, the key, and then what its route
checks by itself. -/
def writeRequest (jwt : Jwt) (admin : AccountId) (now : ℕ) (r : HttpRequest) :
    Except ApiError (AccountId × UInt64 × Command) := do
  let accountId ← authUser jwt now r.authorization
  let clientOrderId ← clientOrderIdOf r.clientOrderId
  let command ← r.route.command admin accountId
  pure (accountId, clientOrderId, command)

/-- A key written in decimals is read back. -/
theorem parseU64_toDigits (x : UInt64) : parseU64 (Nat.toDigits 10 x.toNat) = some x := by
  have hplus := notMem_toDigits (c := '+') rfl x.toNat
  have hall : (Nat.toDigits 10 x.toNat).all Char.isDigit = true :=
    List.all_eq_true.mpr fun c hc => Nat.isDigit_of_mem_toDigits (by decide) (by decide) hc
  have hlt : x.toNat < 18446744073709551616 := toNat_lt x
  unfold parseU64
  split
  · rename_i digits hdigits
    rw [hdigits] at hplus
    exact absurd List.mem_cons_self hplus
  · simp [hall, hlt]

/-! ## What is admitted -/

/-- The commands of the admin routes. -/
def Command.isAdmin : Command → Bool
  | .listPair _ => true
  | .delistPair _ => true
  | _ => false

section

variable {jwt : Jwt} {admin accountId : AccountId} {now : ℕ}

theorem verify_ok {token : Text} {claims : Claims} (h : verify jwt now token = some claims) :
    jwt.decode token = some claims ∧ now ≤ claims.exp + tokenLeewaySecs := by
  obtain ⟨hdecode, hlive⟩ := Option.filter_eq_some_iff.mp h
  exact ⟨hdecode, of_decide_eq_true hlive⟩

theorem authUser_ok {authorization : Option Text}
    (h : authUser jwt now authorization = .ok accountId) : ∃ token claims,
      authorization = some ("Bearer ".toList ++ token) ∧
      jwt.decode token = some claims ∧ claims.sub = accountId ∧
      now ≤ claims.exp + tokenLeewaySecs := by
  unfold authUser at h
  split at h
  · cases h
  · rename_i header
    split at h
    · cases h
    · rename_i token htoken
      split at h
      · rename_i claims hverify
        cases h
        obtain ⟨hdecode, hlive⟩ := verify_ok hverify
        have hheader := (List.isPrefixOf?_eq_some_iff_append_eq.mp htoken).symm
        exact ⟨token, claims, congrArg some hheader, hdecode, rfl, hlive⟩
      · cases h

theorem requireAdmin_ok (h : requireAdmin admin accountId = .ok ()) : accountId = admin := by
  unfold requireAdmin at h
  split at h
  · cases h
  · rename_i heq
    exact not_not.mp heq

theorem Route.command_admin {route : Route} {command : Command}
    (h : route.command admin accountId = .ok command) (hadmin : command.isAdmin = true) :
    accountId = admin := by
  cases route with
  | listPair pair =>
      obtain ⟨_, hrequire, _⟩ := bind_ok.mp h
      exact requireAdmin_ok hrequire
  | delistPair rawPair =>
      obtain ⟨_, hrequire, _⟩ := bind_ok.mp h
      exact requireAdmin_ok hrequire
  | _ =>
      cases h
      cases hadmin

/-- **What was admitted** came with a live token of its account, and from the
admin if the route is. -/
theorem writeRequest_ok {r : HttpRequest} {clientOrderId : UInt64} {command : Command}
    (h : writeRequest jwt admin now r = .ok (accountId, clientOrderId, command)) :
    (∃ token claims, r.authorization = some ("Bearer ".toList ++ token) ∧
      jwt.decode token = some claims ∧ claims.sub = accountId ∧
      now ≤ claims.exp + tokenLeewaySecs) ∧
      (command.isAdmin = true → accountId = admin) := by
  obtain ⟨_, hauth, h⟩ := bind_ok.mp h
  obtain ⟨_, _, h⟩ := bind_ok.mp h
  obtain ⟨_, hcommand, h⟩ := bind_ok.mp h
  cases h
  exact ⟨authUser_ok hauth, Route.command_admin hcommand⟩

end

end MatchingEngine
