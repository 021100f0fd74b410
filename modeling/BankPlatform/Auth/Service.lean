import BankPlatform.Bank.Values
import BankPlatform.Library.Serving
import BankPlatform.Library.Table

/-!
# Registration, login and access

The auth API (`modules/auth` and `lib/tokens.ts` of `apps/auth-api`) and the access check of the
banking API (`middleware/auth.ts` and `app.ts` of `apps/app-apis`). bcrypt, jose and the matching of
paths belong to libraries; the model says of them what their documentation says.

## Main definitions

* `Users` — the table of users with its unique index.
* `AuthService.register`, `AuthService.verifyCredentials`, `AuthService.getById` — the service.
* `signToken`, `verifyToken`, `createRemoteJwksVerifier` — the tokens.
* `requireAuth` — the access check in front of every route.
* `program` — the requests to both APIs.
-/

namespace BankPlatform.Auth

open Library
open Bank (Uuid Date AppError ErrorCode)

/-! ## Libraries -/

/-- `toLowerCase` and `lower` agree on the characters that `z.email` accepts. -/
def toLowerCase (s : String) : String := String.ofList (s.toList.map Char.toLower)

/-- bcryptjs; hashing draws a salt. -/
structure Bcrypt where
  hash (password : String) (rounds : ℕ) (salt : String) : String
  compare (password passwordHash : String) : Bool
  compare_hash : ∀ password rounds salt, compare password (hash password rounds salt) = true

structure ProtectedHeader where
  alg : String
  kid : String

structure Payload where
  email : String
  name : String
  sub : String
  iss : String
  aud : String
  iat : ℕ
  exp : ℕ
  deriving DecidableEq

structure VerifyOptions where
  issuer : String
  audience : String
  algorithms : List String

/-- Characters that `.` of a regular expression does not match. -/
def isLineTerminator (c : Char) : Bool :=
  c = '\n' || c = '\r' || c = '\u2028' || c = '\u2029'

/-- jose; signing draws a nonce, and verifying reads the clock, in seconds. A token is on one
line. -/
structure Jose (PrivateKey PublicKey : Type) where
  publicKey : PrivateKey → PublicKey
  sign (header : ProtectedHeader) (payload : Payload) (key : PrivateKey) (nonce : String) : String
  jwtVerify (token : String) (key : PublicKey) (options : VerifyOptions) (now : ℕ) : Option Payload
  sign_oneLine : ∀ header payload key nonce, sign header payload key nonce ≠ "" ∧
    (sign header payload key nonce).toList.all fun c => !isLineTerminator c
  jwtVerify_sign : ∀ header payload key nonce options now,
    jwtVerify (sign header payload key nonce) (publicKey key) options now =
      if payload.iss = options.issuer ∧ payload.aud = options.audience ∧
          header.alg ∈ options.algorithms ∧ now < payload.exp then some payload
      else none

/-- What stands between the first two slashes of a path. -/
def firstSegment (path : String) : String :=
  String.ofList ((path.toList.drop 1).takeWhile (· ≠ '/'))

/-- The matching of paths in an Express router, which ignores the letter case. -/
structure Router where
  matchesPath (route path : String) : Bool
  firstSegment_eq : ∀ route path, matchesPath route path = true →
    (firstSegment route).toList.head? ≠ some ':' →
      toLowerCase (firstSegment path) = toLowerCase (firstSegment route)

/-- What a library throws: an error with its `code`, and perhaps the `cause` that it wraps. -/
inductive JsError where
  | root (code : Option String)
  | wrapped (code : Option String) (cause : JsError)
  deriving DecidableEq

/-- A request is rejected with an `AppError`, with the issues of a schema, or with anything else. -/
inductive Rejection where
  | app (err : AppError)
  | zod (issues : List (String × String))
  | other (err : JsError)
  deriving DecidableEq

/-! ## Users -/

structure UserRow where
  id : Uuid
  email : String
  passwordHash : String
  name : String
  createdAt : Date
  deriving DecidableEq

instance : Keyed UserRow Uuid := ⟨UserRow.id⟩

/-- The table `users`. -/
structure Users where
  table : Table UserRow
  users_email_uq : table.UniqueIndex fun row => some (toLowerCase row.email)

/-- A row with a new id and, whatever its letter case, a new email. -/
def Users.insert? (users : Users) (row : UserRow) : Option Users :=
  if hnew : ∀ x ∈ users.table.rows, toLowerCase x.email ≠ toLowerCase row.email then
    match htable : users.table.insert? row with
    | some table =>
      some ⟨table, users.users_email_uq.insert? htable fun _ x hx h =>
        hnew x hx (Option.some.inj h)⟩
    | none => none
  else none

/-- The database, and the clock that all processes read, in milliseconds. -/
structure World where
  users : Users
  now : Date

inductive Statement where
  | insertUser
  | selectUserByEmail
  | selectUserById
  deriving DecidableEq

abbrev Handler (α : Type) := Session World Statement Rejection α

def World.insertUser? (w : World) (row : UserRow) : Option World :=
  (w.users.insert? row).map fun users => { w with users }

def PG_UNIQUE_VIOLATION : String := "23505"

/-- The driver's error for a row that an index refuses, as drizzle wraps it. -/
def uniqueViolation : JsError := .wrapped none (.root (some PG_UNIQUE_VIOLATION))

def JsError.isUniqueViolation : JsError → Bool
  | .root code => code == some PG_UNIQUE_VIOLATION
  | .wrapped code cause => code == some PG_UNIQUE_VIOLATION || cause.isUniqueViolation

def isUniqueViolation : Rejection → Bool
  | .app err => err.code.text == PG_UNIQUE_VIOLATION
  | .zod _ => false
  | .other err => err.isUniqueViolation

/-- What the database and bcrypt draw for a new user. -/
structure Draw where
  id : Uuid
  salt : String
  deriving DecidableEq

/-- `insert(users).values(...).returning()`. -/
def insertUser (row : Date → UserRow) : Handler UserRow :=
  .returning .insertUser fun w =>
    match w.insertUser? (row w.now) with
    | some w' => .ok (row w.now, w')
    | none => .error (.other uniqueViolation)

structure RegisterBody where
  email : String
  password : String
  name : String
  deriving DecidableEq

structure LoginBody where
  email : String
  password : String
  deriving DecidableEq

def BCRYPT_ROUNDS : ℕ := 11

/-- Hashed when the process starts. -/
def DUMMY_HASH (bcrypt : Bcrypt) (salt : String) : String :=
  bcrypt.hash "definitely-not-a-real-password" BCRYPT_ROUNDS salt

def emailTaken : AppError :=
  ⟨.ConflictError, .EMAIL_TAKEN, "A user with this email already exists", []⟩

def invalidCredentials : AppError :=
  ⟨.UnauthorizedError, .INVALID_CREDENTIALS, "Email or password is incorrect", []⟩

def userGone : AppError := ⟨.UnauthorizedError, .UNAUTHORIZED, "User no longer exists", []⟩

def invalidToken : AppError :=
  ⟨.UnauthorizedError, .UNAUTHORIZED, "Invalid or expired token", []⟩

def missingToken : AppError :=
  ⟨.UnauthorizedError, .UNAUTHORIZED,
    "Missing bearer token; log in via the auth API and send Authorization: Bearer <token>", []⟩

namespace AuthService

def register (bcrypt : Bcrypt) (input : RegisterBody) (draw : Draw) : Handler UserRow := do
  let passwordHash := bcrypt.hash input.password BCRYPT_ROUNDS draw.salt
  match ← (insertUser fun now =>
      ⟨draw.id, toLowerCase input.email, passwordHash, input.name, now⟩).attempt with
  | .ok user => return user
  | .error err => if isUniqueViolation err then .throw (.app emailTaken) else .throw err

def verifyCredentials (bcrypt : Bcrypt) (dummySalt : String) (email password : String) :
    Handler UserRow := do
  let user ← Session.query .selectUserByEmail fun w : World =>
    w.users.table.rows.find? fun row => toLowerCase row.email = toLowerCase email
  -- an unknown email is compared as well
  let passwordHash := (user.map UserRow.passwordHash).getD (DUMMY_HASH bcrypt dummySalt)
  let isMatch := bcrypt.compare password passwordHash
  match user with
  | none => .throw (.app invalidCredentials)
  | some user => if isMatch then return user else .throw (.app invalidCredentials)

def getById (userId : String) : Handler UserRow := do
  let user ← Session.query .selectUserById fun w : World =>
    w.users.table.rows.find? fun row => row.id.text = userId
  match user with
  | none => .throw (.app userGone)
  | some user => return user

end AuthService

/-! ## Tokens -/

def JWT_ALG : String := "ES256"

structure TokenConfig where
  issuer : String
  audience : String
  ttlSeconds : ℕ

structure TokenUser where
  id : String
  email : String
  name : String
  deriving DecidableEq

/-- The public key is derived from the private one. -/
structure SigningKeys (PrivateKey : Type) where
  privateKey : PrivateKey
  kid : String

/-- Seconds since the epoch. -/
def epoch (date : Date) : ℕ := date / 1000

variable {PrivateKey PublicKey : Type}

def UserRow.tokenUser (user : UserRow) : TokenUser := ⟨user.id.text, user.email, user.name⟩

/-- What a token says: `setIssuedAt` and `setExpirationTime` read the clock one after the other. -/
def claims (config : TokenConfig) (user : TokenUser) (issuedAt expiresFrom : Date) : Payload where
  email := user.email
  name := user.name
  sub := user.id
  iss := config.issuer
  aud := config.audience
  iat := epoch issuedAt
  exp := epoch expiresFrom + config.ttlSeconds

def signToken (jose : Jose PrivateKey PublicKey) (keys : SigningKeys PrivateKey)
    (config : TokenConfig) (user : TokenUser) (nonce : String) : Handler String := do
  let issuedAt ← Session.get
  let expiresFrom ← Session.get
  return jose.sign ⟨JWT_ALG, keys.kid⟩ (claims config user issuedAt.now expiresFrom.now)
    keys.privateKey nonce

def Payload.tokenUser (payload : Payload) : TokenUser := ⟨payload.sub, payload.email, payload.name⟩

/-- `jwtVerify` in a `try`: the key may be missing. -/
def verifyWith (jose : Jose PrivateKey PublicKey) (key : Option PublicKey) (options : VerifyOptions)
    (token : String) : Handler TokenUser := do
  let w ← Session.get
  match key.bind fun key => jose.jwtVerify token key options (epoch w.now) with
  | some payload => return payload.tokenUser
  | none => .throw (.app invalidToken)

def TokenConfig.verifyOptions (config : TokenConfig) : VerifyOptions :=
  ⟨config.issuer, config.audience, [JWT_ALG]⟩

/-- The auth API verifies with its own key. -/
def verifyToken (jose : Jose PrivateKey PublicKey) (keys : SigningKeys PrivateKey)
    (config : TokenConfig) (token : String) : Handler TokenUser :=
  verifyWith jose (some (jose.publicKey keys.privateKey)) config.verifyOptions token

/-- `issuer` and `audience` of the banking API's own configuration. -/
structure RemoteJwks where
  issuer : String
  audience : String

def RemoteJwks.verifyOptions (opts : RemoteJwks) : VerifyOptions :=
  ⟨opts.issuer, opts.audience, ["ES256"]⟩

/-- The banking API verifies with the key set of the auth API, if it can be fetched. -/
def createRemoteJwksVerifier (jose : Jose PrivateKey PublicKey) (opts : RemoteJwks)
    (jwks : Option PublicKey) (token : String) : Handler TokenUser :=
  verifyWith jose jwks opts.verifyOptions token

/-! ## Requests -/

/-- The token of a header that starts with `Bearer `. -/
def bearer? (header : String) : Option String :=
  (header.toList.dropPrefix? "Bearer ".toList).map String.ofList

/-- `authHeaders`: the header has to match `/^Bearer .+$/`. -/
def authHeaders (authorization : Option String) : Except Rejection String :=
  match authorization with
  | none =>
    .error (.zod [("authorization", "Invalid input: expected string, received undefined")])
  | some header =>
    match bearer? header with
    | none => .error (.zod [("authorization", "Expected: Bearer <token>")])
    | some token =>
      if token ≠ "" ∧ token.toList.all fun c => !isLineTerminator c then .ok token
      else .error (.zod [("authorization", "Expected: Bearer <token>")])

def PUBLIC_PATH_PREFIXES : List String := ["/health", "/docs"]

/-- The path is a public one, or below it. -/
def isPublic (publicPathPrefixes : List String) (path : String) : Bool :=
  publicPathPrefixes.any fun pre => path == pre || (pre ++ "/").toList.isPrefixOf path.toList

/-- The access check; it lets public paths through without a user. -/
def requireAuth (verify : String → Handler TokenUser) (publicPathPrefixes : List String)
    (path : String) (authorization : Option String) : Handler (Option TokenUser) :=
  if isPublic publicPathPrefixes path then return none
  else
    match authorization.bind bearer? with
    | none => .throw (.app missingToken)
    | some token => do return some (← verify token)

/-- The paths of the banking API's routes (`app.ts`). -/
def routes : List String :=
  ["/health",
    "/customers", "/customers", "/customers/:customerId", "/customers/:customerId/accounts",
    "/accounts", "/accounts/:accountId", "/accounts/:accountId/balance",
    "/accounts/:accountId/transfers",
    "/transfers", "/transfers/:transferId",
    "/accounts/:accountId/locks", "/accounts/:accountId/locks",
    "/accounts/:accountId/locks/:lockId",
    "/accounts/:accountId/comments", "/accounts/:accountId/comments"]

/-- A request with a valid body, and what is drawn for it. -/
inductive Query where
  | register (input : RegisterBody) (draw : Draw)
  | login (body : LoginBody) (nonce : String)
  | me (authorization : Option String)
  /-- Any request to the banking API; its verifier may have the key set or not. -/
  | bank (path : String) (authorization : Option String) (jwks : Bool)

/-- A response; `next` for a request that goes on to the routes, with `req.auth`. -/
inductive Answer where
  | created (id : Uuid) (email name : String) (createdAt : Date)
  | token (token tokenType : String) (expiresIn : ℕ)
  | me (id : Uuid) (email name : String)
  | next (auth : Option TokenUser)
  | error (status : ℕ) (code : ErrorCode) (message : String) (details : List (String × String))
  deriving DecidableEq

def errorHandler : Rejection → Answer
  | .app err => .error err.cls.status err.code err.message err.details
  | .zod issues => .error 400 .VALIDATION_ERROR "Request validation failed" issues
  | .other _ => .error 500 .INTERNAL_ERROR "An unexpected error occurred" []

/-- What the two APIs run with. -/
structure Deps (PrivateKey PublicKey : Type) where
  bcrypt : Bcrypt
  dummySalt : String
  jose : Jose PrivateKey PublicKey
  keys : SigningKeys PrivateKey
  tokenConfig : TokenConfig
  verifier : RemoteJwks

variable (A : Deps PrivateKey PublicKey)

def Deps.publicKey : PublicKey := A.jose.publicKey A.keys.privateKey

/-- The handlers of `authRoutes`, and the access check of the banking API. -/
def handle : Query → Handler Answer
  | .register input draw => do
    let user ← AuthService.register A.bcrypt input draw
    return .created user.id user.email user.name user.createdAt
  | .login body nonce => do
    let user ← AuthService.verifyCredentials A.bcrypt A.dummySalt body.email body.password
    let token ← signToken A.jose A.keys A.tokenConfig user.tokenUser nonce
    return .token token "Bearer" A.tokenConfig.ttlSeconds
  | .me authorization =>
    match authHeaders authorization with
    | .error err => .throw err
    | .ok token => do
      let claims ← verifyToken A.jose A.keys A.tokenConfig token
      let user ← AuthService.getById claims.id
      return .me user.id user.email user.name
  | .bank path authorization jwks => do
    let verify :=
      createRemoteJwksVerifier A.jose A.verifier (if jwks then some A.publicKey else none)
    return .next (← requireAuth verify PUBLIC_PATH_PREFIXES path authorization)

/-- A request to either API; errors become responses. -/
def program (q : Query) : Handler Answer := do
  match ← (handle A q).attempt with
  | .ok answer => return answer
  | .error err => return errorHandler err

end BankPlatform.Auth
