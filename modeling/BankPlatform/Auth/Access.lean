import BankPlatform.Auth.Promises
import BankPlatform.Bank.Spelling
import BankPlatform.Library.Numeral
import Mathlib.Logic.Equiv.List

/-!
# Who gets access

Users register and log in at the auth API, and present their tokens to the banking API. No lock
orders the requests; the unique index on emails and the signatures of the tokens do.

## Main results

* `access_authenticated` — behind the access check there are only users who have logged in.
* `registered_user_served` — whoever is registered can log in, and is let through.
* `registered_once` — an email is registered once.
-/

namespace BankPlatform.Auth

open Library

variable {PrivateKey PublicKey : Type} {A : Deps PrivateKey PublicKey}

/-! ## Tokens and paths -/

theorem epoch_mono {date date' : Bank.Date} (h : date ≤ date') : epoch date ≤ epoch date' :=
  Nat.div_le_div_right h

/-- A signed token verifies until it expires, and for its user only. -/
theorem SignedFor.jwtVerify {user : UserRow} {began w : World} {token : String}
    (h : SignedFor A user began token w) (options : VerifyOptions) (now : Bank.Date) :
    ∃ payload expiresFrom, began.now ≤ expiresFrom ∧ expiresFrom ≤ w.now ∧
      payload.sub = user.id.text ∧ payload.tokenUser = user.tokenUser ∧
      A.jose.jwtVerify token A.publicKey options (epoch now) =
        if A.tokenConfig.issuer = options.issuer ∧ A.tokenConfig.audience = options.audience ∧
            JWT_ALG ∈ options.algorithms ∧ epoch now < epoch expiresFrom + A.tokenConfig.ttlSeconds
        then some payload else none := by
  obtain ⟨issuedAt, expiresFrom, nonce, hbegan, hle, hended, rfl⟩ := h
  exact ⟨claims A.tokenConfig user.tokenUser issuedAt expiresFrom, expiresFrom, hbegan.trans hle,
    hended, rfl, rfl, A.jose.jwtVerify_sign ..⟩

/-- A token that verifies says who its user is, and was signed in time. -/
theorem SignedFor.of_verify {user : UserRow} {began w : World} {token : String}
    (h : SignedFor A user began token w) {options : VerifyOptions} {now : Bank.Date}
    {payload : Payload}
    (hverify : A.jose.jwtVerify token A.publicKey options (epoch now) = some payload) :
    payload.sub = user.id.text ∧ payload.tokenUser = user.tokenUser ∧
      epoch now < epoch w.now + A.tokenConfig.ttlSeconds := by
  obtain ⟨payload', expiresFrom, -, hended, hsub, huser, hsigned⟩ := h.jwtVerify options now
  rw [hsigned, Option.ite_none_right_eq_some] at hverify
  obtain ⟨⟨-, -, -, hexp⟩, hpayload⟩ := hverify
  obtain rfl := Option.some.inj hpayload
  have hended' := epoch_mono hended
  exact ⟨hsub, huser, by omega⟩

/-- With the right options a token verifies until its life from the beginning on is over. -/
theorem SignedFor.verifies {user : UserRow} {began w : World} {token : String}
    (h : SignedFor A user began token w) {now : Bank.Date}
    (htime : epoch now < epoch began.now + A.tokenConfig.ttlSeconds) :
    ∃ payload, A.jose.jwtVerify token A.publicKey A.tokenConfig.verifyOptions (epoch now) =
      some payload := by
  obtain ⟨payload, expiresFrom, hbegan, -, -, -, hsigned⟩ :=
    h.jwtVerify A.tokenConfig.verifyOptions now
  have hbegan' := epoch_mono hbegan
  refine ⟨payload, hsigned.trans (if_pos ⟨rfl, rfl, List.mem_singleton.mpr rfl, ?_⟩)⟩
  omega

theorem SignedFor.not_checked {user : UserRow} {began w began' w' : World} {token : String}
    (h : SignedFor A user began token w)
    (htime : epoch w'.now < epoch began.now + A.tokenConfig.ttlSeconds) :
    ¬ Checked A A.tokenConfig.verifyOptions token began' none w' := by
  rintro ⟨now, -, hended, hverify⟩
  have hended' := epoch_mono hended
  have hlives : epoch now < epoch began.now + A.tokenConfig.ttlSeconds := by omega
  obtain ⟨payload, hpayload⟩ := h.verifies hlives
  rw [hverify] at hpayload
  cases hpayload

theorem SignedFor.authHeaders {user : UserRow} {began w : World} {token : String}
    (h : SignedFor A user began token w) :
    authHeaders (some ("Bearer " ++ token)) = .ok token := by
  obtain ⟨issuedAt, expiresFrom, nonce, -, -, -, rfl⟩ := h
  simp only [Auth.authHeaders, bearer?_eq_some.mpr rfl]
  exact if_pos (A.jose.sign_oneLine ..)

/-- Only logins give out tokens. -/
theorem Promised.login_of_token {q : Query} {began w : World} {token tokenType : String}
    {expiresIn : ℕ} (h : Promised A q began (.token token tokenType expiresIn) w) :
    ∃ body nonce, q = .login body nonce := by
  cases q with
  | login body nonce => exact ⟨body, nonce, rfl⟩
  | register input draw =>
    rcases h with ⟨user, -, -, hanswer, -⟩ | ⟨hanswer, -⟩ <;> cases hanswer
  | me authorization =>
    rcases h with ⟨err, -, hanswer⟩ |
      ⟨_, -, ⟨-, hanswer⟩ | ⟨_, -, ⟨user, -, -, hanswer⟩ | ⟨hanswer, -⟩⟩⟩
    · cases err <;> cases hanswer
    all_goals cases hanswer
  | bank path authorization jwks =>
    simp only [Promised, BankPromise] at h
    split at h
    · cases h
    · split at h
      · cases h
      · rcases h with ⟨_, -, hanswer⟩ | ⟨-, hanswer⟩ <;> cases hanswer

/-- What is public is below one of two segments. -/
theorem firstSegment_of_isPublic {path : String} (h : isPublic PUBLIC_PATH_PREFIXES path = true) :
    firstSegment path = "health" ∨ firstSegment path = "docs" := by
  have below (pre rest : List Char) (hpath : path.toList = '/' :: (pre ++ '/' :: rest))
      (hpre : ∀ c ∈ pre, c ≠ '/') : firstSegment path = String.ofList pre := by
    rw [firstSegment, hpath, List.drop_succ_cons, List.drop_zero,
      List.takeWhile_append_of_pos (by simpa using hpre)]
    simp
  simp only [isPublic, PUBLIC_PATH_PREFIXES, List.any_cons, List.any_nil, Bool.or_false,
    Bool.or_eq_true, beq_iff_eq, List.isPrefixOf_iff_prefix] at h
  rcases h with (rfl | ⟨rest, hrest⟩) | (rfl | ⟨rest, hrest⟩)
  · left; decide
  · exact .inl (below "health".toList rest hrest.symm (by simp))
  · right; decide
  · exact .inr (below "docs".toList rest hrest.symm (by simp))

/-- No path is public that matches a route other than the health check. -/
theorem not_isPublic_of_matches (router : Router) {route path : String} (hroute : route ∈ routes)
    (hprivate : route ≠ "/health") (h : router.matchesPath route path = true) :
    ¬ isPublic PUBLIC_PATH_PREFIXES path = true := by
  have hroutes : ∀ route ∈ routes, route ≠ "/health" →
      (firstSegment route).toList.head? ≠ some ':' ∧
        toLowerCase (firstSegment route) ≠ toLowerCase "health" ∧
        toLowerCase (firstSegment route) ≠ toLowerCase "docs" := by
    decide
  obtain ⟨hstatic, hhealth, hdocs⟩ := hroutes route hroute hprivate
  have hsegment := router.firstSegment_eq route path h hstatic
  intro hpublic
  rcases firstSegment_of_isPublic hpublic with hfirst | hfirst
  · rw [hfirst] at hsegment
    exact hhealth hsegment.symm
  · rw [hfirst] at hsegment
    exact hdocs hsegment.symm

/-- The requests to both APIs. -/
abbrev Requests (Pid : Type) :=
  Config Pid (Serving World Query Answer)
    (Option (Request World Statement Rejection Query Answer))

/-! ## A visit -/

section Visit

variable (jose : Jose Unit Unit)

/-- Passwords in plain text. -/
def sampleBcrypt : Bcrypt where
  hash password _ _ := password
  compare password passwordHash := password == passwordHash
  compare_hash password _ _ := beq_self_eq_true password

def sampleDeps : Deps Unit Unit where
  bcrypt := sampleBcrypt
  dummySalt := "salt"
  jose := jose
  keys := ⟨(), "kid"⟩
  tokenConfig := ⟨"bank-auth", "bank-internal-api", 3600⟩
  verifier := ⟨"bank-auth", "bank-internal-api"⟩

def jane : RegisterBody := ⟨"jane.doe@bank.local", "super-secret-1", "Jane Doe"⟩

def janeDraw : Draw := ⟨⟨1⟩, "salt"⟩

def noUsers : World := ⟨⟨.empty, Table.uniqueIndex_empty _⟩, 0⟩

def unvisited : Requests Unit := ⟨⟨noUsers, []⟩, fun _ => none⟩

theorem idle_unvisited : Contract.Idle unvisited := ⟨rfl, fun _ => rfl⟩

def janeLogin : LoginBody := ⟨"Jane.Doe@Bank.Local", "super-secret-1"⟩

def janeRow : UserRow := ⟨⟨1⟩, "jane.doe@bank.local", "super-secret-1", "Jane Doe", 0⟩

/-- The token of a login at the start of the epoch. -/
def janeToken : String :=
  jose.sign ⟨JWT_ALG, "kid"⟩ (claims (sampleDeps jose).tokenConfig janeRow.tokenUser 0 0) () "nonce"

def janeVisits : Query := .bank "/customers" (some ("Bearer " ++ janeToken jose)) true

def registeredJane : World :=
  ⟨⟨⟨[janeRow], by simp⟩, by intro x hx y hy _ _; simp_all⟩, 0⟩

theorem does_register : Session.Does (program (sampleDeps jose) (.register jane janeDraw)) noUsers
    (.created janeRow.id janeRow.email janeRow.name janeRow.createdAt) registeredJane := rfl

theorem does_login : Session.Does (program (sampleDeps jose) (.login janeLogin "nonce"))
    registeredJane (.token (janeToken jose) "Bearer" 3600) registeredJane := rfl

theorem does_visit : Session.Does (program (sampleDeps jose) (janeVisits jose))
    registeredJane (.next (some janeRow.tokenUser)) registeredJane := by
  have hbearer : (some ("Bearer " ++ janeToken jose)).bind bearer? = some (janeToken jose) :=
    bearer?_eq_some.mpr rfl
  have hpublic : ¬ isPublic PUBLIC_PATH_PREFIXES "/customers" = true := by decide
  have hlives : epoch registeredJane.now < epoch 0 + 3600 := by decide
  have hverify : (sampleDeps jose).jose.jwtVerify (janeToken jose) (sampleDeps jose).publicKey
      (sampleDeps jose).verifier.verifyOptions (epoch registeredJane.now) =
        some (claims (sampleDeps jose).tokenConfig janeRow.tokenUser 0 0) :=
    (jose.jwtVerify_sign ..).trans (if_pos ⟨rfl, rfl, List.mem_singleton.mpr rfl, hlives⟩)
  have hverified : Session.Does (createRemoteJwksVerifier (sampleDeps jose).jose
      (sampleDeps jose).verifier (some (sampleDeps jose).publicKey) (janeToken jose))
      registeredJane janeRow.tokenUser registeredJane := by
    refine (Session.does_get registeredJane).bind ?_
    rw [Option.bind_some, hverify]
    rfl
  have hpassed : Session.Does (handle (sampleDeps jose) (janeVisits jose)) registeredJane
      (.next (some janeRow.tokenUser)) registeredJane := by
    simp only [janeVisits, handle, requireAuth, hbearer, hpublic, Bool.false_eq_true, if_false,
      if_true]
    exact Session.Does.bind (Session.Does.bind hverified rfl) rfl
  exact (Session.does_attempt_ok.mpr hpassed).bind rfl

def janeRegistered : ServedRequest :=
  ⟨.register jane janeDraw, 0, noUsers,
    .created janeRow.id janeRow.email janeRow.name janeRow.createdAt, registeredJane⟩

def janeLoggedIn : ServedRequest :=
  ⟨.login janeLogin "nonce", 1, registeredJane, .token (janeToken jose) "Bearer" 3600,
    registeredJane⟩

def janeVisited : ServedRequest :=
  ⟨janeVisits jose, 2, registeredJane, .next (some janeRow.tokenUser), registeredJane⟩

def visited : Requests Unit :=
  ⟨⟨registeredJane, [janeRegistered, janeLoggedIn jose, janeVisited jose]⟩, fun _ => none⟩

theorem run_visited : (requests (program (sampleDeps jose))).Run
    (access (sampleDeps jose)).admits unvisited (visited jose) := by
  have hregister := Contract.run_alone (A := access (sampleDeps jose)) (c := unvisited) (i := ())
    (fun token h => by cases h) rfl (does_register jose)
  have hlogin := hregister.trans (Contract.run_alone (i := ()) (fun token h => by cases h) rfl
    (does_login jose))
  refine hlogin.trans (Contract.run_alone (i := ()) ?_ rfl (does_visit jose))
  intro token h options now payload hverify
  obtain rfl : janeToken jose = token := (String.append_right_inj _).mp (Option.some.inj h)
  exact ⟨_, List.mem_cons_of_mem _ (List.mem_singleton.mpr rfl), _, _, rfl⟩

end Visit

/-- The fields of a token, as numbers. -/
def fields (header : ProtectedHeader) (payload : Payload) (nonce : String) : List (List ℕ) :=
  [header.alg, header.kid, payload.email, payload.name, payload.sub, payload.iss, payload.aud,
    nonce].map (fun s => s.toList.map Char.toNat) ++ [[payload.iat], [payload.exp]]

def ofCodes (codes : List ℕ) : String := String.ofList (codes.map Char.ofNat)

theorem ofCodes_toNat (s : String) : ofCodes (s.toList.map Char.toNat) = s := by
  simp [ofCodes, Function.comp_def]

/-- A token spells its fields in decimal. -/
def sampleJose : Jose Unit Unit where
  publicKey _ := ()
  sign header payload _ nonce := toString (Encodable.encode (fields header payload nonce))
  jwtVerify token _ options now :=
    match (Numeral.decimal? token).bind fun n => Encodable.decode (α := List (List ℕ)) n with
    | some [alg, _, email, name, sub, iss, aud, _, [iat], [exp]] =>
      if ofCodes iss = options.issuer ∧ ofCodes aud = options.audience ∧
          ofCodes alg ∈ options.algorithms ∧ now < exp then
        some ⟨ofCodes email, ofCodes name, ofCodes sub, ofCodes iss, ofCodes aud, iat, exp⟩
      else none
    | _ => none
  sign_oneLine header payload _ nonce := by
    have hdigits := Numeral.decimal?_toString (Encodable.encode (fields header payload nonce))
    rw [Numeral.decimal?, Option.ite_none_right_eq_some] at hdigits
    obtain ⟨⟨hne, hall⟩, -⟩ := hdigits
    refine ⟨fun h => hne (by rw [h]; rfl), List.all_eq_true.mpr fun c hc => ?_⟩
    have hdigit := List.all_eq_true.mp hall c hc
    by_contra hline
    simp only [isLineTerminator, Bool.not_eq_true', Bool.not_eq_false, Bool.or_eq_true,
      decide_eq_true_eq, or_assoc] at hline
    rcases hline with rfl | rfl | rfl | rfl <;> exact absurd hdigit (by decide)
  jwtVerify_sign header payload _ nonce options now := by
    rw [Numeral.decimal?_toString, Option.bind_some, Encodable.encodek]
    simp only [fields, List.map_cons, List.map_nil, List.cons_append, List.nil_append,
      ofCodes_toNat]

/-- Paths without parameters. -/
def sampleRouter : Router where
  matchesPath route path := route == path
  firstSegment_eq route path h _ := by rw [eq_of_beq h]

/-! ## Every run -/

variable {Pid : Type} [DecidableEq Pid]

variable {c₀ c : Requests Pid}

omit [DecidableEq Pid] in
/-- A token has been given out for a user who had logged in. -/
theorem exists_login_of_givesToken (hs : (access A).Consistent c₀.shared.store c.shared)
    {e : ServedRequest} (he : e ∈ c.shared.served) {token : String} (h : GivesToken e token) :
    ∃ body nonce, e.query = .login body nonce ∧
      e.answer = .token token "Bearer" A.tokenConfig.ttlSeconds ∧
      ∃ user ∈ e.ended.users.table.rows, Credentials A body user ∧
        SignedFor A user e.began token e.ended := by
  obtain ⟨tokenType, expiresIn, hanswer⟩ := h
  have hpromised : Promised A e.query e.began e.answer e.ended := (hs.served e he).promised
  rw [hanswer] at hpromised
  obtain ⟨body, nonce, hquery⟩ := hpromised.login_of_token
  rw [hquery] at hpromised
  rcases hpromised with ⟨user, huser, hcredentials, token', hsigned, htoken⟩ | ⟨hrefused, -⟩
  · cases htoken
    exact ⟨body, nonce, hquery, hanswer, user, huser, hcredentials, hsigned⟩
  · cases hrefused

/-- Behind the access check there are only users who have logged in. Whatever requests are made at
the same time and whatever fails, a request that reaches a route other than the health check bears
the token of a login that was answered before: with the email and the password of a user, who is in
the database and whom the route is told, and no longer ago than a token lives. -/
theorem access_authenticated (router : Router) (h₀ : Contract.Idle c₀)
    (h : (requests (program A)).Run (access A).admits c₀ c) {e : ServedRequest}
    (he : e ∈ c.shared.served) {path : String} {authorization : Option String} {jwks : Bool}
    (hquery : e.query = .bank path authorization jwks) {identity : Option TokenUser}
    (hanswer : e.answer = .next identity) {route : String} (hroute : route ∈ routes)
    (hprivate : route ≠ "/health") (hmatches : router.matchesPath route path = true) :
    ∃ login ∈ c.shared.served.take e.asked, ∃ body nonce token,
      login.query = .login body nonce ∧
      login.answer = .token token "Bearer" A.tokenConfig.ttlSeconds ∧
      authorization = some ("Bearer " ++ token) ∧
      epoch e.began.now < epoch login.ended.now + A.tokenConfig.ttlSeconds ∧
      ∃ user ∈ c.shared.store.users.table.rows, Credentials A body user ∧
        identity = some user.tokenUser := by
  obtain ⟨hs, -⟩ := Contract.sound h₀ h
  have hserved := hs.served e he
  have hpromised : Promised A e.query e.began e.answer e.ended := hserved.promised
  have hunforged : Unforged A e.query (c.shared.served.take e.asked) := hserved.accepted
  have hpublic := not_isPublic_of_matches router hroute hprivate hmatches
  rw [hquery, hanswer] at hpromised
  simp only [Promised, BankPromise, hpublic] at hpromised
  cases hbearer : authorization.bind bearer? with
  | none => simp [hbearer, errorHandler] at hpromised
  | some token =>
    simp only [hbearer, errorHandler] at hpromised
    obtain ⟨payload, hchecked, hnext⟩ := hpromised.resolve_right (by simp)
    obtain ⟨header, rfl, hheader⟩ := Option.bind_eq_some_iff.mp hbearer
    obtain rfl := bearer?_eq_some.mp hheader
    obtain ⟨now, hbegan, hended, hverify⟩ := hchecked
    obtain ⟨login, hlogin, hgives⟩ :=
      hunforged token (by rw [hquery]; rfl) _ _ payload hverify
    obtain ⟨body, nonce, hloginQuery, hloginAnswer, user, huser, hcredentials, hsigned⟩ :=
      exists_login_of_givesToken hs (List.mem_of_mem_take hlogin) hgives
    obtain ⟨-, huserOf, htime⟩ := hsigned.of_verify hverify
    have hbegan' := epoch_mono hbegan
    refine ⟨login, hlogin, body, nonce, token, hloginQuery, hloginAnswer, rfl, by omega, user, ?_,
      hcredentials, ?_⟩
    · exact (hs.served login (List.mem_of_mem_take hlogin)).after.users user huser
    · rw [← huserOf]
      exact Answer.next.inj hnext

/-- Jane reads the customers. -/
theorem access_authenticated_visit :
    ∃ login ∈ (visited sampleJose).shared.served.take 2, ∃ body nonce token,
      login.query = .login body nonce ∧ login.answer = .token token "Bearer" 3600 ∧
      some ("Bearer " ++ janeToken sampleJose) = some ("Bearer " ++ token) ∧
      epoch registeredJane.now < epoch login.ended.now + 3600 ∧
      ∃ user ∈ registeredJane.users.table.rows, Credentials (sampleDeps sampleJose) body user ∧
        some janeRow.tokenUser = some user.tokenUser :=
  access_authenticated sampleRouter idle_unvisited (run_visited sampleJose)
    (e := janeVisited sampleJose) (by simp [visited]) rfl rfl
    (by decide : "/customers" ∈ routes) (by decide) rfl

/-- No two users share an id. -/
theorem Users.eq_of_id {users : Users} {user user' : UserRow} (huser : user ∈ users.table.rows)
    (huser' : user' ∈ users.table.rows) (h : user.id = user'.id) : user = user' := by
  have hfind := Table.find?_key huser
  rw [show Keyed.key user = Keyed.key user' from h, Table.find?_key huser'] at hfind
  exact (Option.some.inj hfind).symm

/-- No two users share an email, whatever its letter case. -/
theorem Users.eq_of_email {users : Users} {user user' : UserRow} (huser : user ∈ users.table.rows)
    (huser' : user' ∈ users.table.rows) (h : toLowerCase user.email = toLowerCase user'.email) :
    user = user' :=
  users.users_email_uq user huser user' huser' (by simp) (congrArg some h)

omit [DecidableEq Pid] in
/-- A registered user has the credentials. -/
theorem exists_user_of_created (hs : (access A).Consistent c₀.shared.store c.shared)
    {e : ServedRequest} (he : e ∈ c.shared.served) {input : RegisterBody} {draw : Draw}
    (hquery : e.query = .register input draw) {id : Bank.Uuid} {email name : String}
    {createdAt : Bank.Date} (hanswer : e.answer = .created id email name createdAt) :
    ∃ user ∈ e.ended.users.table.rows, user.id = id ∧ user.email = email ∧ user.name = name ∧
      id = draw.id ∧ Credentials A ⟨input.email, input.password⟩ user := by
  have hpromised : Promised A e.query e.began e.answer e.ended := (hs.served e he).promised
  rw [hquery, hanswer] at hpromised
  rcases hpromised with ⟨user, huser, hrow, hcreated, -⟩ | ⟨hrefused, -⟩
  · cases hcreated
    refine ⟨user, huser, rfl, rfl, rfl, by rw [hrow], ?_, ?_⟩
    · rw [hrow]
      exact toLowerCase_toLowerCase _
    · rw [hrow]
      exact A.bcrypt.compare_hash ..
  · cases hrefused

/-- `/auth/me` knows the user of a token that lives. -/
theorem MePromise.answer_eq {user : UserRow} {began w began' w' : World} {token : String}
    {answer : Answer} (h : MePromise A (some ("Bearer " ++ token)) began' answer w')
    (hsigned : SignedFor A user began token w)
    (htime : epoch w'.now < epoch began.now + A.tokenConfig.ttlSeconds)
    (hbegan : user ∈ began'.users.table.rows) (hended : user ∈ w'.users.table.rows) :
    answer = .me user.id user.email user.name := by
  rcases h with ⟨err, hheader, -⟩ | ⟨token', hheader, hanswer⟩
  · rw [hsigned.authHeaders] at hheader
    cases hheader
  · rw [hsigned.authHeaders] at hheader
    obtain rfl := Except.ok.inj hheader
    rcases hanswer with ⟨hchecked, -⟩ | ⟨payload, ⟨now, -, -, hverify⟩, hanswer⟩
    · exact (hsigned.not_checked htime hchecked).elim
    · have hsub := (hsigned.of_verify hverify).1
      rcases hanswer with ⟨user', huser', hid, rfl⟩ | ⟨-, hgone⟩
      · obtain rfl := Users.eq_of_id huser' hended (Bank.text_injective (hid.trans hsub))
        rfl
      · exact (hgone user hbegan hsub.symm).elim

/-- The banking API lets the bearer of a token that lives through to what is not public. -/
theorem BankPromise.answer_eq {user : UserRow} {began w began' w' : World} {path token : String}
    {answer : Answer} (h : BankPromise A path (some ("Bearer " ++ token)) true began' answer w')
    (hsigned : SignedFor A user began token w)
    (htime : epoch w'.now < epoch began.now + A.tokenConfig.ttlSeconds)
    (hpublic : ¬ isPublic PUBLIC_PATH_PREFIXES path = true)
    (hoptions : A.tokenConfig.verifyOptions = A.verifier.verifyOptions) :
    answer = .next (some user.tokenUser) := by
  have hbearer : (some ("Bearer " ++ token)).bind bearer? = some token := bearer?_eq_some.mpr rfl
  simp only [BankPromise, hpublic, hbearer] at h
  rcases h with ⟨payload, ⟨now, -, -, hverify⟩, rfl⟩ | ⟨hchecked, -⟩
  · rw [(hsigned.of_verify hverify).2.1]
  · have hnone := hchecked trivial
    rw [← hoptions] at hnone
    exact (hsigned.not_checked htime hnone).elim

omit [DecidableEq Pid] in
/-- Whoever presents a living token finds its user in the database. -/
theorem mem_began_of_unforged (hs : (access A).Consistent c₀.shared.store c.shared)
    {e : ServedRequest} (he : e ∈ c.shared.served) {user : UserRow} {began w : World}
    {token : String} (hheader : e.query.authorization? = some ("Bearer " ++ token))
    (hsigned : SignedFor A user began token w)
    (htime : epoch e.ended.now < epoch began.now + A.tokenConfig.ttlSeconds)
    (huser : user ∈ c.shared.store.users.table.rows) : user ∈ e.began.users.table.rows := by
  have hserved := hs.served e he
  have hunforged : Unforged A e.query (c.shared.served.take e.asked) := hserved.accepted
  obtain ⟨payload, hverify⟩ := hsigned.verifies htime
  obtain ⟨k, hk, hgives⟩ := hunforged token hheader _ _ payload hverify
  obtain ⟨-, -, -, -, user', huser', -, hsigned'⟩ :=
    exists_login_of_givesToken hs (List.mem_of_mem_take hk) hgives
  have hstored := Grows.users (hs.served k (List.mem_of_mem_take hk)).after user' huser'
  have hid : user'.id.text = user.id.text :=
    (hsigned'.of_verify hverify).1.symm.trans (hsigned.of_verify hverify).1
  obtain rfl := Users.eq_of_id hstored huser (Bank.text_injective hid)
  exact Grows.users (hserved.known k hk) user' huser'

/-- Whoever registers is served. Whatever requests are made at the same time, a login that begins
when a user has been registered, with his email in any letter case and his password, gets a token.
As long as it lives, `/auth/me` answers it with that user, and the banking API, once it has the key
set, lets it through to the routes as that user. And a request that is left alone is answered. -/
theorem registered_user_served (h₀ : Contract.Idle c₀)
    (h : (requests (program A)).Run (access A).admits c₀ c) {input : RegisterBody} {draw : Draw}
    {registered : ServedRequest} (hregister : registered.query = .register input draw)
    {id : Bank.Uuid} {email name : String} {createdAt : Bank.Date}
    (hcreated : registered.answer = .created id email name createdAt) {login : ServedRequest}
    (hmem : login ∈ c.shared.served) (hafter : registered ∈ c.shared.served.take login.asked)
    {body : LoginBody} {nonce : String} (hlogin : login.query = .login body nonce)
    (hemail : toLowerCase body.email = toLowerCase input.email)
    (hpassword : body.password = input.password) :
    (∃ token, login.answer = .token token "Bearer" A.tokenConfig.ttlSeconds ∧
      ∀ e ∈ c.shared.served,
        epoch e.ended.now < epoch login.began.now + A.tokenConfig.ttlSeconds →
        (e.query = .me (some ("Bearer " ++ token)) → e.answer = .me id email name) ∧
        (∀ path, e.query = .bank path (some ("Bearer " ++ token)) true →
          ¬ isPublic PUBLIC_PATH_PREFIXES path = true →
          A.tokenConfig.verifyOptions = A.verifier.verifyOptions →
          e.answer = .next (some ⟨id.text, email, name⟩))) ∧
    ∀ i r, c.locals i = some r → ∃ c' a, (requests (program A)).Run (access A).admits c c' ∧
      c'.shared.served = c.shared.served ++ [⟨r.query, r.asked, r.began, a, c'.shared.store⟩] := by
  obtain ⟨hs, -⟩ := Contract.sound h₀ h
  refine ⟨?_, fun i r hr => ?_⟩
  · obtain ⟨user, huser, rfl, rfl, rfl, -, hcredentials⟩ :=
      exists_user_of_created hs (List.mem_of_mem_take hafter) hregister hcreated
    have hserved := hs.served login hmem
    have hbegan : user ∈ login.began.users.table.rows :=
      Grows.users (hserved.known registered hafter) user huser
    have hended := Grows.users hserved.during user hbegan
    have hpromised : Promised A login.query login.began login.answer login.ended :=
      hserved.promised
    rw [hlogin] at hpromised
    rcases hpromised with ⟨user', huser', hcredentials', token, hsigned, htoken⟩ | ⟨-, hnobody⟩
    · have hfound : toLowerCase user'.email = toLowerCase user.email := by
        rw [hcredentials'.email, hemail, hcredentials.email]
      obtain rfl := Users.eq_of_email huser' hended hfound
      have hstored := Grows.users hserved.after user' huser'
      refine ⟨token, htoken, fun e he htime => ?_⟩
      have hanswered : Promised A e.query e.began e.answer e.ended := (hs.served e he).promised
      refine ⟨fun hquery => ?_, fun path hquery hpublic hoptions => ?_⟩
      · have hthere := mem_began_of_unforged hs he (by rw [hquery]; rfl) hsigned htime hstored
        rw [hquery] at hanswered
        exact MePromise.answer_eq hanswered hsigned htime hthere
          (Grows.users (hs.served e he).during user' hthere)
      · rw [hquery] at hanswered
        exact BankPromise.answer_eq hanswered hsigned htime hpublic hoptions
    · refine (hnobody user hbegan ⟨hcredentials.email.trans hemail.symm, ?_⟩).elim
      rw [hpassword]
      exact hcredentials.password
  · obtain ⟨c', a, hrun, -, hmore⟩ := Contract.run_finishes h₀ r.rest h hr
    exact ⟨c', a, hrun, hmore⟩

/-- Jane logs in with her email spelled another way, and reads the customers. -/
theorem registered_user_served_visit :
    (∃ token, (janeLoggedIn sampleJose).answer = .token token "Bearer" 3600 ∧
      ∀ e ∈ (visited sampleJose).shared.served,
        epoch e.ended.now < epoch registeredJane.now + 3600 →
        (e.query = .me (some ("Bearer " ++ token)) →
          e.answer = .me janeRow.id janeRow.email janeRow.name) ∧
        (∀ path, e.query = .bank path (some ("Bearer " ++ token)) true →
          ¬ isPublic PUBLIC_PATH_PREFIXES path = true →
          (sampleDeps sampleJose).tokenConfig.verifyOptions =
            (sampleDeps sampleJose).verifier.verifyOptions →
          e.answer = .next (some ⟨janeRow.id.text, janeRow.email, janeRow.name⟩))) ∧
    ∀ i r, (visited sampleJose).locals i = some r → ∃ c' a,
      (requests (program (sampleDeps sampleJose))).Run (access (sampleDeps sampleJose)).admits
        (visited sampleJose) c' ∧ c'.shared.served = (visited sampleJose).shared.served ++
          [⟨r.query, r.asked, r.began, a, c'.shared.store⟩] := by
  have hregister : janeRegistered.query = .register jane janeDraw := rfl
  have hlogin : (janeLoggedIn sampleJose).query = .login janeLogin "nonce" := rfl
  have hmem : janeLoggedIn sampleJose ∈ (visited sampleJose).shared.served := by simp [visited]
  have hafter : janeRegistered ∈
      (visited sampleJose).shared.served.take (janeLoggedIn sampleJose).asked := by
    simp [visited, janeLoggedIn]
  exact registered_user_served idle_unvisited (run_visited sampleJose) hregister rfl hmem hafter
    hlogin (by decide) rfl

omit [DecidableEq Pid] in
/-- An accepted registration has stored a row for an email that was new. -/
theorem exists_row_of_accepted (hs : (access A).Consistent c₀.shared.store c.shared)
    {e : ServedRequest} (he : e ∈ c.shared.served) {input : RegisterBody} {draw : Draw}
    (hquery : e.query = .register input draw)
    (haccepted : e.answer ≠ errorHandler (.app emailTaken)) :
    ∃ user ∈ e.ended.users.table.rows, user.id = draw.id ∧
      toLowerCase user.email = toLowerCase input.email ∧
      ∀ x ∈ e.began.users.table.rows, toLowerCase x.email ≠ toLowerCase input.email := by
  have hpromised : Promised A e.query e.began e.answer e.ended := (hs.served e he).promised
  rw [hquery] at hpromised
  rcases hpromised with ⟨user, huser, hrow, -, hnew⟩ | ⟨hrefused, -⟩
  · refine ⟨user, huser, by rw [hrow], ?_, fun x hx => (hnew x hx).2⟩
    rw [hrow]
    exact toLowerCase_toLowerCase _
  · exact (haccepted hrefused).elim

/-- Registering is decided once for each email. An answered registration has stored its user, who is
still there as he was registered, or it was refused because the email or the drawn id was a user's;
of two registrations of one email, in any letter case and however they overlap, only one is
accepted; and one that begins when the email is registered is refused. -/
theorem registered_once (h₀ : Contract.Idle c₀)
    (h : (requests (program A)).Run (access A).admits c₀ c) {e : ServedRequest}
    (he : e ∈ c.shared.served) {input : RegisterBody} {draw : Draw}
    (hquery : e.query = .register input draw) :
    ((∃ user ∈ c.shared.store.users.table.rows,
        e.answer = .created user.id user.email user.name user.createdAt ∧
        user = ⟨draw.id, toLowerCase input.email,
          A.bcrypt.hash input.password BCRYPT_ROUNDS draw.salt, input.name, user.createdAt⟩) ∨
      e.answer = errorHandler (.app emailTaken) ∧ ∃ user ∈ c.shared.store.users.table.rows,
        user.id = draw.id ∨ toLowerCase user.email = toLowerCase input.email) ∧
    ∀ e' ∈ c.shared.served, ∀ input' draw', e'.query = .register input' draw' →
      toLowerCase input'.email = toLowerCase input.email →
      e'.answer ≠ errorHandler (.app emailTaken) →
      (e.answer ≠ errorHandler (.app emailTaken) → draw.id = draw'.id) ∧
      (e' ∈ c.shared.served.take e.asked → e.answer = errorHandler (.app emailTaken)) := by
  obtain ⟨hs, -⟩ := Contract.sound h₀ h
  have hserved := hs.served e he
  have hpromised : Promised A e.query e.began e.answer e.ended := hserved.promised
  rw [hquery] at hpromised
  refine ⟨?_, fun e' he' input' draw' hquery' hemail haccepted' => ⟨fun haccepted => ?_,
    fun hknown => ?_⟩⟩
  · rcases hpromised with ⟨user, huser, hrow, hanswer, -⟩ | ⟨hanswer, user, huser, htaken⟩
    · exact .inl ⟨user, Grows.users hserved.after user huser, hanswer, hrow⟩
    · exact .inr ⟨hanswer, user, Grows.users hserved.after user huser, htaken⟩
  · obtain ⟨user, huser, hid, hsame, -⟩ := exists_row_of_accepted hs he hquery haccepted
    obtain ⟨user', huser', hid', hsame', -⟩ := exists_row_of_accepted hs he' hquery' haccepted'
    have hstored := Grows.users hserved.after user huser
    have hstored' := Grows.users (hs.served e' he').after user' huser'
    obtain rfl := Users.eq_of_email hstored hstored' (by rw [hsame, hsame', hemail])
    rw [← hid, ← hid']
  · obtain ⟨user', huser', -, hsame', -⟩ := exists_row_of_accepted hs he' hquery' haccepted'
    by_contra haccepted
    obtain ⟨-, -, -, -, hnew⟩ := exists_row_of_accepted hs he hquery haccepted
    have hbegan := Grows.users (hserved.known e' hknown) user' huser'
    exact hnew user' hbegan (hsame'.trans hemail)

/-- The same email in another spelling. -/
def janeAgain : RegisterBody := ⟨"Jane.Doe@Bank.Local", "super-secret-2", "Jane"⟩

def janeRefused : ServedRequest :=
  ⟨.register janeAgain ⟨⟨2⟩, "pepper"⟩, 1, registeredJane, errorHandler (.app emailTaken),
    registeredJane⟩

/-- Jane has registered, and a second registration of her email was refused. -/
def registeredTwice : Requests Unit :=
  ⟨⟨registeredJane, [janeRegistered, janeRefused]⟩, fun _ => none⟩

theorem throws_register_again : Session.Throws
    (AuthService.register sampleBcrypt janeAgain ⟨⟨2⟩, "pepper"⟩) registeredJane (.app emailTaken)
    registeredJane := by
  unfold Session.Throws
  rfl

theorem run_registeredTwice (jose : Jose Unit Unit) :
    (requests (program (sampleDeps jose))).Run (access (sampleDeps jose)).admits unvisited
      registeredTwice := by
  have hregister := Contract.run_alone (A := access (sampleDeps jose)) (c := unvisited) (i := ())
    (fun token h => by cases h) rfl (does_register jose)
  have hthrows : Session.Throws
      (handle (sampleDeps jose) (.register janeAgain ⟨⟨2⟩, "pepper"⟩)) registeredJane
      (.app emailTaken) registeredJane := Session.throws_bind.mpr (.inl throws_register_again)
  have hrefused : Session.Does
      (program (sampleDeps jose) (.register janeAgain ⟨⟨2⟩, "pepper"⟩)) registeredJane
      (errorHandler (.app emailTaken)) registeredJane :=
    (Session.does_attempt_error.mpr hthrows).bind rfl
  exact hregister.trans (Contract.run_alone (i := ()) (fun token h => by cases h) rfl hrefused)

theorem registered_once_twice :
    ((∃ user ∈ registeredJane.users.table.rows,
        janeRefused.answer = .created user.id user.email user.name user.createdAt ∧
        user = ⟨⟨2⟩, toLowerCase janeAgain.email,
          (sampleDeps sampleJose).bcrypt.hash janeAgain.password BCRYPT_ROUNDS "pepper",
          janeAgain.name, user.createdAt⟩) ∨
      janeRefused.answer = errorHandler (.app emailTaken) ∧
        ∃ user ∈ registeredJane.users.table.rows,
          user.id = ⟨2⟩ ∨ toLowerCase user.email = toLowerCase janeAgain.email) ∧
    ∀ e' ∈ registeredTwice.shared.served, ∀ input' draw', e'.query = .register input' draw' →
      toLowerCase input'.email = toLowerCase janeAgain.email →
      e'.answer ≠ errorHandler (.app emailTaken) →
      (janeRefused.answer ≠ errorHandler (.app emailTaken) → ⟨2⟩ = draw'.id) ∧
      (e' ∈ registeredTwice.shared.served.take janeRefused.asked →
        janeRefused.answer = errorHandler (.app emailTaken)) :=
  registered_once idle_unvisited (run_registeredTwice sampleJose) (e := janeRefused)
    (by simp [registeredTwice]) rfl

end BankPlatform.Auth
