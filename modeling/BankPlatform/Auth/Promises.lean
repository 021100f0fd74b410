import BankPlatform.Auth.Service

/-!
# What a request to the auth API is promised

Requests of any number of clients go on at the same time, in any number of processes. What each of
them can rely on is that users stay as they are and that time passes; from that its answer says
something about the users before the request and behind it.

## Main definitions

* `Grows` — what everybody keeps of the database.
* `Promised` — what an answer says.
* `Unforged` — nobody but the auth API can sign.

## Main results

* `access` — the programs keep to it, as a contract.
-/

namespace BankPlatform.Auth

open Library

variable {PrivateKey PublicKey : Type} (A : Deps PrivateKey PublicKey)

/-! ## What is kept and what is promised -/

/-- No user is changed or deleted, and the clock does not go back. -/
structure Grows (w w' : World) : Prop where
  users : ∀ user ∈ w.users.table.rows, user ∈ w'.users.table.rows
  now : w.now ≤ w'.now

abbrev ServedRequest := Served World Query Answer

/-- The request is answered with this token. -/
def GivesToken (e : ServedRequest) (token : String) : Prop :=
  ∃ tokenType expiresIn, e.answer = .token token tokenType expiresIn

def Query.authorization? : Query → Option String
  | .me authorization | .bank _ authorization _ => authorization
  | .register _ _ | .login _ _ => none

/-- Whoever presents a token that verifies has it from an answer: nobody else can sign. -/
def Unforged (q : Query) (known : List ServedRequest) : Prop :=
  ∀ token, q.authorization? = some ("Bearer " ++ token) → ∀ options now payload,
    A.jose.jwtVerify token A.publicKey options now = some payload → ∃ e ∈ known, GivesToken e token

/-- The user's row is new, or the email or the id was taken. -/
def RegisterPromise (input : RegisterBody) (draw : Draw) (began : World) (answer : Answer)
    (w : World) : Prop :=
  (∃ user ∈ w.users.table.rows,
    user = ⟨draw.id, toLowerCase input.email,
      A.bcrypt.hash input.password BCRYPT_ROUNDS draw.salt, input.name, user.createdAt⟩ ∧
    answer = .created user.id user.email user.name user.createdAt ∧
    ∀ x ∈ began.users.table.rows, x.id ≠ draw.id ∧ toLowerCase x.email ≠ toLowerCase input.email) ∨
  answer = errorHandler (.app emailTaken) ∧ ∃ x ∈ w.users.table.rows,
    x.id = draw.id ∨ toLowerCase x.email = toLowerCase input.email

/-- The credentials are a user's. -/
structure Credentials (body : LoginBody) (user : UserRow) : Prop where
  email : toLowerCase user.email = toLowerCase body.email
  password : A.bcrypt.compare body.password user.passwordHash = true

/-- The token of a user, signed between two times. -/
def SignedFor (user : UserRow) (began : World) (token : String) (w : World) : Prop :=
  ∃ issuedAt expiresFrom nonce, began.now ≤ issuedAt ∧ issuedAt ≤ expiresFrom ∧
    expiresFrom ≤ w.now ∧ token = A.jose.sign ⟨JWT_ALG, A.keys.kid⟩
      (claims A.tokenConfig user.tokenUser issuedAt expiresFrom) A.keys.privateKey nonce

/-- The credentials are a user's, who gets a token, or nobody had them at the beginning. -/
def LoginPromise (body : LoginBody) (began : World) (answer : Answer) (w : World) : Prop :=
  (∃ user ∈ w.users.table.rows, Credentials A body user ∧ ∃ token, SignedFor A user began token w ∧
    answer = .token token "Bearer" A.tokenConfig.ttlSeconds) ∨
  answer = errorHandler (.app invalidCredentials) ∧
    ∀ x ∈ began.users.table.rows, ¬ Credentials A body x

/-- What verifying the token has come to at some time between the two. -/
def Checked (options : VerifyOptions) (token : String) (began : World) (payload : Option Payload)
    (w : World) : Prop :=
  ∃ now, began.now ≤ now ∧ now ≤ w.now ∧
    A.jose.jwtVerify token A.publicKey options (epoch now) = payload

/-- The token verifies and its user is there, or there is no such token or user. -/
def MePromise (authorization : Option String) (began : World) (answer : Answer) (w : World) :
    Prop :=
  (∃ err, authHeaders authorization = .error err ∧ answer = errorHandler err) ∨
  ∃ token, authHeaders authorization = .ok token ∧
    (Checked A A.tokenConfig.verifyOptions token began none w ∧
        answer = errorHandler (.app invalidToken) ∨
      ∃ payload, Checked A A.tokenConfig.verifyOptions token began (some payload) w ∧
        ((∃ user ∈ w.users.table.rows, user.id.text = payload.sub ∧
            answer = .me user.id user.email user.name) ∨
          answer = errorHandler (.app userGone) ∧
            ∀ x ∈ began.users.table.rows, x.id.text ≠ payload.sub))

/-- The path is public, or the token verifies, or the request is refused. -/
def BankPromise (path : String) (authorization : Option String) (jwks : Bool) (began : World)
    (answer : Answer) (w : World) : Prop :=
  if isPublic PUBLIC_PATH_PREFIXES path then answer = .next none
  else
    match authorization.bind bearer? with
    | none => answer = errorHandler (.app missingToken)
    | some token =>
      (∃ payload, Checked A A.verifier.verifyOptions token began (some payload) w ∧
        answer = .next (some payload.tokenUser)) ∨
      (jwks = true → Checked A A.verifier.verifyOptions token began none w) ∧
        answer = errorHandler (.app invalidToken)

def Promised : Query → World → Answer → World → Prop
  | .register input draw => RegisterPromise A input draw
  | .login body _ => LoginPromise A body
  | .me authorization => MePromise A authorization
  | .bank path authorization jwks => BankPromise A path authorization jwks

variable {A}

namespace Grows

theorem refl (w : World) : Grows w w := ⟨fun _ => id, Nat.le_refl _⟩

theorem trans {w w' w'' : World} (h : Grows w w') (h' : Grows w' w'') : Grows w w'' :=
  ⟨fun user huser => h'.users user (h.users user huser), Nat.le_trans h.now h'.now⟩

end Grows

theorem SignedFor.grows {user : UserRow} {began w w' : World} {token : String}
    (h : SignedFor A user began token w) (hw : Grows w w') : SignedFor A user began token w' := by
  obtain ⟨issuedAt, expiresFrom, nonce, hbegan, hle, hended, htoken⟩ := h
  exact ⟨issuedAt, expiresFrom, nonce, hbegan, hle, hended.trans hw.now, htoken⟩

theorem Checked.grows {options : VerifyOptions} {token : String} {began w w' : World}
    {payload : Option Payload} (h : Checked A options token began payload w) (hw : Grows w w') :
    Checked A options token began payload w' := by
  obtain ⟨now, hbegan, hended, hverify⟩ := h
  exact ⟨now, hbegan, hended.trans hw.now, hverify⟩

theorem Promised.grows {q : Query} {began w w' : World} {answer : Answer}
    (h : Promised A q began answer w) (hw : Grows w w') : Promised A q began answer w' := by
  cases q with
  | register input draw =>
    rcases h with ⟨user, huser, hrow, hanswer, hnew⟩ | ⟨hanswer, x, hx, htaken⟩
    · exact .inl ⟨user, hw.users _ huser, hrow, hanswer, hnew⟩
    · exact .inr ⟨hanswer, x, hw.users _ hx, htaken⟩
  | login body nonce =>
    rcases h with ⟨user, huser, hcredentials, token, hsigned, hanswer⟩ | hrefused
    · exact .inl ⟨user, hw.users _ huser, hcredentials, token, hsigned.grows hw, hanswer⟩
    · exact .inr hrefused
  | me authorization =>
    rcases h with hmalformed | ⟨token, htoken, hchecked⟩
    · exact .inl hmalformed
    · refine .inr ⟨token, htoken, ?_⟩
      rcases hchecked with ⟨hchecked, hanswer⟩ | ⟨payload, hchecked, hfound⟩
      · exact .inl ⟨hchecked.grows hw, hanswer⟩
      · refine .inr ⟨payload, hchecked.grows hw, hfound.imp_left ?_⟩
        exact fun ⟨user, huser, hrest⟩ => ⟨user, hw.users _ huser, hrest⟩
  | bank path authorization jwks =>
    simp only [Promised, BankPromise] at h ⊢
    split
    · next hpublic => simpa [hpublic] using h
    · next hpublic =>
      simp only [hpublic] at h
      cases hbearer : authorization.bind bearer? with
      | none => simpa [hbearer] using h
      | some token =>
        simp only [hbearer] at h
        rcases h with ⟨payload, hchecked, hanswer⟩ | ⟨hchecked, hanswer⟩
        · exact .inl ⟨payload, hchecked.grows hw, hanswer⟩
        · exact .inr ⟨fun hjwks => (hchecked hjwks).grows hw, hanswer⟩

/-! ## Inserts and headers -/

theorem insertUser?_eq_some {w w' : World} {row : UserRow} (h : w.insertUser? row = some w') :
    Grows w w' ∧ row ∈ w'.users.table.rows ∧
      ∀ x ∈ w.users.table.rows, x.id ≠ row.id ∧ toLowerCase x.email ≠ toLowerCase row.email := by
  obtain ⟨users, husers, rfl⟩ := Option.map_eq_some_iff.mp h
  unfold Users.insert? at husers
  split at husers
  · next hnew =>
    split at husers
    · next table htable =>
      cases husers
      have hmem := fun x => Table.mem_insert? (x := x) htable
      refine ⟨⟨fun x hx => (hmem x).mpr (.inl hx), Nat.le_refl _⟩, (hmem row).mpr (.inr rfl),
        fun x hx => ⟨?_, hnew x hx⟩⟩
      exact Table.find?_eq_none.mp (Table.insert?_eq_some htable).1 x hx
    · cases husers
  · cases husers

theorem insertUser?_eq_none {w : World} {row : UserRow} (h : w.insertUser? row = none) :
    ∃ x ∈ w.users.table.rows, x.id = row.id ∨ toLowerCase x.email = toLowerCase row.email := by
  have husers : w.users.insert? row = none := Option.map_eq_none_iff.mp h
  unfold Users.insert? at husers
  split at husers
  · split at husers
    · cases husers
    · next htable =>
      obtain ⟨x, hx, hid⟩ := Table.exists_of_insert?_eq_none htable
      exact ⟨x, hx, .inl hid⟩
  · next hold =>
    simp only [not_forall, not_not] at hold
    obtain ⟨x, hx, hemail⟩ := hold
    exact ⟨x, hx, .inr hemail⟩

theorem toLowerCase_toLowerCase (s : String) : toLowerCase (toLowerCase s) = toLowerCase s := by
  have hchar (c : Char) : c.toLower.toLower = c.toLower := by
    delta Char.toLower
    split
    · next h =>
      rw [dif_neg]
      rintro ⟨_, h'⟩
      have hupper := UInt32.le_iff_toNat_le.mp h.1
      have hshifted := UInt32.le_iff_toNat_le.mp h'
      have hA : 'A'.val.toNat = 65 := by decide
      have hZ : 'Z'.val.toNat = 90 := by decide
      have hgap : ('a'.val - 'A'.val).toNat = 32 := by decide
      have hbound := UInt32.le_iff_toNat_le.mp h.2
      simp only [UInt32.toNat_add] at hshifted
      omega
    · rfl
  simp [toLowerCase, Function.comp_def, hchar]

theorem bearer?_eq_some {header token : String} :
    bearer? header = some token ↔ header = "Bearer " ++ token := by
  rw [bearer?, Option.map_eq_some_iff]
  constructor
  · rintro ⟨cs, hdrop, rfl⟩
    obtain ⟨front, hheader, hfront⟩ := List.dropPrefix?_eq_some_iff.mp hdrop
    rw [← String.toList_inj, hheader, eq_of_beq hfront, String.toList_append,
      @String.toList_ofList cs]
  · rintro rfl
    refine ⟨token.toList, List.dropPrefix?_eq_some_iff.mpr ⟨_, ?_, beq_self_eq_true _⟩, ?_⟩
    · rw [String.toList_append]
    · exact String.ofList_toList

/-! ## Handlers -/

/-- A program among others that keep what is kept. -/
abbrev Keeps {α : Type} (post : α → World → Prop) (p : Handler α) (w : World) : Prop :=
  Session.Guards Grows Grows post p w

/-- The row is there, or the index has refused it. -/
theorem keeps_insertUser (row : Bank.Date → UserRow) (began : World) :
    Keeps (Session.Ends
      (fun user w => (∃ now, user = row now) ∧ user ∈ w.users.table.rows ∧
        ∀ x ∈ began.users.table.rows, x.id ≠ user.id ∧ toLowerCase x.email ≠ toLowerCase user.email)
      (fun err w => isUniqueViolation err = true ∧ ∃ now, ∃ x ∈ w.users.table.rows,
        x.id = (row now).id ∨ toLowerCase x.email = toLowerCase (row now).email))
      (insertUser row).attempt began := by
  refine Session.guards_attempt_returning (fun w hw user w' hwrite => ?_) fun w hw err hwrite => ?_
  · split at hwrite
    · next hinsert =>
      cases hwrite
      obtain ⟨hgrows, hmem, hnew⟩ := insertUser?_eq_some hinsert
      exact ⟨hgrows, ⟨w.now, rfl⟩, hmem, fun x hx => hnew x (hw.users x hx)⟩
    · cases hwrite
  · split at hwrite
    · cases hwrite
    · next hinsert =>
      cases hwrite
      exact ⟨.refl _, by decide, w.now, insertUser?_eq_none hinsert⟩

/-- The error of the index becomes the error of the service. -/
theorem keeps_register (input : RegisterBody) (draw : Draw) (began : World) :
    Keeps (Session.Ends
      (fun user w => RegisterPromise A input draw began
        (.created user.id user.email user.name user.createdAt) w)
      (fun err w => RegisterPromise A input draw began (errorHandler err) w))
      (AuthService.register A.bcrypt input draw).attempt began := by
  unfold AuthService.register
  refine (keeps_insertUser _ began).attempt_try fun r w hr => ?_
  cases r with
  | ok user =>
    obtain ⟨⟨now, rfl⟩, hmem, hnew⟩ := hr
    refine .inl ⟨_, hmem, rfl, rfl, fun x hx => ?_⟩
    simpa only [toLowerCase_toLowerCase] using hnew x hx
  | error err =>
    obtain ⟨hviolation, now, x, hx, htaken⟩ := hr
    simp only [hviolation, if_true]
    refine .inr ⟨rfl, x, hx, ?_⟩
    simpa only [toLowerCase_toLowerCase] using htaken

/-- The user's row has been read, or nobody had the credentials. -/
theorem keeps_verifyCredentials (body : LoginBody) (began : World) :
    Keeps (Session.Ends
      (fun user w => user ∈ w.users.table.rows ∧ Credentials A body user ∧ Grows began w)
      (fun err _ => err = .app invalidCredentials ∧
        ∀ x ∈ began.users.table.rows, ¬ Credentials A body x))
      (AuthService.verifyCredentials A.bcrypt A.dummySalt body.email body.password).attempt
      began := by
  unfold AuthService.verifyCredentials
  refine Session.guards_attempt_query fun w hw => ⟨.refl _, ?_⟩
  cases hfind : w.users.table.rows.find? fun row =>
      toLowerCase row.email = toLowerCase body.email with
  | none =>
    refine ⟨rfl, fun x hx hcredentials => ?_⟩
    have hunknown := List.find?_eq_none.mp hfind x (hw.users x hx)
    exact hunknown (decide_eq_true hcredentials.email)
  | some user =>
    have huser := List.mem_of_find?_eq_some hfind
    have hemail : toLowerCase user.email = toLowerCase body.email := by
      simpa using List.find?_some hfind
    simp only [Option.map_some, Option.getD_some]
    split
    · next hpassword => exact ⟨huser, ⟨hemail, hpassword⟩, hw⟩
    · next hpassword =>
      refine ⟨rfl, fun x hx hcredentials => hpassword ?_⟩
      -- the email is this user's alone
      obtain rfl : x = user := w.users.users_email_uq x (hw.users x hx) user huser (by simp)
        (congrArg some (hcredentials.email.trans hemail.symm))
      exact hcredentials.password

theorem keeps_signToken {user : UserRow} (nonce : String) {began w : World}
    (huser : user ∈ w.users.table.rows) (hw : Grows began w) :
    Keeps (Session.Ends
      (fun token w' => user ∈ w'.users.table.rows ∧ SignedFor A user began token w')
      fun _ _ => False)
      (signToken A.jose A.keys A.tokenConfig user.tokenUser nonce).attempt w := by
  unfold signToken
  refine Session.guards_attempt_get fun w' hw' => ⟨.refl _, ?_⟩
  refine Session.guards_attempt_get fun w'' hw'' => ⟨.refl _, ?_⟩
  refine ⟨(hw'.trans hw'').users user huser, w'.now, w''.now, nonce, ?_, hw''.now, ?_, rfl⟩
  · exact (hw.trans hw').now
  · exact Nat.le_refl _

theorem keeps_verifyWith (key : Option PublicKey) (hkey : ∀ k, key = some k → k = A.publicKey)
    (options : VerifyOptions) (token : String) (began : World) :
    Keeps (Session.Ends
      (fun user w => Grows began w ∧
        ∃ payload, Checked A options token began (some payload) w ∧ user = payload.tokenUser)
      (fun err w => err = .app invalidToken ∧
        (key.isSome → Checked A options token began none w)))
      (verifyWith A.jose key options token).attempt began := by
  unfold verifyWith
  refine Session.guards_attempt_get fun w hw => ⟨.refl _, ?_⟩
  cases hverify : key.bind fun key => A.jose.jwtVerify token key options (epoch w.now) with
  | none =>
    refine ⟨rfl, fun hsome => ⟨w.now, hw.now, Nat.le_refl _, ?_⟩⟩
    obtain ⟨k, rfl⟩ := Option.isSome_iff_exists.mp hsome
    rw [← hkey k rfl]
    exact hverify
  | some payload =>
    obtain ⟨k, rfl, hpayload⟩ := Option.bind_eq_some_iff.mp hverify
    rw [hkey k rfl] at hpayload
    exact ⟨hw, payload, ⟨w.now, hw.now, Nat.le_refl _, hpayload⟩, rfl⟩

theorem keeps_getById (userId : String) {began w : World} (hw : Grows began w) :
    Keeps (Session.Ends
      (fun user w' => Grows w w' ∧ user ∈ w'.users.table.rows ∧ user.id.text = userId)
      (fun err w' => Grows w w' ∧ err = .app userGone ∧
        ∀ x ∈ began.users.table.rows, x.id.text ≠ userId))
      (AuthService.getById userId).attempt w := by
  unfold AuthService.getById
  refine Session.guards_attempt_query fun w' hw' => ⟨.refl _, ?_⟩
  cases hfind : w'.users.table.rows.find? fun row => row.id.text = userId with
  | none =>
    refine ⟨hw', rfl, fun x hx => ?_⟩
    simpa using List.find?_eq_none.mp hfind x ((hw.trans hw').users x hx)
  | some user =>
    exact ⟨hw', List.mem_of_find?_eq_some hfind, by simpa using List.find?_some hfind⟩

/-! ## Requests -/

theorem keeps_me (authorization : Option String) (began : World) :
    Keeps (Session.Ends (MePromise A authorization began)
      fun err w => MePromise A authorization began (errorHandler err) w)
      (handle A (.me authorization)).attempt began := by
  simp only [handle]
  cases hheader : authHeaders authorization with
  | error err => exact Or.inl ⟨err, hheader, rfl⟩
  | ok token =>
    refine (keeps_verifyWith (some A.publicKey) (fun _ h => (Option.some.inj h).symm) _ token
      began).attempt_bind ?_ ?_
    · rintro user w ⟨hw, payload, hchecked, rfl⟩
      refine (keeps_getById payload.sub hw).attempt_bind ?_ ?_
      · rintro user w' ⟨hw', huser, hid⟩
        exact .inr ⟨token, hheader,
          .inr ⟨payload, hchecked.grows hw', .inl ⟨user, huser, hid, rfl⟩⟩⟩
      · rintro err w' ⟨hw', rfl, hgone⟩
        exact .inr ⟨token, hheader, .inr ⟨payload, hchecked.grows hw', .inr ⟨rfl, hgone⟩⟩⟩
    · rintro err w ⟨rfl, hchecked⟩
      exact .inr ⟨token, hheader, .inl ⟨hchecked rfl, rfl⟩⟩

theorem keeps_requireAuth (path : String) (authorization : Option String) (jwks : Bool)
    (began : World) :
    Keeps (Session.Ends (fun user w => BankPromise A path authorization jwks began (.next user) w)
      fun err w => BankPromise A path authorization jwks began (errorHandler err) w)
      (requireAuth (createRemoteJwksVerifier A.jose A.verifier
        (if jwks then some A.publicKey else none)) PUBLIC_PATH_PREFIXES path authorization).attempt
      began := by
  unfold requireAuth BankPromise
  split
  · exact (rfl : Answer.next none = .next none)
  · cases hbearer : authorization.bind bearer? with
    | none => exact (rfl : errorHandler (.app missingToken) = _)
    | some token =>
      have hkey : ∀ k, (if jwks then some A.publicKey else none) = some k → k = A.publicKey := by
        intro k hk
        split at hk
        · exact (Option.some.inj hk).symm
        · cases hk
      refine (keeps_verifyWith _ hkey A.verifier.verifyOptions token began).attempt_bind ?_ ?_
      · rintro user w ⟨-, payload, hchecked, rfl⟩
        exact Or.inl ⟨payload, hchecked, rfl⟩
      · rintro err w ⟨rfl, hchecked⟩
        exact Or.inr ⟨fun hjwks => hchecked (by rw [if_pos hjwks]; rfl), rfl⟩

theorem keeps_handle (q : Query) (began : World) :
    Keeps (Session.Ends (Promised A q began) fun err w => Promised A q began (errorHandler err) w)
      (handle A q).attempt began := by
  cases q with
  | register input draw =>
    exact (keeps_register input draw began).attempt_bind (fun _ _ h => h) fun _ _ h => h
  | login body nonce =>
    refine (keeps_verifyCredentials body began).attempt_bind ?_ ?_
    · rintro user w ⟨huser, hcredentials, hw⟩
      refine (keeps_signToken nonce huser hw).attempt_bind ?_ fun _ _ h => h.elim
      rintro token w' ⟨huser', hsigned⟩
      exact .inl ⟨user, huser', hcredentials, token, hsigned, rfl⟩
    · rintro err w ⟨rfl, hnobody⟩
      exact .inr ⟨rfl, hnobody⟩
  | me authorization => exact keeps_me authorization began
  | bank path authorization jwks =>
    exact (keeps_requireAuth path authorization jwks began).attempt_bind (fun _ _ h => h)
      fun _ _ h => h

theorem keeps_program (q : Query) (began : World) :
    Keeps (Promised A q began) (program A q) began :=
  (keeps_handle q began).bind fun r w hr => by
    cases r with
    | ok answer => exact hr
    | error err => exact hr

variable (A) in
/-- Users stay, time passes, and nobody but the auth API can sign. -/
def access : Contract (program A) where
  keeps := Grows
  keeps_refl := .refl
  keeps_trans _ _ _ := .trans
  accepts := Unforged A
  promise q _ began answer w := Promised A q began answer w
  promise_keeps _ _ _ _ _ _ := Promised.grows
  guards q _ s _ _ := keeps_program q s.store

end BankPlatform.Auth
