import GoMongo.Go

/-!
# The MONGODB-OIDC authenticator and its locked sections

`OIDCAuthenticator` is the configuration a credential fixes and the cache its mutex guards:
the access token (`""` for none), the refresh token and `tokenGenID`. A connection's
`OIDCTokenGenID` is passed in and returned as a `UInt64`. Each of `getAccessToken`,
`invalidateAccessToken` and `createSpeculativeConversation` is one locked section of
`oidc.go`; the callback's answer is an argument of `getAccessToken`, which uses it only when
no token is cached. Errors keep their format strings and operands, unformatted.
-/

namespace GoMongo.Auth

def MongoDBOIDC : String := "MONGODB-OIDC"
def environmentProp : String := "ENVIRONMENT"
def resourceProp : String := "TOKEN_RESOURCE"
def azureEnvironmentValue : String := "azure"
def gcpEnvironmentValue : String := "gcp"
def testEnvironmentValue : String := "test"

structure OIDCCredential where
  accessToken : String
  expiresAt : Option Int
  refreshToken : Option String
  deriving DecidableEq, Repr

/-- Which function a value of `OIDCCallback` is: one the caller supplied, the closure
`getAzureOIDCCallback` builds (with its captured client id and resource), or the GCP stub. -/
inductive OIDCCallback
  | user (id : Nat)
  | azure (clientID resource : String)
  | gcp
  deriving DecidableEq, Repr

/-- The fields of `Cred` the OIDC constructor reads. The property map is a function; Go's
nil map and empty map both look up nothing. -/
structure Cred where
  username : String
  password : String
  props : String → Option String
  oidcMachineCallback : Option OIDCCallback
  oidcHumanCallback : Option OIDCCallback

structure OIDCAuthenticator where
  authMechanismProperties : String → Option String
  oidcMachineCallback : Option OIDCCallback
  oidcHumanCallback : Option OIDCCallback
  userName : String
  accessToken : String
  refreshToken : Option String
  tokenGenID : UInt64

def stringsToLower (s : String) : String := ⟨s.data.map Char.toLower⟩

def needsResource (tag : String) : Prop :=
  tag = azureEnvironmentValue ∨ tag = gcpEnvironmentValue

def forbidsCallbacks (tag : String) : Prop :=
  needsResource tag ∨ tag = testEnvironmentValue

instance (tag : String) : Decidable (needsResource tag) := by unfold needsResource; infer_instance
instance (tag : String) : Decidable (forbidsCallbacks tag) := by
  unfold forbidsCallbacks; infer_instance

def newOIDCAuthenticator (cred : Cred) : Except Error OIDCAuthenticator := do
  if cred.password ≠ "" then
    throw (.errorf ⟨"password cannot be specified for %q", [MongoDBOIDC]⟩)
  if let some env := cred.props environmentProp then
    if needsResource (stringsToLower env) ∧ cred.props resourceProp = none then
      throw (.errorf ⟨"%q must be specified for %q %q", [resourceProp, env, environmentProp]⟩)
    if forbidsCallbacks (stringsToLower env) ∧
        (cred.oidcMachineCallback.isSome ∨ cred.oidcHumanCallback.isSome) then
      throw (.errorf ⟨"OIDC callbacks are not allowed for %q %q", [env, environmentProp]⟩)
  pure { authMechanismProperties := cred.props, oidcMachineCallback := cred.oidcMachineCallback,
         oidcHumanCallback := cred.oidcHumanCallback, userName := cred.username,
         accessToken := "", refreshToken := none, tokenGenID := 0 }

def getAzureOIDCCallback (clientID resource : String) : OIDCCallback := .azure clientID resource

/-- `providerCallback`, with Go's two results: the callback and the error. It switches on
the tag as written, not lower-cased. -/
def providerCallback (oa : OIDCAuthenticator) : Option OIDCCallback × Option Error :=
  match oa.authMechanismProperties environmentProp with
  | none => (none, none)
  | some env =>
    if env = azureEnvironmentValue then
      match oa.authMechanismProperties resourceProp with
      | none => (none, some (.authError ⟨"%q must be specified for Azure OIDC", [resourceProp]⟩))
      | some resource => (some (getAzureOIDCCallback oa.userName resource), none)
    else if env = gcpEnvironmentValue then
      (some .gcp, some (.errorf ⟨"automatic token acquisition for %q not implemented yet", [env]⟩))
    else (none, some (.errorf ⟨"%q %q not supported for MONGODB-OIDC", [environmentProp, env]⟩))

def OIDCAuthenticator.store (oa : OIDCAuthenticator) (cred : OIDCCredential) :
    OIDCAuthenticator :=
  { oa with accessToken := cred.accessToken, tokenGenID := oa.tokenGenID + 1,
            refreshToken := cred.refreshToken.or oa.refreshToken }

/-- `getAccessToken` on a connection whose generation is `conn`: the cached token, or the
callback's `answer` stored with the next generation, which the connection also records. -/
def getAccessToken (oa : OIDCAuthenticator) (conn : UInt64)
    (answer : Except Error OIDCCredential) : Except Error String × OIDCAuthenticator × UInt64 :=
  if oa.accessToken ≠ "" then (.ok oa.accessToken, oa, conn) else
  match answer with
  | .error err => (.error err, oa, conn)
  | .ok cred => (.ok cred.accessToken, oa.store cred, oa.tokenGenID + 1)

/-- The generation fence of `invalidateAccessToken`: the connection's generation is unknown
(`0`) or not older than the authenticator's. -/
def mayInvalidate (oa : OIDCAuthenticator) (conn : UInt64) : Prop :=
  conn = 0 ∨ oa.tokenGenID ≤ conn

instance (oa : OIDCAuthenticator) (conn : UInt64) : Decidable (mayInvalidate oa conn) := by
  unfold mayInvalidate; infer_instance

def invalidateAccessToken (oa : OIDCAuthenticator) (conn : UInt64) :
    OIDCAuthenticator × UInt64 :=
  if mayInvalidate oa conn then ({ oa with accessToken := "" }, 0) else (oa, conn)

def createSpeculativeConversation (oa : OIDCAuthenticator) : Option String :=
  if oa.accessToken = "" then none else some oa.accessToken

theorem uint64_le_iff (a b : UInt64) : a ≤ b ↔ a.toNat ≤ b.toNat := Iff.rfl

theorem uint64_toNat_succ (g : UInt64) (h : g.toNat + 1 < UInt64.size) :
    (g + 1).toNat = g.toNat + 1 :=
  Nat.mod_eq_of_lt h

section LockedSections

variable (oa : OIDCAuthenticator) (conn : UInt64)

@[simp] theorem store_accessToken (cred : OIDCCredential) :
    (oa.store cred).accessToken = cred.accessToken := rfl

@[simp] theorem store_tokenGenID (cred : OIDCCredential) :
    (oa.store cred).tokenGenID = oa.tokenGenID + 1 := rfl

@[simp] theorem store_config (cred : OIDCCredential) :
    (oa.store cred).authMechanismProperties = oa.authMechanismProperties ∧
      (oa.store cred).oidcMachineCallback = oa.oidcMachineCallback ∧
      (oa.store cred).oidcHumanCallback = oa.oidcHumanCallback ∧
      (oa.store cred).userName = oa.userName := ⟨rfl, rfl, rfl, rfl⟩

theorem getAccessToken_cached (answer : Except Error OIDCCredential) (h : oa.accessToken ≠ "") :
    getAccessToken oa conn answer = (.ok oa.accessToken, oa, conn) := by
  simp [getAccessToken, h]

theorem getAccessToken_error (err : Error) (h : oa.accessToken = "") :
    getAccessToken oa conn (.error err) = (.error err, oa, conn) := by
  simp [getAccessToken, h]

theorem getAccessToken_ok (cred : OIDCCredential) (h : oa.accessToken = "") :
    getAccessToken oa conn (.ok cred) = (.ok cred.accessToken, oa.store cred, oa.tokenGenID + 1) := by
  simp [getAccessToken, h]

theorem invalidateAccessToken_fenced (h : ¬ mayInvalidate oa conn) :
    invalidateAccessToken oa conn = (oa, conn) := by
  simp [invalidateAccessToken, h]

theorem invalidateAccessToken_clears (h : mayInvalidate oa conn) :
    invalidateAccessToken oa conn = ({ oa with accessToken := "" }, 0) := by
  simp [invalidateAccessToken, h]

@[simp] theorem invalidateAccessToken_tokenGenID :
    (invalidateAccessToken oa conn).1.tokenGenID = oa.tokenGenID := by
  unfold invalidateAccessToken; split <;> rfl

end LockedSections

/-- Every spelling of the Azure tag passes the constructor's lower-cased checks, but only the
lower-case spelling reaches the Azure callback: any other fails in `providerCallback` as an
unsupported tag. -/
theorem providerCallback_of_azure_spelling (cred : Cred) (env resource : String)
    (hpw : cred.password = "") (henv : cred.props environmentProp = some env)
    (hres : cred.props resourceProp = some resource)
    (hcb : cred.oidcMachineCallback = none ∧ cred.oidcHumanCallback = none)
    (hlower : stringsToLower env = azureEnvironmentValue) :
    ∃ oa, newOIDCAuthenticator cred = .ok oa ∧
      providerCallback oa = if env = azureEnvironmentValue
        then (some (getAzureOIDCCallback cred.username resource), none)
        else (none, some (.errorf ⟨"%q %q not supported for MONGODB-OIDC", [environmentProp, env]⟩)) := by
  have hgcp : env ≠ gcpEnvironmentValue := by
    rintro rfl; exact absurd hlower (by decide)
  refine ⟨_, by simp [newOIDCAuthenticator, hpw, henv, hres, hcb, hlower, needsResource,
    forbidsCallbacks]; rfl, ?_⟩
  by_cases haz : env = azureEnvironmentValue <;> simp [providerCallback, henv, hres, haz, hgcp]

theorem providerCallback_rejects_Azure :
    let cred : String → Cred := fun env =>
      { username := "", password := "", oidcMachineCallback := none, oidcHumanCallback := none
        props := fun k => if k = environmentProp then some env
          else if k = resourceProp then some "r" else none }
    stringsToLower "Azure" = stringsToLower "azure" ∧
      (newOIDCAuthenticator (cred "Azure")).map providerCallback =
        .ok (none, some (.errorf ⟨"%q %q not supported for MONGODB-OIDC", [environmentProp, "Azure"]⟩)) ∧
      (newOIDCAuthenticator (cred "azure")).map providerCallback =
        .ok (some (getAzureOIDCCallback "" "r"), none) := by
  intro cred
  have hspelling (env : String) (hlower : stringsToLower env = azureEnvironmentValue) :=
    providerCallback_of_azure_spelling (cred env) env "r" rfl (by simp only [cred, if_true])
      (by simp only [cred, if_neg (show resourceProp ≠ environmentProp by decide), if_true])
      ⟨rfl, rfl⟩ hlower
  obtain ⟨oa, hnew, hcb⟩ := hspelling "Azure" (by decide)
  obtain ⟨oa', hnew', hcb'⟩ := hspelling "azure" (by decide)
  refine ⟨by decide, ?_, ?_⟩
  · rw [hnew, Except.map, hcb, if_neg (by decide)]
  · rw [hnew', Except.map, hcb', if_pos (by decide)]

end GoMongo.Auth
