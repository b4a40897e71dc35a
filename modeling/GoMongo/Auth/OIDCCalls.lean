import GoMongo.Auth.OIDCAuthenticator

/-!
# `Auth`, `Reauth` and the speculative handshake as programs of locked sections

A call is a `Prog`: a chain of atomic steps, each a locked section of `oidc.go` or one round
trip to the server, whose continuation receives what the step returned. `auth`, `reauth` and
`speculativeHandshake` are the bodies of `Auth`, `Reauth` and the handshake's use of
`CreateSpeculativeConversation`, split at their lock boundaries; reading the immutable
configuration needs no lock and is done while the program is built. `Prog.step` runs one
step against the shared state, `Prog.runAlone` runs a call to its end with no other call in
between, and `Prog.runAlone_step` says the two agree.
-/

namespace GoMongo.Auth

abbrev ConnId := Nat

structure Config where
  connection : ConnId

inductive Outcome
  | authenticated
  | skipped
  | failed (err : Error)
  deriving DecidableEq, Repr

inductive Prog
  | done (outcome : Outcome)
  | snapshot (k : String → Prog)
  | speculate (k : Option String → Prog)
  | invalidate (conn : ConnId) (k : Prog)
  | getAccessToken (conn : ConnId) (cb : OIDCCallback) (k : Except Error String → Prog)
  | converse (conn : ConnId) (token : String) (k : Option Error → Prog)

def conversationDone : Option Error → Prog
  | none => .done .authenticated
  | some err => .done (.failed err)

def doAuthMachine (cfg : Config) (machineCallback : OIDCCallback) : Prog :=
  .getAccessToken cfg.connection machineCallback fun
    | .error err => .done (.failed err)
    | .ok accessToken => .converse cfg.connection accessToken conversationDone

def doAuthHuman : Error :=
  .authErrorOf ⟨"OIDC", []⟩ (.errorf ⟨"human flow not implemented yet, %v", ["<nil>"]⟩)

/-- The part of `Auth` after the cached-token attempt: the human flow, else the user's machine
callback, else the one `providerCallback` resolves. -/
def dispatch (oa : OIDCAuthenticator) (cfg : Config) : Prog :=
  match oa.oidcHumanCallback, oa.oidcMachineCallback with
  | some _, _ => .done (.failed doAuthHuman)
  | none, some cb => doAuthMachine cfg cb
  | none, none =>
    match providerCallback oa with
    | (_, some err) => .done (.failed (.wrapf "error getting built-in OIDC provider: %w" err))
    | (some cb, none) => doAuthMachine cfg cb
    | (none, none) => .done (.failed (.authError ⟨"no OIDC callback provided", []⟩))

def cachedConversationDone (oa : OIDCAuthenticator) (cfg : Config) : Option Error → Prog
  | none => .done .authenticated
  | some _ => .invalidate cfg.connection (dispatch oa cfg)

def auth (oa : OIDCAuthenticator) : Option Config → Prog
  | none => .done (.failed (.authError ⟨"config must be set for %q authentication", [MongoDBOIDC]⟩))
  | some cfg => .snapshot fun cachedAccessToken =>
    if cachedAccessToken ≠ "" then
      .converse cfg.connection cachedAccessToken (cachedConversationDone oa cfg)
    else dispatch oa cfg

def reauth (oa : OIDCAuthenticator) (cfg : Config) : Prog :=
  .invalidate cfg.connection (auth oa (some cfg))

def speculativeHandshake (conn : ConnId) : Prog :=
  .speculate fun
    | none => .done .skipped
    | some accessToken => .converse conn accessToken conversationDone

structure Shared where
  oa : OIDCAuthenticator
  genID : ConnId → UInt64

/-- What a step shows: a conversation with the token it carried and the reply, a callback
invocation with its answer, and an invalidation with the token it cleared (`none` when the
fence kept it). -/
inductive Label
  | present (conn : ConnId) (token : String) (reply : Option Error)
  | invoke (conn : ConnId) (cb : OIDCCallback) (answer : Except Error OIDCCredential)
  | invalidate (conn : ConnId) (cleared : Option String)

/-- The answers one call meets, in order: the reply to its `n`-th conversation and the
callback's `n`-th answer. -/
structure Server where
  reply : Nat → Option Error
  answer : Nat → Except Error OIDCCredential

def Server.nextReply (srv : Server) : Server := { srv with reply := fun n => srv.reply (n + 1) }
def Server.nextAnswer (srv : Server) : Server := { srv with answer := fun n => srv.answer (n + 1) }

namespace Shared

variable (s : Shared) (conn : ConnId)

def invalidate : Shared :=
  let (oa, g) := invalidateAccessToken s.oa (s.genID conn)
  ⟨oa, Function.update s.genID conn g⟩

def cleared : Option String :=
  if mayInvalidate s.oa (s.genID conn) then some s.oa.accessToken else none

def getAccessToken (answer : Except Error OIDCCredential) : Except Error String × Shared :=
  let (r, oa, g) := GoMongo.Auth.getAccessToken s.oa (s.genID conn) answer
  (r, ⟨oa, Function.update s.genID conn g⟩)

def acquire (cred : OIDCCredential) : Shared :=
  ⟨s.oa.store cred, Function.update s.genID conn (s.oa.tokenGenID + 1)⟩

theorem getAccessToken_cached (answer : Except Error OIDCCredential) (h : s.oa.accessToken ≠ "") :
    s.getAccessToken conn answer = (.ok s.oa.accessToken, s) := by
  simp [getAccessToken, GoMongo.Auth.getAccessToken_cached _ _ _ h]

theorem getAccessToken_error (err : Error) (h : s.oa.accessToken = "") :
    s.getAccessToken conn (.error err) = (.error err, s) := by
  simp [getAccessToken, GoMongo.Auth.getAccessToken_error _ _ _ h]

theorem getAccessToken_ok (cred : OIDCCredential) (h : s.oa.accessToken = "") :
    s.getAccessToken conn (.ok cred) = (.ok cred.accessToken, s.acquire conn cred) := by
  simp [getAccessToken, GoMongo.Auth.getAccessToken_ok _ _ _ h, acquire]

end Shared

def Prog.step (s : Shared) (srv : Server) : Prog → Option (Prog × Shared × Server × List Label)
  | .done _ => none
  | .snapshot k => some (k s.oa.accessToken, s, srv, [])
  | .speculate k => some (k (createSpeculativeConversation s.oa), s, srv, [])
  | .invalidate conn k => some (k, s.invalidate conn, srv, [.invalidate conn (s.cleared conn)])
  | .getAccessToken conn cb k =>
    let r := s.getAccessToken conn (srv.answer 0)
    if s.oa.accessToken = "" then some (k r.1, r.2, srv.nextAnswer, [.invoke conn cb (srv.answer 0)])
    else some (k r.1, r.2, srv, [])
  | .converse conn token k =>
    some (k (srv.reply 0), s, srv.nextReply, [.present conn token (srv.reply 0)])

/-- A call run to its end with no other call in between: its outcome, the shared state it
leaves, and its labels. -/
def Prog.runAlone (s : Shared) (srv : Server) : Prog → Outcome × Shared × List Label
  | .done o => (o, s, [])
  | .snapshot k => (k s.oa.accessToken).runAlone s srv
  | .speculate k => (k (createSpeculativeConversation s.oa)).runAlone s srv
  | .invalidate conn k =>
    let r := k.runAlone (s.invalidate conn) srv
    (r.1, r.2.1, .invalidate conn (s.cleared conn) :: r.2.2)
  | .getAccessToken conn cb k =>
    let t := s.getAccessToken conn (srv.answer 0)
    if s.oa.accessToken = "" then
      let r := (k t.1).runAlone t.2 srv.nextAnswer
      (r.1, r.2.1, .invoke conn cb (srv.answer 0) :: r.2.2)
    else (k t.1).runAlone t.2 srv
  | .converse conn token k =>
    let r := (k (srv.reply 0)).runAlone s srv.nextReply
    (r.1, r.2.1, .present conn token (srv.reply 0) :: r.2.2)

theorem Prog.runAlone_step {p p' : Prog} {s s' : Shared} {srv srv' : Server} {ls : List Label}
    (h : p.step s srv = some (p', s', srv', ls)) :
    p.runAlone s srv = ((p'.runAlone s' srv').1, (p'.runAlone s' srv').2.1,
      ls ++ (p'.runAlone s' srv').2.2) := by
  cases p with
  | done o => cases h
  | snapshot k | speculate k => cases h; rfl
  | invalidate conn k => cases h; rfl
  | getAccessToken conn cb k =>
    by_cases he : s.oa.accessToken = ""
    · simp only [step, he, if_true] at h
      cases h
      simp only [runAlone, he, if_true]; rfl
    · simp only [step, he, if_false] at h
      cases h
      simp only [runAlone, he, if_false, List.nil_append]
  | converse conn token k => cases h; rfl

theorem Prog.step_eq_none {p : Prog} {s : Shared} {srv : Server} :
    p.step s srv = none ↔ ∃ o, p = .done o := by
  cases p <;> simp [step]; split <;> simp

def Label.isPresent : Label → Bool
  | .present .. => true
  | _ => false

def Label.isInvoke : Label → Bool
  | .invoke .. => true
  | _ => false

def acquired : List Label → Option OIDCCredential
  | [] => none
  | .invoke _ _ (.ok cred) :: _ => some cred
  | _ :: ls => acquired ls

def Shared.after (s : Shared) (conn : ConnId) : Option OIDCCredential → Shared
  | some cred => s.acquire conn cred
  | none => s

section RunAlone

variable (s : Shared) (srv : Server)

@[simp] theorem conversationDone_runAlone (e : Option Error) :
    ((conversationDone e).runAlone s srv).2 = (s, []) := by
  cases e <;> rfl

theorem doAuthMachine_runAlone (cfg : Config) (cb : OIDCCallback) :
    let r := (doAuthMachine cfg cb).runAlone s srv
    r.2.2.countP Label.isPresent ≤ 1 ∧ r.2.2.countP Label.isInvoke ≤ 1 ∧
      r.2.1 = s.after cfg.connection (acquired r.2.2) := by
  by_cases he : s.oa.accessToken = ""
  · cases ha : srv.answer 0 with
    | error err =>
      simp [doAuthMachine, Prog.runAlone, he, ha, Shared.getAccessToken_error _ _ _ he,
        Label.isPresent, Label.isInvoke, acquired, Shared.after]
    | ok cred =>
      simp [doAuthMachine, Prog.runAlone, he, ha, Shared.getAccessToken_ok _ _ _ he,
        Label.isPresent, Label.isInvoke, acquired, Shared.after]
  · simp [doAuthMachine, Prog.runAlone, he, Shared.getAccessToken_cached _ _ _ he,
      Label.isPresent, Label.isInvoke, acquired, Shared.after]

theorem dispatch_runAlone (oa : OIDCAuthenticator) (cfg : Config) :
    let r := (dispatch oa cfg).runAlone s srv
    r.2.2.countP Label.isPresent ≤ 1 ∧ r.2.2.countP Label.isInvoke ≤ 1 ∧
      r.2.1 = s.after cfg.connection (acquired r.2.2) := by
  unfold dispatch
  split
  · simp [Prog.runAlone, acquired, Shared.after]
  · exact doAuthMachine_runAlone s srv cfg _
  · split
    · simp [Prog.runAlone, acquired, Shared.after]
    · exact doAuthMachine_runAlone s srv cfg _
    · simp [Prog.runAlone, acquired, Shared.after]

theorem auth_runAlone_cases (c : ConnId) :
    let r := (auth s.oa (some ⟨c⟩)).runAlone s srv
    (r.2.2.countP Label.isPresent ≤ 2 ∧ r.2.2.countP Label.isInvoke ≤ 1) ∧
    (s.oa.accessToken ≠ "" → srv.reply 0 = none → r.2.2.countP Label.isInvoke = 0 ∧ r.2.1 = s) ∧
    (¬ (s.oa.accessToken ≠ "" ∧ srv.reply 0 = none) →
      r.2.1 = (if s.oa.accessToken ≠ "" then s.invalidate c else s).after c (acquired r.2.2)) := by
  by_cases he : s.oa.accessToken = ""
  · obtain ⟨h1, h2, h3⟩ := dispatch_runAlone s srv s.oa ⟨c⟩
    simp only [auth, Prog.runAlone, he, ne_eq, not_true_eq_false, if_false]
    exact ⟨⟨by omega, h2⟩, fun h => h.elim, fun _ => h3⟩
  · cases hr : srv.reply 0 with
    | none => simp [auth, Prog.runAlone, he, hr, cachedConversationDone, Label.isPresent,
        Label.isInvoke]
    | some err =>
      obtain ⟨h1, h2, h3⟩ := dispatch_runAlone (s.invalidate c) srv.nextReply s.oa ⟨c⟩
      simp only [auth, Prog.runAlone, he, hr, ne_eq, not_false_eq_true, if_true,
        cachedConversationDone]
      simp [Label.isPresent, Label.isInvoke, acquired]
      exact ⟨⟨h1, h2⟩, h3⟩

end RunAlone

end GoMongo.Auth
