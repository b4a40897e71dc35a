import GoMongo.Auth.AzureCallback
import GoMongo.Bson.Core

/-!
# The SASL clients: PLAIN and the MONGODB-OIDC one step

`newPlainAuthenticator` keeps the credential's user name and password, `Auth` hands a
`plainSaslClient` over them to the SASL conversation on `$external`, and `Start` sends the one
message `NUL user NUL password`; `Next` refuses any challenge and `Reauth` is refused. Neither
the constructor nor `Start` looks inside the two strings. The SASL conversation itself
(`ConductSaslConversation`) is not modelled: `Auth` is modelled by what it passes to it.

A PLAIN message is read as the claim's grammar reads it, `[authzid] NUL authcid NUL passwd`
with no NUL inside a field, by `parsePlain`.

Every MONGODB-OIDC conversation (`Auth`, `doAuthMachine` and the speculative handshake) runs
`oidcOneStep` over the token it presents, whose one message is the BSON document `{jwt: token}`.
-/

namespace GoMongo.Auth

def PLAIN : String := "PLAIN"

structure PlainAuthenticator where
  username : Bytes
  password : Bytes
  deriving DecidableEq, Repr

def newPlainAuthenticator (cred : Cred) : PlainAuthenticator :=
  ⟨goBytes cred.username, goBytes cred.password⟩

structure PlainSaslClient where
  username : Bytes
  password : Bytes
  deriving DecidableEq, Repr

structure SaslConversation where
  source : String
  client : PlainSaslClient
  deriving DecidableEq, Repr

def PlainAuthenticator.auth (a : PlainAuthenticator) : SaslConversation :=
  ⟨"$external", ⟨a.username, a.password⟩⟩

def PlainAuthenticator.reauth (_ : PlainAuthenticator) : Except Error Unit :=
  throw (.authError ⟨"Plain authentication does not support reauthentication", []⟩)

def PlainSaslClient.start (c : PlainSaslClient) : String × Bytes :=
  (PLAIN, [0] ++ c.username ++ [0] ++ c.password)

def PlainSaslClient.next (_ : PlainSaslClient) (_ : Bytes) : Except Error Bytes :=
  throw (.authError ⟨"unexpected server challenge", []⟩)

def PlainSaslClient.completed (_ : PlainSaslClient) : Bool := true

/-- A PLAIN message read by the grammar `[authzid] NUL authcid NUL passwd`, no field holding a
NUL: the message has exactly two NULs, and the fields are what they separate. -/
def parsePlain (m : Bytes) : Option (Bytes × Bytes × Bytes) :=
  match m.splitOn 0 with
  | [authzid, authcid, passwd] => some (authzid, authcid, passwd)
  | _ => none

theorem auth_start (a : PlainAuthenticator) :
    a.auth.client.start = (PLAIN, 0 :: (a.username ++ 0 :: a.password)) := by
  simp [PlainAuthenticator.auth, PlainSaslClient.start]

theorem not_mem_of_mem_splitOn {sep : UInt8} {m l : Bytes} (h : l ∈ m.splitOn sep) : sep ∉ l := by
  induction m generalizing l with
  | nil => simp_all [List.splitOn]
  | cons x xs ih =>
    simp only [List.splitOn, List.splitOnP_cons] at h ih
    split_ifs at h with hx
    · rcases List.mem_cons.1 h with rfl | h
      exacts [List.not_mem_nil _, ih h]
    · obtain ⟨hd, tl, hsplit⟩ := List.exists_cons_of_ne_nil (List.splitOnP_ne_nil (· == sep) xs)
      rw [hsplit] at h ih
      simp only [List.modifyHead_cons, List.mem_cons] at h
      rcases h with rfl | h
      · simp only [List.mem_cons, not_or]
        exact ⟨fun he => hx (he ▸ beq_self_eq_true x), ih (List.mem_cons_self _ _)⟩
      · exact ih (List.mem_cons_of_mem _ h)

theorem parsePlain_fields {m authzid authcid passwd : Bytes}
    (h : parsePlain m = some (authzid, authcid, passwd)) :
    0 ∉ authzid ∧ 0 ∉ authcid ∧ 0 ∉ passwd := by
  unfold parsePlain at h
  split at h
  · next z c p hs =>
    simp only [Option.some.injEq, Prod.mk.injEq] at h
    obtain ⟨h1, h2, h3⟩ := h
    have hmem : ∀ l ∈ m.splitOn 0, (0 : UInt8) ∉ l := fun _ hl => not_mem_of_mem_splitOn hl
    rw [hs] at hmem
    exact ⟨h1 ▸ hmem z (by simp), h2 ▸ hmem c (by simp), h3 ▸ hmem p (by simp)⟩
  · cases h

theorem parsePlain_eq {m authzid authcid passwd : Bytes}
    (h : parsePlain m = some (authzid, authcid, passwd)) :
    m = authzid ++ 0 :: (authcid ++ 0 :: passwd) := by
  have hm : [0].intercalate (m.splitOn 0) = m := List.intercalate_splitOn m 0
  unfold parsePlain at h
  split at h
  · next z c p hs =>
    simp only [Option.some.injEq, Prod.mk.injEq] at h
    obtain ⟨rfl, rfl, rfl⟩ := h
    rw [hs] at hm
    simpa [List.intercalate] using hm.symm
  · cases h

theorem parsePlain_of_count {m : Bytes} (h : 2 < m.count 0) : parsePlain m = none := by
  cases hp : parsePlain m with
  | none => rfl
  | some f =>
    obtain ⟨z, c, q⟩ := f
    obtain ⟨hz, hc, hq⟩ := parsePlain_fields hp
    rw [parsePlain_eq hp] at h
    simp [List.count_append, List.count_eq_zero_of_not_mem hz, List.count_eq_zero_of_not_mem hc,
      List.count_eq_zero_of_not_mem hq] at h

theorem parsePlain_payload {u p : Bytes} (hu : 0 ∉ u) (hp : 0 ∉ p) :
    parsePlain (0 :: (u ++ 0 :: p)) = some ([], u, p) := by
  have hsplit : (0 :: (u ++ 0 :: p)).splitOn 0 = [[], u, p] := by
    rw [show 0 :: (u ++ 0 :: p) = [] ++ 0 :: (u ++ 0 :: p) from rfl, splitOn_append_sep (by simp),
      splitOn_append_sep hu, splitOn_of_not_mem hp]
  simp [parsePlain, hsplit]

/-- `Auth`'s first payload is `NUL u NUL p`. It reads back as `("", u, p)` exactly when neither
the user name nor the password holds a NUL, and is no PLAIN message at all when one does; on
credentials without NULs the payload determines the pair. -/
theorem start_payload_parses (u p : Bytes) :
    (PlainAuthenticator.mk u p).auth.client.start = (PLAIN, 0 :: (u ++ 0 :: p)) ∧
      (parsePlain (PlainAuthenticator.mk u p).auth.client.start.2 = some ([], u, p) ↔
        0 ∉ u ∧ 0 ∉ p) ∧
      (parsePlain (PlainAuthenticator.mk u p).auth.client.start.2 = none ↔ 0 ∈ u ∨ 0 ∈ p) ∧
      ∀ u' p' : Bytes, 0 ∉ u → 0 ∉ p → 0 ∉ u' → 0 ∉ p' →
        (PlainAuthenticator.mk u p).auth.client.start =
          (PlainAuthenticator.mk u' p').auth.client.start → u = u' ∧ p = p' := by
  simp only [auth_start]
  have hnone : parsePlain (0 :: (u ++ 0 :: p)) = none ↔ 0 ∈ u ∨ 0 ∈ p := by
    refine ⟨fun h => ?_, fun h => parsePlain_of_count ?_⟩
    · by_contra hno
      push_neg at hno
      rw [parsePlain_payload hno.1 hno.2] at h
      cases h
    · have hpos : 0 < u.count 0 ∨ 0 < p.count 0 := h.imp List.count_pos_iff.2 List.count_pos_iff.2
      simp only [List.count_cons_self, List.count_append]
      omega
  refine ⟨trivial, ⟨fun h => (parsePlain_fields h).2, fun h => parsePlain_payload h.1 h.2⟩, hnone, ?_⟩
  intro u' p' hu hp hu' hp' heq
  have h := (parsePlain_payload hu hp).symm.trans
    ((congrArg (fun m => parsePlain m.2) heq).trans (parsePlain_payload hu' hp'))
  simpa using h

/-- A NUL in the user name moves a field boundary: two credentials send the same payload, which
is no PLAIN message at all. -/
theorem nul_credentials_collide :
    let cred : String → String → Cred := fun u p => ⟨u, p, fun _ => none, none, none⟩
    newPlainAuthenticator (cred "a\x00b" "c") ≠ newPlainAuthenticator (cred "a" "b\x00c") ∧
      (newPlainAuthenticator (cred "a\x00b" "c")).auth.client.start =
        (newPlainAuthenticator (cred "a" "b\x00c")).auth.client.start ∧
      parsePlain (newPlainAuthenticator (cred "a\x00b" "c")).auth.client.start.2 = none := by
  decide

open GoMongo.Bson

structure OIDCOneStep where
  userName : String
  accessToken : String
  deriving DecidableEq, Repr

/-- `jwtStepRequest`: `NewDocumentBuilder().AppendString("jwt", accessToken).Build()`. `Build`
drops the error of `AppendDocumentEnd`, which returns the bytes unchanged with it. -/
def jwtStepRequest (accessToken : String) : Bytes :=
  let start := appendDocumentStart []
  let doc := appendElement start.2 ⟨typeString, goBytes "jwt", encodeString (goBytes accessToken)⟩
  match appendDocumentEnd doc start.1 with
  | .ok doc => doc
  | .error _ => doc

def OIDCOneStep.start (c : OIDCOneStep) : String × Bytes :=
  (MongoDBOIDC, jwtStepRequest c.accessToken)

def OIDCOneStep.next (_ : OIDCOneStep) (_ : Bytes) : Except Error Bytes :=
  throw (.authError ⟨"unexpected step in OIDC authentication", []⟩)

def OIDCOneStep.completed (_ : OIDCOneStep) : Bool := true

theorem jwtStepRequest_eq (accessToken : String) :
    jwtStepRequest accessToken =
      wrapDocument (Element.bytes ⟨typeString, goBytes "jwt", encodeString (goBytes accessToken)⟩) := by
  have h := appendDocumentEnd_reserved []
    (Element.bytes ⟨typeString, goBytes "jwt", encodeString (goBytes accessToken)⟩)
  simp only [jwtStepRequest, appendDocumentStart, appendElement, h]
  rfl

/-- The one message of an OIDC conversation is a document of exactly one element, the string
`jwt`, whose value `Value.StringValue` reads back as the token's bytes. -/
theorem oidcOneStep_start (c : OIDCOneStep) (h : (goBytes c.accessToken).length + 15 < 2 ^ 31) :
    c.start.1 = MongoDBOIDC ∧
      readDocument c.start.2 =
        some [⟨typeString, goBytes "jwt", encodeString (goBytes c.accessToken)⟩] ∧
      stringOf (encodeString (goBytes c.accessToken)) = goBytes c.accessToken := by
  have hread : (⟨typeString, goBytes "jwt", encodeString (goBytes c.accessToken)⟩ : Element).Readable :=
    ⟨show (0 : UInt8) ∉ goBytes "jwt" by decide, encodeString_readable (by omega)⟩
  have hlen : (Element.bytes ⟨typeString, goBytes "jwt", encodeString (goBytes c.accessToken)⟩).length +
      5 < 2 ^ 31 := by
    simp only [Element.bytes, encodeString, List.length_cons, List.length_append, length_toLE,
      List.length_nil]
    have : (goBytes "jwt").length = 3 := by decide
    omega
  refine ⟨rfl, ?_, stringOf_encodeString (by omega)⟩
  rw [OIDCOneStep.start, jwtStepRequest_eq, readDocument_wrap hlen]
  simpa using elementsOf_bytes (List.forall_mem_singleton.2 hread)

theorem oidcOneStep_start_token :
    (goBytes "tok").length + 15 < 2 ^ 31 ∧
      (OIDCOneStep.mk "" "tok").start.1 = MongoDBOIDC ∧
      readDocument (OIDCOneStep.mk "" "tok").start.2 =
        some [⟨typeString, goBytes "jwt", encodeString (goBytes "tok")⟩] ∧
      stringOf (encodeString (goBytes "tok")) = goBytes "tok" :=
  ⟨by decide, oidcOneStep_start ⟨"", "tok"⟩ (by decide)⟩

end GoMongo.Auth
