import GoMongo.Auth.OIDCAuthenticator

/-!
# The Azure callback and the query string of its request

`getAzureOIDCCallback` returns a closure over `clientID` and `resource`. Each invocation first
reassigns the captured `resource = url.QueryEscape(resource)` and then formats the request URI
with that value and with `clientID` as it is. Go strings are byte strings, `Bytes` here. The
`net/url` functions the request goes through (`QueryEscape`, `url.Parse` as
`http.NewRequestWithContext` calls it, and `URL.Query`) are modelled on bytes as the Go standard
library defines them; the HTTP exchange is an oracle from the request to the response.
-/

namespace GoMongo.Auth

def shouldEscape (c : UInt8) : Bool :=
  !(c.isASCIIAlphanum || c = 0x2d || c = 0x5f || c = 0x2e || c = 0x7e)

def upperhex (n : UInt8) : UInt8 := if n < 10 then 0x30 + n else 0x37 + n

def escapeByte (c : UInt8) : Bytes :=
  if c = 0x20 then [0x2b]
  else if shouldEscape c then [0x25, upperhex (c >>> 4), upperhex (c &&& 15)]
  else [c]

def queryEscape (s : Bytes) : Bytes := s.flatMap escapeByte

def ishex (c : UInt8) : Bool :=
  c.isASCIIDigit || (0x61 ≤ c && c ≤ 0x66) || (0x41 ≤ c && c ≤ 0x46)

def unhex (c : UInt8) : UInt8 :=
  if c.isASCIIDigit then c - 0x30 else if 0x61 ≤ c && c ≤ 0x66 then c - 0x57 else c - 0x37

def isCTL (c : UInt8) : Bool := c < 0x20 || c = 0x7f

def passesParse (c : UInt8) : Bool := !(isCTL c || c = 0x23)

def passesQuery (c : UInt8) : Bool := passesParse c && c ≠ 0x26 && c ≠ 0x3b

/-- The bytes a raw query value keeps as they are: those that pass, other than `%` and `+`. -/
def querySafe (c : UInt8) : Bool := passesQuery c && c ≠ 0x25 && c ≠ 0x2b

theorem passesParse_iff (c : UInt8) : passesParse c ↔ isCTL c = false ∧ c ≠ 0x23 := by
  simp [passesParse]

theorem passesQuery_iff (c : UInt8) : passesQuery c ↔ passesParse c ∧ c ≠ 0x26 ∧ c ≠ 0x3b := by
  simp [passesQuery, and_assoc]

theorem querySafe_iff (c : UInt8) : querySafe c ↔ passesQuery c ∧ c ≠ 0x25 ∧ c ≠ 0x2b := by
  simp [querySafe, and_assoc]

inductive UrlError
  | escape (s : Bytes)
  | ctlByte
  | semicolon
  deriving DecidableEq, Repr

def UrlError.toError : UrlError → Error
  | .escape s => .errorf ⟨"invalid URL escape %q", [⟨s.map UInt8.toChar⟩]⟩
  | .ctlByte => .errorf ⟨"net/url: invalid control character in URL", []⟩
  | .semicolon => .errorf ⟨"invalid semicolon separator in query", []⟩

inductive Encoding
  | queryComponent
  | fragment
  deriving DecidableEq, Repr

/-- `unescape(s, mode)`: `%XX` is decoded, and `+` is a space in a query component. Go checks
every `%` in a first pass and decodes in a second; both stop at the first malformed escape, as
this single pass does. -/
def unescape (mode : Encoding) : Bytes → Except UrlError Bytes
  | [] => pure []
  | c :: s =>
    if c = 0x25 then
      match s with
      | a :: b :: rest =>
        if ishex a && ishex b then ((unhex a <<< 4 ||| unhex b) :: ·) <$> unescape mode rest
        else throw (.escape [c, a, b])
      | _ => throw (.escape (c :: s))
    else ((if c = 0x2b ∧ mode = .queryComponent then 0x20 else c) :: ·) <$> unescape mode s

def queryUnescape : Bytes → Except UrlError Bytes := unescape .queryComponent

def cut (sep : UInt8) : Bytes → Bytes × Bytes
  | [] => ([], [])
  | c :: s => if c = sep then ([], s) else ((c :: (cut sep s).1), (cut sep s).2)

abbrev Values := List (Bytes × Bytes)

def parseSegment (acc : Values × Option UrlError) (key : Bytes) : Values × Option UrlError :=
  if 0x3b ∈ key then (acc.1, some .semicolon)
  else if key = [] then acc
  else
    match queryUnescape (cut 0x3d key).1, queryUnescape (cut 0x3d key).2 with
    | .ok k, .ok v => (acc.1 ++ [(k, v)], acc.2)
    | .error e, _ | _, .error e => (acc.1, acc.2.or (some e))

/-- `url.ParseQuery`. Its loop cuts the query at each `&` while any is left; splitting at every
`&` gives the same segments and, at worst, empty ones, which the loop skips. -/
def parseQuery (query : Bytes) : Values × Option UrlError :=
  (query.splitOn 0x26).foldl parseSegment ([], none)

structure URL where
  rawQuery : Bytes
  fragment : Bytes
  deriving DecidableEq, Repr

/-- `url.Parse` on a URI that starts with the Azure endpoint: the fragment is cut off at the
first `#`, a control byte before it is refused, the raw query is what follows the first `?`,
and the fragment must unescape. Scheme, host and path are the endpoint's and always parse. -/
def urlParse (rawURL : Bytes) : Except UrlError URL := do
  if (cut 0x23 rawURL).1.any isCTL then throw .ctlByte
  let fragment ← if (cut 0x23 rawURL).2 = [] then pure [] else unescape .fragment (cut 0x23 rawURL).2
  pure ⟨(cut 0x3f (cut 0x23 rawURL).1).2, fragment⟩

def URL.query (u : URL) : Values := (parseQuery u.rawQuery).1

structure Request where
  method : String
  url : URL
  header : List (String × String)

structure Response where
  statusCode : Nat
  body : Except Error (String × Int)

structure AzureCallback where
  clientID : Bytes
  resource : Bytes
  deriving DecidableEq, Repr

def azureTokenURI : String :=
  "http://169.254.169.254/metadata/identity/oauth2/token?api-version=2018-02-01&resource="

def azureURI (clientID resource : Bytes) : Bytes :=
  if clientID ≠ [] then goBytes azureTokenURI ++ resource ++ goBytes "&client_id=" ++ clientID
  else goBytes azureTokenURI ++ resource

def AzureCallback.escapeResource (cb : AzureCallback) : AzureCallback :=
  { cb with resource := queryEscape cb.resource }

def AzureCallback.request (cb : AzureCallback) : Except Error Request := do
  let url ← (urlParse (azureURI cb.clientID cb.resource)).mapError fun err =>
    .authErrorOf ⟨"error creating http request to Azure Identity Provider", []⟩ err.toError
  pure ⟨"GET", url, [("Metadata", "true"), ("Accept", "application/json")]⟩

def readResponse (resp : Except Error Response) : Except Error OIDCCredential := do
  let resp ← resp.mapError
    (.authErrorOf ⟨"error getting access token from Azure Identity Provider", []⟩)
  if resp.statusCode ≠ 200 then
    throw (.authError ⟨"failed to get a valid response from Azure Identity Provider, http code: %d",
      [toString resp.statusCode]⟩)
  let azureResp ← resp.body.mapError
    (.authErrorOf ⟨"failed parsing result from Azure Identity Provider", []⟩)
  pure ⟨azureResp.1, some azureResp.2, none⟩

/-- One invocation with `httpDo` as the client: the closure keeps the escaped `resource`
whatever the outcome. -/
def AzureCallback.invoke (cb : AzureCallback) (httpDo : Request → Except Error Response) :
    Except Error OIDCCredential × AzureCallback :=
  (cb.escapeResource.request >>= fun req => readResponse (httpDo req), cb.escapeResource)

def AzureCallback.invokeAll (cb : AzureCallback) :
    List (Request → Except Error Response) → List (Except Error OIDCCredential) × AzureCallback
  | [] => ([], cb)
  | httpDo :: https =>
    ((cb.invoke httpDo).1 :: ((cb.invoke httpDo).2.invokeAll https).1,
      ((cb.invoke httpDo).2.invokeAll https).2)

def OIDCCallback.azureClosure : OIDCCallback → Option AzureCallback
  | .azure clientID resource => some ⟨goBytes clientID, goBytes resource⟩
  | _ => none

def azureParams (clientID resource : Bytes) : Values :=
  [(goBytes "api-version", goBytes "2018-02-01"), (goBytes "resource", resource)] ++
    if clientID ≠ [] then [(goBytes "client_id", clientID)] else []

set_option maxRecDepth 8000 in
theorem nibbles_of_byte : ∀ n < 256,
    (UInt8.ofNat n >>> 4) <<< 4 ||| (UInt8.ofNat n &&& 15) = UInt8.ofNat n ∧
      UInt8.ofNat n >>> 4 < 16 ∧ UInt8.ofNat n &&& 15 < 16 := by
  decide

theorem hex_of_nibble : ∀ n < 16, ishex (upperhex (UInt8.ofNat n)) ∧
    shouldEscape (upperhex (UInt8.ofNat n)) = false ∧
      unhex (upperhex (UInt8.ofNat n)) = UInt8.ofNat n := by
  decide

theorem hexPair (c : UInt8) :
    ishex (upperhex (c >>> 4)) ∧ ishex (upperhex (c &&& 15)) ∧
      shouldEscape (upperhex (c >>> 4)) = false ∧ shouldEscape (upperhex (c &&& 15)) = false ∧
      (unhex (upperhex (c >>> 4)) <<< 4 ||| unhex (upperhex (c &&& 15))) = c := by
  have hc := nibbles_of_byte c.toNat c.toNat_lt_size
  rw [uint8_ofNat_toNat] at hc
  have hhi := hex_of_nibble (c >>> 4).toNat hc.2.1
  have hlo := hex_of_nibble (c &&& 15).toNat hc.2.2
  rw [uint8_ofNat_toNat] at hhi hlo
  exact ⟨hhi.1, hlo.1, hhi.2.1, hlo.2.1, by rw [hhi.2.2, hlo.2.2, hc.1]⟩

theorem shouldEscape_of_isCTL {c : UInt8} (h : isCTL c = true) : shouldEscape c = true := by
  simp only [isCTL, Bool.or_eq_true, decide_eq_true_eq] at h
  rcases h with h | rfl
  · have key : ∀ n < 32, shouldEscape (UInt8.ofNat n) = true := by decide
    simpa only [uint8_ofNat_toNat] using key c.toNat h
  · rfl

theorem mem_escapeByte {b c : UInt8} (h : b ∈ escapeByte c) :
    shouldEscape b = false ∨ b = 0x25 ∨ b = 0x2b := by
  obtain ⟨-, -, hhi, hlo, -⟩ := hexPair c
  unfold escapeByte at h
  split_ifs at h with hsp hesc
  · simp_all
  · simp only [List.mem_cons, List.mem_singleton, List.not_mem_nil, or_false] at h
    rcases h with rfl | rfl | rfl <;> simp_all
  · simp_all

theorem passesQuery_of_escaped {b : UInt8} (h : shouldEscape b = false ∨ b = 0x25 ∨ b = 0x2b) :
    passesQuery b ∧ b ≠ 0x3d := by
  rcases h with h | rfl | rfl
  · have hne : ∀ c : UInt8, shouldEscape c = true → b ≠ c := by rintro c hc rfl; simp_all
    have hctl : isCTL b = false := Bool.eq_false_iff.2 fun hc => hne b (shouldEscape_of_isCTL hc) rfl
    simp [passesQuery, passesParse, hctl, hne 0x23 rfl, hne 0x26 rfl, hne 0x3b rfl, hne 0x3d rfl]
  all_goals decide

@[simp] theorem queryEscape_cons (c : UInt8) (s : Bytes) :
    queryEscape (c :: s) = escapeByte c ++ queryEscape s := rfl

theorem mem_queryEscape {b : UInt8} {s : Bytes} (h : b ∈ queryEscape s) :
    passesQuery b ∧ b ≠ 0x3d := by
  obtain ⟨c, -, hc⟩ := List.mem_flatMap.1 h
  exact passesQuery_of_escaped (mem_escapeByte hc)

theorem unescape_plain {c : UInt8} (hc : c ≠ 0x25) (mode : Encoding) (s : Bytes) :
    unescape mode (c :: s) =
      ((if c = 0x2b ∧ mode = .queryComponent then 0x20 else c) :: ·) <$> unescape mode s := by
  conv_lhs => unfold unescape
  rw [if_neg hc]

theorem unescape_hex {a b : UInt8} (h : ishex a && ishex b) (mode : Encoding) (s : Bytes) :
    unescape mode (0x25 :: a :: b :: s) = ((unhex a <<< 4 ||| unhex b) :: ·) <$> unescape mode s := by
  rw [unescape, if_pos rfl, if_pos h]

theorem queryUnescape_escapeByte (c : UInt8) (t : Bytes) :
    queryUnescape (escapeByte c ++ t) = (c :: ·) <$> queryUnescape t := by
  obtain ⟨h1, h2, -, -, hc⟩ := hexPair c
  unfold escapeByte queryUnescape
  split_ifs with hsp hesc
  · subst hsp; simp [unescape_plain]
  · simp [unescape_hex, h1, h2, hc]
  · have h25 : c ≠ 0x25 := by rintro rfl; exact absurd hesc (by decide)
    have h2b : c ≠ 0x2b := by rintro rfl; exact absurd hesc (by decide)
    simp [unescape_plain h25, h2b]

theorem queryUnescape_queryEscape (s : Bytes) : queryUnescape (queryEscape s) = .ok s := by
  induction s with
  | nil => rfl
  | cons c s ih => rw [queryEscape_cons, queryUnescape_escapeByte, ih]; rfl

theorem queryUnescape_of_safe {s : Bytes} (h : ∀ b ∈ s, b ≠ 0x25 ∧ b ≠ 0x2b) :
    queryUnescape s = .ok s := by
  induction s with
  | nil => rfl
  | cons c s ih =>
    have hc := h c (List.mem_cons_self c s)
    simp only [queryUnescape] at ih ⊢
    rw [unescape_plain hc.1, ih fun b hb => h b (List.mem_cons_of_mem c hb)]
    simp [hc.2]

theorem cut_of_not_mem {sep : UInt8} {s : Bytes} (h : sep ∉ s) : cut sep s = (s, []) := by
  induction s with
  | nil => rfl
  | cons c s ih =>
    simp only [List.mem_cons, not_or] at h
    simp [cut, Ne.symm h.1, ih h.2]

theorem cut_append_sep {sep : UInt8} {s : Bytes} (h : sep ∉ s) (t : Bytes) :
    cut sep (s ++ sep :: t) = (s, t) := by
  induction s with
  | nil => simp [cut]
  | cons c s ih =>
    simp only [List.mem_cons, not_or] at h
    simp [cut, Ne.symm h.1, ih h.2]

theorem splitOn_append_sep {sep : UInt8} {s : Bytes} (h : sep ∉ s) (t : Bytes) :
    (s ++ sep :: t).splitOn sep = s :: t.splitOn sep :=
  List.splitOnP_first (· == sep) s (fun _ hx hs => h (eq_of_beq hs ▸ hx)) sep (beq_self_eq_true sep) t

theorem splitOn_of_not_mem {sep : UInt8} {s : Bytes} (h : sep ∉ s) : s.splitOn sep = [s] :=
  List.splitOnP_eq_single (· == sep) s fun _ hx hs => h (eq_of_beq hs ▸ hx)

theorem parseSegment_pair (acc : Values × Option UrlError) {k v v' : Bytes}
    (hk : ∀ b ∈ k, b ≠ 0x3b ∧ b ≠ 0x3d ∧ b ≠ 0x25 ∧ b ≠ 0x2b) (hv : 0x3b ∉ v)
    (hu : queryUnescape v = .ok v') :
    parseSegment acc (k ++ 0x3d :: v) = (acc.1 ++ [(k, v')], acc.2) := by
  have hsemi : 0x3b ∉ k ++ 0x3d :: v := by
    simp only [List.mem_append, List.mem_cons, not_or]
    exact ⟨fun hm => (hk _ hm).1 rfl, by decide, hv⟩
  have hcut := cut_append_sep (fun hm => (hk _ hm).2.1 rfl) v
  have hkey := queryUnescape_of_safe fun b hb => (hk b hb).2.2
  simp [parseSegment, hsemi, hcut, hkey, hu]

theorem urlParse_of_passes {raw : Bytes} (h : ∀ b ∈ raw, passesParse b) :
    urlParse raw = .ok ⟨(cut 0x3f raw).2, []⟩ := by
  have hhash : cut 0x23 raw = (raw, []) :=
    cut_of_not_mem fun hm => ((passesParse_iff _).1 (h _ hm)).2 rfl
  have hctl : raw.any isCTL = false :=
    List.any_eq_false.2 fun b hb => by simp [((passesParse_iff b).1 (h b hb)).1]
  simp [urlParse, hhash, hctl]
  rfl

theorem cut_azureURI (clientID resource : Bytes) :
    (cut 0x3f (azureURI clientID resource)).2 =
      goBytes "api-version=2018-02-01" ++ 0x26 :: (goBytes "resource" ++ 0x3d ::
        (resource ++ if clientID ≠ [] then 0x26 :: (goBytes "client_id" ++ 0x3d :: clientID)
          else [])) := by
  have hpre : goBytes azureTokenURI =
      goBytes "http://169.254.169.254/metadata/identity/oauth2/token" ++ 0x3f ::
        (goBytes "api-version=2018-02-01" ++ 0x26 :: (goBytes "resource" ++ [0x3d])) := by decide
  have hcl : goBytes "&client_id=" = 0x26 :: (goBytes "client_id" ++ [0x3d]) := by decide
  have hpath : (0x3f : UInt8) ∉ goBytes "http://169.254.169.254/metadata/identity/oauth2/token" := by
    decide
  unfold azureURI
  split_ifs <;> simp [hpre, hcl, cut_append_sep hpath]

theorem parseQuery_azure {clientID escaped resource : Bytes}
    (hC : ∀ b ∈ clientID, querySafe b) (hE : ∀ b ∈ escaped, passesQuery b ∧ b ≠ 0x3d)
    (hu : queryUnescape escaped = .ok resource) :
    parseQuery (goBytes "api-version=2018-02-01" ++ 0x26 :: (goBytes "resource" ++ 0x3d ::
      (escaped ++ if clientID ≠ [] then 0x26 :: (goBytes "client_id" ++ 0x3d :: clientID)
        else []))) = (azureParams clientID resource, none) := by
  have hE' : ∀ b ∈ escaped, b ≠ 0x26 ∧ b ≠ 0x3b := fun b hb => ((passesQuery_iff b).1 (hE b hb).1).2
  have hC' : ∀ b ∈ clientID, b ≠ 0x26 ∧ b ≠ 0x3b ∧ b ≠ 0x25 ∧ b ≠ 0x2b := fun b hb =>
    have h := (querySafe_iff b).1 (hC b hb)
    ⟨((passesQuery_iff b).1 h.1).2.1, ((passesQuery_iff b).1 h.1).2.2, h.2⟩
  have hres : 0x26 ∉ goBytes "resource" ++ 0x3d :: escaped := by
    simp only [List.mem_append, List.mem_cons, not_or]
    exact ⟨by decide, by decide, fun hm => (hE' _ hm).1 rfl⟩
  have hcid : 0x26 ∉ goBytes "client_id" ++ 0x3d :: clientID := by
    simp only [List.mem_append, List.mem_cons, not_or]
    exact ⟨by decide, by decide, fun hm => (hC' _ hm).1 rfl⟩
  have hfirst : parseSegment ([], none) (goBytes "api-version=2018-02-01") =
      ([(goBytes "api-version", goBytes "2018-02-01")], none) := by decide
  have hresource := parseSegment_pair ([(goBytes "api-version", goBytes "2018-02-01")], none)
    (k := goBytes "resource") (by decide) (fun hm => (hE' _ hm).2 rfl) hu
  unfold parseQuery
  rw [splitOn_append_sep (by decide)]
  split_ifs with hne
  · have hsplit : goBytes "resource" ++ 0x3d :: (escaped ++ 0x26 ::
        (goBytes "client_id" ++ 0x3d :: clientID)) = (goBytes "resource" ++ 0x3d :: escaped) ++
          0x26 :: (goBytes "client_id" ++ 0x3d :: clientID) := by simp
    have hclient := parseSegment_pair
      ([(goBytes "api-version", goBytes "2018-02-01"), (goBytes "resource", resource)], none)
      (k := goBytes "client_id") (by decide) (fun hm => (hC' _ hm).2.1 rfl)
      (queryUnescape_of_safe fun b hb => (hC' b hb).2.2)
    rw [hsplit, splitOn_append_sep hres, splitOn_of_not_mem hcid]
    simp [hfirst, hresource, hclient, azureParams, hne]
  · rw [List.append_nil, splitOn_of_not_mem hres]
    simp [hfirst, hresource, azureParams, hne]

theorem azureURI_passes {clientID escaped : Bytes} (hC : ∀ b ∈ clientID, querySafe b)
    (hE : ∀ b ∈ escaped, passesQuery b ∧ b ≠ 0x3d) : ∀ b ∈ azureURI clientID escaped, passesParse b := by
  have hpre : ∀ b ∈ goBytes azureTokenURI, passesParse b := by decide
  have hcl : ∀ b ∈ goBytes "&client_id=", passesParse b := by decide
  have hE' := fun b hb => ((passesQuery_iff b).1 (hE b hb).1).1
  unfold azureURI
  split_ifs
  · simp only [List.mem_append]
    rintro b (((hb | hb) | hb) | hb)
    exacts [hpre b hb, hE' b hb, hcl b hb, ((passesQuery_iff b).1 ((querySafe_iff b).1 (hC b hb)).1).1]
  · simp only [List.mem_append]
    rintro b (hb | hb)
    exacts [hpre b hb, hE' b hb]

theorem request_query {clientID : Bytes} (hC : ∀ b ∈ clientID, querySafe b) (resource : Bytes) :
    (AzureCallback.mk clientID (queryEscape resource)).request.map (·.url.query) =
      .ok (azureParams clientID resource) := by
  have hE : ∀ b ∈ queryEscape resource, passesQuery b ∧ b ≠ 0x3d := fun _ hb => mem_queryEscape hb
  have hparse := urlParse_of_passes (azureURI_passes hC hE)
  rw [cut_azureURI] at hparse
  simp only [AzureCallback.request, hparse]
  exact congrArg (fun v : Values × Option UrlError => (Except.ok v.1 : Except Error Values))
    (parseQuery_azure hC hE (queryUnescape_queryEscape resource))

@[simp] theorem invoke_snd (cb : AzureCallback) (httpDo : Request → Except Error Response) :
    (cb.invoke httpDo).2 = cb.escapeResource := rfl

theorem invokeAll_snd (cb : AzureCallback) (https : List (Request → Except Error Response)) :
    (cb.invokeAll https).2 = ⟨cb.clientID, queryEscape^[https.length] cb.resource⟩ := by
  induction https generalizing cb with
  | nil => rfl
  | cons httpDo https ih =>
    simp [AzureCallback.invokeAll, ih, AzureCallback.escapeResource, Function.iterate_succ_apply]

/-- Every invocation of the closure, after any earlier ones, sends a request whose query parses
to the endpoint's parameters, with the resource escaped once for each earlier invocation. -/
theorem invocation_query (clientID resource : Bytes) (hC : ∀ b ∈ clientID, querySafe b)
    (https : List (Request → Except Error Response)) :
    ((AzureCallback.mk clientID resource).invokeAll https).2.escapeResource.request.map
        (·.url.query) = .ok (azureParams clientID (queryEscape^[https.length] resource)) := by
  rw [invokeAll_snd]
  exact request_query hC _

theorem invocation_query_second :
    let server : Request → Except Error Response := fun _ => .ok ⟨200, .ok ("T", 0)⟩
    (∀ b ∈ goBytes "client", querySafe b) ∧
      ((AzureCallback.mk (goBytes "client") (goBytes "a b")).invokeAll [server]).2.escapeResource.request.map
        (·.url.query) = .ok (azureParams (goBytes "client") (queryEscape^[1] (goBytes "a b"))) :=
  ⟨by decide, invocation_query _ _ (by decide) _⟩

/-- A second invocation of the closure for the resource `a b` sends `resource=a%2Bb`, which
parses to `a+b`; and a client id holding `&resource=` adds a second `resource` parameter. -/
theorem azure_reinvocation_alters_query :
    let server : Request → Except Error Response := fun _ => .ok ⟨200, .ok ("T", 0)⟩
    let cb : AzureCallback := ⟨[], goBytes "a b"⟩
    (cb.invoke server).1 = .ok ⟨"T", some 0, none⟩ ∧
      cb.escapeResource.request.map (·.url.query) = .ok (azureParams [] (goBytes "a b")) ∧
      (cb.invoke server).2.escapeResource.request.map (·.url.query) =
        .ok (azureParams [] (goBytes "a+b")) ∧
      (AzureCallback.mk (goBytes "x&resource=y") (goBytes "r")).escapeResource.request.map
          (·.url.query) =
        .ok (azureParams (goBytes "x") (goBytes "r") ++ [(goBytes "resource", goBytes "y")]) := by
  decide

theorem length_le_queryEscape (s : Bytes) : s.length ≤ (queryEscape s).length := by
  induction s with
  | nil => exact le_refl 0
  | cons c s ih =>
    have : 1 ≤ (escapeByte c).length := by unfold escapeByte; split_ifs <;> simp
    simp only [queryEscape_cons, List.length_append, List.length_cons]
    omega

theorem escapeByte_of_unreserved {c : UInt8} (h : shouldEscape c = false) : escapeByte c = [c] := by
  have : c ≠ 0x20 := by rintro rfl; exact absurd h (by decide)
  simp [escapeByte, this, h]

theorem escapeByte_escaped {c : UInt8} (h : shouldEscape c = true) :
    ∃ d ∈ escapeByte c, shouldEscape d = true := by
  unfold escapeByte
  split_ifs
  exacts [⟨0x2b, by simp, rfl⟩, ⟨0x25, by simp, rfl⟩]

theorem queryEscape_eq_self_iff (s : Bytes) :
    queryEscape s = s ↔ ∀ b ∈ s, shouldEscape b = false := by
  induction s with
  | nil => simp [queryEscape]
  | cons c s ih =>
    rw [queryEscape_cons, List.forall_mem_cons, ← ih]
    constructor
    · intro h
      unfold escapeByte at h
      split_ifs at h with hsp hesc
      · simp [hsp] at h
      · have hlen := congrArg List.length h
        have := length_le_queryEscape s
        simp only [List.length_append, List.length_cons] at hlen
        omega
      · simp only [List.singleton_append, List.cons.injEq, true_and] at h
        exact ⟨by simpa using hesc, h⟩
    · rintro ⟨hc, hs⟩
      rw [escapeByte_of_unreserved hc, hs]
      rfl

theorem azureURI_inj {clientID x y : Bytes} (h : azureURI clientID x = azureURI clientID y) :
    x = y := by
  unfold azureURI at h
  split_ifs at h <;> simpa using h

theorem queryEscape_twice_ne {s : Bytes} (h : ∃ b ∈ s, shouldEscape b = true) :
    queryEscape (queryEscape s) ≠ queryEscape s := by
  obtain ⟨b, hb, hesc⟩ := h
  obtain ⟨d, hd, hdesc⟩ := escapeByte_escaped hesc
  intro heq
  have := (queryEscape_eq_self_iff _).1 heq d (List.mem_flatMap.2 ⟨b, hb, hd⟩)
  simp_all

/-- The closure requests the same URI at every invocation exactly when no byte of its resource
needs escaping; otherwise the second invocation already requests another one, whatever the
first returned. -/
theorem invocation_uri_stable_iff (cb : AzureCallback) :
    ((∀ https : List (Request → Except Error Response),
        azureURI cb.clientID (cb.invokeAll https).2.escapeResource.resource =
          azureURI cb.clientID (queryEscape cb.resource)) ↔
      ∀ b ∈ cb.resource, shouldEscape b = false) ∧
    ((∃ b ∈ cb.resource, shouldEscape b = true) →
      ∀ httpDo : Request → Except Error Response,
        azureURI cb.clientID (cb.invoke httpDo).2.escapeResource.resource ≠
          azureURI cb.clientID (queryEscape cb.resource)) := by
  refine ⟨⟨fun h => ?_, fun h https => ?_⟩, fun hesc _ heq => queryEscape_twice_ne hesc (azureURI_inj heq)⟩
  · by_contra hno
    simp only [not_forall, Bool.not_eq_false, exists_prop] at hno
    have htwice := azureURI_inj (h [fun _ => .error (.errorf ⟨"", []⟩)])
    simp only [invokeAll_snd, AzureCallback.escapeResource, List.length_singleton,
      Function.iterate_one] at htwice
    exact queryEscape_twice_ne hno htwice
  · have hfix := (queryEscape_eq_self_iff _).2 h
    simp only [invokeAll_snd, AzureCallback.escapeResource, Function.iterate_fixed hfix, hfix]

/-- Through the driver: with `ENVIRONMENT` `azure` and a `TOKEN_RESOURCE`, `providerCallback`
returns the Azure callback and no error, and that callback's first invocation requests exactly
the endpoint's parameters, the user name as client id, when that name is query-safe. -/
theorem providerCallback_azure_query (oa : OIDCAuthenticator) (resource : String)
    (henv : oa.authMechanismProperties environmentProp = some azureEnvironmentValue)
    (hres : oa.authMechanismProperties resourceProp = some resource) :
    providerCallback oa = (some (getAzureOIDCCallback oa.userName resource), none) ∧
      ((∀ b ∈ goBytes oa.userName, querySafe b) →
        ((providerCallback oa).1.bind OIDCCallback.azureClosure).map
            (fun cb => cb.escapeResource.request.map (·.url.query)) =
          some (.ok (azureParams (goBytes oa.userName) (goBytes resource)))) := by
  have hcb : providerCallback oa = (some (getAzureOIDCCallback oa.userName resource), none) := by
    simp [providerCallback, henv, hres]
  refine ⟨hcb, fun hC => ?_⟩
  simp [hcb, getAzureOIDCCallback, OIDCCallback.azureClosure, AzureCallback.escapeResource,
    request_query hC]

theorem providerCallback_azure_query_client :
    let props : String → Option String := fun k =>
      if k = environmentProp then some "azure" else if k = resourceProp then some "r" else none
    let oa : OIDCAuthenticator := ⟨props, none, none, "app1", "", none, 0⟩
    oa.authMechanismProperties environmentProp = some azureEnvironmentValue ∧
      oa.authMechanismProperties resourceProp = some "r" ∧
      providerCallback oa = (some (getAzureOIDCCallback "app1" "r"), none) ∧
      (∀ b ∈ goBytes oa.userName, querySafe b) ∧
      ((providerCallback oa).1.bind OIDCCallback.azureClosure).map
          (fun cb => cb.escapeResource.request.map (·.url.query)) =
        some (.ok (azureParams (goBytes "app1") (goBytes "r"))) :=
  have henv : (if environmentProp = environmentProp then some "azure" else none) =
      some azureEnvironmentValue := by decide
  have hres : (if resourceProp = environmentProp then some "azure"
      else if resourceProp = resourceProp then some "r" else none) = some "r" := by decide
  have hC : ∀ b ∈ goBytes "app1", querySafe b := by decide
  ⟨henv, hres, (providerCallback_azure_query _ "r" henv hres).1, hC,
    (providerCallback_azure_query _ "r" henv hres).2 hC⟩

end GoMongo.Auth
