import GoMongo.Auth.OIDCInterleaving

/-!
# What the generation fence of `invalidateAccessToken` does and does not guarantee

A connection records a generation only when its own `getAccessToken` calls the callback.
A connection that authenticates with a token someone else cached (`Auth`'s snapshot,
`getAccessToken`'s cached branch, or a speculative handshake) keeps its old generation, `0`
when it is new. Its later invalidation is then not fenced by the token it used: with `0` it
clears whatever is cached, and with an older non-zero value it clears nothing, so `Auth`
presents a token the server just rejected once more. The two runs below show both.

For a connection whose generation is non-zero and current, the fence is right: it clears
only the token that connection acquired (`clears_own_acquisition`).
-/

namespace GoMongo.Auth

def lastPresented (conn : ConnId) (ls : List Label) : Option String :=
  ls.foldl (fun last l => match l with
    | .present c token _ => if c = conn then some token else last
    | _ => last) none

/-- Every invalidation that clears a non-empty token clears the token its own connection
presented last. -/
def ClearsOwnToken (log : List Label) : Prop :=
  ∀ pre conn token post, log = pre ++ .invalidate conn (some token) :: post → token ≠ "" →
    lastPresented conn pre = some token

theorem not_clearsOwnToken {pre : List Label} {conn : ConnId} {token : String}
    (hne : token ≠ "") (hlast : lastPresented conn pre ≠ some token) :
    ¬ ClearsOwnToken (pre ++ [.invalidate conn (some token)]) :=
  fun h => hlast (h pre conn token [] rfl hne)

def rejected : Error := .errorf ⟨"token expired", []⟩

/-- Connection 1 acquires `T1`; connection 2, new, authenticates with the cached `T1` and
keeps generation `0`. `T1` expires: `Reauth` on connection 1 clears it and acquires `T2`.
The late `Reauth` on connection 2, about `T1`, then clears `T2`. -/
theorem late_invalidation_clears_newer_token :
    let oa : OIDCAuthenticator := ⟨fun _ => none, some (.user 0), none, "", "", none, 0⟩
    let answers (token : String) : Server := ⟨fun _ => none, fun _ => .ok ⟨token, none, none⟩⟩
    let w := (World.fresh oa).run
      [.start 0 (.auth (some ⟨1⟩)) (answers "T1"), .advance 0, .advance 0, .advance 0,
       .start 1 (.auth (some ⟨2⟩)) (answers "T1"), .advance 1, .advance 1,
       .start 2 (.reauth ⟨1⟩) (answers "T2"), .advance 2, .advance 2, .advance 2, .advance 2,
       .start 3 (.reauth ⟨2⟩) (answers "T2"), .advance 3]
    let before : List Label := [.invoke 1 (.user 0) (.ok ⟨"T1", none, none⟩), .present 1 "T1" none,
      .present 2 "T1" none, .invalidate 1 (some "T1"), .invoke 1 (.user 0) (.ok ⟨"T2", none, none⟩),
      .present 1 "T2" none]
    w.log = before ++ [.invalidate 2 (some "T2")] ∧ lastPresented 2 before = some "T1" ∧
      ¬ ClearsOwnToken (before ++ [.invalidate 2 (some "T2")]) :=
  ⟨by rfl, by decide, not_clearsOwnToken (by decide) (by decide)⟩

/-- Connection 1 acquires `T1`. Connection 2 finds `T1` rejected, clears it and acquires
`T2`. A `Reauth` on connection 1 keeps `T2` (its generation `1` is older) and authenticates
with it, still at generation `1`. When `T2` expires, the next `Reauth` on connection 1
presents `T2`, is rejected, invalidates without clearing it, and presents `T2` again. -/
theorem stale_generation_resends_rejected_token :
    let oa : OIDCAuthenticator := ⟨fun _ => none, some (.user 0), none, "", "", none, 0⟩
    let answers (reply : Nat → Option Error) (token : String) : Server :=
      ⟨reply, fun _ => .ok ⟨token, none, none⟩⟩
    let w := (World.fresh oa).run
      [.start 0 (.auth (some ⟨1⟩)) (answers (fun _ => none) "T1"), .advance 0, .advance 0, .advance 0,
       .start 1 (.auth (some ⟨2⟩)) (answers (fun n => if n = 0 then some rejected else none) "T2"),
       .advance 1, .advance 1, .advance 1, .advance 1, .advance 1,
       .start 2 (.reauth ⟨1⟩) (answers (fun _ => none) "T3"), .advance 2, .advance 2, .advance 2,
       .start 3 (.reauth ⟨1⟩) (answers (fun _ => some rejected) "T3"),
       .advance 3, .advance 3, .advance 3, .advance 3, .advance 3, .advance 3]
    w.log = [.invoke 1 (.user 0) (.ok ⟨"T1", none, none⟩), .present 1 "T1" none,
      .present 2 "T1" (some rejected), .invalidate 2 (some "T1"),
      .invoke 2 (.user 0) (.ok ⟨"T2", none, none⟩), .present 2 "T2" none,
      .invalidate 1 none, .present 1 "T2" none,
      .invalidate 1 none, .present 1 "T2" (some rejected), .invalidate 1 none,
      .present 1 "T2" (some rejected)] ∧
    w.shared.oa.accessToken = "T2" ∧ w.shared.oa.tokenGenID = 2 ∧ w.shared.genID 1 = 1 ∧
    (w.calls 3).map Call.prog = some (.done (.failed rejected)) := by
  refine ⟨by rfl, by rfl, by rfl, by rfl, by rfl⟩

def acquisitions : List Label → List (ConnId × String)
  | [] => []
  | .invoke c _ (.ok cred) :: ls => (c, cred.accessToken) :: acquisitions ls
  | _ :: ls => acquisitions ls

@[simp] theorem acquisitions_append (ls ls' : List Label) :
    acquisitions (ls ++ ls') = acquisitions ls ++ acquisitions ls' := by
  induction ls with
  | nil => rfl
  | cons l ls ih => rcases l with _ | ⟨c, cb, _ | cred⟩ | _ <;> simp [acquisitions, ih]

theorem acquisitions_length (ls : List Label) :
    (acquisitions ls).length = ls.countP Label.isAcquisition := by
  induction ls with
  | nil => rfl
  | cons l ls ih => rcases l with _ | ⟨c, cb, _ | cred⟩ | _ <;> simp [acquisitions, Label.isAcquisition, ih]

/-- What the fence relies on, given the acquisitions `acq` so far: a connection with a
non-zero generation `g` made the `g`-th acquisition, and the cached token is empty or the
latest acquisition's. -/
structure FenceAt (s : Shared) (acq : List (ConnId × String)) : Prop where
  owner : ∀ c, s.genID c ≠ 0 → (acq[(s.genID c).toNat - 1]?).map Prod.fst = some c
  cached : s.oa.accessToken = "" ∨ acq.getLast?.map Prod.snd = some s.oa.accessToken

theorem Effect.fenceAt {s s' : Shared} {ls : List Label} {acq : List (ConnId × String)}
    (h : Effect s s' ls) (hg : GenCount s acq.length) (hf : FenceAt s acq)
    (hn : acq.length + ls.countP Label.isAcquisition < UInt64.size) :
    FenceAt s' (acq ++ acquisitions ls) := by
  cases h with
  | invalidate conn =>
    simp only [acquisitions, List.append_nil]
    by_cases hm : mayInvalidate s.oa (s.genID conn)
    · refine ⟨fun c hc => ?_, .inl (s.invalidate_of_may conn hm).1⟩
      by_cases hcc : c = conn
      · subst hcc; simp [Shared.invalidate, invalidateAccessToken, hm] at hc
      · have : (s.invalidate conn).genID c = s.genID c := by
          simp [Shared.invalidate, Function.update_noteq hcc]
        rw [this] at hc ⊢; exact hf.owner c hc
    · rwa [(s.invalidate_of_not_may conn hm).1]
  | acquire conn cb cred he =>
    simp only [List.countP_singleton, Label.isAcquisition, if_true] at hn
    have hsucc := uint64_toNat_succ s.oa.tokenGenID (by rw [hg.counts]; exact hn)
    refine ⟨fun c hc => ?_, .inr (by simp [acquisitions, Shared.acquire])⟩
    by_cases hcc : c = conn
    · subst hcc
      simp [Shared.acquire, acquisitions, hsucc, hg.counts]
    · have hle := (uint64_le_iff _ _).1 (hg.slots_le c)
      have hc' : s.genID c ≠ 0 := by simpa [Shared.acquire, Function.update_noteq hcc] using hc
      have hpos : (s.genID c).toNat ≠ 0 := fun h0 => hc' (UInt64.toNat.inj h0)
      simp only [Shared.acquire, Function.update_noteq hcc]
      rw [List.getElem?_append_left (by rw [← hg.counts]; omega)]
      exact hf.owner c hc'
  | _ => simpa [acquisitions] using hf

theorem Reachable.fenceAt {w : World} (hw : Reachable w)
    (hn : w.log.countP Label.isAcquisition < UInt64.size) :
    FenceAt w.shared (acquisitions w.log) := by
  induction hw with
  | fresh h =>
    exact ⟨fun c hc => absurd rfl hc, .inl (newOIDCAuthenticator_fresh h).1⟩
  | step e hw ih =>
    obtain ⟨ls, hlog, heff⟩ := World.step_effect _ e
    rw [hlog, List.countP_append] at hn
    rw [hlog, acquisitions_append]
    exact heff.fenceAt (by rw [acquisitions_length]; exact hw.genCount (by omega)) (ih (by omega))
      (by rwa [acquisitions_length])

/-- In every state reached from a fresh authenticator, an invalidation by a connection with a
non-zero generation that clears a non-empty token clears the token of the latest
acquisition, and that acquisition was this connection's. -/
theorem clears_own_acquisition {w : World} (hw : Reachable w)
    (hn : w.log.countP Label.isAcquisition < UInt64.size) {conn : ConnId} {token : String}
    (hslot : w.shared.genID conn ≠ 0) (hcl : w.shared.cleared conn = some token) (hne : token ≠ "") :
    (acquisitions w.log).getLast? = some (conn, token) := by
  have hg := hw.genCount hn
  have hf := hw.fenceAt hn
  have hm : mayInvalidate w.shared.oa (w.shared.genID conn) := by
    by_contra hm; simp [Shared.cleared, hm] at hcl
  have htok : w.shared.oa.accessToken = token := by simpa [Shared.cleared, hm] using hcl
  have heq : (w.shared.genID conn).toNat = (acquisitions w.log).length := by
    have := (uint64_le_iff _ _).1 (hg.slots_le conn)
    have hge := hm.resolve_left hslot
    rw [acquisitions_length, ← hg.counts]; exact le_antisymm this hge
  have howner := hf.owner conn hslot
  rw [heq, ← List.getLast?_eq_getElem?] at howner
  rcases hf.cached with h0 | hlast
  · exact absurd (htok ▸ h0) hne
  · rw [htok] at hlast
    match hl : (acquisitions w.log).getLast?, howner, hlast with
    | some (c, t), howner, hlast => simp_all

theorem clears_own_acquisition_first :
    let oa : OIDCAuthenticator := ⟨fun _ => none, some (.user 0), none, "", "", none, 0⟩
    let srv : Server := ⟨fun _ => none, fun _ => .ok ⟨"T1", none, none⟩⟩
    let w := (((World.fresh oa).step (.start 0 (.auth (some ⟨1⟩)) srv)).step (.advance 0)).step
      (.advance 0)
    Reachable w ∧ w.log.countP Label.isAcquisition < UInt64.size ∧ w.shared.genID 1 ≠ 0 ∧
      w.shared.cleared 1 = some "T1" ∧ (acquisitions w.log).getLast? = some (1, "T1") :=
  have hnew : newOIDCAuthenticator ⟨"", "", fun _ => none, some (.user 0), none⟩ =
      .ok ⟨fun _ => none, some (.user 0), none, "", "", none, 0⟩ := rfl
  have hw := (((Reachable.fresh hnew).step _).step (.advance 0)).step (.advance 0)
  ⟨hw, by decide, by decide, by rfl,
    clears_own_acquisition hw (by decide) (by decide) (by rfl) (by decide)⟩

end GoMongo.Auth
