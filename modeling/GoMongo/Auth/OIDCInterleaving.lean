import GoMongo.Auth.OIDCCalls

/-!
# Calls interleaved on one shared authenticator

A `World` is one `OIDCAuthenticator` shared by any number of connections, with any number of
calls in flight, each a `Prog` with the answers it has still to meet. An `Event` starts an
`Auth`, a `Reauth` or a speculative handshake on a free thread, or lets one thread take its
next atomic step; any interleaving is a list of events. `log` records every step's labels.
A call that runs with no other in between ends as `Prog.runAlone` says (`World.run_alone`),
which is how `auth_runAlone` describes `Auth` on its own.

`Effect` says once what a step can do to the shared state. The generation laws of
`tokenGenID` and the token accounting are derived from it, for every run.
-/

namespace GoMongo.Auth

structure Call where
  prog : Prog
  server : Server

structure World where
  shared : Shared
  calls : Nat → Option Call
  log : List Label

inductive Op
  | auth (cfg : Option Config)
  | reauth (cfg : Config)
  | speculativeHandshake (conn : ConnId)

def Op.prog (oa : OIDCAuthenticator) : Op → Prog
  | .auth cfg => GoMongo.Auth.auth oa cfg
  | .reauth cfg => GoMongo.Auth.reauth oa cfg
  | .speculativeHandshake conn => GoMongo.Auth.speculativeHandshake conn

inductive Event
  | start (t : Nat) (op : Op) (srv : Server)
  | advance (t : Nat)

/-- A call starts only on a free thread; a thread with no call, or a finished one, does not
move. -/
def World.step (w : World) : Event → World
  | .start t op srv =>
    if (w.calls t).isNone then
      { w with calls := Function.update w.calls t (some ⟨op.prog w.shared.oa, srv⟩) }
    else w
  | .advance t =>
    match w.calls t with
    | none => w
    | some call =>
      match call.prog.step w.shared call.server with
      | none => w
      | some (p, s, srv, ls) => ⟨s, Function.update w.calls t (some ⟨p, srv⟩), w.log ++ ls⟩

def World.run (w : World) : List Event → World
  | [] => w
  | e :: es => (w.step e).run es

def World.fresh (oa : OIDCAuthenticator) : World := ⟨⟨oa, fun _ => 0⟩, fun _ => none, []⟩

inductive Reachable : World → Prop
  | fresh {cred : Cred} {oa : OIDCAuthenticator} :
      newOIDCAuthenticator cred = .ok oa → Reachable (World.fresh oa)
  | step {w : World} (e : Event) : Reachable w → Reachable (w.step e)

theorem newOIDCAuthenticator_fresh {cred : Cred} {oa : OIDCAuthenticator}
    (h : newOIDCAuthenticator cred = .ok oa) : oa.accessToken = "" ∧ oa.tokenGenID = 0 := by
  simp only [newOIDCAuthenticator] at h
  split at h
  · cases h
  · split at h <;> (try split at h) <;> (try split at h) <;> cases h <;> exact ⟨rfl, rfl⟩

/-- What a step can do to the shared state, with the labels it shows: nothing (a read, or
the cached token handed out), a conversation, a fenced invalidation, a failed callback, or
an acquisition. A callback is invoked only on an empty cache. -/
inductive Effect (s : Shared) : Shared → List Label → Prop
  | read : Effect s s []
  | present (conn : ConnId) (token : String) (reply : Option Error) :
      Effect s s [.present conn token reply]
  | invalidate (conn : ConnId) : Effect s (s.invalidate conn) [.invalidate conn (s.cleared conn)]
  | refused (conn : ConnId) (cb : OIDCCallback) (err : Error) :
      s.oa.accessToken = "" → Effect s s [.invoke conn cb (.error err)]
  | acquire (conn : ConnId) (cb : OIDCCallback) (cred : OIDCCredential) :
      s.oa.accessToken = "" → Effect s (s.acquire conn cred) [.invoke conn cb (.ok cred)]

theorem Prog.step_effect {p p' : Prog} {s s' : Shared} {srv srv' : Server} {ls : List Label}
    (h : p.step s srv = some (p', s', srv', ls)) : Effect s s' ls := by
  cases p with
  | done o => cases h
  | snapshot k | speculate k => cases h; exact .read
  | invalidate conn k => cases h; exact .invalidate conn
  | converse conn token k => cases h; exact .present conn token _
  | getAccessToken conn cb k =>
    by_cases he : s.oa.accessToken = ""
    · simp only [step, he, if_true] at h
      cases h
      cases ha : srv.answer 0 with
      | error err => simpa [Shared.getAccessToken_error _ _ _ he] using .refused conn cb err he
      | ok cred => simpa [Shared.getAccessToken_ok _ _ _ he] using .acquire conn cb cred he
    · simp only [step, he, if_false] at h
      cases h
      simpa [Shared.getAccessToken_cached _ _ _ he] using .read

theorem World.step_cases (w : World) (e : Event) :
    w.step e = w ∨
    (∃ (t : Nat) (op : Op) (srv : Server), w.calls t = none ∧
      w.step e = { w with calls := Function.update w.calls t (some ⟨op.prog w.shared.oa, srv⟩) }) ∨
    (∃ t call p s srv ls, w.calls t = some call ∧ call.prog.step w.shared call.server = some (p, s, srv, ls) ∧
      w.step e = ⟨s, Function.update w.calls t (some ⟨p, srv⟩), w.log ++ ls⟩) := by
  cases e with
  | start t op srv =>
    simp only [step]
    split
    · exact .inr (.inl ⟨t, op, srv, Option.isNone_iff_eq_none.1 ‹_›, rfl⟩)
    · exact .inl rfl
  | advance t =>
    rcases hc : w.calls t with _ | call
    · exact .inl (by simp [step, hc])
    · rcases hs : call.prog.step w.shared call.server with _ | ⟨p, s, srv, ls⟩
      · exact .inl (by simp [step, hc, hs])
      · exact .inr (.inr ⟨t, call, p, s, srv, ls, hc, hs, by simp [step, hc, hs]⟩)

theorem World.step_effect (w : World) (e : Event) :
    ∃ ls, (w.step e).log = w.log ++ ls ∧ Effect w.shared (w.step e).shared ls := by
  rcases w.step_cases e with h | ⟨t, op, srv, -, h⟩ | ⟨t, call, p, s, srv, ls, -, hs, h⟩ <;> rw [h]
  · exact ⟨[], by simp, .read⟩
  · exact ⟨[], by simp, .read⟩
  · exact ⟨ls, rfl, Prog.step_effect hs⟩

theorem World.run_cons (w : World) (e : Event) (es : List Event) :
    w.run (e :: es) = (w.step e).run es := rfl

theorem World.log_prefix_run (w : World) (es : List Event) : w.log <+: (w.run es).log := by
  induction es generalizing w with
  | nil => exact List.prefix_refl _
  | cons e es ih =>
    obtain ⟨ls, hlog, -⟩ := w.step_effect e
    exact (hlog ▸ List.prefix_append w.log ls).trans (ih (w.step e))

theorem Shared.invalidate_of_may (s : Shared) (conn : ConnId) (h : mayInvalidate s.oa (s.genID conn)) :
    (s.invalidate conn).oa.accessToken = "" ∧ s.cleared conn = some s.oa.accessToken := by
  simp [invalidate, cleared, invalidateAccessToken, h]

theorem Shared.invalidate_of_not_may (s : Shared) (conn : ConnId)
    (h : ¬ mayInvalidate s.oa (s.genID conn)) : s.invalidate conn = s ∧ s.cleared conn = none := by
  simp [invalidate, cleared, invalidateAccessToken, h]

/-- After some steps of thread `t` alone, its call is done with outcome `r.1`, the shared
state is `r.2.1`, and the log has grown by `r.2.2`. -/
def World.EndsAs (w : World) (t : Nat) (r : Outcome × Shared × List Label) : Prop :=
  ∃ n srv, (w.run (List.replicate n (.advance t))).calls t = some ⟨.done r.1, srv⟩ ∧
    (w.run (List.replicate n (.advance t))).shared = r.2.1 ∧
    (w.run (List.replicate n (.advance t))).log = w.log ++ r.2.2

theorem World.endsAs_of_step {w : World} {t : Nat} {p p' : Prog} {srv srv' : Server}
    {s' : Shared} {ls : List Label} (hc : w.calls t = some ⟨p, srv⟩)
    (hs : p.step w.shared srv = some (p', s', srv', ls))
    (ih : ∀ w : World, w.calls t = some ⟨p', srv'⟩ → w.EndsAs t (p'.runAlone w.shared srv')) :
    w.EndsAs t (p.runAlone w.shared srv) := by
  have hw : w.step (.advance t) = ⟨s', Function.update w.calls t (some ⟨p', srv'⟩), w.log ++ ls⟩ := by
    simp [step, hc, hs]
  obtain ⟨n, srv'', h1, h2, h3⟩ := ih (w.step (.advance t)) (by simp [hw])
  rw [Prog.runAlone_step hs]
  refine ⟨n + 1, srv'', ?_, ?_, ?_⟩ <;>
    simp only [List.replicate_succ, run_cons] <;> simp only [hw] at h1 h2 h3 ⊢
  · exact h1
  · exact h2
  · rw [h3, List.append_assoc]

theorem World.run_alone {w : World} {t : Nat} {p : Prog} {srv : Server}
    (hc : w.calls t = some ⟨p, srv⟩) : w.EndsAs t (p.runAlone w.shared srv) := by
  induction p generalizing w srv with
  | done o => exact ⟨0, srv, hc, rfl, by simp [Prog.runAlone, run]⟩
  | snapshot k ih => exact endsAs_of_step hc rfl fun w h => ih _ h
  | speculate k ih => exact endsAs_of_step hc rfl fun w h => ih _ h
  | invalidate conn k ih => exact endsAs_of_step hc rfl fun w h => ih h
  | converse conn token k ih => exact endsAs_of_step hc rfl fun w h => ih _ h
  | getAccessToken conn cb k ih =>
    let r := w.shared.getAccessToken conn (srv.answer 0)
    by_cases he : w.shared.oa.accessToken = ""
    · have hs : (Prog.getAccessToken conn cb k).step w.shared srv =
          some (k r.1, r.2, srv.nextAnswer, [.invoke conn cb (srv.answer 0)]) := by
        simp [Prog.step, he, r]
      exact endsAs_of_step hc hs fun w h => ih _ h
    · have hs : (Prog.getAccessToken conn cb k).step w.shared srv = some (k r.1, r.2, srv, []) := by
        simp [Prog.step, he, r]
      exact endsAs_of_step hc hs fun w h => ih _ h

theorem World.start_run_alone (w : World) {t : Nat} (op : Op) (srv : Server)
    (hfree : w.calls t = none) :
    (w.step (.start t op srv)).EndsAs t ((op.prog w.shared.oa).runAlone w.shared srv) := by
  have hs : (w.step (.start t op srv)).shared = w.shared := by simp [step, hfree]
  have := run_alone (show (w.step (.start t op srv)).calls t = some ⟨op.prog w.shared.oa, srv⟩ by
    simp [step, hfree])
  rwa [hs] at this

/-- `Auth` on connection `c`, started on a free thread and run with no other call in between,
from any state with any replies and answers: at most two conversations and one invocation; a
successful cached-token conversation changes nothing; otherwise the state is at most one fenced
invalidation (only after a non-empty snapshot), followed, where an invocation answered without
error, by the all-or-nothing update with its credential and the next generation. -/
theorem auth_runAlone (s : Shared) (srv : Server) (c : ConnId) :
    let r := (auth s.oa (some ⟨c⟩)).runAlone s srv
    let fenced := if s.oa.accessToken ≠ "" then s.invalidate c else s
    (∀ (w : World) (t : Nat), w.shared = s → w.calls t = none →
      (w.step (.start t (.auth (some ⟨c⟩)) srv)).EndsAs t r) ∧
    (r.2.2.countP Label.isPresent ≤ 2 ∧ r.2.2.countP Label.isInvoke ≤ 1) ∧
    (s.oa.accessToken ≠ "" → srv.reply 0 = none → r.2.2.countP Label.isInvoke = 0 ∧ r.2.1 = s) ∧
    (¬ (s.oa.accessToken ≠ "" ∧ srv.reply 0 = none) →
      (acquired r.2.2 = none → r.2.1 = fenced) ∧
      ∀ cred, acquired r.2.2 = some cred →
        r.2.1.oa = { fenced.oa with accessToken := cred.accessToken,
                                    tokenGenID := fenced.oa.tokenGenID + 1,
                                    refreshToken := cred.refreshToken.or fenced.oa.refreshToken } ∧
        r.2.1.genID = Function.update fenced.genID c (fenced.oa.tokenGenID + 1)) := by
  intro r fenced
  obtain ⟨hcount, hcached, hafter⟩ := auth_runAlone_cases s srv c
  refine ⟨fun w t hs hfree => ?_, hcount, hcached, fun h => ?_⟩
  · subst hs
    exact w.start_run_alone (.auth (some ⟨c⟩)) srv hfree
  · have hr : r.2.1 = fenced.after c (acquired r.2.2) := hafter h
    refine ⟨fun hnone => by rw [hr, hnone]; rfl, fun cred hcred => ?_⟩
    rw [hr, hcred]
    exact ⟨rfl, rfl⟩

def Label.isAcquisition : Label → Bool
  | .invoke _ _ (.ok _) => true
  | _ => false

section Generation

variable {s s' : Shared} {ls : List Label}

theorem Shared.invalidate_tokenGenID (s : Shared) (conn : ConnId) :
    (s.invalidate conn).oa.tokenGenID = s.oa.tokenGenID :=
  invalidateAccessToken_tokenGenID _ _

theorem Shared.invalidate_genID_le (s : Shared) (conn c : ConnId) :
    (s.invalidate conn).genID c ≤ s.genID c := by
  simp only [invalidate, invalidateAccessToken]
  by_cases hc : c = conn
  · subst hc; split <;> simp [uint64_le_iff]
  · simp [Function.update_noteq hc]

/-- While the counter has not wrapped: it counts the `n` acquisitions so far, and no
connection's generation is ahead of it. -/
structure GenCount (s : Shared) (n : Nat) : Prop where
  counts : s.oa.tokenGenID.toNat = n
  slots_le : ∀ c, s.genID c ≤ s.oa.tokenGenID

theorem Effect.genCount {n : Nat} (h : Effect s s' ls) (hs : GenCount s n)
    (hn : n + ls.countP Label.isAcquisition < UInt64.size) :
    GenCount s' (n + ls.countP Label.isAcquisition) := by
  cases h with
  | read | present | refused => simpa [Label.isAcquisition] using hs
  | invalidate conn =>
    exact ⟨by simpa [Shared.invalidate_tokenGenID] using hs.counts, fun c =>
      (uint64_le_iff _ _).2 (((Shared.invalidate_genID_le s conn c)).trans
        (by simpa [Shared.invalidate_tokenGenID] using hs.slots_le c))⟩
  | acquire conn cb cred =>
    simp only [List.countP_singleton, Label.isAcquisition, if_true] at hn ⊢
    have hsucc := uint64_toNat_succ s.oa.tokenGenID (by rw [hs.counts]; exact hn)
    refine ⟨by simp [Shared.acquire, hsucc, hs.counts], fun c => ?_⟩
    by_cases hc : c = conn
    · subst hc; simp [Shared.acquire, uint64_le_iff]
    · have := (uint64_le_iff _ _).1 (hs.slots_le c)
      simp only [Shared.acquire, Function.update_noteq hc, store_tokenGenID, uint64_le_iff, hsucc]
      omega

theorem Effect.tokenGenID_cases (h : Effect s s' ls) :
    s'.oa.tokenGenID = s.oa.tokenGenID ∨
      ∃ conn cb cred, ls = [.invoke conn cb (.ok cred)] ∧ s' = s.acquire conn cred := by
  cases h with
  | invalidate conn => exact .inl (Shared.invalidate_tokenGenID s conn)
  | acquire conn cb cred => exact .inr ⟨conn, cb, cred, rfl, rfl⟩
  | _ => exact .inl rfl

theorem Effect.tokenGenID_of_invalidate {conn : ConnId} {cleared : Option String}
    (h : Effect s s' [.invalidate conn cleared]) : s'.oa.tokenGenID = s.oa.tokenGenID := by
  cases h
  exact Shared.invalidate_tokenGenID _ _

theorem Reachable.genCount {w : World} (hw : Reachable w)
    (hn : w.log.countP Label.isAcquisition < UInt64.size) :
    GenCount w.shared (w.log.countP Label.isAcquisition) := by
  induction hw with
  | fresh h =>
    obtain ⟨-, hg⟩ := newOIDCAuthenticator_fresh h
    exact ⟨by simp [World.fresh, hg], fun _ => by simp [World.fresh, hg, uint64_le_iff]⟩
  | step e _ ih =>
    obtain ⟨ls, hlog, heff⟩ := World.step_effect _ e
    rw [hlog, List.countP_append] at hn ⊢
    exact heff.genCount (ih (by omega)) hn

end Generation

def Label.acquiresToken : Label → Bool
  | .invoke _ _ (.ok cred) => cred.accessToken ≠ ""
  | _ => false

def Label.clearsToken : Label → Bool
  | .invalidate _ (some token) => token ≠ ""
  | _ => false

def Shared.cachedTokens (s : Shared) : Nat := if s.oa.accessToken = "" then 0 else 1

theorem Effect.balance {s s' : Shared} {ls : List Label} (h : Effect s s' ls) :
    ls.countP Label.acquiresToken + s.cachedTokens =
      ls.countP Label.clearsToken + s'.cachedTokens := by
  cases h with
  | invalidate conn =>
    by_cases hm : mayInvalidate s.oa (s.genID conn)
    · obtain ⟨h1, h2⟩ := s.invalidate_of_may conn hm
      by_cases he : s.oa.accessToken = "" <;>
        simp [Shared.cachedTokens, Label.acquiresToken, Label.clearsToken, h1, h2, he]
    · obtain ⟨h1, h2⟩ := s.invalidate_of_not_may conn hm
      simp [Shared.cachedTokens, Label.acquiresToken, Label.clearsToken, h1, h2]
  | acquire conn cb cred he =>
    by_cases hc : cred.accessToken = "" <;>
      simp [Shared.cachedTokens, Label.acquiresToken, Label.clearsToken, Shared.acquire, he, hc]
  | _ => simp [Label.acquiresToken, Label.clearsToken]

def World.newLabels (w : World) (es : List Event) : List Label := (w.run es).log.drop w.log.length

theorem World.newLabels_cons (w : World) (e : Event) (es : List Event) (ls : List Label)
    (hlog : (w.step e).log = w.log ++ ls) :
    w.newLabels (e :: es) = ls ++ (w.step e).newLabels es := by
  obtain ⟨rest, hrest⟩ := (w.step e).log_prefix_run es
  simp [newLabels, run_cons, ← hrest, hlog, List.drop_append]

theorem World.run_balance (w : World) (es : List Event) :
    (w.newLabels es).countP Label.acquiresToken + w.shared.cachedTokens =
      (w.newLabels es).countP Label.clearsToken + (w.run es).shared.cachedTokens := by
  induction es generalizing w with
  | nil => simp [newLabels, run]
  | cons e es ih =>
    obtain ⟨ls, hlog, heff⟩ := w.step_effect e
    have := heff.balance
    have := ih (w.step e)
    rw [w.newLabels_cons e es ls hlog, List.countP_append, List.countP_append, run_cons]
    omega

def Prog.held : Prog → Option String
  | .converse _ token _ => some token
  | _ => none

inductive Prog.IsPoint : Prog → Prop
  | start (oa : OIDCAuthenticator) (op : Op) : IsPoint (op.prog oa)
  | cached (oa : OIDCAuthenticator) (cfg : Config) (token : String) :
      IsPoint (.converse cfg.connection token (cachedConversationDone oa cfg))
  | invalidate (oa : OIDCAuthenticator) (cfg : Config) :
      IsPoint (.invalidate cfg.connection (dispatch oa cfg))
  | dispatch (oa : OIDCAuthenticator) (cfg : Config) : IsPoint (dispatch oa cfg)
  | converse (conn : ConnId) (token : String) : IsPoint (.converse conn token conversationDone)
  | done (o : Outcome) : IsPoint (.done o)

theorem Op.prog_held (oa : OIDCAuthenticator) (op : Op) : (op.prog oa).held = none := by
  cases op with
  | auth cfg => cases cfg <;> rfl
  | _ => rfl

theorem dispatch_cases (oa : OIDCAuthenticator) (cfg : Config) :
    (∃ o, dispatch oa cfg = .done o) ∨ ∃ cb, dispatch oa cfg = doAuthMachine cfg cb := by
  unfold dispatch
  split
  · exact .inl ⟨_, rfl⟩
  · exact .inr ⟨_, rfl⟩
  · split
    · exact .inl ⟨_, rfl⟩
    · exact .inr ⟨_, rfl⟩
    · exact .inl ⟨_, rfl⟩

theorem dispatch_held (oa : OIDCAuthenticator) (cfg : Config) : (dispatch oa cfg).held = none := by
  rcases dispatch_cases oa cfg with ⟨o, h⟩ | ⟨cb, h⟩ <;> rw [h] <;> rfl

def HeldAfter (s : Shared) (ls : List Label) (p : Prog) : Prop :=
  ∀ token, p.held = some token →
    token = s.oa.accessToken ∨ ∃ conn cb cred, ls = [.invoke conn cb (.ok cred)] ∧ token = cred.accessToken

theorem doAuthMachine_step {cfg : Config} {cb : OIDCCallback} {p' : Prog} {s s' : Shared}
    {srv srv' : Server} {ls : List Label}
    (h : (doAuthMachine cfg cb).step s srv = some (p', s', srv', ls)) :
    p'.IsPoint ∧ HeldAfter s ls p' := by
  have hpt : ∀ r : Except Error String, (match r with
      | .error err => Prog.done (.failed err)
      | .ok accessToken => .converse cfg.connection accessToken conversationDone).IsPoint := by
    rintro (e | t) <;> constructor
  by_cases he : s.oa.accessToken = ""
  · simp only [doAuthMachine, Prog.step, he, if_true] at h
    cases h
    refine ⟨hpt _, fun token ht => ?_⟩
    cases ha : srv.answer 0 with
    | error err => simp [Shared.getAccessToken_error _ _ _ he, ha, Prog.held] at ht
    | ok cred =>
      simp [Shared.getAccessToken_ok _ _ _ he, ha, Prog.held] at ht
      exact .inr ⟨_, _, _, rfl, ht.symm⟩
  · simp only [doAuthMachine, Prog.step, he, if_false] at h
    cases h
    refine ⟨hpt _, fun token ht => ?_⟩
    simp [Shared.getAccessToken_cached _ _ _ he, Prog.held] at ht
    exact .inl ht.symm

theorem Prog.IsPoint.of_step {p p' : Prog} {s s' : Shared} {srv srv' : Server}
    {ls : List Label} (hp : p.IsPoint) (h : p.step s srv = some (p', s', srv', ls)) :
    p'.IsPoint ∧ HeldAfter s ls p' := by
  cases hp with
  | start oa op =>
    cases op with
    | auth cfg =>
      cases cfg with
      | none => cases h
      | some cfg =>
        simp only [Op.prog, auth, Prog.step, Option.some.injEq, Prod.mk.injEq] at h
        obtain ⟨rfl, rfl, rfl, rfl⟩ := h
        by_cases he : s.oa.accessToken = ""
        · simpa [he, HeldAfter, dispatch_held] using IsPoint.dispatch oa cfg
        · simpa [he, HeldAfter, Prog.held] using IsPoint.cached oa cfg s.oa.accessToken
    | reauth cfg =>
      simp only [Op.prog, reauth, Prog.step, Option.some.injEq, Prod.mk.injEq] at h
      obtain ⟨rfl, -, -, rfl⟩ := h
      exact ⟨.start oa (.auth (some cfg)), fun _ ht => by simp [auth, Prog.held] at ht⟩
    | speculativeHandshake conn =>
      simp only [Op.prog, speculativeHandshake, Prog.step, Option.some.injEq,
        Prod.mk.injEq] at h
      obtain ⟨rfl, rfl, rfl, rfl⟩ := h
      unfold createSpeculativeConversation
      by_cases he : s.oa.accessToken = ""
      · simpa [he, HeldAfter, Prog.held] using IsPoint.done .skipped
      · simpa [he, HeldAfter, Prog.held] using IsPoint.converse conn s.oa.accessToken
  | cached oa cfg token =>
    simp only [Prog.step, Option.some.injEq, Prod.mk.injEq] at h
    obtain ⟨rfl, -, -, rfl⟩ := h
    cases srv.reply 0
    · exact ⟨.done _, by simp [HeldAfter, cachedConversationDone, Prog.held]⟩
    · exact ⟨.invalidate oa cfg, by simp [HeldAfter, cachedConversationDone, Prog.held]⟩
  | invalidate oa cfg =>
    simp only [Prog.step, Option.some.injEq, Prod.mk.injEq] at h
    obtain ⟨rfl, -, -, rfl⟩ := h
    exact ⟨.dispatch oa cfg, by simp [HeldAfter, dispatch_held]⟩
  | dispatch oa cfg =>
    rcases dispatch_cases oa cfg with ⟨o, hd⟩ | ⟨cb, hd⟩
    · rw [hd] at h; cases h
    · rw [hd] at h; exact doAuthMachine_step h
  | converse conn token =>
    simp only [Prog.step, Option.some.injEq, Prod.mk.injEq] at h
    obtain ⟨rfl, -, -, rfl⟩ := h
    cases srv.reply 0 <;> exact ⟨.done _, by simp [HeldAfter, conversationDone, Prog.held]⟩
  | done o => cases h

theorem Prog.held_of_present {p p' : Prog} {s s' : Shared} {srv srv' : Server} {ls : List Label}
    {conn : ConnId} {token : String} {reply : Option Error}
    (h : p.step s srv = some (p', s', srv', ls)) (hl : Label.present conn token reply ∈ ls) :
    p.held = some token := by
  cases p with
  | converse c t k => cases h; simp at hl; rw [hl.2.1]; rfl
  | getAccessToken c cb k =>
    simp only [step] at h
    split at h <;> cases h <;> simp at hl
  | done o => cases h
  | _ => cases h; simp at hl

def Acquired (ls : List Label) (token : String) : Prop :=
  ∃ conn cb cred, Label.invoke conn cb (.ok cred) ∈ ls ∧ cred.accessToken = token

theorem Acquired.append {ls : List Label} {token : String} (h : Acquired ls token)
    (ls' : List Label) : Acquired (ls ++ ls') token := by
  obtain ⟨conn, cb, cred, hm, rfl⟩ := h
  exact ⟨conn, cb, cred, List.mem_append_left _ hm, rfl⟩

theorem Effect.cached_token {s s' : Shared} {ls : List Label} (h : Effect s s' ls) :
    s'.oa.accessToken = "" ∨ s'.oa.accessToken = s.oa.accessToken ∨
      ∃ conn cb cred, ls = [.invoke conn cb (.ok cred)] ∧ s'.oa.accessToken = cred.accessToken := by
  cases h with
  | invalidate conn =>
    by_cases hm : mayInvalidate s.oa (s.genID conn)
    · exact .inl (s.invalidate_of_may conn hm).1
    · exact .inr (.inl (by rw [(s.invalidate_of_not_may conn hm).1]))
  | acquire conn cb cred => exact .inr (.inr ⟨conn, cb, cred, rfl, rfl⟩)
  | _ => exact .inr (.inl rfl)

theorem calls_update_eq_some {calls : Nat → Option Call} {t t' : Nat} {new c : Call}
    (h : Function.update calls t (some new) t' = some c) : (t' = t ∧ c = new) ∨ calls t' = some c := by
  by_cases ht : t' = t
  · subst ht
    exact .inl ⟨rfl, (Option.some.inj (by simpa using h)).symm⟩
  · rw [Function.update_noteq ht] at h
    exact .inr h

/-- Every token in play is empty or was acquired among `ls`: the cached one, those the calls
hold, and those presented; and every call stands at a point. -/
structure Provenance (w : World) (ls : List Label) : Prop where
  points : ∀ t call, w.calls t = some call → call.prog.IsPoint
  cached : w.shared.oa.accessToken = "" ∨ Acquired ls w.shared.oa.accessToken
  held : ∀ t call token, w.calls t = some call → call.prog.held = some token →
    token = "" ∨ Acquired ls token
  presented : ∀ conn token reply, Label.present conn token reply ∈ ls →
    token = "" ∨ Acquired ls token

theorem Provenance.step {w : World} {ls : List Label} (h : Provenance w ls) (e : Event) :
    ∃ ls', (w.step e).log = w.log ++ ls' ∧ Provenance (w.step e) (ls ++ ls') := by
  rcases w.step_cases e with he | ⟨t, op, srv, -, he⟩ | ⟨t, call, p, s, srv, ls', hc, hs, he⟩
  · exact ⟨[], by simp [he], by simpa [he] using h⟩
  · refine ⟨[], by simp [he], ?_⟩
    rw [he, List.append_nil]
    refine ⟨fun t' call hc => ?_, h.cached, fun t' call token hc ht => ?_, h.presented⟩
    · rcases calls_update_eq_some hc with ⟨-, rfl⟩ | hc
      exacts [.start _ op, h.points t' call hc]
    · rcases calls_update_eq_some hc with ⟨-, rfl⟩ | hc
      · rw [Op.prog_held] at ht; cases ht
      · exact h.held t' call token hc ht
  · refine ⟨ls', by simp [he], ?_⟩
    rw [he]
    have mono : ∀ token, token = "" ∨ Acquired ls token → token = "" ∨ Acquired (ls ++ ls') token :=
      fun _ => Or.imp_right (·.append ls')
    have fresh : ∀ conn cb cred, ls' = [.invoke conn cb (.ok cred)] →
        cred.accessToken = "" ∨ Acquired (ls ++ ls') cred.accessToken := fun conn cb cred hl => by
      by_cases hc : cred.accessToken = ""
      · exact .inl hc
      · exact .inr ⟨conn, cb, cred, by simp [hl], rfl⟩
    obtain ⟨hpt, hheld⟩ := (h.points t call hc).of_step hs
    refine ⟨fun t' c hc' => ?_, ?_, fun t' c token hc' ht => ?_, fun conn token reply hm => ?_⟩
    · rcases calls_update_eq_some hc' with ⟨-, rfl⟩ | hc'
      exacts [hpt, h.points t' c hc']
    · rcases (Prog.step_effect hs).cached_token with he | he | ⟨conn, cb, cred, hl, he⟩
      · exact .inl he
      · rw [he]; exact mono _ h.cached
      · rw [he]; exact fresh conn cb cred hl
    · rcases calls_update_eq_some hc' with ⟨-, rfl⟩ | hc'
      · rcases hheld token ht with rfl | ⟨conn, cb, cred, hl, rfl⟩
        exacts [mono _ h.cached, fresh conn cb cred hl]
      · exact mono _ (h.held t' c token hc' ht)
    · rcases List.mem_append.1 hm with hm | hm
      · exact mono _ (h.presented conn token reply hm)
      · exact mono _ (h.held t call token hc (Prog.held_of_present hs hm))

theorem World.run_provenance (w : World) (es : List Event) {ls : List Label}
    (h : Provenance w ls) : Provenance (w.run es) (ls ++ w.newLabels es) := by
  induction es generalizing w ls with
  | nil => simpa [World.newLabels, World.run] using h
  | cons e es ih =>
    obtain ⟨ls', hlog, h'⟩ := h.step e
    rw [w.newLabels_cons e es ls' hlog, ← List.append_assoc]
    exact ih (w.step e) h'

theorem Shared.cachedTokens_le (s : Shared) : s.cachedTokens ≤ 1 := by
  unfold cachedTokens; split <;> omega

theorem countP_le_one_eq {ls : List Label} {p : Label → Bool} {a b : Label}
    (h : ls.countP p ≤ 1) (ha : a ∈ ls) (hb : b ∈ ls) (hpa : p a) (hpb : p b) : a = b := by
  rw [List.countP_eq_length_filter] at h
  have ha' : a ∈ ls.filter p := List.mem_filter.2 ⟨ha, hpa⟩
  have hb' : b ∈ ls.filter p := List.mem_filter.2 ⟨hb, hpb⟩
  match hf : ls.filter p, ha', hb' with
  | [x], ha', hb' => simp at ha' hb'; rw [ha', hb']
  | [], ha', _ => cases ha'
  | _ :: _ :: _, _, _ => rw [hf] at h; simp at h

/-- Over any interleaving of calls from any state, callback answers carrying a non-empty
token are at most one more than the invalidations that cleared a non-empty token. From an
empty cache with no call in flight, every non-empty token a conversation presents was
answered by the callback during the run; so when no such token is cleared, at most one is
acquired and every conversation that carries a token carries that one. -/
theorem acquiredTokens_le_clearings_add_one (w : World) (es : List Event) :
    let ls := w.newLabels es
    ls.countP Label.acquiresToken ≤ ls.countP Label.clearsToken + 1 ∧
    (w.shared.oa.accessToken = "" → (∀ t, w.calls t = none) →
      (∀ conn token reply, Label.present conn token reply ∈ ls → token ≠ "" → Acquired ls token) ∧
      (ls.countP Label.clearsToken = 0 → ls.countP Label.acquiresToken ≤ 1 ∧
        ∀ c₁ t₁ r₁ c₂ t₂ r₂, Label.present c₁ t₁ r₁ ∈ ls → Label.present c₂ t₂ r₂ ∈ ls →
          t₁ ≠ "" → t₂ ≠ "" → t₁ = t₂)) := by
  have hbal := w.run_balance es
  have hc := (w.run es).shared.cachedTokens_le
  refine ⟨by omega, fun he hcalls => ?_⟩
  have h0 : Provenance w [] :=
    ⟨fun t c hc => by simp [hcalls t] at hc, .inl he, fun t c _ hc => by simp [hcalls t] at hc,
      fun _ _ _ hm => by cases hm⟩
  have hprov := (w.run_provenance es h0).presented
  simp only [List.nil_append] at hprov
  have hacq : ∀ conn token reply, Label.present conn token reply ∈ w.newLabels es → token ≠ "" →
      Acquired (w.newLabels es) token := fun conn token reply hm hne =>
    (hprov conn token reply hm).resolve_left hne
  refine ⟨hacq, fun hk => ?_⟩
  have hs0 : w.shared.cachedTokens = 0 := by simp [Shared.cachedTokens, he]
  have h1 : (w.newLabels es).countP Label.acquiresToken ≤ 1 := by omega
  refine ⟨h1, fun c₁ t₁ r₁ c₂ t₂ r₂ hm₁ hm₂ hne₁ hne₂ => ?_⟩
  obtain ⟨a₁, b₁, cred₁, hi₁, rfl⟩ := hacq _ _ _ hm₁ hne₁
  obtain ⟨a₂, b₂, cred₂, hi₂, rfl⟩ := hacq _ _ _ hm₂ hne₂
  have := countP_le_one_eq h1 hi₁ hi₂ (by simpa [Label.acquiresToken] using hne₁)
    (by simpa [Label.acquiresToken] using hne₂)
  simp only [Label.invoke.injEq, Except.ok.injEq] at this
  rw [this.2.2]

/-- Two `Auth` calls, one after the other, on a fresh authenticator whose callback answers a
credential with an empty token: both invocations succeed and no token is ever cleared. -/
theorem emptyToken_acquired_twice :
    let oa : OIDCAuthenticator := ⟨fun _ => none, some (.user 0), none, "", "", none, 0⟩
    let srv : Server := ⟨fun _ => none, fun _ => .ok ⟨"", none, none⟩⟩
    let w := (World.fresh oa).run [.start 0 (.auth (some ⟨1⟩)) srv, .advance 0, .advance 0,
      .advance 0, .start 1 (.auth (some ⟨2⟩)) srv, .advance 1, .advance 1, .advance 1]
    w.log.countP Label.isAcquisition = 2 ∧ w.log.countP Label.clearsToken = 0 := by
  decide

def GenerationLaws (w : World) (e : Event) : Prop :=
  let g := w.shared.oa.tokenGenID
  let w' := w.step e
  g ≤ w'.shared.oa.tokenGenID ∧
  (w'.shared.oa.tokenGenID ≠ g →
    w'.shared.oa.tokenGenID.toNat = g.toNat + 1 ∧
    ∃ conn cb cred, w'.log = w.log ++ [.invoke conn cb (.ok cred)] ∧
      w'.shared.oa.accessToken = cred.accessToken ∧
      w'.shared.genID conn = w'.shared.oa.tokenGenID) ∧
  (∀ conn cleared, w'.log = w.log ++ [.invalidate conn cleared] →
    w'.shared.oa.tokenGenID = g) ∧
  (∀ c, w'.shared.genID c ≤ w'.shared.oa.tokenGenID) ∧
  (∀ c, w'.shared.genID c ≠ 0 → w'.shared.oa.tokenGenID ≤ w'.shared.genID c →
    w'.shared.genID c = w'.shared.oa.tokenGenID)

/-- Every step of every run from a freshly constructed authenticator, while fewer than
`2^64 - 1` acquisitions have succeeded, keeps the generation laws. -/
theorem tokenGenID_laws {w : World} (hw : Reachable w) (e : Event)
    (hfew : (w.step e).log.countP Label.isAcquisition < UInt64.size - 1) : GenerationLaws w e := by
  obtain ⟨ls, hlog, heff⟩ := World.step_effect w e
  have hn : w.log.countP Label.isAcquisition + ls.countP Label.isAcquisition < UInt64.size := by
    rw [hlog, List.countP_append] at hfew; omega
  have hw' := heff.genCount (hw.genCount (by omega)) hn
  have hw0 := hw.genCount (by omega)
  refine ⟨(uint64_le_iff _ _).2 (by rw [hw'.counts, hw0.counts]; omega), fun hne => ?_,
    fun conn cleared hl => ?_, hw'.slots_le, fun c _ hle => UInt64.toNat.inj ?_⟩
  · rcases heff.tokenGenID_cases with heq | ⟨conn, cb, cred, rfl, hs⟩
    · exact absurd heq hne
    · refine ⟨by rw [hw'.counts, hw0.counts]; simp [Label.isAcquisition], conn, cb, cred, hlog,
        by simp [hs, Shared.acquire], by simp [hs, Shared.acquire]⟩
  · rw [hlog, List.append_cancel_left_eq] at hl
    subst hl
    exact heff.tokenGenID_of_invalidate
  · have := (uint64_le_iff _ _).1 (hw'.slots_le c)
    have := (uint64_le_iff _ _).1 hle
    omega

theorem tokenGenID_laws_first_acquisition :
    let cred : Cred := ⟨"", "", fun _ => none, some (.user 0), none⟩
    let oa : OIDCAuthenticator := ⟨fun _ => none, some (.user 0), none, "", "", none, 0⟩
    let srv : Server := ⟨fun _ => none, fun _ => .ok ⟨"T1", none, none⟩⟩
    let w := ((World.fresh oa).step (.start 0 (.auth (some ⟨7⟩)) srv)).step (.advance 0)
    newOIDCAuthenticator cred = .ok oa ∧ Reachable w ∧
      (w.step (.advance 0)).log.countP Label.isAcquisition < UInt64.size - 1 ∧
      GenerationLaws w (.advance 0) :=
  have hnew : newOIDCAuthenticator ⟨"", "", fun _ => none, some (.user 0), none⟩ =
      .ok ⟨fun _ => none, some (.user 0), none, "", "", none, 0⟩ := rfl
  have hw := (Reachable.fresh hnew).step _ |>.step (.advance 0)
  ⟨hnew, hw, by decide, tokenGenID_laws hw (.advance 0) (by decide)⟩

end GoMongo.Auth
