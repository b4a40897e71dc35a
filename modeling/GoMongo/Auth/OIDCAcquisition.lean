import GoMongo.Auth.OIDCFencing

/-!
# Callback invocations across calls, and what one call can do

`getAccessToken` holds the mutex across the callback and invokes it only on an empty cache. So
once a callback has answered a non-empty token, no connection invokes a callback again until an
invalidation clears that very token (`no_invocation_until_cleared`): the token stays cached, and
every other step either leaves the cache alone or is that clearing.

A call is a fixed chain of locked sections and round trips. Whatever the other calls do between
its steps, an `Auth` makes at most two conversations and one invocation and is done after five of
its own steps; `Reauth` adds one invalidation; a speculative handshake makes at most one
conversation and invokes nothing (`call_within_bounds`).
-/

namespace GoMongo.Auth

deriving instance DecidableEq for Label

theorem append_singleton_eq_append_cons {α : Type} {xs pre post : List α} {l x : α}
    (h : xs ++ [l] = pre ++ x :: post) :
    (post = [] ∧ xs = pre ∧ l = x) ∨ ∃ post', post = post' ++ [l] ∧ xs = pre ++ x :: post' := by
  rcases List.eq_nil_or_concat post with rfl | ⟨post', y, rfl⟩
  · obtain ⟨h1, h2⟩ := List.append_inj' h rfl
    exact .inl ⟨rfl, h1, List.singleton_inj.1 h2⟩
  · simp only [List.concat_eq_append] at h ⊢
    rw [← List.cons_append, ← List.append_assoc] at h
    obtain ⟨h1, h2⟩ := List.append_inj' h rfl
    exact .inr ⟨post', by rw [List.singleton_inj.1 h2], h1⟩

def HoldsAcquired (s : Shared) (ls : List Label) : Prop :=
  ∀ pre conn cb cred mid, ls = pre ++ .invoke conn cb (.ok cred) :: mid → cred.accessToken ≠ "" →
    (∀ c, Label.invalidate c (some cred.accessToken) ∉ mid) → s.oa.accessToken = cred.accessToken

/-- Between an invocation that answered a non-empty token and any later invocation, an
invalidation cleared that token. -/
def NoInvocationWhileCached (ls : List Label) : Prop :=
  ∀ pre conn cb cred mid conn' cb' answer post,
    ls = pre ++ .invoke conn cb (.ok cred) :: mid ++ .invoke conn' cb' answer :: post →
    cred.accessToken ≠ "" → ∃ c, Label.invalidate c (some cred.accessToken) ∈ mid

theorem Effect.invoke_empty {s s' : Shared} {ls : List Label} (h : Effect s s' ls)
    {conn : ConnId} {cb : OIDCCallback} {answer : Except Error OIDCCredential}
    (hl : Label.invoke conn cb answer ∈ ls) : s.oa.accessToken = "" := by
  cases h with
  | refused _ _ _ he | acquire _ _ _ he => exact he
  | _ => simp at hl

theorem HoldsAcquired.of_append {s : Shared} {ls : List Label} (h : HoldsAcquired s ls)
    {l : Label} {pre : List Label} {conn : ConnId} {cb : OIDCCallback} {cred : OIDCCredential}
    {mid : List Label} (hls : ls ++ [l] = pre ++ .invoke conn cb (.ok cred) :: mid)
    (hne : cred.accessToken ≠ "") (hclr : ∀ c, Label.invalidate c (some cred.accessToken) ∉ mid) :
    l = .invoke conn cb (.ok cred) ∨
      (s.oa.accessToken = cred.accessToken ∧ ∀ c, l ≠ .invalidate c (some cred.accessToken)) := by
  rcases append_singleton_eq_append_cons hls with ⟨-, -, rfl⟩ | ⟨mid', rfl, hls'⟩
  · exact .inl rfl
  · refine .inr ⟨h pre conn cb cred mid' hls' hne fun c hc => hclr c (by simp [hc]),
      fun c hc => hclr c (by simp [hc])⟩

theorem HoldsAcquired.effect {s s' : Shared} {ls ls' : List Label} (h : HoldsAcquired s ls)
    (he : Effect s s' ls') : HoldsAcquired s' (ls ++ ls') := by
  intro pre conn cb cred mid hls hne hclr
  cases he with
  | read => exact h pre conn cb cred mid (by simpa using hls) hne hclr
  | present | refused =>
    rcases h.of_append hls hne hclr with hl | ⟨hs, -⟩
    · cases hl
    · exact hs
  | invalidate c =>
    rcases h.of_append hls hne hclr with hl | ⟨hs, hc⟩
    · cases hl
    by_cases hm : mayInvalidate s.oa (s.genID c)
    · exact absurd (by rw [(s.invalidate_of_may c hm).2, hs]) (hc c)
    · rw [(s.invalidate_of_not_may c hm).1, hs]
  | acquire c cb' cred' hempty =>
    rcases h.of_append hls hne hclr with hl | ⟨hs, -⟩
    · simp only [Label.invoke.injEq, Except.ok.injEq] at hl
      rw [← hl.2.2]; rfl
    · exact absurd (hs.symm.trans hempty) hne

theorem NoInvocationWhileCached.effect {s s' : Shared} {ls ls' : List Label}
    (h : NoInvocationWhileCached ls) (hh : HoldsAcquired s ls) (he : Effect s s' ls') :
    NoInvocationWhileCached (ls ++ ls') := by
  intro pre conn cb cred mid conn' cb' answer post hls hne
  obtain rfl | ⟨l, rfl⟩ : ls' = [] ∨ ∃ l, ls' = [l] := by cases he <;> simp
  · exact h pre conn cb cred mid conn' cb' answer post (by simpa using hls) hne
  rcases append_singleton_eq_append_cons hls with ⟨-, hls', rfl⟩ | ⟨post', -, hls'⟩
  · by_contra hno
    push_neg at hno
    have hs := hh pre conn cb cred mid hls' hne hno
    exact hne (hs.symm.trans (he.invoke_empty (List.mem_singleton_self _)))
  · exact h pre conn cb cred mid conn' cb' answer post' hls' hne

theorem World.run_noInvocationWhileCached (w : World) (es : List Event) (ls : List Label)
    (hh : HoldsAcquired w.shared ls) (h : NoInvocationWhileCached ls) :
    HoldsAcquired (w.run es).shared (ls ++ w.newLabels es) ∧
      NoInvocationWhileCached (ls ++ w.newLabels es) := by
  induction es generalizing w ls with
  | nil => simpa [newLabels, run] using ⟨hh, h⟩
  | cons e es ih =>
    obtain ⟨ls', hlog, heff⟩ := w.step_effect e
    rw [w.newLabels_cons e es ls' hlog, ← List.append_assoc]
    exact ih (w.step e) _ (hh.effect heff) (h.effect hh heff)

/-- Over any interleaving of calls from any state: once a callback invocation has answered a
non-empty token, no callback is invoked again, by any connection and with any callback, before
an invalidation has cleared that token. -/
theorem no_invocation_until_cleared (w : World) (es : List Event) {pre mid post : List Label}
    {conn conn' : ConnId} {cb cb' : OIDCCallback} {cred : OIDCCredential}
    {answer : Except Error OIDCCredential}
    (h : w.newLabels es = pre ++ .invoke conn cb (.ok cred) :: mid ++ .invoke conn' cb' answer :: post)
    (hne : cred.accessToken ≠ "") : ∃ c, Label.invalidate c (some cred.accessToken) ∈ mid := by
  have := (w.run_noInvocationWhileCached es [] (fun _ _ _ _ _ h => by simp at h)
    (fun _ _ _ _ _ _ _ _ _ h => by simp at h)).2
  exact this pre conn cb cred mid conn' cb' answer post (by simpa using h) hne

theorem no_invocation_until_cleared_reacquire :
    let oa : OIDCAuthenticator := ⟨fun _ => none, some (.user 0), none, "", "", none, 0⟩
    let first : Server := ⟨fun _ => none, fun _ => .ok ⟨"T1", none, none⟩⟩
    let second : Server :=
      ⟨fun n => if n = 0 then some rejected else none, fun _ => .ok ⟨"T2", none, none⟩⟩
    let es := [.start 0 (.auth (some ⟨1⟩)) first, .advance 0, .advance 0, .advance 0,
      .start 1 (.auth (some ⟨1⟩)) second, .advance 1, .advance 1, .advance 1, .advance 1, .advance 1]
    let mid := [.present 1 "T1" none, .present 1 "T1" (some rejected), .invalidate 1 (some "T1")]
    (World.fresh oa).newLabels es = [] ++ .invoke 1 (.user 0) (.ok ⟨"T1", none, none⟩) :: mid ++
        .invoke 1 (.user 0) (.ok ⟨"T2", none, none⟩) :: [.present 1 "T2" none] ∧
      "T1" ≠ "" ∧ ∃ c, Label.invalidate c (some "T1") ∈ mid := by
  intro oa first second es mid
  have h : (World.fresh oa).newLabels es = [] ++ .invoke 1 (.user 0) (.ok ⟨"T1", none, none⟩) ::
      mid ++ .invoke 1 (.user 0) (.ok ⟨"T2", none, none⟩) :: [.present 1 "T2" none] := by decide
  exact ⟨h, by decide, no_invocation_until_cleared _ _ h (by decide)⟩

/-- `p` is done after at most `n` more of its steps, and shows at most `a` conversations and `b`
invocations on the way, whatever the shared state and the answers at each step. -/
inductive Prog.Within : Nat → Nat → Nat → Prog → Prop
  | done (n a b : Nat) (o : Outcome) : Within n a b (.done o)
  | step {n a b : Nat} {p : Prog}
      (counts : ∀ s srv p' s' srv' ls, p.step s srv = some (p', s', srv', ls) →
        ls.countP Label.isPresent ≤ a ∧ ls.countP Label.isInvoke ≤ b)
      (next : ∀ s srv p' s' srv' ls, p.step s srv = some (p', s', srv', ls) →
        Within n (a - ls.countP Label.isPresent) (b - ls.countP Label.isInvoke) p') :
      Within (n + 1) a b p

namespace Prog.Within

theorem mono {n a b n' a' b' : Nat} {p : Prog} (h : p.Within n a b) (hn : n ≤ n') (ha : a ≤ a')
    (hb : b ≤ b') : p.Within n' a' b' := by
  induction h generalizing n' a' b' with
  | done => exact .done ..
  | step counts _ ih =>
    obtain ⟨n', rfl⟩ : ∃ m, n' = m + 1 := ⟨n' - 1, by omega⟩
    refine .step (fun s srv p' s' srv' ls hs => ?_) fun s srv p' s' srv' ls hs =>
      ih s srv p' s' srv' ls hs (by omega) (by omega) (by omega)
    have := counts s srv p' s' srv' ls hs
    omega

theorem quiet {n a b : Nat} {p : Prog}
    (h : ∀ s srv p' s' srv' ls, p.step s srv = some (p', s', srv', ls) →
      ls.countP Label.isPresent = 0 ∧ ls.countP Label.isInvoke = 0 ∧ p'.Within n a b) :
    p.Within (n + 1) a b :=
  .step (fun s srv p' s' srv' ls hs => by obtain ⟨h1, h2, -⟩ := h s srv p' s' srv' ls hs; omega)
    fun s srv p' s' srv' ls hs => by obtain ⟨h1, h2, hw⟩ := h s srv p' s' srv' ls hs; rwa [h1, h2]

theorem snapshot {n a b : Nat} {k : String → Prog} (h : ∀ x, (k x).Within n a b) :
    (Prog.snapshot k).Within (n + 1) a b :=
  quiet fun _ _ _ _ _ _ hs => by cases hs; exact ⟨rfl, rfl, h _⟩

theorem speculate {n a b : Nat} {k : Option String → Prog} (h : ∀ x, (k x).Within n a b) :
    (Prog.speculate k).Within (n + 1) a b :=
  quiet fun _ _ _ _ _ _ hs => by cases hs; exact ⟨rfl, rfl, h _⟩

theorem invalidate {n a b : Nat} {conn : ConnId} {k : Prog} (h : k.Within n a b) :
    (Prog.invalidate conn k).Within (n + 1) a b :=
  quiet fun _ _ _ _ _ _ hs => by cases hs; exact ⟨rfl, rfl, h⟩

theorem converse {n a b : Nat} {conn : ConnId} {token : String} {k : Option Error → Prog}
    (h : ∀ r, (k r).Within n a b) : (Prog.converse conn token k).Within (n + 1) (a + 1) b :=
  .step (fun _ _ _ _ _ _ hs => by cases hs; simp [Label.isPresent, Label.isInvoke])
    fun _ _ _ _ _ _ hs => by cases hs; simpa [Label.isPresent, Label.isInvoke] using h _

theorem getAccessToken {n a b : Nat} {conn : ConnId} {cb : OIDCCallback}
    {k : Except Error String → Prog} (h : ∀ r, (k r).Within n a b) :
    (Prog.getAccessToken conn cb k).Within (n + 1) a (b + 1) := by
  refine .step (fun s srv p' s' srv' ls hs => ?_) fun s srv p' s' srv' ls hs => ?_ <;>
    simp only [Prog.step] at hs <;> split at hs <;> cases hs
  · simp [Label.isPresent, Label.isInvoke]
  · simp
  · simpa [Label.isPresent, Label.isInvoke] using h _
  · simpa using (h _).mono le_rfl le_rfl (Nat.le_succ b)

end Prog.Within

section Bounds

variable (n a b : Nat)

theorem conversationDone_within (e : Option Error) : (conversationDone e).Within n a b := by
  cases e <;> exact .done ..

theorem doAuthMachine_within (cfg : Config) (cb : OIDCCallback) :
    (doAuthMachine cfg cb).Within (n + 2) (a + 1) (b + 1) :=
  .getAccessToken fun
    | .error _ => .done ..
    | .ok _ => .converse fun e => conversationDone_within n a b e

theorem dispatch_within (oa : OIDCAuthenticator) (cfg : Config) :
    (dispatch oa cfg).Within (n + 2) (a + 1) (b + 1) := by
  rcases dispatch_cases oa cfg with ⟨o, h⟩ | ⟨cb, h⟩ <;> rw [h]
  exacts [.done .., doAuthMachine_within n a b cfg cb]

theorem auth_within (oa : OIDCAuthenticator) (cfg : Option Config) :
    (auth oa cfg).Within (n + 5) (a + 2) (b + 1) := by
  cases cfg with
  | none => exact .done ..
  | some cfg =>
    refine .snapshot fun token => ?_
    split
    · refine .converse fun e => ?_
      cases e with
      | none => exact .done ..
      | some _ => exact .invalidate (dispatch_within n a b oa cfg)
    · exact (dispatch_within (n + 1) a b oa cfg).mono (by omega) (by omega) le_rfl

end Bounds

def Op.maxSteps : Op → Nat
  | .auth _ => 5
  | .reauth _ => 6
  | .speculativeHandshake _ => 2

def Op.maxConversations : Op → Nat
  | .speculativeHandshake _ => 1
  | _ => 2

def Op.maxInvocations : Op → Nat
  | .speculativeHandshake _ => 0
  | _ => 1

theorem Op.prog_within (oa : OIDCAuthenticator) (op : Op) :
    (op.prog oa).Within op.maxSteps op.maxConversations op.maxInvocations := by
  cases op with
  | auth cfg => exact auth_within 0 0 0 oa cfg
  | reauth cfg => exact .invalidate (auth_within 0 0 0 oa (some cfg))
  | speculativeHandshake conn =>
    refine .speculate fun
      | none => .done ..
      | some _ => .converse fun e => conversationDone_within 0 0 0 e

def Event.advances (t : Nat) : Event → Bool
  | .advance t' => t' == t
  | .start .. => false

def World.threadLabels (t : Nat) : World → List Event → List Label
  | _, [] => []
  | w, e :: es =>
    (if e.advances t then (w.step e).log.drop w.log.length else []) ++ (w.step e).threadLabels t es

theorem World.step_calls_of_not_advances {w : World} {t : Nat} {c : Call} (hc : w.calls t = some c)
    {e : Event} (he : e.advances t = false) : (w.step e).calls t = some c := by
  cases e with
  | start t' op srv =>
    simp only [World.step]
    split
    · next hfree =>
      have : t ≠ t' := by rintro rfl; simp [hc] at hfree
      simpa [Function.update_noteq this] using hc
    · exact hc
  | advance t' =>
    have : t ≠ t' := by rintro rfl; simp [Event.advances] at he
    simp only [World.step]
    split
    · exact hc
    · split
      · exact hc
      · simpa [Function.update_noteq this] using hc

theorem World.within_run {w : World} {t : Nat} {p : Prog} {srv : Server} {n a b : Nat}
    (hc : w.calls t = some ⟨p, srv⟩) (hp : p.Within n a b) (es : List Event) :
    (w.threadLabels t es).countP Label.isPresent ≤ a ∧
      (w.threadLabels t es).countP Label.isInvoke ≤ b ∧
      (n ≤ es.countP (Event.advances t) → ∃ o srv, (w.run es).calls t = some ⟨.done o, srv⟩) := by
  induction es generalizing w p srv n a b with
  | nil =>
    refine ⟨by simp [threadLabels], by simp [threadLabels], fun hn => ?_⟩
    cases hp with
    | done => exact ⟨_, srv, hc⟩
    | step => simp at hn
  | cons e es ih =>
    by_cases he : e.advances t
    · obtain rfl : e = .advance t := by cases e <;> simp_all [Event.advances]
      rcases hs : p.step w.shared srv with _ | ⟨p', s', srv', ls⟩
      · obtain ⟨o, rfl⟩ := Prog.step_eq_none.1 hs
        have hw : w.step (.advance t) = w := by simp [World.step, hc, hs]
        obtain ⟨h1, h2, h3⟩ := ih hc (.done 0 a b o)
        simp only [threadLabels, he, if_true, hw, List.drop_length, List.nil_append, run_cons]
        exact ⟨h1, h2, fun _ => h3 (Nat.zero_le _)⟩
      · have hw : w.step (.advance t) =
            ⟨s', Function.update w.calls t (some ⟨p', srv'⟩), w.log ++ ls⟩ := by
          simp [World.step, hc, hs]
        cases hp with
        | done => simp [Prog.step] at hs
        | step counts next =>
          have := counts _ _ _ _ _ _ hs
          obtain ⟨h1, h2, h3⟩ := ih
            (show (w.step (.advance t)).calls t = some ⟨p', srv'⟩ by simp [hw]) (next _ _ _ _ _ _ hs)
          simp only [threadLabels, he, if_true, hw, List.drop_left, List.countP_append,
            run_cons, List.countP_cons] at h1 h2 h3 ⊢
          exact ⟨by omega, by omega, fun hn => h3 (by simp [Event.advances] at hn; omega)⟩
    · obtain ⟨h1, h2, h3⟩ := ih (World.step_calls_of_not_advances hc (by simpa using he)) hp
      simp only [threadLabels, he, if_false, List.nil_append, run_cons, List.countP_cons]
      exact ⟨h1, h2, fun hn => h3 (by simpa [he] using hn)⟩

/-- Over any interleaving, from any state, a call started on a free thread makes at most two
conversations and invokes a callback at most once (a speculative handshake: one conversation and
no invocation), and is done once its thread has taken five steps (`Reauth`: six; the handshake:
two), whatever the other calls do between them. -/
theorem call_within_bounds (w : World) {t : Nat} (op : Op) (srv : Server)
    (hfree : w.calls t = none) (es : List Event) :
    let w₀ := w.step (.start t op srv)
    (w₀.threadLabels t es).countP Label.isPresent ≤ op.maxConversations ∧
      (w₀.threadLabels t es).countP Label.isInvoke ≤ op.maxInvocations ∧
      (op.maxSteps ≤ es.countP (Event.advances t) →
        ∃ o srv', (w₀.run es).calls t = some ⟨.done o, srv'⟩) :=
  World.within_run (show (w.step (.start t op srv)).calls t = some ⟨op.prog w.shared.oa, srv⟩ by
    simp [World.step, hfree]) (Op.prog_within w.shared.oa op) es

theorem call_within_bounds_rejected :
    let oa : OIDCAuthenticator := ⟨fun _ => none, some (.user 0), none, "", "", none, 0⟩
    let srv : Server := ⟨fun _ => some rejected, fun _ => .ok ⟨"T1", none, none⟩⟩
    let op : Op := .auth (some ⟨1⟩)
    let es : List Event := [.advance 0, .start 1 (.speculativeHandshake 2) srv, .advance 1,
      .advance 0, .advance 1, .advance 0, .advance 0, .advance 0]
    let w₀ := (World.fresh oa).step (.start 0 op srv)
    (World.fresh oa).calls 0 = none ∧
      (w₀.threadLabels 0 es).countP Label.isPresent ≤ op.maxConversations ∧
      (w₀.threadLabels 0 es).countP Label.isInvoke ≤ op.maxInvocations ∧
      (op.maxSteps ≤ es.countP (Event.advances 0) →
        ∃ o srv', (w₀.run es).calls 0 = some ⟨.done o, srv'⟩) :=
  ⟨rfl, call_within_bounds _ _ _ rfl _⟩

end GoMongo.Auth
