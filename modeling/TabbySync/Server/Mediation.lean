import TabbySync.Server.Handler

/-! # Complete mediation

For every request the chain either answers without the mux, or calls it once: for a health
probe, or for a valid token, and then with the token's user, the client's body and one
token less in that user's bucket. The decision and the call do not depend on the mux. -/

namespace TabbySync.Server
open TabbySync.Library TabbySync.Library.Text TabbySync.Auth

variable {σ : Type}

/-! ## What each middleware does with a call -/

theorem securityHeaders_passes (c : Call σ) :
    ∃ w, Wrapper.Passes securityHeaders c { c with writer := w } id := ⟨_, fun _ => rfl⟩

theorem cors_cases (c : Call σ) :
    (c.request.method = "OPTIONS" ∧ ∃ w, Wrapper.Answers cors c (answer c w)) ∨
      (c.request.method ≠ "OPTIONS" ∧ ∃ w, Wrapper.Passes cors c { c with writer := w } id) := by
  by_cases h : c.request.method = "OPTIONS"
  · exact .inl ⟨h, _, fun _ => if_pos h⟩
  · exact .inr ⟨h, _, fun _ => if_neg h⟩

theorem trustedProxy_passes (N : Net) (c : Call σ) :
    ∃ addr, Wrapper.Passes (trustedProxy N) c
      { c with request := { c.request with remoteAddr := addr } } id := by
  by_cases hskip : (c.request.xForwardedFor = "" || !isTrusted N c.request.remoteAddr) = true
  · exact ⟨c.request.remoteAddr, fun _ => if_pos hskip⟩
  · by_cases hbad : (N.parseIP (trimSpace (String.ofList
        (c.request.xForwardedFor.toList.takeWhile (· ≠ ','))))).isNone = true
    · exact ⟨c.request.remoteAddr, fun _ => (if_neg hskip).trans (if_pos hbad)⟩
    · exact ⟨_, fun _ => (if_neg hskip).trans (if_neg hbad)⟩

theorem requestID_passes (c : Call σ) :
    ∃ i w, Wrapper.Passes requestID c
      { c with request := { c.request with requestID := some i }, writer := w } id :=
  ⟨_, _, fun _ => rfl⟩

/-- A function of the result that adds to the response and to the log only. -/
def KeepsState (f : Done σ → Done σ) : Prop :=
  ∀ d, (f d).state.world = d.state.world ∧ (f d).state.limiter = d.state.limiter

theorem KeepsState.comp {f g : Done σ → Done σ} (hf : KeepsState f) (hg : KeepsState g) :
    KeepsState (f ∘ g) :=
  fun d => ⟨(hf (g d)).1.trans (hg d).1, (hf (g d)).2.trans (hg d).2⟩

theorem accessLog_passes (N : Net) (c : Call σ) :
    ∃ w f, Wrapper.Passes (accessLog N) c { c with writer := w } f ∧ KeepsState f := by
  refine ⟨_, logged N c, fun _ => rfl, fun d => ?_⟩
  unfold logged
  dsimp only
  split <;> exact ⟨rfl, rfl⟩

theorem recover_passes (c : Call σ) :
    ∃ w f, Wrapper.Passes recover c { c with writer := w } f ∧ KeepsState f := by
  refine ⟨_, recovered c.request, fun _ => rfl, fun d => ?_⟩
  unfold recovered
  split <;> exact ⟨rfl, rfl⟩

/-- The body handed on is the client's, and within the limit. -/
inductive SameBody (limit : Nat) : Body → Body → Prop
  | nil : SameBody limit .nil .nil
  | stream (data : Bytes) (fits : data.length ≤ limit) :
      SameBody limit (.stream data false) (.stream data false)

theorem maxBodyBytes_cases (limit : Nat) (c : Call σ) :
    (∃ w, Wrapper.Answers (maxBodyBytes limit) c (answer c w)) ∨
      ∃ body len, SameBody limit c.request.body body ∧ Wrapper.Passes (maxBodyBytes limit) c
        { c with request := { c.request with body := body, contentLength := len } } id := by
  cases hbody : c.request.body with
  | nil =>
    refine .inr ⟨c.request.body, c.request.contentLength, ?_, fun h => ?_⟩
    · rw [hbody]
      exact .nil
    · show maxBodyBytes limit h c = h c
      simp only [maxBodyBytes, hbody]
  | stream data fails =>
    by_cases hfails : (fails && decide (data.length ≤ limit)) = true
    · exact .inl ⟨_, fun h => by simp only [maxBodyBytes, hbody, if_pos hfails]; rfl⟩
    by_cases hlong : (data.take (limit + 1)).length > limit
    · exact .inl ⟨_, fun h => by
        simp only [maxBodyBytes, hbody, if_neg hfails, if_pos hlong]; rfl⟩
    -- nothing was cut off, so the read reached the end of the body
    have hfits : data.length ≤ limit := by
      rw [List.length_take] at hlong
      omega
    have htake : data.take (limit + 1) = data := List.take_of_length_le (by omega)
    have hread : fails = false := by simpa [hfits] using hfails
    subst hread
    refine .inr ⟨.stream data false, data.length, .stream data hfits, fun h => ?_⟩
    simp only [maxBodyBytes, hbody, if_neg hfails, htake, if_neg (not_lt.mpr hfits), id]

/-- The header is "Bearer " in any case and then a token of an enabled user. -/
structure Carries (sha256 : Bytes → Vector UInt8 32) (users : UserSnapshot)
    (authz scheme token : Bytes) (u : User) : Prop where
  header : authz = scheme ++ token
  scheme : scheme.map asciiLower = bearerPrefix.map asciiLower
  nonempty : token ≠ []
  solid : ∀ b ∈ token, isTokenSpace b = false
  mem : u ∈ users.ordered
  enabled : u.disabled = false
  hash : u.tokenHash = hexEncode (sha256 token).toList

section
variable (sha256 : Bytes → Vector UInt8 32) (users : UserSnapshot)

theorem bearer_cases (c : Call σ) :
    (∃ w, Wrapper.Answers (bearer sha256 users) c ⟨.returned, w, c.state.emit .unauthorized⟩) ∨
      ∃ scheme token u, Carries sha256 users c.request.authorization scheme token u ∧
        Wrapper.Passes (bearer sha256 users) c
          { c with
            request := { c.request with user := some u }
            state := c.state.emit (.authorized u.id u.name) } id := by
  by_cases hscheme : (c.request.authorization.length < 7 ||
      !hasBearerPrefix c.request.authorization) = true
  · exact .inl ⟨_, fun h => if_pos hscheme⟩
  by_cases htoken : (c.request.authorization.drop 7 = [] ||
      (c.request.authorization.drop 7).any isTokenSpace) = true
  · exact .inl ⟨_, fun h => (if_neg hscheme).trans (if_pos htoken)⟩
  cases hlookup : lookup sha256 users (c.request.authorization.drop 7) with
  | error e =>
    refine .inl ⟨writeUnauthorized c.writer,
      fun h => (if_neg hscheme).trans ((if_neg htoken).trans ?_)⟩
    simp only [hlookup]
  | ok u =>
    refine .inr ⟨c.request.authorization.take 7, c.request.authorization.drop 7, u, ?_,
      fun h => (if_neg hscheme).trans ((if_neg htoken).trans ?_)⟩
    · simp only [Bool.or_eq_true, not_or, decide_eq_true_eq, Bool.not_eq_true',
        Bool.not_eq_false, List.any_eq_true, not_exists, not_and,
        Bool.not_eq_true] at hscheme htoken
      rw [lookup_eq] at hlookup
      split at hlookup
      · exact absurd hlookup (by simp)
      · rename_i v hv
        split at hlookup
        · exact absurd hlookup (by simp)
        · rename_i henabled
          cases hlookup
          obtain ⟨hmem, hhash⟩ := UserSnapshot.byHash_some.mp hv
          exact ⟨(List.take_append_drop 7 _).symm, by simpa [hasBearerPrefix] using hscheme.2,
            htoken.1, htoken.2, hmem, by simpa using henabled, hhash⟩
    · simp only [hlookup]
      rfl

end

theorem routeAwareAuth_probe {authMW : Middleware σ} {c : Call σ}
    (h : isHealthProbe c.request = true) : Wrapper.Passes (routeAwareAuth authMW) c c id :=
  fun _ => if_pos h

theorem routeAwareAuth_answers {authMW : Middleware σ} {c : Call σ} {out : Done σ}
    (h : ¬ isHealthProbe c.request = true) (ha : Wrapper.Answers authMW c out) :
    Wrapper.Answers (routeAwareAuth authMW) c out :=
  fun next => (if_neg h).trans (ha next)

theorem routeAwareAuth_passes {authMW : Middleware σ} {c c' : Call σ}
    (h : ¬ isHealthProbe c.request = true) (hp : Wrapper.Passes authMW c c' id) :
    Wrapper.Passes (routeAwareAuth authMW) c c' id :=
  fun next => (if_neg h).trans (hp next)

/-- One token was there and is taken from the bucket of `key`; the others are untouched. -/
structure Limiter.Charged (l l' : Limiter) (now : Int) (key : String) : Prop where
  there : 1 ≤ l.refilled now key
  taken : l'.buckets key = some ⟨l.refilled now key - 1, now⟩
  others : ∀ k, k ≠ key → l'.buckets k = l.buckets k

theorem Limiter.charged_store {l : Limiter} {now : Int} {key : String}
    (h : 1 ≤ l.refilled now key) :
    l.Charged (l.store key ⟨l.refilled now key - 1, now⟩) now key where
  there := h
  taken := Function.update_self ..
  others _ hk := Function.update_of_ne hk ..

theorem rateLimit_cases (N : Net) (c : Call σ) :
    (∃ out, Wrapper.Answers (rateLimit N) c out ∧ out.state.world = c.state.world) ∨
      ∃ l, c.state.limiter.Charged l c.turn.now (extractKey N c.request) ∧
        Wrapper.Passes (rateLimit N) c { c with state := { c.state with limiter := l } } id := by
  by_cases h : c.state.limiter.refilled c.turn.now (extractKey N c.request) < 1
  · -- refused, and only the refill is stored
    refine .inl ⟨rateLimit N (fun c' => answer c' c'.writer) c, fun next => ?_, ?_⟩
    · simp only [rateLimit, Limiter.allow, if_pos h]
    · simp only [rateLimit, Limiter.allow, if_pos h]
      rfl
  · refine .inr ⟨_, Limiter.charged_store (not_lt.mp h), fun next => ?_⟩
    simp only [rateLimit, Limiter.allow, if_neg h, id]

/-! ## The chain -/

/-- What the middlewares before the token check leave of a call: all but the address, the
request id and the response headers. The body is said apart. -/
structure Forwarded (c c' : Call σ) : Prop where
  turn : c'.turn = c.turn
  method : c'.request.method = c.request.method
  path : c'.request.path = c.request.path
  authorization : c'.request.authorization = c.request.authorization
  user : c'.request.user = c.request.user
  state : c'.state = c.state

/-- The mux is called on `c'` for the health probe `c`: with no user of its own, and
charged to the bucket of the address. -/
structure Probed (N : Net) (c c' : Call σ) : Prop where
  probe : isHealthProbe c.request = true
  user : c'.request.user = c.request.user
  body : SameBody defaultMaxBodyBytes c.request.body c'.request.body
  charged : c.state.limiter.Charged c'.state.limiter c.turn.now (extractKey N c'.request)

/-- The mux is called on `c'` for the token in `c`. -/
structure Authenticated (sha256 : Bytes → Vector UInt8 32) (users : UserSnapshot)
    (c c' : Call σ) (u : User) : Prop where
  notProbe : isHealthProbe c.request = false
  method : c.request.method ≠ "OPTIONS"
  token : ∃ scheme token, Carries sha256 users c.request.authorization scheme token u
  user : c'.request.user = some u
  body : SameBody defaultMaxBodyBytes c.request.body c'.request.body
  charged : c.state.limiter.Charged c'.state.limiter c.turn.now (userKey u.id)

/-- A call of the mux that the chain may make for `c`. -/
structure Mediated (N : Net) (sha256 : Bytes → Vector UInt8 32) (users : UserSnapshot)
    (c c' : Call σ) : Prop where
  world : c'.state.world = c.state.world
  cause : Probed N c c' ∨ ∃ u, Authenticated sha256 users c c' u

section
variable (N : Net) (sha256 : Bytes → Vector UInt8 32) (users : UserSnapshot)

/-- The chain from the limiter on, for a request that has come this far for a reason. -/
theorem rateLimit_mediates {c d : Call σ} {R : Call σ → Prop} {K : (Done σ → Done σ) → Prop}
    (hworld : d.state.world = c.state.world) (hid : K id)
    (hR : ∀ l, d.state.limiter.Charged l d.turn.now (extractKey N d.request) →
      R { d with state := { d.state with limiter := l } }) :
    Wrapper.Mediates (fun out => out.state.world = c.state.world) R K
      (Wrapper.stack [some (rateLimit N)]) d := by
  rcases rateLimit_cases N d with ⟨out, hanswers, hout⟩ | ⟨l, hcharged, hpasses⟩
  · exact .answers hanswers.stack (hout.trans hworld)
  · exact .of_forwards hpasses
      (.passes (Wrapper.stack_nil_passes _) (hR l hcharged) hid)

/-- The chain from the token check on. -/
theorem auth_mediates {c d : Call σ} (hd : Forwarded c d)
    (hbody : SameBody defaultMaxBodyBytes c.request.body d.request.body)
    (hmethod : c.request.method ≠ "OPTIONS") :
    Wrapper.Mediates (fun out => out.state.world = c.state.world)
      (Mediated N sha256 users c) KeepsState
      (Wrapper.stack [some (routeAwareAuth (bearer sha256 users)), some (rateLimit N)]) d := by
  have hid : KeepsState (id : Done σ → Done σ) := fun _ => ⟨rfl, rfl⟩
  have hworld : d.state.world = c.state.world := by rw [hd.state]
  have hprobe : isHealthProbe d.request = isHealthProbe c.request := by
    rw [isHealthProbe, isHealthProbe, hd.path, hd.method]
  by_cases hp : isHealthProbe d.request = true
  · refine .of_forwards (routeAwareAuth_probe hp) (rateLimit_mediates N hworld hid ?_)
    intro l hl
    rw [hd.state, hd.turn] at hl
    exact ⟨hworld, .inl ⟨hprobe ▸ hp, hd.user, hbody, hl⟩⟩
  rcases bearer_cases sha256 users d with ⟨w, hw⟩ | ⟨scheme, token, u, hu, hpasses⟩
  · exact .answers (routeAwareAuth_answers hp hw).stack hworld
  · refine .of_forwards (routeAwareAuth_passes hp hpasses) (rateLimit_mediates N hworld hid ?_)
    intro l hl
    -- the limiter keys on the user just set, and logging it left the buckets as they were
    have hcharged : d.state.limiter.Charged l d.turn.now (userKey u.id) := hl
    rw [hd.state, hd.turn] at hcharged
    rw [hd.authorization] at hu
    have hnot : isHealthProbe c.request = false := by
      rw [← hprobe]
      exact Bool.eq_false_iff.mpr hp
    exact ⟨hworld, .inr ⟨u, hnot, hmethod, ⟨_, _, hu⟩, rfl, hbody, hcharged⟩⟩

/-- The chain from the body limit on. -/
theorem inner_mediates {c d : Call σ} (hd : Forwarded c d)
    (hbody : d.request.body = c.request.body) (hmethod : c.request.method ≠ "OPTIONS") :
    Wrapper.Mediates (fun out => out.state.world = c.state.world)
      (Mediated N sha256 users c) KeepsState
      (Wrapper.stack [some (maxBodyBytes defaultMaxBodyBytes),
        some (routeAwareAuth (bearer sha256 users)), some (rateLimit N)]) d := by
  rcases maxBodyBytes_cases defaultMaxBodyBytes d with ⟨w, hw⟩ | ⟨body, len, hsame, hpasses⟩
  · refine .answers hw.stack ?_
    show d.state.world = c.state.world
    rw [hd.state]
  · rw [hbody] at hsame
    refine .of_forwards hpasses (auth_mediates N sha256 users ?_ hsame hmethod)
    exact ⟨hd.turn, hd.method, hd.path, hd.authorization, hd.user, hd.state⟩

/-- Every call is mediated by the whole chain. -/
theorem middlewares_mediates (c : Call σ) :
    Wrapper.Mediates (fun out => out.state.world = c.state.world)
      (Mediated N sha256 users c) KeepsState
      (Wrapper.stack (middlewares N (bearer sha256 users) true)) c := by
  obtain ⟨w₁, h₁⟩ := securityHeaders_passes c
  refine .of_forwards h₁ ?_
  rcases cors_cases { c with writer := w₁ } with ⟨_, w₂, h₂⟩ | ⟨hmethod, w₂, h₂⟩
  · exact .answers h₂.stack rfl
  refine .of_forwards h₂ ?_
  obtain ⟨addr, h₃⟩ := trustedProxy_passes N { c with writer := w₂ }
  refine .of_forwards h₃ ?_
  obtain ⟨i, w₄, h₄⟩ := requestID_passes
    { c with writer := w₂, request := { c.request with remoteAddr := addr } }
  refine .of_forwards h₄ ?_
  -- the two that wait for the result work on it with functions that keep the state
  obtain ⟨w₅, f, hf, kf⟩ := accessLog_passes N _
  refine .of_passes hf (fun out ha => (kf out).1.trans ha) (fun g hg => kf.comp hg) ?_
  obtain ⟨w₆, f', hf', kf'⟩ := recover_passes _
  refine .of_passes hf' (fun out ha => (kf' out).1.trans ha) (fun g hg => kf'.comp hg) ?_
  exact inner_mediates N sha256 users ⟨rfl, rfl, rfl, rfl, rfl, rfl⟩ rfl hmethod

/-- For every request, state and mux: the chain's result is the same whatever the mux is,
and the mux's state as before; or it is the result of one call of the mux, finished without
touching the mux's state or the limiter, and that call is for a health probe or for the
token of an enabled user. -/
theorem complete_mediation (c : Call σ) :
    (∃ out : Done σ, out.state.world = c.state.world ∧
      ∀ mux, buildHandler N mux (bearer sha256 users) true c = out) ∨
    (∃ (c' : Call σ) (finish : Done σ → Done σ),
      Mediated N sha256 users c c' ∧ KeepsState finish ∧
      ∀ mux, buildHandler N mux (bearer sha256 users) true c = finish (serveMux mux c')) := by
  cases middlewares_mediates N sha256 users c with
  | answers h ha => exact .inl ⟨_, ha, fun mux => h (serveMux mux)⟩
  | passes h hr hf => exact .inr ⟨_, _, hr, hf, fun mux => h (serveMux mux)⟩

end

/-! ## A probe with a token -/

def plainNet : Net where
  splitHostPort addr := some (String.ofList (addr.toList.takeWhile (· ≠ ':')))
  joinHostPort host port := host ++ ":" ++ port
  parseIP _ := none
  contains _ := false

def blankHash : Bytes → Vector UInt8 32 := fun _ => Vector.replicate 32 0

def monitorUser : User :=
  ⟨1, "monitor", "tbs_", hexEncode (Vector.replicate 32 (0 : UInt8)).toList, false⟩

def monitorUsers : UserSnapshot := ⟨[monitorUser], List.nodup_singleton _⟩

/-- GET /healthz with the header "Bearer t", from 192.0.2.1; the mux's state is the list of
users it has seen. -/
def monitorCall : Call (List (Option User)) where
  turn := ⟨0, none, 0, 1⟩
  request :=
    { method := "GET", path := "/healthz", authorization := bearerPrefix ++ [0x74],
      xRequestID := "", xForwardedFor := "", userAgent := "", remoteAddr := "192.0.2.1:4711",
      body := .nil, contentLength := 0, requestID := none, user := none }
  writer := .new takesAll
  state := ⟨⟨60, 60000000000, fun _ => none⟩, [], []⟩

def seenUsers : Mux (List (Option User)) := fun r w seen => (.returned, w, seen ++ [r.user])

def monitorDone : Done (List (Option User)) :=
  buildHandler plainNet seenUsers (bearer blankHash monitorUsers) true monitorCall

/-- A health probe that carries a valid token is served by the bypass: the mux sees no
user, and the token comes out of the address's bucket and not out of the user's. -/
theorem probe_with_token_unauthenticated :
    monitorCall.request.method ≠ "OPTIONS" ∧
    Carries blankHash monitorUsers monitorCall.request.authorization bearerPrefix [0x74]
      monitorUser ∧
    monitorDone.state.world = [none] ∧
    (monitorDone.state.limiter.buckets (userKey monitorUser.id)).isNone = true ∧
    (monitorDone.state.limiter.buckets "ip:192.0.2.1").map Bucket.tokens = some 59 := by
  have hsolid : ∀ b ∈ [(0x74 : UInt8)], isTokenSpace b = false :=
    List.forall_mem_singleton.mpr rfl
  refine ⟨by decide, ?_, by decide +kernel, by decide +kernel, by decide +kernel⟩
  exact ⟨rfl, rfl, List.cons_ne_nil _ _, hsolid, List.mem_singleton_self _, rfl, rfl⟩

end TabbySync.Server
