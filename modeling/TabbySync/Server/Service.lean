import TabbySync.Api.Isolation
import TabbySync.Library.Interleaving
import TabbySync.Server.Mediation
import TabbySync.Server.RateLimit

/-! # The service

The handler of `server.New` with the API mounted in it, with any number of requests under
way. A request takes one step through the middlewares up to the mux, the limiter's critical
section included, and then the steps of its API handler on the database. How the two muxes
route is left open: any function from requests to the registered handlers or to an answer
of a mux itself. The log is left out.

The first step runs `buildHandler` around a mux that notes what it is called on. What it
notes does not depend on the state, so a request that is alone gets what `buildHandler`
returns around the API itself. When the API has answered, the recorders of the chain are
taken off the writer again. -/

namespace TabbySync.Server
open TabbySync.Library TabbySync.Library.Text TabbySync.Auth TabbySync.Crypto

/-! ## Routes -/

/-- A pattern of the API's mux, with the path parameter as sent. -/
inductive Endpoint
  | getUser
  | listConfigs
  | createConfig
  | getConfig (id : String)
  | patchConfig (id : String)
  | deleteConfig (id : String)

def Body.bytes : Body → Option Bytes
  | .nil => none
  | .stream data _ => some data

def Endpoint.request (body : Body) : Endpoint → Api.Request
  | .getUser => .getUser
  | .listConfigs => .listConfigs
  | .createConfig => .createConfig body.bytes
  | .getConfig id => .getConfig id
  | .patchConfig id => .patchConfig id body.bytes
  | .deleteConfig id => .deleteConfig id

inductive Route
  | healthz
  | api (e : Endpoint)
  /-- A redirect, a 404 or a 405. -/
  | own (answer : Writer → Writer)

structure Service where
  net : Net
  sha256 : Bytes → Vector UInt8 32
  users : UserSnapshot
  route : Request → Route
  json : Api.Json
  /-- The text `Encode` writes. -/
  encode : Api.Body → String
  primitives : Primitives
  masterKey : Bytes

/-! ## Requests under way -/

inductive Proc
  | arriving (r : Request)
  | inside (w : Writer) (h : Api.Handler)
  | answered (w : Writer)

structure Shared where
  limiter : Limiter
  table : Sqlite.Configs

inductive Event
  | serve (turn : Turn) (env : Encrypted.Env)
  /-- A sweep of the limiter; no request moves. -/
  | sweep (now : Int)

def healthz (w : Writer) : Writer :=
  ((w.set "Content-Type" "text/plain; charset=utf-8").writeHeader 200).write "ok\n"

/-- A request off the wire, with an empty context. -/
def received (r : Request) : Request := { r with requestID := none, user := none }

def blank : Writer := .new takesAll

/-- Inside the recorders of `AccessLog` and `Recover`. -/
def Writer.watched (w : Writer) : Writer :=
  let outer := w.wrap (accessLogRecorder w.layers)
  outer.wrap (recoverRecorder outer.layers)

/-- With the two recorders taken off. -/
def Writer.released (w : Writer) : Writer :=
  w.recorder.responseWriter.recorder.responseWriter

/-- A mux that notes what it is called on. -/
def noting : Mux (Option (Request × Writer)) := fun r w _ => (.returned, w, some (r, w))

namespace Service
variable (S : Service)

/-- `writeJSON`, and the bare status of a `DELETE`. -/
def writeReply (w : Writer) (r : Api.Reply) : Writer :=
  match r.body with
  | .empty => w.writeHeader r.status
  | body => ((w.set "Content-Type" "application/json; charset=utf-8").writeHeader r.status).write
      (S.encode body)

def chain {σ : Type} (mux : Mux σ) : Handler σ :=
  buildHandler S.net mux (bearer S.sha256 S.users) true

def settle (w : Writer) : Api.Handler → Proc
  | .responded r => .answered (S.writeReply w r).released
  | h => .inside w h

/-- The mux is called. -/
def dispatch (r : Request) (w : Writer) : Proc :=
  match S.route r with
  | .healthz => .answered (healthz w).released
  | .own answer => .answered (answer w).released
  | .api e => S.settle w (Api.handle S.json r.user (e.request r.body))

def enter (turn : Turn) (r : Request) (s : Shared) : Shared × Proc :=
  let d := S.chain noting ⟨turn, received r, blank, ⟨s.limiter, [], none⟩⟩
  ({ s with limiter := d.state.limiter },
    match d.state.world with
    | none => .answered d.writer
    | some (r', w) => S.dispatch r' w)

def step (ev : Event) (s : Shared) (p : Proc) : Shared × Proc :=
  match ev, p with
  | .sweep now, p => ({ s with limiter := s.limiter.sweep now }, p)
  | .serve turn _, .arriving r => S.enter turn r s
  | .serve _ env, .inside w h =>
    let x := h.step S.primitives S.masterKey env s.table
    ({ s with table := x.1 }, S.settle w x.2)
  | .serve _ _, .answered w => (s, .answered w)

end Service

/-! ## The chain in front of the limiter

What the middlewares in front of the limiter do with a request depends on the request and
the turn alone. -/

/-- The user a header authenticates. -/
def admitted (sha256 : Bytes → Vector UInt8 32) (users : UserSnapshot) (authz : Bytes) :
    Option User :=
  if authz.length < 7 || !hasBearerPrefix authz then none
  else if authz.drop 7 = [] || (authz.drop 7).any isTokenSpace then none
  else (lookup sha256 users (authz.drop 7)).toOption

/-- The address `TrustedProxy` leaves in the request. -/
def clientAddr (N : Net) (r : Request) : String :=
  if r.xForwardedFor = "" || !isTrusted N r.remoteAddr then r.remoteAddr
  else
    let client := trimSpace (String.ofList (r.xForwardedFor.toList.takeWhile (· ≠ ',')))
    if (N.parseIP client).isNone then r.remoteAddr else N.joinHostPort client "0"

/-- The id `RequestID` serves a request under. -/
def idFor (turn : Turn) (r : Request) : String :=
  if requestIDPattern r.xRequestID then r.xRequestID
  else newRequestID turn.random turn.idTime

/-- The call as it comes to the access log. -/
def opened {σ : Type} (N : Net) (c : Call σ) : Call σ :=
  { c with
    request := { c.request with
      remoteAddr := clientAddr N c.request
      requestID := some (idFor c.turn c.request) }
    writer := ((c.writer.setAll conservativeHeaders).setAll corsHeaders).set "X-Request-Id"
      (idFor c.turn c.request) }

/-- A result without its log. -/
def Done.seen {σ : Type} (d : Done σ) : Outcome × Writer × Limiter × σ :=
  (d.outcome, d.writer, d.state.limiter, d.state.world)

/-- The writer of a result is finished with. -/
def finishing {β : Type} (finish : Writer → Writer) (x : Outcome × Writer × β) :
    Outcome × Writer × β := (x.1, finish x.2.1, x.2.2)

/-- The mux never panics. -/
def Returns {σ : Type} (mux : Mux σ) : Prop := ∀ r w x, (mux r w x).1 = .returned

/-- What the limiter and the mux make of a request. -/
def throttled {σ : Type} (N : Net) (mux : Mux σ) (now : Int) (r : Request) (w : Writer)
    (l : Limiter) (x : σ) : Outcome × Writer × Limiter × σ :=
  let a := l.allow now (extractKey N r)
  if a.1 then
    let y := mux r w x
    (y.1, y.2.1, a.2, y.2.2)
  else (.returned, tooManyRequests w a.2, a.2, x)

section
variable {σ : Type} (N : Net) (sha256 : Bytes → Vector UInt8 32) (users : UserSnapshot)

theorem trustedProxy_eq (next : Handler σ) (c : Call σ) :
    trustedProxy N next c =
      next { c with request := { c.request with remoteAddr := clientAddr N c.request } } := by
  unfold trustedProxy clientAddr
  dsimp only
  split
  · rfl
  · split <;> rfl

theorem bearer_eq (next : Handler σ) (c : Call σ) :
    bearer sha256 users next c =
      match admitted sha256 users c.request.authorization with
      | none => ⟨.returned, writeUnauthorized c.writer, c.state.emit .unauthorized⟩
      | some u => next { c with
          request := { c.request with user := some u }
          state := c.state.emit (.authorized u.id u.name) } := by
  unfold bearer admitted
  dsimp only
  split
  · rfl
  · split
    · rfl
    · cases lookup sha256 users (c.request.authorization.drop 7) <;> rfl

/-- A header that is admitted carries a token of the user. -/
theorem admitted_carries {authz : Bytes} {u : User} (h : admitted sha256 users authz = some u) :
    ∃ scheme token, Carries sha256 users authz scheme token u := by
  -- ask the middleware on a call that shows the user it sets
  let c : Call (Option User) :=
    { turn := ⟨0, none, 0, 0⟩
      request := ⟨"", "", authz, "", "", "", "", .nil, 0, none, none⟩
      writer := blank
      state := ⟨⟨0, 0, fun _ => none⟩, [], none⟩ }
  let next : Handler (Option User) := fun c => ⟨.returned, blank, { c.state with world := c.request.user }⟩
  have hworld : (bearer sha256 users next c).state.world = some u := by
    rw [bearer_eq, show c.request.authorization = authz from rfl, h]
  rcases bearer_cases sha256 users c with ⟨w, hw⟩ | ⟨scheme, token, v, hv, hpasses⟩
  · rw [hw next] at hworld
    cases hworld
  · rw [hpasses next] at hworld
    cases hworld
    exact ⟨scheme, token, hv⟩

theorem rateLimit_seen (mux : Mux σ) (c : Call σ) :
    (rateLimit N (serveMux mux) c).seen =
      throttled N mux c.turn.now c.request c.writer c.state.limiter c.state.world := by
  unfold rateLimit throttled
  cases c.state.limiter.allow c.turn.now (extractKey N c.request) with
  | mk ok l => cases ok <;> rfl

/-- Logging and recovery leave a result that returned as it is, but for their recorders. -/
theorem logged_seen {next : Handler σ} {c : Call σ}
    (h : (next { c with writer := c.writer.watched }).outcome = .returned) :
    (accessLog N (recover next) c).seen =
      finishing Writer.released (next { c with writer := c.writer.watched }).seen := by
  have hchain : accessLog N (recover next) c =
      logged N c (recovered c.request (next { c with writer := c.writer.watched })) := rfl
  rw [hchain, recovered, h]
  simp only [logged, Done.seen, finishing, h, State.emit, Writer.released]

end

/-- What the request has come to the limiter for. -/
structure Reaches (S : Service) (r r' : Request) : Prop where
  user : r'.user =
    if isHealthProbe r then none else admitted S.sha256 S.users r.authorization
  known : isHealthProbe r = false → r'.user.isSome = true
  addr : r'.remoteAddr = clientAddr S.net r

namespace Service
variable (S : Service)

/-- From the body limit on. -/
def inner {σ : Type} (mux : Mux σ) : Handler σ :=
  maxBodyBytes defaultMaxBodyBytes
    (routeAwareAuth (bearer S.sha256 S.users) (rateLimit S.net (serveMux mux)))

theorem chain_options {σ : Type} (mux : Mux σ) {c : Call σ} (h : c.request.method = "OPTIONS") :
    S.chain mux c = ⟨.returned,
      ((c.writer.setAll conservativeHeaders).setAll corsHeaders).writeHeader 204, c.state⟩ := if_pos h

theorem chain_opened {σ : Type} (mux : Mux σ) {c : Call σ} (h : c.request.method ≠ "OPTIONS") :
    S.chain mux c = accessLog S.net (recover (S.inner mux)) (opened S.net c) := by
  have hcors : S.chain mux c =
      trustedProxy S.net (requestID (accessLog S.net (recover (S.inner mux))))
        { c with writer := (c.writer.setAll conservativeHeaders).setAll corsHeaders } := if_neg h
  rw [hcors, trustedProxy_eq]
  rfl

/-- How far a request comes, whatever the mux and the state. -/
inductive Front (finish : Writer → Writer) (run : (σ : Type) → Mux σ → State σ → Done σ)
    (now : Int) (r : Request) : Prop
  | answers (w : Writer)
      (h : ∀ σ mux (s : State σ), (run σ mux s).seen = (.returned, w, s.limiter, s.world))
  | reaches (r' : Request) (w : Writer) (hr : Reaches S r r')
      (h : ∀ σ mux (s : State σ), Returns mux →
        (run σ mux s).seen =
          finishing finish (throttled S.net mux now r' w s.limiter s.world))

variable {S} {now : Int} {r : Request}

/-- The chain from the token check on. -/
theorem auth_front (turn : Turn) (w : Writer) {d : Request} (hprobe : isHealthProbe d = isHealthProbe r)
    (hauthz : d.authorization = r.authorization) (huser : d.user = none)
    (haddr : d.remoteAddr = clientAddr S.net r) :
    S.Front id (fun _ mux s => routeAwareAuth (bearer S.sha256 S.users)
      (rateLimit S.net (serveMux mux)) ⟨turn, d, w, s⟩) turn.now r := by
  by_cases hp : isHealthProbe d = true
  · refine .reaches d w ⟨?_, ?_, haddr⟩ fun σ mux s _ => ?_
    · rw [huser, if_pos (hprobe ▸ hp)]
    · rw [← hprobe, hp]
      exact nofun
    · rw [show routeAwareAuth _ _ (⟨turn, d, w, s⟩ : Call σ) = _ from if_pos hp]
      exact rateLimit_seen S.net mux _
  have hnot : isHealthProbe r = false := by
    rw [← hprobe]
    exact Bool.eq_false_iff.mpr hp
  cases hu : admitted S.sha256 S.users r.authorization with
  | none =>
    refine .answers (writeUnauthorized w) fun σ mux s => ?_
    rw [show routeAwareAuth _ _ (⟨turn, d, w, s⟩ : Call σ) = _ from if_neg hp, bearer_eq]
    simp only [hauthz, hu]
    rfl
  | some u =>
    refine .reaches { d with user := some u } w ⟨?_, fun _ => rfl, haddr⟩ fun σ mux s _ => ?_
    · rw [hnot, hu]
      rfl
    · rw [show routeAwareAuth _ _ (⟨turn, d, w, s⟩ : Call σ) = _ from if_neg hp, bearer_eq]
      simp only [hauthz, hu]
      exact rateLimit_seen S.net mux _

/-- The chain from the body limit on. -/
theorem inner_front (turn : Turn) (w : Writer) {d : Request}
    (hprobe : isHealthProbe d = isHealthProbe r)
    (hauthz : d.authorization = r.authorization) (huser : d.user = none)
    (haddr : d.remoteAddr = clientAddr S.net r) :
    S.Front id (fun _ mux s => S.inner mux ⟨turn, d, w, s⟩) turn.now r := by
  cases hbody : d.body with
  | nil =>
    have hpass : ∀ σ (next : Handler σ) s,
        maxBodyBytes defaultMaxBodyBytes next ⟨turn, d, w, s⟩ = next ⟨turn, d, w, s⟩ := by
      intro σ next s
      simp only [maxBodyBytes, hbody]
    simp only [inner, hpass]
    exact auth_front turn w hprobe hauthz huser haddr
  | stream data fails =>
    by_cases hfails : (fails && decide (data.length ≤ defaultMaxBodyBytes)) = true
    · refine .answers (plainError w 400 "invalid request body\n") fun σ mux s => ?_
      simp only [inner, maxBodyBytes, hbody, if_pos hfails]
      rfl
    by_cases hlong : (data.take (defaultMaxBodyBytes + 1)).length > defaultMaxBodyBytes
    · refine .answers (plainError w 413 "request body too large\n") fun σ mux s => ?_
      simp only [inner, maxBodyBytes, hbody, if_neg hfails, if_pos hlong]
      rfl
    simp only [inner, maxBodyBytes, hbody, if_neg hfails, if_neg hlong]
    exact auth_front turn w hprobe hauthz huser haddr

theorem throttled_returned {σ : Type} {mux : Mux σ} (h : Returns mux) (N : Net) (now : Int)
    (r : Request) (w : Writer) (l : Limiter) (x : σ) :
    (throttled N mux now r w l x).1 = .returned := by
  unfold throttled
  dsimp only
  split
  · exact h r w x
  · rfl

/-- The whole chain. -/
theorem chain_front (S : Service) (turn : Turn) (r : Request) :
    S.Front Writer.released (fun _ mux s => S.chain mux ⟨turn, received r, blank, s⟩) turn.now r := by
  by_cases hmethod : r.method = "OPTIONS"
  · refine .answers (((blank.setAll conservativeHeaders).setAll corsHeaders).writeHeader 204)
      fun σ mux s => ?_
    rw [S.chain_options mux (c := ⟨turn, received r, blank, s⟩) hmethod]
    rfl
  let c : Call Unit := opened S.net ⟨turn, received r, blank, ⟨⟨0, 0, fun _ => none⟩, [], ()⟩⟩
  -- logging and recovery see the call as it comes to them
  have hchain : ∀ σ (mux : Mux σ) s, S.chain mux ⟨turn, received r, blank, s⟩ =
      accessLog S.net (recover (S.inner mux)) ⟨turn, c.request, c.writer, s⟩ :=
    fun σ mux s => S.chain_opened mux (c := ⟨turn, received r, blank, s⟩) hmethod
  rcases inner_front (S := S) (r := r) turn c.writer.watched (d := c.request) rfl rfl rfl rfl with
    ⟨w', h⟩ | ⟨r', w', hr, h⟩
  · refine .answers w'.released fun σ mux s => ?_
    have hseen := h σ mux s
    rw [hchain, logged_seen S.net (congrArg Prod.fst hseen), hseen]
    rfl
  · refine .reaches r' w' hr fun σ mux s hmux => ?_
    have hseen := h σ mux s hmux
    rw [hchain, logged_seen S.net ((congrArg Prod.fst hseen).trans (throttled_returned hmux ..)),
      hseen]
    rfl

/-! ## The first step -/

/-- What the first step of a request does: nothing but answer, or one call of `Allow`. -/
inductive Entered (S : Service) (turn : Turn) (r : Request) : Prop
  | answers (w : Writer) (h : ∀ s, S.enter turn r s = (s, .answered w))
  | reaches (r' : Request) (w : Writer) (hr : Reaches S r r')
      (h : ∀ s, S.enter turn r s =
        let a := s.limiter.allow turn.now (extractKey S.net r')
        ({ s with limiter := a.2 },
          if a.1 then S.dispatch r' w else .answered (tooManyRequests w a.2).released))

theorem enter_answers {turn : Turn} {w : Writer} {s : Shared}
    (h : (S.chain noting ⟨turn, received r, blank, ⟨s.limiter, [], none⟩⟩).seen =
      (.returned, w, s.limiter, none)) : S.enter turn r s = (s, .answered w) := by
  simp only [Done.seen, Prod.mk.injEq] at h
  obtain ⟨-, hw, hl, hx⟩ := h
  simp only [enter, hw, hl, hx]

theorem enter_reaches {turn : Turn} {r' : Request} {w : Writer} {s : Shared}
    (h : (S.chain noting ⟨turn, received r, blank, ⟨s.limiter, [], none⟩⟩).seen =
      finishing Writer.released (throttled S.net noting turn.now r' w s.limiter none)) :
    S.enter turn r s =
      let a := s.limiter.allow turn.now (extractKey S.net r')
      ({ s with limiter := a.2 },
        if a.1 then S.dispatch r' w else .answered (tooManyRequests w a.2).released) := by
  unfold finishing throttled at h
  dsimp only at h ⊢
  split at h
  · rename_i hallowed
    simp only [Done.seen, noting, Prod.mk.injEq] at h
    obtain ⟨-, -, hl, hx⟩ := h
    simp only [enter, hl, hx]
    rw [if_pos hallowed]
  · rename_i hrefused
    simp only [Done.seen, Prod.mk.injEq] at h
    obtain ⟨-, hw, hl, hx⟩ := h
    simp only [enter, hw, hl, hx]
    rw [if_neg hrefused]

theorem entered (S : Service) (turn : Turn) (r : Request) : Entered S turn r := by
  rcases chain_front S turn r with ⟨w, h⟩ | ⟨r', w, hr, h⟩
  · exact .answers w fun s => enter_answers (h _ noting _)
  · exact .reaches r' w hr fun s => enter_reaches (h _ noting _ fun _ _ _ => rfl)

/-! ## A request that is alone -/

/-- The API as a mux that serves one request at a time. -/
def api (S : Service) (envs : List Encrypted.Env) : Mux Sqlite.Configs := fun r w t =>
  match S.route r with
  | .healthz => (.returned, healthz w, t)
  | .own answer => (.returned, answer w, t)
  | .api e =>
    let x := Api.serve S.primitives S.masterKey envs t (Api.handle S.json r.user (e.request r.body))
    (.returned,
      match x.2 with
      | .responded reply => S.writeReply w reply
      | .calling .. => w,
      x.1)

theorem api_returns (envs : List Encrypted.Env) : Returns (S.api envs) := by
  intro r w t
  unfold api
  split <;> rfl

/-- Every request has its response after four steps. -/
theorem handle_responds (S : Service) {envs : List Encrypted.Env} (enough : 4 ≤ envs.length)
    (user : Option User) (req : Api.Request) (t : Sqlite.Configs) :
    ∃ reply, (Api.serve S.primitives S.masterKey envs t (Api.handle S.json user req)).2 =
      .responded reply := by
  cases user with
  | none =>
    obtain ⟨reply, hreply⟩ := Api.handle_no_user S.json req
    rw [hreply]
    exact (Api.respondsIn_responded 0 reply).serve (Nat.zero_le _)
  | some u => exact (Api.Started.responds (Api.handle_started S.json u req)).serve enough

section
variable {ι : Type} [DecidableEq ι] {i : ι} {p : Pool Shared ι Proc}

theorem run_answered {w : Writer} (hp : p.procs i = .answered w) (turn : Turn)
    (envs : List Encrypted.Env) :
    (Pool.run S.step p (envs.map fun env => (i, .serve turn env))).shared = p.shared ∧
      (Pool.run S.step p (envs.map fun env => (i, .serve turn env))).procs i = .answered w := by
  induction envs generalizing p with
  | nil => exact ⟨rfl, hp⟩
  | cons env envs ih =>
    have hstep : S.step (.serve turn env) p.shared (p.procs i) = (p.shared, .answered w) := by
      rw [hp]
      rfl
    have hfire : (Pool.fire S.step p (i, .serve turn env)).procs i = .answered w := by
      rw [Pool.fire_procs_self, hstep]
    obtain ⟨hshared, hproc⟩ := ih hfire
    refine ⟨hshared.trans ?_, hproc⟩
    simp only [Pool.fire, hstep]

theorem run_settle {w : Writer} {h : Api.Handler} (hp : p.procs i = S.settle w h) (turn : Turn)
    (envs : List Encrypted.Env) :
    (Pool.run S.step p (envs.map fun env => (i, .serve turn env))).shared =
        { p.shared with
          table := (Api.serve S.primitives S.masterKey envs p.shared.table h).1 } ∧
      (Pool.run S.step p (envs.map fun env => (i, .serve turn env))).procs i =
        S.settle w (Api.serve S.primitives S.masterKey envs p.shared.table h).2 := by
  induction envs generalizing p h with
  | nil => exact ⟨rfl, hp⟩
  | cons env envs ih =>
    have hstep : S.step (.serve turn env) p.shared (p.procs i) =
        ({ p.shared with table := (h.step S.primitives S.masterKey env p.shared.table).1 },
          S.settle w (h.step S.primitives S.masterKey env p.shared.table).2) := by
      rw [hp]
      cases h <;> rfl
    have hfire : (Pool.fire S.step p (i, .serve turn env)).procs i =
        S.settle w (h.step S.primitives S.masterKey env p.shared.table).2 := by
      rw [Pool.fire_procs_self, hstep]
    have hshared : (Pool.fire S.step p (i, .serve turn env)).shared =
        { p.shared with table := (h.step S.primitives S.masterKey env p.shared.table).1 } := by
      simp only [Pool.fire, hstep]
    have hrun := ih hfire
    rw [hshared] at hrun
    exact hrun

/-- The call of the mux and what follows it, for a request that is alone. -/
theorem run_dispatch {envs : List Encrypted.Env} (enough : 4 ≤ envs.length) {r : Request}
    {w : Writer} (hp : p.procs i = S.dispatch r w) (turn : Turn) :
    (Pool.run S.step p (envs.map fun env => (i, .serve turn env))).shared =
        { p.shared with table := (S.api envs r w p.shared.table).2.2 } ∧
      (Pool.run S.step p (envs.map fun env => (i, .serve turn env))).procs i =
        .answered (S.api envs r w p.shared.table).2.1.released := by
  cases hroute : S.route r with
  | healthz =>
    simp only [dispatch, hroute] at hp
    simp only [api, hroute]
    exact run_answered hp turn envs
  | own answer =>
    simp only [dispatch, hroute] at hp
    simp only [api, hroute]
    exact run_answered hp turn envs
  | api e =>
    simp only [dispatch, hroute] at hp
    obtain ⟨hshared, hproc⟩ := run_settle hp turn envs
    obtain ⟨reply, hreply⟩ := S.handle_responds enough r.user (e.request r.body) p.shared.table
    simp only [api, hroute, hreply]
    rw [hreply] at hproc
    exact ⟨hshared, hproc⟩

/-- A request that is alone: the response, the limiter and the table are those of
`buildHandler` around the API. -/
theorem served_alone {envs : List Encrypted.Env} (enough : 4 ≤ envs.length) {r : Request}
    (hp : p.procs i = .arriving r) (turn : Turn) (env : Encrypted.Env) {d : Done Sqlite.Configs}
    (hd : S.chain (S.api envs) ⟨turn, received r, blank, ⟨p.shared.limiter, [], p.shared.table⟩⟩ = d)
    {q : Pool Shared ι Proc}
    (hq : Pool.run S.step p ((env :: envs).map fun env => (i, .serve turn env)) = q) :
    q.shared = ⟨d.state.limiter, d.state.world⟩ ∧ q.procs i = .answered d.writer := by
  have hstep : S.step (.serve turn env) p.shared (p.procs i) = S.enter turn r p.shared := by
    rw [hp]
    rfl
  have hfire : (Pool.fire S.step p (i, .serve turn env)).procs i =
      (S.enter turn r p.shared).2 := by
    rw [Pool.fire_procs_self, hstep]
  have hshared : (Pool.fire S.step p (i, .serve turn env)).shared =
      (S.enter turn r p.shared).1 := by
    simp only [Pool.fire, hstep]
  rw [List.map_cons, Pool.run_cons] at hq
  rcases chain_front S turn r with ⟨w, h⟩ | ⟨r', w, -, h⟩
  · have hseen := h _ (S.api envs) ⟨p.shared.limiter, [], p.shared.table⟩
    simp only [hd, Done.seen, Prod.mk.injEq] at hseen
    obtain ⟨-, hw, hl, hx⟩ := hseen
    rw [enter_answers (h _ noting _)] at hfire hshared
    obtain ⟨hs, hproc⟩ := run_answered hfire turn envs
    rw [hw, hl, hx, ← hq]
    exact ⟨hs.trans hshared, hproc⟩
  · have hseen := h _ (S.api envs) ⟨p.shared.limiter, [], p.shared.table⟩ (api_returns envs)
    rw [enter_reaches (h _ noting _ fun _ _ _ => rfl)] at hfire hshared
    simp only [hd, Done.seen, finishing, throttled] at hseen
    dsimp only at hfire hshared
    split at hseen
    · rename_i hallowed
      rw [if_pos hallowed] at hfire
      obtain ⟨hs, hproc⟩ := run_dispatch enough hfire turn
      simp only [Prod.mk.injEq] at hseen
      obtain ⟨-, hw, hl, hx⟩ := hseen
      rw [hshared] at hs hproc
      rw [hw, hl, hx, ← hq]
      exact ⟨hs, hproc⟩
    · rename_i hrefused
      rw [if_neg hrefused] at hfire
      obtain ⟨hs, hproc⟩ := run_answered hfire turn envs
      simp only [Prod.mk.injEq] at hseen
      obtain ⟨-, hw, hl, hx⟩ := hseen
      rw [hw, hl, hx, ← hq]
      exact ⟨hs.trans hshared, hproc⟩

end

end Service
end TabbySync.Server
