import Mathlib.Algebra.Order.Ring.Rat
import TabbySync.Auth.Users
import TabbySync.Library.Rfc3339
import TabbySync.Library.Wrapper
import TabbySync.Server.StatusRecorder

/-! # The server's handler

`buildHandler`: the chain of middlewares around the mux. A request comes with the writer
for its response; the server's state is the rate limiter's buckets, what has been logged
and, for the mux alone, its own state (the store). The mux is any function of these.

`AccessLog` and `Recover` put a status recorder around the writer they are given and take
it off again; what is written in between goes through it.

Time and random bytes are handed in with the call. The bucket levels are float64 in the
source and rationals here. -/

namespace TabbySync.Server
open TabbySync.Library TabbySync.Library.Text TabbySync.Library.Rfc3339 TabbySync.Auth

/-! ## Requests, responses, state -/

/-- A request body as the client sends it: the bytes that arrive, and whether reading on
then fails. -/
inductive Body
  | nil
  | stream (data : Bytes) (fails : Bool)
  deriving DecidableEq, Repr

/-- A request, with the headers the middlewares read and the two context values they set. -/
structure Request where
  method : String
  path : String
  authorization : Bytes
  xRequestID : String
  xForwardedFor : String
  userAgent : String
  remoteAddr : String
  body : Body
  contentLength : Int
  requestID : Option String
  user : Option User

/-- net/http's writer under a number of recorders. -/
def Layered : Nat → Type
  | 0 => Response
  | n + 1 => StatusRecorder (Layered n)

def layered (accepts : Response → Bytes → Nat) : (n : Nat) → ResponseWriter (Layered n)
  | 0 => netHTTP accepts
  | n + 1 => statusRecorder (layered accepts n)

def sentThrough : (n : Nat) → Layered n → Response
  | 0, r => r
  | n + 1, s => sentThrough n (StatusRecorder.responseWriter s)

/-- The writer a handler is given, with the header map. `accepts` is what the connection
takes of a `Write`. -/
structure Writer where
  header : List (String × String)
  accepts : Response → Bytes → Nat
  depth : Nat
  layers : Layered depth

namespace Writer

/-- As net/http hands it to the server's handler. -/
def new (accepts : Response → Bytes → Nat) : Writer := ⟨[], accepts, 0, Response.empty⟩

/-- What net/http has been given. -/
def response (w : Writer) : Response := sentThrough w.depth w.layers

def set (w : Writer) (key value : String) : Writer :=
  { w with header := w.header.filter (fun h => h.1 ≠ key) ++ [(key, value)] }

def perform (w : Writer) (call : WriterCall) : Writer :=
  { w with layers := (layered w.accepts w.depth).perform w.layers call }

def writeHeader (w : Writer) (code : Nat) : Writer := w.perform (.writeHeader code)

def write (w : Writer) (text : String) : Writer := w.perform (.write text.toUTF8.toList)

/-- With a recorder around it. -/
def wrap (w : Writer) (recorder : StatusRecorder (Layered w.depth)) : Writer :=
  ⟨w.header, w.accepts, w.depth + 1, recorder⟩

/-- The recorder around a writer. A bare one is taken as under a new recorder, but no
handler takes off one that is not its own. -/
def recorder : Writer → StatusRecorder Writer
  | ⟨header, accepts, 0, r⟩ => recoverRecorder ⟨header, accepts, 0, r⟩
  | ⟨header, accepts, n + 1, s⟩ =>
    let s : StatusRecorder (Layered n) := s
    ⟨⟨header, accepts, n, s.responseWriter⟩, s.status, s.bytes, s.wroteHeader⟩

end Writer

structure Bucket where
  tokens : ℚ
  lastCheck : Int

structure Limiter where
  rate : Nat
  window : Nat
  buckets : String → Option Bucket

inductive LogEntry
  | access (method path : String) (status : Nat) (durationMs : Int) (bytes : Int64)
      (remoteIP requestID userAgent : String)
  | panicRecovered (requestID method path : String)
  | unauthorized
  | authorized (userID : Int64) (userName : String)
  | rateLimitExceeded (keyType : String)

structure State (σ : Type) where
  limiter : Limiter
  log : List LogEntry
  world : σ

def State.emit {σ : Type} (s : State σ) (entry : LogEntry) : State σ :=
  { s with log := s.log ++ [entry] }

/-- What the environment hands in with a request: the limiter's clock reading, the bytes
and the clock reading for a new request id, and the time the request takes. -/
structure Turn where
  now : Int
  random : Option (Vector UInt8 16)
  idTime : Int
  durationMs : Int

structure Call (σ : Type) where
  turn : Turn
  request : Request
  writer : Writer
  state : State σ

/-- A handler returns or panics; `abort` is `http.ErrAbortHandler`. -/
inductive Outcome
  | returned
  | panicked (abort : Bool)
  deriving DecidableEq, Repr

structure Done (σ : Type) where
  outcome : Outcome
  writer : Writer
  state : State σ

abbrev Handler (σ : Type) := Call σ → Done σ
abbrev Middleware (σ : Type) := Wrapper (Call σ) (Done σ)

abbrev Mux (σ : Type) := Request → Writer → σ → Outcome × Writer × σ

section
variable {σ : Type}

def serveMux (mux : Mux σ) : Handler σ := fun c =>
  match mux c.request c.writer c.state.world with
  | (outcome, w, world) => ⟨outcome, w, { c.state with world := world }⟩

/-- An answer written by a middleware itself. -/
def answer (c : Call σ) (w : Writer) : Done σ := ⟨.returned, w, c.state⟩

/-! ## The middlewares -/

/-- `h.Set` of each pair in turn. -/
def Writer.setAll (w : Writer) (pairs : List (String × String)) : Writer :=
  pairs.foldl (fun w pair => w.set pair.1 pair.2) w

def conservativeHeaders : List (String × String) :=
  [ ("X-Content-Type-Options", "nosniff")
  , ("Referrer-Policy", "no-referrer")
  , ("Cache-Control", "no-store")
  , ("Content-Security-Policy", "frame-ancestors 'none'")
  , ("X-Frame-Options", "DENY") ]

def securityHeaders : Middleware σ := fun next c =>
  next { c with writer := c.writer.setAll conservativeHeaders }

def corsHeaders : List (String × String) :=
  [ ("Access-Control-Allow-Origin", "*")
  , ("Access-Control-Allow-Methods", "GET, HEAD, POST, PATCH, PUT, DELETE, OPTIONS")
  , ("Access-Control-Allow-Headers", "Authorization, Content-Type, X-Request-Id")
  , ("Access-Control-Max-Age", "600") ]

def cors : Middleware σ := fun next c =>
  if c.request.method = "OPTIONS" then answer c ((c.writer.setAll corsHeaders).writeHeader 204)
  else next { c with writer := c.writer.setAll corsHeaders }

/-- The functions of package net; `contains` is about the trusted ranges. -/
structure Net where
  splitHostPort : String → Option String
  joinHostPort : String → String → String
  parseIP : String → Option Bytes
  contains : Bytes → Bool

def isTrusted (N : Net) (addr : String) : Bool :=
  (N.parseIP ((N.splitHostPort addr).getD addr)).any N.contains

def trustedProxy (N : Net) : Middleware σ := fun next c =>
  if c.request.xForwardedFor = "" || !isTrusted N c.request.remoteAddr then next c
  else
    let client := trimSpace (String.ofList (c.request.xForwardedFor.toList.takeWhile (· ≠ ',')))
    if (N.parseIP client).isNone then next c
    else next { c with request :=
      { c.request with remoteAddr := N.joinHostPort client "0" } }

def isRequestIDChar (c : Char) : Bool :=
  ('A' ≤ c && c ≤ 'Z') || ('a' ≤ c && c ≤ 'z') || c.isDigit || c == '.' || c == '_' || c == '-'

/-- `^[A-Za-z0-9._-]{1,64}$` -/
def requestIDPattern (id : String) : Bool :=
  1 ≤ id.toList.length && id.toList.length ≤ 64 && id.toList.all isRequestIDChar

/-- `Format("20060102T150405.000000000")` of a time in nanoseconds. -/
def compactChars (t : Int) : List Char :=
  let date := dateOfDay (t / nanosPerDay)
  let tod := (t % nanosPerDay).toNat
  let sec := tod / nanosPerSecond
  appendYear date.year ++ (appendInt date.month 2 ++ (appendInt date.day 2 ++
    'T' :: (appendInt (sec / 3600) 2 ++ (appendInt (sec / 60 % 60) 2 ++ (appendInt (sec % 60) 2 ++
    '.' :: appendInt (tod % nanosPerSecond) 9)))))

/-- `newRequestID`, with the time for the case that there are no random bytes. -/
def newRequestID (random : Option (Vector UInt8 16)) (now : Int) : String :=
  match random with
  | some buf => hexEncode buf.toList
  | none => String.ofList ('t' :: 's' :: '-' :: compactChars now)

def requestID : Middleware σ := fun next c =>
  let id := if requestIDPattern c.request.xRequestID then c.request.xRequestID
    else newRequestID c.turn.random c.turn.idTime
  next { c with
    request := { c.request with requestID := some id }
    writer := c.writer.set "X-Request-Id" id }

def accessLogIP (N : Net) (remoteAddr : String) : String :=
  if remoteAddr = "" then "" else (N.splitHostPort remoteAddr).getD remoteAddr

/-- What `AccessLog` does when the handler is done. -/
def logged (N : Net) (c : Call σ) (d : Done σ) : Done σ :=
  let recorder := d.writer.recorder
  { d with
    writer := recorder.responseWriter
    state := match d.outcome with
      | .panicked _ => d.state
      | .returned => d.state.emit (.access c.request.method c.request.path recorder.status
          c.turn.durationMs recorder.bytes (accessLogIP N c.request.remoteAddr)
          (c.request.requestID.getD "") c.request.userAgent) }

def accessLog (N : Net) : Middleware σ := fun next c =>
  logged N c (next { c with writer := c.writer.wrap (accessLogRecorder c.writer.layers) })

def plainError (w : Writer) (code : Nat) (text : String) : Writer :=
  ((w.set "Content-Type" "text/plain; charset=utf-8").writeHeader code).write text

/-- The deferred function of `Recover`. -/
def recovered (r : Request) (d : Done σ) : Done σ :=
  match d.outcome with
  | .returned | .panicked true => { d with writer := d.writer.recorder.responseWriter }
  | .panicked false =>
    let w := if d.writer.recorder.wroteHeader then d.writer
      else plainError d.writer 500 "internal server error\n"
    ⟨.returned, w.recorder.responseWriter,
      d.state.emit (.panicRecovered (r.requestID.getD "") r.method r.path)⟩

def recover : Middleware σ := fun next c =>
  recovered c.request (next { c with writer := c.writer.wrap (recoverRecorder c.writer.layers) })

def defaultMaxBodyBytes : Nat := 2 * 2 ^ 20

def maxBodyBytes (limit : Nat) : Middleware σ := fun next c =>
  match c.request.body with
  | .nil => next c
  | .stream data fails =>
    -- what `ReadAll` gets through a reader of `limit + 1` bytes
    let buf := data.take (limit + 1)
    if fails && decide (data.length ≤ limit) then
      answer c (plainError c.writer 400 "invalid request body\n")
    else if buf.length > limit then
      answer c (plainError c.writer 413 "request body too large\n")
    else next { c with request :=
      { c.request with body := .stream buf false, contentLength := buf.length } }

/-- The bytes of "Bearer ". -/
def bearerPrefix : Bytes := [0x42, 0x65, 0x61, 0x72, 0x65, 0x72, 0x20]

def asciiLower (b : UInt8) : UInt8 := if 0x41 ≤ b ∧ b ≤ 0x5A then b + 0x20 else b

/-- `strings.EqualFold` against the prefix. No letter of it has a case partner outside
ASCII. -/
def hasBearerPrefix (authz : Bytes) : Bool :=
  (authz.take 7).map asciiLower = bearerPrefix.map asciiLower

/-- Space, tab, CR or LF. -/
def isTokenSpace (b : UInt8) : Bool := b == 0x20 || b == 0x09 || b == 0x0D || b == 0x0A

def writeUnauthorized (w : Writer) : Writer :=
  ((w.setAll [ ("Content-Type", "application/json; charset=utf-8")
             , ("WWW-Authenticate", "Bearer realm=\"tabby-sync\"") ]).writeHeader 401).write
    "\x7b\"error\":\"unauthorized\"\x7d\n"

def bearer (sha256 : Bytes → Vector UInt8 32) (users : UserSnapshot) : Middleware σ :=
  fun next c =>
    let unauthorized : Done σ :=
      ⟨.returned, writeUnauthorized c.writer, c.state.emit .unauthorized⟩
    let authz := c.request.authorization
    if authz.length < 7 || !hasBearerPrefix authz then unauthorized
    else
      let token := authz.drop 7
      if token = [] || token.any isTokenSpace then unauthorized
      else match lookup sha256 users token with
        | .error _ => unauthorized
        | .ok user => next { c with
            request := { c.request with user := some user }
            state := c.state.emit (.authorized user.id user.name) }

/-- The one route that needs no authentication. -/
def isHealthProbe (r : Request) : Bool :=
  r.path == "/healthz" && (r.method == "GET" || r.method == "HEAD")

def routeAwareAuth (authMW : Middleware σ) : Middleware σ := fun next c =>
  if isHealthProbe c.request then next c else authMW next c

/-! ## The rate limiter -/

def seconds (ns : Int) : ℚ := ns / 1000000000

/-- The level of a bucket once it is refilled. A key without a bucket gets a full one. -/
def Limiter.refilled (l : Limiter) (now : Int) (key : String) : ℚ :=
  let b := (l.buckets key).getD ⟨l.rate, now⟩
  let tokens := b.tokens + seconds (now - b.lastCheck) * (l.rate / seconds l.window)
  if tokens > l.rate then l.rate else tokens

def Limiter.store (l : Limiter) (key : String) (b : Bucket) : Limiter :=
  { l with buckets := Function.update l.buckets key (some b) }

def Limiter.allow (l : Limiter) (now : Int) (key : String) : Bool × Limiter :=
  let tokens := l.refilled now key
  if tokens < 1 then (false, l.store key ⟨tokens, now⟩)
  else (true, l.store key ⟨tokens - 1, now⟩)

def limiterIP (N : Net) (addr : String) : String :=
  if addr = "" then "unknown" else (N.splitHostPort addr).getD addr

def userKey (id : Int64) : String := "user:" ++ toString id.toInt

def extractKey (N : Net) (r : Request) : String :=
  match r.user with
  | some u => userKey u.id
  | none => "ip:" ++ limiterIP N r.remoteAddr

def keyType (r : Request) : String := if r.user.isSome then "user" else "ip"

def tooManyRequests (w : Writer) (l : Limiter) : Writer :=
  ((w.setAll [ ("Content-Type", "application/json; charset=utf-8")
             , ("Retry-After", toString (l.window / 1000000000)) ]).writeHeader 429).write
    "\x7b\"error\":\"rate limit exceeded\"\x7d\n"

def rateLimit (N : Net) : Middleware σ := fun next c =>
  match c.state.limiter.allow c.turn.now (extractKey N c.request) with
  | (false, l) => ⟨.returned, tooManyRequests c.writer l,
      { c.state with limiter := l }.emit (.rateLimitExceeded (keyType c.request))⟩
  | (true, l) => next { c with state := { c.state with limiter := l } }

/-! ## The chain -/

def middlewares (N : Net) (authMW : Middleware σ) (limited : Bool) :
    List (Option (Middleware σ)) :=
  [some securityHeaders, some cors, some (trustedProxy N), some requestID, some (accessLog N),
    some recover, some (maxBodyBytes defaultMaxBodyBytes), some (routeAwareAuth authMW)] ++
  if limited then [some (rateLimit N)] else []

def buildHandler (N : Net) (mux : Mux σ) (authMW : Middleware σ) (limited : Bool) : Handler σ :=
  Wrapper.chain (serveMux mux) (middlewares N authMW limited)

end

end TabbySync.Server
