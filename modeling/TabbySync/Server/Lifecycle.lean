import Mathlib.Algebra.Order.BigOperators.Group.Finset
import TabbySync.Store.Shutdown

/-! # From the listener to the exit

`server.Run` with what `runServe` does around it: serve until a signal arrives or the
listener fails, shut the HTTP server down within ten seconds, close the store and exit.

The main goroutine, the goroutine that accepts and any number of connections take their
steps in any order. `Shutdown` of the HTTP server returns once no request is active and
every other connection is closed; until then a connection that is open may still bring a
request. After a timeout, and after a failure of the listener, `Run` returns under running
requests. -/

namespace TabbySync.Lifecycle
open TabbySync.Library TabbySync.Sqlite TabbySync.Crypto
open TabbySync.Shutdown (Server Kept Safe Ready SealsWith Opens)
open TabbySync.Encrypted (Env)

inductive Request
  | create (userID : Int64) (inp : CreateConfigPlaintextInput)
  | update (userID configID : Int64) (patch : UpdateConfigPlaintextPatch)

def Request.call : Request → Shutdown.Proc
  | .create userID inp => .create userID inp
  | .update userID configID patch => .update userID configID patch

/-- A connection, with the request it brings; `dialled` is not accepted yet. -/
inductive Conn
  | dialled (r : Request)
  | idle (r : Request)
  | active (p : Shutdown.Proc)
  | answered (r : Encrypted.Result)
  | closed

inductive RunError
  | deadlineExceeded
  | serve (e : GoError)

inductive Main
  | selecting
  | shuttingDown
  -- `<-serveErr` after the shutdown
  | draining
  | returned (err : Option RunError)
  -- the deferred `Close` of the store, on the way out of `runServe`
  | closing (code : Nat) (p : Shutdown.Proc)
  | exited (code : Nat)

/-- What `Serve` returns; `none` is `http.ErrServerClosed`. -/
abbrev ServeResult := Option GoError

/-- `active` counts the connections with a request under way; `allClosed` is set once
`Shutdown` has found none of them and closed the others. -/
structure Shared where
  store : Server
  listening : Bool
  inShutdown : Bool
  active : Nat
  allClosed : Bool
  signalled : Bool
  serveErr : Option ServeResult
  main : Main
  log : List String

def Shared.emit (s : Shared) (line : String) : Shared := { s with log := s.log ++ [line] }

/-- Who moves, with what its environment hands it. `preferSignal` decides between two
channels that are ready; `quiet` says that no open connection is too young to be closed,
`deadline` that the ten seconds are over. -/
inductive Turn
  | conn (env : Env)
  | signal
  | acceptFails (e : GoError)
  | serveReturns
  | main (preferSignal quiet deadline : Bool) (env : Env)

def exitCode : Option RunError → Nat
  | none => 0
  | some _ => 1

def exitLine : Option RunError → String
  | none => "tabby-sync stopped"
  | some .deadlineExceeded => "tabby-sync shutdown timed out, forcing close"
  | some (.serve _) => "tabby-sync exited with error"

def runResult (r : ServeResult) : Option RunError := r.map .serve

def takeServeErr (s : Shared) : Shared :=
  match s.serveErr with
  | none => s
  | some r => { s with main := .returned (runResult r) }

/-- One step of `Run`, and then of the end of `runServe`. -/
def mainStep (P : Primitives) (preferSignal quiet deadline : Bool) (env : Env) (s : Shared) :
    Shared :=
  match s.main with
  | .selecting =>
    if s.signalled && (preferSignal || s.serveErr.isNone) then
      { s with main := .shuttingDown, inShutdown := true, listening := false }.emit
        "shutdown signal received, draining HTTP server"
    else takeServeErr s
  | .shuttingDown =>
    if quiet && s.active == 0 then { s with allClosed := true, main := .draining }
    else if deadline then { s with main := .returned (some .deadlineExceeded) }
    else s
  | .draining =>
    match s.serveErr with
    | none => s
    | some none => { s with main := .returned none }.emit "HTTP server shutdown complete"
    | some (some e) => { s with main := .returned (some (.serve e)) }
  | .returned err => { s with main := .closing (exitCode err) .close }.emit (exitLine err)
  | .closing code (.done _) => { s with main := .exited code }
  | .closing code p =>
    { s with
      store := (Shutdown.step P env s.store p).1
      main := .closing code (Shutdown.step P env s.store p).2 }
  | .exited _ => s

def Conn.after (s : Shared) : Shutdown.Proc → Shared × Conn
  | .done r => ({ s with active := s.active - 1 }, .answered r)
  | p => (s, .active p)

def connStep (P : Primitives) (env : Env) (s : Shared) : Conn → Shared × Conn
  | .dialled r => (s, if s.listening then .idle r else .closed)
  | .idle r =>
    if s.allClosed then (s, .closed) else ({ s with active := s.active + 1 }, .active r.call)
  | .active p =>
    Conn.after { s with store := (Shutdown.step P env s.store p).1 } (Shutdown.step P env s.store p).2
  | .answered r => (s, .answered r)
  | .closed => (s, .closed)

def Main.hasExited : Main → Bool
  | .exited _ => true
  | _ => false

/-- Nothing moves once the process has exited. -/
def step (P : Primitives) (turn : Turn) (s : Shared) (c : Conn) : Shared × Conn :=
  if s.main.hasExited then (s, c)
  else match turn with
    | .conn env => connStep P env s c
    | .signal => ({ s with signalled := true }, c)
    | .acceptFails e =>
      (if s.serveErr.isNone && !s.inShutdown then
        { s with serveErr := some (some e), listening := false } else s, c)
    | .serveReturns =>
      (if s.serveErr.isNone && s.inShutdown then { s with serveErr := some none } else s, c)
    | .main preferSignal quiet deadline env => (mainStep P preferSignal quiet deadline env s, c)

def serving {ι : Type} (masterKey : Bytes) (t : Configs) (requests : ι → Request) :
    Pool Shared ι Conn where
  shared :=
    { store := { table := t, key := masterKey, closed := false, busy := false, sealedWith := [] }
      listening := true
      inShutdown := false
      active := 0
      allClosed := false
      signalled := false
      serveErr := none
      main := .selecting
      log := ["tabby-sync ready"] }
  procs i := .dialled (requests i)

def Conn.isActive : Conn → Bool
  | .active _ => true
  | _ => false

def Main.code : Main → Option Nat
  | .returned err => some (exitCode err)
  | .closing code _ => some code
  | .exited code => some code
  | _ => none

def Main.closes : Main → Bool
  | .closing _ _ | .exited _ => true
  | _ => false

/-! ## What a connection does -/

def Conn.call : Conn → Shutdown.Proc
  | .dialled r => r.call
  | .idle r => r.call
  | .active p => p
  | .answered r => .done r
  | .closed => .done (.unit (.ok ()))

section
variable {P : Primitives}

theorem after_call (s : Shared) (p : Shutdown.Proc) :
    (Conn.after s p).2.call = p ∧ (Conn.after s p).1.store = s.store := by
  unfold Conn.after
  split <;> exact ⟨rfl, rfl⟩

/-- The call of a request, which never becomes a `Close`. -/
def Serves (p : Shutdown.Proc) : Prop := p ≠ .close ∧ p ≠ .closeInner

/-- Only `Close` touches the key. -/
theorem serves_step {env : Env} {s : Server} {p : Shutdown.Proc} (hp : Serves p) :
    (Shutdown.step P env s p).1.key = s.key ∧ Serves (Shutdown.step P env s p).2 := by
  have hfailed : ∀ e, Serves (Shutdown.failed e) := fun e => ⟨by simp [Shutdown.failed],
    by simp [Shutdown.failed]⟩
  have hretry : ∀ userID configID patch idempotent e,
      Serves (Shutdown.updateFailed userID configID patch idempotent e) := by
    intro userID configID patch idempotent e
    unfold Shutdown.updateFailed
    split
    · exact ⟨by simp, by simp⟩
    · exact hfailed e
  have hquery : ∀ (refused : GoError → Shutdown.Proc) (granted : Server × Shutdown.Proc),
      (∀ e, Serves (refused e)) → granted.1.key = s.key ∧ Serves granted.2 →
      (s.query p refused granted).1.key = s.key ∧ Serves (s.query p refused granted).2 := by
    intro refused granted hrefused hgranted
    exact Shutdown.query_elim (motive := fun x => x.1.key = s.key ∧ Serves x.2)
      ⟨rfl, hrefused _⟩ ⟨rfl, hp⟩ fun _ => hgranted
  cases p with
  | create userID inp =>
    refine hquery _ _ (fun _ => hfailed _) ?_
    split
    · exact ⟨rfl, hfailed _⟩
    · exact ⟨rfl, by simp, by simp⟩
  | sealing userID inp id now =>
    simp only [Shutdown.step]
    split
    · exact ⟨rfl, hfailed _⟩
    · exact ⟨rfl, by simp, by simp⟩
  | inserting userID inp id now built key =>
    simp only [Shutdown.step]
    split
    · exact ⟨rfl, hfailed _⟩
    · exact ⟨rfl, by simp, by simp⟩
  | update userID configID patch =>
    simp only [Shutdown.step]
    split
    · exact ⟨rfl, hfailed _⟩
    · refine hquery _ _ hfailed ?_
      split
      · exact ⟨rfl, hfailed _⟩
      · exact ⟨rfl, by simp, by simp⟩
  | opening userID configID patch row =>
    simp only [Shutdown.step]
    split
    · exact ⟨rfl, hfailed _⟩
    · exact ⟨rfl, by simp, by simp⟩
  | comparing userID configID patch current =>
    simp only [Shutdown.step]
    split
    · exact ⟨rfl, hfailed _⟩
    · exact ⟨rfl, by simp, by simp⟩
  | writing userID configID patch idempotent inner key =>
    simp only [Shutdown.step]
    split
    · exact ⟨rfl, hretry _ _ _ _ _⟩
    · refine hquery _ _ (fun _ => hretry _ _ _ _ _) ?_
      split
      · exact ⟨rfl, hretry _ _ _ _ _⟩
      · exact ⟨rfl, by simp, by simp⟩
  | reloading userID configID patch idempotent =>
    refine hquery _ _ (fun _ => hretry _ _ _ _ _) ?_
    split
    · exact ⟨rfl, hretry _ _ _ _ _⟩
    · exact ⟨rfl, by simp, by simp⟩
  | returning userID configID =>
    refine hquery _ _ hfailed ?_
    split
    · exact ⟨rfl, hfailed _⟩
    · exact ⟨rfl, by simp, by simp⟩
  | answering userID configID row => exact ⟨rfl, by simp [Shutdown.step], by simp [Shutdown.step]⟩
  | close => exact absurd rfl hp.1
  | closeInner => exact absurd rfl hp.2
  | done r => exact ⟨rfl, by simp [Shutdown.step], by simp [Shutdown.step]⟩

def weight : Conn → ℕ
  | .active _ => 1
  | _ => 0

/-- What a connection's step changes: the store, by its call, and the count of active
connections, by what becomes of it. -/
structure ConnMove (s : Shared) (c : Conn) (x : Shared × Conn) : Prop where
  frame : ∃ store active, x.1 = { s with store := store, active := active }
  key : x.1.store.key = s.store.key
  serves : Serves x.2.call
  count : x.1.active + weight c = s.active + weight x.2
  closed : s.allClosed = true → weight c = 0 → weight x.2 = 0

theorem serves_call (r : Request) : Serves r.call := by
  cases r <;> exact ⟨by simp [Request.call], by simp [Request.call]⟩

theorem connStep_moves (env : Env) {s : Shared} {c : Conn} (hc : Serves c.call)
    (hcount : weight c ≤ s.active) : ConnMove s c (connStep P env s c) := by
  cases c with
  | dialled r =>
    rw [connStep]
    split
    · exact ⟨⟨_, _, rfl⟩, rfl, serves_call r, rfl, fun _ _ => rfl⟩
    · exact ⟨⟨_, _, rfl⟩, rfl, ⟨by simp [Conn.call], by simp [Conn.call]⟩, rfl, fun _ _ => rfl⟩
  | idle r =>
    rw [connStep]
    split
    · exact ⟨⟨_, _, rfl⟩, rfl, ⟨by simp [Conn.call], by simp [Conn.call]⟩, rfl, fun _ _ => rfl⟩
    · exact ⟨⟨_, _, rfl⟩, rfl, serves_call r, rfl, fun h => absurd h ‹_›⟩
  | active p =>
    obtain ⟨hkey, hserves⟩ : (Shutdown.step P env s.store p).1.key = s.store.key ∧
        Serves (Shutdown.step P env s.store p).2 := serves_step hc
    have hone : 1 ≤ s.active := hcount
    rw [connStep]
    unfold Conn.after
    split
    · exact ⟨⟨_, _, rfl⟩, hkey, ⟨by simp [Conn.call], by simp [Conn.call]⟩,
        Nat.sub_add_cancel hone, fun _ _ => rfl⟩
    · exact ⟨⟨_, _, rfl⟩, hkey, hserves, rfl, fun _ h => absurd h Nat.one_ne_zero⟩
  | answered r => exact ⟨⟨_, _, rfl⟩, rfl, hc, rfl, fun _ _ => rfl⟩
  | closed => exact ⟨⟨_, _, rfl⟩, rfl, hc, rfl, fun _ _ => rfl⟩

/-! ## What the main goroutine does -/

inductive MainMove (P : Primitives) (env : Env) (s : Shared) : Shared → Prop
  | stays : MainMove P env s s
  | shutsDown (line : String) (h : s.main = .selecting) : MainMove P env s
      ({ s with main := .shuttingDown, inShutdown := true, listening := false }.emit line)
  | drains (h : s.main = .shuttingDown) (hactive : s.active = 0) :
      MainMove P env s { s with allClosed := true, main := .draining }
  | fails (e : RunError) (h : s.main.closes = false) :
      MainMove P env s { s with main := .returned (some e) }
  | returns (r : ServeResult) (h : s.main = .selecting ∨ s.main = .draining)
      (hr : s.serveErr = some r) (log : List String) :
      MainMove P env s { s with main := .returned (runResult r), log := log }
  | closes (err : Option RunError) (line : String) (h : s.main = .returned err) :
      MainMove P env s ({ s with main := .closing (exitCode err) .close }.emit line)
  | closing (code : Nat) (p : Shutdown.Proc) (h : s.main = .closing code p) :
      MainMove P env s { s with
        store := (Shutdown.step P env s.store p).1
        main := .closing code (Shutdown.step P env s.store p).2 }
  | exits (code : Nat) (r : Encrypted.Result) (h : s.main = .closing code (.done r)) :
      MainMove P env s { s with main := .exited code }

theorem mainStep_moves (preferSignal quiet deadline : Bool) (env : Env) (s : Shared) :
    MainMove P env s (mainStep P preferSignal quiet deadline env s) := by
  unfold mainStep
  split
  · rename_i hmain
    split
    · exact .shutsDown _ hmain
    · unfold takeServeErr
      split
      · exact .stays
      · rename_i r hr
        exact .returns r (.inl hmain) hr s.log
  · rename_i hmain
    split
    · rename_i hquiet
      exact .drains hmain (by simpa using (Bool.and_eq_true_iff.mp hquiet).2)
    · split
      · exact .fails _ (by rw [hmain]; rfl)
      · exact .stays
  · rename_i hmain
    split
    · exact .stays
    · rename_i hr
      exact .returns none (.inr hmain) hr _
    · rename_i e hr
      exact .returns (some e) (.inr hmain) hr s.log
  · rename_i err hmain
    exact .closes err _ hmain
  · rename_i code r hmain
    exact .exits code r hmain
  · rename_i code p _ hmain
    exact .closing code p hmain
  · exact .stays

end

/-! ## The calls of the store -/

section
variable {ι : Type} {P : Primitives} {masterKey : Bytes}

def calls (s : Pool Shared ι Conn) : Pool Server ι Shutdown.Proc where
  shared := s.shared.store
  procs i := (s.procs i).call

/-- The steps of `Close` leave the table and the connection pool alone. -/
theorem safe_wipe {s : Pool Server ι Shutdown.Proc} (h : Safe P masterKey s) {x : Server}
    (htable : x.table = s.shared.table) (hbusy : x.busy = s.shared.busy)
    (hsealed : x.sealedWith = s.shared.sealedWith) : Safe P masterKey ⟨x, s.procs⟩ := by
  refine ⟨⟨?_, ?_⟩, fun i => (h.ready i).frame fun hi => ⟨htable, ?_⟩, h.exclusive⟩
  · rw [htable]
    exact h.kept.rows
  · rw [hsealed]
    exact h.kept.keys
  · rw [hbusy]
    exact (h.ready i).busy hi

variable [DecidableEq ι]

theorem safe_retire {s : Pool Server ι Shutdown.Proc} (h : Safe P masterKey s) (i : ι)
    (r : Encrypted.Result) :
    Safe P masterKey ⟨s.shared, Function.update s.procs i (.done r)⟩ := by
  have hholds : ∀ j, (Function.update s.procs i (.done r) j).holds = true →
      (s.procs j).holds = true := by
    intro j hj
    by_cases hji : j = i
    · subst hji
      rw [Function.update_self] at hj
      cases hj
    · rwa [Function.update_of_ne hji] at hj
  refine ⟨h.kept, fun j => ?_, fun j k hj hk => h.exclusive j k (hholds j hj) (hholds k hk)⟩
  show Ready P masterKey s.shared (Function.update s.procs i (.done r) j)
  by_cases hji : j = i
  · subst hji
    rw [Function.update_self]
    trivial
  · rw [Function.update_of_ne hji]
    exact h.ready j

theorem calls_update (s : Pool Shared ι Conn) (x : Shared) (i : ι) (c : Conn) :
    calls ⟨x, Function.update s.procs i c⟩ =
      ⟨x.store, Function.update (calls s).procs i c.call⟩ := by
  simp only [calls, Pool.mk.injEq, true_and]
  funext j
  by_cases hj : j = i
  · subst hj
    simp
  · simp [hj]

theorem safe_conn (hP : P.OpensSealed) {s : Pool Shared ι Conn} (h : Safe P masterKey (calls s))
    (i : ι) (env : Env) (hkey : (s.procs i).isActive = true → s.shared.store.key = masterKey) :
    Safe P masterKey (calls ⟨(connStep P env s.shared (s.procs i)).1,
      Function.update s.procs i (connStep P env s.shared (s.procs i)).2⟩) := by
  -- a step without a call of the store
  have hsame : ∀ c : Conn, c.call = (s.procs i).call →
      (⟨s.shared.store, Function.update (calls s).procs i c.call⟩ : Pool Server ι _) = calls s := by
    intro c hc
    rw [hc]
    exact congrArg (Pool.mk _) (Function.update_eq_self i (calls s).procs)
  rw [calls_update]
  cases hc : s.procs i with
  | dialled r =>
    rw [connStep]
    split
    · rw [hsame _ (by rw [hc]; rfl)]
      exact h
    · exact safe_retire h i _
  | idle r =>
    rw [connStep]
    split
    · exact safe_retire h i _
    · simp only
      rw [hsame _ (by rw [hc]; rfl)]
      exact h
  | active p =>
    rw [connStep]
    obtain ⟨hcall, hstore⟩ := after_call
      { s.shared with store := (Shutdown.step P env s.shared.store p).1 }
      (Shutdown.step P env s.shared.store p).2
    rw [hcall, hstore]
    have hp : (calls s).procs i = p := by simp [calls, hc, Conn.call]
    have hseals : SealsWith masterKey (calls s).shared ((calls s).procs i) := by
      have hk : s.shared.store.key = masterKey := hkey (by rw [hc]; rfl)
      rw [hp]
      unfold SealsWith
      split
      · exact hk
      · exact fun _ => hk
      · trivial
    have hfire : Safe P masterKey (Pool.fire (Shutdown.step P) (calls s) (i, env)) :=
      Shutdown.safe_fire hP h hseals
    rw [Pool.fire, hp] at hfire
    exact hfire
  | answered r =>
    rw [connStep, hsame _ (by rw [hc])]
    exact h
  | closed =>
    rw [connStep, hsame _ (by rw [hc])]
    exact h

end

/-! ## Every run -/

section
variable {ι : Type} [Fintype ι] {P : Primitives} {masterKey : Bytes}

/-- What holds at every moment; the store may be in disorder only while it is closed on the
way to an exit code other than 0. -/
structure Orderly (P : Primitives) (masterKey : Bytes) (s : Pool Shared ι Conn) : Prop where
  count : s.shared.active = Pool.total weight s
  quiet : s.shared.allClosed = true → s.shared.active = 0
  select : s.shared.main = .selecting → s.shared.inShutdown = false
  serveErr : s.shared.serveErr = some none → s.shared.inShutdown = true
  drained : s.shared.main = .draining ∨ s.shared.main.code = some 0 → s.shared.allClosed = true
  closing : ∀ code p, s.shared.main = .closing code p →
    p = .close ∨ p = .closeInner ∨ ∃ r, p = .done r
  serves : ∀ i, Serves (s.procs i).call
  key : s.shared.main.closes = false → s.shared.store.key = masterKey
  store : s.shared.main.closes = false ∨ s.shared.main.code = some 0 → Safe P masterKey (calls s)

variable {s : Pool Shared ι Conn}

theorem Orderly.weight_eq_zero (h : Orderly P masterKey s) (hclosed : s.shared.allClosed = true)
    (i : ι) : weight (s.procs i) = 0 := by
  have htotal : ∑ i, weight (s.procs i) = 0 := h.count.symm.trans (h.quiet hclosed)
  exact Finset.sum_eq_zero_iff.mp htotal i (Finset.mem_univ i)

theorem Orderly.weight_le (h : Orderly P masterKey s) (i : ι) :
    weight (s.procs i) ≤ s.shared.active := by
  rw [h.count]
  exact Finset.single_le_sum (f := fun i => weight (s.procs i)) (fun _ _ => Nat.zero_le _)
    (Finset.mem_univ i)

theorem Orderly.main (h : Orderly P masterKey s) {env : Env} {x : Shared}
    (hmove : MainMove P env s.shared x) : Orderly P masterKey ⟨x, s.procs⟩ := by
  cases hmove with
  | stays => exact h
  | shutsDown line hmain =>
    have hopen : s.shared.main.closes = false := by rw [hmain]; rfl
    exact ⟨h.count, h.quiet, by simp [Shared.emit], fun _ => rfl, by simp [Shared.emit, Main.code],
      by simp [Shared.emit], h.serves, fun _ => h.key hopen, fun _ => h.store (.inl hopen)⟩
  | drains hmain hactive =>
    have hopen : s.shared.main.closes = false := by rw [hmain]; rfl
    exact ⟨h.count, fun _ => hactive, by simp, h.serveErr, fun _ => rfl, by simp, h.serves,
      fun _ => h.key hopen, fun _ => h.store (.inl hopen)⟩
  | fails e hopen =>
    exact ⟨h.count, h.quiet, by simp, h.serveErr, by simp [Main.code, exitCode], by simp, h.serves,
      fun _ => h.key hopen, fun _ => h.store (.inl hopen)⟩
  | returns r hmain hr log =>
    have hopen : s.shared.main.closes = false := by rcases hmain with hm | hm <;> rw [hm] <;> rfl
    refine ⟨h.count, h.quiet, by simp, h.serveErr, fun hcode => ?_, by simp, h.serves,
      fun _ => h.key hopen, fun _ => h.store (.inl hopen)⟩
    -- a result without an error comes after the shutdown
    rcases hmain with hselect | hdrain
    · cases r with
      | none =>
        have hno := h.select hselect
        rw [h.serveErr hr] at hno
        cases hno
      | some e => simp [Main.code, runResult, exitCode] at hcode
    · exact h.drained (.inl hdrain)
  | closes err line hmain =>
    have hopen : s.shared.main.closes = false := by rw [hmain]; rfl
    refine ⟨h.count, h.quiet, by simp [Shared.emit], h.serveErr, fun hcode => ?_, ?_, h.serves,
      by simp [Shared.emit, Main.closes], fun _ => h.store (.inl hopen)⟩
    · refine h.drained (.inr ?_)
      rw [hmain]
      simpa [Shared.emit, Main.code] using hcode
    · intro code p hp
      simp only [Shared.emit, Main.closing.injEq] at hp
      exact .inl hp.2.symm
  | closing code p hmain =>
    have hcases := h.closing code p hmain
    refine ⟨h.count, h.quiet, by simp, h.serveErr, fun hcode => ?_, ?_, h.serves,
      by simp [Main.closes], fun hcode => ?_⟩
    · refine h.drained (.inr ?_)
      rw [hmain]
      simpa [Main.code] using hcode
    · rintro code' p' hp
      simp only [Main.closing.injEq] at hp
      rw [← hp.2]
      rcases hcases with rfl | rfl | ⟨r, rfl⟩
      · exact .inr (.inl rfl)
      · exact .inr (.inr ⟨_, rfl⟩)
      · exact .inr (.inr ⟨_, rfl⟩)
    · have hsafe := h.store (.inr (by rw [hmain]; simpa [Main.code, Main.closes] using hcode))
      rcases hcases with rfl | rfl | ⟨r, rfl⟩
      · exact safe_wipe hsafe rfl rfl rfl
      · exact safe_wipe hsafe rfl rfl rfl
      · exact hsafe
  | exits code r hmain =>
    refine ⟨h.count, h.quiet, by simp, h.serveErr, fun hcode => ?_, by simp, h.serves,
      by simp [Main.closes], fun hcode => ?_⟩
    · refine h.drained (.inr ?_)
      rw [hmain]
      simpa [Main.code] using hcode
    · exact h.store (.inr (by rw [hmain]; simpa [Main.code, Main.closes] using hcode))

theorem orderly_serving {t : Configs} (hrows : ∀ r ∈ t.rows, Opens P masterKey r)
    (requests : ι → Request) : Orderly P masterKey (serving masterKey t requests) where
  count := (Finset.sum_eq_zero fun _ _ => rfl).symm
  quiet := by simp [serving]
  select _ := rfl
  serveErr := by simp [serving]
  drained := by simp [serving, Main.code]
  closing := by simp [serving]
  serves i := serves_call (requests i)
  key _ := rfl
  store _ := by
    have hholds : ∀ r : Request, r.call.holds = false := fun r => by cases r <;> rfl
    refine ⟨⟨hrows, by simp [calls, serving]⟩, fun i => ?_, fun i j hi => ?_⟩
    · show Ready P masterKey _ (requests i).call
      cases requests i <;> trivial
    · have hno := hholds (requests i)
      rw [show (requests i).call.holds = true from hi] at hno
      cases hno

variable [DecidableEq ι]

theorem Orderly.conn (h : Orderly P masterKey s) (hP : P.OpensSealed) (i : ι) (env : Env) :
    Orderly P masterKey ⟨(connStep P env s.shared (s.procs i)).1,
      Function.update s.procs i (connStep P env s.shared (s.procs i)).2⟩ := by
  have hmove : ConnMove s.shared (s.procs i) (connStep P env s.shared (s.procs i)) :=
    connStep_moves env (h.serves i) (h.weight_le i)
  -- with the store being closed on the way to code 0, this connection has no request
  have hactive : (s.procs i).isActive = true →
      s.shared.main.closes = false ∨ s.shared.main.code = some 0 →
      s.shared.store.key = masterKey := by
    rintro hi (hopen | hzero)
    · exact h.key hopen
    · have hnone := h.weight_eq_zero (h.drained (.inr hzero)) i
      cases hc : s.procs i with
      | active p =>
        rw [hc] at hnone
        cases hnone
      | _ =>
        rw [hc] at hi
        cases hi
  have hsafe := fun hs => safe_conn hP (h.store hs) i env fun hi => hactive hi hs
  have htotal : Pool.total weight ⟨(connStep P env s.shared (s.procs i)).1,
      Function.update s.procs i (connStep P env s.shared (s.procs i)).2⟩ + weight (s.procs i) =
      Pool.total weight s + weight (connStep P env s.shared (s.procs i)).2 :=
    @Pool.total_fire _ _ _ Unit _ (fun _ _ _ => connStep P env s.shared (s.procs i)) _ weight s (i, ())
  generalize connStep P env s.shared (s.procs i) = x at hmove hsafe htotal
  obtain ⟨x, c⟩ := x
  obtain ⟨store, active, rfl⟩ := hmove.frame
  have hcount := hmove.count
  refine ⟨?_, fun hclosed => ?_, h.select, h.serveErr, h.drained, h.closing, fun j => ?_,
    fun hopen => hmove.key.trans (h.key hopen), hsafe⟩
  · have := h.count
    simp only at hcount htotal ⊢
    omega
  · have hbefore := h.weight_eq_zero hclosed i
    have hafter := hmove.closed hclosed hbefore
    have hzero := h.quiet hclosed
    simp only at hcount hafter ⊢
    omega
  · show Serves (Function.update s.procs i c j).call
    by_cases hj : j = i
    · subst hj
      rw [Function.update_self]
      exact hmove.serves
    · rw [Function.update_of_ne hj]
      exact h.serves j

theorem orderly_fire (hP : P.OpensSealed) (h : Orderly P masterKey s) (ev : ι × Turn) :
    Orderly P masterKey (Pool.fire (step P) s ev) := by
  obtain ⟨i, turn⟩ := ev
  -- a step that leaves the connection as it is
  have hkeep : ∀ x, step P turn s.shared (s.procs i) = (x, s.procs i) →
      Orderly P masterKey ⟨x, s.procs⟩ → Orderly P masterKey (Pool.fire (step P) s (i, turn)) := by
    intro x hx ho
    rw [Pool.fire, hx, Function.update_eq_self]
    exact ho
  by_cases hexit : s.shared.main.hasExited = true
  · exact hkeep s.shared (if_pos hexit) h
  cases turn with
  | conn env =>
    have hstep : step P (.conn env) s.shared (s.procs i) = connStep P env s.shared (s.procs i) :=
      if_neg hexit
    rw [Pool.fire, hstep]
    exact h.conn hP i env
  | signal =>
    exact hkeep _ (if_neg hexit) ⟨h.count, h.quiet, h.select, h.serveErr, h.drained, h.closing,
      h.serves, h.key, h.store⟩
  | acceptFails e =>
    refine hkeep _ (if_neg hexit) ?_
    split
    · exact ⟨h.count, h.quiet, h.select, by simp, h.drained, h.closing, h.serves, h.key, h.store⟩
    · exact h
  | serveReturns =>
    refine hkeep _ (if_neg hexit) ?_
    split
    · rename_i hdown
      exact ⟨h.count, h.quiet, h.select, fun _ => (Bool.and_eq_true_iff.mp hdown).2, h.drained,
        h.closing, h.serves, h.key, h.store⟩
    · exact h
  | main preferSignal quiet deadline env =>
    exact hkeep _ (if_neg hexit) (h.main (mainStep_moves preferSignal quiet deadline env s.shared))

/-- In every run, as long as the store is not being closed on the way to another exit code
than 0: every committed row opens under the master key and was sealed under it. If the
exit code is 0, then no request is under way from the moment `Run` returns, so the key is
wiped with no call on the store. -/
theorem exit_zero_after_requests (hP : P.OpensSealed) {t : Configs}
    (hrows : ∀ r ∈ t.rows, Opens P masterKey r) (requests : ι → Request)
    (events : List (ι × Turn)) {s : Pool Shared ι Conn}
    (hs : Pool.run (step P) (serving masterKey t requests) events = s) :
    (s.shared.main.closes = false ∨ s.shared.main.code = some 0 →
        (∀ r ∈ s.shared.store.table.rows, Opens P masterKey r) ∧
          ∀ k ∈ s.shared.store.sealedWith, k = masterKey) ∧
      (s.shared.main.code = some 0 → ∀ i, (s.procs i).isActive = false) ∧
      (s.shared.main.closes = false → s.shared.store.key = masterKey) := by
  have h : Orderly P masterKey s := hs ▸ Pool.run_invariant (I := Orderly P masterKey)
    (fun _ ev ho => orderly_fire hP ho ev) (orderly_serving hrows requests) events
  refine ⟨fun hopen => ⟨(h.store hopen).kept.rows, (h.store hopen).kept.keys⟩, fun hzero i => ?_,
    h.key⟩
  have hnone := h.weight_eq_zero (h.drained (.inr hzero)) i
  cases hc : s.procs i with
  | active p =>
    rw [hc] at hnone
    cases hnone
  | _ => rfl

end

/-- A shutdown that has begun ends well once no request is active: the next look at the
connections finds none, `Serve` returns, and the main goroutine goes on to exit code 0. -/
theorem drained_exits {ι : Type} [DecidableEq ι] {P : Primitives} (s : Pool Shared ι Conn)
    (i : ι) (env : Env)
    (hmain : s.shared.main = .shuttingDown) (hdown : s.shared.inShutdown = true)
    (hactive : s.shared.active = 0) (hserve : s.shared.serveErr = none) :
    (Pool.run (step P) s ([(i, .main false true false env), (i, .serveReturns)] ++
      List.replicate 5 (i, .main false false false env))).shared.main = .exited 0 := by
  simp [Pool.run, Pool.fire, step, mainStep, Main.hasExited, hmain, hdown, hactive, hserve,
    List.replicate, Shared.emit, exitCode, Shutdown.step]

/-! ## A create and a signal -/

def twoCreates : Fin 2 → Request
  | 0 => .create 1 ⟨"a", [1], ""⟩
  | 1 => .create 1 ⟨"b", [2], ""⟩

/-- The first request is served, the second comes too late. -/
def stoppedRun : Pool Shared (Fin 2) Conn :=
  Pool.run (step transparent) (serving Shutdown.closingKey (AutoTable.empty 0) twoCreates)
    (Pool.schedule ([(0, .conn (Encrypted.envAt 5)), (0, .conn (Encrypted.envAt 5)),
      (0, .signal), (0, .main true false false (Encrypted.envAt 5)),
      (1, .conn (Encrypted.envAt 5)), (0, .conn (Encrypted.envAt 5)),
      (0, .conn (Encrypted.envAt 5)), (0, .conn (Encrypted.envAt 5)),
      (0, .main false true false (Encrypted.envAt 5)), (0, .serveReturns)] ++
      List.replicate 5 (0, .main false false false (Encrypted.envAt 5))))

theorem exit_zero_after_requests_stopped : stoppedRun.shared.main.code = some 0 ∧
    stoppedRun.shared.store.table.rows.length = 1 ∧
    ∀ r ∈ stoppedRun.shared.store.table.rows, Opens transparent Shutdown.closingKey r := by
  have hcode : stoppedRun.shared.main.code = some 0 := by decide +kernel
  obtain ⟨hstore, -, -⟩ := exit_zero_after_requests transparent_opensSealed
    (t := AutoTable.empty 0) (by simp) twoCreates _ (s := stoppedRun) rfl
  exact ⟨hcode, by decide +kernel, (hstore (.inr hcode)).1⟩

end TabbySync.Lifecycle
