import TabbySync.Server.Service

/-! # What every response carries

Whatever becomes of a request, a 401, 413, 429 or a panic included, the response carries
the security and CORS headers. Every request but a preflight is answered with its id and
leaves exactly one access line, with what the recorder of `AccessLog` holds; the line is
left out only where the handler aborts the connection. If the mux does not begin with a
`Flush` or an informational status, as the API never does, the line tells the status and
the size of the body that net/http was given. (It does not send the body to a HEAD.) -/

namespace TabbySync.Server
open TabbySync.Library TabbySync.Library.Text TabbySync.Library.Rfc3339 TabbySync.Auth

/-! ## Request ids -/

theorem isRequestIDChar_of_hexDigit {ch : Char} (h : isHexDigit ch = true) :
    isRequestIDChar ch = true := by
  have hall : hexDigits.all isRequestIDChar = true := by decide
  exact List.all_eq_true.mp hall ch (List.contains_iff_mem.mp h)

theorem all_isRequestIDChar_appendInt (x width : Nat) :
    (appendInt x width).all isRequestIDChar = true := by
  rw [List.all_eq_true]
  intro ch hch
  simp [isRequestIDChar, appendInt_digits ch hch]

/-- A time of the years the layout can hold has 25 characters, all of them allowed. -/
theorem compactChars_allowed {t : Int} (h : Representable t) :
    (compactChars t).length = 25 ∧ (compactChars t).all isRequestIDChar = true := by
  obtain ⟨-, hmonth, -, hdays, -⟩ := dateOfDay_spec (t / nanosPerDay)
  obtain ⟨hyear0, hyear⟩ := h
  have htod : (t % nanosPerDay).toNat < 86400 * nanosPerSecond := by
    simp only [nanosPerDay, nanosPerSecond]
    omega
  simp only [compactChars]
  generalize dateOfDay (t / nanosPerDay) = date at *
  generalize (t % nanosPerDay).toNat = tod at *
  have hday : date.day ≤ 31 := le_trans hdays (by unfold daysIn; split <;> split <;> omega)
  have hpositive : appendYear date.year = appendInt date.year.natAbs 4 := if_neg (by omega)
  simp only [nanosPerSecond] at htod ⊢
  rw [hpositive]
  constructor
  · simp only [List.length_append, List.length_cons]
    rw [appendInt_length (by decide) (by omega), appendInt_length (by decide) (by omega),
      appendInt_length (by decide) (by omega), appendInt_length (by decide) (by omega),
      appendInt_length (by decide) (by omega), appendInt_length (by decide) (by omega),
      appendInt_length (by decide) (by omega)]
  · simp only [List.all_append, List.all_cons, all_isRequestIDChar_appendInt, Bool.true_and,
      Bool.and_true]
    decide

/-- The id the server makes up passes the check on ids that clients send. -/
theorem requestIDPattern_newRequestID (random : Option (Vector UInt8 16)) {now : Int}
    (h : Representable now) : requestIDPattern (newRequestID random now) = true := by
  cases random with
  | some buf =>
    have hlen : (hexEncode buf.toList).toList.length = 32 := by
      rw [length_hexEncode]
      simp
    simp only [requestIDPattern, newRequestID, hlen, Bool.and_eq_true, decide_eq_true_eq,
      List.all_eq_true]
    exact ⟨by decide, fun ch hch => isRequestIDChar_of_hexDigit (isHexDigit_of_mem_hexEncode hch)⟩
  | none =>
    obtain ⟨hlen, hall⟩ := compactChars_allowed h
    simp only [requestIDPattern, newRequestID, String.toList_ofList, List.length_cons, hlen,
      List.all_cons, hall]
    decide

/-! ## The line and the headers -/

def LogEntry.isAccess : LogEntry → Bool
  | .access .. => true
  | _ => false

/-- What `AccessLog` logs of a call, by its recorder. -/
def accessLine {σ W : Type} (N : Net) (c : Call σ) (recorder : StatusRecorder W) : LogEntry :=
  .access c.request.method c.request.path recorder.status c.turn.durationMs recorder.bytes
    (accessLogIP N (clientAddr N c.request)) (idFor c.turn c.request) c.request.userAgent

/-- The headers set in front of the access log. -/
def openingHeaders (id : String) : List (String × String) :=
  conservativeHeaders ++ corsHeaders ++ [("X-Request-Id", id)]

def openingNames : List String := (openingHeaders "").map Prod.fst

/-- The names do not depend on the id, and are different. -/
theorem map_openingHeaders (id : String) : (openingHeaders id).map Prod.fst = openingNames := rfl

theorem nodup_openingNames : openingNames.Nodup := by decide

/-! ## Headers stay -/

/-- Of the headers set in front of the access log, those that were there are still. -/
def Keeps (w w' : Writer) : Prop := ∀ id, ∀ h ∈ openingHeaders id, h ∈ w.header → h ∈ w'.header

/-- A header of another name, or one of them with the value that it has. -/
def Harmless (pair : String × String) : Prop :=
  pair.1 ∉ openingNames ∨ pair ∈ conservativeHeaders ++ corsHeaders

instance (pair : String × String) : Decidable (Harmless pair) :=
  inferInstanceAs (Decidable (_ ∨ _))

section
variable {w w' w'' : Writer} {key value : String} {h : String × String}
  {pairs : List (String × String)}

theorem Keeps.refl (w : Writer) : Keeps w w := fun _ _ _ hh => hh

theorem Keeps.trans (h₁ : Keeps w w') (h₂ : Keeps w' w'') : Keeps w w'' :=
  fun id h hopen hh => h₂ id h hopen (h₁ id h hopen hh)

theorem mem_set_of_ne (hh : h ∈ w.header) (hne : h.1 ≠ key) : h ∈ (w.set key value).header :=
  List.mem_append_left _ (List.mem_filter.mpr ⟨hh, by simpa using hne⟩)

theorem keeps_set (hpair : Harmless (key, value)) : Keeps w (w.set key value) := by
  intro id h hopen hh
  by_cases hkey : h.1 = key
  · have hname : key ∈ openingNames := by
      rw [← hkey, ← map_openingHeaders id]
      exact List.mem_map_of_mem hopen
    have hfixed : (key, value) ∈ openingHeaders id :=
      List.mem_append_left _ (hpair.resolve_left (not_not.mpr hname))
    -- there is one header of the name
    have hsame : h = (key, value) := by
      have hnames : ((openingHeaders id).map Prod.fst).Nodup := nodup_openingNames
      exact List.inj_on_of_nodup_map hnames hopen hfixed hkey
    rw [hsame]
    exact List.mem_append_right _ (List.mem_singleton_self _)
  · exact mem_set_of_ne hh hkey

theorem keeps_setAll (hpairs : ∀ pair ∈ pairs, Harmless pair) : Keeps w (w.setAll pairs) := by
  induction pairs generalizing w with
  | nil => exact .refl w
  | cons pair pairs ih =>
    exact (keeps_set (hpairs pair (by simp))).trans (ih fun p hp => hpairs p (by simp [hp]))

theorem mem_setAll_of_notMem (hh : h ∈ w.header) (hname : h.1 ∉ pairs.map Prod.fst) :
    h ∈ (w.setAll pairs).header := by
  induction pairs generalizing w with
  | nil => exact hh
  | cons pair pairs ih =>
    simp only [List.map_cons, List.mem_cons, not_or] at hname
    exact ih (mem_set_of_ne hh hname.1) hname.2

/-- Headers of different names are all there after they were set. -/
theorem mem_setAll (hnames : (pairs.map Prod.fst).Nodup) (hh : h ∈ pairs) :
    h ∈ (w.setAll pairs).header := by
  induction pairs generalizing w with
  | nil => cases hh
  | cons pair pairs ih =>
    obtain ⟨hnew, hrest⟩ := List.nodup_cons.mp hnames
    rcases List.mem_cons.mp hh with rfl | hmem
    · have hset : h ∈ (w.set h.1 h.2).header :=
        List.mem_append_right _ (List.mem_singleton_self _)
      show h ∈ ((w.set h.1 h.2).setAll pairs).header
      exact mem_setAll_of_notMem hset hnew
    · exact ih hrest hmem

end

/-! ## Calls on the writer -/

def Writer.play (w : Writer) (calls : List WriterCall) : Writer := calls.foldl Writer.perform w

def Writer.withHeader (w : Writer) (header : List (String × String)) : Writer :=
  { w with header := header }

/-- The handler has made these calls on its writer, and has left the headers set before
it. -/
structure Acts (calls : List WriterCall) (w w' : Writer) : Prop where
  headers : Keeps w w'
  made : w' = (w.play calls).withHeader w'.header

section
variable {w w' w'' : Writer} {calls calls' : List WriterCall} {key value text : String} {code : Nat}
  {pairs : List (String × String)}

/-- The calls go to the layers. -/
theorem play_eq (w : Writer) (calls : List WriterCall) :
    w.play calls = { w with layers := (layered w.accepts w.depth).run w.layers calls } := by
  induction calls generalizing w with
  | nil => rfl
  | cons call calls ih => exact ih (w.perform call)

theorem play_withHeader (w : Writer) (header : List (String × String)) (calls : List WriterCall) :
    (w.withHeader header).play calls = (w.play calls).withHeader header := by
  rw [play_eq (w.withHeader header), play_eq w]
  rfl

theorem Acts.refl (w : Writer) : Acts [] w w := ⟨.refl w, rfl⟩

theorem Acts.trans (h : Acts calls w w') (h' : Acts calls' w' w'') :
    Acts (calls ++ calls') w w'' := by
  refine ⟨h.headers.trans h'.headers, ?_⟩
  calc w'' = (w'.play calls').withHeader w''.header := h'.made
    _ = (((w.play calls).withHeader w'.header).play calls').withHeader w''.header := by
      rw [← h.made]
    _ = ((w.play calls).play calls').withHeader w''.header := by rw [play_withHeader]; rfl
    _ = (w.play (calls ++ calls')).withHeader w''.header := by
      rw [Writer.play, Writer.play, Writer.play, List.foldl_append]

theorem acts_setAll (hpairs : ∀ pair ∈ pairs, Harmless pair) :
    Acts [] w (w.setAll pairs) := by
  refine ⟨keeps_setAll hpairs, ?_⟩
  induction pairs generalizing w with
  | nil => rfl
  | cons pair pairs ih =>
    rw [show w.setAll (pair :: pairs) = (w.set pair.1 pair.2).setAll pairs from rfl,
      ih fun p hp => hpairs p (by simp [hp])]
    rfl

theorem acts_perform (w : Writer) (call : WriterCall) : Acts [call] w (w.perform call) :=
  ⟨fun _ _ _ hh => hh, rfl⟩

/-- A status and a text, after some headers. -/
theorem acts_answer (pairs : List (String × String)) (hpairs : ∀ pair ∈ pairs, Harmless pair) :
    Acts [.writeHeader code, .write text.toUTF8.toList] w
      (((w.setAll pairs).writeHeader code).write text) :=
  ((acts_setAll hpairs).trans (acts_perform _ (.writeHeader code))).trans (acts_perform _ _)

theorem acts_plainError (w : Writer) (code : Nat) (text : String) :
    Acts [.writeHeader code, .write text.toUTF8.toList] w (plainError w code text) :=
  acts_answer [("Content-Type", "text/plain; charset=utf-8")] (by decide)

theorem acts_writeUnauthorized (w : Writer) : ∃ text, Acts [.writeHeader 401, .write text] w
    (writeUnauthorized w) := ⟨_, acts_answer _ (by decide)⟩

theorem acts_tooManyRequests (w : Writer) (l : Limiter) :
    ∃ text, Acts [.writeHeader 429, .write text] w (tooManyRequests w l) := by
  refine ⟨_, acts_answer _ fun pair hpair => ?_⟩
  have hname : pair.1 ∈ ["Content-Type", "Retry-After"] := List.mem_map_of_mem hpair
  exact .inl ((by decide : ∀ name ∈ ["Content-Type", "Retry-After"], name ∉ openingNames) _ hname)

/-- Inside the two recorders the calls are recorded. -/
theorem Acts.recorded {header : List (String × String)} {accepts : Response → Bytes → Nat}
    (h : Acts calls ⟨header, accepts, 2, recoverRecorder (accessLogRecorder Response.empty)⟩ w') :
    w' = ⟨w'.header, accepts, 2, recorded accepts calls⟩ :=
  h.made.trans (by rw [play_eq]; rfl)

end

/-! ## The API's calls -/

/-- `http.Error`, which the muxes answer with where no route matches. -/
def httpError (text : String) (code : Nat) (w : Writer) : Writer :=
  ((w.setAll [("Content-Type", "text/plain; charset=utf-8"), ("X-Content-Type-Options", "nosniff")])
    |>.writeHeader code).write (text ++ "\n")

/-- A request that has been answered has a final status. -/
def Concluded : Api.Handler → Prop
  | .responded reply => isInformational reply.status = false
  | .calling .. => True

theorem concluded_writeStoreError (op : String) (userID configID : Int64) (err : GoError) :
    Concluded (.responded (Api.writeStoreError op userID configID err)) := by
  unfold Api.writeStoreError
  split
  · rfl
  · split <;> rfl

theorem concluded_configReply {status : Nat} (hstatus : isInformational status = false) (op : String)
    (userID configID : Int64) (x : Except GoError ConfigWithPlaintext) :
    Concluded (.responded (Api.configReply status op userID configID x)) := by
  cases x with
  | error err => exact concluded_writeStoreError op userID configID err
  | ok row => exact hstatus

theorem concluded_resume (userID : Int64) (op : Api.Op) (x : Encrypted.Result) :
    Concluded (Api.resume userID op x) := by
  unfold Api.resume
  split
  · exact concluded_writeStoreError ..
  · rfl
  · exact concluded_configReply rfl ..
  · exact concluded_writeStoreError ..
  · split
    · rfl
    · trivial
  · exact concluded_configReply rfl ..
  · exact concluded_configReply rfl ..
  · exact concluded_writeStoreError ..
  · rfl
  · rfl

theorem Concluded.step {h : Api.Handler} (hh : Concluded h) (P : Crypto.Primitives)
    (masterKey : Bytes) (env : Encrypted.Env) (t : Sqlite.Configs) :
    Concluded (h.step P masterKey env t).2 := by
  cases h with
  | responded reply => exact hh
  | calling userID op call =>
    show Concluded (Api.advance userID op _)
    unfold Api.advance
    split
    · exact concluded_resume userID op _
    · trivial

theorem Concluded.serve {h : Api.Handler} (hh : Concluded h) (P : Crypto.Primitives)
    (masterKey : Bytes) (envs : List Encrypted.Env) (t : Sqlite.Configs) :
    Concluded (Api.serve P masterKey envs t h).2 := by
  induction envs generalizing h t with
  | nil => exact hh
  | cons env envs ih => exact ih (hh.step P masterKey env t) _

/-- A check that fails gives a final status. -/
def Refuses {α : Type} (x : Except Api.Reply α) : Prop :=
  ∀ reply, x = .error reply → isInformational reply.status = false

theorem refuses_currentUser (user : Option User) : Refuses (Api.currentUser user) := by
  intro reply h
  cases user with
  | some u => cases h
  | none =>
    cases h
    rfl

theorem refuses_parseConfigID (raw : String) : Refuses (Api.parseConfigID raw) := by
  intro reply h
  unfold Api.parseConfigID at h
  split at h
  · cases h
    rfl
  · split at h
    · cases h
      rfl
    · cases h

theorem refuses_decodeJSON {α : Type} (decode : Bytes → Option (α × Bytes)) (body : Option Bytes) :
    Refuses (Api.decodeJSON decode body) := by
  intro reply h
  unfold Api.decodeJSON at h
  split at h
  · cases h
    rfl
  · split at h
    · cases h
      rfl
    · split at h
      · cases h
        rfl
      · cases h

/-- A check in front of the rest of a handler. -/
theorem concluded_bind {α : Type} {x : Except Api.Reply α} {f : α → Except Api.Reply Api.Handler}
    (hx : Refuses x) (hf : ∀ a, Concluded (Api.orRespond (f a))) :
    Concluded (Api.orRespond (x >>= f)) := by
  cases x with
  | error reply => exact hx reply rfl
  | ok a => exact hf a

theorem concluded_handle (J : Api.Json) (user : Option User) (req : Api.Request) :
    Concluded (Api.handle J user req) := by
  cases req with
  | getUser => exact concluded_bind (refuses_currentUser user) fun u => rfl
  | listConfigs => exact concluded_bind (refuses_currentUser user) fun u => trivial
  | getConfig raw =>
    refine concluded_bind (refuses_currentUser user) fun u => ?_
    exact concluded_bind (refuses_parseConfigID raw) fun id => trivial
  | createConfig body =>
    refine concluded_bind (refuses_currentUser user) fun u => ?_
    refine concluded_bind (refuses_decodeJSON _ body) fun req => ?_
    split
    · rfl
    · trivial
  | patchConfig raw body =>
    refine concluded_bind (refuses_currentUser user) fun u => ?_
    refine concluded_bind (refuses_parseConfigID raw) fun id => ?_
    refine concluded_bind (refuses_decodeJSON _ body) fun req => ?_
    split
    · rfl
    · split
      · rfl
      · trivial
  | deleteConfig raw =>
    refine concluded_bind (refuses_currentUser user) fun u => ?_
    exact concluded_bind (refuses_parseConfigID raw) fun id => trivial

/-- The API acts on its writer by recordable calls, if the muxes themselves do. -/
theorem acts_api (S : Service)
    (hown : ∀ r answer, S.route r = .own answer →
      ∀ w, ∃ calls, Acts calls w (answer w) ∧ recordable calls = true)
    (envs : List Encrypted.Env) (r : Request) (w : Writer) (t : Sqlite.Configs) :
    ∃ calls, Acts calls w (S.api envs r w t).2.1 ∧ recordable calls = true := by
  unfold Service.api
  split
  · exact ⟨_, acts_answer [("Content-Type", "text/plain; charset=utf-8")] (by decide),
      rfl⟩
  · exact hown r _ ‹_› w
  · rename_i e _
    dsimp only
    have hreply := (concluded_handle S.json r.user (e.request r.body)).serve S.primitives S.masterKey
      envs t
    split
    · rename_i reply hresponded
      rw [hresponded] at hreply
      have hfinal : isInformational reply.status = false := hreply
      unfold Service.writeReply
      split
      · exact ⟨_, acts_perform w (.writeHeader reply.status), by simp [recordable, hfinal]⟩
      · exact ⟨_, acts_answer [("Content-Type", "application/json; charset=utf-8")]
          (by decide), by simp [recordable, hfinal]⟩
    · exact ⟨[], .refl w, rfl⟩

/-! ## Handlers that write no access line -/

/-- A result as everything inside the access log leaves it. `plain` says that the mux's
calls are recordable. -/
structure Accounts {σ : Type} (plain : Prop) (c : Call σ) (d : Done σ) : Prop where
  calls : ∃ calls, Acts calls c.writer d.writer ∧ (plain → recordable calls = true)
  log : ∃ es, d.state.log = c.state.log ++ es ∧ ∀ e ∈ es, e.isAccess = false

def Modest {σ : Type} (plain : Prop) (h : Handler σ) : Prop := ∀ c, Accounts plain c (h c)

section
variable {σ : Type} {plain : Prop} {c c' : Call σ} {d : Done σ} {next : Handler σ}
  {code : Nat} {text : Bytes}

/-- An answer of a middleware, with a line in the log or none. -/
theorem accounts_answer (hw : Acts [.writeHeader code, .write text] c.writer d.writer)
    (hfinal : isInformational code = false) (es : List LogEntry)
    (hlog : d.state.log = c.state.log ++ es) (hes : ∀ e ∈ es, e.isAccess = false) :
    Accounts plain c d :=
  ⟨⟨_, hw, fun _ => by simp [recordable, hfinal]⟩, es, hlog, hes⟩

/-- A call handed on with a line in the log, or none. -/
theorem Accounts.of_next (h : Accounts plain c' d) (es : List LogEntry) (hw : c'.writer = c.writer)
    (hlog : c'.state.log = c.state.log ++ es) (hes : ∀ e ∈ es, e.isAccess = false) :
    Accounts plain c d := by
  obtain ⟨es', hlog', hes'⟩ := h.log
  refine ⟨hw ▸ h.calls, es ++ es', ?_, fun e he => ?_⟩
  · rw [hlog', hlog, List.append_assoc]
  · exact (List.mem_append.mp he).elim (hes e) (hes' e)

theorem modest_serveMux {mux : Mux σ} {trace : Request → Writer → σ → List WriterCall}
    (hmux : ∀ r w x, Acts (trace r w x) w (mux r w x).2.1) :
    Modest (∀ r w x, recordable (trace r w x) = true) (serveMux mux) :=
  fun c => ⟨⟨_, hmux _ _ _, fun hplain => hplain _ _ _⟩, [], (List.append_nil _).symm, by simp⟩

theorem modest_rateLimit (N : Net) (hnext : Modest plain next) :
    Modest plain (rateLimit N next) := by
  intro c
  unfold rateLimit
  split
  · obtain ⟨text, hacts⟩ := acts_tooManyRequests c.writer _
    exact accounts_answer hacts rfl [_] rfl (by simp [LogEntry.isAccess])
  · exact (hnext _).of_next [] rfl (List.append_nil _).symm (by simp)

theorem modest_bearer (sha256 : Bytes → Vector UInt8 32) (users : UserSnapshot)
    (hnext : Modest plain next) : Modest plain (bearer sha256 users next) := by
  intro c
  rw [bearer_eq]
  split
  · obtain ⟨text, hacts⟩ := acts_writeUnauthorized c.writer
    exact accounts_answer hacts rfl [_] rfl (by simp [LogEntry.isAccess])
  · exact (hnext _).of_next [_] rfl rfl (by simp [LogEntry.isAccess])

theorem modest_routeAwareAuth {authMW : Middleware σ} (hnext : Modest plain next)
    (hauth : Modest plain (authMW next)) : Modest plain (routeAwareAuth authMW next) := by
  intro c
  unfold routeAwareAuth
  split
  · exact hnext c
  · exact hauth c

theorem modest_maxBodyBytes (limit : Nat) (hnext : Modest plain next) :
    Modest plain (maxBodyBytes limit next) := by
  intro c
  unfold maxBodyBytes
  split
  · exact hnext c
  · dsimp only
    split
    · exact accounts_answer (acts_plainError _ _ _) rfl [] (List.append_nil _).symm (by simp)
    · split
      · exact accounts_answer (acts_plainError _ _ _) rfl [] (List.append_nil _).symm (by simp)
      · exact (hnext _).of_next [] rfl (List.append_nil _).symm (by simp)

theorem modest_inner (S : Service) {mux : Mux σ} {trace : Request → Writer → σ → List WriterCall}
    (hmux : ∀ r w x, Acts (trace r w x) w (mux r w x).2.1) :
    Modest (∀ r w x, recordable (trace r w x) = true) (S.inner mux) := by
  have hlimited := modest_rateLimit S.net (modest_serveMux hmux)
  exact modest_maxBodyBytes _
    (modest_routeAwareAuth hlimited (modest_bearer S.sha256 S.users hlimited))

end

/-! ## Recover and the access log -/

/-- A result as `Recover` hands it to `AccessLog`: the calls are in the recorders, and no
panic but an abort is left. -/
structure Watched {σ : Type} (plain : Prop) (header : List (String × String))
    (accepts : Response → Bytes → Nat) (log : List LogEntry) (d : Done σ) : Prop where
  calls : ∃ calls, d.writer = ⟨d.writer.header, accepts, 1, (recorded accepts calls).responseWriter⟩ ∧
    (plain → recordable calls = true)
  headers : ∀ id, ∀ h ∈ openingHeaders id, h ∈ header → h ∈ d.writer.header
  log : ∃ es, d.state.log = log ++ es ∧ ∀ e ∈ es, e.isAccess = false
  caught : d.outcome ≠ .panicked false

section
variable {σ : Type} {plain : Prop} {c : Call σ} {d : Done σ} {header : List (String × String)}
  {accepts : Response → Bytes → Nat} {calls : List WriterCall}

/-- Recordable calls of which the recorder knows nothing are none. -/
theorem eq_nil_of_unwritten (hcalls : recordable calls = true)
    (h : (recorded accepts calls).wroteHeader = false) : calls = [] := by
  by_contra hne
  obtain ⟨-, -, houter⟩ := recorded_follows accepts hcalls hne
  rw [houter.wroteHeader] at h
  cases h

/-- `Recover`'s recorder is taken off. -/
theorem watched_of_acts {w : Writer} {outcome : Outcome} {s : State σ} {log es : List LogEntry}
    (hacts : Acts calls ⟨header, accepts, 2, recoverRecorder (accessLogRecorder Response.empty)⟩ w)
    (hplain : plain → recordable calls = true) (hlog : s.log = log ++ es)
    (hes : ∀ e ∈ es, e.isAccess = false) (houtcome : outcome ≠ .panicked false) :
    Watched plain header accepts log ⟨outcome, w.recorder.responseWriter, s⟩ := by
  have hinner : w.recorder.responseWriter =
      ⟨w.header, accepts, 1, (recorded accepts calls).responseWriter⟩ := by
    rw [hacts.recorded]
    rfl
  refine ⟨⟨calls, ?_, hplain⟩, fun id k hopen hk => ?_, ⟨es, hlog, hes⟩, houtcome⟩
  · show w.recorder.responseWriter = ⟨w.recorder.responseWriter.header, _, _, _⟩
    rw [hinner]
  · show k ∈ w.recorder.responseWriter.header
    rw [hinner]
    exact hacts.headers id k hopen hk

theorem recovered_watched (r : Request)
    (hw : c.writer = ⟨header, accepts, 2, recoverRecorder (accessLogRecorder Response.empty)⟩)
    (h : Accounts plain c d) : Watched plain header accepts c.state.log (recovered r d) := by
  obtain ⟨⟨calls, hacts, hplain⟩, es, hlog, hes⟩ := h
  rw [hw] at hacts
  -- what is logged of a panic
  have hpanic : (d.state.emit (.panicRecovered (r.requestID.getD "") r.method r.path)).log =
      c.state.log ++ (es ++ [.panicRecovered (r.requestID.getD "") r.method r.path]) := by
    rw [State.emit, hlog, List.append_assoc]
  have hes' : ∀ e ∈ es ++ [.panicRecovered (r.requestID.getD "") r.method r.path],
      e.isAccess = false := by
    intro e he
    rcases List.mem_append.mp he with he | he
    · exact hes e he
    · rw [List.mem_singleton.mp he]
      rfl
  unfold recovered
  split
  · rename_i hout
    exact watched_of_acts hacts hplain hlog hes (by rw [hout]; decide)
  · rename_i hout
    exact watched_of_acts hacts hplain hlog hes (by rw [hout]; decide)
  · dsimp only
    split
    · exact watched_of_acts hacts hplain hpanic hes' (by decide)
    · rename_i hunwritten
      refine watched_of_acts (hacts.trans (acts_plainError _ _ _)) (fun hp => ?_) hpanic hes' (by decide)
      -- the mux had written nothing
      have hwrote : (recorded accepts calls).wroteHeader = false := by
        rw [hacts.recorded, Bool.not_eq_true] at hunwritten
        exact hunwritten
      rw [eq_nil_of_unwritten (hplain hp) hwrote]
      rfl

/-- What the recorder of `AccessLog` holds of recordable calls. -/
theorem recorded_tells (hcalls : recordable calls = true)
    (hlen : (recorded accepts calls).responseWriter.responseWriter.body.length < 2 ^ 63) :
    (recorded accepts calls).responseWriter.status =
        (recorded accepts calls).responseWriter.responseWriter.status.getD 200 ∧
      (recorded accepts calls).responseWriter.bytes.toInt =
        (recorded accepts calls).responseWriter.responseWriter.body.length := by
  by_cases hne : calls = []
  · subst hne
    exact ⟨rfl, rfl⟩
  · obtain ⟨hresponse, hinner, -⟩ := recorded_follows accepts hcalls hne
    rw [hresponse] at hlen ⊢
    rw [hinner.told rfl, hinner.bytes, Int64.toInt_ofNat_of_lt hlen]
    exact ⟨rfl, rfl⟩

theorem mem_opened (N : Net) {h : String × String}
    (hh : h ∈ openingHeaders (idFor c.turn c.request)) : h ∈ (opened N c).writer.header := by
  have hwriter : (opened N c).writer =
      c.writer.setAll (openingHeaders (idFor c.turn c.request)) := by
    simp only [opened, openingHeaders, Writer.setAll, List.foldl_append, List.foldl_cons,
      List.foldl_nil]
  have hnames : ((openingHeaders (idFor c.turn c.request)).map Prod.fst).Nodup :=
    nodup_openingNames
  rw [hwriter]
  exact mem_setAll hnames hh

/-- Nothing has been written before the recorders are there. -/
theorem watched_opened (N : Net) (hw : c.writer = .new accepts) :
    (opened N c).writer.watched = ⟨(opened N c).writer.header, accepts, 2,
      recoverRecorder (accessLogRecorder Response.empty)⟩ := by
  simp only [opened, hw]
  rfl

/-- `AccessLog` logs what its recorder holds, and takes it off. -/
theorem logged_spec (N : Net)
    (hw : d.writer = ⟨d.writer.header, accepts, 1, (recorded accepts calls).responseWriter⟩) :
    (logged N (opened N c) d).writer = ⟨d.writer.header, accepts, 0,
        (recorded accepts calls).responseWriter.responseWriter⟩ ∧
      (logged N (opened N c) d).outcome = d.outcome ∧
      (logged N (opened N c) d).state.log = d.state.log ++
        match d.outcome with
        | .returned => [accessLine N c (recorded accepts calls).responseWriter]
        | .panicked _ => [] := by
  have hrecorder : d.writer.recorder = ⟨⟨d.writer.header, accepts, 0,
      (recorded accepts calls).responseWriter.responseWriter⟩,
      (recorded accepts calls).responseWriter.status, (recorded accepts calls).responseWriter.bytes,
      (recorded accepts calls).responseWriter.wroteHeader⟩ := by
    rw [hw]
    rfl
  unfold logged
  rw [hrecorder]
  refine ⟨rfl, rfl, ?_⟩
  cases d.outcome with
  | returned => rfl
  | panicked abort => exact (List.append_nil _).symm

end

/-! ## The API, and a mux that panics -/

def panicking : Mux (List (Option User)) := fun _ w seen => (.panicked false, w, seen)

def monitorService : Service where
  net := plainNet
  sha256 := blankHash
  users := monitorUsers
  route r := if isHealthProbe r then .healthz else .own (httpError "404 page not found" 404)
  json := Api.constantJson
  encode _ := ""
  primitives := Crypto.transparent
  masterKey := []

/-- The mux's own answers are made by `http.Error`. -/
theorem monitorService_own (r : Request) (answer : Writer → Writer)
    (h : monitorService.route r = .own answer) (w : Writer) :
    ∃ calls, Acts calls w (answer w) ∧ recordable calls = true := by
  unfold monitorService at h
  dsimp only at h
  split at h
  · cases h
  · cases h
    exact ⟨_, acts_answer _ (by decide), rfl⟩

/-- The id that the server makes up without random bytes, at the beginning of 1970. -/
def firstID : String := newRequestID none 0

/-- The probe, with an empty table. -/
def probeCall : Call Sqlite.Configs where
  turn := monitorCall.turn
  request := monitorCall.request
  writer := .new takesAll
  state := ⟨monitorCall.state.limiter, [], AutoTable.empty 0⟩

def probeDone : Done Sqlite.Configs := monitorService.chain (monitorService.api []) probeCall

def panickedDone : Done (List (Option User)) :=
  monitorService.chain panicking monitorCall

end TabbySync.Server
