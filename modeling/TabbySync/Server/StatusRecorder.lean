import Mathlib.Algebra.Group.Nat.Defs
import TabbySync.Store.Contract

/-! # The status recorder

`statusRecorder` wraps a response writer and keeps its own account of what has been sent.
`AccessLog` and `Recover` each install one, `Recover`'s inside, so that what the handler
writes goes through both.

A response writer is what the three calls do to its state. For net/http this is the
response it has been given; the client gets that, but for the body of a HEAD. -/

namespace TabbySync.Server

/-- A call of a handler on its response writer. -/
inductive WriterCall
  | writeHeader (code : Nat)
  | write (p : Bytes)
  | flush
  deriving DecidableEq, Repr

/-- `http.ResponseWriter`; `flush` if it is an `http.Flusher` too. `write` returns the
number of bytes written. -/
structure ResponseWriter (W : Type) where
  writeHeader : W → Nat → W
  write : W → Bytes → Nat × W
  flush : Option (W → W)

namespace ResponseWriter
variable {W : Type}

def perform (R : ResponseWriter W) (w : W) : WriterCall → W
  | .writeHeader code => R.writeHeader w code
  | .write p => (R.write w p).2
  | .flush => match R.flush with
    | some f => f w
    | none => w

def run (R : ResponseWriter W) (w : W) (calls : List WriterCall) : W := calls.foldl R.perform w

end ResponseWriter

/-! ## net/http -/

/-- What net/http is given: informational responses, the final status, the body. -/
structure Response where
  informational : List Nat
  status : Option Nat
  body : Bytes
  deriving DecidableEq

def Response.empty : Response := ⟨[], none, []⟩

/-- A 1xx code other than 101. -/
def isInformational (code : Nat) : Bool := 100 ≤ code && code ≤ 199 && code != 101

namespace Response

def writeHeader (r : Response) (code : Nat) : Response :=
  match r.status with
  | some _ => r
  | none =>
    if isInformational code then { r with informational := r.informational ++ [code] }
    else { r with status := some code }

/-- A `Write` of which the connection takes what `accepts` says: nothing for a status
without a body, less than all of it when the client has gone. -/
def write (accepts : Response → Bytes → Nat) (r : Response) (p : Bytes) : Nat × Response :=
  let r := r.writeHeader 200
  let written := p.take (accepts r p)
  (written.length, { r with body := r.body ++ written })

def flush (r : Response) : Response := r.writeHeader 200

end Response

def netHTTP (accepts : Response → Bytes → Nat) : ResponseWriter Response where
  writeHeader := Response.writeHeader
  write := Response.write accepts
  flush := some Response.flush

/-! ## The recorder -/

structure StatusRecorder (W : Type) where
  responseWriter : W
  status : Nat
  bytes : Int64
  wroteHeader : Bool

def statusRecorder {W : Type} (R : ResponseWriter W) : ResponseWriter (StatusRecorder W) where
  writeHeader s code :=
    if s.wroteHeader then s
    else ⟨R.writeHeader s.responseWriter code, code, s.bytes, true⟩
  write s p :=
    let status := if s.wroteHeader then s.status else 200
    match R.write s.responseWriter p with
    | (n, w) => (n, ⟨w, status, s.bytes + Int64.ofNat n, true⟩)
  flush := some fun s => match R.flush with
    | some f => { s with responseWriter := f s.responseWriter }
    | none => s

/-- The recorder of `AccessLog`, before the handler runs. -/
def accessLogRecorder {W : Type} (w : W) : StatusRecorder W := ⟨w, 200, 0, false⟩

/-- The recorder of `Recover`, before the handler runs. -/
def recoverRecorder {W : Type} (w : W) : StatusRecorder W := ⟨w, 0, 0, false⟩

/-- A connection that takes everything. -/
def takesAll (_ : Response) (p : Bytes) : Nat := p.length

/-- The handler's calls made on net/http's writer itself. -/
def direct (accepts : Response → Bytes → Nat) (calls : List WriterCall) : Response :=
  (netHTTP accepts).run .empty calls

/-- The handler's calls made inside `Recover` inside `AccessLog`. -/
def recorded (accepts : Response → Bytes → Nat) (calls : List WriterCall) :
    StatusRecorder (StatusRecorder Response) :=
  (statusRecorder (statusRecorder (netHTTP accepts))).run
    (recoverRecorder (accessLogRecorder .empty)) calls

/-- A recorder tells the truth about a response. -/
structure Truthful {W : Type} (s : StatusRecorder W) (r : Response) : Prop where
  status : ∀ code ∈ r.status, s.status = code
  bytes : s.bytes.toInt = r.body.length
  wroteHeader : s.wroteHeader = true ↔ r.status.isSome = true

/-- The client gets the same response, and both recorders tell the truth about it. -/
structure Faithful (accepts : Response → Bytes → Nat) (calls : List WriterCall) : Prop where
  response : (recorded accepts calls).responseWriter.responseWriter = direct accepts calls
  accessLog : Truthful (recorded accepts calls).responseWriter (direct accepts calls)
  recover : Truthful (recorded accepts calls) (direct accepts calls)

/-! ## Which calls are recorded faithfully -/

/-- After a first `Flush`, which has sent a 200 that the recorders do not know of. -/
def recordableFlushed : List WriterCall → Bool
  | [] => false
  | .flush :: calls => recordableFlushed calls
  | .write _ :: _ => true
  | .writeHeader code :: _ => code = 200

/-- The first call decides. -/
def recordable : List WriterCall → Bool
  | [] => true
  | .flush :: calls => recordableFlushed calls
  | .write _ :: _ => true
  | .writeHeader code :: _ => !isInformational code

/-! ## What one call does -/

section
variable {W : Type} {R : ResponseWriter W} {accepts : Response → Bytes → Nat}
  {r : Response} {code : Nat} {p : Bytes} {calls : List WriterCall}

namespace Response

theorem writeHeader_sent (h : r.status = some code) (code' : Nat) : r.writeHeader code' = r := by
  rw [writeHeader, h]

theorem writeHeader_final (h : r.status = none) (hfinal : isInformational code = false) :
    r.writeHeader code = { r with status := some code } := by
  rw [writeHeader, h]
  simp [hfinal]

theorem status_flush (h : r.status = none ∨ r.status = some 200) : r.flush.status = some 200 := by
  rcases h with h | h
  · rw [flush, writeHeader_final h rfl]
  · rw [flush, writeHeader_sent h, h]

theorem status_write (accepts : Response → Bytes → Nat) (r : Response) (p : Bytes) :
    (r.write accepts p).2.status = r.flush.status := rfl

theorem length_write (accepts : Response → Bytes → Nat) (r : Response) (p : Bytes) :
    (r.write accepts p).2.body.length = r.flush.body.length + (r.write accepts p).1 := by
  simp [write, flush]

theorem body_writeHeader (r : Response) (code : Nat) : (r.writeHeader code).body = r.body := by
  unfold writeHeader
  split
  · rfl
  · split <;> rfl

end Response

/-! ## Writers that mirror net/http

A relation between a writer's state and the response, for each value of a flag that says
whether a `WriteHeader` or a `Write` has come through. A `WriteHeader` is mirrored if one of
them has, or if it sends the final header, or if it repeats the 200 that a `Flush` sent. -/

/-- A first `WriteHeader` that net/http and a recorder take alike. -/
def Agreed (r : Response) (code : Nat) : Prop :=
  r.status = none ∧ isInformational code = false ∨ r.status = some 200 ∧ code = 200

structure Mirrors (accepts : Response → Bytes → Nat) (R : ResponseWriter W)
    (Rel : Bool → W → Response → Prop) : Prop where
  writeHeader {b : Bool} {w : W} {r : Response} {code : Nat} :
    Rel b w r → (b = true ∨ Agreed r code) → Rel true (R.writeHeader w code) (r.writeHeader code)
  write {b : Bool} {w : W} {r : Response} (p : Bytes) : Rel b w r →
    (R.write w p).1 = (r.write accepts p).1 ∧ Rel true (R.write w p).2 (r.write accepts p).2
  flush {b : Bool} {w : W} {r : Response} : Rel b w r → Rel b (R.perform w .flush) r.flush

theorem netHTTP_mirrors (accepts : Response → Bytes → Nat) :
    Mirrors accepts (netHTTP accepts) fun _ w r => w = r where
  writeHeader h _ := by rw [h]; rfl
  write p h := by rw [h]; exact ⟨rfl, rfl⟩
  flush h := by rw [h]; rfl

/-- A recorder follows the response, except that it knows nothing of a header that a
`Flush` has sent. -/
structure Follows (b : Bool) (s : StatusRecorder W) (r : Response) : Prop where
  wroteHeader : s.wroteHeader = b
  bytes : s.bytes = Int64.ofNat r.body.length
  told : b = true → r.status = some s.status
  untold : b = false → r.status = none ∨ r.status = some 200

theorem status_of_agreed (h : Agreed r code) : (r.writeHeader code).status = some code := by
  rcases h with ⟨hnone, hfinal⟩ | ⟨hsent, rfl⟩
  · rw [Response.writeHeader_final hnone hfinal]
  · rw [Response.writeHeader_sent hsent, hsent]

theorem perform_flush (R : ResponseWriter W) (s : StatusRecorder W) :
    (statusRecorder R).perform s .flush =
      { s with responseWriter := R.perform s.responseWriter .flush } := by
  unfold ResponseWriter.perform statusRecorder
  dsimp only
  split <;> rfl

/-- Wrapping a writer in a recorder keeps it a mirror. -/
theorem Mirrors.statusRecorder {Rel : Bool → W → Response → Prop} (h : Mirrors accepts R Rel) :
    Mirrors accepts (statusRecorder R)
      fun b s r => Rel b s.responseWriter r ∧ Follows b s r where
  writeHeader := by
    intro b s r code hrel hcode
    obtain ⟨hin, hs⟩ := hrel
    cases b with
    | true =>
      -- swallowed, and too late for net/http as well
      rw [Response.writeHeader_sent (hs.told rfl)]
      show Rel true (if s.wroteHeader then s else _).responseWriter r ∧
        Follows true (if s.wroteHeader then s else _) r
      rw [if_pos hs.wroteHeader]
      exact ⟨hin, hs⟩
    | false =>
      have hagreed : Agreed r code := hcode.resolve_left nofun
      show Rel true (if s.wroteHeader then s else _).responseWriter _ ∧
        Follows true (if s.wroteHeader then s else _) _
      rw [if_neg (by simp [hs.wroteHeader])]
      refine ⟨h.writeHeader hin hcode, rfl, ?_, fun _ => status_of_agreed hagreed, nofun⟩
      rw [Response.body_writeHeader]
      exact hs.bytes
  write := by
    intro b s r p hrel
    obtain ⟨hin, hs⟩ := hrel
    obtain ⟨hn, hw⟩ := h.write p hin
    refine ⟨hn, hw, rfl, ?_, fun _ => ?_, nofun⟩
    · show s.bytes + Int64.ofNat (R.write s.responseWriter p).1 = _
      rw [Response.length_write, Int64.ofNat_add, hn, hs.bytes, Response.flush,
        Response.body_writeHeader]
    · show _ = some (if s.wroteHeader then s.status else 200)
      rw [Response.status_write]
      cases b with
      | true => rw [if_pos hs.wroteHeader, Response.flush, Response.writeHeader_sent (hs.told rfl),
          hs.told rfl]
      | false => rw [if_neg (by simp [hs.wroteHeader]), Response.status_flush (hs.untold rfl)]
  flush := by
    intro b s r hrel
    obtain ⟨hin, hs⟩ := hrel
    rw [perform_flush]
    refine ⟨h.flush hin, hs.wroteHeader, ?_, fun hb => ?_, fun hb => ?_⟩
    · rw [Response.flush, Response.body_writeHeader]
      exact hs.bytes
    · rw [Response.flush, Response.writeHeader_sent (hs.told hb)]
      exact hs.told hb
    · exact .inr (Response.status_flush (hs.untold hb))

section
variable {Rel : Bool → W → Response → Prop} {w : W}

/-- Once the recorders know of the header, every call is mirrored. -/
theorem Mirrors.run (h : Mirrors accepts R Rel) (calls : List WriterCall) (hrel : Rel true w r) :
    Rel true (R.run w calls) ((netHTTP accepts).run r calls) := by
  induction calls generalizing w r with
  | nil => exact hrel
  | cons call calls ih =>
    cases call with
    | writeHeader code => exact ih (h.writeHeader hrel (.inl rfl))
    | write p => exact ih (h.write p hrel).2
    | flush => exact ih (h.flush hrel)

theorem Mirrors.run_flushed (h : Mirrors accepts R Rel) (calls : List WriterCall)
    (hrel : Rel false w r) (hsent : r.status = some 200) (hcalls : recordableFlushed calls = true) :
    Rel true (R.run w calls) ((netHTTP accepts).run r calls) := by
  induction calls generalizing w r with
  | nil => cases hcalls
  | cons call calls ih =>
    cases call with
    | writeHeader code =>
      have hcode : code = 200 := of_decide_eq_true hcalls
      exact h.run calls (h.writeHeader hrel (.inr (.inr ⟨hsent, hcode⟩)))
    | write p => exact h.run calls (h.write p hrel).2
    | flush => exact ih (h.flush hrel) (Response.status_flush (.inr hsent)) hcalls

theorem Mirrors.run_recordable (h : Mirrors accepts R Rel) (hrel : Rel false w r)
    (hnone : r.status = none) (hcalls : recordable calls = true) (hne : calls ≠ []) :
    Rel true (R.run w calls) ((netHTTP accepts).run r calls) := by
  cases calls with
  | nil => exact absurd rfl hne
  | cons call calls =>
    cases call with
    | writeHeader code =>
      have hfinal : isInformational code = false := by simpa [recordable] using hcalls
      exact h.run calls (h.writeHeader hrel (.inr (.inl ⟨hnone, hfinal⟩)))
    | write p => exact h.run calls (h.write p hrel).2
    | flush => exact h.run_flushed calls (h.flush hrel) (Response.status_flush (.inl hnone)) hcalls

end

/-! ## What is lost otherwise -/

/-- The first status a recorder notes is the last. -/
theorem run_status_of_wroteHeader {s : StatusRecorder W} (h : s.wroteHeader = true)
    (calls : List WriterCall) :
    ((statusRecorder R).run s calls).wroteHeader = true ∧
      ((statusRecorder R).run s calls).status = s.status := by
  induction calls generalizing s with
  | nil => exact ⟨h, rfl⟩
  | cons call calls ih =>
    have hstep : ((statusRecorder R).perform s call).wroteHeader = true ∧
        ((statusRecorder R).perform s call).status = s.status := by
      cases call with
      | writeHeader code => simp [ResponseWriter.perform, statusRecorder, h]
      | write p => simp [ResponseWriter.perform, statusRecorder, h]
      | flush => rw [perform_flush]; exact ⟨h, rfl⟩
    obtain ⟨hwrote, hstatus⟩ := ih hstep.1
    exact ⟨hwrote, hstatus.trans hstep.2⟩

theorem run_status_sent (h : r.status = some code) (calls : List WriterCall) :
    ((netHTTP accepts).run r calls).status = some code := by
  induction calls generalizing r with
  | nil => exact h
  | cons call calls ih =>
    refine ih ?_
    cases call with
    | writeHeader code' => exact (congrArg _ (Response.writeHeader_sent h code')).trans h
    | write p => exact (congrArg _ (Response.writeHeader_sent h 200)).trans h
    | flush => exact (congrArg _ (Response.writeHeader_sent h 200)).trans h

/-- A final status is not an informational one. -/
theorem run_status_final (h : ∀ code ∈ r.status, isInformational code = false)
    (calls : List WriterCall) :
    ∀ code ∈ ((netHTTP accepts).run r calls).status, isInformational code = false := by
  have hstep : ∀ (r : Response) (code : Nat), (∀ c ∈ r.status, isInformational c = false) →
      ∀ c ∈ (r.writeHeader code).status, isInformational c = false := by
    intro r code hr c hc
    unfold Response.writeHeader at hc
    split at hc
    · exact hr c hc
    · split at hc
      · exact hr c hc
      · rename_i hfinal
        rw [← Option.some.inj hc]
        simpa using hfinal
  induction calls generalizing r with
  | nil => exact h
  | cons call calls ih =>
    refine ih ?_
    cases call with
    | writeHeader code => exact hstep r code h
    | write p => exact hstep r 200 h
    | flush => exact hstep r 200 h

/-- What a recorder notes at its first `WriteHeader`. -/
theorem run_first_writeHeader {s : StatusRecorder W} (h : s.wroteHeader = false) (code : Nat)
    (calls : List WriterCall) :
    ((statusRecorder R).run s (.writeHeader code :: calls)).wroteHeader = true ∧
      ((statusRecorder R).run s (.writeHeader code :: calls)).status = code := by
  have hstep : (statusRecorder R).perform s (.writeHeader code) =
      ⟨R.writeHeader s.responseWriter code, code, s.bytes, true⟩ := if_neg (by simp [h])
  rw [ResponseWriter.run, List.foldl_cons, hstep]
  exact run_status_of_wroteHeader rfl calls

theorem recordableFlushed_of_truthful {s : StatusRecorder W} (hs : s.wroteHeader = false)
    (hsent : r.status = some 200)
    (h : Truthful ((statusRecorder R).run s calls) ((netHTTP accepts).run r calls)) :
    recordableFlushed calls = true := by
  induction calls generalizing s r with
  | nil =>
    have hwrote : s.wroteHeader = true :=
      h.wroteHeader.mpr (by rw [ResponseWriter.run]; simp [hsent])
    rw [hs] at hwrote
    cases hwrote
  | cons call calls ih =>
    cases call with
    | writeHeader code =>
      have hstatus := h.status 200 (run_status_sent hsent (.writeHeader code :: calls))
      rw [(run_first_writeHeader hs code calls).2] at hstatus
      exact decide_eq_true hstatus
    | write p => rfl
    | flush =>
      refine ih ?_ (Response.status_flush (.inr hsent)) h
      rw [perform_flush]
      exact hs

theorem recordable_of_truthful {s : StatusRecorder W} (hs : s.wroteHeader = false)
    (hnone : r.status = none)
    (h : Truthful ((statusRecorder R).run s calls) ((netHTTP accepts).run r calls)) :
    recordable calls = true := by
  cases calls with
  | nil => rfl
  | cons call calls =>
    cases call with
    | writeHeader code =>
      -- had it been informational, no final status could be the one noted
      obtain ⟨hwrote, hstatus⟩ := run_first_writeHeader (R := R) hs code calls
      obtain ⟨final, hfinal⟩ := Option.isSome_iff_exists.mp (h.wroteHeader.mp hwrote)
      have hnoted := h.status final hfinal
      have hinf := run_status_final (by simp [hnone]) (.writeHeader code :: calls) final hfinal
      rw [← hnoted, hstatus] at hinf
      simp [recordable, hinf]
    | write p => rfl
    | flush =>
      refine recordableFlushed_of_truthful ?_ (Response.status_flush (.inl hnone)) h
      rw [perform_flush]
      exact hs

end

/-! ## Results -/

section
variable {accepts : Response → Bytes → Nat} {calls : List WriterCall}

theorem Follows.truthful {W : Type} {s : StatusRecorder W} {r : Response} (h : Follows true s r)
    (hlen : r.body.length < 2 ^ 63) : Truthful s r where
  status code hcode := Option.some.inj ((h.told rfl).symm.trans hcode)
  bytes := by rw [h.bytes, Int64.toInt_ofNat_of_lt hlen]
  wroteHeader := by simp [h.wroteHeader, h.told rfl]

/-- Both recorders follow the response to the end. -/
theorem recorded_follows (accepts : Response → Bytes → Nat) (hcalls : recordable calls = true)
    (hne : calls ≠ []) :
    (recorded accepts calls).responseWriter.responseWriter = direct accepts calls ∧
      Follows true (recorded accepts calls).responseWriter (direct accepts calls) ∧
      Follows true (recorded accepts calls) (direct accepts calls) := by
  have hmirrors := (netHTTP_mirrors accepts).statusRecorder.statusRecorder
  have hstart : ∀ {W : Type} (s : StatusRecorder W), s.wroteHeader = false → s.bytes = 0 →
      Follows false s Response.empty :=
    fun _ hs hb => ⟨hs, hb, nofun, fun _ => .inl rfl⟩
  obtain ⟨⟨hresp, hinner⟩, houter⟩ := hmirrors.run_recordable
    (w := recoverRecorder (accessLogRecorder .empty)) (r := .empty)
    ⟨⟨rfl, hstart _ rfl rfl⟩, hstart _ rfl rfl⟩ rfl hcalls hne
  exact ⟨hresp, hinner, houter⟩

/-- The recorders are faithful exactly if the first call is a `Write` or sends the final
header, or, after a number of `Flush` calls, is a `Write` or sends the 200 again (and the
count of the bytes does not overflow). -/
theorem faithful_iff (accepts : Response → Bytes → Nat) (calls : List WriterCall) :
    Faithful accepts calls ↔
      recordable calls = true ∧ (direct accepts calls).body.length < 2 ^ 63 := by
  constructor
  · intro h
    refine ⟨recordable_of_truthful rfl rfl h.recover, ?_⟩
    have hlt := (recorded accepts calls).bytes.toInt_lt
    rw [h.recover.bytes] at hlt
    exact_mod_cast hlt
  · intro h
    obtain ⟨hcalls, hlen⟩ := h
    by_cases hne : calls = []
    · subst hne
      have hstart : ∀ {W : Type} (s : StatusRecorder W), s.wroteHeader = false → s.bytes = 0 →
          Truthful s Response.empty := by
        intro W s hs hb
        exact ⟨nofun, by rw [hb]; rfl, by rw [hs]; decide⟩
      exact ⟨rfl, hstart _ rfl rfl, hstart _ rfl rfl⟩
    · obtain ⟨hresp, hinner, houter⟩ := recorded_follows accepts hcalls hne
      exact ⟨hresp, hinner.truthful hlen, houter.truthful hlen⟩

/-- An early hint and then a 404: the 404 is swallowed, and the server ends the response
with its implicit 200. A `Flush` alone: a 200 is out, and `Recover` takes it that no header
was sent. An error after a `Flush`: the log has 500, the client 200. -/
theorem unfaithful_calls :
    (direct takesAll [.writeHeader 103, .writeHeader 404] = ⟨[103], some 404, []⟩ ∧
      (recorded takesAll [.writeHeader 103, .writeHeader 404]).responseWriter.responseWriter =
        ⟨[103], none, []⟩) ∧
    ((direct takesAll [.flush]).status = some 200 ∧
      (recorded takesAll [.flush]).wroteHeader = false) ∧
    ((direct takesAll [.flush, .writeHeader 500]).status = some 200 ∧
      (recorded takesAll [.flush, .writeHeader 500]).responseWriter.status = 500) :=
  ⟨⟨rfl, rfl⟩, ⟨rfl, rfl⟩, rfl, rfl⟩

end

end TabbySync.Server
