import Mathlib.Algebra.Group.Nat.Defs
import TabbySync.Server.Handler

/-! # The body limit

`MaxBodyBytes` over a body that arrives in chunks: `ReadAll` on a `LimitedReader` of
`limit + 1` bytes, both with 64-bit counts. The loop takes what each `Read` gives, in
buffers of any size, until a `Read` comes with EOF or an error. -/

namespace TabbySync.Server.BodyLimit
open TabbySync.Library

inductive Ending
  | eof
  | fails
  deriving DecidableEq, Repr

/-- A body that is yet to be read: the chunks in which it arrives, and how it ends. The
ending comes with the last bytes, or with a `Read` of its own. -/
structure Stream where
  chunks : List Bytes
  ending : Ending
  withLast : Bool
  deriving DecidableEq, Repr

def Stream.data (s : Stream) : Bytes := s.chunks.flatten

/-- `Read` into a buffer of `k` bytes. -/
def Stream.read (s : Stream) (k : Nat) : Bytes × Option Ending × Stream :=
  match s.chunks with
  | [] => ([], some s.ending, s)
  | c :: cs =>
    if c.length ≤ k then
      (c, if cs = [] ∧ s.withLast then some s.ending else none, { s with chunks := cs })
    else (c.take k, none, { s with chunks := c.drop k :: cs })

structure LimitedReader where
  stream : Stream
  n : Int64

def LimitedReader.read (l : LimitedReader) (k : Nat) : Bytes × Option Ending × LimitedReader :=
  if l.n ≤ 0 then ([], some .eof, l)
  else
    match l.stream.read (if (k : Int) > l.n.toInt then l.n.toInt.toNat else k) with
    | (p, ending, stream) => (p, ending, ⟨stream, l.n - Int64.ofNat p.length⟩)

/-- `ReadAll`, with the bytes read so far. `spare` is how much room there is beyond one
byte at each turn: the buffer grows when it is full. -/
def readAll (spare : Nat → Nat) : Nat → LimitedReader → Bytes → Option (Bytes × Ending)
  | 0, _, _ => none
  | fuel + 1, l, b =>
    match l.read (spare 0 + 1) with
    | (p, some ending, _) => some (b ++ p, ending)
    | (p, none, l) => readAll (fun i => spare (i + 1)) fuel l (b ++ p)

/-- Enough turns to read a stream. -/
def Stream.size (s : Stream) : Nat := s.chunks.length + s.data.length

/-- The next handler runs with this body and `ContentLength`, or it does not and the
response is a 400 or a 413. -/
inductive Verdict
  | next (body : Bytes) (contentLength : Int)
  | badRequest
  | tooLarge
  deriving DecidableEq, Repr

/-- What `MaxBodyBytes` makes of a body. -/
def verdict (limit : Int64) (spare : Nat → Nat) (s : Stream) : Option Verdict :=
  let limit := if limit < 0 then 0 else limit
  match readAll spare (s.size + 1) ⟨s, limit + 1⟩ [] with
  | none => none
  | some (_, .fails) => some .badRequest
  | some (buf, .eof) =>
    if (buf.length : Int) > limit.toInt then some .tooLarge else some (.next buf buf.length)

/-! ## One read -/

/-- The ending comes together with the last byte. -/
def Stream.joined (s : Stream) : Bool := s.withLast && s.chunks.getLast?.any (· ≠ [])

theorem Stream.data_ne_nil {s : Stream} (h : s.joined = true) : s.data ≠ [] := by
  obtain ⟨_, hlast⟩ := Bool.and_eq_true_iff.mp h
  obtain ⟨c, hc, hne⟩ := (Option.any_eq_true _ _).mp hlast
  rw [Stream.data, ne_eq, List.flatten_eq_nil_iff]
  exact fun hall => of_decide_eq_true hne (hall c (List.mem_of_getLast? hc))

/-- A `Read` gives all there is, with the ending, or a part of it. -/
theorem Stream.read_spec (s : Stream) {k : Nat} (hk : 0 < k) :
    (∃ s', s.read k = (s.data, some s.ending, s') ∧ s.data.length ≤ k ∧
        (s.data ≠ [] → s.joined = true)) ∨
      ∃ p s', s.read k = (p, none, s') ∧ s.data = p ++ s'.data ∧ p.length ≤ k ∧
        s'.size < s.size ∧ s'.ending = s.ending ∧ s'.joined = s.joined := by
  obtain ⟨chunks, ending, withLast⟩ := s
  cases chunks with
  | nil => exact .inl ⟨_, rfl, Nat.zero_le _, fun h => absurd rfl h⟩
  | cons c cs =>
    by_cases hlen : c.length ≤ k
    · by_cases hend : cs = [] ∧ withLast = true
      · obtain ⟨rfl, rfl⟩ := hend
        have hdata : (Stream.mk [c] ending true).data = c := List.append_nil c
        rw [hdata]
        refine .inl ⟨⟨[], ending, true⟩, ?_, hlen, fun hne => ?_⟩
        · simp [read, hlen]
        · simp [joined, hne]
      · refine .inr ⟨c, ⟨cs, ending, withLast⟩, ?_, rfl, hlen, ?_, rfl, ?_⟩
        · simp only [read, if_pos hlen, if_neg hend]
        · simp only [size, data, List.length_cons, List.flatten_cons, List.length_append]
          omega
        · -- the last chunk is the same, or the ending comes later
          cases cs with
          | nil => simp only [Bool.not_eq_true, true_and] at hend; simp [joined, hend]
          | cons c' cs => simp [joined, List.getLast?_cons_cons]
    · refine .inr ⟨c.take k, ⟨c.drop k :: cs, ending, withLast⟩, ?_, ?_, ?_, ?_, rfl, ?_⟩
      · simp only [read, if_neg hlen]
      · simp [data, ← List.append_assoc]
      · simp
      · simp only [size, data, List.length_cons, List.flatten_cons, List.length_append,
          List.length_drop]
        omega
      · cases cs with
        | nil =>
          have hc : c ≠ [] := by
            intro hc
            simp [hc] at hlen
          have hdrop : c.drop k ≠ [] := by
            rw [ne_eq, List.drop_eq_nil_iff]
            exact hlen
          simp [joined, hc, hdrop]
        | cons c' cs => simp [joined, List.getLast?_cons_cons]

/-! ## The limited reader -/

theorem toInt_sub_length {n : Int64} {m : Nat} (h : (m : Int) ≤ n.toInt) :
    (n - Int64.ofNat m).toInt = n.toInt - m := by
  have hlt := n.toInt_lt
  rw [Int64.toInt_sub, Int64.toInt_ofNat_of_lt (by omega), Int.bmod_eq_of_le] <;> omega

theorem LimitedReader.read_done {l : LimitedReader} (h : l.n.toInt ≤ 0) (k : Nat) :
    l.read k = ([], some .eof, l) :=
  if_pos (Int64.le_iff_toInt_le.mpr h)

/-- Before the limit is reached: a `Read` of the stream into a buffer within the limit. -/
theorem LimitedReader.read_more {l : LimitedReader} {k N : Nat} (hn : l.n.toInt = N) (hN : 0 < N)
    (hk : 0 < k) :
    ∃ m, 0 < m ∧ m ≤ N ∧ l.read k = ((l.stream.read m).1, (l.stream.read m).2.1,
      ⟨(l.stream.read m).2.2, l.n - Int64.ofNat (l.stream.read m).1.length⟩) := by
  have hpos : ¬ l.n ≤ 0 := by
    rw [Int64.le_iff_toInt_le, hn]
    show ¬ (N : Int) ≤ 0
    omega
  refine ⟨if (k : Int) > l.n.toInt then l.n.toInt.toNat else k, ?_, ?_, if_neg hpos⟩
  · split <;> omega
  · split <;> omega

/-- The ending that is seen through a limit of `N` bytes: the stream's own if it comes
before the limit or with the last byte within it. -/
def Stream.endingWithin (s : Stream) (N : Nat) : Ending :=
  if s.data.length < N ∨ s.data.length = N ∧ s.joined = true then s.ending else .eof

theorem readAll_done (spare : Nat → Nat) (fuel : Nat) {l : LimitedReader} (h : l.n.toInt ≤ 0)
    (b : Bytes) : readAll spare (fuel + 1) l b = some (b, .eof) := by
  rw [readAll, l.read_done h]
  simp

/-- `ReadAll` through a limit of `N` bytes returns the first `N` bytes. -/
theorem readAll_spec (spare : Nat → Nat) (fuel : Nat) {l : LimitedReader} {N : Nat}
    (hn : l.n.toInt = N) (hfuel : l.stream.size < fuel) (b : Bytes) :
    readAll spare fuel l b =
      some (b ++ l.stream.data.take N, l.stream.endingWithin N) := by
  induction fuel generalizing spare l N b with
  | zero => omega
  | succ fuel ih =>
    rcases Nat.eq_zero_or_pos N with rfl | hN
    · rw [readAll_done spare fuel (by omega)]
      have hend : l.stream.endingWithin 0 = .eof := by
        refine if_neg fun h => ?_
        obtain ⟨hlen, hjoined⟩ := h.resolve_left (Nat.not_lt_zero _)
        exact Stream.data_ne_nil hjoined (List.eq_nil_of_length_eq_zero hlen)
      rw [hend, List.take_zero, List.append_nil]
    · obtain ⟨m, hm, hmN, hread⟩ := l.read_more hn hN (Nat.succ_pos (spare 0))
      rw [readAll, hread]
      rcases l.stream.read_spec hm with ⟨s', hall, hlen, hjoined⟩ |
        ⟨p, s', hpart, hdata, hlen, hsize, hending, hsame⟩
      · -- the stream is over, within the limit
        have hend : l.stream.endingWithin N = l.stream.ending := by
          refine if_pos ?_
          rcases Nat.lt_or_eq_of_le (hlen.trans hmN) with hlt | heq
          · exact .inl hlt
          · refine .inr ⟨heq, hjoined fun hnil => ?_⟩
            rw [hnil, List.length_nil] at heq
            omega
        rw [hall, hend, List.take_of_length_le (hlen.trans hmN)]
      · rw [hpart]
        have hleft : (l.n - Int64.ofNat p.length).toInt = (N - p.length : Nat) := by
          rw [toInt_sub_length (by omega)]
          omega
        have hrest := ih (fun i => spare (i + 1)) (l := ⟨s', l.n - Int64.ofNat p.length⟩) hleft
          (hsize.trans_le (Nat.lt_succ_iff.mp hfuel)) (b ++ p)
        have hend : s'.endingWithin (N - p.length) = l.stream.endingWithin N := by
          have hlt : s'.data.length < N - p.length ↔ p.length + s'.data.length < N := by omega
          have heq : s'.data.length = N - p.length ↔ p.length + s'.data.length = N := by omega
          simp only [Stream.endingWithin, hdata, hending, hsame, List.length_append, hlt, heq]
        rw [hend] at hrest
        refine hrest.trans ?_
        rw [hdata, List.take_append, List.take_of_length_le (hlen.trans hmN), List.append_assoc]

/-! ## The limit -/

/-- The limit in bytes; a negative one means 0. -/
def bound (limit : Int64) : Nat := limit.toInt.toNat

theorem toInt_clamp (limit : Int64) :
    (if limit < 0 then 0 else limit).toInt = bound limit := by
  unfold bound
  split
  · rename_i h
    have hneg : limit.toInt < 0 := Int64.lt_iff_toInt_lt.mp h
    show (0 : Int) = _
    omega
  · rename_i h
    have hpos : ¬ limit.toInt < 0 := fun hneg => h (Int64.lt_iff_toInt_lt.mpr hneg)
    omega

theorem bound_lt {limit : Int64} (h : limit ≠ Int64.maxValue) : bound limit + 1 < 2 ^ 63 := by
  have hne : limit.toInt ≠ 2 ^ 63 - 1 := by
    intro hmax
    exact h (Int64.toInt_inj.mp (hmax.trans Int64.toInt_maxValue.symm))
  have hlt := limit.toInt_lt
  unfold bound
  omega

/-- `limit + 1` of the clamped limit. -/
theorem toInt_clamp_succ {limit : Int64} (h : limit ≠ Int64.maxValue) :
    ((if limit < 0 then 0 else limit) + 1 : Int64).toInt = (bound limit + 1 : Nat) := by
  have hlt := bound_lt h
  rw [Int64.toInt_add, toInt_clamp, show (1 : Int64).toInt = 1 from rfl, Int.bmod_eq_of_le] <;>
    omega

/-- What is decided from the first `limit + 1` bytes. -/
theorem verdict_eq {limit : Int64} (h : limit ≠ Int64.maxValue) (spare : Nat → Nat) (s : Stream) :
    verdict limit spare s =
      match s.endingWithin (bound limit + 1) with
      | .fails => some .badRequest
      | .eof => if bound limit < s.data.length then some .tooLarge
          else some (.next s.data s.data.length) := by
  have hread := readAll_spec spare (s.size + 1)
    (l := ⟨s, (if limit < 0 then 0 else limit) + 1⟩) (toInt_clamp_succ h) (Nat.lt_succ_self _) []
  unfold verdict
  dsimp only
  rw [hread, List.nil_append]
  cases s.endingWithin (bound limit + 1) with
  | fails => rfl
  | eof =>
    dsimp only
    rw [toInt_clamp, List.length_take]
    by_cases hlen : bound limit < s.data.length
    · rw [if_pos hlen, if_pos (by omega)]
    · rw [if_neg hlen, if_neg (by omega), List.take_of_length_le (by omega),
        Nat.min_eq_right (by omega)]

/-- With the largest limit the sum wraps around, and nothing is read. -/
theorem verdict_maxValue (spare : Nat → Nat) (s : Stream) :
    verdict Int64.maxValue spare s = some (.next [] 0) := by
  have hwrap : ((if Int64.maxValue < 0 then 0 else Int64.maxValue) + 1 : Int64).toInt ≤ 0 := by
    decide
  have hread := readAll_done spare s.size
    (l := ⟨s, (if Int64.maxValue < 0 then 0 else Int64.maxValue) + 1⟩) hwrap []
  unfold verdict
  dsimp only
  rw [hread]
  rfl

/-- The body limit is exact for a body. -/
structure Exact (limit : Int64) (spare : Nat → Nat) (s : Stream) : Prop where
  fits : s.ending = .eof → s.data.length ≤ bound limit →
    verdict limit spare s = some (.next s.data s.data.length)
  above : bound limit < s.data.length → verdict limit spare s = some .tooLarge
  broken : s.ending = .fails → s.data.length ≤ bound limit →
    verdict limit spare s = some .badRequest

/-- A read error that comes together with byte `limit + 1`. -/
def Stream.failsAtLimit (s : Stream) (limit : Int64) : Prop :=
  s.data.length = bound limit + 1 ∧ s.joined = true ∧ s.ending = .fails

theorem verdict_failsAtLimit {limit : Int64} (h : limit ≠ Int64.maxValue) (spare : Nat → Nat)
    {s : Stream} (hs : s.failsAtLimit limit) : verdict limit spare s = some .badRequest := by
  obtain ⟨hlen, hjoined, hfails⟩ := hs
  have hend : s.endingWithin (bound limit + 1) = .fails := by
    rw [Stream.endingWithin, if_pos (.inr ⟨hlen, hjoined⟩), hfails]
  rw [verdict_eq h, hend]

theorem exact_of_not_failsAtLimit {limit : Int64} (h : limit ≠ Int64.maxValue)
    (spare : Nat → Nat) {s : Stream} (hs : ¬ s.failsAtLimit limit) : Exact limit spare s where
  fits heof hlen := by
    have hend : s.endingWithin (bound limit + 1) = .eof := by
      rw [Stream.endingWithin, if_pos (.inl (Nat.lt_succ_of_le hlen)), heof]
    rw [verdict_eq h, hend]
    exact if_neg (Nat.not_lt.mpr hlen)
  above hlen := by
    have hend : s.endingWithin (bound limit + 1) = .eof := by
      unfold Stream.endingWithin
      split
      · -- the ending comes with byte `limit + 1`, and is not an error
        rename_i hseen
        obtain ⟨heq, hjoined⟩ := hseen.resolve_left (by omega)
        cases hending : s.ending with
        | eof => rfl
        | fails => exact absurd ⟨heq, hjoined, hending⟩ hs
      · rfl
    rw [verdict_eq h, hend]
    exact if_pos hlen
  broken hfails hlen := by
    have hend : s.endingWithin (bound limit + 1) = .fails := by
      rw [Stream.endingWithin, if_pos (.inl (Nat.lt_succ_of_le hlen)), hfails]
    rw [verdict_eq h, hend]

theorem exact_maxValue_iff (spare : Nat → Nat) (s : Stream) :
    Exact Int64.maxValue spare s ↔ s.data = [] ∧ s.ending = .eof := by
  constructor
  · intro h
    have hlen : s.data.length ≤ bound Int64.maxValue := by
      refine Nat.not_lt.mp fun hover => ?_
      cases (verdict_maxValue spare s).symm.trans (h.above hover)
    cases hending : s.ending with
    | eof =>
      have hnext := (verdict_maxValue spare s).symm.trans (h.fits hending hlen)
      injection hnext with hnext
      injection hnext with hdata
      exact ⟨hdata.symm, rfl⟩
    | fails => cases (verdict_maxValue spare s).symm.trans (h.broken hending hlen)
  · intro h
    obtain ⟨hdata, hending⟩ := h
    refine ⟨fun _ _ => ?_, fun hover => ?_, fun hfails => ?_⟩
    · rw [verdict_maxValue, hdata]
      rfl
    · rw [hdata] at hover
      exact absurd hover (Nat.not_lt_zero _)
    · rw [hending] at hfails
      cases hfails

/-- The body limit is exact, for any chunks and any buffers, unless a read error comes
together with byte `limit + 1`, or the limit is the largest int64 (then only for a body
without bytes and without an error). -/
theorem exact_iff (limit : Int64) (spare : Nat → Nat) (s : Stream) :
    Exact limit spare s ↔ ¬ s.failsAtLimit limit ∧
      (limit ≠ Int64.maxValue ∨ s.data = [] ∧ s.ending = .eof) := by
  by_cases hmax : limit = Int64.maxValue
  · subst hmax
    rw [exact_maxValue_iff]
    constructor
    · intro h
      refine ⟨fun hfails => ?_, .inr h⟩
      rw [hfails.2.2] at h
      cases h.2
    · intro h
      exact h.2.resolve_left fun hne => hne rfl
  · constructor
    · intro h
      refine ⟨fun hfails => ?_, .inl hmax⟩
      have hover := h.above (by rw [hfails.1]; exact Nat.lt_succ_self _)
      cases (verdict_failsAtLimit hmax spare hfails).symm.trans hover
    · intro h
      exact exact_of_not_failsAtLimit hmax spare h.1

/-- With the largest limit a body of one byte reaches the handler as an empty one. With limit
0, a body of one byte that comes with an error gets a 400, not a 413. -/
theorem limit_not_exact :
    verdict Int64.maxValue (fun _ => 511) ⟨[[0x61]], .eof, false⟩ = some (.next [] 0) ∧
      verdict 0 (fun _ => 511) ⟨[[0x61]], .fails, true⟩ = some .badRequest := by
  decide +kernel

/-! ## The middleware -/

section
variable {σ : Type}

/-- `MaxBodyBytes` for a request whose body arrives as `s`. -/
def maxBodyBytes (limit : Int64) (spare : Nat → Nat) (s : Stream) : Middleware σ := fun next c =>
  match verdict limit spare s with
  | none => answer c c.writer -- the loop ends, so not reached
  | some .badRequest => answer c (plainError c.writer 400 "invalid request body\n")
  | some .tooLarge => answer c (plainError c.writer 413 "request body too large\n")
  | some (.next buf n) => next { c with request :=
      { c.request with body := .stream buf false, contentLength := n } }

/-- Where the limit is exact, the chain's model of the middleware says what it does. -/
theorem maxBodyBytes_eq {limit : Int64} {spare : Nat → Nat} {s : Stream}
    (h : Exact limit spare s) (next : Handler σ) (c : Call σ)
    (hbody : c.request.body = .stream s.data (s.ending = .fails)) :
    maxBodyBytes limit spare s next c = Server.maxBodyBytes (bound limit) next c := by
  unfold maxBodyBytes Server.maxBodyBytes
  simp only [hbody]
  rcases Nat.lt_or_ge (bound limit) s.data.length with hover | hlen
  · rw [h.above hover, if_neg (by simp [hover]), if_pos (by rw [List.length_take]; omega)]
  · cases hending : s.ending with
    | eof =>
      rw [h.fits hending hlen, List.take_of_length_le (by omega), if_neg (by simp),
        if_neg (Nat.not_lt.mpr hlen)]
    | fails => rw [h.broken hending hlen, if_pos (by simp [hlen])]

end

end TabbySync.Server.BodyLimit
