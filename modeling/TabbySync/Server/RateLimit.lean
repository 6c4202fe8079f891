import Mathlib.Data.Set.Finite.Lattice
import Mathlib.Tactic.FieldSimp
import TabbySync.Library.TokenBucket
import TabbySync.Server.Handler

/-! # Runs of the rate limiter

The limiter under any sequence of `Allow` calls and sweeps of `gc` in the order of their
times. For each key it is one token bucket of `rate` tokens that refills in `window`,
served at the times of that key's own calls: the other keys do not touch it, and a bucket
that is swept away had the time to fill up.

The cutoff of a sweep and the time since the last call are exact, where the source has
64-bit nanoseconds. -/

namespace TabbySync.Server
open TabbySync.Library

/-- `New`; the goroutine it starts is the sweeps of a run. -/
def Limiter.new (rate window : Int) : Limiter where
  rate := (if rate < 1 then 1 else rate).toNat
  window := (if window < 1000000000 then 1000000000 else window).toNat
  buckets := fun _ => none

/-- One turn of the loop in `gc`. -/
def Limiter.sweep (l : Limiter) (now : Int) : Limiter :=
  let cutoff := now - 2 * l.window
  { l with buckets := fun key => (l.buckets key).filter fun b => !decide (b.lastCheck < cutoff) }

/-- The seconds `Middleware` sends with a 429. -/
def Limiter.retryAfter (l : Limiter) : Nat := l.window / 1000000000

inductive Limiter.Op
  | allow (key : String)
  | sweep
  deriving DecidableEq

/-- What happens to a limiter, and when. -/
structure Limiter.Event where
  time : Int
  op : Limiter.Op

namespace Limiter

def step (l : Limiter) (e : Event) : Limiter :=
  match e.op with
  | .allow key => (l.allow e.time key).2
  | .sweep => l.sweep e.time

def run (l : Limiter) (es : List Event) : Limiter := es.foldl step l

/-- The times of the calls for a key. -/
def callTimes (k : String) (es : List Event) : List Int :=
  (es.filter fun e => e.op = .allow k).map Event.time

/-- What `Allow` returns for a key, with the times of the calls. -/
def decisions (k : String) : Limiter → List Event → List (Int × Bool)
  | _, [] => []
  | l, e :: es =>
    if e.op = .allow k then (e.time, (l.allow e.time k).1) :: decisions k (l.step e) es
    else decisions k (l.step e) es

def InOrder (es : List Event) : Prop := es.Pairwise fun e e' => e.time ≤ e'.time

/-! ## A key's bucket -/

/-- Tokens in a nanosecond. -/
def refill (l : Limiter) : ℚ := l.rate / l.window

/-- The bucket of a key. -/
def bucketOf (l : Limiter) (k : String) : Option (TokenBucket ℚ) :=
  (l.buckets k).map fun b => ⟨b.tokens, b.lastCheck⟩

section
variable {l : Limiter} {now : Int} {k key : String} {e : Event} {es : List Event}

theorem seconds_mul_refill (l : Limiter) (d : Int) :
    seconds d * (l.rate / seconds l.window) = d * l.refill := by
  unfold seconds refill
  rw [Int.cast_natCast]
  field_simp

theorem refilled_eq (l : Limiter) (now : Int) (k : String) :
    l.refilled now k = TokenBucket.level (l.rate : ℚ) l.refill (l.bucketOf k) now := by
  unfold refilled bucketOf
  simp only [seconds_mul_refill]
  cases l.buckets k with
  | none => simp [TokenBucket.level]
  | some b =>
    show (if b.tokens + (now - b.lastCheck : Int) * l.refill > l.rate then (l.rate : ℚ)
      else b.tokens + (now - b.lastCheck : Int) * l.refill) =
      min (l.rate : ℚ) (b.tokens + (now - b.lastCheck) * l.refill)
    rw [Int.cast_sub]
    split
    · rename_i h
      exact (min_eq_left (le_of_lt h)).symm
    · rename_i h
      exact (min_eq_right (not_lt.mp h)).symm

/-- `Allow` serves one request from the key's bucket. -/
theorem allow_eq (l : Limiter) (now : Int) (k : String) :
    (l.allow now k).1 = (TokenBucket.serve (l.rate : ℚ) l.refill (l.bucketOf k) now).1 ∧
      (l.allow now k).2.bucketOf k =
        some (TokenBucket.serve (l.rate : ℚ) l.refill (l.bucketOf k) now).2 := by
  unfold allow TokenBucket.serve
  rw [← refilled_eq]
  dsimp only
  split
  · exact ⟨rfl, by simp [bucketOf, store]⟩
  · exact ⟨rfl, by simp [bucketOf, store]⟩

theorem allow_bucketOf_of_ne (h : key ≠ k) : (l.allow now key).2.bucketOf k = l.bucketOf k := by
  unfold allow
  dsimp only
  split <;> simp [bucketOf, store, Function.update_of_ne h.symm]

/-- A sweep leaves a bucket, or drops one whose last call is more than two windows old. -/
theorem sweep_bucketOf (l : Limiter) (now : Int) (k : String) :
    (l.sweep now).bucketOf k = l.bucketOf k ∨
      (l.sweep now).bucketOf k = none ∧
        ∃ b ∈ l.bucketOf k, b.looked < now - 2 * l.window := by
  unfold bucketOf sweep
  dsimp only
  cases l.buckets k with
  | none => exact .inl rfl
  | some b =>
    by_cases h : b.lastCheck < now - 2 * l.window
    · refine .inr ⟨?_, _, rfl, ?_⟩
      · rw [Option.filter_some_neg (by simpa using h), Option.map_none]
      · show (b.lastCheck : ℚ) < now - 2 * l.window
        exact_mod_cast h
    · exact .inl (by rw [Option.filter_some_pos (by simpa using h)])

@[simp] theorem step_rate (l : Limiter) (e : Event) : (l.step e).rate = l.rate := by
  unfold step allow sweep
  split
  · dsimp only
    split <;> rfl
  · rfl

@[simp] theorem step_window (l : Limiter) (e : Event) : (l.step e).window = l.window := by
  unfold step allow sweep
  split
  · dsimp only
    split <;> rfl
  · rfl

theorem step_refill (l : Limiter) (e : Event) : (l.step e).refill = l.refill := by
  rw [refill, refill, step_rate, step_window]

/-- What happens to a key's bucket: it is served, dropped or left alone. -/
theorem step_bucketOf (l : Limiter) (e : Event) (k : String) :
    (e.op = .allow k ∧ (l.step e).bucketOf k =
        some (TokenBucket.serve (l.rate : ℚ) l.refill (l.bucketOf k) e.time).2) ∨
      (e.op ≠ .allow k ∧ ((l.step e).bucketOf k = l.bucketOf k ∨
        (l.step e).bucketOf k = none ∧
          ∃ b ∈ l.bucketOf k, b.looked < e.time - 2 * l.window)) := by
  unfold step
  cases e.op with
  | sweep => exact .inr ⟨nofun, sweep_bucketOf l e.time k⟩
  | allow key =>
    by_cases hk : key = k
    · subst hk
      exact .inl ⟨rfl, (allow_eq l e.time key).2⟩
    · exact .inr ⟨fun h => hk (Op.allow.inj h), .inl (allow_bucketOf_of_ne hk)⟩

/-! ## What holds in every reachable state -/

/-- No bucket is in debt, over capacity or from the future. -/
structure Sound (now : Int) (l : Limiter) : Prop where
  rate : 1 ≤ l.rate
  window : 1000000000 ≤ l.window
  within : ∀ k, TokenBucket.WithinCapacity (l.rate : ℚ) (l.bucketOf k)
  looked : ∀ k, TokenBucket.LookedBy (now : ℚ) (l.bucketOf k)

theorem sound_new (now rate window : Int) : Sound now (new rate window) where
  rate := by
    unfold new
    dsimp only
    split <;> omega
  window := by
    unfold new
    dsimp only
    split <;> omega
  within := fun _ _ hb => nomatch hb
  looked := fun _ _ hb => nomatch hb

theorem refill_nonneg (l : Limiter) : 0 ≤ l.refill :=
  div_nonneg (Nat.cast_nonneg _) (Nat.cast_nonneg _)

theorem Sound.mono {later : Int} (h : Sound now l) (hle : now ≤ later) : Sound later l :=
  { h with looked := fun k b hb => (h.looked k b hb).trans (Int.cast_le.mpr hle) }

theorem Sound.step (h : Sound now l) (hnow : now ≤ e.time) : Sound e.time (l.step e) := by
  have hl := h.mono hnow
  refine ⟨by rw [step_rate]; exact h.rate, by rw [step_window]; exact h.window,
    fun k => ?_, fun k => ?_⟩
  · rw [step_rate]
    rcases step_bucketOf l e k with ⟨_, hb⟩ | ⟨_, hb | ⟨hb, _⟩⟩
    · rw [hb]
      exact TokenBucket.serve_within (Nat.cast_nonneg _) l.refill_nonneg (hl.within k)
        (hl.looked k)
    · rw [hb]
      exact hl.within k
    · rw [hb]
      exact fun _ hb' => nomatch hb'
  · rcases step_bucketOf l e k with ⟨_, hb⟩ | ⟨_, hb | ⟨hb, _⟩⟩
    · rw [hb]
      intro b' hb'
      rw [← Option.some.inj hb', TokenBucket.serve_looked]
    · rw [hb]
      exact hl.looked k
    · rw [hb]
      exact fun _ hb' => nomatch hb'

theorem Sound.run {later : Int} (h : Sound now l) (hnow : ∀ e ∈ es, now ≤ e.time)
    (horder : InOrder es) (hlater : ∀ e ∈ es, e.time ≤ later) (hle : now ≤ later) :
    Sound later (l.run es) := by
  induction es generalizing l now with
  | nil => exact h.mono hle
  | cons e es ih =>
    obtain ⟨hfirst, hrest⟩ := List.pairwise_cons.mp horder
    exact ih (h.step (hnow e (by simp))) hfirst hrest
      (fun e' he' => hlater e' (List.mem_cons_of_mem _ he')) (hlater e (by simp))

/-! ## A key's decisions -/

theorem callTimes_cons_self (h : e.op = .allow k) :
    callTimes k (e :: es) = e.time :: callTimes k es := by
  simp [callTimes, h]

theorem callTimes_cons_of_ne (h : e.op ≠ .allow k) : callTimes k (e :: es) = callTimes k es := by
  simp [callTimes, h]

/-- A bucket that a sweep drops is full from then on. -/
theorem Sound.level_step (h : Sound now l) (hother : e.op ≠ .allow k) {τ : ℚ} (hτ : e.time ≤ τ) :
    TokenBucket.level (l.rate : ℚ) l.refill ((l.step e).bucketOf k) τ =
      TokenBucket.level (l.rate : ℚ) l.refill (l.bucketOf k) τ := by
  rcases step_bucketOf l e k with ⟨hop, _⟩ | ⟨_, hb | ⟨hb, b, hmem, hold⟩⟩
  · exact absurd hop hother
  · rw [hb]
  · rw [hb, hmem, TokenBucket.level_eq_capacity (h.within k b hmem).1]
    · rfl
    -- idle for more than a window: `rate` tokens have come in
    have hw : (0 : ℚ) < l.window := Nat.cast_pos.mpr (by have := h.window; omega)
    have hidle : (l.window : ℚ) ≤ τ - b.looked := by linarith
    calc (l.rate : ℚ) = l.window * l.refill := by rw [refill]; field_simp
      _ ≤ (τ - b.looked) * l.refill := mul_le_mul_of_nonneg_right hidle l.refill_nonneg

/-- The decisions for a key are those of one bucket served at the times of its calls. -/
theorem Sound.decisions_eq (h : Sound now l) (hnow : ∀ e ∈ es, now ≤ e.time)
    (horder : InOrder es) (k : String) :
    (l.decisions k es).map (fun d => ((d.1 : ℚ), d.2)) =
      TokenBucket.decisions (l.rate : ℚ) l.refill (l.bucketOf k)
        ((callTimes k es).map fun τ : Int => (τ : ℚ)) := by
  induction es generalizing l now with
  | nil => rfl
  | cons e es ih =>
    obtain ⟨hfirst, hrest⟩ := List.pairwise_cons.mp horder
    have hstep := ih (h.step (hnow e (by simp))) hfirst hrest
    rw [step_rate, step_refill] at hstep
    rw [Limiter.decisions]
    split
    · rename_i hop
      rw [callTimes_cons_self hop, List.map_cons, List.map_cons, TokenBucket.decisions, hstep,
        (allow_eq l e.time k).1]
      rcases step_bucketOf l e k with ⟨_, hb⟩ | ⟨hne, _⟩
      · rw [hb]
      · exact absurd hop hne
    · rename_i hop
      rw [callTimes_cons_of_ne hop, hstep]
      refine TokenBucket.decisions_congr fun τ hτ => h.level_step hop ?_
      obtain ⟨i, hi, rfl⟩ := List.mem_map.mp hτ
      obtain ⟨e', he', rfl⟩ := List.mem_map.mp hi
      exact Int.cast_le.mpr (hfirst e' (List.mem_of_mem_filter he'))

theorem InOrder.callTimes (h : InOrder es) (k : String) :
    ((callTimes k es).map fun τ : Int => (τ : ℚ)).Pairwise (· ≤ ·) := by
  rw [Limiter.callTimes, List.map_map, List.pairwise_map]
  exact (h.filter _).imp fun hle => Int.cast_le.mpr hle

/-! ## Runs of a new limiter -/

theorem exists_start (es : List Event) : ∃ now, ∀ e ∈ es, now ≤ e.time := by
  obtain ⟨now, h⟩ := (List.finite_toSet (es.map Event.time)).bddBelow
  exact ⟨now, fun e he => h (List.mem_map_of_mem he)⟩

theorem sound_run (rate window : Int) {later : Int} (horder : InOrder es)
    (hlater : ∀ e ∈ es, e.time ≤ later) : Sound later ((new rate window).run es) := by
  obtain ⟨now, hnow⟩ := exists_start es
  have hstart := sound_new (min now later) rate window
  exact hstart.run (fun e he => (min_le_left _ _).trans (hnow e he)) horder hlater
    (min_le_right _ _)

theorem decisions_new (rate window : Int) (horder : InOrder es) (k : String) :
    ((new rate window).decisions k es).map (fun d => ((d.1 : ℚ), d.2)) =
      TokenBucket.decisions ((new rate window).rate : ℚ) (new rate window).refill none
        ((callTimes k es).map fun τ : Int => (τ : ℚ)) := by
  obtain ⟨now, hnow⟩ := exists_start es
  exact (sound_new now rate window).decisions_eq hnow horder k

theorem run_rate (l : Limiter) (es : List Event) : (l.run es).rate = l.rate := by
  induction es generalizing l with
  | nil => rfl
  | cons e es ih => exact (ih (l.step e)).trans (step_rate l e)

theorem run_window (l : Limiter) (es : List Event) : (l.run es).window = l.window := by
  induction es generalizing l with
  | nil => rfl
  | cons e es ih => exact (ih (l.step e)).trans (step_window l e)

theorem granted_map_cast (s t : Int) (ds : List (Int × Bool)) :
    TokenBucket.granted (s : ℚ) t (ds.map fun d => ((d.1 : ℚ), d.2)) =
      TokenBucket.granted s t ds := by
  unfold TokenBucket.granted
  rw [List.countP_map]
  simp [Function.comp_def]

/-- No bucket leaves the range from 0 to `rate`, and in no interval does a key get more
than one full bucket and what comes in. -/
theorem allowed_le (rate window : Int) (horder : InOrder es) :
    (∀ k b, ((new rate window).run es).buckets k = some b →
        0 ≤ b.tokens ∧ b.tokens ≤ (new rate window).rate) ∧
      ∀ k (s t : Int), s ≤ t →
        (TokenBucket.granted s t ((new rate window).decisions k es) : ℚ) ≤
          (new rate window).rate + (new rate window).rate * (t - s) / (new rate window).window := by
  constructor
  · intro k b hb
    obtain ⟨later, hlater⟩ := (List.finite_toSet (es.map Event.time)).bddAbove
    have hsound := sound_run rate window horder fun e he => hlater (List.mem_map_of_mem he)
    have hmem : (⟨b.tokens, b.lastCheck⟩ : TokenBucket ℚ) ∈
        ((new rate window).run es).bucketOf k := by
      rw [bucketOf, hb]
      rfl
    have hwithin := hsound.within k _ hmem
    rwa [run_rate] at hwithin
  · intro k s t hst
    have hle := TokenBucket.granted_le (s := (s : ℚ)) (t := (t : ℚ))
      (c := ((new rate window).rate : ℚ)) (ρ := (new rate window).refill) (b := none)
      (Nat.cast_nonneg _) (refill_nonneg _) (fun _ hb => nomatch hb) (fun _ _ _ hb => nomatch hb)
      (horder.callTimes k) (Int.cast_le.mpr hst)
    rw [← decisions_new rate window horder k, granted_map_cast] at hle
    calc _ ≤ _ := hle
      _ = _ := by rw [refill]; ring

/-- Two calls for a key; between them a call for another one and a sweep that drops both. -/
def sweptRun : List Event :=
  [⟨0, .allow "user:1"⟩, ⟨0, .allow "user:2"⟩, ⟨4000000000, .sweep⟩, ⟨5000000000, .allow "user:1"⟩]

theorem inOrder_sweptRun : InOrder sweptRun := by
  simp [InOrder, sweptRun]

theorem allowed_le_sweptRun :
    InOrder sweptRun ∧
      (TokenBucket.granted 0 5000000000 ((new 1 1500000000).decisions "user:1" sweptRun) : ℚ) ≤
        (new 1 1500000000).rate + (new 1 1500000000).rate * ((5000000000 : Int) - (0 : Int)) /
          (new 1 1500000000).window :=
  ⟨inOrder_sweptRun, (allowed_le 1 1500000000 inOrder_sweptRun).2 "user:1" 0 5000000000
    (Int.zero_le_ofNat _)⟩

/-- The decisions for a key depend on the times of its calls alone: sweeps and the calls
for other keys have no part in them. -/
theorem decisions_of_callTimes (rate window : Int) {es es' : List Event} (horder : InOrder es)
    (horder' : InOrder es') (k : String) (h : callTimes k es = callTimes k es') :
    (new rate window).decisions k es = (new rate window).decisions k es' := by
  have hinj : Function.Injective fun d : Int × Bool => ((d.1 : ℚ), d.2) := by
    intro d d' hd
    obtain ⟨h1, h2⟩ := Prod.mk.inj hd
    exact Prod.ext (Int.cast_injective h1) h2
  refine List.map_injective_iff.mpr hinj ?_
  rw [decisions_new rate window horder, decisions_new rate window horder', h]

theorem decisions_of_callTimes_sweptRun :
    (new 1 1500000000).decisions "user:1" sweptRun =
      (new 1 1500000000).decisions "user:1"
        [⟨0, .allow "user:1"⟩, ⟨5000000000, .allow "user:1"⟩] :=
  decisions_of_callTimes 1 1500000000 inOrder_sweptRun (by simp [InOrder]) "user:1" rfl

/-! ## Retry-After -/

theorem allow_iff (l : Limiter) (now : Int) (k : String) :
    (l.allow now k).1 = true ↔
      1 ≤ TokenBucket.level (l.rate : ℚ) l.refill (l.bucketOf k) now := by
  rw [(allow_eq l now k).1]
  rcases TokenBucket.serve_spec (l.rate : ℚ) l.refill (l.bucketOf k) now with
    ⟨hno, hlt, _⟩ | ⟨hyes, hle, _⟩
  · simp [hno, hlt]
  · simp [hyes, hle]

/-- Without calls for the key its level only grows with time. -/
theorem Sound.level_run (h : Sound now l) (hnow : ∀ e ∈ es, now ≤ e.time) (horder : InOrder es)
    (hquiet : callTimes k es = []) {τ : ℚ} (hτ : ∀ e ∈ es, (e.time : ℚ) ≤ τ) :
    TokenBucket.level (l.rate : ℚ) l.refill ((l.run es).bucketOf k) τ =
      TokenBucket.level (l.rate : ℚ) l.refill (l.bucketOf k) τ := by
  induction es generalizing l now with
  | nil => rfl
  | cons e es ih =>
    obtain ⟨hfirst, hrest⟩ := List.pairwise_cons.mp horder
    have hother : e.op ≠ .allow k := by
      intro hop
      rw [callTimes_cons_self hop] at hquiet
      cases hquiet
    rw [callTimes_cons_of_ne hother] at hquiet
    have hstep := ih (h.step (hnow e (by simp))) hfirst hrest hquiet
      (fun e' he' => hτ e' (List.mem_cons_of_mem _ he'))
    rw [step_rate, step_refill] at hstep
    exact hstep.trans (h.level_step hother (hτ e (by simp)))

/-- The seconds `Retry-After` names, in nanoseconds. -/
def retryDelay (l : Limiter) : Int := l.retryAfter * 1000000000

/-- After a rejected call, one after `Retry-After` is let through exactly if what was left
and what comes in until then make one token. -/
theorem Sound.allow_retry_iff (h : Sound now l) (hreject : (l.allow now k).1 = false)
    (horder : InOrder es) (htimes : ∀ e ∈ es, now ≤ e.time ∧ e.time ≤ now + l.retryDelay)
    (hquiet : callTimes k es = []) :
    (((l.allow now k).2.run es).allow (now + l.retryDelay) k).1 = true ↔
      1 ≤ TokenBucket.level (l.rate : ℚ) l.refill (l.bucketOf k) now + l.retryDelay * l.refill := by
  have hstep : Sound now (l.step ⟨now, .allow k⟩) := h.step (e := ⟨now, .allow k⟩) (le_refl _)
  have hrate : (1 : ℚ) ≤ l.rate := by exact_mod_cast h.rate
  have hafter := hstep.level_run (fun e he => (htimes e he).1) horder hquiet
    (τ := ((now + l.retryDelay : Int) : ℚ)) (fun e he => Int.cast_le.mpr (htimes e he).2)
  rw [step_rate, step_refill] at hafter
  show (((l.step ⟨now, .allow k⟩).run es).allow (now + l.retryDelay) k).1 = true ↔ _
  rw [allow_iff, run_rate, refill, run_rate, run_window, step_rate, step_window, ← refill, hafter]
  rcases TokenBucket.serve_spec (l.rate : ℚ) l.refill (l.bucketOf k) now with
    ⟨_, _, hleft⟩ | ⟨hyes, _, _⟩
  · rw [show (l.step ⟨now, .allow k⟩).bucketOf k = _ from (allow_eq l now k).2, hleft]
    show 1 ≤ min (l.rate : ℚ) _ ↔ _
    rw [le_min_iff, and_iff_right hrate, Int.cast_add, add_sub_cancel_left]
  · rw [(allow_eq l now k).1, hyes] at hreject
    cases hreject

theorem retryAfter_sent (w : Writer) (l : Limiter) :
    ("Retry-After", toString l.retryAfter) ∈ (tooManyRequests w l).header := by
  show _ ∈ (Writer.setAll w _).header
  exact List.mem_append_right _ (List.mem_singleton_self _)

/-- After a call that `Allow` rejects at `t`, whatever came before it, and without another
call for the key, one after the seconds of `Retry-After` is let through. -/
def RetrySuffices (l : Limiter) : Prop :=
  ∀ (k : String) (es es' : List Event) (t : Int),
    InOrder es → (∀ e ∈ es, e.time ≤ t) →
    InOrder es' → (∀ e ∈ es', t ≤ e.time ∧ e.time ≤ t + l.retryDelay) →
    callTimes k es' = [] →
    ((l.run es).allow t k).1 = false →
    ((((l.run es).allow t k).2.run es').allow (t + l.retryDelay) k).1 = true

theorem Sound.one_le_refill_iff (h : Sound now l) :
    1 ≤ l.retryDelay * l.refill ↔ l.window ≤ l.retryAfter * 1000000000 * l.rate := by
  have hw : (0 : ℚ) < l.window := Nat.cast_pos.mpr (by have := h.window; omega)
  rw [retryDelay, refill, mul_div_assoc', le_div_iff₀ hw, one_mul]
  exact_mod_cast Iff.rfl

theorem Sound.retry_enough (h : Sound now l) (hwhole : 2 ≤ l.rate ∨ 1000000000 ∣ l.window) :
    l.window ≤ l.retryAfter * 1000000000 * l.rate := by
  have hw := h.window
  have hr := h.rate
  unfold retryAfter
  rcases hwhole with htwo | hdvd
  · -- half the window at least has passed
    calc l.window ≤ l.window / 1000000000 * 1000000000 * 2 := by omega
      _ ≤ l.window / 1000000000 * 1000000000 * l.rate := Nat.mul_le_mul_left _ htwo
  · rw [Nat.div_mul_cancel hdvd]
    exact Nat.le_mul_of_pos_right _ hr

/-- A limiter for one request in a window that is not a whole number of seconds: the second
of two requests at once is rejected, and so is one after `Retry-After`. -/
theorem not_retrySuffices (h : Sound 0 l) (hfull : l.bucketOf k = none) (hone : l.rate = 1)
    (hpart : ¬ 1000000000 ∣ l.window) : ¬ RetrySuffices l := by
  intro hall
  have hrun : l.run [⟨0, .allow k⟩] = l.step ⟨0, .allow k⟩ := rfl
  have hsound : Sound 0 (l.step ⟨0, .allow k⟩) := h.step (e := ⟨0, .allow k⟩) (le_refl _)
  have hempty : TokenBucket.level ((l.step ⟨0, .allow k⟩).rate : ℚ) (l.step ⟨0, .allow k⟩).refill
      ((l.step ⟨0, .allow k⟩).bucketOf k) (0 : Int) = 0 := by
    rw [show (l.step ⟨0, .allow k⟩).bucketOf k = _ from (allow_eq l 0 k).2, hfull]
    simp [TokenBucket.serve, TokenBucket.level, hone]
  have hreject : ((l.step ⟨0, .allow k⟩).allow 0 k).1 = false := by
    rw [← Bool.not_eq_true, allow_iff, hempty]
    exact not_le.mpr zero_lt_one
  have hdelay : (l.step ⟨0, .allow k⟩).retryDelay = l.retryDelay := by
    rw [retryDelay, retryDelay, retryAfter, retryAfter, step_window]
  have hquiet : ∀ e ∈ ([] : List Event), 0 ≤ e.time ∧ e.time ≤ 0 + l.retryDelay :=
    fun e he => absurd he List.not_mem_nil
  have hretry := hall k [⟨0, .allow k⟩] [] 0 (List.pairwise_singleton _ _)
    (fun e he => by rw [List.mem_singleton.mp he]) .nil hquiet rfl hreject
  rw [← hdelay] at hquiet
  rw [hrun, ← hdelay, hsound.allow_retry_iff hreject .nil hquiet rfl, hempty, zero_add,
    hsound.one_le_refill_iff, retryAfter, step_window, step_rate, hone] at hretry
  omega

/-- Waiting for `Retry-After` is enough exactly for a limiter that allows two requests in a
window, or whose window is a whole number of seconds. -/
theorem retryAfter_suffices_iff (rate window : Int) :
    (∀ w, ("Retry-After", toString (new rate window).retryAfter) ∈
        (tooManyRequests w (new rate window)).header) ∧
      (RetrySuffices (new rate window) ↔
        2 ≤ (new rate window).rate ∨ 1000000000 ∣ (new rate window).window) := by
  refine ⟨fun w => retryAfter_sent w _, fun hall => ?_, fun hwhole => ?_⟩
  · have hnew := sound_new 0 rate window
    by_contra hpart
    rw [not_or] at hpart
    have hone : (new rate window).rate = 1 := by
      have := hnew.rate
      omega
    exact not_retrySuffices (k := "") hnew rfl hone hpart.2 hall
  · intro k es es' t horder hle horder' hle' hquiet hreject
    have hsound := sound_run rate window horder hle
    have hdelay : ((new rate window).run es).retryDelay = (new rate window).retryDelay := by
      rw [retryDelay, retryDelay, retryAfter, retryAfter, run_window]
    rw [← hdelay] at hle' ⊢
    rw [hsound.allow_retry_iff hreject horder' hle' hquiet]
    refine le_add_of_nonneg_of_le ?_ (hsound.one_le_refill_iff.mpr (hsound.retry_enough ?_))
    · exact TokenBucket.level_nonneg (Nat.cast_nonneg _) (refill_nonneg _) (hsound.within k)
        (hsound.looked k)
    · rwa [run_rate, run_window]

/-- One request in 1.5 s: the client is told to wait for one second, in which two thirds of
a token come in. -/
theorem retry_too_early :
    ¬ RetrySuffices (new 1 1500000000) ∧ (new 1 1500000000).retryAfter = 1 ∧
      (new 1 1500000000).decisions "user:1" [⟨0, .allow "user:1"⟩, ⟨0, .allow "user:1"⟩,
        ⟨1000000000, .allow "user:1"⟩] = [(0, true), (0, false), (1000000000, false)] := by
  refine ⟨not_retrySuffices (k := "user:1") (sound_new 0 1 1500000000) rfl rfl (by decide), ?_⟩
  decide +kernel

end

end Limiter

end TabbySync.Server
