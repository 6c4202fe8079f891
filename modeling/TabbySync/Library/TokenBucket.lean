import Mathlib.Algebra.Order.Ring.Defs
import Mathlib.Tactic.Linarith
import Mathlib.Tactic.Ring

/-! # Token buckets

A bucket of capacity `c` that refills at `ρ` tokens for each unit of time, looked at only
when something is served: the level between two looks is what the last one left plus what
has come in since, and at most `c`. A bucket that was never looked at is full. -/

namespace TabbySync.Library

/-- The level left by the last look, and its time. -/
structure TokenBucket (𝕜 : Type) where
  tokens : 𝕜
  looked : 𝕜

namespace TokenBucket

variable {𝕜 : Type} [LinearOrder 𝕜]

/-! ## Counting grants -/

section
variable {s t : 𝕜} {d : 𝕜 × Bool} {ds : List (𝕜 × Bool)}

/-- How many requests were granted from time `s` to time `t`. -/
def granted (s t : 𝕜) (ds : List (𝕜 × Bool)) : ℕ :=
  ds.countP fun d => d.2 && decide (s ≤ d.1) && decide (d.1 ≤ t)

theorem granted_cons_le (s t : 𝕜) (d : 𝕜 × Bool) (ds : List (𝕜 × Bool)) :
    granted s t (d :: ds) ≤ granted s t ds + 1 := by
  rw [granted, List.countP_cons]
  split
  · exact le_refl _
  · exact Nat.le_succ _

theorem granted_cons_refused (h : d.2 = false) : granted s t (d :: ds) = granted s t ds := by
  simp [granted, h]

theorem granted_cons_early (h : d.1 < s) : granted s t (d :: ds) = granted s t ds := by
  simp [granted, not_le.mpr h]

end

/-! ## The bucket -/

variable [CommRing 𝕜]

/-- The level at a later time. -/
def level (c ρ : 𝕜) (b : Option (TokenBucket 𝕜)) (now : 𝕜) : 𝕜 :=
  match b with
  | none => c
  | some b => min c (b.tokens + (now - b.looked) * ρ)

/-- Serve one request: take a token if a whole one is there. -/
def serve (c ρ : 𝕜) (b : Option (TokenBucket 𝕜)) (now : 𝕜) : Bool × TokenBucket 𝕜 :=
  if level c ρ b now < 1 then (false, ⟨level c ρ b now, now⟩)
  else (true, ⟨level c ρ b now - 1, now⟩)

/-- Requests at the given times, each with its decision. -/
def decisions (c ρ : 𝕜) : Option (TokenBucket 𝕜) → List 𝕜 → List (𝕜 × Bool)
  | _, [] => []
  | b, now :: times =>
    (now, (serve c ρ b now).1) :: decisions c ρ (some (serve c ρ b now).2) times

/-- No debt, and not over capacity. -/
def WithinCapacity (c : 𝕜) (b : Option (TokenBucket 𝕜)) : Prop :=
  ∀ b' ∈ b, 0 ≤ b'.tokens ∧ b'.tokens ≤ c

/-- The last look was not after `now`. -/
def LookedBy (now : 𝕜) (b : Option (TokenBucket 𝕜)) : Prop := ∀ b' ∈ b, b'.looked ≤ now

/-! ## The level -/

section
variable {c ρ now later : 𝕜} {b : Option (TokenBucket 𝕜)}

theorem level_le (c ρ : 𝕜) (b : Option (TokenBucket 𝕜)) (now : 𝕜) : level c ρ b now ≤ c := by
  cases b with
  | none => exact le_refl c
  | some b => exact min_le_left _ _

/-- At the moment of a look the level is what the look left. -/
theorem level_looked {x : 𝕜} (hx : x ≤ c) : level c ρ (some ⟨x, now⟩) now = x := by
  show min c (x + (now - now) * ρ) = x
  rw [sub_self, zero_mul, add_zero, min_eq_right hx]

variable [IsStrictOrderedRing 𝕜]

theorem level_nonneg (hc : 0 ≤ c) (hρ : 0 ≤ ρ) (hb : WithinCapacity c b)
    (hnow : LookedBy now b) : 0 ≤ level c ρ b now := by
  cases b with
  | none => exact hc
  | some b =>
    have hin : 0 ≤ (now - b.looked) * ρ := mul_nonneg (sub_nonneg.mpr (hnow b rfl)) hρ
    exact le_min hc (add_nonneg (hb b rfl).1 hin)

/-- The level rises by no more than what comes in. -/
theorem level_le_add (hρ : 0 ≤ ρ) (h : now ≤ later) :
    level c ρ b later ≤ level c ρ b now + (later - now) * ρ := by
  have hin : 0 ≤ (later - now) * ρ := mul_nonneg (sub_nonneg.mpr h) hρ
  cases b with
  | none => exact le_add_of_nonneg_right hin
  | some b =>
    show min c (b.tokens + (later - b.looked) * ρ) ≤
      min c (b.tokens + (now - b.looked) * ρ) + (later - now) * ρ
    rw [← min_add_add_right]
    refine min_le_min (le_add_of_nonneg_right hin) (le_of_eq ?_)
    ring

/-- A bucket that has had the time to fill up is as good as a new one. -/
theorem level_eq_capacity {b : TokenBucket 𝕜} (hb : 0 ≤ b.tokens)
    (h : c ≤ (now - b.looked) * ρ) : level c ρ (some b) now = c :=
  min_eq_left (h.trans (le_add_of_nonneg_left hb))

end

/-! ## Serving -/

section
variable {c ρ now : 𝕜} {b : Option (TokenBucket 𝕜)}

/-- What serving leaves: the level, less one token if it was granted. -/
theorem serve_spec (c ρ : 𝕜) (b : Option (TokenBucket 𝕜)) (now : 𝕜) :
    ((serve c ρ b now).1 = false ∧ level c ρ b now < 1 ∧
        (serve c ρ b now).2 = ⟨level c ρ b now, now⟩) ∨
      ((serve c ρ b now).1 = true ∧ 1 ≤ level c ρ b now ∧
        (serve c ρ b now).2 = ⟨level c ρ b now - 1, now⟩) := by
  unfold serve
  split
  · rename_i h
    exact .inl ⟨rfl, h, rfl⟩
  · rename_i h
    exact .inr ⟨rfl, not_lt.mp h, rfl⟩

theorem serve_looked (c ρ : 𝕜) (b : Option (TokenBucket 𝕜)) (now : 𝕜) :
    (serve c ρ b now).2.looked = now := by
  rcases serve_spec c ρ b now with ⟨_, _, h⟩ | ⟨_, _, h⟩ <;> rw [h]

/-- Serving depends on the level alone. -/
theorem serve_congr {b' : Option (TokenBucket 𝕜)} (h : level c ρ b now = level c ρ b' now) :
    serve c ρ b now = serve c ρ b' now := by
  rw [serve, serve, h]

/-- Two buckets at one level from the first request on answer alike. -/
theorem decisions_congr {b' : Option (TokenBucket 𝕜)} {times : List 𝕜}
    (h : ∀ τ ∈ times, level c ρ b τ = level c ρ b' τ) :
    decisions c ρ b times = decisions c ρ b' times := by
  cases times with
  | nil => rfl
  | cons τ times => rw [decisions, decisions, serve_congr (h τ (by simp))]

theorem times_decisions (c ρ : 𝕜) (b : Option (TokenBucket 𝕜)) (times : List 𝕜) :
    (decisions c ρ b times).map Prod.fst = times := by
  induction times generalizing b with
  | nil => rfl
  | cons now times ih => rw [decisions, List.map_cons, ih]

variable [IsStrictOrderedRing 𝕜]

theorem serve_within (hc : 0 ≤ c) (hρ : 0 ≤ ρ) (hb : WithinCapacity c b)
    (hnow : LookedBy now b) : WithinCapacity c (some (serve c ρ b now).2) := by
  intro b' hb'
  obtain rfl := Option.some.inj hb'
  have hle := level_le c ρ b now
  have hnn := level_nonneg hc hρ hb hnow
  rcases serve_spec c ρ b now with ⟨_, _, h⟩ | ⟨_, hone, h⟩
  · rw [h]
    exact ⟨hnn, hle⟩
  · rw [h]
    exact ⟨sub_nonneg.mpr hone, (sub_le_self _ zero_le_one).trans hle⟩

end

/-! ## How many can be granted

The level is the potential: a grant lowers it by one, and only time raises it. -/

section
variable {c ρ s t : 𝕜}

theorem granted_late {b : Option (TokenBucket 𝕜)} {times : List 𝕜} (h : ∀ τ ∈ times, t < τ) :
    granted s t (decisions c ρ b times) = 0 := by
  rw [granted, List.countP_eq_zero]
  intro d hd
  have hmem : d.1 ∈ times := by
    rw [← times_decisions c ρ b times]
    exact List.mem_map_of_mem hd
  simp [not_le.mpr (h _ hmem)]

variable [IsStrictOrderedRing 𝕜]

/-- Up to time `t`, no more is granted than the level at `now` and what comes in. -/
theorem granted_le_level (hc : 0 ≤ c) (hρ : 0 ≤ ρ) {now : 𝕜} {times : List 𝕜}
    {b : Option (TokenBucket 𝕜)} (hb : WithinCapacity c b) (hlooked : LookedBy now b)
    (hnow : ∀ τ ∈ times, now ≤ τ) (hsorted : times.Pairwise (· ≤ ·)) (ht : now ≤ t) :
    (granted s t (decisions c ρ b times) : 𝕜) ≤ level c ρ b now + (t - now) * ρ := by
  have hspare : 0 ≤ level c ρ b now + (t - now) * ρ :=
    add_nonneg (level_nonneg hc hρ hb hlooked) (mul_nonneg (sub_nonneg.mpr ht) hρ)
  induction times generalizing now b with
  | nil =>
    rw [decisions, granted, List.countP_nil, Nat.cast_zero]
    exact hspare
  | cons τ times ih =>
    obtain ⟨hfirst, hrest⟩ := List.pairwise_cons.mp hsorted
    by_cases hlate : t < τ
    · rw [granted_late fun τ' hτ' => ?_, Nat.cast_zero]
      · exact hspare
      · rcases List.mem_cons.mp hτ' with rfl | hmem
        · exact hlate
        · exact hlate.trans_le (hfirst _ hmem)
    have hτ : now ≤ τ := hnow τ (by simp)
    have hlooked' : LookedBy τ b := fun b' hb' => (hlooked b' hb').trans hτ
    have hwithin := serve_within hc hρ hb hlooked'
    have hself : LookedBy τ (some (serve c ρ b τ).2) := by
      intro b' hb'
      rw [← Option.some.inj hb', serve_looked]
    have hin : 0 ≤ (t - τ) * ρ := mul_nonneg (sub_nonneg.mpr (not_lt.mp hlate)) hρ
    have hnext := ih hwithin hself hfirst hrest (not_lt.mp hlate)
      (add_nonneg (level_nonneg hc hρ hwithin hself) hin)
    have hgrow : level c ρ b τ ≤ level c ρ b now + (τ - now) * ρ := level_le_add hρ hτ
    have hsplit : (t - now) * ρ = (τ - now) * ρ + (t - τ) * ρ := by ring
    rw [decisions]
    rcases serve_spec c ρ b τ with ⟨hno, _, hleft⟩ | ⟨_, hone, hleft⟩
    · rw [hleft, level_looked (level_le c ρ b τ)] at hnext
      rw [granted_cons_refused hno, hleft]
      linarith
    · rw [hleft, level_looked ((sub_le_self _ zero_le_one).trans (level_le c ρ b τ))] at hnext
      rw [hleft]
      have hcount : ((granted s t ((τ, (serve c ρ b τ).1) ::
          decisions c ρ (some ⟨level c ρ b τ - 1, τ⟩) times) : ℕ) : 𝕜) ≤
          granted s t (decisions c ρ (some ⟨level c ρ b τ - 1, τ⟩) times) + 1 := by
        exact_mod_cast granted_cons_le s t _ _
      linarith

/-- In any interval, no more is granted than one full bucket and what comes in. -/
theorem granted_le (hc : 0 ≤ c) (hρ : 0 ≤ ρ) {times : List 𝕜} {b : Option (TokenBucket 𝕜)}
    (hb : WithinCapacity c b) (hlooked : ∀ τ ∈ times, LookedBy τ b)
    (hsorted : times.Pairwise (· ≤ ·)) (hst : s ≤ t) :
    (granted s t (decisions c ρ b times) : 𝕜) ≤ c + (t - s) * ρ := by
  have hspare : 0 ≤ c + (t - s) * ρ := add_nonneg hc (mul_nonneg (sub_nonneg.mpr hst) hρ)
  induction times generalizing b with
  | nil =>
    rw [decisions, granted, List.countP_nil, Nat.cast_zero]
    exact hspare
  | cons τ times ih =>
    obtain ⟨hfirst, hrest⟩ := List.pairwise_cons.mp hsorted
    have hhere : ∀ τ' ∈ τ :: times, τ ≤ τ' := by
      intro τ' hτ'
      rcases List.mem_cons.mp hτ' with rfl | hmem
      · exact le_refl _
      · exact hfirst _ hmem
    rcases lt_or_ge τ s with hearly | hs
    · -- not counted yet
      rw [decisions, granted_cons_early hearly]
      refine ih (serve_within hc hρ hb (hlooked τ (by simp))) (fun τ' hτ' b' hb' => ?_) hrest
      rw [← Option.some.inj hb', serve_looked]
      exact hfirst _ hτ'
    rcases lt_or_ge t τ with hlate | ht
    · rw [granted_late fun τ' hτ' => hlate.trans_le (hhere τ' hτ'), Nat.cast_zero]
      exact hspare
    · -- the first one that counts finds at most a full bucket
      have hfrom := granted_le_level (s := s) hc hρ hb (hlooked τ (by simp)) hhere hsorted ht
      have hfull := level_le c ρ b τ
      have hshift : (t - τ) * ρ ≤ (t - s) * ρ :=
        mul_le_mul_of_nonneg_right (sub_le_sub_left hs t) hρ
      linarith

end

end TokenBucket

end TabbySync.Library
