import Mathlib
import TabbySync.Server.Responses
import TabbySync.Server.Tenants

/-! # What the limiter remembers

Only a request that is charged gets a bucket, and only a valid token or a health probe is
charged: a request with any other token is refused in front of the limiter. A sweep drops
what has not been charged for two windows. So the map has at most one bucket a user, and
one for each probe since two windows before the last sweep. -/

namespace TabbySync.Server
open TabbySync.Library TabbySync.Auth

def Event.time : Event → Int
  | .serve turn _ => turn.now
  | .sweep now => now

/-- The key that a request is charged to, if it comes that far. -/
def Service.chargeKey (S : Service) (r : Request) : Option String :=
  if isHealthProbe r then some ("ip:" ++ limiterIP S.net (clientAddr S.net r))
  else (admitted S.sha256 S.users r.authorization).map fun u => userKey u.id

def Limiter.keys (l : Limiter) : Set String := { k | (l.buckets k).isSome }

theorem Reaches.chargeKey {S : Service} {r r' : Request} (h : Reaches S r r') :
    S.chargeKey r = some (extractKey S.net r') := by
  unfold Service.chargeKey extractKey
  by_cases hp : isHealthProbe r = true
  · have huser := h.user
    rw [if_pos hp] at huser
    rw [if_pos hp, huser, h.addr]
  · have huser := h.user
    rw [if_neg hp] at huser
    obtain ⟨u, hu⟩ := Option.isSome_iff_exists.mp (h.known (Bool.eq_false_iff.mpr hp))
    rw [if_neg hp, ← huser, hu]
    rfl

section
variable {ι : Type} {S : Service} {requests : ι → Request} {window : Nat}
  {past : List (ι × Event)} {p : Pool Shared ι Proc}

/-- Every bucket is there for an event, and not for one before the last sweep's cutoff. -/
structure Remembers (S : Service) (requests : ι → Request) (window : Nat)
    (past : List (ι × Event)) (p : Pool Shared ι Proc) : Prop where
  waiting : ∀ i r, p.procs i = .arriving r → r = requests i
  same : p.shared.limiter.window = window
  charged : ∀ k b, p.shared.limiter.buckets k = some b →
    ∃ i turn env, (i, .serve turn env) ∈ past ∧ turn.now = b.lastCheck ∧
      S.chargeKey (requests i) = some k
  swept : ∀ i now, (i, .sweep now) ∈ past → ∀ k b, p.shared.limiter.buckets k = some b →
    now - 2 * window ≤ b.lastCheck

theorem answered_ne_arriving {w : Writer} {r : Request} : Proc.answered w ≠ .arriving r := by
  intro h
  cases h

theorem settle_ne_arriving {w : Writer} {h : Api.Handler} {r : Request} :
    S.settle w h ≠ .arriving r := by
  cases h with
  | responded reply => exact answered_ne_arriving
  | _ =>
    intro h
    cases h

theorem dispatch_ne_arriving {w : Writer} {r r' : Request} : S.dispatch r' w ≠ .arriving r := by
  unfold Service.dispatch
  split
  · exact answered_ne_arriving
  · exact answered_ne_arriving
  · exact settle_ne_arriving

/-- A request arrives once. -/
theorem step_ne_arriving (turn : Turn) (env : Encrypted.Env) (s : Shared) (q : Proc) (r : Request) :
    (S.step (.serve turn env) s q).2 ≠ .arriving r := by
  cases q with
  | answered w => exact answered_ne_arriving
  | inside w h => exact settle_ne_arriving
  | arriving r₀ =>
    simp only [Service.step]
    rcases S.entered turn r₀ with ⟨w, h⟩ | ⟨r', w, -, h⟩
    · rw [h]
      exact answered_ne_arriving
    · rw [h]
      dsimp only
      split
      · exact dispatch_ne_arriving
      · exact answered_ne_arriving

/-- What a step of a request does to the limiter. -/
theorem step_limiter (turn : Turn) (env : Encrypted.Env) (s : Shared) (q : Proc) :
    (S.step (.serve turn env) s q).1.limiter = s.limiter ∨
      ∃ r key tokens, q = .arriving r ∧ S.chargeKey r = some key ∧
        (S.step (.serve turn env) s q).1.limiter = s.limiter.store key ⟨tokens, turn.now⟩ := by
  cases q with
  | answered w => exact .inl rfl
  | inside w h => exact .inl rfl
  | arriving r =>
    simp only [Service.step]
    rcases S.entered turn r with ⟨w, h⟩ | ⟨r', w, hreach, h⟩
    · rw [h]
      exact .inl rfl
    · obtain ⟨tokens, hallow⟩ := allow_cases s.limiter turn.now (extractKey S.net r')
      rw [h]
      exact .inr ⟨r, _, tokens, rfl, hreach.chargeKey, hallow⟩

variable [DecidableEq ι]

theorem remembers_sweep (h : Remembers S requests window past p) (i : ι) (now : Int) :
    Remembers S requests window (past ++ [(i, .sweep now)])
      (Pool.fire S.step p (i, .sweep now)) := by
  have hfire : Pool.fire S.step p (i, .sweep now) =
      ⟨{ p.shared with limiter := p.shared.limiter.sweep now }, p.procs⟩ :=
    congrArg (Pool.mk _) (Function.update_eq_self i p.procs)
  -- what the sweep leaves was there before, and is young enough
  have hleft : ∀ k b, (p.shared.limiter.sweep now).buckets k = some b →
      p.shared.limiter.buckets k = some b ∧ now - 2 * window ≤ b.lastCheck := by
    intro k b hb
    obtain ⟨hold, hyoung⟩ := Option.filter_eq_some_iff.mp hb
    rw [h.same] at hyoung
    exact ⟨hold, by simpa using hyoung⟩
  rw [hfire]
  refine ⟨h.waiting, h.same, fun k b hb => ?_, fun j T hT k b hb => ?_⟩
  · obtain ⟨j, turn, env, hmem, htime, hkey⟩ := h.charged k b (hleft k b hb).1
    exact ⟨j, turn, env, List.mem_append_left _ hmem, htime, hkey⟩
  · rcases List.mem_append.mp hT with hpast | hnew
    · exact h.swept j T hpast k b (hleft k b hb).1
    · cases List.mem_singleton.mp hnew
      exact (hleft k b hb).2

theorem remembers_serve (h : Remembers S requests window past p) (i : ι) (turn : Turn)
    (env : Encrypted.Env) (horder : ∀ ev ∈ past, ev.2.time ≤ turn.now) :
    Remembers S requests window (past ++ [(i, .serve turn env)])
      (Pool.fire S.step p (i, .serve turn env)) := by
  have hshared : (Pool.fire S.step p (i, .serve turn env)).shared =
      (S.step (.serve turn env) p.shared (p.procs i)).1 := rfl
  have hwaiting : ∀ j r, (Pool.fire S.step p (i, .serve turn env)).procs j = .arriving r →
      r = requests j := by
    intro j r hj
    by_cases hji : j = i
    · subst hji
      rw [Pool.fire_procs_self] at hj
      exact absurd hj (step_ne_arriving turn env _ _ r)
    · rw [Pool.fire_procs_of_ne hji] at hj
      exact h.waiting j r hj
  -- a bucket that was there before
  have hold : ∀ k b, p.shared.limiter.buckets k = some b →
      (∃ i' turn' env', (i', .serve turn' env') ∈ past ++ [(i, .serve turn env)] ∧
        turn'.now = b.lastCheck ∧ S.chargeKey (requests i') = some k) ∧
      ∀ j now, (j, .sweep now) ∈ past ++ [(i, Event.serve turn env)] →
        now - 2 * window ≤ b.lastCheck := by
    intro k b hb
    obtain ⟨j, turn', env', hmem, htime, hkey⟩ := h.charged k b hb
    refine ⟨⟨j, turn', env', List.mem_append_left _ hmem, htime, hkey⟩, fun j now hsweep => ?_⟩
    rcases List.mem_append.mp hsweep with hpast | hnew
    · exact h.swept j now hpast k b hb
    · cases List.mem_singleton.mp hnew
  rcases step_limiter (S := S) turn env p.shared (p.procs i) with hsame | ⟨r, key, tokens, hr, hkey, hstore⟩
  · rw [← hshared] at hsame
    refine ⟨hwaiting, hsame ▸ h.same, fun k b hb => ?_, fun j now hsweep k b hb => ?_⟩
    · exact (hold k b (hsame ▸ hb)).1
    · exact (hold k b (hsame ▸ hb)).2 j now hsweep
  · rw [← hshared] at hstore
    have hcases : ∀ k b, (Pool.fire S.step p (i, .serve turn env)).shared.limiter.buckets k = some b →
        (k = key ∧ b = ⟨tokens, turn.now⟩) ∨ p.shared.limiter.buckets k = some b := by
      intro k b hb
      rw [hstore] at hb
      by_cases hk : k = key
      · subst hk
        simp only [Limiter.store, Function.update_self, Option.some.injEq] at hb
        exact .inl ⟨rfl, hb.symm⟩
      · exact .inr ((Function.update_of_ne hk ..).symm.trans hb)
    refine ⟨hwaiting, hstore ▸ h.same, fun k b hb => ?_, fun j now hsweep k b hb => ?_⟩
    · rcases hcases k b hb with ⟨rfl, rfl⟩ | hb'
      · refine ⟨i, turn, env, by simp, rfl, ?_⟩
        rw [← h.waiting i r hr]
        exact hkey
      · exact (hold k b hb').1
    · rcases hcases k b hb with ⟨-, rfl⟩ | hb'
      · have htime : now ≤ turn.now := by
          rcases List.mem_append.mp hsweep with hpast | hnew
          · exact horder _ hpast
          · cases List.mem_singleton.mp hnew
        show now - 2 * window ≤ turn.now
        omega
      · exact (hold k b hb').2 j now hsweep

/-- In every run in which time does not go back, from a limiter without buckets. -/
theorem remembers_run {s : Shared} (hs : ∀ k, s.limiter.buckets k = none)
    (events : List (ι × Event)) (horder : events.Pairwise fun e e' => e.2.time ≤ e'.2.time) :
    Remembers S requests s.limiter.window events
      (Pool.run S.step (arrivals s requests) events) := by
  induction events using List.reverseRecOn with
  | nil =>
    refine ⟨fun i r hr => ?_, rfl, fun k b hb => ?_, by simp⟩
    · exact (Proc.arriving.inj hr).symm
    · cases (hs k).symm.trans hb
  | append_singleton past ev ih =>
    obtain ⟨hpast, -, hlast⟩ := List.pairwise_append.mp horder
    have hev : ∀ e ∈ past, e.2.time ≤ ev.2.time := fun e he => hlast e he ev (by simp)
    rw [Pool.run_append]
    obtain ⟨i, ev⟩ := ev
    cases ev with
    | sweep now => exact remembers_sweep (ih hpast) i now
    | serve turn env => exact remembers_serve (ih hpast) i turn env hev

/-- A step of a health probe at or after a time. -/
def probedSince (requests : ι → Request) (time : Int) (ev : ι × Event) : Bool :=
  match ev.2 with
  | .serve turn _ => isHealthProbe (requests ev.1) && decide (time ≤ turn.now)
  | .sweep _ => false

/-- In every run in which time does not go back: after a sweep, the limiter holds at most
one bucket for each user and one for each step of a health probe since two windows before
the sweep. Requests without a valid token have none. -/
theorem limiter_bounded (S : Service) (requests : ι → Request) {s : Shared}
    (hs : ∀ k, s.limiter.buckets k = none) (events : List (ι × Event))
    (horder : events.Pairwise fun e e' => e.2.time ≤ e'.2.time) {i : ι} {now : Int}
    (hsweep : (i, .sweep now) ∈ events) :
    (Pool.run S.step (arrivals s requests) events).shared.limiter.keys.Finite ∧
    (Pool.run S.step (arrivals s requests) events).shared.limiter.keys.ncard ≤
      S.users.ordered.length +
        (events.filter (probedSince requests (now - 2 * s.limiter.window))).length := by
  have h : Remembers S requests s.limiter.window events
      (Pool.run S.step (arrivals s requests) events) := remembers_run hs events horder
  let users : List String := S.users.ordered.map fun u => userKey u.id
  let probes : List String := (events.filter
    (probedSince requests (now - 2 * s.limiter.window))).map fun ev =>
      "ip:" ++ limiterIP S.net (clientAddr S.net (requests ev.1))
  have hsub : (Pool.run S.step (arrivals s requests) events).shared.limiter.keys ⊆
      ((users.toFinset ∪ probes.toFinset : Finset String) : Set String) := by
    intro k hk
    obtain ⟨b, hb⟩ := Option.isSome_iff_exists.mp hk
    obtain ⟨j, turn, env, hmem, htime, hkey⟩ := h.charged k b hb
    have hyoung := h.swept i now hsweep k b hb
    rw [← htime] at hyoung
    unfold Service.chargeKey at hkey
    rw [Finset.coe_union, Set.mem_union, List.coe_toFinset, List.coe_toFinset]
    split at hkey
    · rename_i hprobe
      refine .inr (List.mem_map.mpr ⟨(j, .serve turn env), List.mem_filter.mpr ⟨hmem, ?_⟩,
        Option.some.inj hkey⟩)
      simp only [probedSince, hprobe, Bool.true_and, decide_eq_true_eq]
      exact hyoung
    · obtain ⟨u, hu, rfl⟩ := Option.map_eq_some_iff.mp hkey
      obtain ⟨scheme, token, hcarries⟩ := admitted_carries S.sha256 S.users hu
      exact .inl (List.mem_map.mpr ⟨u, hcarries.mem, rfl⟩)
  refine ⟨(Finset.finite_toSet _).subset hsub, ?_⟩
  calc _ ≤ ((users.toFinset ∪ probes.toFinset : Finset String) : Set String).ncard :=
        Set.ncard_le_ncard hsub (Finset.finite_toSet _)
    _ = (users.toFinset ∪ probes.toFinset).card := Set.ncard_coe_finset _
    _ ≤ users.toFinset.card + probes.toFinset.card := Finset.card_union_le _ _
    _ ≤ users.length + probes.length :=
        Nat.add_le_add (List.toFinset_card_le _) (List.toFinset_card_le _)
    _ = _ := by simp only [users, probes, List.length_map]

end

def probeEvents : List (Fin 1 × Event) :=
  [ (0, .serve ⟨0, none, 0, 1⟩ (Encrypted.envAt 5)), (0, .sweep 60000000000) ]

theorem limiter_bounded_probe :
    (Pool.run monitorService.step (arrivals ⟨Limiter.new 60 60000000000, AutoTable.empty 0⟩
      fun _ => monitorCall.request) probeEvents).shared.limiter.keys.ncard ≤ 2 := by
  have horder : probeEvents.Pairwise fun e e' => e.2.time ≤ e'.2.time :=
    List.pairwise_pair.mpr (by decide)
  have hempty : ∀ k, (Limiter.new 60 60000000000).buckets k = none := fun _ => rfl
  have hbound := (limiter_bounded monitorService (fun _ => monitorCall.request)
    (s := ⟨Limiter.new 60 60000000000, AutoTable.empty 0⟩) hempty probeEvents horder
    (List.mem_cons_of_mem _ (List.mem_singleton_self _))).2
  exact hbound.trans (by decide +kernel)

end TabbySync.Server
