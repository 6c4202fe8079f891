import Mathlib.Algebra.BigOperators.Group.Finset.Basic
import Mathlib.Algebra.GroupWithZero.Nat
import Mathlib.Data.Fintype.BigOperators
import Mathlib.Data.List.Perm.Basic
import Mathlib.Data.Nat.Count
import Mathlib.Logic.Function.Basic

/-! # Interleavings of processes over a shared state

A pool is a shared state with one local state for each process. A schedule names,
step by step, the process that moves and what its environment hands it (clock
readings, random bytes); every list of such events is a run, so a statement about
all lists is a statement about all interleavings. A process that has finished
stutters.

The second half is about explaining a run by a serial one. -/

namespace TabbySync.Library

/-- Processes over one shared state. -/
structure Pool (σ ι π : Type) where
  shared : σ
  procs : ι → π

namespace Pool

variable {σ ι π ε : Type} [DecidableEq ι] (step : ε → σ → π → σ × π)

/-- One event: the named process takes its step. -/
def fire (s : Pool σ ι π) (ev : ι × ε) : Pool σ ι π where
  shared := (step ev.2 s.shared (s.procs ev.1)).1
  procs := Function.update s.procs ev.1 (step ev.2 s.shared (s.procs ev.1)).2

/-- A whole schedule. -/
def run (s : Pool σ ι π) (es : List (ι × ε)) : Pool σ ι π := es.foldl (fire step) s

/-- A schedule for processes that have numbers, written with the numbers. One that names no
process is left out. -/
def schedule {n : ℕ} (turns : List (ℕ × ε)) : List (Fin n × ε) :=
  turns.filterMap fun turn => if h : turn.1 < n then some (⟨turn.1, h⟩, turn.2) else none

/-- Every event of a schedule meets a condition in the state it fires in. -/
def Along (C : Pool σ ι π → ι × ε → Prop) : Pool σ ι π → List (ι × ε) → Prop
  | _, [] => True
  | s, ev :: es => C s ev ∧ Along C (fire step s ev) es

instance decidableAlong {C : Pool σ ι π → ι × ε → Prop} [∀ s ev, Decidable (C s ev)]
    (s : Pool σ ι π) : (es : List (ι × ε)) → Decidable (Along step C s es)
  | [] => isTrue trivial
  | ev :: es => @instDecidableAnd _ _ inferInstance (decidableAlong (fire step s ev) es)

@[simp] theorem run_cons (s : Pool σ ι π) (ev : ι × ε) (es : List (ι × ε)) :
    run step s (ev :: es) = run step (fire step s ev) es := rfl

theorem run_append (s : Pool σ ι π) (es fs : List (ι × ε)) :
    run step s (es ++ fs) = run step (run step s es) fs := List.foldl_append

variable {step}

/-- What every step of a schedule preserves, the schedule preserves. -/
theorem run_invariant_along {C : Pool σ ι π → ι × ε → Prop} {I : Pool σ ι π → Prop}
    (hstep : ∀ s ev, I s → C s ev → I (fire step s ev)) {s : Pool σ ι π} {es : List (ι × ε)}
    (hs : I s) (hes : Along step C s es) : I (run step s es) := by
  induction es generalizing s with
  | nil => exact hs
  | cons ev es ih => exact ih (hstep s ev hs hes.1) hes.2

theorem run_invariant {I : Pool σ ι π → Prop} (hstep : ∀ s ev, I s → I (fire step s ev))
    {s : Pool σ ι π} (hs : I s) (es : List (ι × ε)) : I (run step s es) := by
  induction es generalizing s with
  | nil => exact hs
  | cons ev es ih => exact ih (hstep s ev hs)

/-- A condition that follows from another wherever an invariant holds. -/
theorem along_imp {C D : Pool σ ι π → ι × ε → Prop} {I : Pool σ ι π → Prop}
    (h : ∀ s ev, I s → C s ev → D s ev) (hstep : ∀ s ev, I s → C s ev → I (fire step s ev))
    {s : Pool σ ι π} {es : List (ι × ε)} (hs : I s) (hes : Along step C s es) :
    Along step D s es := by
  induction es generalizing s with
  | nil => trivial
  | cons ev es ih => exact ⟨h s ev hs hes.1, ih (hstep s ev hs hes.1) hes.2⟩

/-- Conditions that agree wherever an invariant holds agree on every schedule. -/
theorem along_congr {C D : Pool σ ι π → ι × ε → Prop} {I : Pool σ ι π → Prop}
    (h : ∀ s ev, I s → (C s ev ↔ D s ev)) (hstep : ∀ s ev, I s → D s ev → I (fire step s ev))
    {s : Pool σ ι π} (hs : I s) (es : List (ι × ε)) : Along step C s es ↔ Along step D s es := by
  induction es generalizing s with
  | nil => exact Iff.rfl
  | cons ev es ih =>
    constructor
    · rintro ⟨hc, hes⟩
      have hd := (h s ev hs).mp hc
      exact ⟨hd, (ih (hstep s ev hs hd)).mp hes⟩
    · rintro ⟨hd, hes⟩
      exact ⟨(h s ev hs).mpr hd, (ih (hstep s ev hs hd)).mpr hes⟩

/-- A property holds at every moment of a schedule if it holds at first and after every
step. -/
theorem forall_take_iff {I : Pool σ ι π → Prop} (s : Pool σ ι π) (es : List (ι × ε)) :
    (∀ n, I (run step s (es.take n))) ↔ I s ∧ Along step (fun s ev => I (fire step s ev)) s es := by
  induction es generalizing s with
  | nil => simp [run, Along]
  | cons ev es ih =>
    constructor
    · intro h
      exact ⟨h 0, h 1, ((ih _).mp fun n => h (n + 1)).2⟩
    · rintro ⟨hs, hev, hes⟩ n
      cases n with
      | zero => exact hs
      | succ n => exact (ih _).mpr ⟨hev, hes⟩ n

/-- A preorder that every step follows relates the two ends of a schedule. -/
theorem run_shared_rel {R : σ → σ → Prop} (hrefl : ∀ x, R x x)
    (htrans : ∀ x y z, R x y → R y z → R x z) (hstep : ∀ e x p, R x (step e x p).1)
    (s : Pool σ ι π) (es : List (ι × ε)) : R s.shared (run step s es).shared := by
  induction es generalizing s with
  | nil => exact hrefl _
  | cons ev es ih => exact htrans _ _ _ (hstep ev.2 s.shared (s.procs ev.1)) (ih (fire step s ev))

/-- Another system follows a schedule if it follows every event, in moves of its own that
are related to the event. It may know how the schedule ends. -/
theorem run_simulated {τ μ : Type} {next : τ → μ → τ} {R : Pool σ ι π → τ → Prop}
    {Q : ι × ε → List μ → Prop} {last : Pool σ ι π}
    (hstep : ∀ s a ev es, run step (fire step s ev) es = last → R s a →
      ∃ ms, Q ev ms ∧ R (fire step s ev) (ms.foldl next a))
    {s : Pool σ ι π} {a : τ} (h : R s a) {es : List (ι × ε)} (hes : run step s es = last) :
    ∃ mss, List.Forall₂ Q es mss ∧ R last (mss.flatten.foldl next a) := by
  induction es generalizing s a with
  | nil => exact ⟨[], .nil, hes ▸ h⟩
  | cons ev es ih =>
    obtain ⟨ms, hq, hms⟩ := hstep s a ev es hes h
    obtain ⟨rest, hrest, hend⟩ := ih hms hes
    refine ⟨ms :: rest, .cons hq hrest, ?_⟩
    rw [List.flatten_cons, List.foldl_append]
    exact hend

omit [DecidableEq ι] in
/-- Moves that show the events that are kept show them in order. -/
theorem filterMap_flatten {μ : Type} {shows : μ → Option (ι × ε)} {kept : ι × ε → Bool}
    {es : List (ι × ε)} {mss : List (List μ)}
    (h : List.Forall₂ (fun ev ms => ms.filterMap shows = if kept ev then [ev] else []) es mss) :
    mss.flatten.filterMap shows = es.filter kept := by
  induction h with
  | nil => rfl
  | cons hms _ ih =>
    rw [List.flatten_cons, List.filterMap_append, hms, ih, List.filter_cons]
    split <;> rfl

@[simp] theorem fire_procs_self (s : Pool σ ι π) (i : ι) (e : ε) :
    (fire step s (i, e)).procs i = (step e s.shared (s.procs i)).2 := by simp [fire]

theorem fire_procs_of_ne {s : Pool σ ι π} {ev : ι × ε} {i : ι} (h : i ≠ ev.1) :
    (fire step s ev).procs i = s.procs i := by simp [fire, h]

/-- What holds of every process after an event: of the one that moved, and of those that
did not. -/
theorem forall_procs_fire {Q : ι → π → Prop} {s : Pool σ ι π} {ev : ι × ε}
    (hself : Q ev.1 (step ev.2 s.shared (s.procs ev.1)).2)
    (hother : ∀ i, i ≠ ev.1 → Q i (s.procs i)) (i : ι) : Q i ((fire step s ev).procs i) := by
  by_cases hi : i = ev.1
  · subst hi
    rw [fire_procs_self s ev.1 ev.2]
    exact hself
  · rw [fire_procs_of_ne hi]
    exact hother i hi

/-- A process that is not scheduled keeps its local state. -/
theorem run_procs_of_idle {s : Pool σ ι π} {es : List (ι × ε)} {i : ι}
    (h : ∀ ev ∈ es, ev.1 ≠ i) : (run step s es).procs i = s.procs i := by
  induction es generalizing s with
  | nil => rfl
  | cons ev es ih =>
    rw [run_cons, ih fun ev' h' => h ev' (by simp [h'])]
    exact fire_procs_of_ne (Ne.symm (h ev (by simp)))

/-- What its own steps preserve of a local state, every schedule preserves. -/
theorem run_procs_invariant {I : π → Prop} (hstep : ∀ e x p, I p → I (step e x p).2)
    {s : Pool σ ι π} {i : ι} (hi : I (s.procs i)) (es : List (ι × ε)) :
    I ((run step s es).procs i) := by
  induction es generalizing s with
  | nil => exact hi
  | cons ev es ih =>
    apply ih
    by_cases h : i = ev.1
    · subst h
      rw [fire_procs_self s ev.1 ev.2]
      exact hstep _ _ _ hi
    · rw [fire_procs_of_ne h]
      exact hi

/-! ## Moments

The states a schedule goes through, numbered by the events before them. -/

section Moments
variable (step)

/-- The state before the event with the given number; past the end, the last state. -/
def moment (s : Pool σ ι π) (es : List (ι × ε)) (n : ℕ) : Pool σ ι π := run step s (es.take n)

/-- The event with the given number is a step of `i`. -/
def stepsAt (es : List (ι × ε)) (i : ι) (n : ℕ) : Bool :=
  match es[n]? with
  | some ev => decide (ev.1 = i)
  | none => false

theorem moment_zero (s : Pool σ ι π) (es : List (ι × ε)) : moment step s es 0 = s := rfl

theorem moment_length (s : Pool σ ι π) (es : List (ι × ε)) :
    moment step s es es.length = run step s es := by
  rw [moment, List.take_length]

variable {step} {s : Pool σ ι π} {es : List (ι × ε)} {n : ℕ}

theorem moment_succ {ev : ι × ε} (h : es[n]? = some ev) :
    moment step s es (n + 1) = fire step (moment step s es n) ev := by
  rw [moment, List.take_add_one, h, run_append]
  rfl

theorem moment_succ_of_end (h : es[n]? = none) :
    moment step s es (n + 1) = moment step s es n := by
  rw [moment, moment, List.take_add_one, h, Option.toList_none, List.append_nil]

theorem stepsAt_iff {i : ι} : stepsAt es i n = true ↔ ∃ e, es[n]? = some (i, e) := by
  unfold stepsAt
  cases h : es[n]? with
  | none => simp
  | some ev =>
    obtain ⟨j, e⟩ := ev
    simp

/-- A process moves with its own steps only. -/
theorem moment_procs_of_idle {i : ι} (h : stepsAt es i n = false) :
    (moment step s es (n + 1)).procs i = (moment step s es n).procs i := by
  cases hev : es[n]? with
  | none => rw [moment_succ_of_end hev]
  | some ev =>
    have hne : i ≠ ev.1 := by
      intro hi
      simp [stepsAt, hev, hi] at h
    rw [moment_succ hev, fire_procs_of_ne hne]

end Moments

/-- A weight of the local states, summed over the processes. -/
def total [Fintype ι] (w : π → ℕ) (s : Pool σ ι π) : ℕ := ∑ i, w (s.procs i)

/-- A step changes the sum by what it changes in the process that moves. -/
theorem total_fire [Fintype ι] (w : π → ℕ) (s : Pool σ ι π) (ev : ι × ε) :
    total w (fire step s ev) + w (s.procs ev.1) =
      total w s + w (step ev.2 s.shared (s.procs ev.1)).2 := by
  have hrest : ∑ i ∈ Finset.univ.erase ev.1, w ((fire step s ev).procs i) =
      ∑ i ∈ Finset.univ.erase ev.1, w (s.procs i) :=
    Finset.sum_congr rfl fun i hi => by rw [fire_procs_of_ne (Finset.ne_of_mem_erase hi)]
  have hself : (fire step s ev).procs ev.1 = (step ev.2 s.shared (s.procs ev.1)).2 :=
    fire_procs_self s ev.1 ev.2
  rw [total, total, ← Finset.add_sum_erase _ _ (Finset.mem_univ ev.1), hrest, hself,
    ← Finset.add_sum_erase _ _ (Finset.mem_univ ev.1)]
  omega

/-! ## A lock

Some local states hold the lock that the shared state records. -/

/-- At most one process holds the lock, and only while it is set. -/
structure Exclusive (holds : π → Bool) (locked : σ → Bool) (s : Pool σ ι π) : Prop where
  unique : ∀ i j, holds (s.procs i) = true → holds (s.procs j) = true → i = j
  locked : ∀ i, holds (s.procs i) = true → locked s.shared = true

/-- What a step may do about the lock, from before (`l`, `h`) to after (`l'`, `h'`):
nothing, take it where it is free, or stop holding it, whether it is released or not. -/
inductive LockMove (l h l' h' : Bool) : Prop
  | keeps (hl : l' = l) (hh : h' = h)
  | takes (hl : l = false) (hl' : l' = true)
  | gives (hh : h = true) (hh' : h' = false)

section Lock
variable {holds : π → Bool} {locked : σ → Bool} {s : Pool σ ι π} {k : ι} {e : ε}

omit [DecidableEq ι] in
theorem Exclusive.of_none (h : ∀ i, holds (s.procs i) = false) : Exclusive holds locked s := by
  constructor
  · intro i j hi
    rw [h i] at hi
    cases hi
  · intro i hi
    rw [h i] at hi
    cases hi

omit [DecidableEq ι] in
/-- While another process holds the lock, a step neither touches it nor comes to hold it. -/
theorem Exclusive.bystander (h : Exclusive holds locked s)
    (hmove : LockMove (locked s.shared) (holds (s.procs k)) (locked (step e s.shared (s.procs k)).1)
      (holds (step e s.shared (s.procs k)).2)) {i : ι} (hi : i ≠ k)
    (hheld : holds (s.procs i) = true) :
    locked (step e s.shared (s.procs k)).1 = locked s.shared ∧ holds (s.procs k) = false ∧
      holds (step e s.shared (s.procs k)).2 = false := by
  have hk : holds (s.procs k) = false := by
    by_contra hk
    exact hi (h.unique i k hheld (by simpa using hk))
  cases hmove with
  | keeps hl hh => exact ⟨hl, hk, hh.trans hk⟩
  | takes hl _ =>
    rw [h.locked i hheld] at hl
    cases hl
  | gives hh _ =>
    rw [hk] at hh
    cases hh

theorem Exclusive.fire (h : Exclusive holds locked s)
    (hmove : LockMove (locked s.shared) (holds (s.procs k)) (locked (step e s.shared (s.procs k)).1)
      (holds (step e s.shared (s.procs k)).2)) :
    Exclusive holds locked (Pool.fire step s (k, e)) := by
  have hself : (Pool.fire step s (k, e)).procs k = (step e s.shared (s.procs k)).2 :=
    fire_procs_self s k e
  have hother : ∀ i, i ≠ k → (Pool.fire step s (k, e)).procs i = s.procs i :=
    fun i hi => fire_procs_of_ne hi
  constructor
  · intro i j hi hj
    by_cases hik : i = k <;> by_cases hjk : j = k
    · rw [hik, hjk]
    · rw [hother j hjk] at hj
      rw [hik, hself, (h.bystander hmove hjk hj).2.2] at hi
      cases hi
    · rw [hother i hik] at hi
      rw [hjk, hself, (h.bystander hmove hik hi).2.2] at hj
      cases hj
    · rw [hother i hik] at hi
      rw [hother j hjk] at hj
      exact h.unique i j hi hj
  · intro i hi
    show locked (step e s.shared (s.procs k)).1 = true
    by_cases hik : i = k
    · rw [hik, hself] at hi
      cases hmove with
      | keeps hl hh =>
        rw [hl]
        exact h.locked k (hh ▸ hi)
      | takes _ hl' => exact hl'
      | gives _ hh' =>
        rw [hh'] at hi
        cases hi
    · rw [hother i hik] at hi
      rw [(h.bystander hmove hik hi).1]
      exact h.locked i hi

end Lock

end Pool

/-! ## Charging events to events -/

/-- Each `p` is one of a process's own moments and has a `q` before it with none of the
process's own moments in between; so no two of them share it. -/
theorem count_le_of_charge (own : ℕ → Prop) {p q : ℕ → Prop} [DecidablePred p] [DecidablePred q]
    {n : ℕ}
    (h : ∀ k, k < n → p k → own k ∧ ∃ e, e < k ∧ q e ∧ ∀ j, e ≤ j → j < k → ¬ own j) :
    Nat.count p n ≤ Nat.count q n := by
  choose! hown e hlt hq hgap using h
  rw [Nat.count_eq_card_filter_range, Nat.count_eq_card_filter_range]
  have hclash : ∀ k k', k < n → p k → k' < n → p k' → e k = e k' → ¬ k < k' := by
    intro k k' hk hpk hk' hpk' heq hkk
    exact hgap k' hk' hpk' k (heq ▸ (hlt k hk hpk).le) hkk (hown k hk hpk)
  refine Finset.card_le_card_of_injOn e ?_ ?_
  · intro k hk
    obtain ⟨hkn, hpk⟩ := Finset.mem_filter.mp hk
    have hkn := Finset.mem_range.mp hkn
    exact Finset.mem_filter.mpr ⟨Finset.mem_range.mpr ((hlt k hkn hpk).trans hkn), hq k hkn hpk⟩
  · intro k hk k' hk' heq
    obtain ⟨hkn, hpk⟩ := Finset.mem_filter.mp hk
    obtain ⟨hkn', hpk'⟩ := Finset.mem_filter.mp hk'
    have hkn := Finset.mem_range.mp hkn
    have hkn' := Finset.mem_range.mp hkn'
    rcases lt_trichotomy k k' with hlt' | rfl | hlt'
    · exact absurd hlt' (hclash k k' hkn hpk hkn' hpk' heq)
    · rfl
    · exact absurd hlt' (hclash k' k hkn' hpk' hkn hpk heq.symm)

/-! ## Serial explanations -/

section Serial

variable {ι ρ : Type} (effect : ι → ρ → ρ)

/-- The effects of an order, one after another. -/
def serial (order : List ι) (v : ρ) : ρ := order.foldl (fun v i => effect i v) v

/-- A value some prefix of the order ends in. -/
def Passes (order : List ι) (v w : ρ) : Prop :=
  ∃ pre post, order = pre ++ post ∧ serial effect pre v = w

theorem serial_append (xs ys : List ι) (v : ρ) :
    serial effect (xs ++ ys) v = serial effect ys (serial effect xs v) := List.foldl_append

theorem serial_concat (xs : List ι) (i : ι) (v : ρ) :
    serial effect (xs ++ [i]) v = effect i (serial effect xs v) := by
  simp [serial]

variable {effect}

theorem passes_end (order : List ι) (v : ρ) : Passes effect order v (serial effect order v) :=
  ⟨order, [], by simp, rfl⟩

theorem Passes.concat {order : List ι} {v w : ρ} (h : Passes effect order v w) (i : ι) :
    Passes effect (order ++ [i]) v w := by
  obtain ⟨pre, post, rfl, hw⟩ := h
  exact ⟨pre, post ++ [i], by simp, hw⟩

/-- An operation that changes nothing at a value the order passes through can be
ordered there: the outcome and the values passed through stay. -/
theorem Passes.insert {order : List ι} {v w : ρ} (h : Passes effect order v w) {i : ι}
    (hi : effect i w = w) :
    ∃ order', order'.Perm (i :: order) ∧ serial effect order' v = serial effect order v ∧
      ∀ w', Passes effect order v w' → Passes effect order' v w' := by
  obtain ⟨pre, post, rfl, hw⟩ := h
  have hmid : serial effect (pre ++ [i]) v = serial effect pre v := by
    rw [serial_concat, hw, hi]
  refine ⟨pre ++ i :: post, List.perm_middle, ?_, ?_⟩
  · rw [List.append_cons, serial_append, hmid, serial_append]
  · rintro w' ⟨pre', post', heq, hw'⟩
    rcases List.append_eq_append_iff.mp heq with ⟨mid, rfl, rfl⟩ | ⟨mid, rfl, rfl⟩
    · -- the prefix reaches past the insertion point
      refine ⟨pre ++ i :: mid, post', by simp, ?_⟩
      rw [List.append_cons, serial_append, hmid, ← serial_append, hw']
    · exact ⟨pre', mid ++ i :: post, by simp, hw'⟩

/-- Two operations have two orders. -/
theorem orders_of_two {order : List (Fin 2)} (hnodup : order.Nodup) (hall : ∀ i, i ∈ order) :
    order = [0, 1] ∨ order = [1, 0] := by
  have hboth : ∀ i : Fin 2, i ∈ [0, 1] := by decide
  have hperm : order.Perm [0, 1] :=
    (List.perm_ext_iff_of_nodup hnodup (by decide)).mpr fun i => by simp [hall i, hboth i]
  obtain ⟨a, b, rfl⟩ := List.length_eq_two.mp hperm.length_eq
  revert a b
  decide

end Serial

end TabbySync.Library
