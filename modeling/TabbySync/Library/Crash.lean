import TabbySync.Library.Interleaving

/-! # Processes that are killed

The processes of a pool are killed between any two of their operations, or in the middle
of one. What the operation in progress has done by then is for the system to say (`tear`);
so is which processes are over and can no longer be killed. -/

namespace TabbySync.Library

/-- What happens next to a process: it makes its next operation, or it is killed. An
operation in progress has then got so far. -/
inductive Move (ε : Type)
  | run (env : ε)
  | kill (written : Nat)

section
variable {σ ι π ε : Type} (step : ε → σ → π → σ × π) (tear : Nat → σ → π → σ) (isOver : π → Bool)

/-- One move of a process; `none` is a process that was killed. -/
def crashing (move : Move ε) (x : σ) : Option π → σ × Option π
  | none => (x, none)
  | some p =>
    match move with
    | .run env => ((step env x p).1, some (step env x p).2)
    | .kill written => if isOver p then (x, some p) else (tear written x p, none)

variable [DecidableEq ι] {s : Pool σ ι (Option π)} {i : ι} {p : π} {move : Move ε}

/-- A move that changes neither its process nor the shared state. -/
theorem fire_eq_self (h : crashing step tear isOver move s.shared (s.procs i) =
    (s.shared, s.procs i)) : Pool.fire (crashing step tear isOver) s (i, move) = s := by
  rw [Pool.fire, h, Function.update_eq_self]

theorem fire_of_dead (hp : s.procs i = none) :
    Pool.fire (crashing step tear isOver) s (i, move) = s :=
  fire_eq_self step tear isOver (by rw [hp, crashing])

theorem fire_kill_of_over (written : Nat) (hp : s.procs i = some p) (hover : isOver p = true) :
    Pool.fire (crashing step tear isOver) s (i, .kill written) = s :=
  fire_eq_self step tear isOver (by rw [hp, crashing, if_pos hover])

theorem fire_run (env : ε) (hp : s.procs i = some p) :
    (Pool.fire (crashing step tear isOver) s (i, .run env)).shared = (step env s.shared p).1 ∧
      (Pool.fire (crashing step tear isOver) s (i, .run env)).procs i =
        some (step env s.shared p).2 := by
  constructor
  · simp only [Pool.fire, hp, crashing]
  · rw [Pool.fire_procs_self, hp, crashing]

theorem fire_kill (written : Nat) (hp : s.procs i = some p) (hover : isOver p = false) :
    (Pool.fire (crashing step tear isOver) s (i, .kill written)).shared = tear written s.shared p ∧
      (Pool.fire (crashing step tear isOver) s (i, .kill written)).procs i = none := by
  have hkill : crashing step tear isOver (.kill written) s.shared (s.procs i) =
      (tear written s.shared p, none) := by
    rw [hp, crashing, hover, if_neg Bool.false_ne_true]
  constructor
  · rw [Pool.fire, hkill]
  · rw [Pool.fire_procs_self, hkill]

/-- A process that is over, and whose steps then do nothing, stays as it is. -/
theorem over_stays (hidle : ∀ env x, step env x p = (x, p)) (hover : isOver p = true)
    (hp : s.procs i = some p) (es : List (ι × Move ε)) :
    (Pool.run (crashing step tear isOver) s es).procs i = some p := by
  refine Pool.run_procs_invariant (I := (· = some p)) (fun move x q hq => ?_) hp es
  subst hq
  cases move with
  | run env => rw [crashing, hidle]
  | kill written => rw [crashing, if_pos hover]

end

end TabbySync.Library
