import TabbySync.Cli.UserIds
import TabbySync.Library.Interleaving

/-! # User commands at the same time

`add`, `rm` and `rotate` read the users file, edit the list in memory and replace the
file. The replacement is atomic, but nothing holds the file between the two steps, so a
command may replace a file that it has not seen. Commands run as in some order as long
as each one replaces a file that still has the list it loaded. -/

namespace TabbySync.Cli

open Library Auth

/-- A command in flight: before its read, between read and write, or over. Between the two
it has the list it loaded and the list to write. -/
inductive Command
  | loading (inv : Invocation)
  | saving (inv : Invocation) (loaded users : List UserEntry) (r : Result)
  | done (r : Result)

/-- One step of a command: `loadUsersYAML` with everything up to the write, or the write
of `saveUsersYAML`. A command that writes nothing is over with its first step. -/
def Command.step (P : Platform) (_ : Unit) (file : UsersFile) : Command → UsersFile × Command
  | .loading inv =>
    match (runUser P inv file).saved with
    | none => (file, .done (runUser P inv file))
    | some users => (file, .saving inv (entriesOf file) users (runUser P inv file))
  | .saving _ _ users r => (.ofEntries users, .done r)
  | .done r => (file, .done r)

variable {ι : Type} [DecidableEq ι]

/-- Commands that have not begun, on one file. -/
def commands (file : UsersFile) (invs : ι → Invocation) : Pool UsersFile ι Command where
  shared := file
  procs i := .loading (invs i)

/-- The command alone, from beginning to end. -/
def alone (P : Platform) (invs : ι → Invocation) (i : ι) (file : UsersFile) : UsersFile :=
  (runUser P (invs i) file).fileAfter file

/-- If the step is a write, the file still has the list that its command loaded. -/
def SavesCurrent (s : Pool UsersFile ι Command) (ev : ι × Unit) : Prop :=
  match s.procs ev.1 with
  | .saving _ loaded _ _ => loadUsersYAML s.shared = .ok loaded
  | _ => True

section
variable {P : Platform} {invs : ι → Invocation} {file : UsersFile}
variable {s s' : Pool UsersFile ι Command} {order : List ι} {i : ι}

/-- A command depends on the file only through the list it loads. -/
theorem runUser_congr {file file' : UsersFile} (h : loadUsersYAML file = loadUsersYAML file')
    (P : Platform) (inv : Invocation) : runUser P inv file = runUser P inv file' := by
  simp only [runUser, runUserAdd, runUserRm, runUserRotate, editUsersFile, h]

/-- Where a command stands with respect to the order found so far. A command about to write
has the result that it has on any file with the list it loaded. -/
def Stage (P : Platform) (invs : ι → Invocation) (file : UsersFile) (order : List ι) (i : ι) :
    Command → Prop
  | .loading inv => inv = invs i ∧ i ∉ order
  | .saving inv loaded users r => inv = invs i ∧ r.saved = some users ∧ i ∉ order ∧
      ∀ file', loadUsersYAML file' = .ok loaded → runUser P inv file' = r
  | .done r => ∃ pre post, order = pre ++ i :: post ∧
      ∀ users, r.saved = some users → serial (alone P invs) (pre ++ [i]) file = .ofEntries users

/-- The file is what the commands in the order leave, one after the other. -/
structure Ordered (P : Platform) (invs : ι → Invocation) (file : UsersFile)
    (s : Pool UsersFile ι Command) (order : List ι) : Prop where
  nodup : order.Nodup
  current : s.shared = serial (alone P invs) order file
  stage : ∀ i, Stage P invs file order i (s.procs i)

omit [DecidableEq ι] in
theorem Stage.concat {c : Command} {j : ι} (h : Stage P invs file order i c) (hj : i ≠ j) :
    Stage P invs file (order ++ [j]) i c := by
  cases c with
  | loading inv => exact ⟨h.1, by simp [h.2, hj]⟩
  | saving inv loaded users r => exact ⟨h.1, h.2.1, by simp [h.2.2.1, hj], h.2.2.2⟩
  | done r =>
    obtain ⟨pre, post, rfl, hr⟩ := h
    exact ⟨pre, post ++ [j], by simp, hr⟩

omit [DecidableEq ι] in
/-- A command that ends comes last in the order. -/
theorem Ordered.finish (h : Ordered P invs file s order) (hi : i ∉ order) {r : Result}
    (hother : ∀ j, j ≠ i → s'.procs j = s.procs j) (hself : s'.procs i = .done r)
    (hfile : s'.shared = alone P invs i s.shared)
    (hr : ∀ users, r.saved = some users → s'.shared = .ofEntries users) :
    Ordered P invs file s' (order ++ [i]) := by
  have hserial : s'.shared = serial (alone P invs) (order ++ [i]) file := by
    rw [hfile, h.current, serial_concat]
  refine ⟨?_, hserial, fun j => ?_⟩
  · rw [List.nodup_append]
    exact ⟨h.nodup, by simp, fun a ha b hb hab => hi (by simp_all)⟩
  · by_cases hj : j = i
    · subst hj
      rw [hself]
      exact ⟨order, [], rfl, fun users hu => hserial.symm.trans (hr users hu)⟩
    · rw [hother j hj]
      exact (h.stage j).concat hj

/-- A step that leaves the file and its command's place keeps the order. -/
theorem Ordered.stay (h : Ordered P invs file s order)
    (hother : ∀ j, j ≠ i → s'.procs j = s.procs j) (hfile : s'.shared = s.shared)
    (hself : Stage P invs file order i (s'.procs i)) : Ordered P invs file s' order := by
  refine ⟨h.nodup, hfile.trans h.current, fun j => ?_⟩
  by_cases hj : j = i
  · subst hj
    exact hself
  · rw [hother j hj]
    exact h.stage j

theorem ordered_fire {ev : ι × Unit} (h : Ordered P invs file s order)
    (hcond : SavesCurrent s ev) :
    ∃ order', Ordered P invs file (Pool.fire (Command.step P) s ev) order' := by
  obtain ⟨i, u⟩ := ev
  have hother : ∀ j, j ≠ i → (Pool.fire (Command.step P) s (i, u)).procs j = s.procs j :=
    fun j hj => Pool.fire_procs_of_ne hj
  have hself : (Pool.fire (Command.step P) s (i, u)).procs i =
      (Command.step P u s.shared (s.procs i)).2 := Pool.fire_procs_self s i u
  have hshared : (Pool.fire (Command.step P) s (i, u)).shared =
      (Command.step P u s.shared (s.procs i)).1 := rfl
  have hstage := h.stage i
  cases hp : s.procs i with
  | loading inv =>
    rw [hp] at hself hshared hstage
    obtain ⟨rfl, hi⟩ := hstage
    cases hsaved : (runUser P (invs i) s.shared).saved with
    | none =>
      simp only [Command.step, hsaved] at hself hshared
      refine ⟨_, h.finish hi hother hself ?_ fun users hu => ?_⟩
      · rw [hshared, alone, Result.fileAfter, hsaved]
      · rw [hsaved] at hu
        cases hu
    | some users =>
      simp only [Command.step, hsaved] at hself hshared
      refine ⟨order, h.stay hother hshared ?_⟩
      rw [hself]
      refine ⟨rfl, hsaved, hi, fun file' hfile' => runUser_congr (hfile'.trans ?_) P _⟩
      obtain ⟨loaded, hload, -⟩ := runUser_saved hsaved
      rw [entriesOf, hload]
  | saving inv loaded users r =>
    simp only [SavesCurrent, hp] at hcond
    rw [hp] at hself hshared hstage
    obtain ⟨rfl, hr, hi, hresult⟩ := hstage
    have hfile : (Pool.fire (Command.step P) s (i, u)).shared = alone P invs i s.shared := by
      rw [hshared, alone, hresult s.shared hcond, Result.fileAfter, hr]
      rfl
    refine ⟨_, h.finish hi hother hself hfile fun users' hu => ?_⟩
    cases hr.symm.trans hu
    exact hshared
  | done r =>
    rw [hp] at hself hshared hstage
    refine ⟨order, h.stay hother hshared ?_⟩
    rw [hself]
    exact hstage

/-- Any number of commands on one file. If at each write the file still has the list that
its command loaded, and all are over, then the file is what they leave in some order one
after the other, and what a command has written is the file after its turn in that
order. -/
theorem commands_serialise (P : Platform) (invs : ι → Invocation) (file : UsersFile)
    {events : List (ι × Unit)}
    (hcond : Pool.Along (Command.step P) SavesCurrent (commands file invs) events)
    (hdone : ∀ i, ∃ r, (Pool.run (Command.step P) (commands file invs) events).procs i = .done r) :
    ∃ order : List ι, order.Nodup ∧ (∀ i, i ∈ order) ∧
      (Pool.run (Command.step P) (commands file invs) events).shared =
        serial (alone P invs) order file ∧
      ∀ i r users, (Pool.run (Command.step P) (commands file invs) events).procs i = .done r →
        r.saved = some users → ∃ pre post, order = pre ++ i :: post ∧
          serial (alone P invs) (pre ++ [i]) file = .ofEntries users := by
  have hstart : Ordered P invs file (commands file invs) [] :=
    ⟨List.nodup_nil, rfl, fun i => ⟨rfl, by simp⟩⟩
  obtain ⟨order, h⟩ := Pool.run_invariant_along (I := fun s => ∃ order, Ordered P invs file s order)
    (fun s ev h hc => h.elim fun _ ho => ordered_fire ho hc) ⟨[], hstart⟩ hcond
  refine ⟨order, h.nodup, fun i => ?_, h.current, fun i r users hr hu => ?_⟩
  · obtain ⟨r, hr⟩ := hdone i
    have hstage := h.stage i
    rw [hr] at hstage
    obtain ⟨pre, post, rfl, _⟩ := hstage
    simp
  · have hstage := h.stage i
    rw [hr] at hstage
    obtain ⟨pre, post, horder, hwrote⟩ := hstage
    exact ⟨pre, post, horder, hwrote users hu⟩

end

/-! ## Two adds -/

/-- One `add` for each of two users. -/
def twoAdds : Fin 2 → Invocation
  | 0 => invocation ["add", "alice"] 1
  | 1 => invocation ["add", "bob"] 2

def adding (events : List (Fin 2)) : Pool UsersFile (Fin 2) Command :=
  Pool.run (Command.step asciiPlatform) (commands (.ofEntries []) twoAdds)
    (events.map fun i => (i, ()))

theorem commands_serialise_inTurn : ∃ order : List (Fin 2), order.Nodup ∧ (∀ i, i ∈ order) ∧
    (adding [0, 0, 1, 1]).shared = serial (alone asciiPlatform twoAdds) order (.ofEntries []) := by
  have hcond : Pool.Along (Command.step asciiPlatform) SavesCurrent
      (commands (.ofEntries []) twoAdds) ([0, 0, 1, 1].map fun i => (i, ())) :=
    ⟨trivial, rfl, trivial, rfl, trivial⟩
  have hdone : ∀ i, ∃ r, (adding [0, 0, 1, 1]).procs i = .done r := by
    intro i
    match i with
    | 0 => exact ⟨_, rfl⟩
    | 1 => exact ⟨_, rfl⟩
  obtain ⟨order, hnodup, hall, hfile, _⟩ :=
    commands_serialise asciiPlatform twoAdds (.ofEntries []) hcond hdone
  exact ⟨order, hnodup, hall, hfile⟩

/-- Both commands read the empty file. Both succeed, both give out id 1, and the file
keeps the second user alone. -/
theorem overlapping_adds_lose_user :
    (∀ i, ∃ r, (adding [0, 1, 0, 1]).procs i = .done r ∧ r.code = 0) ∧
    (entriesOf (adding [0, 1, 0, 1]).shared).map (fun u => (u.id, u.name)) = [(1, "bob")] ∧
    ∀ order : List (Fin 2), order.Nodup → (∀ i, i ∈ order) →
      (adding [0, 1, 0, 1]).shared ≠ serial (alone asciiPlatform twoAdds) order (.ofEntries []) := by
  refine ⟨fun i => ?_, by decide +kernel, fun order hnodup hall heq => ?_⟩
  · match i with
    | 0 => exact ⟨_, rfl, by decide +kernel⟩
    | 1 => exact ⟨_, rfl, by decide +kernel⟩
  · have hlost : ∀ order ∈ [[0, 1], [1, 0]], (entriesOf (adding [0, 1, 0, 1]).shared).length ≠
        (entriesOf (serial (alone asciiPlatform twoAdds) order (.ofEntries []))).length := by
      decide +kernel
    exact hlost order (by simpa using orders_of_two hnodup hall)
      (congrArg (fun f => (entriesOf f).length) heq)

end TabbySync.Cli
