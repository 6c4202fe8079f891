import TabbySync.Keys.Agreement
import TabbySync.Library.Crash

/-! # The key file across crashes

A run of `Load` or of `init` may be killed between any two of its file operations, and
in the middle of a write. `Load` installs its key by a rename and so leaves nothing or a
whole key under the path. `init` opens the path with truncation and writes it in a
second operation: in between, and for good if it is stopped there, the file is no key. -/

namespace TabbySync.Keys

open Library

variable {ι : Type} [DecidableEq ι]

/-- What a kill leaves of a write in progress. -/
def tear (written : Nat) (fs : Files ι) : Proc ι → Files ι
  | .load _ (.temp .write file key) => fs.write file (key.val.take written)
  | .init (.writeFile file key) => fs.write file (key.val.take written)
  | _ => fs

/-- A run that has returned is killed like any other. -/
def never (_ : Proc ι) : Bool := false

abbrev crashStep : Move Env → Files ι → Option (Proc ι) → Files ι × Option (Proc ι) :=
  crashing step tear never

abbrev Runs (ι : Type) := Pool (Files ι) ι (Option (Proc ι))

/-- Runs that have not begun, over some files. -/
def runs (fs : Files ι) (calls : ι → Call) : Runs ι where
  shared := fs
  procs i := some ((start fs calls).procs i)

/-- The key file is absent or holds as many bytes as a key has. -/
def Whole (fs : Files ι) : Prop :=
  ∀ bytes, fs.read .masterKey = some bytes → bytes.length = masterKeySize

/-- The move opens the key file for writing. -/
def Opens (s : Runs ι) (ev : ι × Move Env) : Prop :=
  match s.procs ev.1, ev.2 with
  | some (.init (.openFile _)), .run env => env.fails = none
  | _, _ => False

/-- The move stops an `init` that has opened the key file before its write is complete. -/
def Tears (s : Runs ι) (ev : ι × Move Env) : Prop :=
  match s.procs ev.1, ev.2 with
  | some (.init (.writeFile _ _)), .run env => env.fails ≠ none
  | some (.init (.writeFile _ _)), .kill _ => True
  | _, _ => False

instance (s : Runs ι) (ev : ι × Move Env) : Decidable (Opens s ev) := by
  unfold Opens
  split <;> infer_instance

instance (s : Runs ι) (ev : ι × Move Env) : Decidable (Tears s ev) := by
  unfold Tears
  split <;> infer_instance

/-- The handle of an `init` that has opened the file and not yet written. -/
def writing (q : Option (Proc ι)) : Option Nat := q.bind Proc.writer

/-! ## Names of temporary files -/

section
variable {fs fs' : Files ι}

/-- A temporary name points to a file from before only if it did before. -/
structure NoReuse (fs fs' : Files ι) : Prop where
  fresh : fs.fresh ≤ fs'.fresh
  temps : ∀ i, ∀ file < fs.fresh, fs'.entry (.temp i) = some file → fs.entry (.temp i) = some file

omit [DecidableEq ι] in
theorem NoReuse.of_entries (hfresh : fs.fresh ≤ fs'.fresh)
    (h : ∀ i, fs'.entry (.temp i) = fs.entry (.temp i)) : NoReuse fs fs' :=
  ⟨hfresh, fun i _ _ he => (h i).symm.trans he⟩

omit [DecidableEq ι] in
theorem NoReuse.refl : NoReuse fs fs := .of_entries (Nat.le_refl _) fun _ => rfl

theorem noReuse_create (p : Path ι) : NoReuse fs (fs.create p) := by
  refine ⟨Nat.le_succ _, fun i file hlt he => ?_⟩
  by_cases hp : Path.temp i = p
  · subst hp
    rw [FileSystem.entry_create] at he
    cases he
    exact absurd hlt (Nat.lt_irrefl _)
  · exact ((FileSystem.onlyAt_create fs p _ hp).1).symm.trans he

theorem noReuse_remove (p : Path ι) : NoReuse fs (fs.remove p) := by
  refine ⟨Nat.le_refl _, fun i file _ he => ?_⟩
  by_cases hp : Path.temp i = p
  · subst hp
    simp [FileSystem.remove] at he
  · exact ((FileSystem.onlyAt_remove fs p _ hp).1).symm.trans he

theorem noReuse_rename {i : ι} (h : fs.rename (.temp i) .masterKey = some fs') :
    NoReuse fs fs' := by
  have hfresh : fs'.fresh = fs.fresh := by
    unfold FileSystem.rename at h
    split at h
    · cases h
    · cases h
      rfl
  obtain ⟨-, -, hgone, hrest⟩ := FileSystem.rename_ok h (temp_ne i)
  refine ⟨Nat.le_of_eq hfresh.symm, fun j file _ he => ?_⟩
  by_cases hj : j = i
  · subst hj
    rw [hgone] at he
    cases he
  · exact (hrest _ (fun heq => hj (Path.temp.inj heq)) (temp_ne j)).1.symm.trans he

theorem noReuse_openTruncate : NoReuse fs (fs.openTruncate .masterKey).1 := by
  unfold FileSystem.openTruncate
  split
  · exact .of_entries (Nat.le_refl _) fun _ => rfl
  · exact noReuse_create _

theorem noReuse_step (env : Env) (fs : Files ι) (p : Proc ι) : NoReuse fs (step env fs p).1 := by
  cases p with
  | load i pc =>
    simp only [step]
    cases pc with
    | read =>
      simp only [loadStep]
      split
      · exact .refl
      · split
        · exact .refl
        · split <;> exact .refl
    | mkdir | generate =>
      simp only [loadStep]
      split <;> exact .refl
    | createTemp key =>
      simp only [loadStep]
      split
      · exact .refl
      · exact noReuse_create _
    | temp op file key =>
      simp only [loadStep]
      split
      · exact noReuse_remove _
      · split <;> exact .of_entries (Nat.le_refl _) fun _ => rfl
    | rename key =>
      simp only [loadStep]
      split
      · exact noReuse_remove _
      · split
        · exact noReuse_remove _
        · exact noReuse_rename ‹_›
    | chmod key =>
      simp only [loadStep]
      split <;> exact noReuse_remove _
    | returned r => exact .refl
  | init pc =>
    simp only [step]
    cases pc with
    | stat | generate | closeFile =>
      simp only [initStep]
      split <;> exact .refl
    | openFile key =>
      simp only [initStep]
      split
      · exact .refl
      · exact noReuse_openTruncate
    | writeFile file key =>
      simp only [initStep]
      split <;> exact .of_entries (Nat.le_refl _) fun _ => rfl
    | finished r => exact .refl

omit [DecidableEq ι] in
theorem noReuse_tear (written : Nat) (fs : Files ι) (p : Proc ι) : NoReuse fs (tear written fs p) := by
  unfold tear
  split <;> exact .of_entries (Nat.le_refl _) fun _ => rfl

end

/-! ## What every run keeps -/

section
variable {s s' : Runs ι} {i : ι} {env : Env} {p : Proc ι}

/-- Runs know their temporary files, and a handle on the key file is on no temporary
file, even when the path has come to name another. -/
structure Orderly (s : Runs ι) : Prop where
  temps : ∀ j p, s.procs j = some p → TempOk s.shared j p
  handles : ∀ j file, writing (s.procs j) = some file →
    file < s.shared.fresh ∧ ∀ k, s.shared.entry (.temp k) ≠ some file

omit [DecidableEq ι] in
theorem Orderly.writer (h : Orderly s) (hp : s.procs i = some p) (file : Nat)
    (hw : p.writer = some file) :
    file < s.shared.fresh ∧ ∀ k, s.shared.entry (.temp k) ≠ some file :=
  h.handles i file (by rw [hp]; exact hw)

omit [DecidableEq ι] in
/-- A move of run `i` that takes no file from another run keeps the files in order, if
what `i` knows afterwards is right. -/
theorem Orderly.after (h : Orderly s) (hother : ∀ j, j ≠ i → s'.procs j = s.procs j)
    (names : NoReuse s.shared s'.shared)
    (temps : ∀ j, j ≠ i → s'.shared.entry (.temp j) = s.shared.entry (.temp j) ∧
      s'.shared.read (.temp j) = s.shared.read (.temp j))
    (own : ∀ p, s'.procs i = some p → TempOk s'.shared i p)
    (handle : ∀ file, writing (s'.procs i) = some file →
      file < s'.shared.fresh ∧ ∀ k, s'.shared.entry (.temp k) ≠ some file) : Orderly s' := by
  refine ⟨fun j p hp => ?_, fun j file hw => ?_⟩
  · by_cases hj : j = i
    · subst hj
      exact own p hp
    · rw [hother j hj] at hp
      exact ⟨(h.temps j p hp).call, (h.temps j p hp).temp.frame (temps j hj).1 (temps j hj).2⟩
  · by_cases hj : j = i
    · subst hj
      exact handle file hw
    · rw [hother j hj] at hw
      obtain ⟨hlt, hne⟩ := h.handles j file hw
      exact ⟨Nat.lt_of_lt_of_le hlt names.fresh, fun k hk => hne k (names.temps k file hlt hk)⟩

theorem Effect.handle {fs fs' : Files ι} {p' : Proc ι} (h : Effect i env fs p fs' p') (file : Nat)
    (hw : p'.writer = some file) : file < fs'.fresh ∧ ∀ k, fs'.entry (.temp k) ≠ some file := by
  cases h with
  | quiet _ _ _ after => rw [after] at hw; cases hw
  | rename => cases hw
  | truncate =>
    obtain ⟨hentry, -, -⟩ := FileSystem.openTruncate_spec fs .masterKey
    cases hw
    exact ⟨FileSystem.below _ _ _ hentry, fun k hk =>
      temp_ne k (FileSystem.single _ _ _ _ hk hentry)⟩
  | write _ after => rw [after] at hw; cases hw

omit [DecidableEq ι] in
/-- A kill reaches the temporary file of its own run at most. -/
theorem tear_other_temp {fs : Files ι} (htemp : TempOk fs i p)
    (hwriter : ∀ file, p.writer = some file → ∀ k, fs.entry (.temp k) ≠ some file) (written : Nat)
    {j : ι} (hj : j ≠ i) : (tear written fs p).entry (.temp j) = fs.entry (.temp j) ∧
      (tear written fs p).read (.temp j) = fs.read (.temp j) := by
  unfold tear
  split
  · exact FileSystem.onlyAt_setContent htemp.temp.1 _ _ fun h => hj (Path.temp.inj h)
  · exact ⟨rfl, FileSystem.read_setContent_of_ne (hwriter _ rfl j) _⟩
  · exact ⟨rfl, rfl⟩

theorem orderly_fire (hs : Orderly s) (ev : ι × Move Env) : Orderly (Pool.fire crashStep s ev) := by
  obtain ⟨i, move⟩ := ev
  have hother : ∀ j, j ≠ i → (Pool.fire crashStep s (i, move)).procs j = s.procs j := fun j hj =>
    Pool.fire_procs_of_ne hj
  cases hp : s.procs i with
  | none =>
    rw [fire_of_dead step tear never hp]
    exact hs
  | some p =>
    have htemp := hs.temps i p hp
    have hwriter : ∀ file, p.writer = some file → ∀ k, s.shared.entry (.temp k) ≠ some file :=
      fun file hw => (hs.writer hp file hw).2
    cases move with
    | run env =>
      obtain ⟨hshared, hself⟩ := fire_run step tear never env hp
      have heff := step_effect htemp env
      refine hs.after hother ?_ (fun j hj => ?_) (fun p' hp' => ?_) fun file hw => ?_
      all_goals rw [hshared]
      · exact noReuse_step env s.shared p
      · exact heff.other_temp hwriter hj
      · cases hself.symm.trans hp'
        exact tempOk_step htemp env
      · rw [hself] at hw
        exact heff.handle file hw
    | kill written =>
      obtain ⟨hshared, hself⟩ := fire_kill step tear never written hp rfl
      refine hs.after hother ?_ (fun j hj => ?_) (fun p' hp' => ?_) fun file hw => ?_
      · rw [hshared]
        exact noReuse_tear written s.shared p
      · rw [hshared]
        exact tear_other_temp htemp hwriter written hj
      · cases hself.symm.trans hp'
      · rw [hself] at hw
        cases hw

/-! ## The key file -/

/-- The key file is absent or whole, or it is blank and an `init` has it open. -/
def Guarded (s : Runs ι) : Prop :=
  ∀ bytes, s.shared.read .masterKey = some bytes → bytes.length = masterKeySize ∨
    (bytes = [] ∧ ∃ j file, writing (s.procs j) = some file ∧
      s.shared.entry .masterKey = some file)

omit [DecidableEq ι] in
theorem Guarded.frame (h : Guarded s) (hother : ∀ j, j ≠ i → s'.procs j = s.procs j)
    (hi : ∀ file, writing (s.procs i) = some file → s.shared.entry .masterKey ≠ some file)
    (hentry : s'.shared.entry .masterKey = s.shared.entry .masterKey)
    (hread : s'.shared.read .masterKey = s.shared.read .masterKey) : Guarded s' := by
  intro bytes hbytes
  rw [hread] at hbytes
  obtain hlen | ⟨hnil, j, file, hw, he⟩ := h bytes hbytes
  · exact .inl hlen
  · have hj : j ≠ i := by
      rintro rfl
      exact hi file hw he
    exact .inr ⟨hnil, j, file, by rw [hother j hj]; exact hw, hentry.trans he⟩

omit [DecidableEq ι] in
/-- A complete key over a blank file, or over another key, is a key. -/
theorem Guarded.write {file : Nat} (h : Guarded s) (key : Key)
    (hother : ∀ j, j ≠ i → s'.procs j = s.procs j)
    (hw : writing (s.procs i) = some file) (hshared : s'.shared = s.shared.write file key.val) :
    Guarded s' := by
  by_cases he : s.shared.entry .masterKey = some file
  · intro bytes hbytes
    rw [hshared, FileSystem.write, FileSystem.read_setContent he] at hbytes
    cases hbytes
    have hold := h _ (FileSystem.read_eq_some he)
    refine .inl ?_
    have hkey := key.property
    rcases hold with hlen | ⟨hnil, _⟩
    · simp only [List.length_append, List.length_drop, hlen, hkey]
      omega
    · simp [hnil, hkey]
  · refine h.frame hother (fun f hf => ?_) (by rw [hshared]; rfl) ?_
    · cases hw.symm.trans hf
      exact he
    · rw [hshared]
      exact FileSystem.read_setContent_of_ne he _

theorem guarded_fire {ev : ι × Move Env} (hs : Orderly s) (hg : Guarded s) (hev : ¬ Tears s ev) :
    Guarded (Pool.fire crashStep s ev) := by
  obtain ⟨i, move⟩ := ev
  have hother : ∀ j, j ≠ i → (Pool.fire crashStep s (i, move)).procs j = s.procs j := fun j hj =>
    Pool.fire_procs_of_ne hj
  cases hp : s.procs i with
  | none =>
    rw [fire_of_dead step tear never hp]
    exact hg
  | some p =>
    have htemp := hs.temps i p hp
    cases move with
    | run env =>
      obtain ⟨hshared, hself⟩ := fire_run step tear never env hp
      have heff := step_effect htemp env
      generalize hfs : (step env s.shared p).1 = fs' at heff hshared
      generalize hp' : (step env s.shared p).2 = p' at heff hself
      cases heff with
      | quiet only _ before _ =>
        obtain ⟨hentry, hread⟩ := only _ (temp_ne i).symm
        refine hg.frame hother (fun file hw => ?_) (hshared ▸ hentry) (hshared ▸ hread)
        rw [hp, writing, Option.bind_some, before] at hw
        cases hw
      | @rename key _ _ moved =>
        intro bytes hbytes
        rw [hshared, (FileSystem.rename_ok moved (temp_ne i)).2.1,
          show s.shared.read (.temp i) = some key.val from htemp.temp] at hbytes
        cases hbytes
        exact .inl key.property
      | truncate =>
        obtain ⟨hentry, hread, -⟩ := FileSystem.openTruncate_spec s.shared .masterKey
        intro bytes hbytes
        rw [hshared, hread] at hbytes
        cases hbytes
        refine .inr ⟨rfl, i, _, ?_, hshared ▸ hentry⟩
        rw [hself]
        rfl
      | @write file key =>
        -- the write is not cut short, so all of the key goes in
        have hok : env.fails = none := by
          simpa [Tears, hp] using hev
        have hw : writing (s.procs i) = some file := by rw [hp]; rfl
        refine hg.write key hother hw ?_
        rw [hshared, ← hfs]
        simp only [step, initStep, hok]
    | kill written =>
      obtain ⟨hshared, -⟩ := fire_kill step tear never written hp rfl
      have hnone : p.writer = none := by
        cases p with
        | load => rfl
        | init pc =>
          cases pc with
          | writeFile => simp [Tears, hp] at hev
          | stat | generate | openFile | closeFile | finished => rfl
      have hkey : (tear written s.shared p).entry .masterKey = s.shared.entry .masterKey ∧
          (tear written s.shared p).read .masterKey = s.shared.read .masterKey := by
        unfold tear
        split
        · exact FileSystem.onlyAt_setContent htemp.temp.1 _ _ (temp_ne i).symm
        · cases hnone
        · exact ⟨rfl, rfl⟩
      refine hg.frame hother (fun file hw => ?_) (hshared ▸ hkey.1) (hshared ▸ hkey.2)
      rw [hp, writing, Option.bind_some, hnone] at hw
      cases hw

omit [DecidableEq ι] in
theorem Guarded.whole (h : Guarded s) (closed : ∀ j, writing (s.procs j) = none) :
    Whole s.shared := by
  intro bytes hbytes
  obtain hlen | ⟨_, j, file, hw, _⟩ := h bytes hbytes
  · exact hlen
  · rw [closed j] at hw
    cases hw

omit [DecidableEq ι] in
theorem not_tears {ev : ι × Move Env} (closed : ∀ j, writing (s.procs j) = none) : ¬ Tears s ev := by
  have hclosed := closed ev.1
  unfold Tears
  split
  · rename_i hp _
    rw [hp] at hclosed
    cases hclosed
  · rename_i hp _
    rw [hp] at hclosed
    cases hclosed
  · exact not_false

theorem closed_fire {ev : ι × Move Env} (hs : Orderly s) (closed : ∀ j, writing (s.procs j) = none)
    (hev : ¬ Opens s ev) (j : ι) : writing ((Pool.fire crashStep s ev).procs j) = none := by
  obtain ⟨i, move⟩ := ev
  by_cases hj : j = i
  · subst hj
    cases hp : s.procs j with
    | none =>
      rw [fire_of_dead step tear never hp]
      exact closed j
    | some p =>
      cases move with
      | kill written => rw [(fire_kill step tear never written hp rfl).2]; rfl
      | run env =>
        rw [(fire_run step tear never env hp).2]
        have heff := step_effect (hs.temps j p hp) env
        show (step env s.shared p).2.writer = none
        generalize (step env s.shared p).2 = p' at heff
        generalize (step env s.shared p).1 = fs' at heff
        cases heff with
        | quiet _ _ _ after => exact after
        | rename => rfl
        | truncate ok => exact absurd (by simpa [Opens, hp] using ok) hev
        | write _ after => exact after
  · rw [Pool.fire_procs_of_ne hj]
    exact closed j

/-- With the key file closed and whole, a move that does not open it leaves it whole. -/
theorem whole_fire {ev : ι × Move Env}
    (h : Orderly s ∧ (∀ j, writing (s.procs j) = none) ∧ Whole s.shared) (hev : ¬ Opens s ev) :
    Whole (Pool.fire crashStep s ev).shared := by
  obtain ⟨hs, closed, whole⟩ := h
  have hguarded : Guarded s := fun bytes hb => .inl (whole bytes hb)
  exact (guarded_fire hs hguarded (not_tears closed)).whole (closed_fire hs closed hev)

theorem not_whole_of_opens {ev : ι × Move Env} (h : Opens s ev) :
    ¬ Whole (Pool.fire crashStep s ev).shared := by
  obtain ⟨i, move⟩ := ev
  unfold Opens at h
  split at h
  · rename_i key env hp hmove
    cases hmove
    intro hwhole
    have hread : (Pool.fire crashStep s (i, .run env)).shared.read .masterKey = some [] := by
      rw [(fire_run step tear never env hp).1]
      simp only [step, initStep, h]
      exact (FileSystem.openTruncate_spec s.shared .masterKey).2.1
    exact absurd (hwhole [] hread) (by decide)
  · cases h

/-- `Load` does not report the length of a whole key. -/
theorem Whole.load {fs : Files ι} (h : Whole fs) (i : ι) (env : Env) :
    (loadStep i env fs .read).2 ≠ .returned (.error errInvalidLength) := by
  simp only [loadStep]
  split
  · simp [wrapPathError, errInvalidLength]
  · split
    · simp
    · rename_i raw hraw
      rw [dif_pos (h raw hraw)]
      simp

end

omit [DecidableEq ι] in
theorem orderly_runs (fs : Files ι) (calls : ι → Call) :
    Orderly (runs fs calls) ∧ ∀ j, writing ((runs fs calls).procs j) = none := by
  have hidle := start_idle fs calls
  refine ⟨⟨fun j p hp => ?_, fun j file hw => ?_⟩, fun j => (hidle j).2.2⟩
  · cases hp
    exact (hidle j).1
  · rw [show writing ((runs fs calls).procs j) = none from (hidle j).2.2] at hw
    cases hw

/-- From a directory whose key is absent or whole: the key file is absent or whole at
every moment of a run exactly if no `init` opens it; and if no `init` that opened it is
stopped before its write is complete, then it is absent or whole whenever none has it
open, and a `Load` that reads it then does not complain of its length. -/
theorem key_file_across_crashes {fs : Files ι} (whole : Whole fs) (calls : ι → Call)
    (events : List (ι × Move Env)) :
    ((∀ n, Whole (Pool.run crashStep (runs fs calls) (events.take n)).shared) ↔
      Pool.Along crashStep (fun s ev => ¬ Opens s ev) (runs fs calls) events) ∧
    (Pool.Along crashStep (fun s ev => ¬ Tears s ev) (runs fs calls) events →
      (∀ i, writing ((Pool.run crashStep (runs fs calls) events).procs i) = none) →
      Whole (Pool.run crashStep (runs fs calls) events).shared ∧
        ∀ i env, (loadStep i env (Pool.run crashStep (runs fs calls) events).shared .read).2 ≠
          .returned (.error errInvalidLength)) := by
  obtain ⟨horderly, hclosed⟩ := orderly_runs fs calls
  constructor
  · rw [Pool.forall_take_iff (I := fun s => Whole s.shared),
      and_iff_right (show Whole (runs fs calls).shared from whole)]
    refine Pool.along_congr
      (I := fun s => Orderly s ∧ (∀ j, writing (s.procs j) = none) ∧ Whole s.shared)
      (fun s ev h => ⟨fun hw hopens => not_whole_of_opens hopens hw, whole_fire h⟩)
      (fun s ev h hev => ⟨orderly_fire h.1 ev, closed_fire h.1 h.2.1 hev, whole_fire h hev⟩)
      ⟨horderly, hclosed, whole⟩ events
  · intro hkept hclosed'
    have hend := Pool.run_invariant_along (I := fun s => Orderly s ∧ Guarded s)
      (fun s ev h hev => ⟨orderly_fire h.1 ev, guarded_fire h.1 h.2 hev⟩)
      ⟨horderly, fun bytes hb => .inl (whole bytes hb)⟩ hkept
    have hwhole := hend.2.whole hclosed'
    exact ⟨hwhole, hwhole.load⟩

/-- So many operations of one run, whose random bytes are all the given one. -/
def moves (i : Fin 2) (byte : UInt8) (n : Nat) : List (Fin 2 × Move Env) :=
  (steps i byte n).map fun ev => (ev.1, .run ev.2)

/-- An `init` and a `Load` in an empty directory. -/
def initThenLoad : Runs (Fin 2) := runs .empty fun i => if i = 0 then .init else .load

/-- A `Load` is killed five bytes into its temporary file and another makes the key; an
`init` runs to its end and a `Load` reads its key. -/
theorem key_file_across_crashes_runs :
    (∀ n, Whole (Pool.run crashStep (runs .empty fun _ : Fin 2 => .load)
      ((moves 0 1 5 ++ [(0, Move.kill 5)] ++ moves 1 2 10).take n)).shared) ∧
    Whole (Pool.run crashStep initThenLoad (moves 0 1 5 ++ moves 1 2 1)).shared := by
  have hempty : Whole (.empty : Files (Fin 2)) := nofun
  refine ⟨(key_file_across_crashes hempty (fun _ => .load) _).1.mpr (by decide +kernel), ?_⟩
  refine ((key_file_across_crashes hempty _ (moves 0 1 5 ++ moves 1 2 1)).2 (by decide +kernel)
    ?_).1
  decide +kernel

/-- An `init` is killed after it has opened the key file: the file stays empty, and every
`Load` fails on its length. -/
theorem killed_init_blocks_load :
    Whole initThenLoad.shared ∧
    (Pool.run crashStep initThenLoad (moves 0 1 3 ++ [(0, Move.kill 0)])).shared.read .masterKey =
      some [] ∧
    (Pool.run crashStep initThenLoad (moves 0 1 3 ++ [(0, Move.kill 0)] ++ moves 1 2 1)).procs 1 =
      some (.load 1 (.returned (.error errInvalidLength))) :=
  ⟨nofun, rfl, rfl⟩

end TabbySync.Keys
