import Mathlib.Data.Nat.Nth
import TabbySync.Store.IdempotentUpdate

/-! # How often an update goes round its loop

The loop of `UpdateConfigPlaintext` has no counter. It starts again when its compare-and-set
finds another `modified_at` than the one it read, and then some other call has set that
stamp in between. So each further round is charged to a commit of its own, and an update
ends as soon as the others leave its row alone for the length of one round. -/

namespace TabbySync.BoundedRetries
open TabbySync.Library TabbySync.Library.Rfc3339 TabbySync.Crypto TabbySync.Encrypted
open TabbySync.VersionToken TabbySync.IdempotentUpdate
open TabbySync.Sqlite hiding Session Result

/-! ## The stamp of a row -/

/-- The row's `modified_at`, if there is a row and it reads. -/
def stamp (userID configID : Int64) (t : Configs) : Option Int :=
  (t.find (owned configID userID)).bind fun r => parse r.modifiedAt

/-- The row's `modified_at` reads as a later instant than before. -/
def advances (userID configID : Int64) (t t' : Configs) : Bool :=
  match stamp userID configID t, stamp userID configID t' with
  | some old, some new => decide (old < new)
  | _, _ => false

/-- The row has been there, and if it still reads, it reads as it was read. -/
def Fresh (userID configID : Int64) (current : ConfigWithPlaintext) (t : Configs) : Prop :=
  configID ≤ t.last ∧ ∀ m, stamp userID configID t = some m → m = current.modifiedAt

section
variable {P : Primitives} {masterKey : Bytes} {t t' : Configs} {userID configID : Int64}
variable {current : ConfigWithPlaintext}

theorem stamp_eq_some {m : Int} : stamp userID configID t = some m ↔
    ∃ r, t.find (owned configID userID) = some r ∧ parse r.modifiedAt = some m :=
  Option.bind_eq_some_iff

/-- A stamp that reads did so before, as the same instant or an earlier one. -/
theorem stamp_of_evolves (h : Evolves t t') (hlast : configID ≤ t.last) {m' : Int}
    (hm' : stamp userID configID t' = some m') :
    ∃ m, stamp userID configID t = some m ∧ (m' = m ∨ m < m') := by
  obtain ⟨r', hr', hparse'⟩ := stamp_eq_some.mp hm'
  obtain ⟨hmem', hid', hu'⟩ := find_owned.mp hr'
  rcases h.row r' hmem' with hnew | ⟨r, hmem, hrow⟩
  · exact absurd hlast (not_le_of_gt (hid' ▸ hnew))
  · have hfind := find_owned.mpr ⟨hmem, hrow.id.symm.trans hid', hrow.userID.symm.trans hu'⟩
    rcases hrow.token with ⟨_, _, _, hsame⟩ | ⟨old, hold, hlater⟩
    · exact ⟨m', stamp_eq_some.mpr ⟨r, hfind, hsame ▸ hparse'⟩, .inl rfl⟩
    · exact ⟨old, stamp_eq_some.mpr ⟨r, hfind, hold⟩, .inr (hlater m' hparse')⟩

theorem fresh_of_read (h : getConfigPlaintext P masterKey t userID configID = .ok current) :
    Fresh userID configID current t := by
  obtain ⟨r, hr, hshow, _, _⟩ := getConfigPlaintext_row h
  obtain ⟨hmem, hid, _⟩ := find_owned.mp hr
  refine ⟨hid ▸ t.bounded r hmem, fun m hm => ?_⟩
  rw [stamp, hr] at hm
  exact Option.some.inj (hm.symm.trans hshow.modifiedAt)

theorem Fresh.step (h : Fresh userID configID current t) (hev : Evolves t t') :
    Fresh userID configID current t' ∨ advances userID configID t t' = true := by
  by_cases hadv : advances userID configID t t' = true
  · exact .inr hadv
  · refine .inl ⟨h.1.trans hev.last, fun m' hm' => ?_⟩
    obtain ⟨m, hm, heq | hlt⟩ := stamp_of_evolves hev h.1 hm'
    · exact heq.trans (h.2 m hm)
    · simp [advances, hm, hm', hlt] at hadv

end

/-! ## Events of a run -/

def atStart : Client → Bool
  | .enc (.update _ _ _ .reading) => true
  | _ => false

/-- The next step of a client is the write of a patch that repeats what it read. -/
def comparing : Client → Bool
  | .enc (.update _ _ patch (.writing current)) => !changed patch current
  | _ => false

section
variable (P : Primitives) (masterKey : Bytes) {ι : Type} [DecidableEq ι]
variable (s : Pool Configs ι Client) (es : List (ι × Env)) (i : ι)

/-- The call goes round its loop again. -/
def restartsAt (n : ℕ) : Bool :=
  !atStart ((Pool.moment (Client.step P masterKey) s es n).procs i) &&
    atStart ((Pool.moment (Client.step P masterKey) s es (n + 1)).procs i)

/-- The call makes the read of a round. -/
def readsAt (n : ℕ) : Bool :=
  atStart ((Pool.moment (Client.step P masterKey) s es n).procs i) &&
    !atStart ((Pool.moment (Client.step P masterKey) s es (n + 1)).procs i)

/-- The call makes a conditional write, lost or not. -/
def comparesAt (n : ℕ) : Bool :=
  Pool.stepsAt es i n && comparing ((Pool.moment (Client.step P masterKey) s es n).procs i)

/-- Another call moves the row's `modified_at` on. -/
def advancedAt (userID configID : Int64) (n : ℕ) : Bool :=
  !Pool.stepsAt es i n && advances userID configID
    (Pool.moment (Client.step P masterKey) s es n).shared
    (Pool.moment (Client.step P masterKey) s es (n + 1)).shared

/-- Another call does so between the first read and the last conditional write. -/
def interferesAt (userID configID : Int64) (n : ℕ) : Bool :=
  advancedAt P masterKey s es i userID configID n &&
    decide (∃ k, k < n ∧ readsAt P masterKey s es i k = true) &&
    decide (∃ k, k < es.length ∧ n < k ∧ comparesAt P masterKey s es i k = true)

def retries : ℕ := Nat.count (fun n => restartsAt P masterKey s es i n = true) es.length

def interferences (userID configID : Int64) : ℕ :=
  Nat.count (fun n => interferesAt P masterKey s es i userID configID n = true) es.length

end

/-- The steps of its own that a call has taken. -/
def ownSteps {ι : Type} [DecidableEq ι] (es : List (ι × Env)) (i : ι) : ℕ :=
  Nat.count (fun n => Pool.stepsAt es i n = true) es.length

/-! ## The call along a run -/

/-- The call is in flight, or it has returned, and not the error of a lost race. -/
def InCall (userID configID : Int64) (patch : UpdateConfigPlaintextPatch) (c : Client) : Prop :=
  (∃ pc, c = .enc (.update userID configID patch pc)) ∨
    ∃ r, c = .enc (.done (.config r)) ∧ ∀ e, r = .error e → e.is .configChanged = false

section
variable {P : Primitives} {masterKey : Bytes} {userID configID : Int64}
variable {patch : UpdateConfigPlaintextPatch}

theorem inCall_of_next {t : Configs} {pc : UpdatePc} {next : Session}
    (h : UpdateNext P masterKey t userID configID patch pc next) :
    InCall userID configID patch (.enc next) := by
  cases h with
  | fails h =>
    refine .inr ⟨_, rfl, fun e he => ?_⟩
    cases he
    exact h
  | returns => exact .inr ⟨_, rfl, fun e he => by cases he⟩
  | reads | retries | commits | reloads => exact .inl ⟨_, rfl⟩

theorem inCall_step (env : Env) (t : Configs) {c : Client}
    (h : InCall userID configID patch c) :
    InCall userID configID patch (c.step P masterKey env t).2 := by
  rcases h with ⟨pc, rfl⟩ | ⟨r, rfl, hr⟩
  · exact inCall_of_next (updateStep_next P masterKey env t userID configID patch pc)
  · exact .inr ⟨r, rfl, hr⟩

variable {ι : Type} [DecidableEq ι] {s : Pool Configs ι Client} {es : List (ι × Env)} {i : ι}
variable {n : ℕ}

/-- What a step of the call does to it. -/
theorem moment_next {pc : UpdatePc} {env : Env} (hev : es[n]? = some (i, env))
    (hpc : (Pool.moment (Client.step P masterKey) s es n).procs i =
      .enc (.update userID configID patch pc)) :
    ∃ next, (Pool.moment (Client.step P masterKey) s es (n + 1)).procs i = .enc next ∧
      UpdateNext P masterKey (Pool.moment (Client.step P masterKey) s es n).shared userID configID
        patch pc next := by
  refine ⟨_, ?_, updateStep_next P masterKey env _ userID configID patch pc⟩
  rw [Pool.moment_succ hev, Pool.fire_procs_self, hpc]
  rfl

/-- A call that has returned stays so. -/
theorem moment_done {r : Result}
    (h : (Pool.moment (Client.step P masterKey) s es n).procs i = .enc (.done r)) :
    (Pool.moment (Client.step P masterKey) s es (n + 1)).procs i = .enc (.done r) := by
  cases hown : Pool.stepsAt es i n with
  | false => rw [Pool.moment_procs_of_idle hown, h]
  | true =>
    obtain ⟨env, hev⟩ := Pool.stepsAt_iff.mp hown
    rw [Pool.moment_succ hev, Pool.fire_procs_self, h]
    rfl

theorem moment_evolves (n : ℕ) :
    Evolves (Pool.moment (Client.step P masterKey) s es n).shared
      (Pool.moment (Client.step P masterKey) s es (n + 1)).shared := by
  cases hev : es[n]? with
  | none => rw [Pool.moment_succ_of_end hev]; exact .refl _
  | some ev => rw [Pool.moment_succ hev]; exact fire_evolves _ ev

section
variable (hcall : s.procs i = .enc (.update userID configID patch .reading))
include hcall

theorem moment_inCall (P : Primitives) (masterKey : Bytes) (es : List (ι × Env)) (n : ℕ) :
    InCall userID configID patch ((Pool.moment (Client.step P masterKey) s es n).procs i) :=
  Pool.run_procs_invariant (fun env t _ => inCall_step env t) (.inl ⟨_, hcall⟩) _

/-- The step before a further round is a lost compare-and-set. -/
theorem restartsAt_inv (h : restartsAt P masterKey s es i n = true) :
    Pool.stepsAt es i n = true ∧ ∃ current m,
      (Pool.moment (Client.step P masterKey) s es n).procs i =
        .enc (.update userID configID patch (.writing current)) ∧
      changed patch current = false ∧
      stamp userID configID (Pool.moment (Client.step P masterKey) s es n).shared = some m ∧
      m ≠ current.modifiedAt := by
  obtain ⟨hbefore, hafter⟩ := (Bool.and_eq_true _ _).mp h
  have hown : Pool.stepsAt es i n = true := by
    by_contra hidle
    rw [Pool.moment_procs_of_idle (Bool.eq_false_iff.mpr hidle)] at hafter
    simp [hafter] at hbefore
  obtain ⟨env, hev⟩ := Pool.stepsAt_iff.mp hown
  refine ⟨hown, ?_⟩
  rcases moment_inCall hcall P masterKey es n with ⟨pc, hpc⟩ | ⟨r, hr, _⟩
  · obtain ⟨next, hnext, hstep⟩ := moment_next hev hpc
    rw [hnext] at hafter
    cases hstep with
    | @retries current r m hsame hr hm hne =>
      exact ⟨current, m, hpc, hsame, stamp_eq_some.mpr ⟨r, hr, hm⟩, hne⟩
    | fails | reads | commits | reloads | returns => cases hafter
  · rw [moment_done hr] at hafter
    cases hafter

/-- While the call stands before its write, the row is as it was read, or another call has
moved its stamp on since. -/
theorem fresh_or_advanced (n : ℕ) {current : ConfigWithPlaintext}
    (hpc : (Pool.moment (Client.step P masterKey) s es n).procs i =
      .enc (.update userID configID patch (.writing current))) :
    Fresh userID configID current (Pool.moment (Client.step P masterKey) s es n).shared ∨
      ∃ e, e < n ∧ advancedAt P masterKey s es i userID configID e = true ∧
        (Pool.moment (Client.step P masterKey) s es e).procs i =
          .enc (.update userID configID patch (.writing current)) ∧
        ∀ k, e ≤ k → k < n → Pool.stepsAt es i k = false := by
  induction n with
  | zero =>
    rw [Pool.moment_zero] at hpc
    cases hcall.symm.trans hpc
  | succ n ih =>
    cases hown : Pool.stepsAt es i n with
    | true =>
      -- its own step was the read
      obtain ⟨env, hev⟩ := Pool.stepsAt_iff.mp hown
      rcases moment_inCall hcall P masterKey es n with ⟨pc, hbefore⟩ | ⟨r, hr, _⟩
      · obtain ⟨next, hnext, hstep⟩ := moment_next hev hbefore
        rw [hpc] at hnext
        cases hnext
        cases hstep with
        | reads hread =>
          have hkept : (Pool.moment (Client.step P masterKey) s es (n + 1)).shared =
              (Pool.moment (Client.step P masterKey) s es n).shared := by
            rw [Pool.moment_succ hev, Pool.fire, hbefore]
            exact (updateStep_reading env patch).1
          exact .inl (hkept ▸ fresh_of_read hread)
      · rw [moment_done hr] at hpc
        cases hpc
    | false =>
      rw [Pool.moment_procs_of_idle hown] at hpc
      rcases ih hpc with hfresh | ⟨e, he, hadv, hat, hidle⟩
      · rcases hfresh.step (moment_evolves n) with hstill | hmoved
        · exact .inl hstill
        · refine .inr ⟨n, Nat.lt_succ_self n, ?_, hpc, ?_⟩
          · rw [advancedAt, hown, hmoved]
            rfl
          · intro k hk hk'
            rw [Nat.le_antisymm (Nat.le_of_lt_succ hk') hk]
            exact hown
      · refine .inr ⟨e, he.trans (Nat.lt_succ_self n), hadv, hat, fun k hk hk' => ?_⟩
        rcases Nat.lt_succ_iff_lt_or_eq.mp hk' with hlt | rfl
        · exact hidle k hk hlt
        · exact hown

/-- A call that has left its start has made a read. -/
theorem exists_readsAt
    (h : atStart ((Pool.moment (Client.step P masterKey) s es n).procs i) = false) :
    ∃ k, k < n ∧ readsAt P masterKey s es i k = true := by
  induction n with
  | zero =>
    rw [Pool.moment_zero, hcall] at h
    cases h
  | succ n ih =>
    cases hstart : atStart ((Pool.moment (Client.step P masterKey) s es n).procs i) with
    | true => exact ⟨n, Nat.lt_succ_self n, by rw [readsAt, hstart, h]; rfl⟩
    | false =>
      obtain ⟨k, hk, hread⟩ := ih hstart
      exact ⟨k, hk.trans (Nat.lt_succ_self n), hread⟩

/-- Every further round is charged to an interference of its own. -/
theorem retries_le : retries P masterKey s es i ≤
    interferences P masterKey s es i userID configID := by
  refine count_le_of_charge (fun n => Pool.stepsAt es i n = true) fun n hn hrestart => ?_
  obtain ⟨hown, current, m, hpc, hsame, hm, hne⟩ := restartsAt_inv hcall hrestart
  refine ⟨hown, ?_⟩
  rcases fresh_or_advanced hcall n hpc with hfresh | ⟨e, he, hadv, hat, hidle⟩
  · exact absurd (hfresh.2 m hm) hne
  · have hread : ∃ k, k < e ∧ readsAt P masterKey s es i k = true :=
      exists_readsAt hcall (by rw [hat]; rfl)
    have hwrite : comparesAt P masterKey s es i n = true := by
      simp [comparesAt, hown, hpc, comparing, hsame]
    refine ⟨e, he, ?_, fun k hk hk' => Bool.eq_false_iff.mp (hidle k hk hk')⟩
    simp only [interferesAt, hadv, Bool.true_and, Bool.and_eq_true, decide_eq_true_eq]
    exact ⟨hread, n, hn, he, hwrite⟩

end

/-! ## How long a call runs -/

/-- The steps of a round that lie behind. -/
def behind : UpdatePc → ℕ
  | .reading => 0
  | .writing _ => 1
  | .reloading _ => 2
  | .returning => 3

/-- A call that has not returned has taken two steps a round, and those of this one. -/
theorem count_stepsAt (P : Primitives) (masterKey : Bytes) (es : List (ι × Env))
    (hcall : s.procs i = .enc (.update userID configID patch .reading)) (n : ℕ) :
    (∃ r, (Pool.moment (Client.step P masterKey) s es n).procs i = .enc (.done (.config r))) ∨
      ∃ pc, (Pool.moment (Client.step P masterKey) s es n).procs i =
          .enc (.update userID configID patch pc) ∧
        Nat.count (fun n => Pool.stepsAt es i n = true) n =
          2 * Nat.count (fun n => restartsAt P masterKey s es i n = true) n + behind pc := by
  induction n with
  | zero => exact .inr ⟨.reading, hcall, rfl⟩
  | succ n ih =>
    rw [Nat.count_succ, Nat.count_succ]
    cases hown : Pool.stepsAt es i n with
    | false =>
      have hsame : (Pool.moment (Client.step P masterKey) s es (n + 1)).procs i =
          (Pool.moment (Client.step P masterKey) s es n).procs i := Pool.moment_procs_of_idle hown
      have hno : restartsAt P masterKey s es i n = false := by
        rw [restartsAt, hsame, Bool.not_and_self]
      rw [hsame, hno]
      simpa using ih
    | true =>
      obtain ⟨env, hev⟩ := Pool.stepsAt_iff.mp hown
      rcases ih with ⟨r, hr⟩ | ⟨pc, hpc, hcount⟩
      · exact .inl ⟨r, moment_done hr⟩
      · obtain ⟨next, hnext, hstep⟩ := moment_next hev hpc
        have hrestart : restartsAt P masterKey s es i n =
            (!atStart (.enc (.update userID configID patch pc)) && atStart (.enc next)) := by
          rw [restartsAt, hpc, hnext]
        rw [hrestart, hnext]
        cases hstep with
        | fails | returns => exact .inl ⟨_, rfl⟩
        | reads | commits | reloads =>
          refine .inr ⟨_, rfl, ?_⟩
          simp [hcount, atStart, behind]
        | retries =>
          refine .inr ⟨_, rfl, ?_⟩
          simp [hcount, atStart, behind]
          omega

theorem done_of_ownSteps (hcall : s.procs i = .enc (.update userID configID patch .reading))
    (h : 2 * retries P masterKey s es i + 4 ≤ ownSteps es i) :
    ∃ r, (Pool.run (Client.step P masterKey) s es).procs i = .enc (.done (.config r)) := by
  rw [← Pool.moment_length]
  rcases count_stepsAt P masterKey es hcall es.length with hdone | ⟨pc, _, hcount⟩
  · exact hdone
  · have hbehind : behind pc ≤ 3 := by cases pc <;> simp [behind]
    unfold retries ownSteps at h
    omega

end

/-! ## Who interferes -/

/-- Every row of `t` that is still there is as it was. -/
def Stays (t t' : Configs) : Prop := ∀ r ∈ t.rows, ∀ r' ∈ t'.rows, r'.id = r.id → r' = r

section
variable {P : Primitives} {masterKey : Bytes} {t : Configs} {env : Env}

theorem Stays.refl (t : Configs) : Stays t t := fun _ hr _ hr' hid => t.key_inj hr' hr hid

theorem stays_insert {a : Row} (h : t.last < a.id) : Stays t (t.insert a) := by
  intro r hr r' hr' hid
  rcases (AutoTable.mem_insert h).mp hr' with hold | rfl
  · exact t.key_inj hold hr hid
  · exact absurd (t.bounded r hr) (not_le_of_gt (hid ▸ h))

theorem stays_delete {userID configID : Int64} {t' : Configs}
    (h : Sqlite.deleteConfig t userID configID = .ok t') : Stays t t' := by
  rw [deleteConfig_ok h]
  intro r hr r' hr' hid
  exact t.key_inj (AutoTable.mem_delete.mp hr').1 hr hid

theorem stays_create {userID : Int64} {now now' : Int}
    {build : Option CreateConfigInputBuilder} {cfg : Config} {t' : Configs}
    (h : createConfigWithID t now now' userID build = .ok (cfg, t')) : Stays t t' := by
  obtain ⟨_, _, hlt, _, _, _, _, rfl⟩ := createConfigWithID_ok h
  exact stays_insert hlt

/-- A step leaves the rows that stay, unless it is the commit of an `UpdateConfig`. -/
theorem client_step_cases (P : Primitives) (masterKey : Bytes) (env : Env) (t : Configs)
    (c : Client) :
    (∃ userID configID inner, c.updating P masterKey env = some (userID, configID, inner) ∧
      updateConfigTx t env.now userID configID inner = .ok (c.step P masterKey env t).1) ∨
    Stays t (c.step P masterKey env t).1 := by
  cases c with
  | raw call =>
    cases call with
    | createConfig userID inp =>
      right
      simp only [Client.step, Sqlite.Session.step]
      split
      · exact .refl t
      · rename_i hins
        obtain ⟨r, hlt, rfl, _⟩ := createConfigInsert_ok hins
        exact stays_insert hlt
    | createConfigWithID userID build =>
      right
      simp only [Client.step, Sqlite.Session.step]
      split
      · exact .refl t
      · exact stays_create ‹_›
    | updateConfig userID configID patch =>
      cases htx : updateConfigTx t env.now userID configID patch with
      | error e => exact .inr (by simpa [Client.step, Sqlite.Session.step, htx] using .refl t)
      | ok t' => exact .inl ⟨_, _, _, rfl, by simp [Client.step, Sqlite.Session.step, htx]⟩
    | deleteConfig userID configID =>
      right
      simp only [Client.step, Sqlite.Session.step]
      split
      · exact .refl t
      · exact stays_delete ‹_›
    | getConfig | listConfigsByUser | countConfigsByUser | done => exact .inr (.refl t)
  | enc call =>
    cases call with
    | create userID inp =>
      right
      simp only [Client.step, Encrypted.Session.step]
      split
      · exact .refl t
      · rename_i hcreate
        obtain ⟨_, hrow, _⟩ := createConfigPlaintext_ok hcreate
        exact stays_create hrow
    | update userID configID patch pc =>
      cases pc with
      | writing current =>
        simp only [Client.step, Encrypted.Session.step, updateStep, Client.updating]
        cases innerPatch P masterKey env.nonce userID configID patch current with
        | error e => exact .inr (.refl t)
        | ok inner =>
          simp only
          cases htx : updateConfigTx t env.now userID configID inner with
          | error e => exact .inr (.refl t)
          | ok t' => exact .inl ⟨_, _, _, rfl, htx⟩
      | reading | reloading | returning =>
        right
        simp only [Client.step, Encrypted.Session.step]
        rw [updateStep_fst_of_not_writing (by simp)]
        exact .refl t
    | delete userID configID =>
      right
      simp only [Client.step, Encrypted.Session.step]
      split
      · exact .refl t
      · exact stays_delete ‹_›
    | get | list | count | done => exact .inr (.refl t)

variable {ι : Type} [DecidableEq ι] {s : Pool Configs ι Client} {es : List (ι × Env)} {i : ι}
variable {userID configID : Int64} {n : ℕ}

theorem advances_iff {t t' : Configs} : advances userID configID t t' = true ↔
    ∃ old new, stamp userID configID t = some old ∧ stamp userID configID t' = some new ∧
      old < new := by
  unfold advances
  split
  · rename_i old new hold hnew
    simp [hold, hnew]
  · rename_i hno
    refine iff_of_false Bool.false_ne_true ?_
    rintro ⟨old, new, hold, hnew, _⟩
    exact hno old new hold hnew

/-- A stamp that another call moves on is one it writes: it commits an `UpdateConfig` of
that row which does not preserve it. -/
theorem advancedAt_inv (h : advancedAt P masterKey s es i userID configID n = true) :
    ∃ j env inner, j ≠ i ∧ es[n]? = some (j, env) ∧
      ((Pool.moment (Client.step P masterKey) s es n).procs j).updating P masterKey env =
        some (userID, configID, inner) ∧
      inner.preserveModifiedAt = false ∧
      updateConfigTx (Pool.moment (Client.step P masterKey) s es n).shared env.now userID configID
        inner = .ok (Pool.moment (Client.step P masterKey) s es (n + 1)).shared := by
  obtain ⟨hother, hadv⟩ := (Bool.and_eq_true _ _).mp h
  obtain ⟨old, new, hold, hnew, hlt⟩ := advances_iff.mp hadv
  cases hev : es[n]? with
  | none =>
    rw [Pool.moment_succ_of_end hev, hold] at hnew
    exact absurd hlt (Option.some.inj hnew ▸ lt_irrefl _)
  | some ev =>
    obtain ⟨j, env⟩ := ev
    have hj : j ≠ i := by
      intro heq
      simp [Pool.stepsAt, hev, heq] at hother
    obtain ⟨r, hr, hparse⟩ := stamp_eq_some.mp hold
    obtain ⟨r', hr', hparse'⟩ := stamp_eq_some.mp hnew
    obtain ⟨hmem, hid, hu⟩ := find_owned.mp hr
    obtain ⟨hmem', hid', hu'⟩ := find_owned.mp hr'
    -- the row is another one now, so something was written to it
    have hmoved : r'.modifiedAt ≠ r.modifiedAt := by
      intro heq
      rw [heq, hparse] at hparse'
      exact absurd hlt (Option.some.inj hparse' ▸ lt_irrefl _)
    rw [Pool.moment_succ hev] at hmem' ⊢
    rcases client_step_cases P masterKey env (Pool.moment (Client.step P masterKey) s es n).shared
      ((Pool.moment (Client.step P masterKey) s es n).procs j) with ⟨u, c, inner, hup, htx⟩ | hstays
    · rcases updateConfigTx_same_id htx hmem hmem' (hid'.trans hid.symm) with
        rfl | ⟨m, hc, huser, _, _, hpatched⟩
      · exact absurd rfl hmoved
      · obtain rfl : c = configID := hc.symm.trans hid
        obtain rfl : u = userID := huser.symm.trans hu
        refine ⟨j, env, inner, hj, rfl, hup, ?_, htx⟩
        by_contra hp
        rw [Bool.not_eq_false] at hp
        simp [hpatched, patchedRow, hp] at hmoved
    · rw [hstays r hmem r' hmem' (hid'.trans hid.symm)] at hmoved
      exact absurd rfl hmoved

end

/-! ## The bound -/

/-- The first events of an endless schedule. -/
def firsts {ι : Type} (schedule : ℕ → ι × Env) (N : ℕ) : List (ι × Env) :=
  (List.range N).map schedule

section
variable {ι : Type} [DecidableEq ι]

theorem ownSteps_firsts (schedule : ℕ → ι × Env) (i : ι) (N : ℕ) :
    ownSteps (firsts schedule N) i = Nat.count (fun n => (schedule n).1 = i) N := by
  have hlen : (firsts schedule N).length = N := by simp [firsts]
  rw [ownSteps, hlen, Nat.count_eq_card_filter_range, Nat.count_eq_card_filter_range]
  refine congrArg Finset.card (Finset.filter_congr fun n hn => ?_)
  simp [Pool.stepsAt, firsts, Finset.mem_range.mp hn]

/-- What bounds the rounds of the update a client is about to make. -/
structure RetriesBounded (P : Primitives) (masterKey : Bytes) (s : Pool Configs ι Client) (i : ι)
    (userID configID : Int64) : Prop where
  /-- No more further rounds than interferences. -/
  bound : ∀ es, retries P masterKey s es i ≤ interferences P masterKey s es i userID configID
  /-- An interference is another call's commit to this very row that sets `modified_at`. -/
  culprit : ∀ es n, interferesAt P masterKey s es i userID configID n = true →
    ∃ j env inner, j ≠ i ∧ es[n]? = some (j, env) ∧
      ((Pool.moment (Client.step P masterKey) s es n).procs j).updating P masterKey env =
        some (userID, configID, inner) ∧
      inner.preserveModifiedAt = false ∧
      updateConfigTx (Pool.moment (Client.step P masterKey) s es n).shared env.now userID configID
        inner = .ok (Pool.moment (Client.step P masterKey) s es (n + 1)).shared
  /-- The call returns within two steps for each interference and four more. -/
  returns : ∀ es, 2 * interferences P masterKey s es i userID configID + 4 ≤ ownSteps es i →
    ∃ r, (Pool.run (Client.step P masterKey) s es).procs i = .enc (.done (.config r))
  /-- In an endless schedule that keeps the call moving, finitely many interferences let
  it return. -/
  ends : ∀ schedule : ℕ → ι × Env,
    {n | ∃ N, interferesAt P masterKey s (firsts schedule N) i userID configID n = true}.Finite →
    {n | (schedule n).1 = i}.Infinite →
    ∃ N r, (Pool.run (Client.step P masterKey) s (firsts schedule N)).procs i =
      .enc (.done (.config r))
  /-- The caller does not see the error of a lost race. -/
  hidden : ∀ es e, (Pool.run (Client.step P masterKey) s es).procs i =
    .enc (.done (.config (.error e))) → e.is .configChanged = false

theorem retries_bounded {P : Primitives} {masterKey : Bytes} {s : Pool Configs ι Client} {i : ι}
    {userID configID : Int64} {patch : UpdateConfigPlaintextPatch}
    (hcall : s.procs i = .enc (.update userID configID patch .reading)) :
    RetriesBounded P masterKey s i userID configID := by
  have hreturns : ∀ es, 2 * interferences P masterKey s es i userID configID + 4 ≤ ownSteps es i →
      ∃ r, (Pool.run (Client.step P masterKey) s es).procs i = .enc (.done (.config r)) := by
    intro es hsteps
    have hbound : retries P masterKey s es i ≤ interferences P masterKey s es i userID configID :=
      retries_le hcall
    exact done_of_ownSteps hcall (by omega)
  refine ⟨fun es => retries_le hcall, ?_, hreturns, ?_, ?_⟩
  · intro es n hn
    simp only [interferesAt, Bool.and_eq_true] at hn
    exact advancedAt_inv hn.1.1
  · intro schedule hfew hoften
    let N := Nat.nth (fun n => (schedule n).1 = i) (2 * hfew.toFinset.card + 4)
    have hfewer : interferences P masterKey s (firsts schedule N) i userID configID ≤
        hfew.toFinset.card := by
      rw [interferences, Nat.count_eq_card_filter_range]
      refine Finset.card_le_card fun n hn => hfew.mem_toFinset.mpr ?_
      exact ⟨N, (Finset.mem_filter.mp hn).2⟩
    have hsteps : ownSteps (firsts schedule N) i = 2 * hfew.toFinset.card + 4 := by
      rw [ownSteps_firsts]
      exact Nat.count_nth_of_infinite hoften _
    exact ⟨N, hreturns _ (by omega)⟩
  · intro es e he
    rcases moment_inCall hcall P masterKey es es.length with ⟨pc, hpc⟩ | ⟨r, hr, hno⟩
    · rw [Pool.moment_length, he] at hpc
      cases hpc
    · rw [Pool.moment_length, he] at hr
      cases hr
      exact hno e rfl

end

/-! ## A rename in between

The client repeats the name of the row it read; before it writes, another renames the row. -/

def race : List (Fin 3 × Env) :=
  Pool.schedule [(1, envAt 1), (2, envAt 5), (1, envAt 6), (1, envAt 7), (1, envAt 8)]

theorem retries_bounded_race :
    retries transparent renameKey created race 1 = 1 ∧
    interferences transparent renameKey created race 1 1 1 = 1 ∧
    RetriesBounded transparent renameKey created 1 1 1 :=
  ⟨by decide +kernel, by decide +kernel, retries_bounded rfl⟩

end TabbySync.BoundedRetries
