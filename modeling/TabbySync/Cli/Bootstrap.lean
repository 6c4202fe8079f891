import TabbySync.Cli.Loadability
import TabbySync.Library.Interleaving

/-! # First boot of a container

`docker-entrypoint.sh serve` runs `tabby-sync bootstrap` if there is no users file yet,
under a lock that is a directory. Any number of boots share one volume; each boot, with
its bootstrap child, may be killed at any step, and each of its commands may fail. A
killed boot leaves the lock directory behind. An operator may remove it, while no boot is
running, and may delete token.txt at any time.

`writeFileAtomic` is two steps: the temporary file, which no other process knows and
which is therefore part of the child's own state, and the rename. -/

namespace TabbySync.Bootstrap
open TabbySync.Library TabbySync.Library.Text TabbySync.Auth TabbySync.Cli

/-- What the boots see of the data volume. `tokenDeleted` records that token.txt is
missing because the operator deleted it. -/
structure Volume where
  lock : Bool
  users : Option UsersFile
  token : Option String
  tokenDeleted : Bool

/-- `tabby-sync bootstrap`, by its next step. -/
inductive Child
  | start
  | stat (name : String)
  | prepareToken (name : String)
  | renameToken (name : String) (token : Token)
  | prepareUsers (name : String) (token : Token)
  | renameUsers (name : String) (token : Token)
  | removeToken
  deriving DecidableEq

/-- The entrypoint, by its next step. -/
inductive Boot
  | check
  | makeDirs
  | lock
  | recheck
  | bootstrap (c : Child)
  | announce
  /-- `rmdir` of the lock, in sequence or from the EXIT trap after an error. -/
  | unlock (ok : Bool)
  | wait (i : Nat)
  | waited
  | serve
  | exited
  | killed
  deriving DecidableEq

inductive Actor
  /-- A boot with its `TABBY_SYNC_USER_NAME`. -/
  | boot (userName : String) (b : Boot)
  | operator
  deriving DecidableEq

inductive OperatorAction
  | removeLock
  | deleteToken
  deriving DecidableEq

/-- What the environment hands a step. -/
structure Turn where
  /-- The boot is killed instead. -/
  kill : Bool
  /-- The command or system call fails. -/
  fails : Bool
  random : Vector UInt8 32
  action : OperatorAction

/-- The entry `bootstrap` writes. -/
def firstEntry (name : String) (token : Token) : UserEntry where
  id := 1
  name := name
  tokenPrefix := token.shown
  tokenHash := token.hash
  disabled := false

/-- How the child stands after a step: still running, or ended with an exit code. -/
abbrev ChildResult := Child ⊕ Nat

/-- One step of `runBootstrap`. The entrypoint passes one argument and has checked that
the variables for the two paths are set. -/
def runBootstrap (P : Platform) (turn : Turn) (userName : String) (v : Volume) :
    Child → Volume × ChildResult
  | .start =>
    let name := trimSpace userName
    if name = "" then (v, .inr 2)
    -- the two calls of MkdirAll
    else if turn.fails then (v, .inr 1)
    else (v, .inl (.stat name))
  | .stat name =>
    if turn.fails then (v, .inr 1)
    else match v.users with
      | some _ => (v, .inr 0)
      | none => (v, .inl (.prepareToken name))
  | .prepareToken name =>
    if turn.fails then (v, .inr 1)
    else (v, .inl (.renameToken name (generateToken P turn.random)))
  | .renameToken name token =>
    if turn.fails then (v, .inr 1)
    else ({ v with token := some (token.plaintext ++ "\n"), tokenDeleted := false },
      .inl (.prepareUsers name token))
  | .prepareUsers name token =>
    if turn.fails then (v, .inl .removeToken) else (v, .inl (.renameUsers name token))
  | .renameUsers name token =>
    if turn.fails then (v, .inl .removeToken)
    else ({ v with users := some (.ofEntries [firstEntry name token]) }, .inr 0)
  | .removeToken =>
    -- the error of os.Remove is ignored
    if turn.fails then (v, .inr 1) else ({ v with token := none }, .inr 1)

/-- The shell takes up where its child ended; with `set -e` an exit code other than 0 ends
it, by way of the trap. -/
def Boot.ofChild : ChildResult → Boot
  | .inl c => .bootstrap c
  | .inr 0 => .announce
  | .inr _ => .unlock false

def bootStep (P : Platform) (turn : Turn) (userName : String) (v : Volume) : Boot → Volume × Boot
  | .check => (v, if v.users.isNone then .makeDirs else .serve)
  | .makeDirs => (v, if turn.fails then .exited else .lock)
  | .lock =>
    if turn.fails || v.lock then (v, .wait 0) else ({ v with lock := true }, .recheck)
  | .recheck => (v, if v.users.isNone then .bootstrap .start else .unlock true)
  | .bootstrap c =>
    let (v', r) := runBootstrap P turn userName v c
    (v', .ofChild r)
  | .announce => (v, .unlock (!turn.fails))
  | .unlock ok =>
    -- the error of rmdir is ignored
    (if turn.fails then v else { v with lock := false }, if ok then .serve else .exited)
  | .wait i => (v, if v.users.isNone && decide (i < 50) then .wait (i + 1) else .waited)
  | .waited => (v, if v.users.isNone then .exited else .serve)
  | .serve => (v, .serve)
  | .exited => (v, .exited)
  | .killed => (v, .killed)

def operatorStep (v : Volume) : OperatorAction → Volume
  | .removeLock => { v with lock := false }
  | .deleteToken =>
    match v.token with
    | none => v
    | some _ => { v with token := none, tokenDeleted := true }

def step (P : Platform) (turn : Turn) (v : Volume) : Actor → Volume × Actor
  | .operator => (operatorStep v turn.action, .operator)
  | .boot userName b =>
    if turn.kill then (v, .boot userName .killed)
    else
      let (v', b') := bootStep P turn userName v b
      (v', .boot userName b')

/-- The boot has started and has neither ended nor become the server. -/
def Actor.running : Actor → Bool
  | .operator => false
  | .boot _ .check | .boot _ .serve | .boot _ .exited | .boot _ .killed => false
  | .boot _ _ => true

/-- The boot is between `mkdir` and `rmdir` of the lock. -/
def Actor.holds : Actor → Bool
  | .boot _ .recheck | .boot _ (.bootstrap _) | .boot _ .announce | .boot _ (.unlock _) => true
  | _ => false

/-- The operator removes the lock only while no boot is running. -/
def OperatorWaits {ι : Type} (s : Pool Volume ι Actor) (ev : ι × Turn) : Prop :=
  s.procs ev.1 = .operator → ev.2.action = .removeLock → ∀ i, (s.procs i).running = false

instance {ι : Type} [Fintype ι] (s : Pool Volume ι Actor) (ev : ι × Turn) :
    Decidable (OperatorWaits s ev) := by
  unfold OperatorWaits
  infer_instance

/-! ## What one step can do -/

section
variable {P : Platform}

/-- token.txt holds the token, or the operator has deleted it. -/
def Volume.HasToken (v : Volume) (token : Token) : Prop :=
  v.token = some (token.plaintext ++ "\n") ∨ v.token = none ∧ v.tokenDeleted = true

/-- A name that `bootstrap` accepts. -/
def NameOk (name : String) : Prop := trimSpace name = name ∧ name ≠ ""

/-- The users file, with token.txt, as `bootstrap` leaves them. -/
def Volume.Issued (P : Platform) (v : Volume) (file : UsersFile) : Prop :=
  ∃ name random, NameOk name ∧ file = .ofEntries [firstEntry name (generateToken P random)] ∧
    v.HasToken (generateToken P random)

/-- A child against the volume: past its look at the users file there is none, and what it
is about to record there is the token in token.txt. -/
def Child.Follows (P : Platform) (v : Volume) : Child → Prop
  | .start => True
  | .stat name => NameOk name
  | .prepareToken name => NameOk name ∧ v.users = none
  | .renameToken name token => NameOk name ∧ v.users = none ∧ ∃ random, token = generateToken P random
  | .prepareUsers name token | .renameUsers name token =>
    NameOk name ∧ v.users = none ∧ (∃ random, token = generateToken P random) ∧ v.HasToken token
  | .removeToken => v.users = none

def Actor.Follows (P : Platform) (v : Volume) : Actor → Prop
  | .boot _ (.bootstrap c) => c.Follows P v
  | _ => True

/-- How a step leaves the two files: it does not touch them, the operator deletes the
token, or a boot under the lock writes or removes one of them where there is no users
file. -/
inductive Touches (P : Platform) (v : Volume) (a : Actor) : Volume → Prop
  | neither {v' : Volume} (hu : v'.users = v.users) (ht : v'.token = v.token)
      (hd : v'.tokenDeleted = v.tokenDeleted) : Touches P v a v'
  | deleted {v' : Volume} (ha : a = .operator) (hu : v'.users = v.users) (ht : v'.token = none)
      (hd : v'.tokenDeleted = true) : Touches P v a v'
  | token {v' : Volume} (ha : a.holds = true) (hnone : v.users = none) (hu : v'.users = none) :
      Touches P v a v'
  | users {v' : Volume} {file : UsersFile} (ha : a.holds = true) (hnone : v.users = none)
      (hu : v'.users = some file) (hissued : v'.Issued P file) : Touches P v a v'

theorem runBootstrap_follows (turn : Turn) (userName : String) {v : Volume} {c : Child}
    (h : c.Follows P v) :
    Touches P v (.boot userName (.bootstrap c)) (runBootstrap P turn userName v c).1 ∧
      (runBootstrap P turn userName v c).1.lock = v.lock ∧
      ∀ c', (runBootstrap P turn userName v c).2 = .inl c' →
        c'.Follows P (runBootstrap P turn userName v c).1 := by
  cases c with
  | start =>
    simp only [runBootstrap]
    split
    · exact ⟨.neither rfl rfl rfl, rfl, fun c' hc => by cases hc⟩
    · rename_i hname
      split
      · exact ⟨.neither rfl rfl rfl, rfl, fun c' hc => by cases hc⟩
      · refine ⟨.neither rfl rfl rfl, rfl, fun c' hc => ?_⟩
        cases hc
        exact ⟨trimSpace_trimSpace userName, hname⟩
  | stat name =>
    simp only [runBootstrap]
    split
    · exact ⟨.neither rfl rfl rfl, rfl, fun c' hc => by cases hc⟩
    · split
      · exact ⟨.neither rfl rfl rfl, rfl, fun c' hc => by cases hc⟩
      · rename_i hnone
        refine ⟨.neither rfl rfl rfl, rfl, fun c' hc => ?_⟩
        cases hc
        exact ⟨h, hnone⟩
  | prepareToken name =>
    simp only [runBootstrap]
    split
    · exact ⟨.neither rfl rfl rfl, rfl, fun c' hc => by cases hc⟩
    · refine ⟨.neither rfl rfl rfl, rfl, fun c' hc => ?_⟩
      cases hc
      exact ⟨h.1, h.2, turn.random, rfl⟩
  | renameToken name token =>
    obtain ⟨hname, hnone, hgen⟩ := h
    simp only [runBootstrap]
    split
    · exact ⟨.neither rfl rfl rfl, rfl, fun c' hc => by cases hc⟩
    · refine ⟨.token rfl hnone hnone, rfl, fun c' hc => ?_⟩
      cases hc
      exact ⟨hname, hnone, hgen, .inl rfl⟩
  | prepareUsers name token =>
    simp only [runBootstrap]
    split
    · refine ⟨.neither rfl rfl rfl, rfl, fun c' hc => ?_⟩
      cases hc
      exact h.2.1
    · refine ⟨.neither rfl rfl rfl, rfl, fun c' hc => ?_⟩
      cases hc
      exact h
  | renameUsers name token =>
    obtain ⟨hname, hnone, ⟨random, rfl⟩, htoken⟩ := h
    simp only [runBootstrap]
    split
    · refine ⟨.neither rfl rfl rfl, rfl, fun c' hc => ?_⟩
      cases hc
      exact hnone
    · refine ⟨.users rfl hnone rfl ⟨name, random, hname, rfl, htoken⟩, rfl, fun c' hc => ?_⟩
      cases hc
  | removeToken =>
    simp only [runBootstrap]
    split
    · exact ⟨.neither rfl rfl rfl, rfl, fun c' hc => by cases hc⟩
    · exact ⟨.token rfl h h, rfl, fun c' hc => by cases hc⟩

theorem follows_of_not_holds {a : Actor} (h : a.holds = false) (v : Volume) : a.Follows P v := by
  cases a with
  | operator => trivial
  | boot userName b =>
    cases b with
    | bootstrap c => cases h
    | _ => trivial

theorem ofChild_follows {v : Volume} {r : ChildResult} {userName : String}
    (h : ∀ c, r = .inl c → c.Follows P v) :
    (Actor.boot userName (.ofChild r)).Follows P v := by
  cases r with
  | inl c => exact h c rfl
  | inr code =>
    cases code with
    | zero => trivial
    | succ n => trivial

theorem ofChild_holds (userName : String) (r : ChildResult) :
    (Actor.boot userName (.ofChild r)).holds = true := by
  cases r with
  | inl c => rfl
  | inr code =>
    cases code with
    | zero => rfl
    | succ n => rfl

theorem bootStep_follows (turn : Turn) {userName : String} {v : Volume} {b : Boot}
    (h : (Actor.boot userName b).Follows P v) :
    Touches P v (.boot userName b) (bootStep P turn userName v b).1 ∧
      (Actor.boot userName (bootStep P turn userName v b).2).Follows P
        (bootStep P turn userName v b).1 ∧
      Pool.LockMove v.lock (Actor.boot userName b).holds (bootStep P turn userName v b).1.lock
        (Actor.boot userName (bootStep P turn userName v b).2).holds := by
  cases b with
  | check =>
    simp only [bootStep]
    split
    · exact ⟨.neither rfl rfl rfl, trivial, .keeps rfl rfl⟩
    · exact ⟨.neither rfl rfl rfl, trivial, .keeps rfl rfl⟩
  | makeDirs =>
    simp only [bootStep]
    split
    · exact ⟨.neither rfl rfl rfl, trivial, .keeps rfl rfl⟩
    · exact ⟨.neither rfl rfl rfl, trivial, .keeps rfl rfl⟩
  | lock =>
    simp only [bootStep]
    split
    · exact ⟨.neither rfl rfl rfl, trivial, .keeps rfl rfl⟩
    · rename_i hfree
      have hlock : v.lock = false := by
        simp only [Bool.or_eq_true, not_or, Bool.not_eq_true] at hfree
        exact hfree.2
      exact ⟨.neither rfl rfl rfl, trivial, .takes hlock rfl⟩
  | recheck =>
    simp only [bootStep]
    split
    · exact ⟨.neither rfl rfl rfl, trivial, .keeps rfl rfl⟩
    · exact ⟨.neither rfl rfl rfl, trivial, .keeps rfl rfl⟩
  | bootstrap c =>
    obtain ⟨htouch, hlock, hnext⟩ := runBootstrap_follows turn userName h
    exact ⟨htouch, ofChild_follows hnext, .keeps hlock (ofChild_holds userName _)⟩
  | announce => exact ⟨.neither rfl rfl rfl, trivial, .keeps rfl rfl⟩
  | unlock ok =>
    have hout : ∀ ok : Bool, (Actor.boot userName (if ok then .serve else .exited)).holds = false ∧
        ∀ v, (Actor.boot userName (if ok then .serve else .exited)).Follows P v := by
      intro ok
      cases ok with
      | true => exact ⟨rfl, fun _ => trivial⟩
      | false => exact ⟨rfl, fun _ => trivial⟩
    refine ⟨?_, (hout ok).2 _, .gives rfl (hout ok).1⟩
    simp only [bootStep]
    split
    · exact .neither rfl rfl rfl
    · exact .neither rfl rfl rfl
  | wait i =>
    simp only [bootStep]
    split
    · exact ⟨.neither rfl rfl rfl, trivial, .keeps rfl rfl⟩
    · exact ⟨.neither rfl rfl rfl, trivial, .keeps rfl rfl⟩
  | waited =>
    simp only [bootStep]
    split
    · exact ⟨.neither rfl rfl rfl, trivial, .keeps rfl rfl⟩
    · exact ⟨.neither rfl rfl rfl, trivial, .keeps rfl rfl⟩
  | serve | exited | killed => exact ⟨.neither rfl rfl rfl, trivial, .keeps rfl rfl⟩

theorem operatorStep_touches (v : Volume) (action : OperatorAction) :
    Touches P v .operator (operatorStep v action) := by
  cases action with
  | removeLock => exact .neither rfl rfl rfl
  | deleteToken =>
    simp only [operatorStep]
    split
    · exact .neither rfl rfl rfl
    · exact .deleted rfl rfl rfl rfl

/-- A step of any actor, for the files and for its own next step. -/
theorem step_follows (turn : Turn) {v : Volume} {a : Actor} (h : a.Follows P v) :
    Touches P v a (step P turn v a).1 ∧ (step P turn v a).2.Follows P (step P turn v a).1 := by
  cases a with
  | operator => exact ⟨operatorStep_touches v turn.action, trivial⟩
  | boot userName b =>
    simp only [step]
    split
    · exact ⟨.neither rfl rfl rfl, trivial⟩
    · obtain ⟨htouch, hnext, _⟩ := bootStep_follows turn h
      exact ⟨htouch, hnext⟩

/-- A step of any actor, for the lock, but for an operator who removes it. -/
theorem step_lockMove {turn : Turn} {v : Volume} {a : Actor} (h : a.Follows P v)
    (hop : a = .operator → turn.action ≠ .removeLock) :
    Pool.LockMove v.lock a.holds (step P turn v a).1.lock (step P turn v a).2.holds := by
  cases a with
  | operator =>
    refine .keeps ?_ rfl
    simp only [step, operatorStep]
    split
    · exact absurd ‹_› (hop rfl)
    · split
      · rfl
      · rfl
  | boot userName b =>
    simp only [step]
    split
    · -- killed: the lock stays as it is
      cases hheld : (Actor.boot userName b).holds with
      | true => exact .gives rfl rfl
      | false => exact .keeps rfl rfl
    · exact (bootStep_follows turn h).2.2

theorem Touches.hasToken {v v' : Volume} {a : Actor} (h : Touches P v a v')
    (hkeeps : a.holds = false ∨ v.users ≠ none) {token : Token} (ht : v.HasToken token) :
    v'.users = v.users ∧ v'.HasToken token := by
  cases h with
  | neither hu htok hd =>
    refine ⟨hu, ?_⟩
    unfold Volume.HasToken
    rw [htok, hd]
    exact ht
  | deleted _ hu htok hd => exact ⟨hu, .inr ⟨htok, hd⟩⟩
  | token hheld hnone _ | users hheld hnone _ _ =>
    rcases hkeeps with hout | hsome
    · rw [hheld] at hout
      cases hout
    · exact absurd hnone hsome

theorem Touches.issued {v v' : Volume} {a : Actor} (h : Touches P v a v')
    (hv : ∀ file, v.users = some file → v.Issued P file) :
    ∀ file, v'.users = some file → v'.Issued P file := by
  intro file hfile
  cases hold : v.users with
  | some old =>
    -- from here on only the operator touches the token
    obtain ⟨name, random, hname, hold', htoken⟩ := hv old hold
    obtain ⟨hu, htoken'⟩ := h.hasToken (.inr (by simp [hold])) htoken
    rw [hu, hold] at hfile
    cases hfile
    exact ⟨name, random, hname, hold', htoken'⟩
  | none =>
    cases h with
    | neither hu _ _ | deleted _ hu _ _ =>
      rw [hu, hold] at hfile
      cases hfile
    | token _ _ hu =>
      rw [hu] at hfile
      cases hfile
    | users _ _ hu hissued =>
      rw [hu] at hfile
      cases hfile
      exact hissued

/-- What an actor relies on survives the steps of those who do not hold the lock. -/
theorem Touches.follows {v v' : Volume} {a b : Actor} (h : Touches P v a v')
    (ha : a.holds = false) (hb : b.Follows P v) : b.Follows P v' := by
  have hu : v'.users = v.users := by
    cases h with
    | neither hu _ _ | deleted _ hu _ _ => exact hu
    | token hheld _ _ | users hheld _ _ _ =>
      rw [hheld] at ha
      cases ha
  cases b with
  | operator => trivial
  | boot userName b =>
    cases b with
    | bootstrap c =>
      cases c with
      | start => trivial
      | stat name => exact hb
      | prepareToken name => exact ⟨hb.1, hu.trans hb.2⟩
      | renameToken name token => exact ⟨hb.1, hu.trans hb.2.1, hb.2.2⟩
      | prepareUsers name token =>
        exact ⟨hb.1, hu.trans hb.2.1, hb.2.2.1, (h.hasToken (.inl ha) hb.2.2.2).2⟩
      | renameUsers name token =>
        exact ⟨hb.1, hu.trans hb.2.1, hb.2.2.1, (h.hasToken (.inl ha) hb.2.2.2).2⟩
      | removeToken => exact hu.trans hb
    | _ => trivial

theorem holds_of_running {a : Actor} (h : a.running = false) : a.holds = false := by
  cases a with
  | operator => rfl
  | boot userName b =>
    cases b with
    | recheck | bootstrap | announce | unlock => cases h
    | _ => rfl

end

/-! ## Whole runs -/

section
variable {P : Platform} {ι : Type} [DecidableEq ι]

/-- One boot at a time is past the lock, and a users file goes with its token. -/
structure Consistent (P : Platform) (s : Pool Volume ι Actor) : Prop where
  exclusive : Pool.Exclusive Actor.holds Volume.lock s
  follows : ∀ i, (s.procs i).Follows P s.shared
  issued : ∀ file, s.shared.users = some file → s.shared.Issued P file

theorem fire_exclusive {s : Pool Volume ι Actor} (h : Consistent P s) {ev : ι × Turn}
    (hop : OperatorWaits s ev) :
    Pool.Exclusive Actor.holds Volume.lock (Pool.fire (step P) s ev) := by
  obtain ⟨k, turn⟩ := ev
  by_cases hremove : s.procs k = .operator ∧ turn.action = .removeLock
  · refine .of_none (Pool.forall_procs_fire (Q := fun _ (p : Actor) => p.holds = false) ?_
      fun i _ => ?_)
    · rw [hremove.1]
      rfl
    · exact holds_of_running (hop hremove.1 hremove.2 i)
  · exact h.exclusive.fire (step_lockMove (h.follows k) fun hk ha => hremove ⟨hk, ha⟩)

theorem fire_consistent {s : Pool Volume ι Actor} {ev : ι × Turn} (h : Consistent P s)
    (hop : OperatorWaits s ev) : Consistent P (Pool.fire (step P) s ev) := by
  have hex := fire_exclusive h hop
  obtain ⟨k, turn⟩ := ev
  obtain ⟨htouch, hnext⟩ := step_follows turn (h.follows k)
  refine ⟨hex, ?_, htouch.issued h.issued⟩
  refine Pool.forall_procs_fire (Q := fun _ (p : Actor) => p.Follows P _) hnext fun i hik => ?_
  cases hheld : (s.procs k).holds with
  | false => exact htouch.follows hheld (h.follows i)
  | true =>
    refine follows_of_not_holds ?_ _
    by_contra hi
    exact hik (h.exclusive.unique i k (by simpa using hi) hheld)

/-- An empty volume, and boots that have not started. -/
structure FirstBoot (s : Pool Volume ι Actor) : Prop where
  volume : s.shared = ⟨false, none, none, false⟩
  actors : ∀ i, s.procs i = .operator ∨ ∃ userName, s.procs i = .boot userName .check

omit [DecidableEq ι] in
theorem FirstBoot.consistent {s : Pool Volume ι Actor} (h : FirstBoot s) : Consistent P s := by
  have hout : ∀ i, (s.procs i).holds = false := by
    intro i
    rcases h.actors i with hi | ⟨userName, hi⟩
    · rw [hi]
      rfl
    · rw [hi]
      rfl
  refine ⟨.of_none hout, fun i => follows_of_not_holds (hout i) _, ?_⟩
  intro file hfile
  rw [h.volume] at hfile
  cases hfile

theorem firstEntry_valid {name : String} (hname : NameOk name) (random : Vector UInt8 32) :
    Valid [firstEntry name (generateToken P random)] := by
  refine ⟨?_, by simp, by simp, by simp⟩
  intro e he
  rw [List.mem_singleton.mp he]
  refine ⟨Int64.le_refl 1, ?_, trimSpace_shown_ne P random, ?_⟩
  · show trimSpace name ≠ ""
    rw [hname.1]
    exact hname.2
  · show hashPattern (normaliseHash (generateToken P random).hash) = true
    rw [normaliseHash_generateToken]
    exact hashPattern_hexEncode _

/-- The server loads the file as one user with id 1, whom the token authenticates. -/
theorem authenticates {name : String} (hname : NameOk name) (random : Vector UInt8 32) :
    ∃ snap u, loadUsersFile (.ofEntries [firstEntry name (generateToken P random)]) = .ok snap ∧
      snap.ordered = [u] ∧ u.id = 1 ∧
      lookup P.sha256 snap (generateToken P random).plaintext.toUTF8.toList = .ok u := by
  obtain ⟨snap, hload⟩ := loads_ofEntries.mpr (firstEntry_valid (P := P) hname random)
  obtain ⟨_, hord⟩ := buildStore_ok_iff.mp hload
  have hhash : (firstEntry name (generateToken P random)).normalised.tokenHash =
      (generateToken P random).hash := normaliseHash_generateToken P random
  have hfind : snap.byHash (generateToken P random).hash =
      some (firstEntry name (generateToken P random)).normalised :=
    UserSnapshot.byHash_some.mpr ⟨by rw [hord]; exact List.mem_singleton.mpr rfl, hhash⟩
  refine ⟨snap, (firstEntry name (generateToken P random)).normalised, hload, hord, rfl, ?_⟩
  have hkey : hexEncode (P.sha256 (generateToken P random).plaintext.toUTF8.toList).toList =
      (generateToken P random).hash := rfl
  rw [lookup_eq, hkey, hfind]
  rfl

/-- A boot leaves both files alone. -/
def LeavesFiles (P : Platform) (s : Pool Volume ι Actor) (ev : ι × Turn) : Prop :=
  s.shared.users ≠ none → s.procs ev.1 ≠ .operator →
    (Pool.fire (step P) s ev).shared.users = s.shared.users ∧
    (Pool.fire (step P) s ev).shared.token = s.shared.token

theorem leavesFiles {s : Pool Volume ι Actor} (h : Consistent P s) (ev : ι × Turn) :
    LeavesFiles P s ev := by
  intro hsome hboot
  obtain ⟨htouch, _⟩ := step_follows ev.2 (h.follows ev.1)
  show (step P ev.2 s.shared (s.procs ev.1)).1.users = s.shared.users ∧
    (step P ev.2 s.shared (s.procs ev.1)).1.token = s.shared.token
  cases htouch with
  | neither hu ht _ => exact ⟨hu, ht⟩
  | deleted ha _ _ _ => exact absurd ha hboot
  | token _ hnone _ | users _ hnone _ _ => exact absurd hnone hsome

/-- Any number of boots on an empty volume, killed or failing anywhere: where there is a
users file it has one user, with id 1, and token.txt is that user's token unless the
operator deleted it; and with a users file there no boot changes either. -/
theorem bootstrap_consistent {s : Pool Volume ι Actor} (h : FirstBoot s) {es : List (ι × Turn)}
    (hop : Pool.Along (step P) OperatorWaits s es) :
    Pool.Along (step P) (LeavesFiles P) s es ∧
    ∀ file, (Pool.run (step P) s es).shared.users = some file →
      ∃ snap u token, loadUsersFile file = .ok snap ∧ snap.ordered = [u] ∧ u.id = 1 ∧
        lookup P.sha256 snap token.toUTF8.toList = .ok u ∧
        ((Pool.run (step P) s es).shared.token = some (token ++ "\n") ∨
          (Pool.run (step P) s es).shared.token = none ∧
            (Pool.run (step P) s es).shared.tokenDeleted = true) := by
  constructor
  · exact Pool.along_imp (I := Consistent P) (fun _ ev hs _ => leavesFiles hs ev)
      (fun _ _ hs hw => fire_consistent hs hw) h.consistent hop
  · intro file hfile
    have hend : Consistent P (Pool.run (step P) s es) :=
      Pool.run_invariant_along (fun _ _ hs hw => fire_consistent hs hw) h.consistent hop
    obtain ⟨name, random, hname, rfl, htoken⟩ := hend.issued file hfile
    obtain ⟨snap, u, hload, hord, hid, hlookup⟩ := authenticates (P := P) hname random
    exact ⟨snap, u, _, hload, hord, hid, hlookup, htoken⟩

end

/-! ## A killed boot and its successor -/

/-- Two boots and the operator. -/
def container : Pool Volume (Fin 3) Actor where
  shared := ⟨false, none, none, false⟩
  procs
    | 0 => .boot "alice" .check
    | 1 => .boot "bob" .check
    | 2 => .operator

theorem container_firstBoot : FirstBoot container where
  volume := rfl
  actors := by
    intro i
    match i with
    | 0 => exact .inr ⟨"alice", rfl⟩
    | 1 => exact .inr ⟨"bob", rfl⟩
    | 2 => exact .inl rfl

/-- An undisturbed step, with the random bytes it would use. -/
def turn (byte : UInt8) : Turn := ⟨false, false, Vector.replicate 32 byte, .removeLock⟩

/-- The first boot is killed when it has written token.txt and not yet the users file; the
operator removes the lock it left, and the second boot goes through. -/
def succession : List (Fin 3 × Turn) :=
  List.replicate 8 (0, turn 7) ++ [(0, { turn 7 with kill := true }), (2, turn 0)] ++
    List.replicate 12 (1, turn 9)

theorem bootstrap_consistent_succession :
    Pool.Along (step asciiPlatform) (LeavesFiles asciiPlatform) container succession ∧
    ∀ file, (Pool.run (step asciiPlatform) container succession).shared.users = some file →
      ∃ snap u token, loadUsersFile file = .ok snap ∧ snap.ordered = [u] ∧ u.id = 1 ∧
        lookup asciiPlatform.sha256 snap token.toUTF8.toList = .ok u ∧
        ((Pool.run (step asciiPlatform) container succession).shared.token = some (token ++ "\n") ∨
          (Pool.run (step asciiPlatform) container succession).shared.token = none ∧
            (Pool.run (step asciiPlatform) container succession).shared.tokenDeleted = true) :=
  bootstrap_consistent container_firstBoot (by decide +kernel)

example : (Pool.run (step asciiPlatform) container (succession.take 9)).shared.token =
      some ((generateToken asciiPlatform (Vector.replicate 32 7)).plaintext ++ "\n") ∧
    (Pool.run (step asciiPlatform) container (succession.take 9)).shared.users.isNone = true ∧
    (Pool.run (step asciiPlatform) container succession).shared.token =
      some ((generateToken asciiPlatform (Vector.replicate 32 9)).plaintext ++ "\n") ∧
    (Pool.run (step asciiPlatform) container succession).shared.users.isSome = true := by
  decide +kernel

end TabbySync.Bootstrap
