import TabbySync.Api.Handlers
import TabbySync.Library.Interleaving

/-! # The quota of configs a user may own

`POST /api/1/configs` counts the user's rows and then creates one, in two store calls.
Between the two, other requests of the user may pass their own check, so the count a
request has seen says nothing about the creates already on their way. What keeps the
quota is the sum of the two: rows owned and creates past their check. -/

namespace TabbySync.Api

open Library Auth Crypto
open Sqlite hiding Session Result
open Encrypted hiding Result

/-! ## Requests in flight -/

/-- The states of a request between its steps. -/
inductive InFlight (userID : Int64) : Handler → Prop
  | replied (r : Reply) : InFlight userID (.responded r)
  | list : InFlight userID (.calling userID .listConfigs (.list userID))
  | get (id : Int64) : InFlight userID (.calling userID (.getConfig id) (.get userID id))
  | count (name : String) : InFlight userID (.calling userID (.countConfigs name) (.count userID))
  | create (inp : CreateConfigPlaintextInput) :
      InFlight userID (.calling userID .createConfig (.create userID inp))
  | update (id : Int64) (patch : UpdateConfigPlaintextPatch) (pc : UpdatePc) :
      InFlight userID (.calling userID (.updateConfig id) (.update userID id patch pc))
  | delete (id : Int64) : InFlight userID (.calling userID (.deleteConfig id) (.delete userID id))

/-- Whether a request has passed the quota check of the user and not yet created. -/
def Handler.pending (userID : Int64) : Handler → Nat
  | .calling _ _ (.create v _) => if v = userID then 1 else 0
  | _ => 0

theorem Started.inFlight {userID : Int64} {h : Handler} (hs : Started userID h) :
    InFlight userID h := by
  cases hs with
  | replied r => exact .replied r
  | list => exact .list
  | get id => exact .get id
  | count name _ => exact .count name
  | update id patch => exact .update id patch .reading
  | delete id => exact .delete id

theorem Started.pending {v : Int64} {h : Handler} (hs : Started v h) (userID : Int64) :
    h.pending userID = 0 := by
  cases hs <;> rfl

theorem handle_pending (J : Json) (user : Option User) (req : Request) (userID : Int64) :
    (handle J user req).pending userID = 0 := by
  cases user with
  | none =>
    obtain ⟨r, hr⟩ := handle_no_user J req
    rw [hr]
    rfl
  | some u => exact (handle_started J u req).pending userID

theorem handle_inFlight (J : Json) (user : Option User) (req : Request) :
    ∃ userID, InFlight userID (handle J user req) := by
  cases user with
  | none =>
    obtain ⟨r, hr⟩ := handle_no_user J req
    exact ⟨0, hr ▸ .replied r⟩
  | some u => exact ⟨u.id, (handle_started J u req).inFlight⟩

/-! ## Rows and creates on their way -/

section steps

variable {P : Primitives} {masterKey : Bytes} {userID v configID : Int64} {t t' : Configs}

theorem count_create {now now' : Int} {build : Option CreateConfigInputBuilder} {cfg : Config}
    (h : createConfigWithID t now now' v build = .ok (cfg, t')) (userID : Int64) :
    countConfigsByUser t' userID = countConfigsByUser t userID + if v = userID then 1 else 0 := by
  obtain ⟨_, inp, hlt, -, -, -, -, rfl⟩ := createConfigWithID_ok h
  rw [countConfigsByUser, AutoTable.select_insert (r := builtRow _ v inp now now') hlt,
    List.length_append]
  congr 1
  by_cases hv : v = userID <;> simp [ownedBy, builtRow, hv]

theorem count_update {now : Int} {patch : UpdateConfigPatch}
    (h : updateConfigTx t now v configID patch = .ok t') (userID : Int64) :
    countConfigsByUser t' userID = countConfigsByUser t userID := by
  obtain ⟨_, old, -, -, -, -, -, -, rfl⟩ := updateConfigTx_ok h
  have howner : ∀ r, ownedBy userID (patchedRow patch now old r) = ownedBy userID r := fun _ => rfl
  rw [countConfigsByUser, AutoTable.select_update howner, List.length_map]
  rfl

theorem count_delete (h : deleteConfig t v configID = .ok t') (userID : Int64) :
    countConfigsByUser t' userID ≤ countConfigsByUser t userID := by
  rw [deleteConfig_ok h, countConfigsByUser, AutoTable.select_delete]
  exact List.length_filter_le _ _

/-- A step of an update goes on with the update or ends it with a config. -/
theorem updateStep_shape (P : Primitives) (masterKey : Bytes) (env : Env) (t : Configs)
    (v configID : Int64) (patch : UpdateConfigPlaintextPatch) (pc : UpdatePc) :
    (∃ pc', (updateStep P masterKey env t v configID patch pc).2 = .update v configID patch pc') ∨
      ∃ r, (updateStep P masterKey env t v configID patch pc).2 = .done (.config r) := by
  have hnext := updateStep_next P masterKey env t v configID patch pc
  generalize (updateStep P masterKey env t v configID patch pc).2 = next at hnext
  cases hnext with
  | fails | returns => exact .inr ⟨_, rfl⟩
  | reads | retries | commits | reloads => exact .inl ⟨_, rfl⟩

theorem count_updateStep (env : Env) (patch : UpdateConfigPlaintextPatch) (pc : UpdatePc)
    (userID : Int64) :
    countConfigsByUser (updateStep P masterKey env t v configID patch pc).1 userID =
      countConfigsByUser t userID := by
  obtain hleft | ⟨inner, htx⟩ := updateStep_table (P := P) env patch pc
  · rw [hleft]
  · exact count_update htx userID

/-- Where a step of a request leads. -/
inductive InFlightNext (P : Primitives) (masterKey : Bytes) (env : Env) (t : Configs)
    (userID : Int64) : Handler → Handler → Prop
  | replies {h : Handler} (r : Reply) : InFlightNext P masterKey env t userID h (.responded r)
  | counted {name : String} (hroom : countConfigsByUser t userID < maxConfigsPerUser) :
      InFlightNext P masterKey env t userID
        (.calling userID (.countConfigs name) (.count userID))
        (.calling userID .createConfig (.create userID ⟨name, [], ""⟩))
  | updates {id : Int64} {patch : UpdateConfigPlaintextPatch} {pc pc' : UpdatePc}
      (h : (updateStep P masterKey env t userID id patch pc).2 = .update userID id patch pc') :
      InFlightNext P masterKey env t userID
        (.calling userID (.updateConfig id) (.update userID id patch pc))
        (.calling userID (.updateConfig id) (.update userID id patch pc'))

theorem InFlight.next {h : Handler} (hf : InFlight v h) (P : Primitives) (masterKey : Bytes)
    (env : Env) (t : Configs) :
    InFlightNext P masterKey env t v h (h.step P masterKey env t).2 := by
  cases hf with
  | replied r => exact .replies r
  | list =>
    simp only [Handler.step, Encrypted.Session.step, advance]
    cases listConfigsByUserPlaintext P masterKey t v <;> exact .replies _
  | get id => exact .replies _
  | count name =>
    simp only [Handler.step, Encrypted.Session.step, advance, resume]
    split
    · exact .replies _
    · exact .counted (not_le.mp ‹_›)
  | create inp =>
    simp only [Handler.step, Encrypted.Session.step]
    split <;> exact .replies _
  | update id patch pc =>
    simp only [Handler.step, Encrypted.Session.step]
    obtain ⟨pc', hpc⟩ | ⟨r, hr⟩ := updateStep_shape P masterKey env t v id patch pc
    · rw [hpc]
      exact .updates hpc
    · rw [hr]
      exact .replies _
  | delete id =>
    simp only [Handler.step, Encrypted.Session.step]
    split <;> exact .replies _

/-- A request stays in flight for the user it was made for. -/
theorem InFlight.step {h : Handler} (hf : InFlight v h) (env : Env) :
    InFlight v (h.step P masterKey env t).2 := by
  have hnext := hf.next P masterKey env t
  generalize (h.step P masterKey env t).2 = h' at hnext
  cases hnext with
  | replies r => exact .replied r
  | counted => exact .create _
  | updates => exact .update _ _ _

/-- A step adds at most the row of the create that is on its way. -/
theorem InFlight.count_step {h : Handler} (hf : InFlight v h) (P : Primitives) (masterKey : Bytes)
    (env : Env) (t : Configs) (userID : Int64) :
    countConfigsByUser (h.step P masterKey env t).1 userID ≤
      countConfigsByUser t userID + h.pending userID := by
  cases hf with
  | replied | list | get | count => exact Nat.le_add_right _ _
  | create inp =>
    simp only [Handler.step, Encrypted.Session.step]
    split
    · exact Nat.le_add_right _ _
    · rename_i hcreate
      obtain ⟨row, hrow, -⟩ := createConfigPlaintext_ok hcreate
      exact le_of_eq (count_create hrow userID)
  | update id patch pc => exact le_of_eq (count_updateStep env patch pc userID)
  | delete id =>
    simp only [Handler.step, Encrypted.Session.step]
    split
    · exact Nat.le_add_right _ _
    · exact (count_delete ‹_› userID).trans (Nat.le_add_right _ _)

/-- What one step of a request does to a user's rows and to the creates on their way:
either no create of the user is on its way from this request, and at most the one that
was has become a row; or the request is a `POST` of that user and just passed its
check. -/
theorem InFlight.quota {h : Handler} (hf : InFlight v h) (env : Env) (userID : Int64) :
    ((h.step P masterKey env t).2.pending userID = 0 ∧
        countConfigsByUser (h.step P masterKey env t).1 userID ≤
          countConfigsByUser t userID + h.pending userID) ∨
      ((∃ name, h = .calling v (.countConfigs name) (.count v)) ∧
        countConfigsByUser t v < maxConfigsPerUser ∧ (h.step P masterKey env t).1 = t ∧
        (h.step P masterKey env t).2.pending userID = if v = userID then 1 else 0) := by
  have hcount := hf.count_step P masterKey env t userID
  have hnext := hf.next P masterKey env t
  generalize (h.step P masterKey env t).2 = h' at hnext ⊢
  cases hnext with
  | replies | updates => exact .inl ⟨rfl, hcount⟩
  | counted hroom => exact .inr ⟨⟨_, rfl⟩, hroom, rfl, rfl⟩

end steps

/-! ## Runs -/

section runs

variable {ι : Type} [DecidableEq ι] [Fintype ι] (P : Primitives) (masterKey : Bytes)

/-- Requests at their handlers, over one table. -/
def requests (J : Json) (t : Configs) (reqs : ι → Option User × Request) :
    Pool Configs ι Handler where
  shared := t
  procs i := handle J (reqs i).1 (reqs i).2

/-- The creates of a user that have passed their check and not yet run. -/
def onTheirWay (s : Pool Configs ι Handler) (userID : Int64) : Nat :=
  s.total (Handler.pending userID)

/-- A `POST` that passes its check does so with room for itself besides the creates of
its user that are on their way. -/
def ChecksInTime (s : Pool Configs ι Handler) (ev : ι × Env) : Prop :=
  match s.procs ev.1 with
  | .calling userID (.countConfigs _) (.count _) =>
    countConfigsByUser s.shared userID < maxConfigsPerUser →
      countConfigsByUser s.shared userID + onTheirWay s userID < maxConfigsPerUser
  | _ => True

instance (s : Pool Configs ι Handler) (ev : ι × Env) : Decidable (ChecksInTime s ev) := by
  unfold ChecksInTime
  split <;> infer_instance

/-- Rows and creates on their way stay within the quota together. -/
structure WithinQuota (s : Pool Configs ι Handler) : Prop where
  inFlight : ∀ i, ∃ userID, InFlight userID (s.procs i)
  bound : ∀ userID, countConfigsByUser s.shared userID + onTheirWay s userID ≤ maxConfigsPerUser

theorem withinQuota_fire {s : Pool Configs ι Handler} {ev : ι × Env} (hs : WithinQuota s)
    (hev : ChecksInTime s ev) : WithinQuota (Pool.fire (Handler.step P masterKey) s ev) := by
  obtain ⟨v, hv⟩ := hs.inFlight ev.1
  refine ⟨?_, fun userID => ?_⟩
  · exact Pool.forall_procs_fire (Q := fun _ p => ∃ userID, InFlight userID p)
      ⟨v, hv.step ev.2⟩ fun i _ => hs.inFlight i
  · have hbound := hs.bound userID
    have htotal : onTheirWay (Pool.fire (Handler.step P masterKey) s ev) userID +
        (s.procs ev.1).pending userID = onTheirWay s userID +
          ((s.procs ev.1).step P masterKey ev.2 s.shared).2.pending userID :=
      Pool.total_fire _ s ev
    change countConfigsByUser ((s.procs ev.1).step P masterKey ev.2 s.shared).1 userID + _ ≤ _
    obtain ⟨hnone, hcount⟩ | ⟨⟨name, hname⟩, hroom, hsame, hpend⟩ :=
      @InFlight.quota P masterKey v s.shared _ hv ev.2 userID
    · omega
    · -- the request just passed its check: there was room for one more
      have hzero : (s.procs ev.1).pending userID = 0 := by rw [hname]; rfl
      unfold ChecksInTime at hev
      rw [hname] at hev
      have hless := hev hroom
      rw [hsame]
      by_cases hu : v = userID
      · subst hu
        rw [if_pos rfl] at hpend
        omega
      · rw [if_neg hu] at hpend
        omega

/-- In every run of requests in which each `POST` passes its check in time, no user
comes to own more rows than the quota. -/
theorem quota_kept (J : Json) (t : Configs) (reqs : ι → Option User × Request)
    (within : ∀ userID, countConfigsByUser t userID ≤ maxConfigsPerUser)
    (events : List (ι × Env))
    (inTime : Pool.Along (Handler.step P masterKey) ChecksInTime (requests J t reqs) events)
    (userID : Int64) :
    countConfigsByUser
      (Pool.run (Handler.step P masterKey) (requests J t reqs) events).shared userID ≤
        maxConfigsPerUser := by
  have start : WithinQuota (requests J t reqs) := by
    refine ⟨fun i => handle_inFlight J _ _, fun userID => ?_⟩
    have none : onTheirWay (requests J t reqs) userID = 0 :=
      Finset.sum_eq_zero fun i _ => handle_pending J _ _ userID
    rw [none]
    exact within userID
  have final := Pool.run_invariant_along (fun s ev => withinQuota_fire P masterKey) start inTime
  exact (Nat.le_add_right _ _).trans (final.bound userID)

end runs

/-- A table with so many rows of one user. -/
def rowsOf (userID : Int64) : Nat → Configs
  | 0 => AutoTable.empty 0
  | n + 1 => (rowsOf userID n).insert
      { id := Int64.ofNat (n + 1), userID := userID, name := "laptop", contentCiphertext := [1]
        contentNonce := [2], lastUsedWithVersion := none, createdAt := "2024-01-01T00:00:00Z"
        modifiedAt := "2024-01-01T00:00:00Z" }

/-- Two `POST` requests of one user who owns 49 rows. -/
def twoPosts : Pool Configs (Fin 2) Handler :=
  requests constantJson (rowsOf 1 49) fun _ => (some alice, .createConfig (some []))

theorem rowsOf_within (userID : Int64) :
    countConfigsByUser (rowsOf 1 49) userID ≤ maxConfigsPerUser := by
  have hlength : (rowsOf 1 49).rows.length ≤ maxConfigsPerUser := by decide +kernel
  exact (List.length_filter_le _ _).trans hlength

/-- One after the other: the first takes the last place and the second is refused. -/
theorem quota_kept_inTurn :
    countConfigsByUser (Pool.run (Handler.step transparent (List.replicate 32 7)) twoPosts
        [(0, envAt 0), (0, envAt 0), (1, envAt 0), (1, envAt 0)]).shared 1 ≤ maxConfigsPerUser ∧
      (Pool.run (Handler.step transparent (List.replicate 32 7)) twoPosts
        [(0, envAt 0), (0, envAt 0), (1, envAt 0), (1, envAt 0)]).procs 1 =
          .responded (writeError 409 errQuotaExceeded) :=
  ⟨quota_kept transparent (List.replicate 32 7) constantJson (rowsOf 1 49)
    (fun _ => (some alice, .createConfig (some []))) rowsOf_within _ (by decide +kernel) 1,
    by decide +kernel⟩

/-- Both count 49 rows before either creates: both create, and the user owns 51. -/
theorem overlapping_posts_exceed_quota :
    twoPosts.shared.rows.length = 49 ∧
      countConfigsByUser (Pool.run (Handler.step transparent (List.replicate 32 7)) twoPosts
        [(0, envAt 0), (1, envAt 0), (0, envAt 0), (1, envAt 0)]).shared 1 = 51 := by
  decide +kernel

end TabbySync.Api
