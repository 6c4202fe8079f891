import TabbySync.Library.Interleaving
import TabbySync.Store.Encrypted

/-! # Closing the store under running calls

`Close` wipes the key buffer and then closes the database. Calls in flight read the
same buffer whenever they seal or open, so here a call is taken apart further: a create
holds the connection pool's one connection from `BeginTx` to commit and seals in
between, an update seals after its read and before its transaction. A transaction that
is open when the database is closed can still commit; a new one is refused. -/

namespace TabbySync.Shutdown
open TabbySync.Library TabbySync.Library.Rfc3339 TabbySync.Sqlite TabbySync.Crypto
open TabbySync.Encrypted hiding Session

/-- What the calls share. `busy` is set while a create's transaction is open;
`sealedWith` records, for every ciphertext committed, the contents of the key buffer it
was sealed under. -/
structure Server where
  table : Configs
  key : Bytes
  closed : Bool
  busy : Bool
  sealedWith : List Bytes

/-- A call in flight, by its next step. -/
inductive Proc
  | create (userID : Int64) (inp : CreateConfigPlaintextInput)
  | sealing (userID : Int64) (inp : CreateConfigPlaintextInput) (id : Int64) (now : Int)
  | inserting (userID : Int64) (inp : CreateConfigPlaintextInput) (id : Int64) (now : Int)
      (built : CreateConfigInput) (key : Bytes)
  | update (userID configID : Int64) (patch : UpdateConfigPlaintextPatch)
  | opening (userID configID : Int64) (patch : UpdateConfigPlaintextPatch) (row : Config)
  | comparing (userID configID : Int64) (patch : UpdateConfigPlaintextPatch)
      (current : ConfigWithPlaintext)
  | writing (userID configID : Int64) (patch : UpdateConfigPlaintextPatch) (idempotent : Bool)
      (inner : UpdateConfigPatch) (key : Bytes)
  | reloading (userID configID : Int64) (patch : UpdateConfigPlaintextPatch) (idempotent : Bool)
  | returning (userID configID : Int64)
  | answering (userID configID : Int64) (row : Config)
  | close
  | closeInner
  | done (r : Encrypted.Result)

def errDBClosed : GoError := .text "sql: database is closed"

/-- A database call: refused once the database is closed, put off while another
transaction is open. -/
def Server.query (s : Server) (p : Proc) (refused : GoError → Proc) (granted : Server × Proc) :
    Server × Proc :=
  if s.closed then (s, refused errDBClosed) else if s.busy then (s, p) else granted

def failed (e : GoError) : Proc := .done (.config (.error e))

/-- An error of the inner `UpdateConfig`. -/
def updateFailed (userID configID : Int64) (patch : UpdateConfigPlaintextPatch)
    (idempotent : Bool) (e : GoError) : Proc :=
  if idempotent && e.is .configChanged then .update userID configID patch else failed e

def step (P : Primitives) (env : Env) (s : Server) : Proc → Server × Proc
  | .create userID inp =>
    s.query (.create userID inp) (fun e => failed (.wrap "sqlite: begin create tx" e)) <|
      match Sqlite.insert s.table (reservation userID (format env.now)) with
      | none => (s, failed (.wrap "sqlite: reserve config id" errFull))
      | some (id, _) => ({ s with busy := true }, .sealing userID inp id env.now)
  | .sealing userID inp id now =>
    match buildCreate P s.key userID inp env.nonce id with
    | .error e => ({ s with busy := false }, failed (.wrap "sqlite: build config" e))
    | .ok built => (s, .inserting userID inp id now built s.key)
  | .inserting userID inp _ now built key =>
    match createConfigWithID s.table now env.now' userID (some fun _ => .ok built) with
    | .error e => ({ s with busy := false }, failed e)
    | .ok (row, t') =>
      ({ s with table := t', busy := false, sealedWith := key :: s.sealedWith }
       , .done (.config (.ok (toPlaintext row inp.content))))
  | .update userID configID patch =>
    match env.ctxErr with
    | some e => (s, failed e.toError)
    | none => s.query (.update userID configID patch) failed <|
      match getConfig s.table userID configID with
      | .error e => (s, failed e)
      | .ok row => (s, .opening userID configID patch row)
  | .opening userID configID patch row =>
    match openRow P s.key userID configID row with
    | .error e => (s, failed e)
    | .ok current => (s, .comparing userID configID patch current)
  | .comparing userID configID patch current =>
    match innerPatch P s.key env.nonce userID configID patch current with
    | .error e => (s, failed e)
    | .ok inner => (s, .writing userID configID patch (!changed patch current) inner s.key)
  | .writing userID configID patch idempotent inner key =>
    match validatePatch inner with
    | .error e => (s, updateFailed userID configID patch idempotent e)
    | .ok () => s.query (.writing userID configID patch idempotent inner key)
        (fun e => updateFailed userID configID patch idempotent (.wrap "sqlite: begin update tx" e)) <|
      match updateConfigTx s.table env.now userID configID inner with
      | .error e => (s, updateFailed userID configID patch idempotent e)
      | .ok t' =>
        ({ s with table := t'
                  sealedWith := if hasCipher inner then key :: s.sealedWith else s.sealedWith }
         , .reloading userID configID patch idempotent)
  | .reloading userID configID patch idempotent =>
    s.query (.reloading userID configID patch idempotent)
      (updateFailed userID configID patch idempotent) <|
      match getConfig s.table userID configID with
      | .error e => (s, updateFailed userID configID patch idempotent e)
      | .ok _ => (s, .returning userID configID)
  | .returning userID configID =>
    s.query (.returning userID configID) failed <|
      match getConfig s.table userID configID with
      | .error e => (s, failed e)
      | .ok row => (s, .answering userID configID row)
  | .answering userID configID row =>
    (s, .done (.config (openRow P s.key userID configID row)))
  | .close => ({ s with key := s.key.map fun _ => 0 }, .closeInner)
  | .closeInner => ({ s with closed := true }, .done (.unit (.ok ())))
  | .done r => (s, .done r)

/-- Whenever the step calls `Encrypt`, the key buffer holds the given key. -/
def SealsWith (masterKey : Bytes) (s : Server) : Proc → Prop
  | .sealing _ _ _ _ => s.key = masterKey
  | .comparing _ _ patch current => contentChanged patch current = true → s.key = masterKey
  | _ => True

instance (masterKey : Bytes) (s : Server) (p : Proc) : Decidable (SealsWith masterKey s p) := by
  unfold SealsWith
  split <;> infer_instance

/-! ## What is about to be committed -/

/-- The row opens under the key and its own ids. -/
def Opens (P : Primitives) (masterKey : Bytes) (r : Row) : Prop :=
  ∃ pt, decrypt P masterKey r.userID r.id r.contentCiphertext r.contentNonce = .ok pt

/-- The call is inside its create transaction. -/
def Proc.holds : Proc → Bool
  | .sealing _ _ _ _ | .inserting _ _ _ _ _ _ => true
  | _ => false

/-- What a call carries between its steps: the id it reserved is still the next one, and
what it is about to commit was sealed under the key. -/
def Ready (P : Primitives) (masterKey : Bytes) (s : Server) : Proc → Prop
  | .sealing _ _ id _ => s.busy = true ∧ id = s.table.last + 1
  | .inserting userID _ id _ built key =>
    s.busy = true ∧ id = s.table.last + 1 ∧ key = masterKey ∧
      ∃ pt, decrypt P masterKey userID id built.contentCiphertext built.contentNonce = .ok pt
  | .writing userID configID _ _ inner key =>
    hasCipher inner = true → key = masterKey ∧
      ∃ pt, decrypt P masterKey userID configID inner.contentCiphertext inner.contentNonce = .ok pt
  | _ => True

/-- All that has been committed opens under the key and was sealed under it. -/
structure Kept (P : Primitives) (masterKey : Bytes) (s : Server) : Prop where
  rows : ∀ r ∈ s.table.rows, Opens P masterKey r
  keys : ∀ k ∈ s.sealedWith, k = masterKey

section
variable {P : Primitives} {masterKey : Bytes} {env : Env} {s : Server}

/-- A database call is refused, put off, or granted with no transaction open. -/
theorem query_elim {p : Proc} {refused : GoError → Proc} {granted : Server × Proc}
    {motive : Server × Proc → Prop} (hrefused : motive (s, refused errDBClosed))
    (hwait : motive (s, p)) (hgranted : s.busy = false → motive granted) :
    motive (s.query p refused granted) := by
  unfold Server.query
  split
  · exact hrefused
  · split
    · exact hwait
    · rename_i hbusy
      exact hgranted (by simpa using hbusy)

theorem ready_updateFailed (userID configID : Int64) (patch : UpdateConfigPlaintextPatch)
    (idempotent : Bool) (e : GoError) :
    Ready P masterKey s (updateFailed userID configID patch idempotent e) := by
  unfold updateFailed
  split <;> trivial

theorem buildCreate_ok (hP : P.OpensSealed) {userID id : Int64} {inp : CreateConfigPlaintextInput}
    {nonce : Nonce} {built : CreateConfigInput}
    (h : buildCreate P masterKey userID inp nonce id = .ok built) :
    ∃ pt, decrypt P masterKey userID id built.contentCiphertext built.contentNonce = .ok pt := by
  unfold buildCreate at h
  split at h
  · cases h
  · rename_i henc
    cases h
    exact ⟨inp.content, decrypt_encrypt hP henc⟩

theorem opens_create {t t' : Configs} {now now' : Int} {userID : Int64} {built : CreateConfigInput}
    {row : Config} (hrows : ∀ r ∈ t.rows, Opens P masterKey r)
    (hbuilt : ∃ pt, decrypt P masterKey userID (t.last + 1) built.contentCiphertext
      built.contentNonce = .ok pt)
    (h : createConfigWithID t now now' userID (some fun _ => .ok built) = .ok (row, t')) :
    ∀ r ∈ t'.rows, Opens P masterKey r := by
  obtain ⟨b, inp, hlt, hb, hinp, _, _, rfl⟩ := createConfigWithID_ok h
  cases hb
  cases hinp
  intro r hr
  rcases (AutoTable.mem_insert hlt).mp hr with hold | rfl
  · exact hrows r hold
  · exact hbuilt

theorem opens_update {t t' : Configs} {now : Int} {userID configID : Int64}
    {inner : UpdateConfigPatch} (hrows : ∀ r ∈ t.rows, Opens P masterKey r)
    (hinner : hasCipher inner = true → ∃ pt, decrypt P masterKey userID configID
      inner.contentCiphertext inner.contentNonce = .ok pt)
    (h : updateConfigTx t now userID configID inner = .ok t') :
    ∀ r ∈ t'.rows, Opens P masterKey r := by
  obtain ⟨row, old, _, _, _, _, _, _, rfl⟩ := updateConfigTx_ok h
  intro r hr
  obtain ⟨a, ha, _, rfl | ⟨hsel, rfl⟩⟩ := AutoTable.mem_update_key hr
  · exact hrows r ha
  · obtain ⟨hid, hu⟩ := owned_iff.mp hsel
    cases hc : hasCipher inner with
    | true => simpa [Opens, patchedRow, hc, hid, hu] using hinner hc
    | false => simpa [Opens, patchedRow, hc] using hrows a ha

/-- A step that seals under the key keeps what is committed, and its call ready. -/
theorem step_kept (hP : P.OpensSealed) {p : Proc} (hkept : Kept P masterKey s)
    (hready : Ready P masterKey s p) (hseals : SealsWith masterKey s p) :
    Kept P masterKey (step P env s p).1 ∧
      Ready P masterKey (step P env s p).1 (step P env s p).2 := by
  have hquery := fun p refused granted => @query_elim s p refused granted
    (fun x => Kept P masterKey x.1 ∧ Ready P masterKey x.1 x.2)
  cases p with
  | create userID inp =>
    refine hquery _ _ _ ⟨hkept, trivial⟩ ⟨hkept, trivial⟩ fun _ => ?_
    split
    · exact ⟨hkept, trivial⟩
    · rename_i id _ hins
      obtain ⟨_, hid, _⟩ := insert_eq hins
      exact ⟨⟨hkept.rows, hkept.keys⟩, rfl, hid⟩
  | sealing userID inp id now =>
    simp only [step]
    split
    · exact ⟨⟨hkept.rows, hkept.keys⟩, trivial⟩
    · rename_i built hbuilt
      have hkey : s.key = masterKey := hseals
      rw [hkey] at hbuilt
      exact ⟨hkept, hready.1, hready.2, hkey, buildCreate_ok hP hbuilt⟩
  | inserting userID inp id now built key =>
    obtain ⟨_, rfl, hkey, hopens⟩ := hready
    simp only [step]
    split
    · exact ⟨⟨hkept.rows, hkept.keys⟩, trivial⟩
    · rename_i htx
      exact ⟨⟨opens_create hkept.rows hopens htx, List.forall_mem_cons.mpr ⟨hkey, hkept.keys⟩⟩,
        trivial⟩
  | update userID configID patch =>
    simp only [step]
    split
    · exact ⟨hkept, trivial⟩
    · refine hquery _ _ _ ⟨hkept, trivial⟩ ⟨hkept, trivial⟩ fun _ => ?_
      split <;> exact ⟨hkept, trivial⟩
  | opening userID configID patch row =>
    simp only [step]
    split <;> exact ⟨hkept, trivial⟩
  | comparing userID configID patch current =>
    simp only [step]
    split
    · exact ⟨hkept, trivial⟩
    · rename_i inner hinner
      refine ⟨hkept, fun hc => ?_⟩
      obtain ⟨hchanged, content, henc⟩ := innerPatch_cipher hinner hc
      have hkey : s.key = masterKey := hseals hchanged
      rw [hkey] at henc
      exact ⟨hkey, content, decrypt_encrypt hP henc⟩
  | writing userID configID patch idempotent inner key =>
    simp only [step]
    split
    · exact ⟨hkept, ready_updateFailed _ _ _ _ _⟩
    · refine hquery _ _ _ ⟨hkept, ready_updateFailed _ _ _ _ _⟩ ⟨hkept, hready⟩ fun _ => ?_
      split
      · exact ⟨hkept, ready_updateFailed _ _ _ _ _⟩
      · rename_i t' htx
        refine ⟨⟨opens_update hkept.rows (fun hc => (hready hc).2) htx, ?_⟩, trivial⟩
        cases hc : hasCipher inner with
        | true => exact List.forall_mem_cons.mpr ⟨(hready hc).1, hkept.keys⟩
        | false => exact hkept.keys
  | reloading userID configID patch idempotent =>
    refine hquery _ _ _ ⟨hkept, ready_updateFailed _ _ _ _ _⟩ ⟨hkept, trivial⟩ fun _ => ?_
    split
    · exact ⟨hkept, ready_updateFailed _ _ _ _ _⟩
    · exact ⟨hkept, trivial⟩
  | returning userID configID =>
    refine hquery _ _ _ ⟨hkept, trivial⟩ ⟨hkept, trivial⟩ fun _ => ?_
    split <;> exact ⟨hkept, trivial⟩
  | answering userID configID row => exact ⟨hkept, trivial⟩
  | close => exact ⟨⟨hkept.rows, hkept.keys⟩, trivial⟩
  | closeInner => exact ⟨⟨hkept.rows, hkept.keys⟩, trivial⟩
  | done r => exact ⟨hkept, trivial⟩

/-- While a transaction is open, calls outside it change neither the table nor who has
the connection. -/
theorem step_excluded {p : Proc} (hbusy : s.busy = true) (hp : p.holds = false) :
    (step P env s p).1.table = s.table ∧ (step P env s p).1.busy = true ∧
      (step P env s p).2.holds = false := by
  have hquery : ∀ (refused : GoError → Proc) (granted : Server × Proc),
      (∀ e, (refused e).holds = false) →
      (s.query p refused granted).1.table = s.table ∧ (s.query p refused granted).1.busy = true ∧
        (s.query p refused granted).2.holds = false := by
    intro refused granted hrefused
    refine query_elim (motive := fun x => x.1.table = s.table ∧ x.1.busy = true ∧
      x.2.holds = false) ⟨rfl, hbusy, hrefused _⟩ ⟨rfl, hbusy, hp⟩ fun hfree => ?_
    rw [hbusy] at hfree
    cases hfree
  have hupdateFailed : ∀ userID configID patch idempotent e,
      (updateFailed userID configID patch idempotent e).holds = false := by
    intro userID configID patch idempotent e
    unfold updateFailed
    split <;> rfl
  cases p with
  | create userID inp => exact hquery _ _ fun _ => rfl
  | sealing => cases hp
  | inserting => cases hp
  | update userID configID patch =>
    simp only [step]
    split
    · exact ⟨rfl, hbusy, rfl⟩
    · exact hquery _ _ fun _ => rfl
  | opening userID configID patch row =>
    simp only [step]
    split <;> exact ⟨rfl, hbusy, rfl⟩
  | comparing userID configID patch current =>
    simp only [step]
    split <;> exact ⟨rfl, hbusy, rfl⟩
  | writing userID configID patch idempotent inner key =>
    simp only [step]
    split
    · exact ⟨rfl, hbusy, hupdateFailed _ _ _ _ _⟩
    · exact hquery _ _ fun _ => hupdateFailed _ _ _ _ _
  | reloading userID configID patch idempotent =>
    exact hquery _ _ fun _ => hupdateFailed _ _ _ _ _
  | returning userID configID => exact hquery _ _ fun _ => rfl
  | answering | close | closeInner | done => exact ⟨rfl, hbusy, rfl⟩

/-! ## Whole runs -/

theorem Ready.busy {p : Proc} (h : Ready P masterKey s p) (hp : p.holds = true) :
    s.busy = true := by
  cases p with
  | sealing => exact h.1
  | inserting => exact h.1
  | _ => cases hp

theorem Ready.frame {s' : Server} {p : Proc} (h : Ready P masterKey s p)
    (hframe : p.holds = true → s'.table = s.table ∧ s'.busy = true) :
    Ready P masterKey s' p := by
  cases p with
  | sealing userID inp id now =>
    obtain ⟨htable, hbusy⟩ := hframe rfl
    exact ⟨hbusy, htable ▸ h.2⟩
  | inserting userID inp id now built key =>
    obtain ⟨htable, hbusy⟩ := hframe rfl
    exact ⟨hbusy, htable ▸ h.2.1, h.2.2⟩
  | writing => exact h
  | _ => trivial

variable {ι : Type} [DecidableEq ι]

/-- Every committed row opens, every call is ready, and one call at most is inside a
transaction. -/
structure Safe (P : Primitives) (masterKey : Bytes) (s : Pool Server ι Proc) : Prop where
  kept : Kept P masterKey s.shared
  ready : ∀ i, Ready P masterKey s.shared (s.procs i)
  exclusive : ∀ i j, (s.procs i).holds = true → (s.procs j).holds = true → i = j

theorem safe_fire (hP : P.OpensSealed) {s : Pool Server ι Proc} {ev : ι × Env}
    (h : Safe P masterKey s) (hseals : SealsWith masterKey s.shared (s.procs ev.1)) :
    Safe P masterKey (Pool.fire (step P) s ev) := by
  obtain ⟨i, env⟩ := ev
  obtain ⟨hkept, hready⟩ := @step_kept P masterKey env _ hP _ h.kept (h.ready i) hseals
  -- another call inside a transaction keeps this one out of the table
  have hexcluded : ∀ j, j ≠ i → (s.procs j).holds = true →
      (step P env s.shared (s.procs i)).1.table = s.shared.table ∧
        (step P env s.shared (s.procs i)).1.busy = true ∧
        (step P env s.shared (s.procs i)).2.holds = false := by
    intro j hji hj
    have hi : (s.procs i).holds = false := by
      cases hi : (s.procs i).holds with
      | false => rfl
      | true => exact absurd (h.exclusive j i hj hi) hji
    exact step_excluded ((h.ready j).busy hj) hi
  refine ⟨hkept, ?_, fun j k hj hk => ?_⟩
  · refine Pool.forall_procs_fire (Q := fun _ p => Ready P masterKey _ p) hready fun j hji => ?_
    refine (h.ready j).frame fun hj => ?_
    obtain ⟨htable, hbusy, _⟩ := hexcluded j hji hj
    exact ⟨htable, hbusy⟩
  · by_cases hji : j = i <;> by_cases hki : k = i
    · rw [hji, hki]
    · subst hji
      rw [Pool.fire_procs_of_ne hki] at hk
      rw [Pool.fire_procs_self, (hexcluded k hki hk).2.2] at hj
      cases hj
    · subst hki
      rw [Pool.fire_procs_of_ne hji] at hj
      rw [Pool.fire_procs_self, (hexcluded j hji hj).2.2] at hk
      cases hk
    · rw [Pool.fire_procs_of_ne hji] at hj
      rw [Pool.fire_procs_of_ne hki] at hk
      exact h.exclusive j k hj hk

end

/-- The calls that race. -/
inductive Call
  | create (userID : Int64) (inp : CreateConfigPlaintextInput)
  | update (userID configID : Int64) (patch : UpdateConfigPlaintextPatch)
  | close

def Call.proc : Call → Proc
  | .create userID inp => .create userID inp
  | .update userID configID patch => .update userID configID patch
  | .close => .close

/-- An open store under a key, and all calls at their start. -/
def start {ι : Type} (masterKey : Bytes) (t : Configs) (calls : ι → Call) :
    Pool Server ι Proc where
  shared := { table := t, key := masterKey, closed := false, busy := false, sealedWith := [] }
  procs i := (calls i).proc

/-- In every run in which `Encrypt` is only called while the key buffer is not wiped,
every committed row opens under the master key, and every committed ciphertext was
sealed under it. -/
theorem committed_under_masterKey {P : Primitives} (hP : P.OpensSealed) {masterKey : Bytes}
    {ι : Type} [DecidableEq ι] {t : Configs} (hrows : ∀ r ∈ t.rows, Opens P masterKey r)
    {calls : ι → Call} {es : List (ι × Env)}
    (hseals : Pool.Along (step P) (fun s ev => SealsWith masterKey s.shared (s.procs ev.1))
      (start masterKey t calls) es) :
    (∀ r ∈ (Pool.run (step P) (start masterKey t calls) es).shared.table.rows,
        Opens P masterKey r) ∧
      ∀ k ∈ (Pool.run (step P) (start masterKey t calls) es).shared.sealedWith, k = masterKey := by
  have hholds : ∀ i, ((calls i).proc).holds = false := fun i => by cases calls i <;> rfl
  have hstart : Safe P masterKey (start masterKey t calls) := by
    refine ⟨⟨hrows, by simp [start]⟩, fun i => ?_, fun i j hi => ?_⟩
    · simp only [start]
      cases calls i <;> trivial
    · rw [start, hholds] at hi
      cases hi
  have hsafe := Pool.run_invariant_along (fun s ev h hc => safe_fire hP h hc) hstart hseals
  exact ⟨hsafe.kept.rows, hsafe.kept.keys⟩

/-! ## A create and a close -/

def closingKey : Bytes := List.replicate 32 7

def createAndClose : Fin 2 → Call
  | 0 => .create 1 ⟨"a", [1], ""⟩
  | 1 => .close

def closingRun (order : List (Fin 2)) : Pool Server (Fin 2) Proc :=
  Pool.run (step transparent) (start closingKey (AutoTable.empty 0) createAndClose)
    (order.map fun i => (i, envAt 5))

theorem committed_under_masterKey_inTurn :
    (∀ r ∈ (closingRun [0, 0, 0, 1, 1]).shared.table.rows, Opens transparent closingKey r) ∧
      ∀ k ∈ (closingRun [0, 0, 0, 1, 1]).shared.sealedWith, k = closingKey :=
  committed_under_masterKey transparent_opensSealed (by simp) (by decide +kernel)

/-- The key is wiped while the create's transaction is open. The create commits, under
the all-zero key, and its row does not open. -/
theorem wiped_in_transaction :
    (∃ r ∈ (closingRun [0, 1, 0, 0]).shared.table.rows,
      decrypt transparent closingKey r.userID r.id r.contentCiphertext r.contentNonce =
        .error .errDecrypt) ∧
    List.replicate 32 0 ∈ (closingRun [0, 1, 0, 0]).shared.sealedWith := by
  decide +kernel

end TabbySync.Shutdown
