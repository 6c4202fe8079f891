import TabbySync.Auth.Users
import TabbySync.Store.Encrypted

/-! # The API handlers

The six handlers under `/api/1/`. A handler checks its request, makes one store call
(`POST` makes two) and turns the result into a response, so a request in flight is a
machine that takes the steps of its store calls; what it does between two database
operations belongs to the step before.

Responses are records, before their JSON encoding. Decoding a body is a parameter: the
first value of the body, read into the request's fields, and the bytes after it. -/

namespace TabbySync.Api

open Library.Text Library.Rfc3339 Auth Crypto

/-! ## Requests and responses -/

structure CreateConfigRequest where
  name : String
  deriving DecidableEq, Repr

/-- An absent field is `none`; a string is the list of its bytes where its length in
bytes is looked at. -/
structure PatchConfigRequest where
  name : Option String
  content : Option Bytes
  lastUsedWithVersion : Option String
  deriving DecidableEq, Repr

/-- `Decode` with `DisallowUnknownFields`, for the two request types. -/
structure Json where
  createConfigRequest : Bytes → Option (CreateConfigRequest × Bytes)
  patchConfigRequest : Bytes → Option (PatchConfigRequest × Bytes)

/-- A request by its route; `id` is the path parameter as sent, a missing body is `none`. -/
inductive Request
  | getUser
  | listConfigs
  | createConfig (body : Option Bytes)
  | getConfig (id : String)
  | patchConfig (id : String) (body : Option Bytes)
  | deleteConfig (id : String)

structure ConfigResponse where
  id : Int64
  name : String
  content : Bytes
  lastUsedWithVersion : Option String
  createdAt : String
  modifiedAt : String
  deriving DecidableEq, Repr

inductive Body
  | user (id : Int64) (name : String) (activeConfig : Option Int64)
  | config (c : ConfigResponse)
  | configs (cs : List ConfigResponse)
  | error (code : String)
  | empty
  deriving DecidableEq, Repr

/-- An ERROR line of the handlers' logger. -/
structure LogLine where
  message : String
  op : String
  userID : Option Int64
  configID : Option Int64
  deriving DecidableEq, Repr

/-- A response and what was logged for it. -/
structure Reply where
  status : Nat
  body : Body
  log : Option LogLine
  deriving DecidableEq, Repr

def errBadRequest : String := "bad request"
def errInvalidRequest : String := "invalid request"
def errNotFound : String := "not found"
def errInternalError : String := "internal error"
def errQuotaExceeded : String := "quota exceeded"
def errContentTooLarge : String := "content too large"

def maxConfigsPerUser : Nat := 50
def maxContentBytes : Nat := 2 * 1024 * 1024

def writeJSON (status : Nat) (body : Body) : Reply := ⟨status, body, none⟩

def writeError (status : Nat) (code : String) : Reply := writeJSON status (.error code)

def newConfigResponse (c : ConfigWithPlaintext) : ConfigResponse where
  id := c.id
  name := c.name
  content := c.content
  lastUsedWithVersion := if c.lastUsedWithVersion ≠ "" then some c.lastUsedWithVersion else none
  createdAt := format c.createdAt
  modifiedAt := format c.modifiedAt

/-- The log attributes name the config only once there is one. -/
def storeErrorLog (message op : String) (userID configID : Int64) : LogLine :=
  ⟨message, op, some userID, if configID > 0 then some configID else none⟩

def writeStoreError (op : String) (userID configID : Int64) (err : GoError) : Reply :=
  if err.is .configNotFound then writeError 404 errNotFound
  else if err.is .decrypt then
    { writeError 500 errInternalError with
      log := some (storeErrorLog "decrypt failure" op userID configID) }
  else
    { writeError 500 errInternalError with
      log := some (storeErrorLog "internal error" op userID configID) }

/-! ## Requests in flight -/

/-- Which store call a handler is in, with what it still needs afterwards. -/
inductive Op
  | listConfigs
  | getConfig (configID : Int64)
  | countConfigs (name : String)
  | createConfig
  | updateConfig (configID : Int64)
  | deleteConfig (configID : Int64)
  deriving DecidableEq

inductive Handler
  | calling (userID : Int64) (op : Op) (call : Encrypted.Session)
  | responded (r : Reply)
  deriving DecidableEq

/-- The answer of the handlers that return one config. -/
def configReply (status : Nat) (op : String) (userID configID : Int64) :
    Except GoError ConfigWithPlaintext → Reply
  | .error err => writeStoreError op userID configID err
  | .ok row => writeJSON status (.config (newConfigResponse row))

/-- What a handler does with the result of its store call. A call returns results of its
own kind only; the last line is never met. -/
def resume (userID : Int64) : Op → Encrypted.Result → Handler
  | .listConfigs, .configs (.error err) =>
    .responded (writeStoreError "list_configs" userID 0 err)
  | .listConfigs, .configs (.ok rows) =>
    .responded (writeJSON 200 (.configs (rows.map newConfigResponse)))
  | .getConfig configID, .config r => .responded (configReply 200 "get_config" userID configID r)
  | .countConfigs _, .count (.error err) =>
    .responded (writeStoreError "count_configs" userID 0 err)
  | .countConfigs name, .count (.ok count) =>
    if count ≥ maxConfigsPerUser then .responded (writeError 409 errQuotaExceeded)
    else .calling userID .createConfig
      (.create userID { name := name, content := [], lastUsedWithVersion := "" })
  | .createConfig, .config r => .responded (configReply 201 "create_config" userID 0 r)
  | .updateConfig configID, .config r =>
    .responded (configReply 200 "update_config" userID configID r)
  | .deleteConfig configID, .unit (.error err) =>
    .responded (writeStoreError "delete_config" userID configID err)
  | .deleteConfig _, .unit (.ok ()) => .responded (writeJSON 204 .empty)
  | _, _ => .responded (writeError 500 errInternalError)

/-- A handler goes on as soon as its store call has returned. -/
def advance (userID : Int64) (op : Op) : Encrypted.Session → Handler
  | .done r => resume userID op r
  | call => .calling userID op call

/-- One atomic step of a request. -/
def Handler.step (P : Primitives) (masterKey : Bytes) (env : Encrypted.Env) (t : Sqlite.Configs) :
    Handler → Sqlite.Configs × Handler
  | .calling userID op call =>
    ((call.step P masterKey env t).1, advance userID op (call.step P masterKey env t).2)
  | .responded r => (t, .responded r)

/-! ## The handlers up to their first store call -/

def currentUser : Option User → Except Reply User
  | some u => .ok u
  | none => .error
      { writeError 500 errInternalError with
        log := some ⟨"auth user missing on authenticated request", "current_user", none, none⟩ }

def parseConfigID (raw : String) : Except Reply Int64 :=
  match parseInt raw with
  | none => .error (writeError 404 errNotFound)
  | some id => if id ≤ 0 then .error (writeError 404 errNotFound) else .ok id

/-- `Decoder.More` outside an array or object: another byte follows that does not close
one. -/
def more (rest : Bytes) : Bool :=
  match rest.dropWhile fun b => b = 0x20 ∨ b = 0x09 ∨ b = 0x0D ∨ b = 0x0A with
  | [] => false
  | b :: _ => b ≠ 0x5D ∧ b ≠ 0x7D

def decodeJSON {α : Type} (decode : Bytes → Option (α × Bytes)) :
    Option Bytes → Except Reply α
  | none => .error (writeError 400 errBadRequest)
  | some body =>
    match decode body with
    | none => .error (writeError 400 errBadRequest)
    | some (v, rest) => if more rest then .error (writeError 400 errBadRequest) else .ok v

/-- A failed check is the response. -/
def orRespond : Except Reply Handler → Handler
  | .error r => .responded r
  | .ok h => h

def handleGetUser (user : Option User) : Handler := orRespond do
  let u ← currentUser user
  return .responded (writeJSON 200 (.user u.id u.name none))

def handleListConfigs (user : Option User) : Handler := orRespond do
  let u ← currentUser user
  return .calling u.id .listConfigs (.list u.id)

def handleGetConfig (user : Option User) (rawID : String) : Handler := orRespond do
  let u ← currentUser user
  let id ← parseConfigID rawID
  return .calling u.id (.getConfig id) (.get u.id id)

def handleCreateConfig (J : Json) (user : Option User) (body : Option Bytes) : Handler :=
  orRespond do
    let u ← currentUser user
    let req ← decodeJSON J.createConfigRequest body
    if req.name = "" then throw (writeError 400 errInvalidRequest)
    else return .calling u.id (.countConfigs req.name) (.count u.id)

def handlePatchConfig (J : Json) (user : Option User) (rawID : String) (body : Option Bytes) :
    Handler := orRespond do
  let u ← currentUser user
  let id ← parseConfigID rawID
  let req ← decodeJSON J.patchConfigRequest body
  if req.name = none ∧ req.content = none ∧ req.lastUsedWithVersion = none then
    throw (writeError 400 errInvalidRequest)
  else if req.content.any fun c => c.length > maxContentBytes then
    throw (writeError 413 errContentTooLarge)
  else return .calling u.id (.updateConfig id) (.update u.id id
    { name := req.name, content := req.content, lastUsedWithVersion := req.lastUsedWithVersion }
    .reading)

def handleDeleteConfig (user : Option User) (rawID : String) : Handler := orRespond do
  let u ← currentUser user
  let id ← parseConfigID rawID
  return .calling u.id (.deleteConfig id) (.delete u.id id)

/-- A request as it reaches its handler, with the user the middleware resolved. -/
def handle (J : Json) (user : Option User) : Request → Handler
  | .getUser => handleGetUser user
  | .listConfigs => handleListConfigs user
  | .createConfig body => handleCreateConfig J user body
  | .getConfig id => handleGetConfig user id
  | .patchConfig id body => handlePatchConfig J user id body
  | .deleteConfig id => handleDeleteConfig user id

/-! ## Inputs to run the handlers on -/

/-- Every body is read as the same request. -/
def constantJson : Json where
  createConfigRequest _ := some (⟨"laptop"⟩, [])
  patchConfigRequest _ := some (⟨some "laptop", none, none⟩, [])

def alice : User := ⟨1, "alice", "tbs_00000000", String.ofList (List.replicate 64 'a'), false⟩

/-! ## What a request starts as -/

/-- The states in which a request of a user can first be seen. -/
inductive Started (userID : Int64) : Handler → Prop
  | replied (r : Reply) : Started userID (.responded r)
  | list : Started userID (.calling userID .listConfigs (.list userID))
  | get (id : Int64) : Started userID (.calling userID (.getConfig id) (.get userID id))
  | count (name : String) (nonempty : name ≠ "") :
      Started userID (.calling userID (.countConfigs name) (.count userID))
  | update (id : Int64) (patch : UpdateConfigPlaintextPatch) :
      Started userID (.calling userID (.updateConfig id) (.update userID id patch .reading))
  | delete (id : Int64) : Started userID (.calling userID (.deleteConfig id) (.delete userID id))

theorem started_orRespond {userID : Int64} {x : Except Reply Handler}
    (h : ∀ a, x = .ok a → Started userID a) : Started userID (orRespond x) := by
  cases x with
  | error r => exact .replied r
  | ok a => exact h a rfl

theorem bind_eq_ok {ε α β : Type} {x : Except ε α} {f : α → Except ε β} {b : β}
    (h : x >>= f = .ok b) : ∃ a, x = .ok a ∧ f a = .ok b := by
  cases x with
  | error e => cases h
  | ok a => exact ⟨a, rfl, h⟩

theorem handle_started (J : Json) (u : User) (req : Request) :
    Started u.id (handle J (some u) req) := by
  cases req with
  | getUser => exact .replied _
  | listConfigs => exact .list
  | createConfig body =>
    refine started_orRespond fun a ha => ?_
    obtain ⟨v, hv, ha⟩ := bind_eq_ok ha
    cases hv
    obtain ⟨req, -, ha⟩ := bind_eq_ok ha
    split at ha
    · cases ha
    · rename_i hname
      cases ha
      exact .count req.name hname
  | getConfig raw =>
    refine started_orRespond fun a ha => ?_
    obtain ⟨v, hv, ha⟩ := bind_eq_ok ha
    cases hv
    obtain ⟨id, -, ha⟩ := bind_eq_ok ha
    cases ha
    exact .get id
  | patchConfig raw body =>
    refine started_orRespond fun a ha => ?_
    obtain ⟨v, hv, ha⟩ := bind_eq_ok ha
    cases hv
    obtain ⟨id, -, ha⟩ := bind_eq_ok ha
    obtain ⟨req, -, ha⟩ := bind_eq_ok ha
    split at ha
    · cases ha
    · split at ha
      · cases ha
      · cases ha
        exact .update id _
  | deleteConfig raw =>
    refine started_orRespond fun a ha => ?_
    obtain ⟨v, hv, ha⟩ := bind_eq_ok ha
    cases hv
    obtain ⟨id, -, ha⟩ := bind_eq_ok ha
    cases ha
    exact .delete id

/-- Without a user every handler answers at once. -/
theorem handle_no_user (J : Json) (req : Request) : ∃ r, handle J none req = .responded r := by
  cases req <;> exact ⟨_, rfl⟩

end TabbySync.Api
