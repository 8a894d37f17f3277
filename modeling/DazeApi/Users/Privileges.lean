import DazeApi.Lib.Run
import DazeApi.Users.WhitelistAppend
import DazeApi.Users.Writers

/-!
# Roles of users

The handlers that write the role, the status or the deletion of a user, or that write back a whole
row which they have read (`controller/user.go`, `model/user.go`), behind `authHelper`
(`middleware/auth.go`), for any number of sessions.  A session keeps the role of its user from the
login on.  A handler is cut at its last read: what it then writes waits, and other handlers run in
between.

`UpdateUser` is not among them: `Edit` writes none of these columns.
-/

namespace DazeApi.Users.Privileges

open DazeApi.Admin (Column whitelist appendUser parseAdminPermission serializeAdminPermission)
open JsonText JsonDecode

/-! ## Roles -/

def roleCommonUser : Int := 1
def roleAdminUser : Int := 10
def roleRootUser : Int := 100

/-- `IsValidateRole`. -/
def isValidateRole (role : Int) : Bool :=
  role = 0 || role = roleCommonUser || role = roleAdminUser || role = roleRootUser

def userStatusEnabled : Int := 1
def userStatusDisabled : Int := 2

/-- `model.User`, the columns that decide what a user may do.  A row with `deleted` is found by
unscoped queries only. -/
structure User where
  role : Int
  status : Int
  deleted : Bool
  adminPermission : Column

/-- What `setupLogin` stores. -/
structure Session where
  id : Int
  role : Int
  status : Int
deriving DecidableEq, Repr

/-- `authHelper`, for a session whose id is the one that the request names. -/
def authHelper (c : Session) (minRole : Int) : Bool :=
  c.status ≠ userStatusDisabled && minRole ≤ c.role && isValidateRole c.role

/-! ## The system -/

/-- A write of a handler that has checked everything. -/
inductive Write where
  /-- `User.Update`, with the row that was read and changed. -/
  | update (row : User)
  /-- `DB.Save`. -/
  | save (row : User)
  | delete
  | hardDelete
  | permission (stored : Column)

/-- The users, the sessions, the writes that wait for the user of their id, and a ghost: who has
made whom an administrator. -/
structure State where
  users : Int → Option User
  sessions : List Session
  pending : List (Int × Write)
  granted : List (Session × Int)

def initial (before : Int → Option User) : State := ⟨before, [], [], []⟩

/-- A query that does not find deleted users. -/
def State.find (s : State) (id : Int) : Option User := (s.users id).filter fun u => !u.deleted

def State.put (s : State) (id : Int) (u : Option User) : State :=
  { s with users := Function.update s.users id u }

def State.await (s : State) (id : Int) (w : Write) : State :=
  { s with pending := s.pending ++ [(id, w)] }

def State.grant (s : State) (c : Session) (id : Int) : State :=
  { s with granted := s.granted ++ [(c, id)] }

/-- `DB.Model(user).Updates(newUser)`, which does not write what is zero. -/
def updates (row newUser : User) : User where
  role := Writers.updatesField row.role newUser.role
  status := Writers.updatesField row.status newUser.status
  deleted := row.deleted || newUser.deleted
  adminPermission := newUser.adminPermission.or row.adminPermission

/-- A write takes effect. -/
def State.write (s : State) (id : Int) : Write → State
  | .update newUser =>
      match s.find id with
      | none => s
      | some row => s.put id (some (updates row newUser))
  -- a row that is not there any more is inserted again
  | .save newUser => s.put id (some newUser)
  | .delete =>
      match s.find id with
      | none => s
      | some row => s.put id (some { row with deleted := true })
  | .hardDelete => s.put id none
  | .permission stored =>
      match s.find id with
      | none => s
      | some row => s.put id (some { row with adminPermission := stored })

/-- The actions of `ManageUser`; any other text is one that the switch does not know. -/
inductive ManageAction where
  | disable
  | enable
  | delete
  | promote
  | demote
  | unknown
deriving DecidableEq, Repr

inductive Act where
  | login (id : Int) (byAccessToken : Bool)
  /-- `first` is the user that is found for a request without an id. -/
  | manageUser (k : Nat) (reqId first : Int) (action : ManageAction)
  | deleteUser (k : Nat) (id : Int)
  | deleteSelf (k : Nat)
  | createUser (k : Nat) (newId role : Int)
  | register (newId : Int)
  | updateAdminPermissions (k : Nat) (id : Int) (stored : Column)
  /-- `GenerateAccessToken`, `UpdateSelf`, `UpdateUserSetting`, `Insert` and `FinalizeUserCreation`
  give a row that they have read to `Update`. -/
  | rewrite (id : Int)
  /-- `inviteUser` and `TransferAffQuotaToQuota` save a row that they have read. -/
  | resave (id : Int)
  | write (j : Nat)

section

variable (nums : Numbers) (s : State) (c : Session)

/-- `adminUserWhitelistFor`. -/
def adminUserWhitelistFor : Option (List Int) :=
  if c.role = roleRootUser then none
  else if c.role ≠ roleAdminUser then some []
  else
    match s.find c.id with
    | none => some []
    | some caller =>
        (whitelist nums caller.adminPermission).map fun ids =>
          if c.id ∈ ids then ids else c.id :: ids

/-- The whitelist does not stand against the user. -/
def allowed (id : Int) : Bool :=
  match adminUserWhitelistFor nums s c with
  | none => true
  | some ids => id ∈ ids

/-- `ManageUser` up to its write. -/
def manageUser (reqId first : Int) (action : ManageAction) : State :=
  let id := if reqId = 0 then first else reqId
  if !allowed nums s c reqId then s
  else
    match s.users id with
    | none => s
    | some user =>
        if c.role ≤ user.role ∧ c.role ≠ roleRootUser then s
        else
          match action with
          | .disable =>
              if user.role = roleRootUser then s
              else s.await id (.update { user with status := userStatusDisabled })
          | .enable => s.await id (.update { user with status := userStatusEnabled })
          | .delete => if user.role = roleRootUser then s else s.await id .delete
          | .promote =>
              if c.role ≠ roleRootUser then s
              else if user.role ≥ roleAdminUser then s
              else (s.await id (.update { user with role := roleAdminUser })).grant c id
          | .demote =>
              if user.role = roleRootUser then s
              else if user.role = roleCommonUser then s
              else s.await id (.update { user with role := roleCommonUser })
          | .unknown => s.await id (.update user)

/-- `DeleteUser` up to its write. -/
def deleteUser (id : Int) : State :=
  if !allowed nums s c id then s
  else
    match s.users id with
    | none => s
    | some originUser =>
        if c.role ≤ originUser.role then s
        else if !originUser.deleted then s
        else if c.role ≠ roleRootUser then s
        else s.await id .hardDelete

/-- `DeleteSelf` up to its write; a user that is not found has no role. -/
def deleteSelf : State :=
  if ((s.find c.id).map User.role).getD 0 = roleRootUser then s else s.await c.id .delete

/-- A row that is created.  A role of zero is left to the default of the column. -/
def newUser (role : Int) : User where
  role := if role = 0 then roleCommonUser else role
  status := userStatusEnabled
  deleted := false
  adminPermission := none

/-- `AppendUserToManageWhitelist`; an administrator who is not there fails the transaction. -/
def appendUserToManageWhitelist (newUserId : Int) : Option State :=
  (s.find c.id).map fun admin =>
    match appendUser (parseAdminPermission nums admin.adminPermission) newUserId with
    | none => s
    | some p => s.put c.id (some { admin with adminPermission := some (serializeAdminPermission p) })

/-- `CreateUser`; an id is new. -/
def createUser (newId role : Int) : State :=
  if role ≥ c.role then s
  else if (s.users newId).isSome then s
  else
    let created := s.put newId (some (newUser role))
    let created := if (newUser role).role ≥ roleAdminUser then created.grant c newId else created
    if c.role = roleAdminUser ∧ c.id ≠ 0 then
      (appendUserToManageWhitelist nums created c newId).getD s
    else created

/-- `UpdateAdminPermissions` up to its write. -/
def updateAdminPermissions (id : Int) (stored : Column) : State :=
  match s.find id with
  | none => s
  | some user =>
      if user.role = roleRootUser then s
      else if user.role ≠ roleAdminUser then s
      else s.await id (.permission stored)

/-- A request of a session, behind its middleware. -/
def request (k : Nat) (minRole : Int) (f : Session → State) : Option State :=
  (s.sessions[k]?).map fun c => if authHelper c minRole then f c else s

def step : Act → Option State
  | .login id byAccessToken =>
      (s.find id).map fun u =>
        if byAccessToken || u.status = userStatusEnabled then
          { s with sessions := s.sessions ++ [⟨id, u.role, u.status⟩] }
        else s
  | .manageUser k reqId first action =>
      request s k roleAdminUser fun c => manageUser nums s c reqId first action
  | .deleteUser k id => request s k roleAdminUser fun c => deleteUser nums s c id
  | .deleteSelf k => request s k roleCommonUser fun c => deleteSelf s c
  | .createUser k newId role => request s k roleAdminUser fun c => createUser nums s c newId role
  | .register newId =>
      if (s.users newId).isSome then none else some (s.put newId (some (newUser roleCommonUser)))
  | .updateAdminPermissions k id stored =>
      request s k roleRootUser fun _ => updateAdminPermissions s id stored
  | .rewrite id => (s.find id).map fun u => s.await id (.update u)
  | .resave id => (s.find id).map fun u => s.await id (.save u)
  | .write j =>
      (s.pending[j]?).map fun p =>
        { s.write p.1 p.2 with pending := s.pending.eraseIdx j }

end

end DazeApi.Users.Privileges
