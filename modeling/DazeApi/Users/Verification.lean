import DazeApi.Lib.Expiring
import DazeApi.Lib.Run
import Mathlib.Tactic.Common

/-!
# Codes that are sent by mail

`common/verification.go` keeps the codes of both purposes in one small map.  `SendEmailVerification`
and `SendPasswordResetEmail` register a code and send it, `Register` and `ResetPassword` check one
(`controller/misc.go`, `controller/user.go`).  Requests are cut between their accesses to the map
and to the database; the mutex makes each access to the map one step.

Which addresses `SendEmailVerification` accepts is left out, and so is whether the mail arrives.
-/

namespace DazeApi.Users.Verification

open Expiring

/-! ## The map -/

inductive Purpose
  | email
  | passwordReset
  deriving DecidableEq, Repr

/-- `EmailVerificationPurpose`, `PasswordResetPurpose`. -/
def Purpose.text : Purpose → String
  | .email => "v"
  | .passwordReset => "r"

def verificationMapMaxSize : Nat := 10

def verificationValidMinutes : Nat := 10

/-- The code is too old; times are in nanoseconds. -/
def expired (now time : Nat) : Bool := verificationValidMinutes * 60 ≤ (now - time) / 1000000000

abbrev VerificationMap := List (Entry String String)

def removeExpiredPairs (now : Nat) (m : VerificationMap) : VerificationMap :=
  sweep (fun time => !expired now time) m

def registerVerificationCodeWithKey (now : Nat) (key code : String) (purpose : Purpose)
    (m : VerificationMap) : VerificationMap :=
  let m := put m ⟨purpose.text ++ key, code, now⟩
  if verificationMapMaxSize < m.length then removeExpiredPairs now m else m

def verifyCodeWithKey (now : Nat) (key code : String) (purpose : Purpose) (m : VerificationMap) :
    Bool :=
  match get m (purpose.text ++ key) with
  | none => false
  | some value => !expired now value.time && code = value.value

def deleteKey (key : String) (purpose : Purpose) (m : VerificationMap) : VerificationMap :=
  erase m (purpose.text ++ key)

/-! ## Requests -/

/-- A password that its user has chosen, or one that the request `p` has generated. -/
inductive Password
  | chosen
  | generated (p : Nat)
  deriving DecidableEq, Repr

structure User where
  username : String
  email : String
  deleted : Bool
  password : Password
  deriving DecidableEq, Repr

/-- `IsEmailAlreadyTaken`: one row has the address, deleted or not. -/
def isEmailAlreadyTaken (users : List User) (email : String) : Bool :=
  (users.filter (·.email = email)).length = 1

def checkUserExistOrDeleted (users : List User) (username email : String) : Bool :=
  users.any fun u => u.username = username || (email ≠ "" && u.email = email)

/-- `ResetUserPasswordByEmail`. -/
def resetUserPasswordByEmail (users : List User) (email : String) (password : Password) : List User :=
  users.map fun u => if u.email = email ∧ !u.deleted then { u with password := password } else u

/-- Where a request stands.  A code that was checked stands with the time of the check. -/
inductive Proc
  /-- The code is drawn, and then it is registered. -/
  | sending (purpose : Purpose) (email code : String)
  | sent (purpose : Purpose) (email code : String)
  /-- `ResetPassword` behind its check, behind the write of the password, and answered. -/
  | checked (email code : String) (time : Nat)
  | written (email code : String) (time : Nat)
  | answered (email code : String) (time : Nat)
  /-- `Register` behind its check, behind the search for the user, and at its end. -/
  | registering (username email : String) (proof : Option (String × Nat))
  | inserting (username email : String) (proof : Option (String × Nat))
  | registered (username email : String) (proof : Option (String × Nat))
  | failed
  deriving DecidableEq, Repr

/-- The map and the table, and beside them the history of the map. -/
structure State where
  clock : Nat
  codes : VerificationMap
  users : List User
  procs : List Proc
  events : List (Event String String)

def initial (users : List User) : State := ⟨0, [], users, [], []⟩

def State.start (s : State) (proc : Proc) : State := { s with procs := s.procs ++ [proc] }

def State.goto (s : State) (p : Nat) (proc : Proc) : State :=
  { s with procs := s.procs.set p proc }

def State.verifies (s : State) (purpose : Purpose) (email code : String) : Bool :=
  verifyCodeWithKey s.clock email code purpose s.codes

inductive Act
  | tick (d : Nat)
  | sendEmailVerification (email code : String)
  | sendPasswordResetEmail (email code : String)
  | resetPassword (email token : String)
  /-- `EmailVerificationEnabled` is read when the request comes. -/
  | register (enabled : Bool) (username email code : String)
  /-- The next step of a request, and whether the database fails. -/
  | next (p : Nat) (err : Bool)
  | deleteUser (i : Nat)
  /-- `UpdateSelf` and `UpdateUser`, the name and the password. -/
  | updateUser (i : Nat) (username : String) (chosen : Bool)

def State.next (s : State) (p : Nat) (err : Bool) : Proc → Option State
  | .sending purpose email code =>
      some { s.goto p (.sent purpose email code) with
        codes := registerVerificationCodeWithKey s.clock email code purpose s.codes
        events := .put ⟨purpose.text ++ email, code, s.clock⟩ :: s.events }
  | .checked email code time =>
      if err then some (s.goto p .failed)
      else
        some { s.goto p (.written email code time) with
          users := resetUserPasswordByEmail s.users email (.generated p) }
  | .written email code time =>
      some { s.goto p (.answered email code time) with
        codes := deleteKey email .passwordReset s.codes
        events := .erase (Purpose.passwordReset.text ++ email) :: s.events }
  | .registering username email proof =>
      if err || checkUserExistOrDeleted s.users username email then some (s.goto p .failed)
      else some (s.goto p (.inserting username email proof))
  | .inserting username email proof =>
      -- names are unique in the table
      if err || s.users.any (·.username = username) then some (s.goto p .failed)
      else
        some { s.goto p (.registered username email proof) with
          users := s.users ++ [⟨username, email, false, .chosen⟩] }
  | .sent _ _ _ | .answered _ _ _ | .registered _ _ _ | .failed => none

def step (s : State) : Act → Option State
  | .tick d => some { s with clock := s.clock + d }
  | .sendEmailVerification email code =>
      if isEmailAlreadyTaken s.users email then some s
      else some (s.start (.sending .email email code))
  | .sendPasswordResetEmail email code =>
      if isEmailAlreadyTaken s.users email then some (s.start (.sending .passwordReset email code))
      else some s
  | .resetPassword email token =>
      if email = "" ∨ token = "" then some s
      else if s.verifies .passwordReset email token then
        some (s.start (.checked email token s.clock))
      else some s
  | .register enabled username email code =>
      if enabled then
        if email = "" ∨ code = "" then some s
        else if s.verifies .email email code then
          some (s.start (.registering username email (some (code, s.clock))))
        else some s
      else some (s.start (.registering username email none))
  | .next p err => (s.procs[p]?).bind (s.next p err)
  | .deleteUser i =>
      match s.users[i]? with
      | none => none
      | some u => some { s with users := s.users.set i { u with deleted := true } }
  | .updateUser i username chosen =>
      match s.users[i]? with
      | none => none
      | some u =>
          if u.deleted || (username ≠ u.username && s.users.any (·.username = username)) then some s
          else
            some { s with
              users := s.users.set i { u with
                username := username, password := if chosen then .chosen else u.password } }

/-! ## What is meant -/

/-- What a request has shown: a code for a purpose and an address, with the time of the check. -/
structure Shown where
  purpose : Purpose
  email : String
  code : String
  time : Nat

/-- The code was the last one sent for the purpose to the address, less than ten minutes before. -/
def Shown.Valid (x : Shown) (events : List (Event String String)) : Prop :=
  ∃ e, newest events (x.purpose.text ++ x.email) = some e ∧ e.value = x.code ∧
    e.time ≤ x.time ∧ x.time < e.time + 10 * 60 * 1000000000

/-- That held at some time of the history. -/
def Shown.WasValid (x : Shown) (events : List (Event String String)) : Prop :=
  ∃ past, past <:+ events ∧ x.Valid past

def Proc.shown : Proc → Option Shown
  | .checked email code time | .written email code time | .answered email code time =>
      some ⟨.passwordReset, email, code, time⟩
  | .registering _ email proof | .inserting _ email proof | .registered _ email proof =>
      proof.map fun c => ⟨.email, email, c.1, c.2⟩
  | .sending _ _ _ | .sent _ _ _ | .failed => none

/-- The request has written the password of the address. -/
def Proc.wrote : Proc → Option String
  | .written email _ _ | .answered email _ _ => some email
  | _ => none

/-- A code is drawn for the address. -/
def Proc.draws (email code : String) (p : Proc) : Bool :=
  p = .sending .passwordReset email code || p = .sent .passwordReset email code

/-- A code that is drawn for a password was not drawn for that address before. -/
def Fresh (s : State) : Act → Prop
  | .sendPasswordResetEmail email code => ∀ p ∈ s.procs, p.draws email code = false
  | _ => True

instance (s : State) : ∀ a, Decidable (Fresh s a)
  | .sendPasswordResetEmail email code =>
      inferInstanceAs (Decidable (∀ p ∈ s.procs, p.draws email code = false))
  | .tick _ | .sendEmailVerification _ _ | .resetPassword _ _ | .register _ _ _ _ | .next _ _
  | .deleteUser _ | .updateUser _ _ _ => .isTrue trivial

end DazeApi.Users.Verification
