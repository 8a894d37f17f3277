/-!
# The cached user

The hash `user:<id>` in Redis, as far as the quota logic reads it
(`model/user_cache.go`), and the commands on it (`common/redis.go`).  Two of the
commands are Lua scripts, which Redis runs atomically, so each command is one
function of the hash.  The fields that hold texts (group, e-mail, setting) are
left out.
-/

namespace DazeApi.Users

/-- The fields of the hash; a field that was never set is `none`. -/
structure UserHash where
  id : Option Int
  status : Option Int
  quota : Option Int
deriving DecidableEq, Repr

/-- `UserBase`, the columns of the user that are cached. -/
structure UserBase where
  id : Int
  status : Int
  quota : Int
deriving DecidableEq, Repr

/-- The test of both scripts: the hash has an `Id` other than `0`. -/
def UserHash.complete (h : UserHash) : Bool := h.id.any (· ≠ 0)

/-- `RedisHIncrByIfComplete` on the field `Quota`.  `HINCRBY` counts a missing
field as zero. -/
def redisHIncrByIfComplete (entry : Option UserHash) (delta : Int) : Option UserHash × Bool :=
  match entry with
  | some h =>
      if h.complete then (some { h with quota := some (h.quota.getD 0 + delta) }, true)
      else (entry, false)
  | none => (entry, false)

/-- `RedisHSetObjPreservingFields`, preserving `Quota`: the script keeps the field of
a complete hash and overwrites that of any other. -/
def redisHSetObjPreservingQuota (entry : Option UserHash) (user : UserBase) : UserHash where
  id := some user.id
  status := some user.status
  quota := (entry.bind fun h => if h.complete then h.quota else none).or (some user.quota)

/-- `RedisHSetNXField` on the field `Quota`; it creates the hash where there is none. -/
def redisHSetNXQuota (entry : Option UserHash) (quota : Int) : UserHash :=
  match entry with
  | some h => { h with quota := h.quota.or (some quota) }
  | none => ⟨none, none, some quota⟩

/-- `RedisHGetObj` into a `UserBase`: a missing key is an error, a missing field is
zero. -/
def redisHGetObj (entry : Option UserHash) : Option UserBase :=
  entry.map fun h => ⟨h.id.getD 0, h.status.getD 0, h.quota.getD 0⟩

/-- `userBaseCacheLooksComplete`. -/
def userBaseCacheLooksComplete (userId : Int) (ub : UserBase) : Bool :=
  ub.id = userId && (ub.status = 1 || ub.status = 2)

end DazeApi.Users
