import Mathlib.Algebra.BigOperators.Group.List.Basic
import Mathlib.Data.List.Induction
import DazeApi.Batch.Conservation

/-!
# One statement for many updates

Without the batch updater every change of a quota is a statement of its own
(`model/token.go`, `model/user.go`, `model/channel.go`).  The one statement for a map of
deltas does to each row what these would do, in any order, and so does any number of
statements for parts of the deltas.  What differs is `accessed_time` of a token: every
statement sets it to the time at which it is built.
-/

namespace DazeApi.Batch

/-! ## Single updates -/

/-- `increaseTokenQuota`. -/
def increaseTokenQuota (id quota now : Int) : Sql.Db → Sql.Db :=
  Sql.updateRow "tokens" id fun row =>
    ((row.add "remain_quota" quota).sub "used_quota" quota).put "accessed_time" now

/-- `decreaseTokenQuota`. -/
def decreaseTokenQuota (id quota now : Int) : Sql.Db → Sql.Db :=
  Sql.updateRow "tokens" id fun row =>
    ((row.sub "remain_quota" quota).add "used_quota" quota).put "accessed_time" now

/-- `increaseUserQuota`. -/
def increaseUserQuota (id quota : Int) : Sql.Db → Sql.Db :=
  Sql.updateRow "users" id fun row => row.add "quota" quota

/-- `decreaseUserQuota`. -/
def decreaseUserQuota (id quota : Int) : Sql.Db → Sql.Db :=
  Sql.updateRow "users" id fun row => row.sub "quota" quota

/-- `updateUserUsedQuotaAndRequestCount`. -/
def updateUserUsedQuotaAndRequestCount (id quota count : Int) : Sql.Db → Sql.Db :=
  Sql.updateRow "users" id fun row => (row.add "used_quota" quota).add "request_count" count

/-- `updateChannelUsedQuota`. -/
def updateChannelUsedQuota (id quota : Int) : Sql.Db → Sql.Db :=
  Sql.updateRow "channels" id fun row => row.add "used_quota" quota

/-- A delta of one row, with the time at which it would be written on its own. -/
structure Single where
  ty : BatchUpdateType
  id : Int
  value : Int
  now : Int

/-- The statement for one delta: a negative one decreases the quota. -/
def Single.exec (u : Single) : Sql.Db → Sql.Db :=
  match u.ty with
  | .tokenQuota =>
      if 0 ≤ u.value then increaseTokenQuota u.id u.value u.now
      else decreaseTokenQuota u.id (-u.value) u.now
  | .userQuota =>
      if 0 ≤ u.value then increaseUserQuota u.id u.value else decreaseUserQuota u.id (-u.value)
  | .usedQuota => updateUserUsedQuotaAndRequestCount u.id u.value 0
  | .requestCount => updateUserUsedQuotaAndRequestCount u.id 0 u.value
  | .channelUsedQuota => updateChannelUsedQuota u.id u.value

/-- The statements for a list of deltas, one after the other. -/
def execAll (us : List Single) (db : Sql.Db) : Sql.Db :=
  us.foldl (fun db u => u.exec db) db

/-- What a list of deltas adds up to for one row. -/
def total (us : List Single) (ty : BatchUpdateType) (id : Int) : Int :=
  (us.map fun u => if u.ty = ty ∧ u.id = id then u.value else 0).sum

/-- The map that the deltas of one type leave. -/
def storeOf (us : List Single) : Store :=
  us.foldl (fun st u => st.addNewRecord u.id u.value) ∅

/-! ## The columns of a type -/

/-- The column that every statement for a token sets to its time. -/
def IsAccessedTime (t c : String) : Prop := t = "tokens" ∧ c = "accessed_time"

instance (t c : String) : Decidable (IsAccessedTime t c) := inferInstanceAs (Decidable (_ ∧ _))

/-- The same rows, and the same values in all other columns. -/
def SameButAccessedTime (db db' : Sql.Db) : Prop :=
  (∀ t id, (db t id).isSome = (db' t id).isSome) ∧
    ∀ t id c, ¬ IsAccessedTime t c → Sql.value db t id c = Sql.value db' t id c

/-- How a delta of the type counts in a column. -/
def BatchUpdateType.sign (ty : BatchUpdateType) (t c : String) : Int :=
  (ty.columns.map fun col => if col.table = t ∧ col.name = c then col.sign else 0).sum

/-- The table of a type. -/
def BatchUpdateType.table : BatchUpdateType → String
  | .userQuota => "users"
  | .tokenQuota => "tokens"
  | .usedQuota => "users"
  | .channelUsedQuota => "channels"
  | .requestCount => "users"

section

variable {ty : BatchUpdateType} {t c : String} {id now : Int}

theorem BatchUpdateType.sign_of_mem {col : Column} (h : col ∈ ty.columns) :
    ty.sign col.table col.name = col.sign := by
  cases ty <;> simp only [columns, List.mem_cons, List.not_mem_nil, or_false] at h
  case tokenQuota => rcases h with rfl | rfl <;> rfl
  all_goals
    subst h
    rfl

theorem BatchUpdateType.sign_of_not_mem
    (h : ∀ col ∈ ty.columns, ¬ (col.table = t ∧ col.name = c)) : ty.sign t c = 0 := by
  refine List.sum_eq_zero ?_
  intro n hn
  obtain ⟨col, hcol, rfl⟩ := List.mem_map.1 hn
  exact if_neg (h col hcol)

@[simp] theorem batchSQL_table (now : Int) (st : Store) :
    (batchSQL now st ty).table = ty.table := by
  cases ty <;> rfl

@[simp] theorem batchSQL_ids (now : Int) (st : Store) :
    (batchSQL now st ty).ids = sortedUpdateIDs st := by
  cases ty <;> rfl

@[simp] theorem BatchUpdateType.table_of_mem {col : Column} (h : col ∈ ty.columns) :
    col.table = ty.table := by
  cases ty <;> simp only [columns, List.mem_cons, List.not_mem_nil, or_false] at h
  case tokenQuota => rcases h with rfl | rfl <;> rfl
  all_goals
    subst h
    rfl

/-- A statement for a map assigns its columns, and that of the time. -/
theorem mem_sets_batchSQL {st : Store} {p : String × Sql.Expr}
    (h : p ∈ (batchSQL now st ty).sets) :
    (∃ col ∈ ty.columns, col.name = p.1) ∨ IsAccessedTime ty.table p.1 := by
  cases ty <;>
    simp only [batchSQL, batchSingleColumnSQL, batchTokenQuotaSQL, List.mem_cons, List.not_mem_nil,
      or_false] at h
  case tokenQuota =>
    rcases h with rfl | rfl | rfl
    · exact Or.inl ⟨⟨"tokens", "remain_quota", 1⟩, by decide, rfl⟩
    · exact Or.inl ⟨⟨"tokens", "used_quota", -1⟩, by decide, rfl⟩
    · exact Or.inr ⟨rfl, rfl⟩
  all_goals
    subst h
    exact Or.inl ⟨_, List.mem_singleton_self _, rfl⟩

theorem lookup_sets_batchSQL (st : Store) (hc : ¬ IsAccessedTime ty.table c)
    (h : ∀ col ∈ ty.columns, col.name ≠ c) : (batchSQL now st ty).sets.lookup c = none := by
  rw [List.lookup_eq_none_iff]
  intro p hp
  rw [bne_iff_ne]
  rintro rfl
  rcases mem_sets_batchSQL hp with ⟨col, hcol, hname⟩ | htime
  · exact h col hcol hname
  · exact hc htime

/-! ## One statement -/

/-- The statement for a map moves every column by the delta of the row. -/
theorem value_exec_batchSQL (db : Sql.Db) (now : Int) (st : Store) (ty : BatchUpdateType)
    (hc : ¬ IsAccessedTime t c) :
    Sql.value ((batchSQL now st ty).exec db) t id c =
      (Sql.value db t id c).map (· + ty.sign t c * st.delta id) := by
  by_cases hmem : ∃ col ∈ ty.columns, col.table = t ∧ col.name = c
  · obtain ⟨col, hcol, rfl, rfl⟩ := hmem
    rw [value_batchSQL db now st hcol, BatchUpdateType.sign_of_mem hcol]
  · have hnot : ∀ col ∈ ty.columns, ¬ (col.table = t ∧ col.name = c) := by
      intro col hcol hboth
      exact hmem ⟨col, hcol, hboth⟩
    rw [BatchUpdateType.sign_of_not_mem hnot]
    simp only [Int.zero_mul, Int.add_zero, Option.map_id']
    by_cases ht : t = ty.table
    · subst ht
      refine Sql.value_exec_of_not_set _ _ (lookup_sets_batchSQL st hc ?_)
      intro col hcol hname
      exact hnot col hcol ⟨BatchUpdateType.table_of_mem hcol, hname⟩
    · exact Sql.value_exec_of_not_mem _ (Or.inl (by rwa [batchSQL_table]))

end

/-! ## Single statements -/

section

variable {t c : String} {id : Int}

/-- A statement for one row whose assignments add `d` to a column. -/
theorem value_updateRow_of_map {table : String} {key : Int} {assign : Sql.Row → Sql.Row} {d : Int}
    (db : Sql.Db) (h : t = table → ∀ row, assign row c = (row c).map (· + d)) :
    Sql.value (Sql.updateRow table key assign db) t id c =
      (Sql.value db t id c).map (· + if t = table ∧ id = key then d else 0) := by
  rw [Sql.value_updateRow]
  split
  next hrow =>
    simp only [Sql.value]
    cases db t id with
    | none => rfl
    | some row => exact h hrow.1 row
  next => simp

/-- Where a delta of the type does not count in any column of another table. -/
theorem BatchUpdateType.sign_of_table_ne {ty : BatchUpdateType} (h : t ≠ ty.table) :
    ty.sign t c = 0 :=
  sign_of_not_mem fun _ hcol hboth => h (hboth.1 ▸ table_of_mem hcol)

/-! What a delta of a type counts in the columns of its table. -/

theorem sign_tokenQuota (c : String) :
    BatchUpdateType.sign .tokenQuota "tokens" c =
      if c = "remain_quota" then 1 else if c = "used_quota" then -1 else 0 := by
  simp only [BatchUpdateType.sign, BatchUpdateType.columns, List.map_cons, List.map_nil,
    List.sum_cons, List.sum_nil, true_and, eq_comm (a := c)]
  by_cases hremain : "remain_quota" = c
  · subst hremain
    rfl
  · simp [hremain]

theorem sign_singleColumn {ty : BatchUpdateType} {table : String} (column : String)
    (h : ty.columns = [⟨table, column, 1⟩]) (c : String) :
    ty.sign table c = if c = column then 1 else 0 := by
  simp [BatchUpdateType.sign, h, eq_comm (a := c)]

/-- A statement for one delta is a statement for one row. -/
theorem Single.exec_eq (u : Single) :
    ∃ assign, u.exec = Sql.updateRow u.ty.table u.id assign ∧
      ∀ row c, ¬ IsAccessedTime u.ty.table c →
        assign row c = (row c).map (· + u.ty.sign u.ty.table c * u.value) := by
  obtain ⟨ty, id, value, now⟩ := u
  cases ty with
  | tokenQuota =>
      by_cases hvalue : 0 ≤ value
      · refine ⟨_, if_pos hvalue, fun row c hc => ?_⟩
        have htime : c ≠ "accessed_time" := fun h => hc ⟨rfl, h⟩
        simp only [Sql.Row.put, Sql.Row.sub, Sql.Row.add, BatchUpdateType.table, sign_tokenQuota,
          if_neg htime]
        by_cases hremain : c = "remain_quota"
        · simp [hremain]
        · by_cases hused : c = "used_quota" <;> simp [hremain, hused, Int.sub_eq_add_neg]
      · refine ⟨_, if_neg hvalue, fun row c hc => ?_⟩
        have htime : c ≠ "accessed_time" := fun h => hc ⟨rfl, h⟩
        simp only [Sql.Row.put, Sql.Row.sub, Sql.Row.add, BatchUpdateType.table, sign_tokenQuota,
          if_neg htime]
        by_cases hremain : c = "remain_quota"
        · simp [hremain]
        · by_cases hused : c = "used_quota" <;> simp [hremain, hused]
  | userQuota =>
      by_cases hvalue : 0 ≤ value
      · refine ⟨_, if_pos hvalue, fun row c _ => ?_⟩
        rw [sign_singleColumn "quota" rfl]
        by_cases hc : c = "quota" <;> simp [Sql.Row.add, hc]
      · refine ⟨_, if_neg hvalue, fun row c _ => ?_⟩
        rw [sign_singleColumn "quota" rfl]
        by_cases hc : c = "quota" <;> simp [Sql.Row.sub, hc]
  | usedQuota =>
      refine ⟨_, rfl, fun row c _ => ?_⟩
      rw [sign_singleColumn "used_quota" rfl]
      by_cases hc : c = "used_quota" <;> simp [Sql.Row.add, hc]
  | requestCount =>
      refine ⟨_, rfl, fun row c _ => ?_⟩
      rw [sign_singleColumn "request_count" rfl]
      by_cases hc : c = "request_count" <;> simp [Sql.Row.add, hc]
  | channelUsedQuota =>
      refine ⟨_, rfl, fun row c _ => ?_⟩
      rw [sign_singleColumn "used_quota" rfl]
      by_cases hc : c = "used_quota" <;> simp [Sql.Row.add, hc]

theorem isSome_exec_single (u : Single) (db : Sql.Db) (t : String) (id : Int) :
    (u.exec db t id).isSome = (db t id).isSome := by
  obtain ⟨assign, hexec, _⟩ := u.exec_eq
  rw [hexec, Sql.isSome_updateRow]

/-- A statement for one delta moves every column of its row. -/
theorem value_exec_single (u : Single) (db : Sql.Db) (hc : ¬ IsAccessedTime t c) :
    Sql.value (u.exec db) t id c =
      (Sql.value db t id c).map (· + if u.id = id then u.ty.sign t c * u.value else 0) := by
  obtain ⟨assign, hexec, hassign⟩ := u.exec_eq
  rw [hexec, value_updateRow_of_map (d := u.ty.sign t c * u.value)]
  · by_cases ht : t = u.ty.table
    · simp [ht, eq_comm]
    · simp [ht, BatchUpdateType.sign_of_table_ne ht]
  · rintro rfl row
    exact hassign row c hc

/-! ## Lists of them -/

/-- What a list of deltas adds to a column of a row. -/
def shift (us : List Single) (t c : String) (id : Int) : Int :=
  (us.map fun u => if u.id = id then u.ty.sign t c * u.value else 0).sum

theorem isSome_execAll (us : List Single) (t : String) (id : Int) :
    ∀ db : Sql.Db, (execAll us db t id).isSome = (db t id).isSome := by
  induction us with
  | nil =>
      intro db
      rfl
  | cons u us ih =>
      intro db
      exact (ih (u.exec db)).trans (isSome_exec_single u db t id)

theorem value_execAll (us : List Single) (hc : ¬ IsAccessedTime t c) :
    ∀ db : Sql.Db, Sql.value (execAll us db) t id c =
      (Sql.value db t id c).map (· + shift us t c id) := by
  induction us with
  | nil =>
      intro db
      simp [execAll, shift]
  | cons u us ih =>
      intro db
      have htail := ih (u.exec db)
      rw [value_exec_single u db hc, Option.map_map] at htail
      refine htail.trans ?_
      congr 1
      funext v
      simp only [Function.comp_apply, shift, List.map_cons, List.sum_cons, Int.add_assoc]

/-- The deltas of one type count alike. -/
theorem shift_of_type {ty : BatchUpdateType} {us : List Single} (h : ∀ u ∈ us, u.ty = ty) :
    shift us t c id = ty.sign t c * total us ty id := by
  induction us with
  | nil => simp [shift, total]
  | cons u us ih =>
      have hu : u.ty = ty := h u List.mem_cons_self
      have htail := ih fun v hv => h v (List.mem_cons_of_mem u hv)
      simp only [shift, total, List.map_cons, List.sum_cons, hu, true_and, Int.mul_add] at htail ⊢
      rw [htail]
      split <;> simp

/-- A column counts the deltas of its type only. -/
theorem BatchUpdateType.sign_of_other {ty ty' : BatchUpdateType} {col : Column}
    (hcol : col ∈ ty.columns) (hne : ty' ≠ ty) : ty'.sign col.table col.name = 0 := by
  refine sign_of_not_mem fun col' hcol' hboth => hne ?_
  have hsame : col'.table = col.table ∧ col'.name = col.name := hboth
  cases ty <;> cases ty' <;>
    simp only [columns, List.mem_cons, List.not_mem_nil, or_false] at hcol hcol' <;>
    first
      | rfl
      | (rcases hcol with rfl | rfl <;> rcases hcol' with rfl | rfl <;> simp_all)

theorem shift_of_mem {ty : BatchUpdateType} {col : Column} (us : List Single)
    (hcol : col ∈ ty.columns) :
    shift us col.table col.name id = col.sign * total us ty id := by
  induction us with
  | nil => simp [shift, total]
  | cons u us ih =>
      simp only [shift, total, List.map_cons, List.sum_cons, Int.mul_add] at ih ⊢
      rw [ih]
      by_cases hty : u.ty = ty
      · subst hty
        rw [BatchUpdateType.sign_of_mem hcol]
        by_cases hid : u.id = id <;> simp [hid]
      · simp [hty, BatchUpdateType.sign_of_other hcol hty]

theorem shift_of_not_mem {us : List Single} (h : ∀ ty : BatchUpdateType, ty.sign t c = 0) :
    shift us t c id = 0 := by
  simp [shift, h]

end

/-! ## The time of the tokens -/

theorem value_accessedTime_batchSQL (db : Sql.Db) (now : Int) (st : Store)
    (ty : BatchUpdateType) (id : Int) :
    Sql.value ((batchSQL now st ty).exec db) "tokens" id "accessed_time" =
      if ty = .tokenQuota ∧ id ∈ sortedUpdateIDs st then (db "tokens" id).map fun _ => now
      else Sql.value db "tokens" id "accessed_time" := by
  by_cases hty : ty = .tokenQuota
  · subst hty
    by_cases hid : id ∈ sortedUpdateIDs st
    · simp only [Sql.value, Sql.Update.exec, batchSQL, batchTokenQuotaSQL, hid, and_self, if_true]
      cases db "tokens" id with
      | none => rfl
      | some row => simp [Sql.Update.assign, List.lookup_cons, Sql.Expr.eval]
    · rw [if_neg fun h => hid h.2]
      exact Sql.value_exec_of_not_mem _ (Or.inr (by rwa [batchSQL_ids]))
  · rw [if_neg fun h => hty h.1]
    refine Sql.value_exec_of_not_mem _ (Or.inl ?_)
    rw [batchSQL_table]
    cases ty <;> simp [BatchUpdateType.table] at hty ⊢

theorem value_accessedTime_single (u : Single) (db : Sql.Db) (id : Int) :
    Sql.value (u.exec db) "tokens" id "accessed_time" =
      if u.ty = .tokenQuota ∧ u.id = id then (db "tokens" id).map fun _ => u.now
      else Sql.value db "tokens" id "accessed_time" := by
  obtain ⟨ty, key, value, now⟩ := u
  cases ty with
  | tokenQuota =>
      unfold Single.exec
      dsimp only
      split <;>
        simp only [increaseTokenQuota, decreaseTokenQuota, Sql.value_updateRow, Sql.Row.put,
          if_true, true_and, eq_comm (a := id)] <;>
        cases db "tokens" id <;> rfl
  | userQuota =>
      unfold Single.exec
      dsimp only
      split <;> simp [increaseUserQuota, decreaseUserQuota, Sql.value_updateRow]
  | usedQuota => simp [Single.exec, updateUserUsedQuotaAndRequestCount, Sql.value_updateRow]
  | requestCount => simp [Single.exec, updateUserUsedQuotaAndRequestCount, Sql.value_updateRow]
  | channelUsedQuota => simp [Single.exec, updateChannelUsedQuota, Sql.value_updateRow]

/-- Deltas of the tokens that are written at one time. -/
theorem value_accessedTime_execAll {us : List Single} {now : Int} (hnow : ∀ u ∈ us, u.now = now)
    (id : Int) :
    ∀ db : Sql.Db, Sql.value (execAll us db) "tokens" id "accessed_time" =
      if ∃ u ∈ us, u.ty = .tokenQuota ∧ u.id = id then (db "tokens" id).map fun _ => now
      else Sql.value db "tokens" id "accessed_time" := by
  induction us with
  | nil =>
      intro db
      simp [execAll]
  | cons u us ih =>
      intro db
      have hu : u.now = now := hnow u List.mem_cons_self
      have htail := ih (fun v hv => hnow v (List.mem_cons_of_mem u hv)) (u.exec db)
      have hrow : ((u.exec db) "tokens" id).map (fun _ => now) =
          (db "tokens" id).map fun _ => now := by
        have hsome := isSome_exec_single u db "tokens" id
        cases h : db "tokens" id <;> cases h' : u.exec db "tokens" id <;> simp [h, h'] at hsome ⊢
      rw [value_accessedTime_single, hrow, hu] at htail
      refine htail.trans ?_
      by_cases hlater : ∃ v ∈ us, v.ty = .tokenQuota ∧ v.id = id
      · simp [hlater]
      · by_cases hhead : u.ty = .tokenQuota ∧ u.id = id <;> simp [hlater, hhead]

/-! ## The map of a list of deltas -/

/-- The map holds, for each row that the list names, what its deltas add up to. -/
structure Holds (ty : BatchUpdateType) (st : Store) (us : List Single) : Prop where
  type : ∀ u ∈ us, u.ty = ty
  delta : ∀ id, st.delta id = total us ty id
  ids : ∀ id, id ∈ sortedUpdateIDs st ↔ ∃ u ∈ us, u.id = id

theorem Holds.perm {ty : BatchUpdateType} {st : Store} {us us' : List Single}
    (h : Holds ty st us) (hperm : us.Perm us') : Holds ty st us' where
  type u hu := h.type u (hperm.mem_iff.2 hu)
  delta id := by
    rw [h.delta, total, total, (hperm.map _).sum_eq]
  ids id := by
    rw [h.ids]
    exact exists_congr fun u => and_congr_left fun _ => hperm.mem_iff

/-- What `addNewRecord` makes of the deltas, one after the other, from a map. -/
theorem holds_addNewRecord {ty : BatchUpdateType} {st : Store} {us : List Single} {u : Single}
    (h : Holds ty st us) (hty : u.ty = ty) :
    Holds ty (st.addNewRecord u.id u.value) (us ++ [u]) where
  type v hv := by
    rcases List.mem_append.1 hv with hv | hv
    · exact h.type v hv
    · rwa [List.mem_singleton.1 hv]
  delta id := by
    rw [Store.delta_addNewRecord, h.delta, total, total, List.map_append, List.sum_append]
    simp [hty, eq_comm]
  ids id := by
    have hkeys : id ∈ sortedUpdateIDs (st.addNewRecord u.id u.value) ↔
        id = u.id ∨ id ∈ sortedUpdateIDs st := by
      rw [mem_sortedUpdateIDs, mem_sortedUpdateIDs, Store.addNewRecord]
      by_cases hid : id = u.id
      · subst hid
        split <;> simp
      · split <;> simp [hid]
    rw [hkeys, h.ids]
    constructor
    · rintro (rfl | ⟨v, hv, rfl⟩)
      · exact ⟨u, by simp, rfl⟩
      · exact ⟨v, by simp [hv], rfl⟩
    · rintro ⟨v, hv, rfl⟩
      rcases List.mem_append.1 hv with hv | hv
      · exact Or.inr ⟨v, hv, rfl⟩
      · exact Or.inl (by rw [List.mem_singleton.1 hv])

/-- The map that is collected from a list of deltas holds them. -/
theorem holds_storeOf {ty : BatchUpdateType} {us : List Single} (h : ∀ u ∈ us, u.ty = ty) :
    Holds ty (storeOf us) us := by
  induction us using List.reverseRecOn with
  | nil =>
      refine ⟨h, fun id => by simp [storeOf, total], fun id => ?_⟩
      simp [mem_sortedUpdateIDs, storeOf]
  | append_singleton us u ih =>
      rw [storeOf, List.foldl_concat]
      exact holds_addNewRecord (ih fun v hv => h v (by simp [hv])) (h u (by simp))

/-- The deltas of a map, one for each row. -/
def singlesOf (ty : BatchUpdateType) (st : Store) (now : Int) : List Single :=
  st.keys.map fun id => ⟨ty, id, st.delta id, now⟩

theorem total_map_of_nodup (ty : BatchUpdateType) (f : Int → Int) (now id : Int) :
    ∀ {ids : List Int}, ids.Nodup →
      total (ids.map fun k => ⟨ty, k, f k, now⟩) ty id = if id ∈ ids then f id else 0
  | [], _ => rfl
  | k :: ids, h => by
      obtain ⟨hk, hids⟩ := List.nodup_cons.1 h
      have ih := total_map_of_nodup ty f now id hids
      simp only [total, List.map_cons, List.sum_cons, true_and] at ih ⊢
      rw [ih]
      by_cases hid : k = id
      · subst hid
        simp [hk]
      · simp [hid, Ne.symm hid]

/-- Every map holds some list of deltas. -/
theorem holds_singlesOf (ty : BatchUpdateType) (st : Store) (now : Int) :
    Holds ty st (singlesOf ty st now) where
  type u hu := by
    obtain ⟨id, _, rfl⟩ := List.mem_map.1 hu
    rfl
  delta id := by
    rw [singlesOf, total_map_of_nodup ty st.delta now id st.keys_nodup]
    split
    next => rfl
    next hid =>
      refine delta_of_not_mem ?_
      rwa [mem_sortedUpdateIDs, AList.lookup_isSome, AList.mem_keys]
  ids id := by
    rw [mem_sortedUpdateIDs, AList.lookup_isSome, AList.mem_keys]
    simp [singlesOf]

/-! ## One statement for many -/

theorem sameButAccessedTime_of_holds {ty : BatchUpdateType} {st : Store} {us : List Single}
    (h : Holds ty st us) (db : Sql.Db) (now : Int) :
    SameButAccessedTime ((batchSQL now st ty).exec db) (execAll us db) := by
  refine ⟨fun t id => ?_, fun t id c hc => ?_⟩
  · rw [Sql.isSome_exec, isSome_execAll]
  · rw [value_exec_batchSQL db now st ty hc, value_execAll us hc, shift_of_type h.type, h.delta]

/-- At one time the tables are the same in every column. -/
theorem exec_batchSQL_eq_execAll {ty : BatchUpdateType} {st : Store} {us : List Single} {now : Int}
    (h : Holds ty st us) (hnow : ∀ u ∈ us, u.now = now) (db : Sql.Db) :
    (batchSQL now st ty).exec db = execAll us db := by
  obtain ⟨hrows, hvalues⟩ := sameButAccessedTime_of_holds h db now
  refine Sql.db_ext hrows fun t id c => ?_
  by_cases hc : IsAccessedTime t c
  · obtain ⟨rfl, rfl⟩ := hc
    have hids : (ty = .tokenQuota ∧ id ∈ sortedUpdateIDs st) ↔
        ∃ u ∈ us, u.ty = .tokenQuota ∧ u.id = id := by
      rw [h.ids]
      constructor
      · rintro ⟨rfl, u, hu, hid⟩
        exact ⟨u, hu, h.type u hu, hid⟩
      · rintro ⟨u, hu, hty, hid⟩
        exact ⟨(h.type u hu).symm.trans hty, u, hu, hid⟩
    rw [value_accessedTime_batchSQL, value_accessedTime_execAll hnow]
    simp only [hids]
  · exact hvalues t id c hc

theorem exec_batchSQL_of_not_mem (db : Sql.Db) (now : Int) (st : Store) (ty : BatchUpdateType)
    {t : String} {id : Int} (h : ¬ (t = ty.table ∧ id ∈ sortedUpdateIDs st)) :
    (batchSQL now st ty).exec db t id = db t id := by
  unfold Sql.Update.exec
  rw [batchSQL_table, batchSQL_ids, if_neg h]

/-- What a token has left and what it used keep their sum. -/
theorem remain_add_used_batchSQL (db : Sql.Db) (now : Int) (st : Store) (id : Int) {r u : Int}
    (hr : Sql.value db "tokens" id "remain_quota" = some r)
    (hu : Sql.value db "tokens" id "used_quota" = some u) :
    ∃ r' u', Sql.value ((batchSQL now st .tokenQuota).exec db) "tokens" id "remain_quota" = some r' ∧
      Sql.value ((batchSQL now st .tokenQuota).exec db) "tokens" id "used_quota" = some u' ∧
      r' + u' = r + u := by
  refine ⟨r + st.delta id, u + -st.delta id, ?_, ?_, by omega⟩
  · rw [value_exec_batchSQL db now st _ (by simp [IsAccessedTime]), hr, sign_tokenQuota]
    simp
  · rw [value_exec_batchSQL db now st _ (by simp [IsAccessedTime]), hu, sign_tokenQuota]
    simp

/-! ## Whole runs -/

/-- The deltas that a run gives to `addNewRecord`. -/
def records (as : List Act) : List (BatchUpdateType × Int × Int) :=
  as.filterMap fun
    | .addNewRecord ty id value => some (ty, id, value)
    | _ => none

/-- A delta as it is recorded. -/
def Single.record (u : Single) : BatchUpdateType × Int × Int := (u.ty, u.id, u.value)

/-- Everything that was recorded is in the database: no run of `batchUpdate` is under way,
and the maps are empty. -/
def State.Flushed (s : State) : Prop := s.AtRest ∧ ∀ ty, (s.stores ty).entries = []

/-- What the records of a run add up to for one row. -/
def recordTotal (rs : List (BatchUpdateType × Int × Int)) (ty : BatchUpdateType) (id : Int) : Int :=
  (rs.map fun r => if r.1 = ty ∧ r.2.1 = id then r.2.2 else 0).sum

theorem total_eq_recordTotal (us : List Single) (ty : BatchUpdateType) (id : Int) :
    total us ty id = recordTotal (us.map Single.record) ty id := by
  rw [total, recordTotal, List.map_map]
  rfl

section

variable {db : Sql.Db} {s s' : State} {a : Act} {as : List Act}

theorem recorded_step {tr : List Act}
    (h : ∀ ty id, s.recorded ty id = recordTotal (records tr) ty id) (hs : Step s a s') :
    ∀ ty id, s'.recorded ty id = recordTotal (records (tr ++ [a])) ty id := by
  intro ty id
  cases hs with
  | addNewRecord =>
      rename_i ty' id' value
      have hrecords : records (tr ++ [.addNewRecord ty' id' value]) =
          records tr ++ [(ty', id', value)] := by
        simp [records]
      rw [hrecords, recordTotal, List.map_append, List.sum_append, ← recordTotal, ← h]
      simp only [credit, List.map_cons, List.map_nil, List.sum_cons, List.sum_nil, Int.add_zero,
        eq_comm (a := ty), eq_comm (a := id)]
      by_cases hty : ty' = ty <;> simp [hty]
  | _ =>
      have hrecords := h ty id
      simpa [records, State.goto] using hrecords

/-- The ghost is what the run recorded. -/
theorem recorded_of_run (h : Run.exec Batch.step (initial db) as = some s) (ty : BatchUpdateType)
    (id : Int) : s.recorded ty id = recordTotal (records as) ty id := by
  have htrace := Run.exec_trace (P := fun _ _ => True)
    (I := fun tr s => ∀ ty id, s.recorded ty id = recordTotal (records tr) ty id)
    (fun tr s a s' hI _ hs => recorded_step hI (step_inv hs)) [] as (initial db) s
    (fun _ _ => rfl) (Run.along_of_forall (fun _ _ => trivial) as _) h
  exact htrace ty id

/-- Rows and columns that no type moves. -/
def State.Framed (db : Sql.Db) (s : State) : Prop :=
  (∀ t id, (s.db t id).isSome = (db t id).isSome) ∧
    ∀ t id c, ¬ IsAccessedTime t c → (∀ ty : BatchUpdateType, ty.sign t c = 0) →
      Sql.value s.db t id c = Sql.value db t id c

theorem State.Framed.step (h : s.Framed db) (hs : Step s a s') : s'.Framed db := by
  cases hs with
  | sent hf =>
      refine ⟨fun t id => ?_, fun t id c hc hsign => ?_⟩
      · exact (Sql.isSome_exec _ s.db t id).trans (h.1 t id)
      · refine (value_exec_batchSQL s.db _ _ _ hc).trans ?_
        rw [hsign, h.2 t id c hc hsign]
        simp
  | _ => exact h

/-- No statement of the run fails. -/
def NoFailure (as : List Act) : Prop := ∀ i now, Act.send i now true ∉ as

theorem lost_of_run (h : Run.exec Batch.step (initial db) as = some s) (hok : NoFailure as)
    (ty : BatchUpdateType) (id : Int) : s.lost ty id = 0 := by
  have halong : Run.Along Batch.step (fun _ a => ∀ i now, a ≠ Act.send i now true) (initial db) as :=
    Run.along_of_mem (by rintro a ha i now rfl; exact hok i now ha) _
  refine Run.exec_invariant (I := fun s => s.lost ty id = 0) ?_ rfl halong h
  intro s a s' hlost hP hs
  cases step_inv hs with
  | failed hf => exact absurd rfl (hP _ _)
  | _ => exact hlost

/-- Once everything is flushed, the tables are those that the single statements make, in
any order. -/
theorem sameButAccessedTime_of_run (h : Run.exec Batch.step (initial db) as = some s)
    (hok : NoFailure as) (hflushed : s.Flushed) (us : List Single)
    (hus : (us.map Single.record).Perm (records as)) :
    SameButAccessedTime s.db (execAll us db) := by
  have hframed : s.Framed db :=
    Run.exec_always (I := fun s => s.Framed db) (fun _ _ _ hI hs => hI.step (step_inv hs))
      ⟨fun _ _ => rfl, fun _ _ _ _ _ => rfl⟩ h
  have happlied : ∀ ty id, s.applied ty id = total us ty id := by
    intro ty id
    have hfl : Pool.total (Flush.inFlight ty id) s.flushes = 0 :=
      Pool.total_eq_zero _ fun f hf => by
        rw [hflushed.1 f hf]
        rfl
    have htotal : recordTotal (records as) ty id = total us ty id := by
      rw [total_eq_recordTotal, recordTotal, recordTotal, (hus.map _).sum_eq]
    have hdelta : (s.stores ty).delta id = 0 := by
      simp [Store.delta, AList.lookup, hflushed.2 ty]
    rw [State.applied, hfl, lost_of_run h hok, hdelta, recorded_of_run h, htotal]
    omega
  refine ⟨fun t id => ?_, fun t id c hc => ?_⟩
  · rw [isSome_execAll, hframed.1]
  · rw [value_execAll us hc]
    by_cases hmem : ∃ ty : BatchUpdateType, ∃ col ∈ ty.columns, col.table = t ∧ col.name = c
    · obtain ⟨ty, col, hcol, rfl, rfl⟩ := hmem
      rw [balanced_of_run h ty col hcol id, happlied, shift_of_mem us hcol]
    · have hsign : ∀ ty : BatchUpdateType, ty.sign t c = 0 := fun ty =>
        BatchUpdateType.sign_of_not_mem fun col hcol hboth => hmem ⟨ty, col, hcol, hboth⟩
      rw [hframed.2 t id c hc hsign, shift_of_not_mem hsign]
      simp

theorem SameButAccessedTime.symm {db db' : Sql.Db} (h : SameButAccessedTime db db') :
    SameButAccessedTime db' db :=
  ⟨fun t id => (h.1 t id).symm, fun t id c hc => (h.2 t id c hc).symm⟩

theorem SameButAccessedTime.trans {db db' db'' : Sql.Db} (h : SameButAccessedTime db db')
    (h' : SameButAccessedTime db' db'') : SameButAccessedTime db db'' :=
  ⟨fun t id => (h.1 t id).trans (h'.1 t id),
    fun t id c hc => (h.2 t id c hc).trans (h'.2 t id c hc)⟩

/-- The deltas of a run as single updates. -/
def singlesOfRun (as : List Act) : List Single :=
  (records as).map fun r => ⟨r.1, r.2.1, r.2.2, 0⟩

theorem record_singlesOfRun (as : List Act) :
    (singlesOfRun as).map Single.record = records as := by
  rw [singlesOfRun, List.map_map]
  exact List.map_id _

/-- Two runs that record the same deltas and flush them all, when and in as many parts as
they like. -/
theorem sameButAccessedTime_of_runs {bs : List Act}
    (h : Run.exec Batch.step (initial db) as = some s)
    (h' : Run.exec Batch.step (initial db) bs = some s') (hok : NoFailure as) (hok' : NoFailure bs)
    (hflushed : s.Flushed) (hflushed' : s'.Flushed) (hperm : (records as).Perm (records bs)) :
    SameButAccessedTime s.db s'.db := by
  have hus := record_singlesOfRun as
  have hleft := sameButAccessedTime_of_run h hok hflushed (singlesOfRun as)
    (by rw [hus])
  have hright := sameButAccessedTime_of_run h' hok' hflushed' (singlesOfRun as)
    (by rw [hus]; exact hperm)
  exact hleft.trans hright.symm

end

/-- A charge to a token of this many, sent at this time. -/
def tokenRun (now : Int) : List Act :=
  [.addNewRecord .tokenQuota 3 (-100), .start, .look 0, .look 0, .swap 0, .swap 0, .send 0 now false,
    .swap 0, .swap 0, .swap 0, .swap 0]

end DazeApi.Batch
