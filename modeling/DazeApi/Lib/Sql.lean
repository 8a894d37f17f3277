/-!
# `UPDATE` by primary key

The fragment of SQL that a bulk update by primary key needs: a table is a map
from the key to a row, a row maps a column to a number or to NULL, and an
`UPDATE` names the keys it touches and gives each assigned column an
expression.  The expressions are a constant and the searched
`CASE id WHEN k THEN column + d … END`, which takes the first arm of the row's
key and is NULL without one.

All assignments of a statement read the row as it was before the statement.
-/

namespace Sql

/-- A row: the value of each column, `none` for NULL. -/
abbrev Row := String → Option Int

/-- The rows of a table by primary key. -/
abbrev Table := Int → Option Row

abbrev Db := String → Table

/-- The right side of an assignment. -/
inductive Expr where
  | const (value : Int)
  /-- `CASE id WHEN k THEN column + d …`, one arm `(k, d)` each. -/
  | caseAdd (column : String) (arms : List (Int × Int))
  /-- `CASE id WHEN k THEN column - d …`. -/
  | caseSub (column : String) (arms : List (Int × Int))
deriving DecidableEq, Repr

/-- The value of an expression on the row with key `id`. -/
def Expr.eval (id : Int) (row : Row) : Expr → Option Int
  | .const v => some v
  | .caseAdd c arms => (arms.lookup id).bind fun d => (row c).map (· + d)
  | .caseSub c arms => (arms.lookup id).bind fun d => (row c).map (· - d)

/-- `UPDATE table SET column = expr, … WHERE id IN (ids)`. -/
structure Update where
  table : String
  sets : List (String × Expr)
  ids : List Int
deriving DecidableEq, Repr

/-- The arms of a `CASE`, in order. -/
def armsText (column op : String) (arms : List (Int × Int)) : String :=
  " ".intercalate (arms.map fun arm =>
    "WHEN " ++ toString arm.1 ++ " THEN " ++ column ++ op ++ toString arm.2)

def Expr.text : Expr → String
  | .const v => toString v
  | .caseAdd c arms => "CASE id " ++ armsText c " + " arms ++ " END"
  | .caseSub c arms => "CASE id " ++ armsText c " - " arms ++ " END"

/-- The statement as it is sent. -/
def Update.text (u : Update) : String :=
  "UPDATE " ++ u.table ++ " SET " ++
    ", ".intercalate (u.sets.map fun a => a.1 ++ " = " ++ a.2.text) ++
    " WHERE id IN (" ++ ",".intercalate (u.ids.map toString) ++ ")"

/-- The row with key `id` after the assignments. -/
def Update.assign (u : Update) (id : Int) (row : Row) : Row := fun c =>
  match u.sets.lookup c with
  | some e => e.eval id row
  | none => row c

/-- The database after a statement. -/
def Update.exec (u : Update) (db : Db) : Db := fun t id =>
  if t = u.table ∧ id ∈ u.ids then (db t id).map (u.assign id) else db t id

/-- The value of a column in the row with key `id`, if there is one. -/
def value (db : Db) (table : String) (id : Int) (column : String) : Option Int :=
  (db table id).bind (· column)

/-- `UPDATE table SET … WHERE id = key`, the assignments as a function of the row. -/
def updateRow (table : String) (key : Int) (assign : Row → Row) (db : Db) : Db := fun t id =>
  if t = table ∧ id = key then (db t id).map assign else db t id

/-- `column = column + d`. -/
def Row.add (row : Row) (column : String) (d : Int) : Row := fun c =>
  if c = column then (row c).map (· + d) else row c

/-- `column = column - d`. -/
def Row.sub (row : Row) (column : String) (d : Int) : Row := fun c =>
  if c = column then (row c).map (· - d) else row c

/-- `column = v`. -/
def Row.put (row : Row) (column : String) (v : Int) : Row := fun c =>
  if c = column then some v else row c

/-! ## What a statement changes -/

/-- Databases with the same rows, and the same value in each column of each row, are the
same. -/
theorem db_ext {db db' : Db} (hrows : ∀ t id, (db t id).isSome = (db' t id).isSome)
    (hvalues : ∀ t id c, value db t id c = value db' t id c) : db = db' := by
  funext t id
  have hrow := hrows t id
  cases h : db t id with
  | none =>
      rw [h, Option.isSome_none, eq_comm, Option.isSome_eq_false_iff,
        Option.isNone_iff_eq_none] at hrow
      rw [hrow]
  | some row =>
      rw [h, Option.isSome_some, eq_comm, Option.isSome_iff_exists] at hrow
      obtain ⟨row', h'⟩ := hrow
      rw [h']
      congr 1
      funext c
      simpa [value, h, h'] using hvalues t id c

/-- A statement neither makes nor removes a row. -/
theorem isSome_exec (u : Update) (db : Db) (t : String) (id : Int) :
    (u.exec db t id).isSome = (db t id).isSome := by
  unfold Update.exec
  split
  · rw [Option.isSome_map]
  · rfl

theorem isSome_updateRow (table : String) (key : Int) (assign : Row → Row) (db : Db) (t : String)
    (id : Int) : (updateRow table key assign db t id).isSome = (db t id).isSome := by
  unfold updateRow
  split
  · rw [Option.isSome_map]
  · rfl

theorem value_updateRow (table : String) (key : Int) (assign : Row → Row) (db : Db) (t : String)
    (id : Int) (c : String) :
    value (updateRow table key assign db) t id c =
      if t = table ∧ id = key then (db t id).bind fun row => assign row c
      else value db t id c := by
  simp only [value, updateRow]
  split
  · cases db t id <;> rfl
  · rfl

/-- A statement leaves the rows it does not name alone. -/
theorem value_exec_of_not_mem {u : Update} {db : Db} {t : String} {id : Int} (c : String)
    (h : t ≠ u.table ∨ id ∉ u.ids) : value (u.exec db) t id c = value db t id c := by
  have hn : ¬ (t = u.table ∧ id ∈ u.ids) := by
    rintro ⟨ht, hid⟩
    exact h.elim (· ht) (· hid)
  simp only [value, Update.exec, if_neg hn]

/-- A statement leaves the columns it does not assign alone. -/
theorem value_exec_of_not_set {u : Update} {db : Db} (t : String) (id : Int) {c : String}
    (h : u.sets.lookup c = none) : value (u.exec db) t id c = value db t id c := by
  simp only [value, Update.exec]
  split
  next =>
    cases db t id with
    | none => rfl
    | some row => simp [Update.assign, h]
  next => rfl

/-- A column assigned by `CASE … THEN column + d` moves by the arm of its row. -/
theorem value_exec_caseAdd {u : Update} {db : Db} {id d : Int} {c : String}
    {arms : List (Int × Int)} (hid : id ∈ u.ids) (hset : u.sets.lookup c = some (.caseAdd c arms))
    (harm : arms.lookup id = some d) :
    value (u.exec db) u.table id c = (value db u.table id c).map (· + d) := by
  simp only [value, Update.exec, hid, and_self, if_true]
  cases db u.table id with
  | none => rfl
  | some row => simp [Update.assign, hset, Expr.eval, harm]

/-- A column assigned by `CASE … THEN column - d` moves by the arm of its row. -/
theorem value_exec_caseSub {u : Update} {db : Db} {id d : Int} {c : String}
    {arms : List (Int × Int)} (hid : id ∈ u.ids) (hset : u.sets.lookup c = some (.caseSub c arms))
    (harm : arms.lookup id = some d) :
    value (u.exec db) u.table id c = (value db u.table id c).map (· - d) := by
  simp only [value, Update.exec, hid, and_self, if_true]
  cases db u.table id with
  | none => rfl
  | some row => simp [Update.assign, hset, Expr.eval, harm]

/-- The arms built from a list of keys hold the key's own value. -/
theorem lookup_arms (f : Int → Int) {id : Int} {ids : List Int} (h : id ∈ ids) :
    (ids.map fun k => (k, f k)).lookup id = some (f id) := by
  induction ids with
  | nil => cases h
  | cons k ids ih =>
      simp only [List.map_cons, List.lookup_cons]
      by_cases hk : id = k
      · simp [hk]
      · simp only [beq_eq_false_iff_ne.2 hk]
        exact ih (by simpa [hk] using h)

end Sql
