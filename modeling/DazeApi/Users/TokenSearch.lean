import DazeApi.Lib.Like
import DazeApi.Lib.Text
import Mathlib.Data.List.Count

/-!
# The search over a user's tokens

`SearchUserTokens` filters the rows of a user by patterns for the name and the key and
returns one page of them.  A term of the search is cleaned by `sanitizeLikePattern`: `!`
is the escape character of the query, so `!` and `_` are escaped, and `%` stays a wildcard.

`searchUserTokens_pages` says what a user finds in the end: the tokens whose texts fit the
terms, where only `%` is special, each on one page and the newest first.
-/

namespace DazeApi.Users.TokenSearch

/-- A row of `tokens`, with the columns the search reads. -/
structure Token where
  id : Int
  userId : Int
  name : String
  key : String
  deleted : Bool
  deriving DecidableEq

def sanitizeLikePattern (input : String) : Except String String :=
  let input := Text.replaceAll input "!" "!!"
  let input := Text.replaceAll input "_" "!_"
  if Text.contains input "%%" then .error "搜索模式中不允许包含连续的 % 通配符"
  else
    let count := input.toList.count '%'
    if 2 < count then .error "搜索模式中最多允许包含 2 个 % 通配符"
    else if 0 < count then
      let stripped := Text.replaceAll input "%" ""
      if Text.byteLength stripped < 2 then .error "使用模糊搜索时，关键词长度至少为 2 个字符"
      else .ok input
    else .ok input

def searchHardLimit : Int := 100

/-- A condition `field LIKE pattern ESCAPE '!'`. -/
structure Cond where
  field : Token → String
  pattern : String

/-- The database refuses a query with a pattern it cannot read. -/
def Cond.run (c : Cond) (rows : List Token) : Option (List Token) :=
  if rows.all fun t => (Like.like '!' c.pattern.toList (c.field t).toList).isSome then
    some (rows.filter fun t => Like.like '!' c.pattern.toList (c.field t).toList = some true)
  else none

def runConds : List Cond → List Token → Option (List Token)
  | [], rows => some rows
  | c :: cs, rows => (c.run rows).bind (runConds cs)

/-- The rows of a user that are not deleted. -/
def userTokens (rows : List Token) (userId : Int) : List Token :=
  rows.filter fun t => t.userId = userId && !t.deleted

/-- The condition of a term: an empty term has none. -/
def condOf (field : Token → String) (term : String) : Except String (List Cond) :=
  if term = "" then .ok []
  else
    match sanitizeLikePattern term with
    | .error err => .error err
    | .ok pattern => .ok [⟨field, pattern⟩]

def trimPrefix (s p : String) : String :=
  if Text.hasPrefix s p then Text.dropPrefix s p else s

/-- `Order("id desc")`. -/
def newestFirst (rows : List Token) : List Token :=
  rows.mergeSort fun t u => u.id ≤ t.id

/-- One page of the tokens and the number of all; `rows` is the table. -/
def searchUserTokens (maxTokens : Int) (rows : List Token) (userId : Int)
    (keyword token : String) (offset limit : Int) : Except String (List Token × Int) :=
  let limit := if limit ≤ 0 ∨ searchHardLimit < limit then searchHardLimit else limit
  let offset := if offset < 0 then 0 else offset
  let token := trimPrefix token "sk-"
  let hasFuzzy := Text.contains keyword "%" || Text.contains token "%"
  if hasFuzzy && maxTokens < (userTokens rows userId).length then
    .error "令牌数量超过上限，仅允许精确搜索，请勿使用 % 通配符"
  else
    match condOf Token.name keyword with
    | .error err => .error err
    | .ok byName =>
        match condOf Token.key token with
        | .error err => .error err
        | .ok byKey =>
            match runConds (byName ++ byKey) (userTokens rows userId) with
            | none => .error "搜索令牌失败"
            | some found =>
                -- `Limit(0)` leaves no row for the count
                let total := if maxTokens = 0 then 0 else (found.length : Int)
                .ok (((newestFirst found).drop offset.toNat).take limit.toNat, total)

/-! ## What a search means -/

/-- The text has the parts of the term between its `%`; an empty term asks for nothing. -/
def Asks (term text : String) : Prop :=
  term = "" ∨ Like.Fits (Like.parts term.toList) text.toList

/-- The term has two wildcards in a row or more than two, or next to nothing beside them;
its `!` and `_` count twice. -/
def BadTerm (term : String) : Prop :=
  ['%', '%'] <:+: term.toList ∨ 2 < term.toList.count '%' ∨
    '%' ∈ term.toList ∧
      Text.byteLength (String.ofList (Like.escape '!' (term.toList.filter (· ≠ '%')))) < 2

instance (term : String) : Decidable (BadTerm term) :=
  inferInstanceAs (Decidable (_ ∨ _ ∨ _ ∧ _))

/-- The user has too many tokens for a term with a wildcard. -/
def TooMany (maxTokens : Int) (rows : List Token) (userId : Int) (keyword token : String) : Prop :=
  ('%' ∈ keyword.toList ∨ '%' ∈ token.toList) ∧ maxTokens < (userTokens rows userId).length

instance (maxTokens : Int) (rows : List Token) (userId : Int) (keyword token : String) :
    Decidable (TooMany maxTokens rows userId keyword token) :=
  inferInstanceAs (Decidable ((_ ∨ _) ∧ _))

def Refused (maxTokens : Int) (rows : List Token) (userId : Int) (keyword token : String) : Prop :=
  TooMany maxTokens rows userId keyword token ∨ BadTerm keyword ∨ BadTerm token

instance (maxTokens : Int) (rows : List Token) (userId : Int) (keyword token : String) :
    Decidable (Refused maxTokens rows userId keyword token) :=
  inferInstanceAs (Decidable (_ ∨ _ ∨ _))

/-- The tokens a user may find. -/
def Found (rows : List Token) (userId : Int) (keyword token : String) (t : Token) : Prop :=
  t ∈ rows ∧ t.userId = userId ∧ t.deleted = false ∧ Asks keyword t.name ∧ Asks token t.key

/-- The tokens that one call shows. -/
def shown (r : Except String (List Token × Int)) : List Token :=
  match r with
  | .error _ => []
  | .ok page => page.1

/-! ## The pattern of a term -/

section

variable {s term pattern : String}

theorem toList_sanitize (s : String) :
    (Text.replaceAll (Text.replaceAll s "!" "!!") "_" "!_").toList = Like.escape '!' s.toList := by
  have hbang : (Text.replaceAll s "!" "!!").toList =
      s.toList.flatMap fun c => if c = '!' then ['!', '!'] else [c] := by
    rw [Text.replaceAll, String.toList_ofList]
    exact Text.replaceFrom_singleton '!' ['!', '!'] s.toList
  have hline : (Text.replaceAll (Text.replaceAll s "!" "!!") "_" "!_").toList =
      (Text.replaceAll s "!" "!!").toList.flatMap fun c => if c = '_' then ['!', '_'] else [c] := by
    rw [Text.replaceAll, String.toList_ofList]
    exact Text.replaceFrom_singleton '_' ['!', '_'] _
  rw [hline, hbang, List.flatMap_assoc, Like.escape]
  refine congrArg (fun f => s.toList.flatMap f) (funext fun c => ?_)
  by_cases hc : c = '!'
  · subst hc
    decide
  · rw [if_neg hc, List.flatMap_singleton]
    by_cases hline : c = '_'
    · rw [if_pos hline, if_pos (Or.inr hline), hline]
    · rw [if_neg hline, if_neg (not_or.2 ⟨hc, hline⟩)]

theorem contains_iff (s sub : String) : Text.contains s sub = true ↔ sub.toList <:+: s.toList := by
  rw [Text.contains, List.any_eq_true]
  simp only [List.mem_tails, List.isPrefixOf_iff_prefix]
  rw [List.infix_iff_prefix_suffix]
  constructor
  · rintro ⟨t, htail, hbegin⟩
    exact ⟨t, hbegin, htail⟩
  · rintro ⟨t, hbegin, htail⟩
    exact ⟨t, htail, hbegin⟩

theorem toList_removed (s : String) :
    (Text.replaceAll s "%" "").toList = s.toList.filter (· ≠ '%') := by
  have hflat : (Text.replaceAll s "%" "").toList =
      s.toList.flatMap fun c => if c = '%' then [] else [c] := by
    rw [Text.replaceAll, String.toList_ofList]
    exact Text.replaceFrom_singleton '%' [] s.toList
  rw [hflat]
  induction s.toList with
  | nil => rfl
  | cons c cs ih =>
      rw [List.flatMap_cons, ih]
      by_cases hc : c = '%'
      · simp [hc]
      · simp [hc]

/-- A term that is not bad is cleaned, and another is refused. -/
theorem sanitizeLikePattern_spec (term : String) :
    (BadTerm term ∧ ∃ err, sanitizeLikePattern term = .error err) ∨
    (¬ BadTerm term ∧ ∃ pattern, sanitizeLikePattern term = .ok pattern ∧
      pattern.toList = Like.escape '!' term.toList) := by
  have hdoubled : Text.contains (Text.replaceAll (Text.replaceAll term "!" "!!") "_" "!_") "%%" =
      true ↔ ['%', '%'] <:+: term.toList := by
    rw [contains_iff, toList_sanitize]
    exact Like.infix_escape (by decide) term.toList
  have hcount : (Text.replaceAll (Text.replaceAll term "!" "!!") "_" "!_").toList.count '%' =
      term.toList.count '%' := by
    rw [toList_sanitize, Like.count_escape (by decide)]
  have hstripped :
      Text.replaceAll (Text.replaceAll (Text.replaceAll term "!" "!!") "_" "!_") "%" "" =
        String.ofList (Like.escape '!' (term.toList.filter (· ≠ '%'))) := by
    apply String.toList_inj.1
    rw [toList_removed, toList_sanitize, String.toList_ofList, Like.filter_escape (by decide)]
  rw [sanitizeLikePattern, BadTerm]
  by_cases hdouble : ['%', '%'] <:+: term.toList
  · rw [if_pos (hdoubled.2 hdouble)]
    exact Or.inl ⟨Or.inl hdouble, _, rfl⟩
  · rw [if_neg (mt hdoubled.1 hdouble)]
    show (_ ∧ ∃ err, (if 2 < List.count '%' _ then _ else _) = Except.error err) ∨
      (_ ∧ ∃ pattern, (if 2 < List.count '%' _ then _ else _) = Except.ok pattern ∧ _)
    rw [hcount, hstripped]
    by_cases hmany : 2 < term.toList.count '%'
    · rw [if_pos hmany]
      exact Or.inl ⟨Or.inr (Or.inl hmany), _, rfl⟩
    · rw [if_neg hmany]
      by_cases hwild : '%' ∈ term.toList
      · rw [if_pos (List.count_pos_iff.2 hwild)]
        by_cases hshort : Text.byteLength
            (String.ofList (Like.escape '!' (term.toList.filter (· ≠ '%')))) < 2
        · rw [if_pos hshort]
          exact Or.inl ⟨Or.inr (Or.inr ⟨hwild, hshort⟩), _, rfl⟩
        · rw [if_neg hshort]
          refine Or.inr ⟨?_, _, rfl, toList_sanitize term⟩
          rintro (h | h | h)
          · exact hdouble h
          · exact hmany h
          · exact hshort h.2
      · rw [if_neg (mt List.count_pos_iff.1 hwild)]
        refine Or.inr ⟨?_, _, rfl, toList_sanitize term⟩
        rintro (h | h | h)
        · exact hdouble h
        · exact hmany h
        · exact hwild h.1

/-- The conditions keep the rows with a property, in their order. -/
def Keeps (conds : List Cond) (P : Token → Prop) : Prop :=
  ∃ p : Token → Bool, (∀ t, p t = true ↔ P t) ∧ ∀ rows, runConds conds rows = some (rows.filter p)

theorem Keeps.append {conds conds' : List Cond} {P P' : Token → Prop} (h : Keeps conds P)
    (h' : Keeps conds' P') : Keeps (conds ++ conds') fun t => P t ∧ P' t := by
  obtain ⟨p, hp, hrun⟩ := h
  obtain ⟨p', hp', hrun'⟩ := h'
  have happend : ∀ (cs : List Cond) (rows : List Token),
      runConds (cs ++ conds') rows = (runConds cs rows).bind (runConds conds') := by
    intro cs
    induction cs with
    | nil => exact fun rows => rfl
    | cons c cs ih =>
        intro rows
        show (c.run rows).bind (runConds (cs ++ conds')) = _
        rw [funext ih]
        exact (Option.bind_assoc _ _ _).symm
  refine ⟨fun t => p' t && p t, fun t => ?_, fun rows => ?_⟩
  · rw [Bool.and_eq_true, hp, hp', and_comm]
  · rw [happend, hrun, Option.bind_some, hrun', List.filter_filter]

theorem keeps_like (field : Token → String) (h : pattern.toList = Like.escape '!' term.toList) :
    Keeps [⟨field, pattern⟩] fun t => Like.Fits (Like.parts term.toList) (field t).toList := by
  have hlike : ∀ t : Token, ∃ b, Like.like '!' pattern.toList (field t).toList = some b ∧
      (b = true ↔ Like.Fits (Like.parts term.toList) (field t).toList) := by
    intro t
    rw [h]
    exact Like.like_escape (by decide) term.toList (field t).toList
  refine ⟨fun t => Like.like '!' pattern.toList (field t).toList = some true, fun t => ?_,
    fun rows => ?_⟩
  · obtain ⟨b, hb, hfits⟩ := hlike t
    rw [decide_eq_true_iff, hb, Option.some_inj, hfits]
  · have hall : (rows.all fun t => (Like.like '!' pattern.toList (field t).toList).isSome) =
        true := by
      rw [List.all_eq_true]
      intro t _
      obtain ⟨b, hb, -⟩ := hlike t
      rw [hb]
      rfl
    rw [runConds, Cond.run, if_pos hall]
    rfl

theorem not_badTerm_empty : ¬ BadTerm "" := by
  rintro (h | h | h)
  · exact absurd (List.infix_nil.1 h) (by decide)
  · exact absurd h (by decide)
  · exact absurd h.1 (by decide)

theorem condOf_spec (field : Token → String) (term : String) :
    (BadTerm term ∧ ∃ err, condOf field term = .error err) ∨
    (¬ BadTerm term ∧ ∃ conds, condOf field term = .ok conds ∧
      Keeps conds fun t => Asks term (field t)) := by
  rw [condOf]
  by_cases hempty : term = ""
  · subst hempty
    rw [if_pos rfl]
    refine Or.inr ⟨not_badTerm_empty, [], rfl, fun _ => true, fun t => ?_, fun rows => ?_⟩
    · exact ⟨fun _ => Or.inl rfl, fun _ => rfl⟩
    · rw [List.filter_eq_self.2 fun _ _ => rfl]
      rfl
  · rw [if_neg hempty]
    rcases sanitizeLikePattern_spec term with ⟨hbad, err, herr⟩ | ⟨hbad, pattern, hok, hpattern⟩
    · rw [herr]
      exact Or.inl ⟨hbad, err, rfl⟩
    · rw [hok]
      obtain ⟨p, hp, hrun⟩ := keeps_like field hpattern
      refine Or.inr ⟨hbad, _, rfl, p, fun t => (hp t).trans ?_, hrun⟩
      exact (or_iff_right hempty).symm

end

/-! ## The pages -/

section

variable {α : Type} {maxTokens userId : Int} {rows : List Token} {keyword token : String}

/-- The pages of a list, up to the `n`-th. -/
theorem flatMap_pages (l : List α) (m n : Nat) :
    ((List.range n).flatMap fun k => (l.drop (k * m)).take m) = l.take (n * m) := by
  induction n with
  | zero => simp
  | succ n ih =>
      rw [List.range_succ, List.flatMap_append, ih, List.flatMap_singleton, Nat.succ_mul,
        List.take_add]

theorem mem_newestFirst (rows : List Token) (t : Token) : t ∈ newestFirst rows ↔ t ∈ rows :=
  List.mem_mergeSort

theorem pairwise_newestFirst (h : (rows.map Token.id).Nodup) :
    (newestFirst rows).Pairwise fun t u => u.id < t.id := by
  have hle : (newestFirst rows).Pairwise fun t u => decide (u.id ≤ t.id) = true :=
    List.pairwise_mergeSort
      (fun t u v htu huv => by
        rw [decide_eq_true_iff] at htu huv ⊢
        exact Int.le_trans huv htu)
      (fun t u => by
        rw [Bool.or_eq_true, decide_eq_true_iff, decide_eq_true_iff]
        exact Int.le_total _ _) rows
  have hne : (newestFirst rows).Pairwise fun t u => t.id ≠ u.id :=
    List.pairwise_map.1 (((List.mergeSort_perm rows _).map Token.id).nodup_iff.2 h)
  refine (hle.and hne).imp fun {t u} htu => ?_
  have hle : u.id ≤ t.id := of_decide_eq_true htu.1
  have hne : t.id ≠ u.id := htu.2
  omega

theorem mem_userTokens {t : Token} :
    t ∈ userTokens rows userId ↔ t ∈ rows ∧ t.userId = userId ∧ t.deleted = false := by
  rw [userTokens, List.mem_filter, Bool.and_eq_true, decide_eq_true_iff, Bool.not_eq_true']

theorem nodup_filter_userTokens (h : (rows.map Token.id).Nodup) (p : Token → Bool) :
    (((userTokens rows userId).filter p).map Token.id).Nodup :=
  h.sublist ((List.filter_sublist.trans List.filter_sublist).map Token.id)

theorem tooMany_iff (maxTokens : Int) (rows : List Token) (userId : Int) (keyword token : String) :
    ((Text.contains keyword "%" || Text.contains token "%") &&
      decide (maxTokens < (userTokens rows userId).length)) = true ↔
        TooMany maxTokens rows userId keyword token := by
  rw [Bool.and_eq_true, Bool.or_eq_true, contains_iff, contains_iff, decide_eq_true_iff]
  exact and_congr_left' (or_congr Text.singleton_infix_iff Text.singleton_infix_iff)

theorem searchUserTokens_of_refused (h : Refused maxTokens rows userId keyword (trimPrefix token "sk-"))
    (offset limit : Int) :
    ∃ err, searchUserTokens maxTokens rows userId keyword token offset limit = .error err := by
  rw [searchUserTokens]
  by_cases hmany : TooMany maxTokens rows userId keyword (trimPrefix token "sk-")
  · rw [if_pos ((tooMany_iff ..).2 hmany)]
    exact ⟨_, rfl⟩
  · rw [if_neg (mt (tooMany_iff ..).1 hmany)]
    rcases condOf_spec Token.name keyword with ⟨-, err, herr⟩ | ⟨hname, byName, hbyName, -⟩
    · rw [herr]
      exact ⟨err, rfl⟩
    · rw [hbyName]
      rcases condOf_spec Token.key (trimPrefix token "sk-") with ⟨-, err, herr⟩ | ⟨hkey, -⟩
      · rw [herr]
        exact ⟨err, rfl⟩
      · exact absurd h (not_or.2 ⟨hmany, not_or.2 ⟨hname, hkey⟩⟩)

/-- A search that is not refused takes its page from the rows that its conditions keep. -/
theorem searchUserTokens_of_not_refused
    (h : ¬ Refused maxTokens rows userId keyword (trimPrefix token "sk-")) :
    ∃ p : Token → Bool,
      (∀ t, p t = true ↔ Asks keyword t.name ∧ Asks (trimPrefix token "sk-") t.key) ∧
      ∀ offset limit, searchUserTokens maxTokens rows userId keyword token offset limit =
        .ok (((newestFirst ((userTokens rows userId).filter p)).drop
              (if offset < 0 then 0 else offset).toNat).take
              (if limit ≤ 0 ∨ searchHardLimit < limit then searchHardLimit else limit).toNat,
            if maxTokens = 0 then 0 else (((userTokens rows userId).filter p).length : Int)) := by
  obtain ⟨hmany, hterms⟩ := not_or.1 h
  obtain ⟨hname, hkey⟩ := not_or.1 hterms
  obtain ⟨byName, hbyName, hkeepsName⟩ := ((condOf_spec Token.name keyword).resolve_left
    fun hbad => hname hbad.1).2
  obtain ⟨byKey, hbyKey, hkeepsKey⟩ := ((condOf_spec Token.key (trimPrefix token "sk-")).resolve_left
    fun hbad => hkey hbad.1).2
  obtain ⟨p, hp, hrun⟩ := hkeepsName.append hkeepsKey
  refine ⟨p, hp, fun offset limit => ?_⟩
  rw [searchUserTokens, if_neg (mt (tooMany_iff ..).1 hmany), hbyName, hbyKey]
  show (match runConds (byName ++ byKey) (userTokens rows userId) with
    | none => _
    | some found => _) = _
  rw [hrun]

/-- A refused search fails whatever the page.  Another has one list of tokens, the newest
first, from which every page is taken: walking through the pages shows each token once. -/
theorem searchUserTokens_pages (maxTokens : Int) (userId : Int) (keyword token : String)
    (hids : (rows.map Token.id).Nodup) :
    (Refused maxTokens rows userId keyword (trimPrefix token "sk-") → ∀ offset limit,
      ∃ err, searchUserTokens maxTokens rows userId keyword token offset limit = .error err) ∧
    (¬ Refused maxTokens rows userId keyword (trimPrefix token "sk-") → ∃ found : List Token,
      found.Pairwise (fun t u => u.id < t.id) ∧
      (∀ t, t ∈ found ↔ Found rows userId keyword (trimPrefix token "sk-") t) ∧
      (∀ offset limit, ∃ page, searchUserTokens maxTokens rows userId keyword token offset limit =
        .ok (page, if maxTokens = 0 then 0 else (found.length : Int)) ∧
        page <+: found.drop offset.toNat ∧ page.length ≤ 100) ∧
      ∀ n limit : Nat, 0 < limit → limit ≤ 100 →
        (List.range n).flatMap (fun k => shown (searchUserTokens maxTokens rows userId keyword token
          ((k * limit : Nat) : Int) limit)) = found.take (n * limit)) := by
  refine ⟨searchUserTokens_of_refused, fun h => ?_⟩
  obtain ⟨p, hp, hsearch⟩ := searchUserTokens_of_not_refused h
  have hlength : (newestFirst ((userTokens rows userId).filter p)).length =
      ((userTokens rows userId).filter p).length := List.length_mergeSort _
  refine ⟨newestFirst ((userTokens rows userId).filter p),
    pairwise_newestFirst (nodup_filter_userTokens hids p), fun t => ?_, fun offset limit => ?_,
    fun n limit hpos hle => ?_⟩
  · rw [mem_newestFirst, List.mem_filter, mem_userTokens, hp, Found]
    simp only [and_assoc]
  · refine ⟨_, (hsearch offset limit).trans (by rw [hlength]), ?_, ?_⟩
    · have hoffset : (if offset < 0 then 0 else offset).toNat = offset.toNat := by
        split <;> omega
      rw [hoffset]
      exact List.take_prefix _ _
    · refine (List.length_take_le _ _).trans ?_
      rw [searchHardLimit]
      split <;> omega
  · rw [← flatMap_pages]
    refine congrArg (fun f => (List.range n).flatMap f) (funext fun k => ?_)
    have hoffset : ¬ ((k * limit : Nat) : Int) < 0 := by omega
    have hlimit : ¬ ((limit : Int) ≤ 0 ∨ searchHardLimit < (limit : Int)) := by
      rw [searchHardLimit]
      omega
    rw [hsearch, if_neg hoffset, if_neg hlimit]
    rfl

/-- The `_` of a term is no wildcard: three pages of one token show the two that have it. -/
theorem searchUserTokens_pages_underscore :
    ∃ found : List Token,
      (∀ t, t ∈ found ↔ Found [⟨1, 1, "prod_1", "k1", false⟩, ⟨2, 1, "prodX1", "k2", false⟩,
        ⟨3, 1, "prod_2", "k3", false⟩, ⟨4, 2, "prod_3", "k4", false⟩] 1 "prod_%" "" t) ∧
      (List.range 3).flatMap (fun k => shown (searchUserTokens 1000
        [⟨1, 1, "prod_1", "k1", false⟩, ⟨2, 1, "prodX1", "k2", false⟩,
          ⟨3, 1, "prod_2", "k3", false⟩, ⟨4, 2, "prod_3", "k4", false⟩] 1 "prod_%" ""
        ((k * 1 : Nat) : Int) (1 : Nat))) = found.take (3 * 1) := by
  have hids : ([⟨1, 1, "prod_1", "k1", false⟩, ⟨2, 1, "prodX1", "k2", false⟩,
      ⟨3, 1, "prod_2", "k3", false⟩, ⟨4, 2, "prod_3", "k4", false⟩] : List Token).map
        Token.id |>.Nodup := by decide
  obtain ⟨found, -, hfound, -, hpages⟩ :=
    (searchUserTokens_pages 1000 1 "prod_%" "" hids).2 (by decide)
  exact ⟨found, hfound, hpages 3 1 (by decide) (by decide)⟩

end

end DazeApi.Users.TokenSearch
