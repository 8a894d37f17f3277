import DazeApi.Lib.Decimal
import DazeApi.Lib.Runs
import DazeApi.Lib.Text
import Mathlib.Data.List.Sort

/-!
# Rules of status codes

`setting/operation_setting/status_code_ranges.go`: a text lists status codes and ranges of them.
What it is parsed to is sorted, and its ranges neither overlap nor touch, so that the loop over
them may stop at the first range behind a code, and what is printed is parsed to the same
(`parseHTTPStatusCodeRanges_spec`).
-/

namespace DazeApi.StatusCodes

structure StatusCodeRange where
  start : Int
  last : Int
deriving DecidableEq, Repr

/-- The text of a range. -/
def rangeToString (r : StatusCodeRange) : String :=
  if r.start = r.last then String.ofList (Decimal.formatInt r.start)
  else String.ofList (Decimal.formatInt r.start ++ '-' :: Decimal.formatInt r.last)

def statusCodeRangesToString (ranges : List StatusCodeRange) : String :=
  Text.join (ranges.map rangeToString) ','

/-- The loop of `shouldMatchStatusCodeRanges`. -/
def matchFrom (code : Int) : List StatusCodeRange → Bool
  | [] => false
  | r :: ranges =>
      if code < r.start then false else if code ≤ r.last then true else matchFrom code ranges

def shouldMatchStatusCodeRanges (ranges : List StatusCodeRange) (code : Int) : Bool :=
  if code < 100 ∨ 599 < code then false else matchFrom code ranges

/-- `strconv.Atoi`; what does not fit into 64 bits is no status code either. -/
def atoi (s : String) : Option Int := Decimal.parseInt s.toList

def parseHTTPStatusCodeToken (token : String) : Except String StatusCodeRange :=
  let token := Text.replaceAll (Text.trimSpace token) " " ""
  if token = "" then .error "empty token"
  else if '-' ∈ token.toList then
    match Text.splitAt token '-' with
    | [first, second] =>
        if first = "" ∨ second = "" then .error ("invalid range token: " ++ token)
        else
          match atoi first, atoi second with
          | none, _ => .error ("invalid range start: " ++ token)
          | some _, none => .error ("invalid range end: " ++ token)
          | some start, some last =>
              if last < start then .error ("range start > end: " ++ token)
              else if start < 100 ∨ 599 < last then .error ("range out of bounds: " ++ token)
              else .ok ⟨start, last⟩
    | _ => .error ("invalid range token: " ++ token)
  else
    match atoi token with
    | none => .error ("invalid status code: " ++ token)
    | some code =>
        if code < 100 ∨ 599 < code then .error ("status code out of bounds: " ++ token)
        else .ok ⟨code, code⟩

/-- The segments that are not blank. -/
def segments (input : String) : List String :=
  ((Text.splitAt (Text.replaceAll (Text.trimSpace input) "，" ",") ',').map Text.trimSpace).filter
    (· ≠ "")

/-- The order of `sort.Slice`. -/
def Before (r r' : StatusCodeRange) : Prop :=
  if r.start = r'.start then r.last ≤ r'.last else r.start ≤ r'.start

instance : DecidableRel Before := fun r r' =>
  inferInstanceAs (Decidable (if r.start = r'.start then r.last ≤ r'.last else r.start ≤ r'.start))

def meets (last r : StatusCodeRange) : Bool := r.start ≤ last.last + 1

def mergeInto (last r : StatusCodeRange) : StatusCodeRange :=
  if last.last < r.last then { last with last := r.last } else last

/-- The ranges, sorted and merged. -/
def normalize (ranges : List StatusCodeRange) : List StatusCodeRange :=
  match ranges.insertionSort Before with
  | [] => []
  | r :: rs => Runs.mergeFrom meets mergeInto id r rs

/-- The loop over the segments: the ranges and the invalid segments. -/
def parseSegments : List String → List StatusCodeRange × List String
  | [] => ([], [])
  | seg :: segs =>
      let (ranges, invalid) := parseSegments segs
      match parseHTTPStatusCodeToken seg with
      | .error _ => (ranges, seg :: invalid)
      | .ok r => (r :: ranges, invalid)

def parseHTTPStatusCodeRanges (input : String) : Except String (List StatusCodeRange) :=
  if Text.trimSpace input = "" then .ok []
  else
    let (ranges, invalid) := parseSegments (segments input)
    if invalid ≠ [] then
      .error ("invalid http status code rules: " ++ String.intercalate ", " invalid)
    else .ok (normalize ranges)

structure Settings where
  automaticDisable : List StatusCodeRange
  automaticRetry : List StatusCodeRange
deriving DecidableEq, Repr

/-- The settings after a call, and its error. -/
def automaticDisableStatusCodesFromString (s : Settings) (input : String) :
    Settings × Option String :=
  match parseHTTPStatusCodeRanges input with
  | .error err => (s, some err)
  | .ok ranges => ({ s with automaticDisable := ranges }, none)

def automaticRetryStatusCodesFromString (s : Settings) (input : String) :
    Settings × Option String :=
  match parseHTTPStatusCodeRanges input with
  | .error err => (s, some err)
  | .ok ranges => ({ s with automaticRetry := ranges }, none)

/-! ## What a token denotes -/

/-- A number in decimal digits, with a plus sign or without. -/
inductive Numeral : List Char → Int → Prop where
  | digits {ds n} : Decimal.parseNat ds = some n → Numeral ds n
  | plus {ds n} : Decimal.parseNat ds = some n → Numeral ('+' :: ds) n

/-- Its spaces apart, a token is a code from 100 to 599, or an ascending range within these. -/
inductive Denotes (token : String) : StatusCodeRange → Prop where
  | code {n} : Numeral (token.toList.filter (· ≠ ' ')) n → 100 ≤ n → n ≤ 599 → Denotes token ⟨n, n⟩
  | range {first second m n} : token.toList.filter (· ≠ ' ') = first ++ '-' :: second →
      Numeral first m → Numeral second n → 100 ≤ m → m ≤ n → n ≤ 599 → Denotes token ⟨m, n⟩

/-- The code lies in the range. -/
def StatusCodeRange.Holds (r : StatusCodeRange) (code : Int) : Prop :=
  r.start ≤ code ∧ code ≤ r.last

/-- A range of status codes, ascending. -/
structure StatusCodeRange.Valid (r : StatusCodeRange) : Prop where
  low : 100 ≤ r.start
  ascends : r.start ≤ r.last
  high : r.last ≤ 599

/-- Sorted, and no range overlaps or touches the next. -/
def Apart (ranges : List StatusCodeRange) : Prop :=
  ranges.Pairwise fun r r' => r.last + 1 < r'.start

section

variable {token : String} {r r' : StatusCodeRange} {ranges : List StatusCodeRange} {code n : Int}
  {cs : List Char}

theorem Numeral.not_dash (h : Numeral cs n) : '-' ∉ cs := by
  have hdigits : ∀ {ds : List Char} {n : Nat}, Decimal.parseNat ds = some n → '-' ∉ ds := by
    intro ds n h hmem
    rw [Decimal.parseNat] at h
    split at h
    next hall => exact absurd (List.all_eq_true.1 hall.2 '-' hmem) (by decide)
    next => cases h
  cases h with
  | digits h => exact hdigits h
  | plus h =>
      rw [List.mem_cons, not_or]
      exact ⟨by decide, hdigits h⟩

theorem Numeral.ne_nil (h : Numeral cs n) : cs ≠ [] := by
  cases h with
  | digits h =>
      intro hnil
      rw [hnil] at h
      cases h
  | plus h => exact List.cons_ne_nil _ _

/-- Without a minus sign, the numerals are what is read as a number. -/
theorem parseInt_eq_some_iff (hdash : '-' ∉ cs) : Decimal.parseInt cs = some n ↔ Numeral cs n := by
  constructor
  · intro h
    rw [Decimal.parseInt.eq_def] at h
    split at h
    next => exact absurd (.head _) hdash
    next =>
      obtain ⟨m, hm, rfl⟩ := Option.map_eq_some_iff.1 h
      exact Numeral.plus hm
    next =>
      obtain ⟨m, hm, rfl⟩ := Option.map_eq_some_iff.1 h
      exact Numeral.digits hm
  · intro h
    cases h with
    | @digits _ m h =>
        have hall : cs.all Char.isDigit = true := by
          rw [Decimal.parseNat] at h
          split at h
          next hall => exact hall.2
          next => cases h
        rw [Decimal.parseInt_of_isDigit hall, h]
        rfl
    | @plus ds m h =>
        rw [Decimal.parseInt, h]
        rfl

/-- `strings.ReplaceAll(s, " ", "")`. -/
theorem toList_replaceAll_space (s : String) :
    (Text.replaceAll s " " "").toList = s.toList.filter (· ≠ ' ') := by
  have hsplit : Text.replaceFrom [' '] [] s.toList 0 = s.toList.filter (· ≠ ' ') := by
    rw [Text.replaceFrom_singleton]
    induction s.toList with
    | nil => rfl
    | cons c cs ih =>
        rw [List.flatMap_cons, ih]
        by_cases hc : c = ' '
        · simp [hc]
        · simp [hc]
  rw [Text.replaceAll, String.toList_ofList]
  exact hsplit

theorem atoi_eq_some_iff {s : String} (hdash : '-' ∉ s.toList) :
    atoi s = some n ↔ Numeral s.toList n := parseInt_eq_some_iff hdash

theorem ofList_ne_empty (h : cs ≠ []) : String.ofList cs ≠ "" := by
  intro hempty
  have := congrArg String.toList hempty
  rw [String.toList_ofList] at this
  exact h this

/-- What a token is parsed to is denoted. -/
theorem denotes_of_parse (h : parseHTTPStatusCodeToken token = .ok r) :
    Denotes (Text.trimSpace token) r := by
  rw [parseHTTPStatusCodeToken] at h
  have htext := toList_replaceAll_space (Text.trimSpace token)
  generalize Text.replaceAll (Text.trimSpace token) " " "" = text at h htext
  split at h
  next => cases h
  next hempty =>
    split at h
    next hdash =>
      split at h
      next first second hsplit =>
        obtain ⟨hlist, hfirst, hsecond⟩ := Text.splitAt_eq_pair hsplit
        split at h
        next => cases h
        next =>
          split at h
          next => cases h
          next => cases h
          next m n hm hn =>
            split at h
            next => cases h
            next hle =>
              split at h
              next => cases h
              next hbounds =>
                cases h
                exact Denotes.range (htext.symm.trans hlist) ((atoi_eq_some_iff hfirst).1 hm)
                  ((atoi_eq_some_iff hsecond).1 hn) (by omega) (by omega) (by omega)
      next => cases h
    next hdash =>
      split at h
      next => cases h
      next n hn =>
        split at h
        next => cases h
        next hbounds =>
          cases h
          refine Denotes.code ?_ (by omega) (by omega)
          rw [← htext]
          exact (atoi_eq_some_iff hdash).1 hn

/-- A token is parsed to what it denotes. -/
theorem Denotes.parse (h : Denotes (Text.trimSpace token) r) :
    parseHTTPStatusCodeToken token = .ok r := by
  rw [parseHTTPStatusCodeToken]
  have htext := toList_replaceAll_space (Text.trimSpace token)
  generalize Text.replaceAll (Text.trimSpace token) " " "" = text at htext ⊢
  cases h with
  | @code n hnumeral hlow hhigh =>
      rw [← htext] at hnumeral
      have hempty : text ≠ "" := by
        intro hempty
        rw [hempty] at hnumeral
        exact hnumeral.ne_nil rfl
      rw [if_neg hempty, if_neg hnumeral.not_dash, (atoi_eq_some_iff hnumeral.not_dash).2 hnumeral]
      simp only
      rw [if_neg (by omega)]
  | @range first second m n hlist hfirst hsecond hlow hle hhigh =>
      rw [← htext] at hlist
      have hempty : text ≠ "" := by
        intro hempty
        rw [hempty] at hlist
        exact absurd hlist.symm (List.append_ne_nil_of_right_ne_nil _ (List.cons_ne_nil _ _))
      have hdash : '-' ∈ text.toList := by
        rw [hlist]
        exact List.mem_append_right _ (.head _)
      have hm : atoi (String.ofList first) = some m := by
        rw [atoi, String.toList_ofList]
        exact (parseInt_eq_some_iff hfirst.not_dash).2 hfirst
      have hn : atoi (String.ofList second) = some n := by
        rw [atoi, String.toList_ofList]
        exact (parseInt_eq_some_iff hsecond.not_dash).2 hsecond
      rw [if_neg hempty, if_pos hdash, Text.splitAt_of_append hlist hfirst.not_dash hsecond.not_dash]
      simp only [hm, hn]
      rw [if_neg, if_neg (by omega), if_neg (by omega)]
      rintro (hnil | hnil)
      · exact ofList_ne_empty hfirst.ne_nil hnil
      · exact ofList_ne_empty hsecond.ne_nil hnil

theorem parseHTTPStatusCodeToken_eq_ok_iff :
    parseHTTPStatusCodeToken token = .ok r ↔ Denotes (Text.trimSpace token) r :=
  ⟨denotes_of_parse, Denotes.parse⟩

theorem Denotes.valid (h : Denotes token r) : r.Valid := by
  cases h with
  | code _ hlow hhigh => exact ⟨hlow, le_refl _, hhigh⟩
  | range _ _ _ hlow hle hhigh => exact ⟨hlow, hle, hhigh⟩

/-! ## Sorting and merging -/

instance : Std.Total Before where
  total r r' := by
    rw [Before, Before]
    split <;> split <;> omega

instance : IsTrans StatusCodeRange Before where
  trans r r' r'' h h' := by
    rw [Before] at h h' ⊢
    split at h <;> split at h' <;> split <;> omega

theorem before_start (h : Before r r') : r.start ≤ r'.start := by
  rw [Before] at h
  split at h <;> omega

/-- What follows a range that starts no later is merged to ranges apart, which start with it. -/
theorem apart_mergeFrom (hle : ∀ r' ∈ ranges, r.start ≤ r'.start)
    (hsorted : ranges.Pairwise fun r r' => r.start ≤ r'.start) :
    Apart (Runs.mergeFrom meets mergeInto id r ranges) ∧
      ∀ r' ∈ Runs.mergeFrom meets mergeInto id r ranges, r.start ≤ r'.start := by
  induction ranges generalizing r with
  | nil =>
      refine ⟨List.pairwise_singleton _ _, fun r' hr' => ?_⟩
      rw [List.mem_singleton.1 hr']
  | cons r' ranges ih =>
      rw [List.forall_mem_cons] at hle
      rw [List.pairwise_cons] at hsorted
      rw [Runs.mergeFrom]
      split
      next hmeets =>
        have hstart : (mergeInto r r').start = r.start := by
          rw [mergeInto]
          split <;> rfl
        have hrest := ih (r := mergeInto r r') (by rw [hstart]; exact hle.2) hsorted.2
        rw [hstart] at hrest
        exact hrest
      next hmeets =>
        obtain ⟨hapart, hstarts⟩ := ih hsorted.1 hsorted.2
        have hbehind : r.last + 1 < r'.start := by
          rw [meets, decide_eq_true_eq] at hmeets
          omega
        refine ⟨List.pairwise_cons.2 ⟨?_, hapart⟩, ?_⟩
        · intro r'' hr''
          have : r'.start ≤ r''.start := hstarts r'' hr''
          omega
        · intro r'' hr''
          rcases List.mem_cons.1 hr'' with rfl | hr''
          · exact le_refl _
          · have : r'.start ≤ r''.start := hstarts r'' hr''
            omega

theorem holds_mergeInto (hle : r.start ≤ r'.start) (hmeets : meets r r' = true) :
    (mergeInto r r').Holds code ↔ r.Holds code ∨ r'.Holds code := by
  rw [meets, decide_eq_true_eq] at hmeets
  rw [mergeInto, StatusCodeRange.Holds, StatusCodeRange.Holds, StatusCodeRange.Holds]
  split
  · constructor
    · intro h
      by_cases hcode : code ≤ r.last
      · exact Or.inl ⟨h.1, hcode⟩
      · exact Or.inr ⟨by omega, h.2⟩
    · rintro (h | h)
      · exact ⟨h.1, by simp only; omega⟩
      · exact ⟨by simp only; omega, h.2⟩
  · constructor
    · exact Or.inl
    · rintro (h | h)
      · exact h
      · exact ⟨by omega, by omega⟩

theorem valid_mergeInto (h : r.Valid) (h' : r'.Valid) : (mergeInto r r').Valid := by
  rw [mergeInto]
  split
  next hlt =>
    refine ⟨h.low, ?_, h'.high⟩
    have := h.ascends
    simp only
    omega
  next => exact h

/-- Merging keeps the codes. -/
theorem holds_mergeFrom (hle : ∀ r' ∈ ranges, r.start ≤ r'.start)
    (hsorted : ranges.Pairwise fun r r' => r.start ≤ r'.start) :
    (∃ r' ∈ Runs.mergeFrom meets mergeInto id r ranges, r'.Holds code) ↔
      ∃ r' ∈ r :: ranges, r'.Holds code := by
  induction ranges generalizing r with
  | nil => exact Iff.rfl
  | cons r' ranges ih =>
      rw [List.forall_mem_cons] at hle
      rw [List.pairwise_cons] at hsorted
      rw [Runs.mergeFrom]
      split
      next hmeets =>
        have hstart : (mergeInto r r').start = r.start := by
          rw [mergeInto]
          split <;> rfl
        rw [ih (r := mergeInto r r') (by rw [hstart]; exact hle.2) hsorted.2, List.exists_mem_cons_iff,
          List.exists_mem_cons_iff, List.exists_mem_cons_iff, holds_mergeInto hle.1 hmeets, or_assoc]
      next =>
        have hrest := ih hsorted.1 hsorted.2
        rw [List.exists_mem_cons_iff, List.exists_mem_cons_iff]
        exact or_congr_right hrest

theorem valid_mergeFrom (h : r.Valid) (hranges : ∀ r' ∈ ranges, r'.Valid) :
    ∀ r' ∈ Runs.mergeFrom meets mergeInto id r ranges, r'.Valid := by
  induction ranges generalizing r with
  | nil =>
      intro r' hr'
      rw [List.mem_singleton.1 hr']
      exact h
  | cons r' ranges ih =>
      rw [List.forall_mem_cons] at hranges
      rw [Runs.mergeFrom]
      split
      next => exact ih (valid_mergeInto h hranges.1) hranges.2
      next =>
        rw [List.forall_mem_cons]
        exact ⟨h, ih hranges.1 hranges.2⟩

theorem sorted_insertionSort (ranges : List StatusCodeRange) :
    (ranges.insertionSort Before).Pairwise fun r r' => r.start ≤ r'.start :=
  (List.pairwise_insertionSort Before ranges).imp before_start

theorem apart_normalize (ranges : List StatusCodeRange) : Apart (normalize ranges) := by
  have hsorted := sorted_insertionSort ranges
  rw [normalize]
  split
  next => exact List.Pairwise.nil
  next r rs hsort =>
    rw [hsort, List.pairwise_cons] at hsorted
    exact (apart_mergeFrom hsorted.1 hsorted.2).1

/-- The normal form has the same codes. -/
theorem holds_normalize (ranges : List StatusCodeRange) (code : Int) :
    (∃ r ∈ normalize ranges, r.Holds code) ↔ ∃ r ∈ ranges, r.Holds code := by
  have hsorted := sorted_insertionSort ranges
  have hmem : (∃ r ∈ ranges, r.Holds code) ↔
      ∃ r ∈ ranges.insertionSort Before, r.Holds code := by
    simp only [List.mem_insertionSort]
  rw [hmem, normalize]
  split
  next hsort => rw [hsort]
  next r rs hsort =>
    rw [hsort, List.pairwise_cons] at hsorted
    rw [hsort]
    exact holds_mergeFrom hsorted.1 hsorted.2

theorem valid_normalize (h : ∀ r ∈ ranges, r.Valid) : ∀ r ∈ normalize ranges, r.Valid := by
  rw [normalize]
  split
  next =>
    intro r hr
    cases hr
  next r rs hsort =>
    have hvalid : ∀ r' ∈ r :: rs, r'.Valid := by
      intro r' hr'
      rw [← hsort, List.mem_insertionSort] at hr'
      exact h r' hr'
    rw [List.forall_mem_cons] at hvalid
    exact valid_mergeFrom hvalid.1 hvalid.2

theorem mergeFrom_of_apart (h : Apart (r :: ranges)) :
    Runs.mergeFrom meets mergeInto id r ranges = r :: ranges := by
  induction ranges generalizing r with
  | nil => rfl
  | cons r' ranges ih =>
      rw [Apart, List.pairwise_cons] at h
      have hbehind := h.1 r' (.head _)
      have hmeets : ¬ meets r r' = true := by
        rw [meets, decide_eq_true_eq]
        omega
      rw [Runs.mergeFrom, if_neg hmeets, id, ih h.2]

/-- What is normal is its own normal form. -/
theorem normalize_of_apart (h : Apart ranges) (hvalid : ∀ r ∈ ranges, r.Valid) :
    normalize ranges = ranges := by
  have hbefore : ranges.Pairwise Before := by
    refine List.Pairwise.imp_of_mem ?_ h
    intro r r' hr _ hlt
    have := (hvalid r hr).ascends
    rw [Before, if_neg (by omega)]
    omega
  rw [normalize, hbefore.insertionSort_eq]
  cases ranges with
  | nil => rfl
  | cons r ranges => exact mergeFrom_of_apart h

/-- The loop may stop at the first range behind the code. -/
theorem matchFrom_iff (h : Apart ranges) (hvalid : ∀ r ∈ ranges, r.Valid) :
    matchFrom code ranges = true ↔ ∃ r ∈ ranges, r.Holds code := by
  induction ranges with
  | nil => simp [matchFrom]
  | cons r ranges ih =>
      rw [Apart, List.pairwise_cons] at h
      rw [List.forall_mem_cons] at hvalid
      have hascends := hvalid.1.ascends
      rw [matchFrom, List.exists_mem_cons_iff, StatusCodeRange.Holds]
      split
      next hlt =>
        refine iff_of_false Bool.false_ne_true ?_
        rintro (hin | ⟨r', hr', hin⟩)
        · omega
        · have := h.1 r' hr'
          have := hin.1
          omega
      next hlt =>
        split
        next hle => exact iff_of_true rfl (Or.inl ⟨by omega, hle⟩)
        next hle =>
          rw [ih h.2 hvalid.2, or_iff_right]
          omega

theorem shouldMatchStatusCodeRanges_iff (h : Apart ranges) (hvalid : ∀ r ∈ ranges, r.Valid) :
    shouldMatchStatusCodeRanges ranges code = true ↔ ∃ r ∈ ranges, r.Holds code := by
  rw [shouldMatchStatusCodeRanges]
  split
  next hbounds =>
    refine iff_of_false Bool.false_ne_true ?_
    rintro ⟨r, hr, hlow, hhigh⟩
    have := (hvalid r hr).low
    have := (hvalid r hr).high
    omega
  next => exact matchFrom_iff h hvalid

/-! ## Printing -/

theorem isDigit_of_mem_formatInt {c : Char} (hn : 0 ≤ n) (h : c ∈ Decimal.formatInt n) :
    c.isDigit = true := by
  cases n with
  | ofNat n => exact Decimal.isDigit_of_mem_formatNat h
  | negSucc n => exact absurd hn (Int.negSucc_not_nonneg n).1

theorem numeral_formatInt (hn : 0 ≤ n) : Numeral (Decimal.formatInt n) n := by
  have h := Numeral.digits (Decimal.parseNat_formatInt hn)
  rwa [Int.toNat_of_nonneg hn] at h

/-- A printed range consists of digits and dashes. -/
theorem mem_rangeToString (h : r.Valid) {c : Char} (hc : c ∈ (rangeToString r).toList) :
    c.isDigit = true ∨ c = '-' := by
  have hstart : 0 ≤ r.start := le_trans (by decide) h.low
  have hlast : 0 ≤ r.last := le_trans hstart h.ascends
  rw [rangeToString] at hc
  split at hc
  · rw [String.toList_ofList] at hc
    exact Or.inl (isDigit_of_mem_formatInt hstart hc)
  · rw [String.toList_ofList, List.mem_append, List.mem_cons] at hc
    rcases hc with hc | rfl | hc
    · exact Or.inl (isDigit_of_mem_formatInt hstart hc)
    · exact Or.inr rfl
    · exact Or.inl (isDigit_of_mem_formatInt hlast hc)

theorem isSpace_of_digit_or_dash {c : Char} (h : c.isDigit = true ∨ c = '-') :
    Text.isSpace c = false := by
  rcases h with h | rfl
  · exact Text.isSpace_eq_false_of_isDigit h
  · decide

/-- Digits and dashes are none of the other characters. -/
theorem ne_of_digit_or_dash {c d : Char} (h : c.isDigit = true ∨ c = '-') (hd : d.isDigit = false)
    (hdash : d ≠ '-') : c ≠ d := by
  rintro rfl
  rcases h with h | h
  · rw [hd] at h
    cases h
  · exact hdash h

theorem denotes_rangeToString (h : r.Valid) : Denotes (rangeToString r) r := by
  have hstart : 0 ≤ r.start := le_trans (by decide) h.low
  have hlast : 0 ≤ r.last := le_trans hstart h.ascends
  have hfilter : (rangeToString r).toList.filter (· ≠ ' ') = (rangeToString r).toList := by
    rw [List.filter_eq_self]
    intro c hc
    rw [decide_eq_true_eq]
    exact ne_of_digit_or_dash (mem_rangeToString h hc) (by decide) (by decide)
  obtain ⟨start, last⟩ := r
  by_cases heq : start = last
  · subst heq
    refine Denotes.code ?_ h.low h.high
    rw [hfilter, rangeToString, if_pos rfl, String.toList_ofList]
    exact numeral_formatInt hstart
  · refine Denotes.range ?_ (numeral_formatInt hstart) (numeral_formatInt hlast) h.low h.ascends
      h.high
    rw [hfilter, rangeToString, if_neg heq, String.toList_ofList]

theorem rangeToString_ne_empty (h : r.Valid) : rangeToString r ≠ "" := by
  intro hempty
  have hdenotes := denotes_rangeToString h
  rw [hempty] at hdenotes
  cases hdenotes with
  | code hnumeral _ _ => exact hnumeral.ne_nil rfl
  | range hlist _ _ _ _ _ =>
      exact absurd hlist.symm (List.append_ne_nil_of_right_ne_nil _ (List.cons_ne_nil _ _))

/-- The segments of a printed text are the printed ranges. -/
theorem segments_statusCodeRangesToString (hvalid : ∀ r ∈ ranges, r.Valid) (hne : ranges ≠ []) :
    segments (statusCodeRangesToString ranges) = ranges.map rangeToString := by
  have hchars : ∀ c ∈ (statusCodeRangesToString ranges).toList,
      c = ',' ∨ c.isDigit = true ∨ c = '-' := by
    intro c hc
    rcases Text.mem_join hc with rfl | ⟨p, hp, hc⟩
    · exact Or.inl rfl
    · obtain ⟨r, hr, rfl⟩ := List.mem_map.1 hp
      exact Or.inr (mem_rangeToString (hvalid r hr) hc)
  have htrim : Text.trimSpace (statusCodeRangesToString ranges) =
      statusCodeRangesToString ranges := by
    refine Text.trimSpace_of_forall fun c hc => ?_
    rcases hchars c hc with rfl | hc
    · decide
    · exact isSpace_of_digit_or_dash hc
  have hreplace : Text.replaceAll (statusCodeRangesToString ranges) "，" "," =
      statusCodeRangesToString ranges := by
    have hkeep : ∀ l : List Char, (∀ c ∈ l, c ≠ '，') →
        Text.replaceFrom ['，'] [','] l 0 = l := by
      intro l hl
      rw [Text.replaceFrom_singleton]
      induction l with
      | nil => rfl
      | cons c l ih =>
          rw [List.forall_mem_cons] at hl
          rw [List.flatMap_cons, if_neg hl.1, ih hl.2]
          rfl
    apply String.toList_inj.1
    rw [Text.replaceAll, String.toList_ofList]
    refine hkeep _ fun c hc => ?_
    rcases hchars c hc with rfl | hc
    · decide
    · exact ne_of_digit_or_dash hc (by decide) (by decide)
  have hsplit : Text.splitAt (statusCodeRangesToString ranges) ',' = ranges.map rangeToString := by
    refine Text.splitAt_join _ (by rwa [ne_eq, List.map_eq_nil_iff]) ?_
    intro p hp
    obtain ⟨r, hr, rfl⟩ := List.mem_map.1 hp
    exact fun hc => ne_of_digit_or_dash (mem_rangeToString (hvalid r hr) hc) (by decide)
      (by decide) rfl
  rw [segments, htrim, hreplace, hsplit, List.map_map]
  have hmap : ranges.map (Text.trimSpace ∘ rangeToString) = ranges.map rangeToString := by
    refine List.map_congr_left fun r hr => Text.trimSpace_of_forall fun c hc => ?_
    exact isSpace_of_digit_or_dash (mem_rangeToString (hvalid r hr) hc)
  rw [hmap, List.filter_eq_self]
  intro p hp
  obtain ⟨r, hr, rfl⟩ := List.mem_map.1 hp
  rw [decide_eq_true_eq]
  exact rangeToString_ne_empty (hvalid r hr)

/-! ## Parsing -/

theorem trimSpace_of_mem_segments {input seg : String} (h : seg ∈ segments input) :
    Text.trimSpace seg = seg := by
  rw [segments, List.mem_filter] at h
  obtain ⟨part, -, rfl⟩ := List.mem_map.1 h.1
  exact Text.trimSpace_trimSpace part

theorem segments_of_blank {input : String} (h : Text.trimSpace input = "") :
    segments input = [] := by
  rw [segments, h]
  decide

theorem parseSegments_invalid {segs : List String} {seg : String} (hseg : seg ∈ segs)
    (htrim : Text.trimSpace seg = seg) (hnone : ∀ r, ¬ Denotes seg r) :
    (parseSegments segs).2 ≠ [] := by
  induction segs with
  | nil => cases hseg
  | cons seg' segs ih =>
      rw [parseSegments]
      cases hparse : parseHTTPStatusCodeToken seg' with
      | error _ => exact List.cons_ne_nil _ _
      | ok r =>
          rcases List.mem_cons.1 hseg with rfl | hseg
          · have hdenotes := parseHTTPStatusCodeToken_eq_ok_iff.1 hparse
            rw [htrim] at hdenotes
            exact absurd hdenotes (hnone r)
          · exact ih hseg

theorem parseSegments_of_denotes {segs : List String} {rs : List StatusCodeRange}
    (h : List.Forall₂ Denotes segs rs) (htrim : ∀ seg ∈ segs, Text.trimSpace seg = seg) :
    parseSegments segs = (rs, []) := by
  induction h with
  | nil => rfl
  | cons hdenotes _ ih =>
      rw [List.forall_mem_cons] at htrim
      rw [← htrim.1] at hdenotes
      rw [parseSegments, ih htrim.2, parseHTTPStatusCodeToken_eq_ok_iff.2 hdenotes]

/-- A text with a segment that denotes nothing is refused. -/
theorem parse_error {input : String} (h : ∃ seg ∈ segments input, ∀ r, ¬ Denotes seg r) :
    ∃ err, parseHTTPStatusCodeRanges input = .error err := by
  obtain ⟨seg, hseg, hnone⟩ := h
  have hinput : Text.trimSpace input ≠ "" := by
    intro hblank
    rw [segments_of_blank hblank] at hseg
    cases hseg
  have hinvalid := parseSegments_invalid hseg (trimSpace_of_mem_segments hseg) hnone
  rw [parseHTTPStatusCodeRanges, if_neg hinput]
  simp only [if_pos hinvalid]
  exact ⟨_, rfl⟩

/-- Otherwise it is parsed to the normal form of what its segments denote. -/
theorem parse_ok {input : String} {rs : List StatusCodeRange}
    (h : List.Forall₂ Denotes (segments input) rs) :
    parseHTTPStatusCodeRanges input = .ok (normalize rs) := by
  have hparse := parseSegments_of_denotes h fun seg => trimSpace_of_mem_segments
  rw [parseHTTPStatusCodeRanges]
  split
  next hblank =>
    rw [segments_of_blank hblank] at h
    cases h
    rfl
  next =>
    rw [hparse]
    exact if_neg (not_not_intro rfl)

theorem forall₂_of_forall {segs : List String} (h : ∀ seg ∈ segs, ∃ r, Denotes seg r) :
    ∃ rs, List.Forall₂ Denotes segs rs := by
  induction segs with
  | nil => exact ⟨[], .nil⟩
  | cons seg segs ih =>
      rw [List.forall_mem_cons] at h
      obtain ⟨r, hr⟩ := h.1
      obtain ⟨rs, hrs⟩ := ih h.2
      exact ⟨r :: rs, .cons hr hrs⟩

theorem exists_of_forall₂ {segs : List String} {rs : List StatusCodeRange}
    (h : List.Forall₂ Denotes segs rs) (hfun : ∀ seg ∈ segs, ∀ r r', Denotes seg r →
      Denotes seg r' → r = r') (p : StatusCodeRange → Prop) :
    (∃ r ∈ rs, p r) ↔ ∃ seg ∈ segs, ∃ r, Denotes seg r ∧ p r := by
  induction h with
  | nil =>
      constructor
      · rintro ⟨r, hr, -⟩
        cases hr
      · rintro ⟨seg, hseg, -⟩
        cases hseg
  | @cons seg r segs rs hr _ ih =>
      rw [List.forall_mem_cons] at hfun
      rw [List.exists_mem_cons_iff, List.exists_mem_cons_iff, ih hfun.2]
      refine or_congr_left ⟨fun hp => ⟨r, hr, hp⟩, ?_⟩
      rintro ⟨r', hr', hp⟩
      rwa [hfun.1 r r' hr hr']

theorem segments_functional {input : String} :
    ∀ seg ∈ segments input, ∀ r r', Denotes seg r → Denotes seg r' → r = r' := by
  intro seg hseg r r' h h'
  rw [← trimSpace_of_mem_segments hseg] at h h'
  have heq := (parseHTTPStatusCodeToken_eq_ok_iff.2 h).symm.trans
    (parseHTTPStatusCodeToken_eq_ok_iff.2 h')
  exact Except.ok.inj heq

/-- What is printed of a normal form is parsed to it. -/
theorem parse_statusCodeRangesToString (h : Apart ranges) (hvalid : ∀ r ∈ ranges, r.Valid) :
    parseHTTPStatusCodeRanges (statusCodeRangesToString ranges) = .ok ranges := by
  cases hranges : ranges with
  | nil => decide
  | cons r rs =>
      rw [← hranges]
      have hne : ranges ≠ [] := by
        rw [hranges]
        exact List.cons_ne_nil _ _
      have hdenotes : List.Forall₂ Denotes (segments (statusCodeRangesToString ranges)) ranges := by
        rw [segments_statusCodeRangesToString hvalid hne, List.forall₂_map_left_iff,
          List.forall₂_same]
        exact fun r hr => denotes_rangeToString (hvalid r hr)
      rw [parse_ok hdenotes, normalize_of_apart h hvalid]

end

/-- The parser fails exactly if some segment denotes nothing, and the settings stay; otherwise it
gives ranges that are sorted and neither overlap nor touch, the codes that match them are those of
the segments, and what is printed of them is parsed to them. -/
theorem parseHTTPStatusCodeRanges_spec (input : String) :
    ((∃ err, parseHTTPStatusCodeRanges input = .error err) ↔
        ∃ seg ∈ segments input, ∀ r, ¬ Denotes seg r) ∧
      (∀ err, parseHTTPStatusCodeRanges input = .error err → ∀ s,
        automaticDisableStatusCodesFromString s input = (s, some err) ∧
          automaticRetryStatusCodesFromString s input = (s, some err)) ∧
      ∀ ranges, parseHTTPStatusCodeRanges input = .ok ranges →
        (ranges.Pairwise fun r r' => r.start < r'.start ∧ r.last + 1 < r'.start) ∧
        (∀ code, shouldMatchStatusCodeRanges ranges code = true ↔
          ∃ seg ∈ segments input, ∃ r, Denotes seg r ∧ r.Holds code) ∧
        parseHTTPStatusCodeRanges (statusCodeRangesToString ranges) = .ok ranges ∧
        ∀ s, (automaticDisableStatusCodesFromString s input).1 =
            { s with automaticDisable := ranges } ∧
          (automaticRetryStatusCodesFromString s input).1 = { s with automaticRetry := ranges } := by
  have herror : (∃ err, parseHTTPStatusCodeRanges input = .error err) ↔
      ∃ seg ∈ segments input, ∀ r, ¬ Denotes seg r := by
    refine ⟨?_, parse_error⟩
    rintro ⟨err, herr⟩
    by_contra hall
    push Not at hall
    obtain ⟨rs, hrs⟩ := forall₂_of_forall hall
    rw [parse_ok hrs] at herr
    cases herr
  refine ⟨herror, ?_, ?_⟩
  · intro err herr s
    rw [automaticDisableStatusCodesFromString, automaticRetryStatusCodesFromString, herr]
    exact ⟨rfl, rfl⟩
  · intro ranges hok
    have hall : ∀ seg ∈ segments input, ∃ r, Denotes seg r := by
      by_contra hnone
      push Not at hnone
      obtain ⟨err, herr⟩ := herror.2 hnone
      rw [hok] at herr
      cases herr
    obtain ⟨rs, hrs⟩ := forall₂_of_forall hall
    rw [parse_ok hrs, Except.ok.injEq] at hok
    have hvalid : ∀ r ∈ ranges, r.Valid := by
      rw [← hok]
      refine valid_normalize fun r hr => ?_
      obtain ⟨seg, -, r', hdenotes, heq⟩ :=
        (exists_of_forall₂ hrs segments_functional (· = r)).1 ⟨r, hr, rfl⟩
      rw [← heq]
      exact hdenotes.valid
    have hapart : Apart ranges := hok ▸ apart_normalize rs
    have hparsed := (parse_ok hrs).trans (congrArg Except.ok hok)
    refine ⟨?_, ?_, parse_statusCodeRangesToString hapart hvalid, ?_⟩
    · refine List.Pairwise.imp_of_mem ?_ hapart
      intro r r' hr _ hlt
      have := (hvalid r hr).ascends
      exact ⟨by omega, hlt⟩
    · intro code
      rw [shouldMatchStatusCodeRanges_iff hapart hvalid, ← hok, holds_normalize]
      exact exists_of_forall₂ hrs segments_functional fun r => r.Holds code
    · intro s
      rw [automaticDisableStatusCodesFromString, automaticRetryStatusCodesFromString, hparsed]
      exact ⟨rfl, rfl⟩

theorem parseHTTPStatusCodeRanges_spec_merged :
    statusCodeRangesToString [⟨401, 403⟩, ⟨500, 505⟩] = "401-403,500-505" ∧
      shouldMatchStatusCodeRanges [⟨401, 403⟩, ⟨500, 505⟩] 402 = true := by
  have h := (parseHTTPStatusCodeRanges_spec "500-505,504,401,403,402").2.2
    [⟨401, 403⟩, ⟨500, 505⟩] (by decide +kernel)
  refine ⟨by decide, (h.2.1 402).2 ⟨"402", by decide +kernel, ⟨402, 402⟩, ?_, by decide, by decide⟩⟩
  exact Denotes.code (Numeral.digits (by decide)) (by decide) (by decide)

end DazeApi.StatusCodes
