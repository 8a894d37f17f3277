import DazeApi.Lib.JsonPath

/-!
# Negative indices

`processNegativeIndex` (`relay/common/override.go`) replaces the negative indices of a
dotted path by positive ones before the path is given to `gjson` and `sjson`.  It works on
the text: the array of an index is looked up at what stands before the first occurrence of
the index in the path, and the first occurrence in the result is replaced.

`resolve` goes segment by segment and says what is meant.  `Found` and `Placed` are the two
ways in which the text agrees with it: every index is looked up at its own array, and every
replacement falls on its own segment (`resolves_iff`).
-/

namespace DazeApi.Overrides.NegativeIndex

open JsonText JsonPath

/-! ## The function -/

/-- The digits of a text that begins with a minus sign and a digit. -/
def negativeDigits : List Char → Option (List Char)
  | '-' :: cs => if cs.takeWhile Char.isDigit = [] then none else some (cs.takeWhile Char.isDigit)
  | _ => none

/-- `negativeIndexRegexp.FindAllStringSubmatch`, with the digits of each match.  A match has
one dot only, so the search may go on right behind it. -/
def findNegative : List Char → List (List Char)
  | [] => []
  | c :: cs => (if c = '.' then (negativeDigits cs).toList else []) ++ findNegative cs

/-- `strings.Split(s, sep)[0]`. -/
def before (sep : List Char) : List Char → List Char
  | [] => []
  | c :: cs => if sep.isPrefixOf (c :: cs) then [] else c :: before sep cs

/-- `strings.Replace(s, old, new, 1)`. -/
def replaceFirst (old new : List Char) : List Char → List Char
  | [] => []
  | c :: cs =>
      if old.isPrefixOf (c :: cs) then new ++ (c :: cs).drop old.length
      else c :: replaceFirst old new cs

/-- Where the array of an index is looked up. -/
def arrayPath (path : String) (digits : List Char) : String :=
  let arrayPath := String.ofList (before ('-' :: digits) path.toList)
  Text.trimSuffix arrayPath "."

/-- The position that an index has in an array. -/
def actualIndex (digits : List Char) (node : Option Json) : Option ℕ :=
  match node with
  | some (.arr items) =>
      let index : ℤ := -(Nat.ofDigitChars 10 digits 0 : ℤ)
      let actual := items.length + index
      if 0 ≤ actual ∧ actual < items.length then some actual.toNat else none
  | _ => none

/-- What the loop finds for an index. -/
def lookupIndex (doc : Json) (path : String) (digits : List Char) : Option ℕ :=
  actualIndex digits (get doc (segments (arrayPath path digits)))

def processNegativeIndex (doc : Json) (path : String) : String :=
  String.ofList ((findNegative path.toList).foldl
    (fun result digits =>
      match lookupIndex doc path digits with
      | some i => replaceFirst ('.' :: '-' :: digits) ('.' :: (indexText i).toList) result
      | none => result)
    path.toList)

/-! ## What is meant -/

/-- The digits of a segment that is a negative index. -/
def negativeSegment (s : String) : Option (List Char) :=
  (negativeDigits s.toList).filter fun digits => '-' :: digits = s.toList

/-- The position of a negative index in the node at which it stands. -/
def positionAt (node : Option Json) (s : String) : Option ℕ :=
  (negativeSegment s).bind (actualIndex · node)

def resolveSegment (node : Option Json) (s : String) : String :=
  ((positionAt node s).map indexText).getD s

/-- The node behind a segment. -/
def next (node : Option Json) (s : String) : Option Json :=
  node.bind (child · (resolveSegment node s))

/-- Each segment is resolved at the node to which those before it lead. -/
def resolve (node : Option Json) : List String → List String
  | [] => []
  | s :: p => resolveSegment node s :: resolve (next node s) p

/-- The path is the one that is meant. -/
def Right (doc : Json) (path : String) : Prop :=
  processNegativeIndex doc path = Text.join (resolve (some doc) (segments path)) '.'

/-! ## When it is -/

/-- For every negative index, the array that is looked up gives what the array at which it
stands gives; the first segment is not looked up, and a key that only begins like an index
stands for itself. -/
structure Found (doc : Json) (path : String) : Prop where
  first : ∀ s p, segments path = s :: p → positionAt (some doc) s = none
  behind : ∀ pre s post, segments path = pre ++ s :: post → pre ≠ [] →
    ∀ digits, negativeDigits s.toList = some digits →
      lookupIndex doc path digits = positionAt (pre.foldl next (some doc)) s

/-- An index that is replaced is no beginning of an earlier one that stays. -/
def Placed (doc : Json) (path : String) : Prop :=
  ∀ s₀ pre s post, segments path = s₀ :: (pre ++ s :: post) →
    ∀ digits, negativeDigits s.toList = some digits → lookupIndex doc path digits ≠ none →
      ∀ q ∈ pre, ∀ digits', negativeDigits q.toList = some digits' → digits <+: digits' →
        lookupIndex doc path digits' ≠ none

/-! ## Texts and segments -/

section

variable {l m digits : List Char} {s : String} {rs : List String}

theorem digits_of_negativeDigits {cs : List Char} (h : negativeDigits cs = some digits) :
    digits ≠ [] ∧ (∀ c ∈ digits, c.isDigit = true) ∧ '-' :: digits <+: cs := by
  rw [negativeDigits.eq_def] at h
  split at h
  next cs =>
    split at h
    next => cases h
    next hne =>
      cases h
      refine ⟨hne, fun c hc => List.mem_takeWhile_imp hc, ?_⟩
      exact List.cons_prefix_cons.2 ⟨rfl, List.takeWhile_prefix _⟩
  next => cases h

/-- The digits go as far as there are any. -/
theorem negativeDigits_of_prefix {cs : List Char} (hne : digits ≠ [])
    (hall : ∀ c ∈ digits, c.isDigit = true) (h : '-' :: digits <+: cs) :
    ∃ digits', negativeDigits cs = some digits' ∧ digits <+: digits' := by
  obtain ⟨t, rfl⟩ := h
  have htake : digits <+: (digits ++ t).takeWhile Char.isDigit := by
    rw [List.takeWhile_append_of_pos hall]
    exact List.prefix_append _ _
  refine ⟨(digits ++ t).takeWhile Char.isDigit, ?_, htake⟩
  rw [List.cons_append, negativeDigits, if_neg]
  intro hnil
  rw [hnil] at htake
  exact hne (List.prefix_nil.1 htake)

theorem takeWhile_isDigit_joinTail (l : List Char) (rs : List String) :
    (l ++ Text.joinTail '.' rs).takeWhile Char.isDigit = l.takeWhile Char.isDigit := by
  induction l with
  | nil =>
      cases rs with
      | nil => rfl
      | cons r rs => rfl
  | cons c l ih =>
      rw [List.cons_append, List.takeWhile_cons, List.takeWhile_cons, ih]

theorem negativeDigits_joinTail (l : List Char) (rs : List String) :
    negativeDigits (l ++ Text.joinTail '.' rs) = negativeDigits l := by
  cases l with
  | nil =>
      cases rs with
      | nil => rfl
      | cons r rs => rfl
  | cons c l =>
      by_cases hc : c = '-'
      · subst hc
        rw [List.cons_append, negativeDigits, negativeDigits, takeWhile_isDigit_joinTail]
      · rw [List.cons_append, negativeDigits.eq_def, negativeDigits.eq_def]
        simp [hc]

theorem findNegative_append (h : '.' ∉ l) : findNegative (l ++ m) = findNegative m := by
  induction l with
  | nil => rfl
  | cons c l ih =>
      rw [List.mem_cons, not_or] at h
      rw [List.cons_append, findNegative, if_neg (Ne.symm h.1), List.nil_append, ih h.2]

/-- The matches are the beginnings of segments. -/
theorem findNegative_joinTail (h : ∀ r ∈ rs, '.' ∉ r.toList) :
    findNegative (Text.joinTail '.' rs) = rs.filterMap (negativeDigits ·.toList) := by
  induction rs with
  | nil => rfl
  | cons r rs ih =>
      rw [List.forall_mem_cons] at h
      rw [Text.joinTail_cons, findNegative, if_pos rfl, negativeDigits_joinTail,
        findNegative_append h.1, ih h.2, List.filterMap_cons]
      cases negativeDigits r.toList with
      | none => rfl
      | some digits => rfl

/-- The first segment with a beginning gets another one. -/
def replaceHead (old new : List Char) : List String → List String
  | [] => []
  | r :: rs =>
      if old <+: r.toList then String.ofList (new ++ r.toList.drop old.length) :: rs
      else r :: replaceHead old new rs

variable {old new : List Char}

theorem replaceFirst_append (h : '.' ∉ l) :
    replaceFirst ('.' :: old) new (l ++ m) = l ++ replaceFirst ('.' :: old) new m := by
  induction l with
  | nil => rfl
  | cons c l ih =>
      rw [List.mem_cons, not_or] at h
      rw [List.cons_append, replaceFirst, if_neg, ih h.2, List.cons_append]
      rw [List.isPrefixOf_iff_prefix]
      intro hbegin
      exact h.1 (List.cons_prefix_cons.1 hbegin).1

/-- A text without dots that begins what follows begins the first segment. -/
theorem prefix_joinTail_iff (hold : '.' ∉ old) :
    old <+: l ++ Text.joinTail '.' rs ↔ old <+: l := by
  constructor
  · intro h
    rcases List.prefix_or_prefix_of_prefix h (List.prefix_append l _) with hl | ⟨t, rfl⟩
    · exact hl
    · rw [List.prefix_append_right_inj] at h
      cases t with
      | nil => simp
      | cons c t =>
          cases rs with
          | nil => exact absurd (List.prefix_nil.1 h) (List.cons_ne_nil _ _)
          | cons r rs =>
              rw [Text.joinTail_cons] at h
              rw [(List.cons_prefix_cons.1 h).1] at hold
              exact absurd (List.mem_append_right l List.mem_cons_self) hold
  · intro h
    exact h.trans (List.prefix_append _ _)

theorem replaceFirst_joinTail (hold : '.' ∉ old) (h : ∀ r ∈ rs, '.' ∉ r.toList) :
    replaceFirst ('.' :: old) ('.' :: new) (Text.joinTail '.' rs) =
      Text.joinTail '.' (replaceHead old new rs) := by
  induction rs with
  | nil => rfl
  | cons r rs ih =>
      rw [List.forall_mem_cons] at h
      rw [Text.joinTail_cons, replaceFirst, replaceHead]
      by_cases hr : old <+: r.toList
      · rw [if_pos, if_pos hr, List.length_cons, List.drop_succ_cons, Text.joinTail_cons,
          String.toList_ofList, List.drop_append_of_le_length hr.length_le, List.append_assoc]
        · rfl
        · rw [List.isPrefixOf_iff_prefix]
          exact List.cons_prefix_cons.2 ⟨rfl, (prefix_joinTail_iff hold).2 hr⟩
      · rw [if_neg, if_neg hr, replaceFirst_append h.1, ih h.2, Text.joinTail_cons]
        rw [List.isPrefixOf_iff_prefix]
        intro hbegin
        exact hr ((prefix_joinTail_iff hold).1 (List.cons_prefix_cons.1 hbegin).2)

theorem not_dot_of_isDigit (hall : ∀ c ∈ digits, c.isDigit = true) : '.' ∉ digits :=
  fun h => absurd (hall '.' h) (by decide)

theorem isDigit_indexText (n : ℕ) : ∀ c ∈ (indexText n).toList, c.isDigit = true := by
  intro c hc
  rw [indexText, String.toList_ofList] at hc
  exact Decimal.isDigit_of_mem_formatNat hc

theorem not_dot_replaceHead (hnew : '.' ∉ new) (h : ∀ r ∈ rs, '.' ∉ r.toList) :
    ∀ r ∈ replaceHead old new rs, '.' ∉ r.toList := by
  induction rs with
  | nil => exact h
  | cons r rs ih =>
      rw [replaceHead]
      rw [List.forall_mem_cons] at h
      split
      next =>
        refine List.forall_mem_cons.2 ⟨?_, h.2⟩
        rw [String.toList_ofList, List.mem_append, not_or]
        exact ⟨hnew, fun hmem => h.1 (List.mem_of_mem_drop hmem)⟩
      next => exact List.forall_mem_cons.2 ⟨h.1, ih h.2⟩

end

/-! ## The loop over the segments -/

section

variable (doc : Json) (path : String)

/-- One replacement, on segments. -/
def replaceSegment (segs : List String) (digits : List Char) : List String :=
  match lookupIndex doc path digits with
  | some i => replaceHead ('-' :: digits) (indexText i).toList segs
  | none => segs

/-- What becomes of a segment whose index is replaced in its own place. -/
def settled (s : String) : String :=
  match negativeDigits s.toList with
  | some digits =>
      match lookupIndex doc path digits with
      | some i => String.ofList ((indexText i).toList ++ s.toList.drop (digits.length + 1))
      | none => s
  | none => s

variable {doc path} {p s : String} {rs done todo : List String} {digits : List Char}

theorem foldl_replaceFirst {matched : List (List Char)} (hp : '.' ∉ p.toList)
    (hrs : ∀ r ∈ rs, '.' ∉ r.toList)
    (hmatched : ∀ digits ∈ matched, ∀ c ∈ digits, c.isDigit = true) :
    matched.foldl
        (fun result digits =>
          match lookupIndex doc path digits with
          | some i => replaceFirst ('.' :: '-' :: digits) ('.' :: (indexText i).toList) result
          | none => result)
        (p.toList ++ Text.joinTail '.' rs) =
      p.toList ++ Text.joinTail '.' (matched.foldl (replaceSegment doc path) rs) := by
  induction matched generalizing rs with
  | nil => rfl
  | cons digits matched ih =>
      rw [List.forall_mem_cons] at hmatched
      rw [List.foldl_cons, List.foldl_cons, replaceSegment]
      cases lookupIndex doc path digits with
      | none => exact ih hrs hmatched.2
      | some i =>
          have hold : '.' ∉ '-' :: digits := by
            rw [List.mem_cons, not_or]
            exact ⟨by decide, not_dot_of_isDigit hmatched.1⟩
          have hnew := not_dot_of_isDigit (isDigit_indexText i)
          dsimp only
          rw [replaceFirst_append hp, replaceFirst_joinTail hold hrs]
          exact ih (not_dot_replaceHead hnew hrs) hmatched.2

/-- The function replaces segments behind the first one. -/
theorem processNegativeIndex_eq (hpath : segments path = p :: rs) :
    processNegativeIndex doc path = Text.join
      (p :: (rs.filterMap (negativeDigits ·.toList)).foldl (replaceSegment doc path) rs) '.' := by
  obtain ⟨p', rs', heq, hlist, hdots⟩ := Text.splitAt_spec path '.'
  rw [segments, heq] at hpath
  cases hpath
  rw [List.forall_mem_cons] at hdots
  rw [← String.toList_inj, Text.toList_join_cons, processNegativeIndex, String.toList_ofList,
    hlist, findNegative_append hdots.1, findNegative_joinTail hdots.2,
    foldl_replaceFirst hdots.1 hdots.2]
  intro digits hdigits
  obtain ⟨r, -, hr⟩ := List.mem_filterMap.1 hdigits
  exact (digits_of_negativeDigits hr).2.1

theorem not_dot_of_segments (hpath : segments path = p :: rs) :
    ∀ r ∈ p :: rs, '.' ∉ r.toList := by
  obtain ⟨p', rs', heq, -, hdots⟩ := Text.splitAt_spec path '.'
  rw [segments, heq] at hpath
  cases hpath
  exact hdots

/-! ### Replacements in their own places -/

theorem replaceHead_append {old new : List Char} (hdone : ∀ r ∈ done, ¬ old <+: r.toList)
    (hs : old <+: s.toList) :
    replaceHead old new (done ++ s :: todo) =
      done ++ String.ofList (new ++ s.toList.drop old.length) :: todo := by
  induction done with
  | nil => rw [List.nil_append, replaceHead, if_pos hs, List.nil_append]
  | cons r done ih =>
      rw [List.forall_mem_cons] at hdone
      rw [List.cons_append, replaceHead, if_neg hdone.1, ih hdone.2, List.cons_append]

/-- A number does not begin with a minus sign. -/
theorem not_minus_prefix {i : ℕ} {t : List Char} :
    ¬ '-' :: digits <+: (indexText i).toList ++ t := by
  intro h
  cases hi : (indexText i).toList with
  | nil =>
      rw [indexText, String.toList_ofList] at hi
      exact Decimal.formatNat_ne_nil hi
  | cons c cs =>
      rw [hi, List.cons_append] at h
      have hdigit := isDigit_indexText i c (by rw [hi]; exact List.mem_cons_self)
      rw [← (List.cons_prefix_cons.1 h).1] at hdigit
      exact absurd hdigit (by decide)

/-- A settled segment that begins like an index is one that stays. -/
theorem prefix_settled (hne : digits ≠ []) (hall : ∀ c ∈ digits, c.isDigit = true)
    (h : '-' :: digits <+: (settled doc path s).toList) :
    settled doc path s = s ∧ ∃ digits', negativeDigits s.toList = some digits' ∧
      digits <+: digits' ∧ lookupIndex doc path digits' = none := by
  rw [settled] at h
  split at h
  next digits' hdigits' =>
    split at h
    next i hi =>
      rw [String.toList_ofList] at h
      exact absurd h not_minus_prefix
    next hnone =>
      obtain ⟨digits'', hdigits'', hprefixed⟩ := negativeDigits_of_prefix hne hall h
      rw [hdigits'] at hdigits''
      cases hdigits''
      exact ⟨by simp only [settled, hdigits', hnone], digits', hdigits', hprefixed, hnone⟩
  next hnone =>
    obtain ⟨digits', hdigits', -⟩ := negativeDigits_of_prefix hne hall h
    rw [hnone] at hdigits'
    cases hdigits'

/-- The segments so far are settled, and the loop settles the next one. -/
theorem replaceSegment_settled (hs : negativeDigits s.toList = some digits)
    (hplaced : lookupIndex doc path digits ≠ none → ∀ q ∈ done, ∀ digits',
      negativeDigits q.toList = some digits' → digits <+: digits' →
        lookupIndex doc path digits' ≠ none) :
    replaceSegment doc path (done.map (settled doc path) ++ s :: todo) digits =
      (done ++ [s]).map (settled doc path) ++ todo := by
  obtain ⟨hne, hall, hbegin⟩ := digits_of_negativeDigits hs
  rw [List.map_append, List.append_assoc, List.map_singleton, List.singleton_append,
    replaceSegment]
  cases hi : lookupIndex doc path digits with
  | none => simp only [settled, hs, hi]
  | some i =>
      have hdone : ∀ r ∈ done.map (settled doc path), ¬ '-' :: digits <+: r.toList := by
        intro r hr hbegin
        obtain ⟨q, hq, rfl⟩ := List.mem_map.1 hr
        obtain ⟨-, digits', hdigits', hprefixed, hnone⟩ := prefix_settled hne hall hbegin
        exact hplaced (by simp [hi]) q hq digits' hdigits' hprefixed hnone
      simp only [settled, hs, hi]
      exact replaceHead_append hdone hbegin

theorem foldl_settled (done todo : List String) (hplaced : ∀ pre s post, done ++ todo = pre ++ s :: post →
      ∀ digits, negativeDigits s.toList = some digits → lookupIndex doc path digits ≠ none →
        ∀ q ∈ pre, ∀ digits', negativeDigits q.toList = some digits' → digits <+: digits' →
          lookupIndex doc path digits' ≠ none) :
    (todo.filterMap (negativeDigits ·.toList)).foldl (replaceSegment doc path)
        (done.map (settled doc path) ++ todo) =
      (done ++ todo).map (settled doc path) := by
  induction todo generalizing done with
  | nil => rw [List.append_nil, List.append_nil]; rfl
  | cons s todo ih =>
      have hsplit : done ++ s :: todo = done ++ [s] ++ todo := by simp
      rw [List.filterMap_cons]
      cases hs : negativeDigits s.toList with
      | none =>
          have hself : settled doc path s = s := by simp only [settled, hs]
          have hrest := ih (done ++ [s]) (by rwa [← hsplit])
          rw [List.map_append, List.map_singleton, hself, List.append_assoc,
            List.singleton_append, ← hsplit] at hrest
          exact hrest
      | some digits =>
          rw [List.foldl_cons, replaceSegment_settled hs (hplaced done s todo rfl digits hs),
            hsplit]
          exact ih (done ++ [s]) (by rwa [← hsplit])

/-! ### A replacement in another place -/

/-- Behind the first match nothing is replaced, and what does not begin with the text
stays. -/
theorem replaceHead_keeps {old : List Char} (new : List Char) (pre post : List String)
    (hs : ¬ old <+: s.toList) : ∃ pre' post', pre'.length = pre.length ∧
      replaceHead old new (pre ++ s :: post) = pre' ++ s :: post' := by
  induction pre with
  | nil =>
      refine ⟨[], replaceHead old new post, rfl, ?_⟩
      rw [List.nil_append, List.nil_append, replaceHead, if_neg hs]
  | cons r pre ih =>
      rw [List.cons_append, replaceHead]
      split
      next => exact ⟨String.ofList (new ++ r.toList.drop old.length) :: pre, post, rfl, rfl⟩
      next =>
        obtain ⟨pre', post', hlen, heq⟩ := ih
        exact ⟨r :: pre', post', by rw [List.length_cons, hlen, List.length_cons],
          by rw [heq, List.cons_append]⟩

theorem foldl_keeps (matched : List (List Char)) (pre post : List String)
    (hs : ∀ digits, ¬ '-' :: digits <+: s.toList) : ∃ pre' post', pre'.length = pre.length ∧
      matched.foldl (replaceSegment doc path) (pre ++ s :: post) = pre' ++ s :: post' := by
  induction matched generalizing pre post with
  | nil => exact ⟨pre, post, rfl, rfl⟩
  | cons digits matched ih =>
      rw [List.foldl_cons, replaceSegment]
      cases lookupIndex doc path digits with
      | none => exact ih pre post
      | some i =>
          obtain ⟨pre', post', hlen, heq⟩ :=
            replaceHead_keeps (indexText i).toList pre post (hs digits)
          obtain ⟨pre'', post'', hlen', heq'⟩ := ih pre' post'
          dsimp only
          exact ⟨pre'', post'', hlen'.trans hlen, by rw [heq, heq']⟩

/-- A replacement falls on the first segment that begins with its text. -/
theorem replaceHead_first {old : List Char} (new : List Char) {segs : List String}
    (rest : List String)
    (h : ∃ r ∈ segs, old <+: r.toList) : ∃ pre r post, segs = pre ++ r :: post ∧
      old <+: r.toList ∧ replaceHead old new (segs ++ rest) =
        pre ++ String.ofList (new ++ r.toList.drop old.length) :: (post ++ rest) := by
  induction segs with
  | nil =>
      obtain ⟨r, hr, -⟩ := h
      cases hr
  | cons q segs ih =>
      by_cases hq : old <+: q.toList
      · exact ⟨[], q, segs, rfl, hq, by rw [List.cons_append, replaceHead, if_pos hq]; rfl⟩
      · obtain ⟨r, hr, hold⟩ := h
        have hmem : ∃ r ∈ segs, old <+: r.toList := by
          rcases List.mem_cons.1 hr with rfl | hr
          · exact absurd hold hq
          · exact ⟨r, hr, hold⟩
        obtain ⟨pre, r', post, rfl, hr', heq⟩ := ih hmem
        refine ⟨q :: pre, r', post, rfl, hr', ?_⟩
        rw [List.cons_append, replaceHead, if_neg hq, heq, List.cons_append]

end

/-! ## Segments that are meant -/

section

variable {doc : Json} {path : String} {node : Option Json} {p s : String}
  {rs done todo : List String} {digits : List Char}

theorem length_resolve (node : Option Json) (p : List String) :
    (resolve node p).length = p.length := by
  induction p generalizing node with
  | nil => rfl
  | cons s p ih => rw [resolve, List.length_cons, ih, List.length_cons]

theorem resolve_append (node : Option Json) (pre post : List String) :
    resolve node (pre ++ post) = resolve node pre ++ resolve (pre.foldl next node) post := by
  induction pre generalizing node with
  | nil => rfl
  | cons s pre ih => rw [List.cons_append, resolve, resolve, ih, List.foldl_cons, List.cons_append]

theorem negativeSegment_eq (hs : negativeDigits s.toList = some digits) :
    negativeSegment s = if '-' :: digits = s.toList then some digits else none := by
  rw [negativeSegment, hs, Option.filter_some]
  simp

/-- An index that gives no position stays. -/
theorem resolveSegment_eq_self_iff : resolveSegment node s = s ↔ positionAt node s = none := by
  rw [resolveSegment]
  cases hp : positionAt node s with
  | none => simp
  | some i =>
      simp only [Option.map_some, Option.getD_some, reduceCtorEq, iff_false]
      intro heq
      rw [positionAt] at hp
      cases hs : negativeDigits s.toList with
      | none => simp [negativeSegment, hs] at hp
      | some digits =>
          have hbegin := (digits_of_negativeDigits hs).2.2
          rw [← heq, ← List.append_nil (indexText i).toList] at hbegin
          exact not_minus_prefix hbegin

/-- A settled segment is the one that is meant exactly if its index is looked up at its
array. -/
theorem settled_eq_iff : settled doc path s = resolveSegment node s ↔
    ∀ digits, negativeDigits s.toList = some digits →
      lookupIndex doc path digits = positionAt node s := by
  cases hs : negativeDigits s.toList with
  | none =>
      have hposition : positionAt node s = none := by simp [positionAt, negativeSegment, hs]
      rw [resolveSegment_eq_self_iff.2 hposition, settled]
      simp [hs]
  | some digits =>
      have hbegin := (digits_of_negativeDigits hs).2.2
      simp only [Option.some.injEq, forall_eq']
      cases hi : lookupIndex doc path digits with
      | none =>
          have hself : settled doc path s = s := by simp only [settled, hs, hi]
          rw [hself, eq_comm, resolveSegment_eq_self_iff, eq_comm]
      | some i =>
          have hsettled : settled doc path s =
              String.ofList ((indexText i).toList ++ s.toList.drop (digits.length + 1)) := by
            simp only [settled, hs, hi]
          rw [hsettled]
          cases hp : positionAt node s with
          | none =>
              rw [resolveSegment_eq_self_iff.2 hp]
              simp only [reduceCtorEq, iff_false]
              intro heq
              rw [← heq, String.toList_ofList] at hbegin
              exact not_minus_prefix hbegin
          | some j =>
              have hwhole : '-' :: digits = s.toList := by
                rw [positionAt, negativeSegment_eq hs] at hp
                by_contra hne
                rw [if_neg hne] at hp
                cases hp
              rw [resolveSegment, hp, Option.map_some, Option.getD_some, ← hwhole,
                List.drop_succ_cons, List.drop_length, List.append_nil, String.ofList_toList,
                Option.some.injEq]
              exact ⟨indexText_injective, congrArg indexText⟩

theorem map_settled_eq_iff : rs.map (settled doc path) = resolve node rs ↔
    ∀ pre s post, rs = pre ++ s :: post → ∀ digits, negativeDigits s.toList = some digits →
      lookupIndex doc path digits = positionAt (pre.foldl next node) s := by
  induction rs generalizing node with
  | nil =>
      refine ⟨fun _ pre s post h => ?_, fun _ => rfl⟩
      exact absurd h.symm (List.append_ne_nil_of_right_ne_nil _ (List.cons_ne_nil _ _))
  | cons r rs ih =>
      rw [List.map_cons, resolve, List.cons.injEq, settled_eq_iff, ih]
      constructor
      · rintro ⟨hhead, htail⟩ pre s post heq
        cases pre with
        | nil =>
            cases heq
            exact hhead
        | cons q pre =>
            cases heq
            exact htail pre s post rfl
      · intro h
        exact ⟨h [] r rs rfl, fun pre s post heq => h (r :: pre) s post (by rw [heq]; rfl)⟩

/-! ## The theorem -/

theorem not_dot_resolve (h : ∀ r ∈ rs, '.' ∉ r.toList) :
    ∀ r ∈ resolve node rs, '.' ∉ r.toList := by
  induction rs generalizing node with
  | nil => exact h
  | cons r rs ih =>
      rw [List.forall_mem_cons] at h
      rw [resolve]
      refine List.forall_mem_cons.2 ⟨?_, ih h.2⟩
      rw [resolveSegment]
      cases positionAt node r with
      | none => exact h.1
      | some i => exact not_dot_of_isDigit (isDigit_indexText i)

theorem not_dot_foldl {matched : List (List Char)} (h : ∀ r ∈ rs, '.' ∉ r.toList) :
    ∀ r ∈ matched.foldl (replaceSegment doc path) rs, '.' ∉ r.toList := by
  induction matched generalizing rs with
  | nil => exact h
  | cons digits matched ih =>
      rw [List.foldl_cons]
      refine ih ?_
      rw [replaceSegment]
      cases lookupIndex doc path digits with
      | none => exact h
      | some i => exact not_dot_replaceHead (not_dot_of_isDigit (isDigit_indexText i)) h

/-- The path is right if and only if its segments are. -/
theorem right_iff_segments (hpath : segments path = p :: rs) :
    Right doc path ↔ positionAt (some doc) p = none ∧
      (rs.filterMap (negativeDigits ·.toList)).foldl (replaceSegment doc path) rs =
        resolve (next (some doc) p) rs := by
  have hdots := not_dot_of_segments hpath
  have hresolved : ∀ r ∈ resolve (some doc) (p :: rs), '.' ∉ r.toList := not_dot_resolve hdots
  rw [List.forall_mem_cons] at hdots
  rw [Right, processNegativeIndex_eq hpath, hpath, ← resolveSegment_eq_self_iff]
  constructor
  · intro heq
    have hsplit := congrArg (Text.splitAt · '.') heq
    rw [Text.splitAt_join _ (List.cons_ne_nil _ _)
        (List.forall_mem_cons.2 ⟨hdots.1, not_dot_foldl hdots.2⟩),
      Text.splitAt_join (resolve (some doc) (p :: rs)) (List.cons_ne_nil _ _) hresolved, resolve,
      List.cons.injEq] at hsplit
    exact ⟨hsplit.1.symm, hsplit.2⟩
  · rintro ⟨hfirst, hrest⟩
    rw [hrest, resolve, hfirst]

/-- Where the lookups are right, a replacement that falls on another segment shows in the
result. -/
theorem placed_of_resolved (done : List String)
    (hfound : ∀ pre s post, done ++ todo = pre ++ s :: post → ∀ digits,
      negativeDigits s.toList = some digits →
        lookupIndex doc path digits = positionAt (pre.foldl next node) s)
    (heq : (todo.filterMap (negativeDigits ·.toList)).foldl (replaceSegment doc path)
        (done.map (settled doc path) ++ todo) = resolve node (done ++ todo)) :
    ∀ pre s post, todo = pre ++ s :: post → ∀ digits, negativeDigits s.toList = some digits →
      lookupIndex doc path digits ≠ none → ∀ q ∈ done ++ pre, ∀ digits',
        negativeDigits q.toList = some digits' → digits <+: digits' →
          lookupIndex doc path digits' ≠ none := by
  induction todo generalizing done with
  | nil =>
      intro pre s post h
      exact absurd h.symm (List.append_ne_nil_of_right_ne_nil _ (List.cons_ne_nil _ _))
  | cons r todo ih =>
      have hsplit : done ++ r :: todo = done ++ [r] ++ todo := by simp
      have hstep (hplaced : ∀ digits, negativeDigits r.toList = some digits →
            lookupIndex doc path digits ≠ none → ∀ q ∈ done, ∀ digits',
              negativeDigits q.toList = some digits' → digits <+: digits' →
                lookupIndex doc path digits' ≠ none)
          (hrest : (todo.filterMap (negativeDigits ·.toList)).foldl (replaceSegment doc path)
              ((done ++ [r]).map (settled doc path) ++ todo) = resolve node (done ++ r :: todo)) :
          ∀ pre s post, r :: todo = pre ++ s :: post → ∀ digits,
            negativeDigits s.toList = some digits → lookupIndex doc path digits ≠ none →
              ∀ q ∈ done ++ pre, ∀ digits', negativeDigits q.toList = some digits' →
                digits <+: digits' → lookupIndex doc path digits' ≠ none := by
        intro pre s post hpre
        cases pre with
        | nil =>
            cases hpre
            rw [List.append_nil]
            exact hplaced
        | cons q pre =>
            cases hpre
            have hih := ih (done ++ [r]) (by rwa [← hsplit]) (by rwa [← hsplit])
              pre s post rfl
            rwa [List.append_assoc, List.singleton_append] at hih
      rw [List.filterMap_cons] at heq
      cases hr : negativeDigits r.toList with
      | none =>
          have hself : settled doc path r = r := by simp only [settled, hr]
          refine hstep (by simp [hr]) ?_
          rw [hr] at heq
          rw [List.map_append, List.map_singleton, hself, List.append_assoc,
            List.singleton_append]
          exact heq
      | some digits =>
          rw [hr, List.foldl_cons] at heq
          by_cases hplaced : lookupIndex doc path digits ≠ none → ∀ q ∈ done, ∀ digits',
              negativeDigits q.toList = some digits' → digits <+: digits' →
                lookupIndex doc path digits' ≠ none
          · rw [replaceSegment_settled hr hplaced] at heq
            refine hstep (fun digits' hdigits' => ?_) heq
            rw [hr] at hdigits'
            cases hdigits'
            exact hplaced
          · -- The replacement falls on a segment before, which should have stayed.
            push Not at hplaced
            obtain ⟨hi, q, hq, digits', hdigits', hprefixed, hnone⟩ := hplaced
            obtain ⟨i, hi⟩ := Option.ne_none_iff_exists'.1 hi
            obtain ⟨hne, hall, -⟩ := digits_of_negativeDigits hr
            have hqself : settled doc path q = q := by simp only [settled, hdigits', hnone]
            have hexists : ∃ x ∈ done.map (settled doc path), '-' :: digits <+: x.toList := by
              refine ⟨q, List.mem_map.2 ⟨q, hq, hqself⟩, ?_⟩
              exact (List.cons_prefix_cons.2 ⟨rfl, hprefixed⟩).trans
                (digits_of_negativeDigits hdigits').2.2
            obtain ⟨pre, x, post, hmap, hx, hreplaced⟩ :=
              replaceHead_first (indexText i).toList (r :: todo) hexists
            rw [replaceSegment, hi] at heq
            dsimp only at heq
            rw [hreplaced] at heq
            have hstays (digits'' : List Char) : ¬ '-' :: digits'' <+: (String.ofList
                ((indexText i).toList ++ x.toList.drop ('-' :: digits).length)).toList := by
              rw [String.toList_ofList]
              exact not_minus_prefix
            obtain ⟨pre', post', hlen, hkept⟩ :=
              foldl_keeps (todo.filterMap (negativeDigits ·.toList)) pre (post ++ r :: todo) hstays
            rw [hkept] at heq
            obtain ⟨done₁, done₂, rfl, hpre, hpost⟩ := List.map_eq_append_iff.1 hmap
            obtain ⟨x', done₃, rfl, rfl, -⟩ := List.map_eq_cons_iff.1 hpost
            obtain ⟨hself, digits'', hx', -, hnone'⟩ := prefix_settled hne hall hx
            have hposition := hfound done₁ x' (done₃ ++ r :: todo)
              (by rw [List.append_assoc, List.cons_append]) digits'' hx'
            rw [hnone'] at hposition
            rw [List.append_assoc, List.cons_append, resolve_append, resolve,
              resolveSegment_eq_self_iff.2 hposition.symm] at heq
            have hlength : pre'.length = (resolve node done₁).length := by
              rw [hlen, length_resolve, ← hpre, List.length_map]
            have hsame := (List.cons.inj (List.append_inj heq hlength).2).1
            rw [hself, ← hsame, String.toList_ofList] at hx
            exact absurd hx not_minus_prefix

/-- Unless an index is both looked up elsewhere and replaced elsewhere, the path is right
exactly if neither happens. -/
theorem resolves_iff (doc : Json) (path : String) :
    Right doc path ∧ (Found doc path ∨ Placed doc path) ↔ Found doc path ∧ Placed doc path := by
  obtain ⟨p, rs, hpath, -⟩ := Text.splitAt_spec path '.'
  change segments path = p :: rs at hpath
  have hfound : Found doc path ↔ positionAt (some doc) p = none ∧
      ∀ pre s post, rs = pre ++ s :: post → ∀ digits, negativeDigits s.toList = some digits →
        lookupIndex doc path digits = positionAt (pre.foldl next (next (some doc) p)) s := by
    constructor
    · intro h
      refine ⟨h.first p rs hpath, fun pre s post heq => ?_⟩
      exact h.behind (p :: pre) s post (by rw [hpath, heq]; rfl) (List.cons_ne_nil _ _)
    · rintro ⟨hfirst, hbehind⟩
      constructor
      · intro s q hs
        rw [hpath] at hs
        cases hs
        exact hfirst
      · intro pre s post hs hne
        rw [hpath] at hs
        cases pre with
        | nil => exact absurd rfl hne
        | cons q pre =>
            cases hs
            exact hbehind pre s post rfl
  have hplaced : Placed doc path ↔ ∀ pre s post, rs = pre ++ s :: post → ∀ digits,
      negativeDigits s.toList = some digits → lookupIndex doc path digits ≠ none →
        ∀ q ∈ pre, ∀ digits', negativeDigits q.toList = some digits' → digits <+: digits' →
          lookupIndex doc path digits' ≠ none := by
    constructor
    · intro h pre s post heq
      exact h p pre s post (by rw [hpath, heq])
    · intro h s₀ pre s post hs
      rw [hpath] at hs
      cases hs
      exact h pre s post rfl
  have hright : Placed doc path → (Right doc path ↔ Found doc path) := by
    intro h
    have hloop := foldl_settled [] rs (fun pre s post => hplaced.1 h pre s post)
    rw [List.map_nil, List.nil_append] at hloop
    rw [right_iff_segments hpath, hloop, map_settled_eq_iff, hfound]
  constructor
  · rintro ⟨h, hf | hp⟩
    · refine ⟨hf, hplaced.2 ?_⟩
      exact placed_of_resolved [] (hfound.1 hf).2 ((right_iff_segments hpath).1 h).2
    · exact ⟨(hright hp).1 h, hp⟩
  · rintro ⟨hf, hp⟩
    exact ⟨(hright hp).2 hf, Or.inl hf⟩

end

/-- Two rows of different lengths. -/
def rows : Json :=
  .obj [("a", .arr [.arr [.num "1"], .arr [.num "4", .num "5", .num "6"]])]

/-- The second index is looked up at the outer array too, and the path leads to the second
element of the last row. -/
theorem not_right_rows : ¬ ∀ doc path, Right doc path := by
  intro h
  have hrows := h rows "a.-1.-1"
  rw [Right, show processNegativeIndex rows "a.-1.-1" = "a.1.1" by decide] at hrows
  exact absurd hrows (by decide)

end DazeApi.Overrides.NegativeIndex
