import Mathlib.Data.Option.Basic
import Mathlib.Data.List.DropRight

/-!
# Text functions

The string functions of the source's standard library that the model uses,
written over the list of characters of a string so that they compute in the
kernel.  `splitAt_join` and `trimChar_join` say when a list of parts can be read back
from their join.
-/

namespace Text

/-- `strings.HasPrefix`. -/
def hasPrefix (s p : String) : Bool := p.toList.isPrefixOf s.toList

/-- What a `strings.Builder` has after some strings were written. -/
def concat (parts : List String) : String := parts.foldr (· ++ ·) ""

@[simp] theorem concat_nil : concat [] = "" := rfl

@[simp] theorem concat_cons (p : String) (ps : List String) : concat (p :: ps) = p ++ concat ps := rfl

@[simp] theorem concat_append (ps qs : List String) :
    concat (ps ++ qs) = concat ps ++ concat qs := by
  induction ps with
  | nil => simp
  | cons p ps ih => simp [ih, String.append_assoc]

theorem concat_eq_empty_iff {parts : List String} : concat parts = "" ↔ ∀ p ∈ parts, p = "" := by
  induction parts with
  | nil => simp
  | cons p ps ih => rw [concat_cons, String.append_eq_empty_iff, ih, List.forall_mem_cons]

section

variable {α : Type} {f g : α → String} {l : List α}

theorem length_concat_map_le (h : ∀ x ∈ l, (f x).length ≤ (g x).length) :
    (concat (l.map f)).length ≤ (concat (l.map g)).length := by
  induction l with
  | nil => exact Nat.le_refl _
  | cons x l ih =>
      rw [List.forall_mem_cons] at h
      rw [List.map_cons, List.map_cons, concat_cons, concat_cons, String.length_append,
        String.length_append]
      exact Nat.add_le_add h.1 (ih h.2)

/-- Parts that are no longer one by one and as long together are as long one by one. -/
theorem length_eq_of_length_concat (h : ∀ x ∈ l, (f x).length ≤ (g x).length)
    (hlen : (concat (l.map f)).length = (concat (l.map g)).length) :
    ∀ x ∈ l, (f x).length = (g x).length := by
  induction l with
  | nil => intro x hx; cases hx
  | cons x l ih =>
      rw [List.forall_mem_cons] at h ⊢
      have hle := length_concat_map_le h.2
      have hx := h.1
      rw [List.map_cons, List.map_cons, concat_cons, concat_cons, String.length_append,
        String.length_append] at hlen
      exact ⟨by omega, ih h.2 (by omega)⟩

theorem concat_map_filter (p : α → Bool) :
    concat ((l.filter p).map f) = concat (l.map fun x => if p x then f x else "") := by
  induction l with
  | nil => rfl
  | cons x l ih =>
      rw [List.filter_cons, List.map_cons, concat_cons, ← ih]
      split
      next => rw [List.map_cons, concat_cons]
      next => rw [String.empty_append]

end

/-- `strings.Contains`. -/
def contains (s sub : String) : Bool := s.toList.tails.any (sub.toList.isPrefixOf ·)

/-- `len(s)`, in bytes. -/
def byteLength (s : String) : Nat := s.toList.foldl (fun n c => n + c.utf8Size) 0

/-- `strings.ToLower`, on the ASCII letters. -/
def toLower (s : String) : String := String.ofList (s.toList.map Char.toLower)

/-- `unicode.IsSpace`. -/
def isSpace (c : Char) : Bool :=
  c.toNat ∈ [0x09, 0x0A, 0x0B, 0x0C, 0x0D, 0x20, 0x85, 0xA0, 0x1680, 0x2028, 0x2029, 0x202F,
    0x205F, 0x3000] || (0x2000 ≤ c.toNat && c.toNat ≤ 0x200A)

theorem isSpace_eq_false_of_isDigit {c : Char} (h : c.isDigit = true) : isSpace c = false := by
  rw [Char.isDigit, Bool.and_eq_true, decide_eq_true_eq, decide_eq_true_eq] at h
  have hlow : 48 ≤ c.toNat := h.1
  have hhigh : c.toNat ≤ 57 := h.2
  rw [isSpace, Bool.or_eq_false_iff, decide_eq_false_iff_not, Bool.and_eq_false_iff,
    decide_eq_false_iff_not, decide_eq_false_iff_not]
  simp only [List.mem_cons, List.not_mem_nil, or_false, not_or]
  omega

/-- `strings.TrimSpace`. -/
def trimSpace (s : String) : String :=
  String.ofList (((s.toList.dropWhile isSpace).reverse.dropWhile isSpace).reverse)

/-- A prefix of what is left after dropping has nothing to drop. -/
theorem dropWhile_of_isPrefix {α : Type} {p : α → Bool} {l m : List α} (h : m <+: l.dropWhile p) :
    m.dropWhile p = m := by
  cases m with
  | nil => rfl
  | cons x m =>
      obtain ⟨t, ht⟩ := h
      have hidem : (l.dropWhile p).dropWhile p = l.dropWhile p := List.dropWhile_idempotent p l
      rw [← ht, List.cons_append, List.dropWhile_cons] at hidem
      split at hidem
      next =>
        have hlength := congrArg List.length hidem
        have hle := (List.dropWhile_suffix p (l := m ++ t)).length_le
        simp only [List.length_cons] at hlength
        omega
      next hx => rw [List.dropWhile_cons, if_neg hx]

theorem trimSpace_trimSpace (s : String) : trimSpace (trimSpace s) = trimSpace s := by
  have hpre : ((s.toList.dropWhile isSpace).reverse.dropWhile isSpace).reverse <+:
      s.toList.dropWhile isSpace := by
    have h := List.dropWhile_suffix isSpace (l := (s.toList.dropWhile isSpace).reverse)
    rw [← List.reverse_prefix, List.reverse_reverse] at h
    exact h
  rw [trimSpace, trimSpace, String.toList_ofList, dropWhile_of_isPrefix hpre,
    List.reverse_reverse, List.dropWhile_idempotent]

/-- What is trimmed to nothing is space. -/
theorem isSpace_of_trimSpace_eq_empty {s : String} (h : trimSpace s = "") :
    ∀ c ∈ s.toList, isSpace c = true := by
  have hlist := congrArg String.toList h
  rw [trimSpace, String.toList_ofList, String.toList_empty, List.reverse_eq_nil_iff,
    List.dropWhile_eq_nil_iff] at hlist
  intro c hc
  rw [← List.takeWhile_append_dropWhile (p := isSpace) (l := s.toList)] at hc
  rcases List.mem_append.1 hc with hc | hc
  · exact List.mem_takeWhile_imp hc
  · exact hlist c (List.mem_reverse.2 hc)

theorem mem_of_mem_trimSpace {s : String} {c : Char} (h : c ∈ (trimSpace s).toList) :
    c ∈ s.toList := by
  rw [trimSpace, String.toList_ofList, List.mem_reverse] at h
  have hdrop := (List.dropWhile_sublist isSpace).mem h
  exact (List.dropWhile_sublist isSpace).mem (List.mem_reverse.1 hdrop)

theorem trimSpace_of_forall {s : String} (h : ∀ c ∈ s.toList, isSpace c = false) :
    trimSpace s = s := by
  have hkeep : ∀ l : List Char, (∀ c ∈ l, isSpace c = false) →
      l.dropWhile isSpace = l := by
    intro l hl
    cases l with
    | nil => rfl
    | cons c l =>
        rw [List.dropWhile_cons_of_neg]
        rw [hl c (.head _)]
        exact Bool.false_ne_true
  rw [trimSpace, hkeep _ h, hkeep _ fun c hc => h c (List.mem_reverse.1 hc),
    List.reverse_reverse, String.ofList_toList]

/-- `s[len(p):]`, for a string that begins with `p`. -/
def dropPrefix (s p : String) : String := String.ofList (s.toList.drop p.toList.length)

theorem hasPrefix_iff {s p : String} : hasPrefix s p = true ↔ p.toList <+: s.toList :=
  List.isPrefixOf_iff_prefix

theorem hasPrefix_of_append {s p q : String} (h : hasPrefix s (p ++ q) = true) :
    hasPrefix s p = true := by
  rw [hasPrefix_iff, String.toList_append] at h
  exact hasPrefix_iff.2 ((List.prefix_append _ _).trans h)

/-- A string is its prefix and the rest. -/
theorem append_dropPrefix {s p : String} (h : hasPrefix s p = true) : p ++ dropPrefix s p = s := by
  obtain ⟨rest, hrest⟩ := hasPrefix_iff.1 h
  apply String.toList_inj.1
  rw [String.toList_append, dropPrefix, String.toList_ofList, ← hrest, List.drop_left]

theorem eq_empty_of_hasPrefix_empty {p : String} (h : hasPrefix "" p = true) : p = "" := by
  obtain ⟨rest, hrest⟩ := hasPrefix_iff.1 h
  exact String.toList_inj.1 (List.append_eq_nil_iff.1 hrest).1

/-- `strings.HasSuffix`. -/
def hasSuffix (s p : String) : Bool := p.toList.isSuffixOf s.toList

/-- `strings.TrimSuffix`. -/
def trimSuffix (s p : String) : String :=
  if hasSuffix s p then String.ofList (s.toList.take (s.toList.length - p.toList.length)) else s

theorem hasSuffix_append (s p : String) : hasSuffix (s ++ p) p = true := by
  rw [hasSuffix, List.isSuffixOf_iff_suffix, String.toList_append]
  exact List.suffix_append s.toList p.toList

theorem trimSuffix_append (s p : String) : trimSuffix (s ++ p) p = s := by
  rw [trimSuffix, if_pos (hasSuffix_append s p), String.toList_append, List.length_append,
    Nat.add_sub_cancel, List.take_left, String.ofList_toList]

/-- `strings.Split` at a character. -/
def splitAt (s : String) (sep : Char) : List String :=
  s.toList.foldr
    (fun c parts =>
      if c = sep then "" :: parts
      else
        match parts with
        | [] => [String.ofList [c]]
        | p :: ps => String.ofList (c :: p.toList) :: ps)
    [""]

theorem splitAt_ne_nil (s : String) (sep : Char) : splitAt s sep ≠ [] := by
  simp only [splitAt]
  induction s.toList with
  | nil => simp
  | cons c cs ih =>
      simp only [List.foldr_cons]
      split
      next => simp
      next => split <;> simp

/-- `strings.TrimLeft` with one character to cut. -/
def trimLeftChar (s : String) (c : Char) : String := String.ofList (s.toList.dropWhile (· = c))

/-- `strings.TrimRight` with one character to cut. -/
def trimRightChar (s : String) (c : Char) : String :=
  String.ofList (s.toList.reverse.dropWhile (· = c)).reverse

/-- `strings.Trim` with one character to cut. -/
def trimChar (s : String) (c : Char) : String :=
  String.ofList (((s.toList.dropWhile (· = c)).reverse.dropWhile (· = c)).reverse)

/-- `strings.Join` with a separator of one character. -/
def join (parts : List String) (sep : Char) : String :=
  String.ofList ([sep].intercalate (parts.map String.toList))

/-- The step of `splitAt` from the right. -/
def splitStep (sep c : Char) (parts : List String) : List String :=
  if c = sep then "" :: parts
  else
    match parts with
    | [] => [String.ofList [c]]
    | p :: ps => String.ofList (c :: p.toList) :: ps

theorem splitAt_eq (s : String) (sep : Char) :
    splitAt s sep = s.toList.foldr (splitStep sep) [""] := rfl

theorem foldr_splitStep {sep : Char} {p : List Char} (hp : sep ∉ p) (h : String) (t : List String) :
    p.foldr (splitStep sep) (h :: t) = String.ofList (p ++ h.toList) :: t := by
  induction p with
  | nil => simp
  | cons c p ih =>
      have hc : ¬ c = sep := fun hcs => hp (by simp [hcs])
      have hp' : sep ∉ p := fun h' => hp (by simp [h'])
      simp [ih hp', splitStep, hc]

theorem intercalate_cons_cons (sep : Char) (p q : String) (ps : List String) :
    [sep].intercalate ((p :: q :: ps).map String.toList) =
      p.toList ++ sep :: [sep].intercalate ((q :: ps).map String.toList) := by
  simp [List.intercalate]

/-- What is joined is split into the same parts, as long as none of them has the
separator. -/
theorem splitAt_join {sep : Char} :
    ∀ (parts : List String), parts ≠ [] → (∀ p ∈ parts, sep ∉ p.toList) →
      splitAt (join parts sep) sep = parts
  | [], h, _ => absurd rfl h
  | [p], _, h => by
      have hfold := foldr_splitStep (h p (by simp)) "" []
      simpa [splitAt_eq, join, List.intercalate] using hfold
  | p :: q :: ps, _, h => by
      have ih := splitAt_join (q :: ps) (by simp) fun r hr => h r (by simp [hr])
      have hfold := foldr_splitStep (h p (by simp)) "" (q :: ps)
      simp only [splitAt_eq, join, String.toList_ofList] at ih
      rw [splitAt_eq, join, String.toList_ofList, intercalate_cons_cons, List.foldr_append,
        List.foldr_cons, ih]
      simpa [splitStep] using hfold

/-- The parts behind the first one, with their separators. -/
def joinTail (sep : Char) (parts : List String) : List Char :=
  parts.flatMap fun p => sep :: p.toList

theorem joinTail_cons (sep : Char) (p : String) (ps : List String) :
    joinTail sep (p :: ps) = sep :: (p.toList ++ joinTail sep ps) := rfl

theorem toList_join_cons (sep : Char) (p : String) (ps : List String) :
    (join (p :: ps) sep).toList = p.toList ++ joinTail sep ps := by
  induction ps generalizing p with
  | nil => simp [join, joinTail, List.intercalate]
  | cons q ps ih =>
      have htail := ih q
      rw [join, String.toList_ofList] at htail ⊢
      rw [intercalate_cons_cons, htail]
      rfl

theorem mem_join {parts : List String} {sep c : Char} (h : c ∈ (join parts sep).toList) :
    c = sep ∨ ∃ p ∈ parts, c ∈ p.toList := by
  cases parts with
  | nil => cases h
  | cons p ps =>
      rw [toList_join_cons, List.mem_append, joinTail, List.mem_flatMap] at h
      rcases h with h | ⟨q, hq, h⟩
      · exact Or.inr ⟨p, .head _, h⟩
      · rcases List.mem_cons.1 h with rfl | h
        · exact Or.inl rfl
        · exact Or.inr ⟨q, .tail _ hq, h⟩

/-- A text is the join of its parts, and none of them has the separator. -/
theorem splitAt_spec (s : String) (sep : Char) : ∃ p ps, splitAt s sep = p :: ps ∧
    s.toList = p.toList ++ joinTail sep ps ∧ ∀ q ∈ p :: ps, sep ∉ q.toList := by
  rw [splitAt_eq]
  induction s.toList with
  | nil => exact ⟨"", [], rfl, rfl, by simp⟩
  | cons c l ih =>
      obtain ⟨p, ps, heq, hlist, hparts⟩ := ih
      rw [List.foldr_cons, heq, splitStep]
      split
      next hc =>
        refine ⟨"", p :: ps, rfl, ?_, List.forall_mem_cons.2 ⟨by simp, hparts⟩⟩
        rw [joinTail_cons, ← hlist, hc]
        rfl
      next hc =>
        rw [List.forall_mem_cons] at hparts
        refine ⟨String.ofList (c :: p.toList), ps, rfl, ?_, ?_⟩
        · rw [String.toList_ofList, List.cons_append, ← hlist]
        · refine List.forall_mem_cons.2 ⟨?_, hparts.2⟩
          rw [String.toList_ofList, List.mem_cons, not_or]
          exact ⟨Ne.symm hc, hparts.1⟩

theorem splitAt_eq_pair {s first second : String} {sep : Char}
    (h : splitAt s sep = [first, second]) :
    s.toList = first.toList ++ sep :: second.toList ∧
      sep ∉ first.toList ∧ sep ∉ second.toList := by
  obtain ⟨p, ps, heq, hlist, hparts⟩ := splitAt_spec s sep
  rw [h] at heq
  cases heq
  refine ⟨?_, hparts _ (.head _), hparts _ (.tail _ (.head _))⟩
  rw [hlist, joinTail_cons, joinTail, List.flatMap_nil, List.append_nil]

theorem splitAt_of_append {s : String} {sep : Char} {first second : List Char}
    (h : s.toList = first ++ sep :: second) (hfirst : sep ∉ first) (hsecond : sep ∉ second) :
    splitAt s sep = [String.ofList first, String.ofList second] := by
  have hs : s = join [String.ofList first, String.ofList second] sep := by
    apply String.toList_inj.1
    rw [h, toList_join_cons, joinTail_cons, joinTail, List.flatMap_nil, List.append_nil,
      String.toList_ofList, String.toList_ofList]
  rw [hs]
  refine splitAt_join _ (List.cons_ne_nil _ _) ?_
  intro p hp
  rcases List.mem_cons.1 hp with rfl | hp
  · rwa [String.toList_ofList]
  · rw [List.mem_singleton.1 hp, String.toList_ofList]
    exact hsecond

theorem length_splitAt (s : String) (sep : Char) :
    (splitAt s sep).length = s.toList.count sep + 1 := by
  rw [splitAt_eq]
  induction s.toList with
  | nil => rfl
  | cons c l ih =>
      rw [List.foldr_cons, splitStep.eq_def, List.count_cons]
      split
      next hc => rw [List.length_cons, ih, if_pos (beq_iff_eq.2 hc)]
      next hc =>
        rw [if_neg (by rwa [beq_iff_eq]), Nat.add_zero, ← ih]
        split
        next hnil =>
          rw [hnil] at ih
          cases ih
        next hcons => rw [hcons]; rfl

theorem le_count_joinTail (sep : Char) (parts : List String) :
    parts.length ≤ (joinTail sep parts).count sep := by
  induction parts with
  | nil => exact Nat.zero_le _
  | cons p ps ih =>
      rw [joinTail_cons, List.count_cons_self, List.count_append, List.length_cons]
      omega

/-- A joined text has as many parts as were joined, or more. -/
theorem length_le_splitAt_join (parts : List String) (sep : Char) :
    parts.length ≤ (splitAt (join parts sep) sep).length := by
  rw [length_splitAt]
  cases parts with
  | nil => exact Nat.zero_le _
  | cons p ps =>
      have htail := le_count_joinTail sep ps
      rw [toList_join_cons, List.count_append, List.length_cons]
      omega

/-- A text of joined parts ends with the last part. -/
theorem getLast?_join (sep : Char) :
    ∀ {parts : List String} {p : String}, parts.getLast? = some p → p ≠ "" →
      (join parts sep).toList.getLast? = p.toList.getLast?
  | [q], p, h, _ => by
      cases h
      simp [join, List.intercalate]
  | q :: r :: ps, p, h, hp => by
      have hlast : (r :: ps).getLast? = some p := by simpa using h
      have ih := getLast?_join sep hlast hp
      have hne : p.toList.getLast? ≠ none := by simpa using hp
      simp only [join, String.toList_ofList] at ih ⊢
      rw [intercalate_cons_cons, List.getLast?_append, List.getLast?_cons, ih]
      obtain ⟨x, hx⟩ := Option.ne_none_iff_exists'.1 hne
      simp [hx]

theorem trimChar_eq_self {s : String} {c : Char} (hhead : ∀ x, s.toList.head? = some x → x ≠ c)
    (hlast : ∀ x, s.toList.getLast? = some x → x ≠ c) : trimChar s c = s := by
  have hleft : s.toList.dropWhile (· = c) = s.toList := by
    cases hs : s.toList with
    | nil => rfl
    | cons x xs =>
        have hx := hhead x (by simp [hs])
        simp [hx]
  have hright : (s.toList.reverse.dropWhile (· = c)).reverse = s.toList := by
    cases hs : s.toList.reverse with
    | nil => simpa using congrArg List.reverse hs
    | cons x xs =>
        have hx := hlast x (by rw [← List.head?_reverse, hs]; rfl)
        rw [List.dropWhile_cons, if_neg (by simpa using hx), ← hs, List.reverse_reverse]
  rw [trimChar, hleft, hright, String.ofList_toList]

/-- Joined parts without the separator, the first and the last of them not empty, have
nothing to trim. -/
theorem trimChar_join {sep : Char} {parts : List String} (hsep : ∀ p ∈ parts, sep ∉ p.toList)
    (hhead : parts.head? ≠ some "") (hlast : parts.getLast? ≠ some "") :
    trimChar (join parts sep) sep = join parts sep := by
  apply trimChar_eq_self
  · intro x hx
    cases parts with
    | nil => cases hx
    | cons p ps =>
        have hp : p.toList ≠ [] := by simpa using hhead
        obtain ⟨y, ys, hy⟩ := List.exists_cons_of_ne_nil hp
        have hxy : x = y := by
          cases ps with
          | nil => simpa [join, List.intercalate, hy, eq_comm] using hx
          | cons q qs =>
              rw [join, String.toList_ofList, intercalate_cons_cons, hy] at hx
              exact (Option.some.inj hx).symm
        have hmem : x ∈ p.toList := by simp [hy, hxy]
        rintro rfl
        exact hsep p (by simp) hmem
  · intro x hx
    cases hp : parts.getLast? with
    | none =>
        rw [List.getLast?_eq_none_iff] at hp
        subst hp
        cases hx
    | some p =>
        rw [getLast?_join sep hp (by rintro rfl; exact hlast hp)] at hx
        rintro rfl
        exact hsep p (List.mem_of_getLast? hp) (List.mem_of_getLast? hx)

/-- The loop of `replaceAll`; the counter skips what is left of an occurrence. -/
def replaceFrom (old new : List Char) : List Char → Nat → List Char
  | [], _ => []
  | _ :: cs, n + 1 => replaceFrom old new cs n
  | c :: cs, 0 =>
      if old.isPrefixOf (c :: cs) then new ++ replaceFrom old new cs (old.length - 1)
      else c :: replaceFrom old new cs 0

theorem replaceFrom_singleton (a : Char) (new cs : List Char) :
    replaceFrom [a] new cs 0 = cs.flatMap fun c => if c = a then new else [c] := by
  induction cs with
  | nil => rfl
  | cons c cs ih =>
      rw [replaceFrom, List.flatMap_cons, ← ih]
      by_cases hc : c = a
      · subst hc
        simp
      · have hc' : ¬ a = c := fun h => hc h.symm
        simp [hc, hc']

/-- `strings.ReplaceAll`, of a text that is not empty. -/
def replaceAll (s old new : String) : String :=
  String.ofList (replaceFrom old.toList new.toList s.toList 0)

/-! ## The first occurrence of a text -/

/-- A text before and behind the first occurrence of another one, as `strings.Index` finds it. -/
def cut (sub : List Char) : List Char → Option (List Char × List Char)
  | [] => if sub = [] then some ([], []) else none
  | c :: cs =>
      if sub.isPrefixOf (c :: cs) then some ([], (c :: cs).drop sub.length)
      else (cut sub cs).map fun r => (c :: r.1, r.2)

section

variable {x : Char} {xs l a b a' b' : List Char}

/-- The occurrence is there, and there is none before. -/
theorem of_cut (h : cut (x :: xs) l = some (a, b)) :
    l = a ++ (x :: xs ++ b) ∧ ¬ (x :: xs) <:+: a := by
  induction l generalizing a with
  | nil => cases h
  | cons c l ih =>
      rw [cut] at h
      split at h
      next hbegin =>
        cases h
        refine ⟨?_, by simp⟩
        rw [List.isPrefixOf_iff_prefix, List.prefix_iff_eq_append] at hbegin
        exact hbegin.symm
      next hbegin =>
        obtain ⟨⟨a₀, b₀⟩, hr, heq⟩ := Option.map_eq_some_iff.1 h
        cases heq
        obtain ⟨rfl, hnot⟩ := ih hr
        refine ⟨rfl, ?_⟩
        rw [List.infix_cons_iff, not_or]
        refine ⟨fun hpre => hbegin ?_, hnot⟩
        rw [List.isPrefixOf_iff_prefix]
        exact hpre.trans (List.prefix_append (c :: a₀) _)

/-- A text whose first character is not repeated in it is found where it stands. -/
theorem cut_append (hx : x ∉ xs) (ha : ¬ (x :: xs) <:+: a) :
    cut (x :: xs) (a ++ (x :: xs ++ b)) = some (a, b) := by
  induction a with
  | nil =>
      rw [List.nil_append, List.cons_append, cut, if_pos]
      · rw [List.length_cons, List.drop_succ_cons, List.drop_left]
      · rw [List.isPrefixOf_iff_prefix]
        exact List.prefix_append (x :: xs) b
  | cons c a ih =>
      rw [List.infix_cons_iff, not_or] at ha
      rw [List.cons_append, cut, if_neg, ih ha.2]
      · rfl
      · rw [List.isPrefixOf_iff_prefix]
        intro hbegin
        -- Else the occurrence would begin in the text before and end behind it.
        rcases List.prefix_or_prefix_of_prefix hbegin (List.prefix_append (c :: a) _) with h | h
        · exact ha.1 h
        · obtain ⟨t, ht⟩ := h
          have hrest : t <+: x :: xs ++ b := by
            rw [← List.prefix_append_right_inj (c :: a), ht]
            exact hbegin
          cases t with
          | nil =>
              rw [List.append_nil] at ht
              exact ha.1 (ht ▸ List.prefix_refl _)
          | cons y t =>
              obtain rfl : y = x := (List.cons_prefix_cons.1 hrest).1
              have hmem : y ∈ xs := by
                rw [← (List.cons.inj ht).2]
                exact List.mem_append_right _ List.mem_cons_self
              exact hx hmem

/-- Two texts are cut in one way. -/
theorem append_inj_of_not_infix (hx : x ∉ xs) (ha : ¬ (x :: xs) <:+: a)
    (ha' : ¬ (x :: xs) <:+: a') (h : a ++ (x :: xs ++ b) = a' ++ (x :: xs ++ b')) :
    a = a' ∧ b = b' := by
  have hcut := cut_append (b := b) hx ha
  rw [h, cut_append hx ha'] at hcut
  cases hcut
  exact ⟨rfl, rfl⟩

theorem singleton_infix_iff : [x] <:+: l ↔ x ∈ l := by
  constructor
  · rintro ⟨a, b, rfl⟩
    simp
  · intro h
    obtain ⟨a, b, rfl⟩ := List.append_of_mem h
    exact ⟨a, b, by simp⟩

end

end Text
