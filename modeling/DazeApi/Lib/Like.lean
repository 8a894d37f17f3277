import Mathlib.Data.List.Basic
import Mathlib.Data.List.Infix

/-!
# Patterns of a database

The patterns of `LIKE`, in which `%` stands for any text and `_` for any character, and
an escape character of one's choice makes the character behind it stand for itself.
`like` reads a pattern as a database does, and has no answer for one that ends with the
escape character.

`Fits` says what a pattern with `%` alone means: the text has the parts between the
wildcards in their order, the first at its beginning and the last at its end.  A pattern
whose other special characters are escaped has that meaning (`like_escape`).
-/

namespace Like

/-- What a pattern says about the next part of a text. -/
inductive Item where
  | many
  | one
  | char (c : Char)

/-- The items of a pattern. -/
def items (esc : Char) : List Char → Option (List Item)
  | [] => some []
  | c :: cs =>
      if c = esc then
        match cs with
        | [] => none
        | d :: ds => (items esc ds).map (.char d :: ·)
      else if c = '%' then (items esc cs).map (.many :: ·)
      else if c = '_' then (items esc cs).map (.one :: ·)
      else (items esc cs).map (.char c :: ·)

/-- The text has what the items say, from its beginning to its end. -/
def matchItems : List Item → List Char → Bool
  | [], s => s.isEmpty
  | .many :: rest, s => s.tails.any (matchItems rest)
  | .one :: _, [] => false
  | .one :: rest, _ :: s => matchItems rest s
  | .char _ :: _, [] => false
  | .char c :: rest, d :: s => d = c && matchItems rest s

/-- `text LIKE pattern ESCAPE esc`. -/
def like (esc : Char) (pattern text : List Char) : Option Bool :=
  (items esc pattern).map (matchItems · text)

/-- The escape character stands before each character that is special beside `%`. -/
def escape (esc : Char) (p : List Char) : List Char :=
  p.flatMap fun c => if c = esc ∨ c = '_' then [esc, c] else [c]

/-- The parts of a pattern between its wildcards. -/
def parts : List Char → List (List Char)
  | [] => [[]]
  | c :: p =>
      if c = '%' then [] :: parts p
      else
        match parts p with
        | [] => [[c]]
        | q :: qs => (c :: q) :: qs

/-- The text has the parts in their order, with any text between two of them. -/
def Fits : List (List Char) → List Char → Prop
  | [], s => s = []
  | [p], s => s = p
  | p :: ps, s => ∃ gap rest, s = p ++ (gap ++ rest) ∧ Fits ps rest

variable {esc c : Char} {p q s : List Char} {qs : List (List Char)}

theorem parts_ne_nil (p : List Char) : parts p ≠ [] := by
  cases p with
  | nil => exact List.cons_ne_nil _ _
  | cons c p =>
      rw [parts]
      split
      next => exact List.cons_ne_nil _ _
      next => split <;> exact List.cons_ne_nil _ _

theorem fits_cons (h : qs ≠ []) :
    Fits (q :: qs) s ↔ ∃ gap rest, s = q ++ (gap ++ rest) ∧ Fits qs rest := by
  cases qs with
  | nil => exact absurd rfl h
  | cons r rs => exact Iff.rfl

/-- The first part of a pattern begins the text. -/
theorem fits_cons_cons : Fits ((c :: q) :: qs) s ↔ ∃ s', s = c :: s' ∧ Fits (q :: qs) s' := by
  cases qs with
  | nil =>
      constructor
      · rintro rfl
        exact ⟨q, rfl, rfl⟩
      · rintro ⟨s', rfl, hs'⟩
        exact congrArg (c :: ·) hs'
  | cons r rs =>
      constructor
      · rintro ⟨gap, rest, rfl, hrest⟩
        exact ⟨q ++ (gap ++ rest), rfl, gap, rest, rfl, hrest⟩
      · rintro ⟨s', rfl, gap, rest, rfl, hrest⟩
        exact ⟨gap, rest, rfl, hrest⟩

/-! ## The escaped pattern -/

theorem escape_cons (esc c : Char) (p : List Char) :
    escape esc (c :: p) = (if c = esc ∨ c = '_' then [esc, c] else [c]) ++ escape esc p :=
  List.flatMap_cons

/-- A wildcard is not escaped, and no escaped character is one. -/
theorem escape_cons_cases (hesc : esc ≠ '%') (c : Char) (p : List Char) :
    (c = '%' ∧ escape esc (c :: p) = '%' :: escape esc p) ∨
    (c ≠ '%' ∧ ∃ block, block ≠ [] ∧ '%' ∉ block ∧ escape esc [c] = block ∧
      escape esc (c :: p) = block ++ escape esc p) := by
  by_cases hc : c = '%'
  · subst hc
    refine Or.inl ⟨rfl, ?_⟩
    rw [escape_cons, if_neg (not_or.2 ⟨Ne.symm hesc, by decide⟩)]
    rfl
  · refine Or.inr ⟨hc, _, ?_, ?_, (escape_cons esc c []).trans (List.append_nil _),
      escape_cons esc c p⟩
    · split <;> exact List.cons_ne_nil _ _
    · split
      next => simpa using ⟨Ne.symm hesc, Ne.symm hc⟩
      next => simpa using Ne.symm hc

theorem filter_escape (hesc : esc ≠ '%') (p : List Char) :
    (escape esc p).filter (· ≠ '%') = escape esc (p.filter (· ≠ '%')) := by
  induction p with
  | nil => rfl
  | cons c p ih =>
      rcases escape_cons_cases hesc c p with ⟨rfl, h⟩ | ⟨hc, block, -, hblock, hsingle, h⟩
      · rw [h, List.filter_cons_of_neg (by decide), List.filter_cons_of_neg (by decide), ih]
      · have hkeep : block.filter (· ≠ '%') = block :=
          List.filter_eq_self.2 fun d hd => decide_eq_true (ne_of_mem_of_not_mem hd hblock)
        have hpos : (c :: p).filter (· ≠ '%') = c :: p.filter (· ≠ '%') :=
          List.filter_cons_of_pos (by simpa using hc)
        rw [h, List.filter_append, hkeep, ih, hpos, ← hsingle, escape_cons esc c [],
          escape_cons esc c (p.filter _), List.append_assoc]
        rfl

theorem count_escape (hesc : esc ≠ '%') (p : List Char) :
    (escape esc p).count '%' = p.count '%' := by
  induction p with
  | nil => rfl
  | cons c p ih =>
      rcases escape_cons_cases hesc c p with ⟨rfl, h⟩ | ⟨hc, block, -, hblock, -, h⟩
      · rw [h, List.count_cons_self, List.count_cons_self, ih]
      · rw [h, List.count_append, List.count_eq_zero_of_not_mem hblock, Nat.zero_add, ih,
          List.count_cons_of_ne hc]

theorem begins_escape (hesc : esc ≠ '%') (p : List Char) :
    ['%'] <+: escape esc p ↔ ['%'] <+: p := by
  cases p with
  | nil => exact Iff.rfl
  | cons c p =>
      rcases escape_cons_cases hesc c p with ⟨rfl, h⟩ | ⟨hc, block, hne, hblock, -, h⟩
      · rw [h]
        simp
      · obtain ⟨d, block, rfl⟩ := List.exists_cons_of_ne_nil hne
        rw [h, List.cons_append, List.cons_prefix_cons, List.cons_prefix_cons]
        exact ⟨fun hd => absurd (hd.1 ▸ List.mem_cons_self) hblock, fun hd => absurd hd.1.symm hc⟩

theorem infix_append_of_not_mem {block p : List Char} (h : '%' ∉ block) :
    ['%', '%'] <:+: block ++ p ↔ ['%', '%'] <:+: p := by
  induction block with
  | nil => exact Iff.rfl
  | cons d block ih =>
      obtain ⟨hd, hblock⟩ := not_or.1 (mt List.mem_cons.2 h)
      rw [List.cons_append, List.infix_cons_iff, ih hblock, List.cons_prefix_cons]
      exact or_iff_right fun hbegin => hd hbegin.1

/-- Escaping brings no wildcards together and takes none apart. -/
theorem infix_escape (hesc : esc ≠ '%') (p : List Char) :
    ['%', '%'] <:+: escape esc p ↔ ['%', '%'] <:+: p := by
  induction p with
  | nil => exact Iff.rfl
  | cons c p ih =>
      rcases escape_cons_cases hesc c p with ⟨rfl, h⟩ | ⟨hc, block, -, hblock, -, h⟩
      · rw [h, List.infix_cons_iff, List.infix_cons_iff, ih, List.cons_prefix_cons,
          List.cons_prefix_cons, begins_escape hesc]
      · rw [h, infix_append_of_not_mem hblock, ih, List.infix_cons_iff, List.cons_prefix_cons]
        exact (or_iff_right fun hbegin => hc hbegin.1.symm).symm

/-! ## The meaning of an escaped pattern -/

/-- What an item stands for when `%` is the only wildcard. -/
def itemOf (c : Char) : Item := if c = '%' then .many else .char c

theorem matchItems_map_itemOf (p s : List Char) :
    matchItems (p.map itemOf) s = true ↔ Fits (parts p) s := by
  induction p generalizing s with
  | nil => exact List.isEmpty_iff
  | cons c p ih =>
      rw [List.map_cons, itemOf, parts]
      by_cases hc : c = '%'
      · rw [if_pos hc, if_pos hc, matchItems, List.any_eq_true, fits_cons (parts_ne_nil p)]
        constructor
        · rintro ⟨rest, htail, hrest⟩
          obtain ⟨gap, rfl⟩ := (List.mem_tails _ _).1 htail
          exact ⟨gap, rest, rfl, (ih rest).1 hrest⟩
        · rintro ⟨gap, rest, rfl, hrest⟩
          exact ⟨rest, (List.mem_tails _ _).2 ⟨gap, rfl⟩, (ih rest).2 hrest⟩
      · rw [if_neg hc, if_neg hc]
        cases hparts : parts p with
        | nil => exact absurd hparts (parts_ne_nil p)
        | cons q qs =>
            rw [hparts] at ih
            rw [fits_cons_cons]
            cases s with
            | nil =>
                rw [matchItems]
                refine ⟨fun h => absurd h (by decide), fun h => ?_⟩
                obtain ⟨s', hs', -⟩ := h
                cases hs'
            | cons d s =>
                rw [matchItems, Bool.and_eq_true, decide_eq_true_iff, ih]
                constructor
                · rintro ⟨rfl, h⟩
                  exact ⟨s, rfl, h⟩
                · rintro ⟨s', heq, h⟩
                  cases heq
                  exact ⟨rfl, h⟩

theorem items_escaped (esc c : Char) (p : List Char) :
    items esc (esc :: c :: p) = (items esc p).map (.char c :: ·) := by
  rw [items.eq_def]
  exact if_pos rfl

theorem items_cons (h : c ≠ esc) : items esc (c :: p) =
    if c = '%' then (items esc p).map (.many :: ·)
    else if c = '_' then (items esc p).map (.one :: ·)
    else (items esc p).map (.char c :: ·) := by
  rw [items.eq_def]
  exact if_neg h

/-- An escaped pattern can be read, and only its `%` is special. -/
theorem items_escape (hesc : esc ≠ '%') (p : List Char) :
    items esc (escape esc p) = some (p.map itemOf) := by
  induction p with
  | nil => rfl
  | cons c p ih =>
      rw [escape_cons, List.map_cons, itemOf]
      by_cases hspecial : c = esc ∨ c = '_'
      · have hc : c ≠ '%' := by
          rcases hspecial with rfl | rfl
          · exact hesc
          · decide
        rw [if_pos hspecial, if_neg hc, List.cons_append, List.cons_append, List.nil_append,
          items_escaped, ih, Option.map_some]
      · obtain ⟨hne, hone⟩ := not_or.1 hspecial
        rw [if_neg hspecial, List.cons_append, List.nil_append, items_cons hne]
        by_cases hc : c = '%'
        · rw [if_pos hc, if_pos hc, ih, Option.map_some]
        · rw [if_neg hc, if_neg hc, if_neg hone, ih, Option.map_some]

/-- A pattern with `%` for its only special character that is not escaped. -/
theorem like_escape (hesc : esc ≠ '%') (p s : List Char) :
    ∃ b, like esc (escape esc p) s = some b ∧ (b = true ↔ Fits (parts p) s) :=
  ⟨matchItems (p.map itemOf) s, by rw [like, items_escape hesc, Option.map_some],
    matchItems_map_itemOf p s⟩

end Like
