import DazeApi.Lib.Decimal
import Mathlib.Data.List.DropRight
import Mathlib.Tactic.SplitIfs

/-!
# JSON texts

A JSON value, the text that an encoder writes for it and the value that a decoder reads from
a text, with the escapes, the surrogate pairs and the white space of the format.  A number
is kept as its literal.  `parse_print` says that what is written is read back.
-/

namespace JsonText

inductive Json where
  | null
  | bool (b : Bool)
  | num (literal : String)
  | str (s : String)
  | arr (items : List Json)
  | obj (members : List (String × Json))
deriving Repr

/-! ## Strings -/

def hexVal (c : Char) : Option ℕ :=
  if c.isDigit then some (c.toNat - 48)
  else if 97 ≤ c.toNat ∧ c.toNat ≤ 102 then some (c.toNat - 87)
  else if 65 ≤ c.toNat ∧ c.toNat ≤ 70 then some (c.toNat - 55)
  else none

/-- Four hexadecimal digits. -/
def hex4 (a b c d : Char) : Option ℕ :=
  match hexVal a, hexVal b, hexVal c, hexVal d with
  | some w, some x, some y, some z => some (4096 * w + 256 * x + 16 * y + z)
  | _, _, _, _ => none

def unicodeEscape (n : ℕ) : List Char :=
  ['\\', 'u', Nat.digitChar (n / 4096), Nat.digitChar (n / 256 % 16),
    Nat.digitChar (n / 16 % 16), Nat.digitChar (n % 16)]

/-- The letter after the backslash of a short escape. -/
def shortEscape (c : Char) : Option Char :=
  if c = '"' then some '"'
  else if c = '\\' then some '\\'
  else if c.toNat = 8 then some 'b'
  else if c.toNat = 12 then some 'f'
  else if c = '\n' then some 'n'
  else if c = '\r' then some 'r'
  else if c = '\t' then some 't'
  else none

/-- Control characters, those with a meaning in HTML and the line separators. -/
def isEscaped (c : Char) : Bool :=
  c.toNat < 32 || c = '<' || c = '>' || c = '&' || c.toNat = 0x2028 || c.toNat = 0x2029

def escapeChar (c : Char) : List Char :=
  match shortEscape c with
  | some e => ['\\', e]
  | none => if isEscaped c then unicodeEscape c.toNat else [c]

/-- A string between quotes. -/
def quote (s : String) : List Char := '"' :: (s.toList.flatMap escapeChar ++ ['"'])

/-- The character of a short escape. -/
def unescape (e : Char) : Option Char :=
  if e = '"' then some '"'
  else if e = '\\' then some '\\'
  else if e = '/' then some '/'
  else if e = 'b' then some (Char.ofNat 8)
  else if e = 'f' then some (Char.ofNat 12)
  else if e = 'n' then some '\n'
  else if e = 'r' then some '\r'
  else if e = 't' then some '\t'
  else none

def isSurrogate (n : ℕ) : Bool := 0xD800 ≤ n && n < 0xE000

/-- The character of a surrogate pair. -/
def decodePair (hi lo : ℕ) : Option Char :=
  if hi < 0xDC00 ∧ 0xDC00 ≤ lo ∧ lo < 0xE000 then
    some (Char.ofNat (0x10000 + (hi - 0xD800) * 0x400 + (lo - 0xDC00)))
  else none

/-- A surrogate without its other half. -/
def replacement : Char := Char.ofNat 0xFFFD

def push (c : Char) (r : List Char × List Char) : List Char × List Char := (c :: r.1, r.2)

/-- The character of a surrogate pair whose other half follows. -/
def lowHalf (hi : ℕ) : List Char → Option Char
  | b :: u :: w :: x :: y :: z :: _ =>
      if b = '\\' ∧ u = 'u' then (hex4 w x y z).bind (decodePair hi) else none
  | _ => none

/-- The characters up to the closing quote, and what follows it. -/
def unquote : List Char → Option (List Char × List Char)
  | [] => none
  | c :: cs =>
      if c = '"' then some ([], cs)
      else if c ≠ '\\' then
        if c.toNat < 32 then none else (unquote cs).map (push c)
      else
        match cs with
        | [] => none
        | e :: cs =>
            if e ≠ 'u' then
              match unescape e with
              | none => none
              | some ch => (unquote cs).map (push ch)
            else
              match cs with
              | w :: x :: y :: z :: cs =>
                  match hex4 w x y z with
                  | none => none
                  | some hi =>
                      if !isSurrogate hi then (unquote cs).map (push (Char.ofNat hi))
                      else
                        match lowHalf hi cs with
                        | none => (unquote cs).map (push replacement)
                        | some ch =>
                            match cs with
                            | _ :: _ :: _ :: _ :: _ :: _ :: rest => (unquote rest).map (push ch)
                            | _ => none
              | _ => none

theorem hexVal_digitChar : ∀ n < 16, hexVal (Nat.digitChar n) = some n := by decide

theorem hex4_of_lt {n : ℕ} (h : n < 65536) :
    hex4 (Nat.digitChar (n / 4096)) (Nat.digitChar (n / 256 % 16)) (Nat.digitChar (n / 16 % 16))
      (Nat.digitChar (n % 16)) = some n := by
  rw [hex4, hexVal_digitChar _ (by omega), hexVal_digitChar _ (by omega),
    hexVal_digitChar _ (by omega), hexVal_digitChar _ (by omega)]
  simp only [Option.some.injEq]
  omega

theorem unescape_shortEscape {c e : Char} (h : shortEscape c = some e) :
    unescape e = some c ∧ e ≠ 'u' := by
  have hofNat : ∀ n, c.toNat = n → Char.ofNat n = c := by
    rintro _ rfl
    exact Char.ofNat_toNat c
  rw [shortEscape] at h
  split_ifs at h with h₁ h₂ h₃ h₄ h₅ h₆ h₇ <;> cases h
  · exact ⟨by rw [h₁]; rfl, by decide⟩
  · exact ⟨by rw [h₂]; rfl, by decide⟩
  · exact ⟨by rw [← hofNat 8 h₃]; rfl, by decide⟩
  · exact ⟨by rw [← hofNat 12 h₄]; rfl, by decide⟩
  · exact ⟨by rw [h₅]; rfl, by decide⟩
  · exact ⟨by rw [h₆]; rfl, by decide⟩
  · exact ⟨by rw [h₇]; rfl, by decide⟩

theorem unquote_plain {c : Char} (cs : List Char) (hquote : c ≠ '"') (hslash : c ≠ '\\')
    (hctl : ¬ c.toNat < 32) : unquote (c :: cs) = (unquote cs).map (push c) := by
  rw [unquote.eq_def]
  dsimp only
  rw [if_neg hquote, if_pos hslash, if_neg hctl]

theorem unquote_short {e ch : Char} (cs : List Char) (h : unescape e = some ch) (hu : e ≠ 'u') :
    unquote ('\\' :: e :: cs) = (unquote cs).map (push ch) := by
  rw [unquote.eq_def]
  dsimp only
  rw [if_neg (by decide), if_neg (by decide), if_pos hu, h]

theorem unquote_unicode {n : ℕ} (cs : List Char) (hlt : n < 65536) (hn : isSurrogate n = false) :
    unquote (unicodeEscape n ++ cs) = (unquote cs).map (push (Char.ofNat n)) := by
  rw [unicodeEscape]
  simp only [List.cons_append, List.nil_append]
  rw [unquote, if_neg (by decide), if_neg (by decide), if_neg (by decide), hex4_of_lt hlt]
  dsimp only
  rw [hn, if_pos (by decide)]

theorem isSurrogate_toNat (c : Char) : isSurrogate c.toNat = false := by
  have hvalid : c.toNat.isValidChar := c.valid
  simp only [isSurrogate, Bool.and_eq_false_iff, decide_eq_false_iff_not]
  rcases hvalid with h | h <;> omega

theorem toNat_lt_of_isEscaped {c : Char} (h : isEscaped c = true) : c.toNat < 65536 := by
  simp only [isEscaped, Bool.or_eq_true, decide_eq_true_eq] at h
  rcases h with ((((h | rfl) | rfl) | rfl) | h) | h
  · omega
  · decide
  · decide
  · decide
  · omega
  · omega

/-- An escaped character is read back. -/
theorem unquote_escapeChar (c : Char) (cs : List Char) :
    unquote (escapeChar c ++ cs) = (unquote cs).map (push c) := by
  rw [escapeChar]
  cases hshort : shortEscape c with
  | some e =>
      obtain ⟨hunescape, hu⟩ := unescape_shortEscape hshort
      exact unquote_short cs hunescape hu
  | none =>
      dsimp only
      split
      next hescaped =>
        rw [unquote_unicode cs (toNat_lt_of_isEscaped hescaped) (isSurrogate_toNat c),
          Char.ofNat_toNat]
      next hplain =>
        refine unquote_plain cs ?_ ?_ ?_
        · rintro rfl
          cases hshort
        · rintro rfl
          cases hshort
        · intro hctl
          exact hplain (by simp [isEscaped, hctl])

/-- A string is read back from between its quotes. -/
theorem unquote_quote (s rest : List Char) :
    unquote (s.flatMap escapeChar ++ '"' :: rest) = some (s, rest) := by
  induction s with
  | nil =>
      rw [List.flatMap_nil, List.nil_append, unquote.eq_def]
      dsimp only
      rw [if_pos rfl]
  | cons c s ih =>
      rw [List.flatMap_cons, List.append_assoc, unquote_escapeChar, ih]
      rfl

/-! ## Numbers -/

def isNumberChar (c : Char) : Bool := c.isDigit || c = '-' || c = '+' || c = '.' || c = 'e' || c = 'E'

/-- Digits to the end, one at least. -/
def isDigits (cs : List Char) : Bool := cs ≠ [] && cs.all Char.isDigit

/-- Nothing, or an exponent. -/
def isExponent : List Char → Bool
  | [] => true
  | e :: cs =>
      (e = 'e' || e = 'E') &&
        match cs with
        | '+' :: cs => isDigits cs
        | '-' :: cs => isDigits cs
        | cs => isDigits cs

/-- What follows the integer part of a number. -/
def isFraction : List Char → Bool
  | '.' :: cs => cs.takeWhile Char.isDigit ≠ [] && isExponent (cs.dropWhile Char.isDigit)
  | cs => isExponent cs

/-- A number without its sign. -/
def isUnsigned : List Char → Bool
  | [] => false
  | c :: cs =>
      if c = '0' then isFraction cs
      else c.isDigit && isFraction (cs.dropWhile Char.isDigit)

/-- The literal of a number. -/
def isNumber : List Char → Bool
  | '-' :: cs => isUnsigned cs
  | cs => isUnsigned cs

theorem isUnsigned_formatNat (n : ℕ) : isUnsigned (Decimal.formatNat n) = true := by
  have hall := Decimal.all_formatNat (n := n)
  rcases Decimal.formatNat_head (n := n) with h | ⟨d, ds, h, hd⟩
  · rw [h]
    rfl
  · rw [h, List.all_cons, Bool.and_eq_true] at hall
    have hdrop : ds.dropWhile Char.isDigit = [] :=
      List.dropWhile_eq_nil_iff.2 fun c hc => List.all_eq_true.1 hall.2 c hc
    rw [h, isUnsigned, if_neg hd, hall.1, hdrop]
    rfl

theorem isNumber_formatInt (n : ℤ) : isNumber (Decimal.formatInt n) = true := by
  cases n with
  | ofNat n =>
      rw [Decimal.formatInt, isNumber.eq_def]
      split
      next cs heq =>
        have hmem : '-' ∈ Decimal.formatNat n := heq ▸ List.mem_cons_self
        exact absurd (Decimal.isDigit_of_mem_formatNat hmem) (by decide)
      next => exact isUnsigned_formatNat n
  | negSucc n => exact isUnsigned_formatNat (n + 1)

theorem isNumberChar_of_mem_formatInt {n : ℤ} {c : Char} (h : c ∈ Decimal.formatInt n) :
    isNumberChar c = true := by
  have hdigit : ∀ {m : ℕ}, c ∈ Decimal.formatNat m → isNumberChar c = true := by
    intro m hc
    simp [isNumberChar, Decimal.isDigit_of_mem_formatNat hc]
  cases n with
  | ofNat n => exact hdigit h
  | negSucc n =>
      rcases List.mem_cons.1 h with rfl | h
      · decide
      · exact hdigit h

/-! ## Writing -/

mutual

def print : Json → List Char
  | .null => ['n', 'u', 'l', 'l']
  | .bool true => ['t', 'r', 'u', 'e']
  | .bool false => ['f', 'a', 'l', 's', 'e']
  | .num literal => literal.toList
  | .str s => quote s
  | .arr [] => ['[', ']']
  | .arr (item :: items) => '[' :: (print item ++ printItems items)
  | .obj [] => ['\x7b', '\x7d']
  | .obj (m :: ms) => '\x7b' :: (printMember m ++ printMembers ms)
termination_by structural j => j

/-- The items after the first. -/
def printItems : List Json → List Char
  | [] => [']']
  | item :: items => ',' :: (print item ++ printItems items)
termination_by structural items => items

/-- The members after the first. -/
def printMembers : List (String × Json) → List Char
  | [] => ['\x7d']
  | m :: ms => ',' :: (printMember m ++ printMembers ms)
termination_by structural ms => ms

def printMember : String × Json → List Char
  | (key, value) => quote key ++ ':' :: print value
termination_by structural m => m

end

/-! ## Reading -/

def isSpace (c : Char) : Bool := c = ' ' || c = '\t' || c = '\n' || c = '\r'

def skipSpace (cs : List Char) : List Char := cs.dropWhile isSpace

/-- The rest after a text. -/
def expect : List Char → List Char → Option (List Char)
  | [], cs => some cs
  | c :: ps, d :: cs => if c = d then expect ps cs else none
  | _ :: _, [] => none

def parseNumber (cs : List Char) : Option (Json × List Char) :=
  if isNumber (cs.takeWhile isNumberChar) then
    some (.num (String.ofList (cs.takeWhile isNumberChar)), cs.dropWhile isNumberChar)
  else none

mutual

/-- A value, and what follows it. -/
def parseValue : ℕ → List Char → Option (Json × List Char)
  | 0, _ => none
  | fuel + 1, cs =>
      match skipSpace cs with
      | [] => none
      | c :: cs =>
          if c = 'n' then (expect ['u', 'l', 'l'] cs).map fun rest => (.null, rest)
          else if c = 't' then (expect ['r', 'u', 'e'] cs).map fun rest => (.bool true, rest)
          else if c = 'f' then (expect ['a', 'l', 's', 'e'] cs).map fun rest => (.bool false, rest)
          else if c = '"' then (unquote cs).map fun r => (.str (String.ofList r.1), r.2)
          else if c = '[' then
            match skipSpace cs with
            | ']' :: rest => some (.arr [], rest)
            | cs =>
                (parseValue fuel cs).bind fun r =>
                  (parseItems fuel r.2).map fun rs => (.arr (r.1 :: rs.1), rs.2)
          else if c = '\x7b' then
            match skipSpace cs with
            | '\x7d' :: rest => some (.obj [], rest)
            | cs =>
                (parseMember fuel cs).bind fun r =>
                  (parseMembers fuel r.2).map fun rs => (.obj (r.1 :: rs.1), rs.2)
          else parseNumber (c :: cs)

/-- The items after the first. -/
def parseItems : ℕ → List Char → Option (List Json × List Char)
  | 0, _ => none
  | fuel + 1, cs =>
      match skipSpace cs with
      | ']' :: rest => some ([], rest)
      | ',' :: cs =>
          (parseValue fuel cs).bind fun r =>
            (parseItems fuel r.2).map fun rs => (r.1 :: rs.1, rs.2)
      | _ => none

/-- The members after the first. -/
def parseMembers : ℕ → List Char → Option (List (String × Json) × List Char)
  | 0, _ => none
  | fuel + 1, cs =>
      match skipSpace cs with
      | '\x7d' :: rest => some ([], rest)
      | ',' :: cs =>
          (parseMember fuel cs).bind fun r =>
            (parseMembers fuel r.2).map fun rs => (r.1 :: rs.1, rs.2)
      | _ => none

def parseMember : ℕ → List Char → Option ((String × Json) × List Char)
  | 0, _ => none
  | fuel + 1, cs =>
      match skipSpace cs with
      | '"' :: cs =>
          (unquote cs).bind fun k =>
            match skipSpace k.2 with
            | ':' :: cs => (parseValue fuel cs).map fun r => ((String.ofList k.1, r.1), r.2)
            | _ => none
      | _ => none

end

/-- The value of a whole text. -/
def parse (s : String) : Option Json :=
  (parseValue (s.toList.length + 1) s.toList).bind fun r =>
    if skipSpace r.2 = [] then some r.1 else none

/-! ## What is written is read back -/

mutual

/-- The literals of a value are numbers. -/
def Valid : Json → Prop
  | .num literal =>
      isNumber literal.toList = true ∧ ∀ c ∈ literal.toList, isNumberChar c = true
  | .arr items => ValidItems items
  | .obj members => ValidMembers members
  | _ => True
termination_by structural j => j

def ValidItems : List Json → Prop
  | [] => True
  | item :: items => Valid item ∧ ValidItems items
termination_by structural items => items

def ValidMembers : List (String × Json) → Prop
  | [] => True
  | m :: ms => ValidMember m ∧ ValidMembers ms
termination_by structural ms => ms

def ValidMember : String × Json → Prop
  | (_, value) => Valid value
termination_by structural m => m

end

theorem validItems_iff {items : List Json} : ValidItems items ↔ ∀ item ∈ items, Valid item := by
  induction items with
  | nil => simp [ValidItems]
  | cons item items ih => rw [ValidItems, ih, List.forall_mem_cons]

theorem validMembers_iff {ms : List (String × Json)} :
    ValidMembers ms ↔ ∀ m ∈ ms, Valid m.2 := by
  induction ms with
  | nil => simp [ValidMembers]
  | cons m ms ih => rw [ValidMembers, ih, List.forall_mem_cons, ValidMember]

theorem valid_num (n : ℤ) : Valid (.num (String.ofList (Decimal.formatInt n))) := by
  rw [Valid, String.toList_ofList]
  exact ⟨isNumber_formatInt n, fun _ hc => isNumberChar_of_mem_formatInt hc⟩

/-- A number ends before the text. -/
def Stops (rest : List Char) : Prop := ∀ c ∈ rest.head?, isNumberChar c = false

theorem takeWhile_stops {literal rest : List Char} (h : ∀ c ∈ literal, isNumberChar c = true)
    (hrest : Stops rest) :
    (literal ++ rest).takeWhile isNumberChar = literal ∧
      (literal ++ rest).dropWhile isNumberChar = rest := by
  rw [List.takeWhile_append_of_pos h, List.dropWhile_append_of_pos h]
  cases rest with
  | nil => exact ⟨List.append_nil _, rfl⟩
  | cons c cs =>
      have hc : isNumberChar c = false := hrest c rfl
      rw [List.takeWhile_cons_of_neg (by rw [hc]; decide), List.append_nil,
        List.dropWhile_cons_of_neg (by rw [hc]; decide)]
      exact ⟨rfl, rfl⟩

theorem parseNumber_append {literal rest : List Char} (hnumber : isNumber literal = true)
    (h : ∀ c ∈ literal, isNumberChar c = true) (hrest : Stops rest) :
    parseNumber (literal ++ rest) = some (.num (String.ofList literal), rest) := by
  obtain ⟨htake, hdrop⟩ := takeWhile_stops h hrest
  rw [parseNumber, htake, hdrop, if_pos hnumber]

theorem skipSpace_cons {c : Char} (h : isSpace c = false) (cs : List Char) :
    skipSpace (c :: cs) = c :: cs :=
  List.dropWhile_cons_of_neg (by rw [h]; decide)

theorem isSpace_of_isNumberChar {c : Char} (h : isNumberChar c = true) :
    isSpace c = false ∧ c ≠ 'n' ∧ c ≠ 't' ∧ c ≠ 'f' ∧ c ≠ '"' ∧ c ≠ '[' ∧ c ≠ '\x7b' ∧ c ≠ ']' := by
  have hspace : isSpace c = false := by
    rw [← Bool.not_eq_true]
    intro hspace
    simp only [isSpace, Bool.or_eq_true, decide_eq_true_eq] at hspace
    rcases hspace with ((rfl | rfl) | rfl) | rfl <;> revert h <;> decide
  refine ⟨hspace, ?_, ?_, ?_, ?_, ?_, ?_, ?_⟩ <;> rintro rfl <;> revert h <;> decide

/-- The text of a value begins with a character that is no space and closes nothing. -/
theorem print_head {j : Json} (h : Valid j) :
    ∃ c cs, print j = c :: cs ∧ isSpace c = false ∧ c ≠ ']' := by
  match j with
  | .null => exact ⟨_, _, by rw [print], by decide, by decide⟩
  | .bool true => exact ⟨_, _, by rw [print], by decide, by decide⟩
  | .bool false => exact ⟨_, _, by rw [print], by decide, by decide⟩
  | .num literal =>
      rw [Valid] at h
      cases hlit : literal.toList with
      | nil =>
          rw [hlit] at h
          exact absurd h.1 (by decide)
      | cons c cs =>
          have hc := isSpace_of_isNumberChar (h.2 c (by rw [hlit]; exact List.mem_cons_self))
          exact ⟨c, cs, by rw [print, hlit], hc.1, hc.2.2.2.2.2.2.2⟩
  | .str s => exact ⟨_, _, by rw [print, quote], by decide, by decide⟩
  | .arr [] => exact ⟨_, _, by rw [print], by decide, by decide⟩
  | .arr (item :: items) => exact ⟨_, _, by rw [print], by decide, by decide⟩
  | .obj [] => exact ⟨_, _, by rw [print], by decide, by decide⟩
  | .obj (m :: ms) => exact ⟨_, _, by rw [print], by decide, by decide⟩

theorem stops_printItems (items : List Json) (rest : List Char) :
    Stops (printItems items ++ rest) := by
  cases items <;> rw [printItems] <;> rintro c ⟨⟩ <;> decide

theorem stops_printMembers (ms : List (String × Json)) (rest : List Char) :
    Stops (printMembers ms ++ rest) := by
  cases ms <;> rw [printMembers] <;> rintro c ⟨⟩ <;> decide

theorem expect_append (ps rest : List Char) : expect ps (ps ++ rest) = some rest := by
  induction ps with
  | nil => rw [List.nil_append, expect.eq_def]
  | cons c ps ih => rw [List.cons_append, expect, if_pos rfl, ih]

theorem length_printItems_pos (items : List Json) : 0 < (printItems items).length := by
  cases items <;> rw [printItems] <;> exact Nat.succ_pos _

theorem length_printMembers_pos (ms : List (String × Json)) : 0 < (printMembers ms).length := by
  cases ms <;> rw [printMembers] <;> exact Nat.succ_pos _

section

variable {fuel : ℕ} {c : Char} {cs : List Char}

theorem parseValue_quote (s : String) (rest : List Char) :
    parseValue (fuel + 1) (quote s ++ rest) = some (.str s, rest) := by
  rw [quote, List.cons_append, parseValue, skipSpace_cons (by decide)]
  dsimp only
  rw [if_neg (by decide), if_neg (by decide), if_neg (by decide), if_pos rfl, List.append_assoc,
    List.singleton_append, unquote_quote, Option.map_some, String.ofList_toList]

theorem parseValue_number {literal rest : List Char} (hnumber : isNumber literal = true)
    (h : ∀ c ∈ literal, isNumberChar c = true) (hrest : Stops rest) :
    parseValue (fuel + 1) (literal ++ rest) = some (.num (String.ofList literal), rest) := by
  cases literal with
  | nil => exact absurd hnumber (by decide)
  | cons c cs =>
      obtain ⟨hspace, hn, ht, hf, hq, hb, hbrace, _⟩ :=
        isSpace_of_isNumberChar (h c List.mem_cons_self)
      rw [List.cons_append, parseValue, skipSpace_cons hspace]
      dsimp only
      rw [if_neg hn, if_neg ht, if_neg hf, if_neg hq, if_neg hb, if_neg hbrace, ← List.cons_append,
        parseNumber_append hnumber h hrest]

/-- An array that is not empty. -/
theorem parseValue_arr (hspace : isSpace c = false) (hc : c ≠ ']') :
    parseValue (fuel + 1) ('[' :: c :: cs) =
      (parseValue fuel (c :: cs)).bind fun r =>
        (parseItems fuel r.2).map fun rs => (.arr (r.1 :: rs.1), rs.2) := by
  rw [parseValue, skipSpace_cons (by decide)]
  dsimp only
  rw [if_neg (by decide), if_neg (by decide), if_neg (by decide), if_neg (by decide), if_pos rfl,
    skipSpace_cons hspace]
  split
  next heq => exact absurd (List.cons.inj heq).1 hc
  next => rfl

/-- An object that is not empty. -/
theorem parseValue_obj (hspace : isSpace c = false) (hc : c ≠ '\x7d') :
    parseValue (fuel + 1) ('\x7b' :: c :: cs) =
      (parseMember fuel (c :: cs)).bind fun r =>
        (parseMembers fuel r.2).map fun rs => (.obj (r.1 :: rs.1), rs.2) := by
  rw [parseValue, skipSpace_cons (by decide)]
  dsimp only
  rw [if_neg (by decide), if_neg (by decide), if_neg (by decide), if_neg (by decide),
    if_neg (by decide), if_pos rfl, skipSpace_cons hspace]
  split
  next heq => exact absurd (List.cons.inj heq).1 hc
  next => rfl

theorem parseItems_comma :
    parseItems (fuel + 1) (',' :: cs) =
      (parseValue fuel cs).bind fun r =>
        (parseItems fuel r.2).map fun rs => (r.1 :: rs.1, rs.2) := by
  rw [parseItems, skipSpace_cons (by decide)]
  rfl

theorem parseMembers_comma :
    parseMembers (fuel + 1) (',' :: cs) =
      (parseMember fuel cs).bind fun r =>
        (parseMembers fuel r.2).map fun rs => (r.1 :: rs.1, rs.2) := by
  rw [parseMembers, skipSpace_cons (by decide)]
  rfl

theorem parseMember_quote (key : String) :
    parseMember (fuel + 1) (quote key ++ ':' :: cs) =
      (parseValue fuel cs).map fun r => ((key, r.1), r.2) := by
  rw [quote, List.cons_append, parseMember, skipSpace_cons (by decide), List.append_assoc,
    List.singleton_append]
  simp only [unquote_quote, Option.bind_some, skipSpace_cons (by decide : isSpace ':' = false),
    String.ofList_toList]

end

mutual

theorem parseValue_print : ∀ {j : Json} {fuel : ℕ} {rest : List Char}, Valid j →
    (print j).length < fuel → Stops rest → parseValue fuel (print j ++ rest) = some (j, rest)
  | j, 0, _, _, hfuel, _ => absurd hfuel (Nat.not_lt_zero _)
  | .null, fuel + 1, rest, _, _, _ => by
      rw [print, List.cons_append, parseValue, skipSpace_cons (by decide)]
      dsimp only
      rw [if_pos rfl, expect_append]
      rfl
  | .bool true, fuel + 1, rest, _, _, _ => by
      rw [print, List.cons_append, parseValue, skipSpace_cons (by decide)]
      dsimp only
      rw [if_neg (by decide), if_pos rfl, expect_append]
      rfl
  | .bool false, fuel + 1, rest, _, _, _ => by
      rw [print, List.cons_append, parseValue, skipSpace_cons (by decide)]
      dsimp only
      rw [if_neg (by decide), if_neg (by decide), if_pos rfl, expect_append]
      rfl
  | .num literal, fuel + 1, rest, hvalid, _, hrest => by
      rw [Valid] at hvalid
      rw [print, parseValue_number hvalid.1 hvalid.2 hrest, String.ofList_toList]
  | .str s, fuel + 1, rest, _, _, _ => by rw [print, parseValue_quote]
  | .arr [], fuel + 1, rest, _, _, _ => by
      rw [print, List.cons_append, parseValue, skipSpace_cons (by decide)]
      rfl
  | .arr (item :: items), fuel + 1, rest, hvalid, hfuel, _ => by
      rw [Valid, ValidItems] at hvalid
      rw [print, List.length_cons, List.length_append] at hfuel
      have hpos := length_printItems_pos items
      obtain ⟨c, cs, heq, hspace, hc⟩ := print_head hvalid.1
      have hitem : parseValue fuel (print item ++ (printItems items ++ rest)) =
          some (item, printItems items ++ rest) :=
        parseValue_print hvalid.1 (by omega) (stops_printItems items rest)
      have hitems : parseItems fuel (printItems items ++ rest) = some (items, rest) :=
        parseItems_print hvalid.2 (by omega)
      rw [heq, List.cons_append] at hitem
      rw [print, heq, List.cons_append, List.append_assoc, List.cons_append,
        parseValue_arr hspace hc, hitem, Option.bind_some, hitems]
      rfl
  | .obj [], fuel + 1, rest, _, _, _ => by
      rw [print, List.cons_append, parseValue, skipSpace_cons (by decide)]
      rfl
  | .obj (m :: ms), fuel + 1, rest, hvalid, hfuel, _ => by
      rw [Valid, ValidMembers] at hvalid
      rw [print, List.length_cons, List.length_append] at hfuel
      have hpos := length_printMembers_pos ms
      have hm : parseMember fuel (printMember m ++ (printMembers ms ++ rest)) =
          some (m, printMembers ms ++ rest) :=
        parseMember_print hvalid.1 (by omega) (stops_printMembers ms rest)
      have hms : parseMembers fuel (printMembers ms ++ rest) = some (ms, rest) :=
        parseMembers_print hvalid.2 (by omega)
      obtain ⟨key, value⟩ := m
      rw [printMember, quote, List.cons_append, List.cons_append] at hm
      rw [print, printMember, quote, List.cons_append, List.cons_append, List.append_assoc,
        List.cons_append, parseValue_obj (by decide) (by decide), hm,
        Option.bind_some, hms]
      rfl

theorem parseItems_print : ∀ {items : List Json} {fuel : ℕ} {rest : List Char},
    ValidItems items → (printItems items).length < fuel →
      parseItems fuel (printItems items ++ rest) = some (items, rest)
  | items, 0, _, _, hfuel => absurd hfuel (Nat.not_lt_zero _)
  | [], fuel + 1, rest, _, _ => by
      rw [printItems, List.cons_append, parseItems, skipSpace_cons (by decide)]
      rfl
  | item :: items, fuel + 1, rest, hvalid, hfuel => by
      rw [ValidItems] at hvalid
      rw [printItems, List.length_cons, List.length_append] at hfuel
      have hpos := length_printItems_pos items
      have hitem : parseValue fuel (print item ++ (printItems items ++ rest)) =
          some (item, printItems items ++ rest) :=
        parseValue_print hvalid.1 (by omega) (stops_printItems items rest)
      have hitems : parseItems fuel (printItems items ++ rest) = some (items, rest) :=
        parseItems_print hvalid.2 (by omega)
      rw [printItems, List.cons_append, List.append_assoc, parseItems_comma, hitem,
        Option.bind_some, hitems]
      rfl

theorem parseMembers_print : ∀ {ms : List (String × Json)} {fuel : ℕ} {rest : List Char},
    ValidMembers ms → (printMembers ms).length < fuel →
      parseMembers fuel (printMembers ms ++ rest) = some (ms, rest)
  | ms, 0, _, _, hfuel => absurd hfuel (Nat.not_lt_zero _)
  | [], fuel + 1, rest, _, _ => by
      rw [printMembers, List.cons_append, parseMembers, skipSpace_cons (by decide)]
      rfl
  | m :: ms, fuel + 1, rest, hvalid, hfuel => by
      rw [ValidMembers] at hvalid
      rw [printMembers, List.length_cons, List.length_append] at hfuel
      have hpos := length_printMembers_pos ms
      have hm : parseMember fuel (printMember m ++ (printMembers ms ++ rest)) =
          some (m, printMembers ms ++ rest) :=
        parseMember_print hvalid.1 (by omega) (stops_printMembers ms rest)
      have hms : parseMembers fuel (printMembers ms ++ rest) = some (ms, rest) :=
        parseMembers_print hvalid.2 (by omega)
      rw [printMembers, List.cons_append, List.append_assoc, parseMembers_comma, hm,
        Option.bind_some, hms]
      rfl

theorem parseMember_print : ∀ {m : String × Json} {fuel : ℕ} {rest : List Char},
    ValidMember m → (printMember m).length < fuel → Stops rest →
      parseMember fuel (printMember m ++ rest) = some (m, rest)
  | m, 0, _, _, hfuel, _ => absurd hfuel (Nat.not_lt_zero _)
  | (key, value), fuel + 1, rest, hvalid, hfuel, hrest => by
      rw [ValidMember] at hvalid
      rw [printMember, List.length_append, List.length_cons] at hfuel
      have hvalue := parseValue_print hvalid (by omega : (print value).length < fuel) hrest
      rw [printMember, List.append_assoc, List.cons_append, parseMember_quote, hvalue]
      rfl

end

/-- What an encoder writes for a value is read back as the value. -/
theorem parse_print {j : Json} (h : Valid j) : parse (String.ofList (print j)) = some j := by
  have hvalue : parseValue ((print j).length + 1) (print j ++ []) = some (j, []) :=
    parseValue_print h (Nat.lt_succ_self _) (fun c hc => by cases hc)
  rw [List.append_nil] at hvalue
  rw [parse, String.toList_ofList, hvalue]
  rfl

/-- Different values have different texts. -/
theorem print_inj {j j' : Json} (h : Valid j) (h' : Valid j') (heq : print j = print j') :
    j = j' := by
  have hparse := parse_print h
  rw [heq, parse_print h'] at hparse
  exact (Option.some.inj hparse).symm

end JsonText
