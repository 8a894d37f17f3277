import Mathlib.Data.Nat.Notation
import Mathlib.Data.Int.Notation

/-!
# Decimal texts

Integers written in base ten and read back, over lists of characters.  Reading takes a sign
and leading zeros that writing does not put.
-/

namespace Decimal

/-! ## Writing and reading -/

def formatNat (n : ℕ) : List Char := Nat.toDigits 10 n

def formatInt : ℤ → List Char
  | .ofNat n => formatNat n
  | .negSucc n => '-' :: formatNat (n + 1)

/-- One digit at least, and digits only. -/
def parseNat (cs : List Char) : Option ℕ :=
  if cs ≠ [] ∧ cs.all Char.isDigit = true then some (Nat.ofDigitChars 10 cs 0) else none

def parseInt : List Char → Option ℤ
  | '-' :: cs => (parseNat cs).map fun n => -(n : ℤ)
  | '+' :: cs => (parseNat cs).map Int.ofNat
  | cs => (parseNat cs).map Int.ofNat

/-! ## The digits -/

variable {n : ℕ}

theorem formatNat_ne_nil : formatNat n ≠ [] := Nat.toDigits_ne_nil

theorem isDigit_of_mem_formatNat {c : Char} (h : c ∈ formatNat n) : c.isDigit = true :=
  Nat.isDigit_of_mem_toDigits (by decide) (by decide) h

theorem all_formatNat : (formatNat n).all Char.isDigit = true :=
  List.all_eq_true.2 fun _ h => isDigit_of_mem_formatNat h

/-- A number is zero or begins with another digit. -/
theorem formatNat_head : formatNat n = ['0'] ∨ ∃ d ds, formatNat n = d :: ds ∧ d ≠ '0' := by
  induction n using Nat.strongRecOn with
  | ind n ih =>
      rcases Nat.lt_or_ge n 10 with hlt | hge
      · rw [formatNat, Nat.toDigits_of_lt_base hlt]
        have hdigit : ∀ m < 10, m = 0 ∨ Nat.digitChar m ≠ '0' := by decide
        rcases hdigit n hlt with rfl | hne
        · exact Or.inl rfl
        · exact Or.inr ⟨_, _, rfl, hne⟩
      · rw [formatNat, Nat.toDigits_of_base_le (by decide) hge]
        rcases ih (n / 10) (by omega) with hzero | ⟨d, ds, heq, hne⟩
        · have hback := congrArg (fun cs => Nat.ofDigitChars 10 cs 0) hzero
          rw [formatNat] at hback
          simp only [Nat.ofDigitChars_ten_toDigits] at hback
          have hquotient : n / 10 = 0 := hback
          omega
        · rw [formatNat] at heq
          exact Or.inr ⟨d, _, by rw [heq, List.cons_append], hne⟩

/-! ## What is written is read back -/

theorem parseNat_formatNat : parseNat (formatNat n) = some n := by
  rw [parseNat, if_pos ⟨formatNat_ne_nil, all_formatNat⟩, formatNat,
    Nat.ofDigitChars_ten_toDigits]

/-- Digits have no sign. -/
theorem parseInt_of_isDigit {cs : List Char} (h : cs.all Char.isDigit = true) :
    parseInt cs = (parseNat cs).map Int.ofNat := by
  rw [parseInt.eq_def]
  split
  next => simp at h
  next => simp at h
  next => rfl

theorem parseInt_formatInt (n : ℤ) : parseInt (formatInt n) = some n := by
  cases n with
  | ofNat n =>
      rw [formatInt, parseInt_of_isDigit all_formatNat, parseNat_formatNat]
      rfl
  | negSucc n =>
      rw [formatInt, parseInt, parseNat_formatNat]
      rfl

theorem formatInt_injective {m n : ℤ} (h : formatInt m = formatInt n) : m = n := by
  have hparse := congrArg parseInt h
  rw [parseInt_formatInt, parseInt_formatInt] at hparse
  exact Option.some.inj hparse

/-- `toString` writes an integer in base ten. -/
theorem toList_toString (n : ℤ) : (toString n).toList = formatInt n := by
  cases n with
  | ofNat n => exact String.toList_ofList
  | negSucc n =>
      show ("-" ++ Nat.repr (n + 1)).toList = _
      rw [String.toList_append]
      exact congrArg ('-' :: ·) String.toList_ofList

/-- An integer that is not negative has no sign. -/
theorem parseNat_formatInt {n : ℤ} (h : 0 ≤ n) : parseNat (formatInt n) = some n.toNat := by
  cases n with
  | ofNat n => exact parseNat_formatNat
  | negSucc n => exact absurd h (Int.negSucc_not_nonneg n).1

theorem not_dot_of_parseNat {cs : List Char} {n : ℕ} (h : parseNat cs = some n) :
    '.' ∉ cs := by
  rw [parseNat] at h
  split at h
  next hdigits => exact fun hdot => absurd (List.all_eq_true.1 hdigits.2 '.' hdot) (by decide)
  next => cases h

theorem not_dot_of_parseInt {cs : List Char} {i : ℤ} (h : parseInt cs = some i) :
    '.' ∉ cs := by
  have hsign {sign : Char} {ds : List Char} {n : ℕ} (hsign : '.' ≠ sign)
      (hn : parseNat ds = some n) : '.' ∉ sign :: ds := by
    rw [List.mem_cons, not_or]
    exact ⟨hsign, not_dot_of_parseNat hn⟩
  rw [parseInt.eq_def] at h
  split at h
  next ds =>
    cases hn : parseNat ds with
    | none => rw [hn] at h; cases h
    | some n => exact hsign (by decide) hn
  next ds =>
    cases hn : parseNat ds with
    | none => rw [hn] at h; cases h
    | some n => exact hsign (by decide) hn
  next =>
    cases hn : parseNat cs with
    | none => rw [hn] at h; cases h
    | some n => exact not_dot_of_parseNat hn

end Decimal
