import Mathlib.Data.List.Basic
import Mathlib.Data.List.Infix

/-!
# Glob patterns

The patterns in which `*` stands for any text, `?` for any character and `[...]` for one of
some characters, and a backslash takes its meaning from the next character.  A matcher is
given by what it does with the beginning of a pattern.  What a class of characters has in
it is left open: it stands for one character, and it is written with at least two.

A pattern without special characters that ends with `*` matches the texts that begin with
it (`accepts_append_star`), and there is no other pattern that ends with `*` and does
(`forall_accepts_iff`).
-/

namespace Glob

/-- The characters that do not stand for themselves. -/
def special (c : Char) : Bool := c = '*' || c = '?' || c = '[' || c = '\\'

/-- A matcher, with the pattern and the text. -/
structure Matcher where
  accepts : List Char → List Char → Bool
  nil : ∀ s, accepts [] s ↔ s = []
  literal : ∀ c p s, special c = false → (accepts (c :: p) s ↔ ∃ s', s = c :: s' ∧ accepts p s')
  question : ∀ p s, accepts ('?' :: p) s ↔ ∃ d s', s = d :: s' ∧ accepts p s'
  star : ∀ p s, accepts ('*' :: p) s ↔ ∃ s₁ s₂, s = s₁ ++ s₂ ∧ accepts p s₂
  escape : ∀ c p s, accepts ('\\' :: c :: p) s ↔ ∃ s', s = c :: s' ∧ accepts p s'
  bracket : ∀ p, p ≠ [] → ∃ (members : Char → Bool) (rest : List Char),
    rest <:+ p ∧ rest.length < p.length ∧
      ∀ s, accepts ('[' :: p) s ↔ ∃ d s', s = d :: s' ∧ members d ∧ accepts rest s'

variable {m : Matcher} {p q s u w : List Char} {c x : Char}

theorem accepts_append (hu : ∀ c ∈ u, special c = false) :
    m.accepts (u ++ p) s ↔ ∃ s', s = u ++ s' ∧ m.accepts p s' := by
  induction u generalizing s with
  | nil => simp
  | cons c u ih =>
      obtain ⟨hc, hu⟩ := List.forall_mem_cons.1 hu
      rw [List.cons_append, m.literal _ _ _ hc]
      constructor
      · rintro ⟨s', rfl, h⟩
        obtain ⟨t, rfl, ht⟩ := (ih hu).1 h
        exact ⟨t, rfl, ht⟩
      · rintro ⟨t, rfl, ht⟩
        exact ⟨u ++ t, rfl, (ih hu).2 ⟨t, rfl, ht⟩⟩

theorem accepts_star (m : Matcher) (s : List Char) : m.accepts ['*'] s := by
  rw [m.star]
  exact ⟨s, [], (List.append_nil s).symm, (m.nil []).2 rfl⟩

/-- A pattern of ordinary characters and a star matches what begins with it. -/
theorem accepts_append_star (hp : ∀ c ∈ p, special c = false) :
    m.accepts (p ++ ['*']) s ↔ p <+: s := by
  rw [accepts_append hp]
  constructor
  · rintro ⟨t, rfl, -⟩
    exact List.prefix_append p t
  · rintro ⟨t, rfl⟩
    exact ⟨t, rfl, accepts_star m t⟩

/-- A pattern that is empty or ends with a star. -/
def StarEnd (p : List Char) : Prop := p = [] ∨ ∃ q, p = q ++ ['*']

theorem StarEnd.of_suffix (hp : StarEnd p) (hq : q <:+ p) : StarEnd q := by
  rcases hp with rfl | ⟨r, rfl⟩
  · exact Or.inl (List.suffix_nil.1 hq)
  · rcases List.eq_nil_or_concat q with rfl | ⟨q, c, rfl⟩
    · exact Or.inl rfl
    · rw [List.concat_eq_append] at hq ⊢
      obtain ⟨t, ht⟩ := hq
      rw [← List.append_assoc] at ht
      rw [(List.append_inj' ht rfl).2]
      exact Or.inr ⟨q, rfl⟩

theorem StarEnd.ne_nil (h : StarEnd (c :: p)) (hc : c ≠ '*') : p ≠ [] := by
  rintro rfl
  rcases h with h | ⟨q, hq⟩
  · cases h
  · rw [← List.nil_append [c]] at hq
    exact hc (List.singleton_inj.1 (List.append_inj' hq rfl).2)

/-- The beginning of a pattern, unless it is a star, stands for one character. -/
theorem exists_members (hp : StarEnd (c :: p)) (hc : c ≠ '*') :
    ∃ (members : Char → Bool) (rest : List Char), rest <:+ p ∧
      ∀ t, m.accepts (c :: p) t ↔ ∃ d t', t = d :: t' ∧ members d ∧ m.accepts rest t' := by
  by_cases hspecial : special c = false
  · refine ⟨(· = c), p, List.suffix_rfl, fun t => ?_⟩
    rw [m.literal _ _ _ hspecial]
    constructor
    · rintro ⟨t', rfl, h⟩
      exact ⟨c, t', rfl, decide_eq_true rfl, h⟩
    · rintro ⟨d, t', rfl, hd, h⟩
      rw [of_decide_eq_true hd]
      exact ⟨t', rfl, h⟩
  · have hkind : c = '?' ∨ c = '[' ∨ c = '\\' := by
      simp only [special, Bool.or_eq_false_iff, decide_eq_false_iff_not, not_and_or,
        not_not] at hspecial
      tauto
    rcases hkind with rfl | rfl | rfl
    · refine ⟨fun _ => true, p, List.suffix_rfl, fun t => ?_⟩
      rw [m.question]
      simp
    · obtain ⟨members, rest, hsuffix, -, hiff⟩ := m.bracket p (hp.ne_nil hc)
      exact ⟨members, rest, hsuffix, hiff⟩
    · obtain ⟨e, q, rfl⟩ := List.exists_cons_of_ne_nil (hp.ne_nil hc)
      refine ⟨(· = e), q, List.suffix_cons e q, fun t => ?_⟩
      rw [m.escape]
      constructor
      · rintro ⟨t', rfl, h⟩
        exact ⟨e, t', rfl, decide_eq_true rfl, h⟩
      · rintro ⟨d, t', rfl, hd, h⟩
        rw [of_decide_eq_true hd]
        exact ⟨t', rfl, h⟩

/-- A match can be shortened to as many characters as the pattern has, and still ends with
its last character. -/
theorem exists_short (hp : StarEnd p) (h : m.accepts p (s ++ [x])) :
    ∃ s', m.accepts p (s' ++ [x]) ∧ (s' ++ [x]).length ≤ p.length := by
  induction hn : p.length using Nat.strong_induction_on generalizing p s with
  | _ n ih =>
      cases p with
      | nil =>
          rw [m.nil] at h
          exact absurd h (by simp)
      | cons c p =>
          rw [List.length_cons] at hn
          by_cases hc : c = '*'
          · subst hc
            obtain ⟨s₁, s₂, heq, hrest⟩ := (m.star _ _).1 h
            rcases List.eq_nil_or_concat s₂ with rfl | ⟨t, y, rfl⟩
            · refine ⟨[], (m.star _ _).2 ⟨[x], [], rfl, hrest⟩, ?_⟩
              rw [List.nil_append, List.length_singleton]
              omega
            · rw [List.concat_eq_append] at heq hrest
              rw [← List.append_assoc] at heq
              cases (List.append_inj' heq rfl).2
              obtain ⟨t', ht', hlen⟩ :=
                ih p.length (by omega) (hp.of_suffix (List.suffix_cons _ _)) hrest rfl
              exact ⟨t', (m.star _ _).2 ⟨[], t' ++ [x], rfl, ht'⟩, by omega⟩
          · obtain ⟨members, rest, hsuffix, hiff⟩ := exists_members (m := m) hp hc
            obtain ⟨d, t, heq, hd, ht⟩ := (hiff _).1 h
            have hle := hsuffix.length_le
            rcases List.eq_nil_or_concat t with rfl | ⟨t, y, rfl⟩
            · rw [← List.nil_append [d]] at heq
              cases (List.append_inj' heq rfl).2
              refine ⟨[], (hiff _).2 ⟨x, [], rfl, hd, ht⟩, ?_⟩
              rw [List.nil_append, List.length_singleton]
              omega
            · rw [List.concat_eq_append] at heq ht
              rw [← List.cons_append] at heq
              cases (List.append_inj' heq rfl).2
              obtain ⟨t', ht', hlen⟩ := ih rest.length (by omega)
                (hp.of_suffix (hsuffix.trans (List.suffix_cons _ _))) ht rfl
              refine ⟨d :: t', (hiff _).2 ⟨d, t' ++ [x], rfl, hd, ht'⟩, ?_⟩
              rw [List.cons_append, List.length_cons]
              omega

theorem starEnd_append (w : List Char) : StarEnd (w ++ ['*']) := Or.inr ⟨w, rfl⟩

/-- A text that is not longer and has another last character does not begin with another. -/
theorem not_prefix_of_length_le (hw : w ≠ []) (hx : ∀ q, w ≠ q ++ [x])
    (hle : (s ++ [x]).length ≤ (p ++ w).length) : ¬ p ++ w <+: s ++ [x] := by
  intro hbegin
  have heq := hbegin.eq_of_length_le hle
  obtain ⟨q, y, rfl⟩ := (List.eq_nil_or_concat w).resolve_left hw
  rw [List.concat_eq_append, ← List.append_assoc] at heq
  cases (List.append_inj' heq rfl).2
  exact hx q (by rw [List.concat_eq_append])

/-- A pattern with a special character matches something else than the texts that begin
with it, if it matches those. -/
theorem exists_accepts_not_prefix (hu : ∀ c ∈ u, special c = false) (hc : special c = true)
    (hw : w ≠ []) (hx : ∀ q, w ≠ q ++ [x])
    (h : m.accepts (u ++ c :: (w ++ ['*'])) (u ++ c :: (w ++ [x]))) :
    ∃ s, m.accepts (u ++ c :: (w ++ ['*'])) (u ++ (s ++ [x])) ∧
      ¬ u ++ c :: w <+: u ++ (s ++ [x]) := by
  have hstrip {t : List Char} : m.accepts (u ++ c :: (w ++ ['*'])) (u ++ t) ↔
      m.accepts (c :: (w ++ ['*'])) t := by
    rw [accepts_append hu]
    constructor
    · rintro ⟨s', heq, hs⟩
      rwa [List.append_cancel_left heq]
    · intro ht
      exact ⟨t, rfl, ht⟩
  simp only [hstrip, List.prefix_append_right_inj] at h ⊢
  have hkind : c = '*' ∨ c = '?' ∨ c = '[' ∨ c = '\\' := by
    simpa [special, or_assoc] using hc
  rcases hkind with rfl | rfl | rfl | rfl
  · obtain ⟨s₁, s₂, heq, hrest⟩ := (m.star _ _).1 h
    refine ⟨'a' :: '*' :: w, (m.star _ _).2 ⟨'a' :: s₁, s₂, ?_, hrest⟩, ?_⟩
    · rw [List.cons_append, List.cons_append, List.cons_append, heq]
    · exact fun hbegin => absurd (List.cons_prefix_cons.1 hbegin).1 (by decide)
  · obtain ⟨d, s', heq, hrest⟩ := (m.question _ _).1 h
    cases heq
    refine ⟨'a' :: w, (m.question _ _).2 ⟨'a', w ++ [x], rfl, hrest⟩, ?_⟩
    exact fun hbegin => absurd (List.cons_prefix_cons.1 hbegin).1 (by decide)
  · obtain ⟨members, rest, hsuffix, hlt, hiff⟩ := m.bracket (w ++ ['*']) (by simp)
    obtain ⟨d, t, heq, hd, hrest⟩ := (hiff _).1 h
    cases heq
    obtain ⟨s', hs', hlen⟩ := exists_short ((starEnd_append w).of_suffix hsuffix) hrest
    refine ⟨'[' :: s', (hiff _).2 ⟨'[', s' ++ [x], rfl, hd, hs'⟩, ?_⟩
    refine not_prefix_of_length_le (p := ['[']) hw hx ?_
    simp only [List.length_append, List.length_cons, List.length_nil] at hlen hlt ⊢
    omega
  · obtain ⟨e, w', rfl⟩ := List.exists_cons_of_ne_nil hw
    obtain ⟨t, heq, hrest⟩ := (m.escape _ _ _).1 h
    cases heq
    rw [List.cons_append, ← List.cons_append] at hrest
    obtain ⟨s', hs', hlen⟩ := exists_short (starEnd_append w') hrest
    refine ⟨'\\' :: s', (m.escape _ _ _).2 ⟨s' ++ [x], rfl, hs'⟩, ?_⟩
    refine not_prefix_of_length_le (p := ['\\']) hw hx ?_
    simp only [List.length_append, List.length_cons, List.length_nil] at hlen ⊢
    omega

theorem exists_first_special : ∀ {l : List Char}, ¬ (∀ c ∈ l, special c = false) →
    ∃ u c w, l = u ++ c :: w ∧ (∀ c ∈ u, special c = false) ∧ special c = true
  | [], h => absurd nofun h
  | c :: l, h => by
      cases hc : special c with
      | true => exact ⟨[], c, l, rfl, nofun, hc⟩
      | false =>
          have hl : ¬ ∀ c ∈ l, special c = false := fun hl =>
            h (List.forall_mem_cons.2 ⟨hc, hl⟩)
          obtain ⟨u, d, w, rfl, hu, hd⟩ := exists_first_special hl
          exact ⟨c :: u, d, w, rfl, List.forall_mem_cons.2 ⟨hc, hu⟩, hd⟩

/-- Only a pattern of ordinary characters, followed by a star, matches exactly what begins
with it.  The texts may be restricted to a common beginning and a last character, which is
not that of the pattern. -/
theorem forall_accepts_iff (m : Matcher) {base : List Char} {y : Char}
    (hbase : ∀ c ∈ base, special c = false) (hy : special y = false) (hxy : x ≠ y) :
    (∀ t, m.accepts (base ++ (w ++ [y]) ++ ['*']) (base ++ (t ++ [x])) ↔
      base ++ (w ++ [y]) <+: base ++ (t ++ [x])) ↔ ∀ c ∈ w, special c = false := by
  constructor
  · intro h
    by_contra hspecial
    obtain ⟨u, c, v, rfl, hu, hc⟩ := exists_first_special hspecial
    have hfree : ∀ c ∈ base ++ u, special c = false := by
      intro d hd
      rcases List.mem_append.1 hd with hd | hd
      · exact hbase d hd
      · exact hu d hd
    have hself : m.accepts (base ++ u ++ c :: (v ++ [y] ++ ['*']))
        (base ++ u ++ c :: (v ++ [y] ++ [x])) := by
      have haccepts := (h (u ++ c :: v ++ [y])).2 ((List.prefix_append_right_inj _).2
        (List.prefix_append _ _))
      simpa using haccepts
    have hlast (q : List Char) : v ++ [y] ≠ q ++ [x] := by
      intro heq
      exact hxy (List.singleton_inj.1 (List.append_inj' heq rfl).2).symm
    obtain ⟨s, hs, hbegin⟩ := exists_accepts_not_prefix hfree hc (by simp) hlast hself
    exact hbegin (by simpa using (h (u ++ s)).1 (by simpa using hs))
  · intro hw t
    refine accepts_append_star fun c hc => ?_
    rw [List.mem_append, List.mem_append, List.mem_singleton] at hc
    rcases hc with hc | hc | rfl
    · exact hbase c hc
    · exact hw c hc
    · exact hy

/-! ## A matcher -/

/-- The members of a class up to its `]`, and what is written behind it. -/
def members : List Char → (Char → Bool) × List Char
  | [] => (fun _ => false, [])
  | ']' :: p => (fun _ => false, p)
  | '\\' :: c :: p => (fun d => d = c || (members p).1 d, (members p).2)
  | a :: '-' :: b :: p =>
      (fun d => (a ≤ d && d ≤ b) || (b ≤ d && d ≤ a) || (members p).1 d, (members p).2)
  | c :: p => (fun d => d = c || (members p).1 d, (members p).2)

theorem members_suffix (p : List Char) : (members p).2 <:+ p := by
  induction p using members.induct with
  | case1 => exact List.suffix_rfl
  | case2 p => exact List.suffix_cons _ _
  | case3 c p ih =>
      rw [members]
      exact ih.trans ((List.suffix_cons _ _).trans (List.suffix_cons _ _))
  | case4 a b p _ _ ih =>
      rw [members] <;> try assumption
      exact ih.trans ((List.suffix_cons _ _).trans
        ((List.suffix_cons _ _).trans (List.suffix_cons _ _)))
  | case5 c p _ _ _ ih =>
      rw [members] <;> try assumption
      exact ih.trans (List.suffix_cons _ _)

theorem members_lt {p : List Char} (hp : p ≠ []) : (members p).2.length < p.length := by
  induction p using members.induct with
  | case1 => exact absurd rfl hp
  | case2 p => exact Nat.lt_succ_self _
  | case3 c p _ =>
      rw [members]
      have hle := (members_suffix p).length_le
      simp only [List.length_cons]
      omega
  | case4 a b p _ _ _ =>
      rw [members] <;> try assumption
      have hle := (members_suffix p).length_le
      simp only [List.length_cons]
      omega
  | case5 c p _ _ _ _ =>
      rw [members] <;> try assumption
      have hle := (members_suffix p).length_le
      simp only [List.length_cons]
      omega

/-- A class may be negated. -/
def charClass : List Char → (Char → Bool) × List Char
  | '^' :: p => (fun d => !(members p).1 d, (members p).2)
  | p => members p

theorem charClass_suffix (p : List Char) : (charClass p).2 <:+ p := by
  unfold charClass
  split
  next => exact (members_suffix _).trans (List.suffix_cons _ _)
  next => exact members_suffix _

theorem charClass_lt {p : List Char} (hp : p ≠ []) : (charClass p).2.length < p.length := by
  unfold charClass
  split
  next p =>
    have hle := (members_suffix p).length_le
    simp only [List.length_cons]
    omega
  next => exact members_lt hp

/-- The text matches the pattern. -/
def glob : List Char → List Char → Bool
  | [], s => s.isEmpty
  | c :: p, s =>
      if c = '*' then s.tails.any (glob p)
      else
        match s with
        | [] => false
        | d :: s =>
            if c = '?' then glob p s
            else if c = '[' then (charClass p).1 d && glob (charClass p).2 s
            else if c = '\\' then
              match p with
              | [] => d = c && s.isEmpty
              | e :: p => d = e && glob p s
            else d = c && glob p s
termination_by p => p.length
decreasing_by
  all_goals simp only [List.length_cons]
  all_goals have hle := (charClass_suffix p).length_le
  all_goals omega

theorem glob_star (p s : List Char) : glob ('*' :: p) s = s.tails.any (glob p) := by
  rw [glob.eq_def]
  exact if_pos rfl

theorem glob_nil_right {c : Char} (hc : c ≠ '*') (p : List Char) : glob (c :: p) [] = false := by
  rw [glob.eq_def]
  exact if_neg hc

theorem glob_cons {c : Char} (hc : c ≠ '*') (p s : List Char) (d : Char) :
    glob (c :: p) (d :: s) =
      if c = '?' then glob p s
      else if c = '[' then (charClass p).1 d && glob (charClass p).2 s
      else if c = '\\' then
        match p with
        | [] => d = c && s.isEmpty
        | e :: p => d = e && glob p s
      else d = c && glob p s := by
  rw [glob.eq_def]
  exact if_neg hc

def matcher : Matcher where
  accepts := glob
  nil s := by rw [glob, List.isEmpty_iff]
  literal c p s hc := by
    simp only [special, Bool.or_eq_false_iff, decide_eq_false_iff_not] at hc
    obtain ⟨⟨⟨hstar, hquestion⟩, hbracket⟩, hescape⟩ := hc
    cases s with
    | nil => simp [glob_nil_right hstar]
    | cons d s =>
        rw [glob_cons hstar, if_neg hquestion, if_neg hbracket, if_neg hescape]
        simp
  question p s := by
    cases s with
    | nil => simp [glob_nil_right]
    | cons d s => simp [glob_cons]
  star p s := by
    simp only [glob_star, List.any_eq_true, List.mem_tails]
    constructor
    · rintro ⟨t, ⟨r, rfl⟩, h⟩
      exact ⟨r, t, rfl, h⟩
    · rintro ⟨r, t, rfl, h⟩
      exact ⟨t, ⟨r, rfl⟩, h⟩
  escape c p s := by
    cases s with
    | nil => simp [glob_nil_right]
    | cons d s => simp [glob_cons]
  bracket p hp := by
    refine ⟨(charClass p).1, (charClass p).2, charClass_suffix p, charClass_lt hp, fun s => ?_⟩
    cases s with
    | nil => simp [glob_nil_right]
    | cons d s => simp [glob_cons]

end Glob
