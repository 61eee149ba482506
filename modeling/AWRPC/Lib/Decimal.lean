import Mathlib.Algebra.Group.Nat.Defs
import Mathlib.Data.Nat.Log
import Mathlib.Data.List.TakeWhile
import Mathlib.Data.Nat.Notation

/-!
# Decimal texts

`text n` is the decimal text of a natural number without leading zeros,
`fixed k n` its `k` lowest digits with them. A text is cut into a text and a
block of fixed width at any place (`text_split`), and `readNat` gets the number
back.
-/

namespace Decimal

def digit (d : ℕ) : UInt8 := UInt8.ofNat (48 + d)

def isDigit (b : UInt8) : Bool := 48 ≤ b && b ≤ 57

/-- The `k` lowest digits of `n`, the highest first. -/
def fixed : ℕ → ℕ → List UInt8
  | 0, _ => []
  | k + 1, n => fixed k (n / 10) ++ [digit (n % 10)]

def text (n : ℕ) : List UInt8 := fixed (Nat.log 10 n + 1) n

/-- A minus sign in front of a negative number. -/
def intText (n : ℤ) : List UInt8 :=
  if n < 0 then 45 :: text n.natAbs else text n.natAbs

/-! ## §1  Digits -/

theorem toNat_digit {d : ℕ} (h : d < 10) : (digit d).toNat = 48 + d := by
  rw [digit, UInt8.toNat_ofNat']
  omega

theorem isDigit_digit {d : ℕ} (h : d < 10) : isDigit (digit d) = true := by
  have hd := toNat_digit h
  simp only [isDigit, Bool.and_eq_true, decide_eq_true_eq,
    UInt8.le_iff_toNat_le, hd]
  exact ⟨by simp, by simp; omega⟩

theorem digit_eq_iff {d : ℕ} (h : d < 10) : digit d = 48 ↔ d = 0 := by
  rw [← UInt8.toNat_inj, toNat_digit h]
  show 48 + d = 48 ↔ d = 0
  omega

/-! ## §2  Blocks of fixed width -/

@[simp] theorem length_fixed (k n : ℕ) : (fixed k n).length = k := by
  induction k generalizing n with
  | zero => rfl
  | succ k ih => rw [fixed, List.length_append, ih, List.length_singleton]

theorem isDigit_of_mem_fixed {k n : ℕ} {b : UInt8} (h : b ∈ fixed k n) :
    isDigit b = true := by
  induction k generalizing n with
  | zero => exact absurd h List.not_mem_nil
  | succ k ih =>
      rcases List.mem_append.mp h with h | h
      · exact ih h
      · rw [List.mem_singleton.mp h]
        exact isDigit_digit (Nat.mod_lt n (by decide))

/-- The width is cut in two at any place. -/
theorem fixed_add (j k n : ℕ) :
    fixed (j + k) n = fixed j (n / 10 ^ k) ++ fixed k n := by
  induction k generalizing n with
  | zero => simp [fixed]
  | succ k ih =>
      rw [← Nat.add_assoc, fixed, ih, fixed, List.append_assoc,
        Nat.div_div_eq_div_mul, Nat.pow_succ']

/-- Only the `k` lowest digits matter. -/
theorem fixed_mod (k n : ℕ) : fixed k (n % 10 ^ k) = fixed k n := by
  induction k generalizing n with
  | zero => rfl
  | succ k ih =>
      have hdiv : n % 10 ^ (k + 1) / 10 = n / 10 % 10 ^ k := by
        rw [Nat.pow_succ', Nat.mod_mul_right_div_self]
      have hmod : n % 10 ^ (k + 1) % 10 = n % 10 := by
        rw [Nat.pow_succ', Nat.mod_mul_right_mod]
      rw [fixed, fixed, hdiv, hmod, ih]

theorem fixed_split {k m : ℕ} (hm : 10 ^ k = m) (j n : ℕ) :
    fixed (j + k) n = fixed j (n / m) ++ fixed k (n % m) := by
  subst hm
  rw [fixed_add, fixed_mod]

/-- A block of four, read off two pairs. -/
theorem fixed_four (n : ℕ) : fixed 4 n =
    [digit (n % 10000 / 100 / 10), digit (n % 10000 / 100 % 10),
      digit (n % 10000 % 100 / 10), digit (n % 10000 % 100 % 10)] := by
  have h₁ : n / 10 / 10 / 10 % 10 = n % 10000 / 100 / 10 := by omega
  have h₂ : n / 10 / 10 % 10 = n % 10000 / 100 % 10 := by omega
  have h₃ : n / 10 % 10 = n % 10000 % 100 / 10 := by omega
  have h₄ : n % 10 = n % 10000 % 100 % 10 := by omega
  simp only [fixed, List.nil_append, List.cons_append, h₁, h₂, h₃]
  rw [← h₄]

/-! ## §3  Texts -/

theorem text_of_bounds {k n : ℕ} (hlo : 10 ^ k ≤ n) (hhi : n < 10 ^ (k + 1)) :
    text n = fixed (k + 1) n := by
  rw [text, Nat.log_eq_of_pow_le_of_lt_pow hlo hhi]

theorem text_of_lt_ten {n : ℕ} (h : n < 10) : text n = [digit n] := by
  rw [text, Nat.log_of_lt h, fixed, fixed, Nat.mod_eq_of_lt h, List.nil_append]

/-- **A text is cut at any place** that leaves something in front. -/
theorem text_split {k m n : ℕ} (hm : 10 ^ k = m) (h : m ≤ n) :
    text n = text (n / m) ++ fixed k (n % m) := by
  subst hm
  -- the part in front has `k` digits fewer
  have hlog : k ≤ Nat.log 10 n := Nat.le_log_of_pow_le (by decide) h
  have hsplit : Nat.log 10 n + 1 = (Nat.log 10 n - k + 1) + k := by omega
  rw [text, text, Nat.log_div_base_pow, hsplit, fixed_add, fixed_mod]

theorem text_ten_mul_add {n : ℕ} (h : 10 ≤ n) :
    text n = text (n / 10) ++ [digit (n % 10)] := by
  have hsplit := @text_split 1 10 n rfl h
  rwa [fixed, fixed, List.nil_append, Nat.mod_mod] at hsplit

/-- A text of up to four digits, read off two pairs. -/
theorem text_lead {n : ℕ} (h : n < 10000) :
    (if 1000 ≤ n then [digit (n / 100 / 10)] else []) ++
        (if 100 ≤ n then [digit (n / 100 % 10)] else []) ++
        (if 10 ≤ n then [digit (n % 100 / 10)] else []) ++
        [digit (n % 100 % 10)] = text n := by
  have h₁ : n / 100 / 10 = n / 10 / 10 / 10 % 10 := by omega
  have h₂ : n / 100 % 10 = n / 10 / 10 % 10 := by omega
  have h₃ : n % 100 / 10 = n / 10 % 10 := by omega
  have h₄ : n % 100 % 10 = n % 10 := by omega
  rw [h₁, h₂, h₃, h₄]
  rcases Nat.lt_or_ge n 10 with h10 | h10
  · rw [if_neg (by omega), if_neg (by omega), if_neg (by omega),
      text_of_lt_ten h10, Nat.mod_eq_of_lt h10]
    rfl
  rcases Nat.lt_or_ge n 100 with h100 | h100
  · rw [if_neg (by omega), if_neg (by omega), if_pos h10,
      @text_of_bounds 1 n h10 h100]
    rfl
  rcases Nat.lt_or_ge n 1000 with h1000 | h1000
  · rw [if_neg (by omega), if_pos h100, if_pos h10,
      @text_of_bounds 2 n h100 h1000]
    rfl
  · rw [if_pos h1000, if_pos h100, if_pos h10, @text_of_bounds 3 n h1000 h]
    rfl

theorem isDigit_of_mem_text {n : ℕ} {b : UInt8} (h : b ∈ text n) :
    isDigit b = true :=
  isDigit_of_mem_fixed h

theorem text_ne_nil (n : ℕ) : text n ≠ [] := by
  intro h
  have hlen : (text n).length = 0 := by rw [h]; rfl
  rw [text, length_fixed] at hlen
  exact absurd hlen (Nat.succ_ne_zero _)

/-- A number below `10 ^ k` has at most `k` digits. -/
theorem length_text_le {k n : ℕ} (h : n < 10 ^ (k + 1)) :
    (text n).length ≤ k + 1 := by
  rw [text, length_fixed]
  have hlog : Nat.log 10 n < k + 1 := Nat.log_lt_of_lt_pow' (by omega) h
  omega

theorem length_intText_le {k : ℕ} {n : ℤ} (h : n.natAbs < 10 ^ (k + 1)) :
    (intText n).length ≤ k + 2 := by
  have hlen := length_text_le h
  rw [intText]
  split
  · rw [List.length_cons]
    omega
  · omega

/-- No leading zero, except in the text of zero. -/
theorem head_text {n : ℕ} : (text n).head? = some 48 ↔ n = 0 := by
  induction n using Nat.strong_induction_on with
  | _ n ih =>
      rcases Nat.lt_or_ge n 10 with hlt | hge
      · rw [text_of_lt_ten hlt, List.head?_cons, Option.some_inj]
        exact digit_eq_iff hlt
      · have hpos : n / 10 ≠ 0 := by omega
        have hhead := ih (n / 10) (Nat.div_lt_self (by omega) (by decide))
        obtain ⟨d, ds, htext⟩ := List.exists_cons_of_ne_nil (text_ne_nil (n / 10))
        rw [htext, List.head?_cons] at hhead
        rw [text_ten_mul_add hge, htext, List.cons_append, List.head?_cons,
          hhead]
        constructor
        · intro h
          exact absurd h hpos
        · rintro rfl
          exact absurd hge (by decide)

/-! ## §4  Reading -/

def value (ds : List UInt8) : ℕ :=
  ds.foldl (fun n b => 10 * n + (b.toNat - 48)) 0

theorem value_append_digit (ds : List UInt8) {d : ℕ} (h : d < 10) :
    value (ds ++ [digit d]) = 10 * value ds + d := by
  rw [value, List.foldl_append]
  show 10 * value ds + ((digit d).toNat - 48) = _
  rw [toNat_digit h]
  omega

theorem value_text (n : ℕ) : value (text n) = n := by
  induction n using Nat.strong_induction_on with
  | _ n ih =>
      rcases Nat.lt_or_ge n 10 with hlt | hge
      · rw [text_of_lt_ten hlt]
        have h := value_append_digit [] hlt
        rw [List.nil_append] at h
        rw [h, value]
        simp
      · rw [text_ten_mul_add hge,
          value_append_digit _ (Nat.mod_lt n (by decide)),
          ih _ (Nat.div_lt_self (by omega) (by decide))]
        omega

/-- A number and what follows it: at least one digit, no leading zero. -/
def readNat (t : List UInt8) : Option (ℕ × List UInt8) :=
  match t.takeWhile isDigit with
  | [] => none
  | d :: ds =>
      if d = 48 ∧ ds ≠ [] then none
      else some (value (d :: ds), t.dropWhile isDigit)

def readInt : List UInt8 → Option (ℤ × List UInt8)
  | [] => none
  | b :: t =>
      if b = 45 then (readNat t).map fun r => (-(r.1 : ℤ), r.2)
      else (readNat (b :: t)).map fun r => ((r.1 : ℤ), r.2)

/-- The text ends, or goes on with something that is not a digit. -/
def Ends (rest : List UInt8) : Prop := ∀ b ∈ rest.head?, isDigit b = false

theorem takeWhile_text (n : ℕ) {rest : List UInt8} (h : Ends rest) :
    (text n ++ rest).takeWhile isDigit = text n ∧
      (text n ++ rest).dropWhile isDigit = rest := by
  have hall : ∀ b ∈ text n, isDigit b = true := fun b => isDigit_of_mem_text
  rw [List.takeWhile_append_of_pos hall, List.dropWhile_append_of_pos hall]
  cases rest with
  | nil => simp
  | cons b rest =>
      have hb : isDigit b = false := h b rfl
      simp [hb]

theorem readNat_text (n : ℕ) {rest : List UInt8} (h : Ends rest) :
    readNat (text n ++ rest) = some (n, rest) := by
  obtain ⟨htake, hdrop⟩ := takeWhile_text n h
  have hhead := @head_text n
  have hvalue := value_text n
  rw [readNat, htake, hdrop]
  cases htext : text n with
  | nil => exact absurd htext (text_ne_nil n)
  | cons d ds =>
      rw [htext] at hhead hvalue
      have hzero : ¬ (d = 48 ∧ ds ≠ []) := by
        rintro ⟨rfl, hds⟩
        have hn := hhead.mp rfl
        rw [hn, text_of_lt_ten (by decide)] at htext
        cases htext
        exact hds rfl
      show (if d = 48 ∧ ds ≠ [] then none else some (value (d :: ds), rest)) = _
      rw [if_neg hzero, hvalue]

/-- **Reading undoes writing.** -/
theorem readInt_intText (n : ℤ) {rest : List UInt8} (h : Ends rest) :
    readInt (intText n ++ rest) = some (n, rest) := by
  by_cases hneg : n < 0
  · rw [intText, if_pos hneg, List.cons_append, readInt, if_pos rfl,
      readNat_text _ h]
    show some (-(n.natAbs : ℤ), rest) = _
    congr 2
    omega
  · rw [intText, if_neg hneg]
    have hread := readNat_text n.natAbs h
    cases htext : text n.natAbs with
    | nil => exact absurd htext (text_ne_nil _)
    | cons d ds =>
        have hd : isDigit d = true :=
          isDigit_of_mem_text (htext ▸ List.mem_cons_self)
        have hsign : d ≠ 45 := by
          rintro rfl
          exact absurd hd (by decide)
        rw [htext, List.cons_append] at hread
        rw [List.cons_append, readInt, if_neg hsign, hread]
        show some ((n.natAbs : ℤ), rest) = _
        congr 2
        omega

end Decimal
