import AWRPC.Lib.CharArray
import AWRPC.Lib.Decimal

/-!
# Whole numbers as text

`rapidjson/internal/itoa.h`, which writes numbers two digits at a time from a
table of pairs, and `NumberToString` of `serialization.cpp`, which collects the
digits from the back. Both write the decimal text. What a function writes to its
buffer is returned as a list.
-/

namespace AWRPC

open Bytes Decimal

/-! ## §1  `itoa.h` -/

def cDigitsLut : List UInt8 :=
  lit <| "0001020304050607080910111213141516171819" ++
    "2021222324252627282930313233343536373839" ++
    "4041424344454647484950515253545556575859" ++
    "6061626364656667686970717273747576777879" ++
    "8081828384858687888990919293949596979899"

/-- `cDigitsLut[i]` -/
def lut (i : UInt32) : UInt8 := cDigitsLut.getD i.toNat 0

def u32toa (value : UInt32) : List UInt8 :=
  if value < 10000 then
    let d1 := (value / 100) <<< 1
    let d2 := (value % 100) <<< 1
    (if value ≥ 1000 then [lut d1] else []) ++
      (if value ≥ 100 then [lut (d1 + 1)] else []) ++
      (if value ≥ 10 then [lut d2] else []) ++
      [lut (d2 + 1)]
  else if value < 100000000 then
    -- value = bbbbcccc
    let b := value / 10000
    let c := value % 10000
    let d1 := (b / 100) <<< 1
    let d2 := (b % 100) <<< 1
    let d3 := (c / 100) <<< 1
    let d4 := (c % 100) <<< 1
    (if value ≥ 10000000 then [lut d1] else []) ++
      (if value ≥ 1000000 then [lut (d1 + 1)] else []) ++
      (if value ≥ 100000 then [lut d2] else []) ++
      [lut (d2 + 1)] ++
      [lut d3, lut (d3 + 1), lut d4, lut (d4 + 1)]
  else
    -- value = aabbbbcccc
    let a := value / 100000000
    let value := value % 100000000
    let b := value / 10000
    let c := value % 10000
    let d1 := (b / 100) <<< 1
    let d2 := (b % 100) <<< 1
    let d3 := (c / 100) <<< 1
    let d4 := (c % 100) <<< 1
    (if a ≥ 10 then
        let i := a <<< 1
        [lut i, lut (i + 1)]
      else [48 + a.toUInt8]) ++
      [lut d1, lut (d1 + 1), lut d2, lut (d2 + 1)] ++
      [lut d3, lut (d3 + 1), lut d4, lut (d4 + 1)]

def i32toa (value : Int32) : List UInt8 :=
  let u := value.toUInt32
  if value < 0 then 45 :: u32toa (~~~u + 1) else u32toa u

def kTen8 : UInt64 := 100000000
def kTen9 : UInt64 := kTen8 * 10
def kTen10 : UInt64 := kTen8 * 100
def kTen11 : UInt64 := kTen8 * 1000
def kTen12 : UInt64 := kTen8 * 10000
def kTen13 : UInt64 := kTen8 * 100000
def kTen14 : UInt64 := kTen8 * 1000000
def kTen15 : UInt64 := kTen8 * 10000000
def kTen16 : UInt64 := kTen8 * kTen8

def u64toa (value : UInt64) : List UInt8 :=
  if value < kTen8 then
    let v := value.toUInt32
    if v < 10000 then
      let d1 := (v / 100) <<< 1
      let d2 := (v % 100) <<< 1
      (if v ≥ 1000 then [lut d1] else []) ++
        (if v ≥ 100 then [lut (d1 + 1)] else []) ++
        (if v ≥ 10 then [lut d2] else []) ++
        [lut (d2 + 1)]
    else
      -- value = bbbbcccc
      let b := v / 10000
      let c := v % 10000
      let d1 := (b / 100) <<< 1
      let d2 := (b % 100) <<< 1
      let d3 := (c / 100) <<< 1
      let d4 := (c % 100) <<< 1
      (if value ≥ 10000000 then [lut d1] else []) ++
        (if value ≥ 1000000 then [lut (d1 + 1)] else []) ++
        (if value ≥ 100000 then [lut d2] else []) ++
        [lut (d2 + 1)] ++
        [lut d3, lut (d3 + 1), lut d4, lut (d4 + 1)]
  else if value < kTen16 then
    let v0 := (value / kTen8).toUInt32
    let v1 := (value % kTen8).toUInt32
    let b0 := v0 / 10000
    let c0 := v0 % 10000
    let d1 := (b0 / 100) <<< 1
    let d2 := (b0 % 100) <<< 1
    let d3 := (c0 / 100) <<< 1
    let d4 := (c0 % 100) <<< 1
    let b1 := v1 / 10000
    let c1 := v1 % 10000
    let d5 := (b1 / 100) <<< 1
    let d6 := (b1 % 100) <<< 1
    let d7 := (c1 / 100) <<< 1
    let d8 := (c1 % 100) <<< 1
    (if value ≥ kTen15 then [lut d1] else []) ++
      (if value ≥ kTen14 then [lut (d1 + 1)] else []) ++
      (if value ≥ kTen13 then [lut d2] else []) ++
      (if value ≥ kTen12 then [lut (d2 + 1)] else []) ++
      (if value ≥ kTen11 then [lut d3] else []) ++
      (if value ≥ kTen10 then [lut (d3 + 1)] else []) ++
      (if value ≥ kTen9 then [lut d4] else []) ++
      [lut (d4 + 1)] ++
      [lut d5, lut (d5 + 1), lut d6, lut (d6 + 1)] ++
      [lut d7, lut (d7 + 1), lut d8, lut (d8 + 1)]
  else
    let a := (value / kTen16).toUInt32 -- 1 to 1844
    let value := value % kTen16
    let v0 := (value / kTen8).toUInt32
    let v1 := (value % kTen8).toUInt32
    let b0 := v0 / 10000
    let c0 := v0 % 10000
    let d1 := (b0 / 100) <<< 1
    let d2 := (b0 % 100) <<< 1
    let d3 := (c0 / 100) <<< 1
    let d4 := (c0 % 100) <<< 1
    let b1 := v1 / 10000
    let c1 := v1 % 10000
    let d5 := (b1 / 100) <<< 1
    let d6 := (b1 % 100) <<< 1
    let d7 := (c1 / 100) <<< 1
    let d8 := (c1 % 100) <<< 1
    (if a < 10 then [48 + a.toUInt8]
      else if a < 100 then
        let i := a <<< 1
        [lut i, lut (i + 1)]
      else if a < 1000 then
        let i := (a % 100) <<< 1
        [48 + (a / 100).toUInt8, lut i, lut (i + 1)]
      else
        let i := (a / 100) <<< 1
        let j := (a % 100) <<< 1
        [lut i, lut (i + 1), lut j, lut (j + 1)]) ++
      [lut d1, lut (d1 + 1), lut d2, lut (d2 + 1)] ++
      [lut d3, lut (d3 + 1), lut d4, lut (d4 + 1)] ++
      [lut d5, lut (d5 + 1), lut d6, lut (d6 + 1)] ++
      [lut d7, lut (d7 + 1), lut d8, lut (d8 + 1)]

def i64toa (value : Int64) : List UInt8 :=
  let u := value.toUInt64
  if value < 0 then 45 :: u64toa (~~~u + 1) else u64toa u

/-! ## §2  Pairs, blocks of four and leading blocks -/

theorem cDigitsLut_pair : ∀ k < 100,
    cDigitsLut.getD (2 * k) 0 = digit (k / 10) ∧
      cDigitsLut.getD (2 * k + 1) 0 = digit (k % 10) := by
  decide +kernel

theorem toNat_double {v : UInt32} (h : v.toNat < 100) :
    (v <<< 1).toNat = 2 * v.toNat := by
  rw [UInt32.toNat_shiftLeft]
  simp [Nat.shiftLeft_eq]
  omega

theorem lut_tens {v : UInt32} (h : v.toNat < 100) :
    lut (v <<< 1) = digit (v.toNat / 10) := by
  rw [lut, toNat_double h]
  exact (cDigitsLut_pair _ h).1

theorem lut_units {v : UInt32} (h : v.toNat < 100) :
    lut (v <<< 1 + 1) = digit (v.toNat % 10) := by
  have hsucc : (v <<< 1 + 1).toNat = 2 * v.toNat + 1 := by
    rw [UInt32.toNat_add, toNat_double h]
    simp
    omega
  rw [lut, hsucc]
  exact (cDigitsLut_pair _ h).2

theorem lut_pair {v : UInt32} (h : v.toNat < 100) :
    [lut (v <<< 1), lut (v <<< 1 + 1)] = fixed 2 v.toNat := by
  have htens : v.toNat / 10 % 10 = v.toNat / 10 := by omega
  rw [lut_tens h, lut_units h, fixed, fixed, fixed, htens]
  rfl

theorem lut_four {b : UInt32} (hb : b.toNat < 10000) :
    [lut ((b / 100) <<< 1), lut ((b / 100) <<< 1 + 1), lut ((b % 100) <<< 1),
      lut ((b % 100) <<< 1 + 1)] = fixed 4 b.toNat := by
  have hhigh : (b / 100).toNat = b.toNat / 100 := UInt32.toNat_div b 100
  have hlow : (b % 100).toNat = b.toNat % 100 := UInt32.toNat_mod b 100
  have hhigh' : (b / 100).toNat < 100 := by omega
  have hlow' : (b % 100).toNat < 100 := by omega
  rw [lut_tens hhigh', lut_units hhigh', lut_tens hlow', lut_units hlow',
    hhigh, hlow, fixed_four, Nat.mod_eq_of_lt hb]

/-- The first block of a number drops its leading zeros. -/
theorem lut_lead {b : UInt32} (hb : b.toNat < 10000) :
    (if 1000 ≤ b.toNat then [lut ((b / 100) <<< 1)] else []) ++
        (if 100 ≤ b.toNat then [lut ((b / 100) <<< 1 + 1)] else []) ++
        (if 10 ≤ b.toNat then [lut ((b % 100) <<< 1)] else []) ++
        [lut ((b % 100) <<< 1 + 1)] = text b.toNat := by
  have hfour := lut_four hb
  rw [fixed_four, Nat.mod_eq_of_lt hb] at hfour
  obtain ⟨h₁, h₂, h₃, h₄⟩ :
      lut ((b / 100) <<< 1) = digit (b.toNat / 100 / 10) ∧
      lut ((b / 100) <<< 1 + 1) = digit (b.toNat / 100 % 10) ∧
      lut ((b % 100) <<< 1) = digit (b.toNat % 100 / 10) ∧
      lut ((b % 100) <<< 1 + 1) = digit (b.toNat % 100 % 10) := by
    simpa using hfour
  rw [h₁, h₂, h₃, h₄]
  exact text_lead hb

/-- A leading block of eight. -/
theorem lut_lead_eight {v : UInt32} (hv : v.toNat < 100000000) :
    (if 10000000 ≤ v.toNat then [lut ((v / 10000 / 100) <<< 1)] else []) ++
        (if 1000000 ≤ v.toNat then [lut ((v / 10000 / 100) <<< 1 + 1)]
          else []) ++
        (if 100000 ≤ v.toNat then [lut ((v / 10000 % 100) <<< 1)] else []) ++
        (if 10000 ≤ v.toNat then [lut ((v / 10000 % 100) <<< 1 + 1)]
          else []) ++
        (if 1000 ≤ v.toNat then [lut ((v % 10000 / 100) <<< 1)] else []) ++
        (if 100 ≤ v.toNat then [lut ((v % 10000 / 100) <<< 1 + 1)] else []) ++
        (if 10 ≤ v.toNat then [lut ((v % 10000 % 100) <<< 1)] else []) ++
        [lut ((v % 10000 % 100) <<< 1 + 1)] = text v.toNat := by
  have hb : (v / 10000).toNat = v.toNat / 10000 := UInt32.toNat_div v 10000
  have hc : (v % 10000).toNat = v.toNat % 10000 := UInt32.toNat_mod v 10000
  have hc' : (v % 10000).toNat < 10000 := by omega
  rcases Nat.lt_or_ge v.toNat 10000 with hsmall | hlarge
  · -- the upper four digits are all dropped
    have hlead := lut_lead hc'
    rw [hc, Nat.mod_eq_of_lt hsmall] at hlead
    rw [if_neg (by omega), if_neg (by omega), if_neg (by omega),
      if_neg (by omega)]
    exact hlead
  · have hb' : (v / 10000).toNat < 10000 := by omega
    have hlead := lut_lead hb'
    have hfour := lut_four hc'
    have hsplit : text v.toNat =
        text (v.toNat / 10000) ++ fixed 4 (v.toNat % 10000) :=
      text_split rfl hlarge
    have h₁ : 1000 ≤ (v / 10000).toNat ↔ 10000000 ≤ v.toNat := by omega
    have h₂ : 100 ≤ (v / 10000).toNat ↔ 1000000 ≤ v.toNat := by omega
    have h₃ : 10 ≤ (v / 10000).toNat ↔ 100000 ≤ v.toNat := by omega
    simp only [h₁, h₂, h₃] at hlead
    have h1000 : 1000 ≤ v.toNat := by omega
    have h100 : 100 ≤ v.toNat := by omega
    have h10 : 10 ≤ v.toNat := by omega
    rw [hsplit, ← hb, ← hc, ← hlead, ← hfour, if_pos hlarge, if_pos h1000,
      if_pos h100, if_pos h10]
    simp only [List.append_assoc, List.cons_append, List.nil_append]

/-- A block of eight with its leading zeros. -/
theorem lut_eight {v : UInt32} (hv : v.toNat < 100000000) :
    [lut ((v / 10000 / 100) <<< 1), lut ((v / 10000 / 100) <<< 1 + 1),
        lut ((v / 10000 % 100) <<< 1), lut ((v / 10000 % 100) <<< 1 + 1)] ++
      [lut ((v % 10000 / 100) <<< 1), lut ((v % 10000 / 100) <<< 1 + 1),
        lut ((v % 10000 % 100) <<< 1), lut ((v % 10000 % 100) <<< 1 + 1)] =
      fixed 8 v.toNat := by
  have hb : (v / 10000).toNat = v.toNat / 10000 := UInt32.toNat_div v 10000
  have hc : (v % 10000).toNat = v.toNat % 10000 := UInt32.toNat_mod v 10000
  have hsplit : fixed 8 v.toNat =
      fixed 4 (v.toNat / 10000) ++ fixed 4 (v.toNat % 10000) :=
    @fixed_split 4 10000 rfl 4 v.toNat
  rw [lut_four (by omega), lut_four (by omega), hsplit, hb, hc]

/-- A single digit written without the table. -/
theorem digit_of_lt {a : UInt32} (ha : a.toNat < 10) :
    48 + a.toUInt8 = digit a.toNat := by
  apply UInt8.toNat_inj.mp
  rw [toNat_digit ha]
  simp
  omega

theorem lut_five_to_eight {v : UInt32} (hlo : 10000 ≤ v.toNat)
    (hhi : v.toNat < 100000000) :
    (if 10000000 ≤ v.toNat then [lut ((v / 10000 / 100) <<< 1)] else []) ++
        (if 1000000 ≤ v.toNat then [lut ((v / 10000 / 100) <<< 1 + 1)]
          else []) ++
        (if 100000 ≤ v.toNat then [lut ((v / 10000 % 100) <<< 1)] else []) ++
        [lut ((v / 10000 % 100) <<< 1 + 1)] ++
        [lut ((v % 10000 / 100) <<< 1), lut ((v % 10000 / 100) <<< 1 + 1),
          lut ((v % 10000 % 100) <<< 1), lut ((v % 10000 % 100) <<< 1 + 1)] =
      text v.toNat := by
  have h1000 : 1000 ≤ v.toNat := by omega
  have h100 : 100 ≤ v.toNat := by omega
  have h10 : 10 ≤ v.toNat := by omega
  have hlead := lut_lead_eight hhi
  rw [if_pos hlo, if_pos h1000, if_pos h100, if_pos h10] at hlead
  rw [← hlead]
  simp only [List.append_assoc, List.cons_append, List.nil_append]

/-- One to four digits, by cases on their number. -/
theorem lut_one_to_four {a : UInt32} (ha : a.toNat < 10000) :
    (if a.toNat < 10 then [48 + a.toUInt8]
      else if a.toNat < 100 then [lut (a <<< 1), lut (a <<< 1 + 1)]
      else if a.toNat < 1000 then
        [48 + (a / 100).toUInt8, lut ((a % 100) <<< 1),
          lut ((a % 100) <<< 1 + 1)]
      else
        [lut ((a / 100) <<< 1), lut ((a / 100) <<< 1 + 1),
          lut ((a % 100) <<< 1), lut ((a % 100) <<< 1 + 1)]) =
      text a.toNat := by
  have hhigh : (a / 100).toNat = a.toNat / 100 := UInt32.toNat_div a 100
  have hlow : (a % 100).toNat = a.toNat % 100 := UInt32.toNat_mod a 100
  split
  · rename_i h
    rw [digit_of_lt h, text_of_lt_ten h]
  split
  · rename_i h10 h
    rw [lut_pair h]
    exact (@text_of_bounds 1 _ (by omega) h).symm
  split
  · rename_i h10 h100 h
    have hsplit : text a.toNat =
        text (a.toNat / 100) ++ fixed 2 (a.toNat % 100) :=
      text_split rfl (by omega)
    rw [digit_of_lt (by omega), lut_pair (by omega), hsplit, hhigh, hlow,
      text_of_lt_ten (by omega)]
    rfl
  · rename_i h10 h100 h1000
    rw [lut_four ha]
    exact (@text_of_bounds 3 _ (by omega) ha).symm

/-! ## §3  The functions of `itoa.h` -/

theorem u32toa_eq (value : UInt32) : u32toa value = text value.toNat := by
  have hmax := value.toNat_lt
  simp only [u32toa, ge_iff_le, UInt32.lt_iff_toNat_lt, UInt32.le_iff_toNat_le,
    UInt32.reduceToNat]
  split
  · rename_i h
    exact lut_lead h
  split
  · rename_i hfour h
    exact lut_five_to_eight (Nat.le_of_not_lt hfour) h
  · rename_i hfour height
    have ha : (value / 100000000).toNat = value.toNat / 100000000 :=
      UInt32.toNat_div value 100000000
    have hv : (value % 100000000).toNat = value.toNat % 100000000 :=
      UInt32.toNat_mod value 100000000
    have hsplit : text value.toNat =
        text (value.toNat / 100000000) ++ fixed 8 (value.toNat % 100000000) :=
      text_split rfl (by omega)
    rw [hsplit, ← hv, ← lut_eight (by omega), ← List.append_assoc]
    congr 2
    split
    · rename_i hten
      have hlt : (value / 100000000).toNat < 100 := by omega
      rw [lut_pair hlt, ← ha]
      exact (@text_of_bounds 1 _ hten hlt).symm
    · rename_i hten
      rw [digit_of_lt (by omega), ha, text_of_lt_ten (by omega)]

theorem toNat_kTen : kTen8.toNat = 100000000 ∧ kTen9.toNat = 1000000000 ∧
    kTen10.toNat = 10000000000 ∧ kTen11.toNat = 100000000000 ∧
    kTen12.toNat = 1000000000000 ∧ kTen13.toNat = 10000000000000 ∧
    kTen14.toNat = 100000000000000 ∧ kTen15.toNat = 1000000000000000 ∧
    kTen16.toNat = 10000000000000000 := by
  decide

/-- The quotient and the remainder by `kTen8` fit into 32 bits where they are
cast. -/
theorem toNat_cast_div {x : UInt64} (h : x.toNat < 10000000000000000) :
    (x / kTen8).toUInt32.toNat = x.toNat / 100000000 := by
  have h8 : kTen8.toNat = 100000000 := rfl
  rw [UInt64.toNat_toUInt32, UInt64.toNat_div, h8]
  omega

theorem toNat_cast_mod (x : UInt64) :
    (x % kTen8).toUInt32.toNat = x.toNat % 100000000 := by
  have h8 : kTen8.toNat = 100000000 := rfl
  rw [UInt64.toNat_toUInt32, UInt64.toNat_mod, h8]
  omega

theorem u64toa_eq (value : UInt64) : u64toa value = text value.toNat := by
  have hmax := value.toNat_lt
  obtain ⟨h8, h9, h10, h11, h12, h13, h14, h15, h16⟩ := toNat_kTen
  simp only [u64toa, ge_iff_le, UInt32.lt_iff_toNat_lt, UInt32.le_iff_toNat_le,
    UInt32.reduceToNat, UInt64.lt_iff_toNat_lt, UInt64.le_iff_toNat_le,
    UInt64.reduceToNat, h8, h9, h10, h11, h12, h13, h14, h15, h16]
  split
  · rename_i hsmall
    have hv : value.toUInt32.toNat = value.toNat := by
      rw [UInt64.toNat_toUInt32]
      omega
    simp only [← hv] at hsmall ⊢
    split
    · rename_i h
      exact lut_lead h
    · rename_i h
      exact lut_five_to_eight (Nat.le_of_not_lt h) hsmall
  split
  · rename_i hge hlt
    have hv0 := toNat_cast_div hlt
    have hv1 := toNat_cast_mod value
    have hlt0 : (value / kTen8).toUInt32.toNat < 100000000 := by omega
    have hlead := lut_lead_eight hlt0
    have hsplit : text value.toNat =
        text (value.toNat / 100000000) ++ fixed 8 (value.toNat % 100000000) :=
      text_split rfl (by omega)
    -- the source compares `value` where the block lemma compares its quotient
    have hscale : ∀ k, k ≤ (value / kTen8).toUInt32.toNat ↔
        k * 100000000 ≤ value.toNat := by
      intro k
      rw [hv0]
      exact Nat.le_div_iff_mul_le (by decide)
    simp only [hscale, Nat.reduceMul] at hlead
    rw [hsplit, ← hv0, ← hv1, ← hlead, ← lut_eight (by omega)]
    simp only [List.append_assoc]
  · rename_i hsmall hge
    have hvalue : (value % kTen16).toNat = value.toNat % 10000000000000000 :=
      UInt64.toNat_mod value kTen16
    have hv0 := toNat_cast_div (show (value % kTen16).toNat < _ by omega)
    have hv1 := toNat_cast_mod (value % kTen16)
    have ha : (value / kTen16).toUInt32.toNat =
        value.toNat / 10000000000000000 := by
      rw [UInt64.toNat_toUInt32, UInt64.toNat_div, h16]
      omega
    have hsplit : text value.toNat = text (value.toNat / 10000000000000000) ++
        fixed 16 (value.toNat % 10000000000000000) :=
      text_split rfl (by omega)
    have hsixteen := @fixed_split 8 100000000 rfl 8 (value % kTen16).toNat
    rw [hsplit, ← hvalue, hsixteen, ← hv0, ← hv1, ← lut_eight (by omega),
      ← lut_eight (by omega), ← ha, ← lut_one_to_four (by omega)]
    simp only [List.append_assoc]

section Sign

variable {w : ℕ} (x : BitVec w)

theorem natAbs_of_neg (h : x.toInt < 0) :
    (~~~x + 1#w).toNat = x.toInt.natAbs := by
  have hlt := x.isLt
  have hcond := BitVec.toInt_eq_toNat_cond x
  rw [← BitVec.neg_eq_not_add, BitVec.toNat_neg]
  split at hcond
  · omega
  · rw [Nat.mod_eq_of_lt (by omega)]
    omega

theorem natAbs_of_nonneg (h : ¬ x.toInt < 0) : x.toNat = x.toInt.natAbs := by
  have hlt := x.isLt
  have hcond := BitVec.toInt_eq_toNat_cond x
  split at hcond
  · omega
  · omega

end Sign

theorem i32toa_eq (value : Int32) : i32toa value = intText value.toInt := by
  have hsign : value < 0 ↔ value.toInt < 0 := Int32.lt_iff_toInt_lt
  simp only [i32toa, intText, u32toa_eq, hsign]
  split
  · rename_i hneg
    exact congrArg _ (congrArg text (natAbs_of_neg value.toBitVec hneg))
  · rename_i hneg
    exact congrArg text (natAbs_of_nonneg value.toBitVec hneg)

theorem i64toa_eq (value : Int64) : i64toa value = intText value.toInt := by
  have hsign : value < 0 ↔ value.toInt < 0 := Int64.lt_iff_toInt_lt
  simp only [i64toa, intText, u64toa_eq, hsign]
  split
  · rename_i hneg
    exact congrArg _ (congrArg text (natAbs_of_neg value.toBitVec hneg))
  · rename_i hneg
    exact congrArg text (natAbs_of_nonneg value.toBitVec hneg)

/-- Nothing is written past the `buffer[11]` of `WriteInt`. -/
theorem length_i32toa_le (value : Int32) : (i32toa value).length ≤ 11 := by
  have hlo := value.le_toInt
  have hhi := value.toInt_lt
  rw [i32toa_eq]
  exact @length_intText_le 9 _ (by omega)

/-- Nothing is written past the `buffer[21]` of `WriteInt64`. -/
theorem length_i64toa_le (value : Int64) : (i64toa value).length ≤ 20 := by
  have hlo := value.le_toInt
  have hhi := value.toInt_lt
  rw [i64toa_eq]
  exact @length_intText_le 18 _ (by omega)

/-! ## §4  `NumberToString` -/

/-- The digits the loop leaves in `temp`, the lowest first, with `room` places
left; `none` is a write past its end. -/
def fillTemp (room : ℕ) (number : Int32) : Option (List UInt8) :=
  if number = 0 then some []
  else
    match room with
    | 0 => none
    | room + 1 => do
        let digit := number % 10
        let rest ← fillTemp room (number / 10)
        some ((48 + digit.toInt8.toUInt8) :: rest)

/-- The C string left in `dest`; `none` where `-number` overflows. -/
def numberToString (number : Int32) : Option (List UInt8) :=
  if number = 0 then some [48]
  else if number < 0 then
    if number = Int32.minValue then none
    else (fillTemp 32 (-number)).map fun t => 45 :: t.reverse
  else (fillTemp 32 number).map List.reverse

theorem digit_eq {number : Int32} (h : 0 < number.toInt) :
    48 + (number % 10).toInt8.toUInt8 = digit (number.toInt.toNat % 10) := by
  have hall : ∀ k < 10, 48 + (Int32.ofNat k).toInt8.toUInt8 = digit k := by
    decide
  have hmod : (number % 10).toInt = number.toInt % 10 := by
    rw [Int32.toInt_mod]
    exact Int.tmod_eq_emod_of_nonneg (Int.le_of_lt h)
  have hk : number % 10 = Int32.ofNat (number.toInt.toNat % 10) := by
    apply Int32.toInt.inj
    rw [hmod, Int32.toInt_ofNat_of_lt (by omega)]
    omega
  rw [hk]
  exact hall _ (Nat.mod_lt _ (by decide))

theorem fillTemp_eq {room : ℕ} {number : Int32} (hpos : 0 < number.toInt)
    (hroom : number.toInt.toNat < 10 ^ room) :
    fillTemp room number = some (text number.toInt.toNat).reverse := by
  induction room generalizing number with
  | zero =>
      rw [Nat.pow_zero] at hroom
      omega
  | succ room ih =>
      have hne : number ≠ 0 := by
        rintro rfl
        exact absurd hpos (by decide)
      have hdiv : (number / 10).toInt = number.toInt / 10 := by
        rw [Int32.toInt_div_of_ne_right _ _ (by decide)]
        exact Int.tdiv_eq_ediv_of_nonneg (Int.le_of_lt hpos)
      have hdiv' : (number / 10).toInt.toNat = number.toInt.toNat / 10 := by
        rw [hdiv]
        omega
      rw [fillTemp, if_neg hne]
      simp only [digit_eq hpos]
      rcases Nat.lt_or_ge number.toInt.toNat 10 with hlt | hge
      · have hzero : number / 10 = 0 := by
          apply Int32.toInt.inj
          rw [hdiv]
          show _ = (0 : ℤ)
          omega
        have hrest : fillTemp room (number / 10) = some [] := by
          rw [fillTemp.eq_def, if_pos hzero]
        rw [hrest, text_of_lt_ten hlt, Nat.mod_eq_of_lt hlt]
        rfl
      · have hrest := @ih (number / 10) (by omega) (by
          rw [hdiv', Nat.div_lt_iff_lt_mul (by decide), ← Nat.pow_succ]
          exact hroom)
        rw [hrest, hdiv', text_ten_mul_add hge, List.reverse_append]
        rfl

/-- `NumberToString` writes the decimal text, of all numbers but the smallest. -/
theorem numberToString_eq {number : Int32} (h : number ≠ Int32.minValue) :
    numberToString number = some (intText number.toInt) := by
  have hlo := number.le_toInt
  have hhi := number.toInt_lt
  have hsign : number < 0 ↔ number.toInt < 0 := Int32.lt_iff_toInt_lt
  rw [numberToString, intText]
  by_cases hzero : number = 0
  · subst hzero
    rfl
  · rw [if_neg hzero]
    have hne : number.toInt ≠ 0 := fun h0 => hzero (Int32.toInt.inj h0)
    by_cases hneg : number.toInt < 0
    · have hmin : number.toInt ≠ -2 ^ 31 := fun hm => h (Int32.toInt.inj hm)
      -- the loop runs on the number without its sign
      have hopp : (-number).toInt = -number.toInt := by
        rw [Int32.toInt_neg]
        exact Int.bmod_eq_of_le (by omega) (by omega)
      have habs : (-number.toInt).toNat = number.toInt.natAbs := by omega
      have hroom : (-number).toInt.toNat < 10 ^ 32 := by
        rw [hopp]
        omega
      rw [if_pos (hsign.mpr hneg), if_neg h, if_pos hneg,
        fillTemp_eq (by omega) hroom, hopp, habs, Option.map_some,
        List.reverse_reverse]
    · have hroom : number.toInt.toNat < 10 ^ 32 := by omega
      have habs : number.toInt.toNat = number.toInt.natAbs := by omega
      rw [if_neg (fun hlt => hneg (hsign.mp hlt)), if_neg hneg,
        fillTemp_eq (by omega) hroom, habs, Option.map_some, List.reverse_reverse]

end AWRPC
