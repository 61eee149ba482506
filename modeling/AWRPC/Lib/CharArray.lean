import Mathlib.Data.List.TakeWhile
import Mathlib.Data.List.Infix
import Mathlib.Data.Nat.Notation

/-!
# Fixed-size character arrays and the C strings in them

A `char a[n]` is a byte list of length `n`; the C string it holds is the bytes
before the first NUL. Reading a C string out of an array that holds no NUL runs
past the end of the array, so `cString?` is partial: `none` is that read.
Filling an array from another process (`overwrite`) and the bounded copy
(`strcpy_s`) keep the length; `ZeroFrom k` is the invariant under which neither
of them, nor any later `cString?`, leaves the array.
-/

namespace Bytes

/-- The bytes of a string literal, without the terminating NUL. -/
def lit (s : String) : List UInt8 := s.toByteArray.data.toList

/-! ## §1  Cutting at a byte -/

/-- The bytes before the first `c`, all of them when there is none. -/
def cutAt (c : UInt8) (s : List UInt8) : List UInt8 := s.takeWhile (· != c)

theorem cutAt_initial (c : UInt8) (s : List UInt8) : cutAt c s <+: s :=
  List.takeWhile_prefix _

theorem notMem_cutAt (c : UInt8) (s : List UInt8) : c ∉ cutAt c s := by
  intro h
  simpa using List.mem_takeWhile_imp h

theorem cutAt_of_notMem {c : UInt8} {s : List UInt8} (h : c ∉ s) :
    cutAt c s = s := by
  refine List.takeWhile_eq_self_iff.mpr fun b hb => ?_
  have hne : b ≠ c := fun he => h (he ▸ hb)
  simpa using hne

/-- Bytes without `c` pass the cut; what it does to the rest is left. -/
theorem cutAt_append_of_notMem {c : UInt8} {s : List UInt8} (h : c ∉ s)
    (rest : List UInt8) : cutAt c (s ++ rest) = s ++ cutAt c rest := by
  refine List.takeWhile_append_of_pos fun b hb => ?_
  have hne : b ≠ c := fun he => h (he ▸ hb)
  simpa using hne

theorem cutAt_cons_self (c : UInt8) (rest : List UInt8) :
    cutAt c (c :: rest) = [] := by
  simp [cutAt]

/-- What stands behind a `c` does not matter for the cut. -/
theorem cutAt_append_cons (c : UInt8) (s rest : List UInt8) :
    cutAt c (s ++ c :: rest) = cutAt c s := by
  induction s with
  | nil => simp [cutAt]
  | cons b bs ih =>
      by_cases hb : b = c
      · simp [cutAt, hb]
      · have hcut : ∀ t, cutAt c (b :: t) = b :: cutAt c t := by
          intro t
          simp [cutAt, hb]
        rw [List.cons_append, hcut, hcut, ih]

/-- Bytes without `c` followed by `c` are cut back to those bytes. -/
theorem cutAt_append_self {c : UInt8} {s : List UInt8} (rest : List UInt8)
    (h : c ∉ s) : cutAt c (s ++ c :: rest) = s := by
  rw [cutAt_append_cons, cutAt_of_notMem h]

/-- A `c` at index `i` bounds the cut by `i`. -/
theorem cutAt_length_le {c : UInt8} {s : List UInt8} {i : ℕ}
    (h : s[i]? = some c) : (cutAt c s).length ≤ i := by
  by_contra hlt
  have hi : i < (cutAt c s).length := by omega
  have hget : (cutAt c s)[i]? = s[i]? := by
    rw [List.getElem?_eq_getElem hi, (cutAt_initial c s).getElem hi,
      List.getElem?_eq_getElem]
  rw [h] at hget
  exact notMem_cutAt c s (List.mem_of_getElem? hget)

/-! ## §2  The `std::string` operations -/

/-- `s.find(c)`: the index of the first `c`, `none` for `npos`. -/
def find (s : List UInt8) (c : UInt8) : Option ℕ := s.findIdx? (· == c)

/-- `s.substr(pos, count)`, with `none` for a count of `npos`. -/
def substr (s : List UInt8) (pos : ℕ) (count : Option ℕ) : List UInt8 :=
  match count with
  | some k => (s.drop pos).take k
  | none => s.drop pos

/-- Taking `substr` up to a `find` is cutting at the first occurrence, the
`npos` case included. -/
theorem substr_find (s : List UInt8) (c : UInt8) :
    substr s 0 (find s c) = cutAt c s := by
  induction s with
  | nil => rfl
  | cons b bs ih =>
      by_cases hb : b = c
      · simp [find, substr, cutAt, List.findIdx?_cons, hb]
      · have hcut : cutAt c (b :: bs) = b :: cutAt c bs := by
          simp [cutAt, hb]
        have hfind : find (b :: bs) c = (find bs c).map (· + 1) := by
          simp [find, List.findIdx?_cons, hb]
        rw [hcut, hfind, ← ih]
        cases find bs c <;> rfl

/-! ## §3  C strings -/

/-- The C string at the start of a memory block: the bytes before the first
NUL, `none` when the block holds no NUL. -/
def cString? : List UInt8 → Option (List UInt8)
  | [] => none
  | b :: bs => if b = 0 then some [] else (cString? bs).map (b :: ·)

/-- The same bytes for a block known to hold a NUL. -/
abbrev cString (bs : List UInt8) : List UInt8 := cutAt 0 bs

theorem cString?_eq_cString : ∀ {bs : List UInt8}, (0 : UInt8) ∈ bs →
    cString? bs = some (cString bs)
  | [], h => absurd h List.not_mem_nil
  | b :: bs, h => by
      by_cases hb : b = 0
      · simp [cString?, cutAt, hb]
      · have hbs : (0 : UInt8) ∈ bs := by
          rcases List.mem_cons.mp h with h | h
          · exact absurd h.symm hb
          · exact h
        rw [cString?, if_neg hb, cString?_eq_cString hbs]
        simp [cutAt, hb]

/-! ## §4  Fixed-size reads -/

/-- The first `n` bytes of a memory. -/
def window (mem : ℕ → UInt8) (n : ℕ) : List UInt8 := (List.range n).map mem

@[simp] theorem length_window (mem : ℕ → UInt8) (n : ℕ) :
    (window mem n).length = n := by
  rw [window, List.length_map, List.length_range]

theorem window_take (mem : ℕ → UInt8) {k n : ℕ} (h : k ≤ n) :
    (window mem n).take k = window mem k := by
  rw [window, window, ← List.map_take, List.take_range, Nat.min_eq_left h]

/-- A read that goes past `k` has the byte at `k` behind the first `k`. -/
theorem window_split (mem : ℕ → UInt8) {k n : ℕ} (h : k < n) :
    ∃ rest, window mem n = window mem k ++ mem k :: rest := by
  have hk : k < (window mem n).length := by rwa [length_window]
  have hbyte : (window mem n)[k] = mem k := by simp [window]
  refine ⟨(window mem n).drop (k + 1), ?_⟩
  calc window mem n
      = (window mem n).take k ++ (window mem n).drop k :=
        (List.take_append_drop k _).symm
    _ = window mem k ++ mem k :: (window mem n).drop (k + 1) := by
        rw [window_take mem (Nat.le_of_lt h), List.drop_eq_getElem_cons hk,
          hbyte]

/-- A NUL-terminated string read with a fixed size is cut to that size. -/
theorem cString_window {mem : ℕ → UInt8} {s : List UInt8}
    (hs : window mem s.length = s) (hnul : (0 : UInt8) ∉ s)
    (hend : mem s.length = 0) (n : ℕ) :
    cString (window mem n) = s.take n := by
  rcases Nat.lt_or_ge s.length n with hlt | hge
  · obtain ⟨rest, hrest⟩ := window_split mem hlt
    rw [hrest, hs, hend, List.take_of_length_le (Nat.le_of_lt hlt)]
    exact cutAt_append_self rest hnul
  · have htake : window mem n = s.take n := by rw [← window_take mem hge, hs]
    rw [htake]
    exact cutAt_of_notMem fun hmem => hnul (List.mem_of_mem_take hmem)

/-- **A name ended by NUL or by `c` comes out of a fixed-size read and the two
cuts exactly when the read is as long as the name.** -/
theorem cut_window_eq_iff {mem : ℕ → UInt8} {c : UInt8} {s : List UInt8}
    (hs : window mem s.length = s) (hnul : (0 : UInt8) ∉ s) (hc : c ∉ s)
    (hend : mem s.length = 0 ∨ mem s.length = c) (n : ℕ) :
    cutAt c (cString (window mem n)) = s ↔ s.length ≤ n := by
  constructor
  · intro h
    have hcut := (cutAt_initial c (cString (window mem n))).length_le
    have hstr := (cutAt_initial 0 (window mem n)).length_le
    rw [h] at hcut
    rw [length_window] at hstr
    exact Nat.le_trans hcut hstr
  · intro h
    rcases Nat.lt_or_eq_of_le h with hlt | heq
    · obtain ⟨rest, hrest⟩ := window_split mem hlt
      rw [hrest, hs]
      rcases hend with hzero | hsep
      · rw [hzero, cString, cutAt_append_self rest hnul, cutAt_of_notMem hc]
      · rw [hsep, cString, cutAt_append_of_notMem hnul]
        by_cases hc0 : c = 0
        · rw [hc0, cutAt_cons_self, List.append_nil]
          exact cutAt_of_notMem (hc0 ▸ hc)
        · have hcons : cutAt 0 (c :: rest) = c :: cutAt 0 rest := by
            simp [cutAt, hc0]
          rw [hcons, cutAt_append_self _ hc]
    · rw [← heq, hs, cString, cutAt_of_notMem hnul, cutAt_of_notMem hc]

/-! ## §5  Comparisons -/

/-- `strcmp`: bytes compared in order as unsigned numbers. -/
def strcmp : List UInt8 → List UInt8 → Int
  | [], [] => 0
  | [], _ :: _ => -1
  | _ :: _, [] => 1
  | a :: as, b :: bs =>
      if a = b then strcmp as bs else if a < b then -1 else 1

theorem strcmp_eq_zero_iff : ∀ {a b : List UInt8}, strcmp a b = 0 ↔ a = b
  | [], [] => by simp [strcmp]
  | [], _ :: _ => by simp [strcmp]
  | _ :: _, [] => by simp [strcmp]
  | a :: as, b :: bs => by
      rw [strcmp]
      by_cases hab : a = b
      · rw [if_pos hab, strcmp_eq_zero_iff, hab]
        simp
      · rw [if_neg hab]
        constructor
        · intro h
          split at h
          · exact absurd h (by decide)
          · exact absurd h (by decide)
        · rintro ⟨⟩
          exact absurd rfl hab

theorem strcmp_self (s : List UInt8) : strcmp s s = 0 :=
  strcmp_eq_zero_iff.mpr rfl

/-- ASCII lower case. -/
def toLower (b : UInt8) : UInt8 := if 65 ≤ b ∧ b ≤ 90 then b + 32 else b

end Bytes

open Bytes

/-! ## §6  Arrays -/

/-- A `char a[n]`. -/
structure CharArray (n : ℕ) where
  bytes : List UInt8
  length_bytes : bytes.length = n
deriving DecidableEq

namespace CharArray

variable {n : ℕ}

/-- `char a[n] = "…"`: the literal, then zeros to the end. -/
def ofLiteral (n : ℕ) (s : List UInt8) (h : s.length < n) : CharArray n where
  bytes := s ++ List.replicate (n - s.length) 0
  length_bytes := by
    rw [List.length_append, List.length_replicate]
    omega

/-- Writing `w` over the start of the array. -/
def overwrite (a : CharArray n) (w : List UInt8) (h : w.length ≤ n) :
    CharArray n where
  bytes := w ++ a.bytes.drop w.length
  length_bytes := by
    rw [List.length_append, List.length_drop, a.length_bytes]
    omega

/-- `strcpy_s(dst, src)` on two arrays: the C string of `src` and its NUL are
copied to the start of `dst`. It fails when the string with its NUL does not fit
(and, as `cString?`, when `src` holds no string). The bytes of `dst` behind the
copied NUL go through `pad`: the identity in a release runtime, the fill
pattern in a debug runtime. -/
def strcpy_s (pad : UInt8 → UInt8) (dst src : CharArray n) :
    Option (CharArray n) := do
  let s ← cString? src.bytes
  if h : s.length < n then
    some
      { bytes := s ++ 0 :: (dst.bytes.drop (s.length + 1)).map pad
        length_bytes := by
          rw [List.length_append, List.length_cons, List.length_map,
            List.length_drop, dst.length_bytes]
          omega }
  else none

/-- A NUL stands at some index `≤ k`. -/
def NulWithin (k : ℕ) (a : CharArray n) : Prop :=
  ∃ i ≤ k, a.bytes[i]? = some 0

/-- Every byte from index `k` on is zero. -/
def ZeroFrom (k : ℕ) (a : CharArray n) : Prop :=
  ∀ i, k ≤ i → i < n → a.bytes[i]? = some 0

/-- The C string an array with a NUL holds. -/
def str (a : CharArray n) : List UInt8 := cString a.bytes

theorem ZeroFrom.nulWithin {k : ℕ} {a : CharArray n} (h : a.ZeroFrom k)
    (hk : k < n) : a.NulWithin k :=
  ⟨k, Nat.le_refl k, h k (Nat.le_refl k) hk⟩

theorem NulWithin.cString? {k : ℕ} {a : CharArray n} (h : a.NulWithin k) :
    cString? a.bytes = some a.str := by
  obtain ⟨i, -, hi⟩ := h
  exact cString?_eq_cString (List.mem_of_getElem? hi)

theorem NulWithin.str_length_le {k : ℕ} {a : CharArray n}
    (h : a.NulWithin k) : a.str.length ≤ k := by
  obtain ⟨i, hik, hi⟩ := h
  exact Nat.le_trans (cutAt_length_le hi) hik

theorem nul_notMem_str (a : CharArray n) : (0 : UInt8) ∉ a.str :=
  notMem_cutAt 0 a.bytes

theorem ofLiteral_str {s : List UInt8} (h : s.length < n)
    (hs : (0 : UInt8) ∉ s) : (ofLiteral n s h).str = s := by
  have hpos : n - s.length = (n - s.length - 1) + 1 := by omega
  show cString (s ++ List.replicate (n - s.length) 0) = s
  rw [hpos, List.replicate_succ]
  exact cutAt_append_self _ hs

theorem ofLiteral_zeroFrom {s : List UInt8} (h : s.length < n) {k : ℕ}
    (hk : s.length ≤ k) : (ofLiteral n s h).ZeroFrom k := by
  intro i hki hin
  show (s ++ List.replicate (n - s.length) 0)[i]? = some 0
  rw [List.getElem?_append_right (by omega), List.getElem?_replicate]
  exact if_pos (by omega)

theorem overwrite_nil (a : CharArray n) {w : List UInt8} (hw : w = [])
    (h : w.length ≤ n) : a.overwrite w h = a := by
  subst hw
  rfl

/-- Overwriting at most `k` bytes leaves the zeros from `k` on alone. -/
theorem ZeroFrom.overwrite {k : ℕ} {a : CharArray n} {w : List UInt8}
    (h : a.ZeroFrom k) (hw : w.length ≤ n) (hk : w.length ≤ k) :
    (a.overwrite w hw).ZeroFrom k := by
  intro i hki hin
  show (w ++ a.bytes.drop w.length)[i]? = some 0
  rw [List.getElem?_append_right (by omega), List.getElem?_drop]
  rw [show w.length + (i - w.length) = i from by omega]
  exact h i hki hin

/-- A write of exactly `k` bytes decides the string of an array whose bytes
from `k` on are zero: nothing of the old contents is left in it. -/
theorem overwrite_str {k : ℕ} {a : CharArray n} {w : List UInt8}
    (h : a.ZeroFrom k) (hkn : k < n) (hw : w.length = k) :
    (a.overwrite w (by omega)).str = cString w := by
  have hd : ∃ rest, a.bytes.drop w.length = 0 :: rest := by
    have hget : (a.bytes.drop w.length)[0]? = some 0 := by
      rw [List.getElem?_drop, Nat.add_zero, hw]
      exact h k (Nat.le_refl k) hkn
    cases hdrop : a.bytes.drop w.length with
    | nil => rw [hdrop] at hget; simp at hget
    | cons b rest => rw [hdrop] at hget; simp at hget; exact ⟨rest, by rw [hget]⟩
  obtain ⟨rest, hrest⟩ := hd
  show cutAt 0 (w ++ a.bytes.drop w.length) = cutAt 0 w
  rw [hrest, cutAt_append_cons]

/-- The bounded copy between arrays of one size succeeds whenever the source
holds a string, and the copy holds the same string. -/
theorem strcpy_s_spec (pad : UInt8 → UInt8) (dst : CharArray n)
    {src : CharArray n} {k : ℕ} (h : src.NulWithin k) (hk : k < n) :
    ∃ d, strcpy_s pad dst src = some d ∧ d.str = src.str ∧ d.NulWithin k := by
  have hlen : src.str.length < n := Nat.lt_of_le_of_lt h.str_length_le hk
  refine ⟨_, by rw [strcpy_s, h.cString?]; exact dif_pos hlen, ?_, ?_⟩
  · exact cutAt_append_self _ src.nul_notMem_str
  · refine ⟨src.str.length, h.str_length_le, ?_⟩
    rw [List.getElem?_append_right (Nat.le_refl _), Nat.sub_self]
    rfl

end CharArray
