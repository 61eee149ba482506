import AWRPC.Reader

/-!
# The strings of the reader

White space, escapes and strings against the grammar, in both directions: what
is taken off the text is a piece of the grammar, or the reader stops with an
error inside the text; and where a piece is written it is taken whole.
-/

namespace AWRPC

open Bytes Decimal Json JsonGrammar

namespace Reader

open ParseErrorCode

section Outcomes

variable {α β : Type}

/-- `x` gives something with `P`, or it stops: with an error among the last `n`
bytes or at an assertion, and never for want of fuel. -/
def Outcome (n : ℕ) (P : α → Prop) : Except Stop α → Prop
  | .ok a => P a
  | .error (.parseError _ left) => left ≤ n
  | .error .assertion => True
  | .error .fuel => False

theorem Outcome.bind {n : ℕ} {P : α → Prop} {Q : β → Prop} {x : Except Stop α}
    {f : α → Except Stop β} (hx : Outcome n P x)
    (hf : ∀ a, P a → Outcome n Q (f a)) : Outcome n Q (x >>= f) := by
  cases x with
  | ok a => exact hf a hx
  | error e =>
      cases e with
      | parseError code left => exact hx
      | assertion => exact hx
      | fuel => exact hx

theorem Outcome.imp {n m : ℕ} {P Q : α → Prop} {x : Except Stop α}
    (hx : Outcome n P x) (hnm : n ≤ m) (h : ∀ a, P a → Q a) :
    Outcome m Q x := by
  cases x with
  | ok a => exact h a hx
  | error e =>
      cases e with
      | parseError code left => exact Nat.le_trans hx hnm
      | assertion => exact hx
      | fuel => exact hx

theorem Outcome.of_ok {n : ℕ} {P : α → Prop} {x : Except Stop α} {a : α}
    (hx : Outcome n P x) (h : x = .ok a) : P a := by
  rw [h] at hx
  exact hx

theorem ok_bind (a : α) (f : α → Except Stop β) : (.ok a >>= f) = f a :=
  rfl

theorem error_bind (e : Stop) (f : α → Except Stop β) :
    (.error e >>= f) = .error e :=
  rfl

end Outcomes

/-! ## §1  Bytes -/

theorem consume_cons (c : UInt8) (src : List UInt8) :
    consume c (c :: src) = some src :=
  if_pos rfl

theorem consume_of_ne {c b : UInt8} (h : b ≠ c) (src : List UInt8) :
    consume c (b :: src) = none :=
  if_neg h

theorem consume_eq_some {c : UInt8} (hc : c ≠ 0) {src rest : List UInt8}
    (h : consume c src = some rest) : src = c :: rest := by
  rw [consume] at h
  split at h
  · rename_i hpeek
    cases src with
    | nil => exact absurd hpeek.symm hc
    | cons b src =>
        cases h
        cases hpeek
        rfl
  · cases h

/-- A byte other than NUL at the read position is a byte of the text. -/
theorem cons_of_peek {c : UInt8} (hc : c ≠ 0) {src : List UInt8}
    (h : peek src = c) : src = c :: src.tail := by
  cases src with
  | nil => exact absurd h.symm hc
  | cons b src =>
      cases h
      rfl

theorem skipWhitespace_append {w : List UInt8} (hw : Ws w) {b : UInt8}
    (hb : isWs b = false) (rest : List UInt8) :
    skipWhitespace (w ++ b :: rest) = b :: rest := by
  have hb' : ¬ isWhitespace b = true := by
    rw [show isWhitespace b = false from hb]
    exact Bool.false_ne_true
  show List.dropWhile isWhitespace (w ++ b :: rest) = b :: rest
  rw [@List.dropWhile_append_of_pos _ isWhitespace _ _ hw,
    List.dropWhile_cons_of_neg hb']

/-- What is skipped is white space. -/
theorem skipWhitespace_split (src : List UInt8) :
    ∃ w, Ws w ∧ src = w ++ skipWhitespace src := by
  refine ⟨src.takeWhile isWhitespace, ?_, List.takeWhile_append_dropWhile.symm⟩
  intro b hb
  exact List.mem_takeWhile_imp hb

theorem length_skipWhitespace_le (src : List UInt8) :
    (skipWhitespace src).length ≤ src.length := by
  obtain ⟨w, hw, hsrc⟩ := skipWhitespace_split src
  have hlen := congrArg List.length hsrc
  rw [List.length_append] at hlen
  omega

/-! ## §2  Escapes -/

/-- The table has what `unescape` says, and zero for the rest. -/
theorem escapeTable_eq : ∀ c : UInt8,
    escapeTable.getD c.toNat 0 = (unescape c).getD 0 ∧ unescape c ≠ some 0 := by
  refine forall_byte ?_
  decide +kernel

theorem add_sub_toUInt32 {k b : UInt8} (h : k ≤ b) (x : UInt32) :
    x + b.toUInt32 - k.toUInt32 = x + UInt32.ofNat (b.toNat - k.toNat) := by
  rw [UInt8.le_iff_toNat_le] at h
  have hle : k.toUInt32 ≤ b.toUInt32 := by
    rw [UInt32.le_iff_toNat_le, UInt8.toNat_toUInt32, UInt8.toNat_toUInt32]
    exact h
  have hlt := b.toNat_lt
  rw [UInt32.sub_eq_add_neg, UInt32.add_assoc, ← UInt32.sub_eq_add_neg]
  congr 1
  rw [← UInt32.toNat_inj, UInt32.toNat_sub_of_le _ _ hle, UInt8.toNat_toUInt32,
    UInt8.toNat_toUInt32, UInt32.toNat_ofNat', Nat.mod_eq_of_lt (by omega)]

theorem parseHex4_some {e n d : ℕ} {codepoint : UInt32} (src : List UInt8)
    (h : hexValue (peek src) = some d) :
    parseHex4 e (n + 1) codepoint src =
      parseHex4 e n ((codepoint <<< 4) + UInt32.ofNat d) src.tail := by
  have hadd := fun k (hk : k ≤ peek src) =>
    congrArg (fun x => parseHex4 e n x src.tail)
      (add_sub_toUInt32 hk (codepoint <<< 4))
  rw [hexValue] at h
  rw [parseHex4]
  split at h
  · rename_i hdigit
    cases h
    rw [if_pos hdigit]
    exact hadd 48 hdigit.1
  rename_i hdigit
  rw [if_neg hdigit]
  split at h
  · rename_i hupper
    cases h
    rw [if_pos hupper]
    exact hadd 55 (UInt8.le_trans (by decide) hupper.1)
  rename_i hupper
  rw [if_neg hupper]
  split at h
  · rename_i hlower
    cases h
    rw [if_pos hlower]
    exact hadd 87 (UInt8.le_trans (by decide) hlower.1)
  · cases h

theorem parseHex4_none {e n : ℕ} {codepoint : UInt32} {src : List UInt8}
    (h : hexValue (peek src) = none) :
    parseHex4 e (n + 1) codepoint src =
      .error (.parseError kParseErrorStringUnicodeEscapeInvalidHex e) := by
  rw [hexValue] at h
  rw [parseHex4]
  split at h
  · cases h
  rename_i hdigit
  split at h
  · cases h
  rename_i hupper
  split at h
  · cases h
  rename_i hlower
  rw [if_neg hdigit, if_neg hupper, if_neg hlower]

theorem shift_add (m d : ℕ) :
    (UInt32.ofNat m <<< 4) + UInt32.ofNat d = UInt32.ofNat (16 * m + d) := by
  rw [← UInt32.toNat_inj]
  simp [UInt32.toNat_shiftLeft, Nat.shiftLeft_eq]
  omega

theorem cons_of_hexValue {src : List UInt8} {d : ℕ}
    (h : hexValue (peek src) = some d) : src = peek src :: src.tail := by
  refine cons_of_peek ?_ rfl
  intro hzero
  rw [hzero] at h
  cases h

theorem hex4_eq_some {a b c d : UInt8} {n : ℕ} :
    hex4 a b c d = some n ↔ ∃ a' b' c' d', hexValue a = some a' ∧
      hexValue b = some b' ∧ hexValue c = some c' ∧ hexValue d = some d' ∧
      n = 4096 * a' + 256 * b' + 16 * c' + d' := by
  simp only [hex4, Option.bind_eq_bind, Option.bind_eq_some_iff,
    Option.some_inj]
  constructor
  · rintro ⟨a', ha, b', hb, c', hc, d', hd, rfl⟩
    exact ⟨a', b', c', d', ha, hb, hc, hd, rfl⟩
  · rintro ⟨a', b', c', d', ha, hb, hc, hd, rfl⟩
    exact ⟨a', ha, b', hb, c', hc, d', hd, rfl⟩

theorem parseHex4_hex4 {e : ℕ} {a b c d : UInt8} {n : ℕ}
    (h : hex4 a b c d = some n) (rest : List UInt8) :
    parseHex4 e 4 0 (a :: b :: c :: d :: rest) =
      .ok (UInt32.ofNat n, rest) := by
  obtain ⟨a', b', c', d', ha, hb, hc, hd, rfl⟩ := hex4_eq_some.mp h
  have hn : 16 * (16 * (16 * (16 * 0 + a') + b') + c') + d' =
      4096 * a' + 256 * b' + 16 * c' + d' := by omega
  rw [parseHex4_some (a :: b :: c :: d :: rest) ha, List.tail_cons,
    parseHex4_some (b :: c :: d :: rest) hb, List.tail_cons,
    parseHex4_some (c :: d :: rest) hc, List.tail_cons,
    parseHex4_some (d :: rest) hd, List.tail_cons, parseHex4]
  rw [← hn, ← shift_add, ← shift_add, ← shift_add, ← shift_add]
  rfl

theorem hexValue_lt : ∀ b : UInt8, ∀ d ∈ hexValue b, d < 16 := by
  refine forall_byte ?_
  decide +kernel

theorem hex4_lt {a b c d : UInt8} {n : ℕ} (h : hex4 a b c d = some n) :
    n < 65536 := by
  obtain ⟨a', b', c', d', ha, hb, hc, hd, rfl⟩ := hex4_eq_some.mp h
  have ha' := hexValue_lt a a' ha
  have hb' := hexValue_lt b b' hb
  have hc' := hexValue_lt c c' hc
  have hd' := hexValue_lt d d' hd
  omega

/-- `ParseHex4` takes four hexadecimal digits, or there are not four. -/
theorem parseHex4_outcome (e : ℕ) (src : List UInt8) :
    Outcome e (fun r => ∃ a b c d n, src = a :: b :: c :: d :: r.2 ∧
      hex4 a b c d = some n ∧ r.1 = UInt32.ofNat n) (parseHex4 e 4 0 src) := by
  cases h₁ : hexValue (peek src) with
  | none => rw [parseHex4_none h₁]; exact Nat.le_refl e
  | some a' =>
  cases h₂ : hexValue (peek src.tail) with
  | none => rw [parseHex4_some _ h₁, parseHex4_none h₂]; exact Nat.le_refl e
  | some b' =>
  cases h₃ : hexValue (peek src.tail.tail) with
  | none =>
      rw [parseHex4_some _ h₁, parseHex4_some _ h₂, parseHex4_none h₃]
      exact Nat.le_refl e
  | some c' =>
  cases h₄ : hexValue (peek src.tail.tail.tail) with
  | none =>
      rw [parseHex4_some _ h₁, parseHex4_some _ h₂, parseHex4_some _ h₃,
        parseHex4_none h₄]
      exact Nat.le_refl e
  | some d' =>
      have hsrc : src = peek src :: peek src.tail :: peek src.tail.tail ::
          peek src.tail.tail.tail :: src.tail.tail.tail.tail := by
        rw [← cons_of_hexValue h₄, ← cons_of_hexValue h₃,
          ← cons_of_hexValue h₂, ← cons_of_hexValue h₁]
      have hhex := hex4_eq_some.mpr ⟨a', b', c', d', h₁, h₂, h₃, h₄, rfl⟩
      rw [hsrc, parseHex4_hex4 hhex]
      exact ⟨_, _, _, _, _, rfl, hhex, rfl⟩

/-! ## §3  Code points -/

theorem toUInt8_or {lead x : UInt32} {i k m : ℕ} (hlead : lead.toNat = 2 ^ i * k)
    (hx : x.toNat = m) (hm : m < 2 ^ i) :
    (lead ||| x).toUInt8 = UInt8.ofNat (m + 2 ^ i * k) := by
  rw [← UInt8.toNat_inj, UInt32.toNat_toUInt8, UInt32.toNat_or, hlead, hx,
    ← Nat.two_pow_add_eq_or_of_lt hm, UInt8.toNat_ofNat', Nat.add_comm]

theorem toNat_shift_and {n i k : ℕ} (hn : n < 2 ^ 32) (hi : i < 32)
    (hk : k ≤ 32) :
    ((UInt32.ofNat n >>> UInt32.ofNat i) &&& UInt32.ofNat (2 ^ k - 1)).toNat =
      n / 2 ^ i % 2 ^ k := by
  have hmask : 2 ^ k - 1 < 2 ^ 32 := by
    have hpow := Nat.pow_le_pow_right (n := 2) (by decide) hk
    omega
  have hi' : i < 2 ^ 32 := by omega
  rw [UInt32.toNat_and, UInt32.toNat_shiftRight, UInt32.toNat_ofNat',
    UInt32.toNat_ofNat', UInt32.toNat_ofNat', Nat.mod_eq_of_lt hn,
    Nat.mod_eq_of_lt hi', Nat.mod_eq_of_lt hi, Nat.mod_eq_of_lt hmask,
    Nat.and_two_pow_sub_one_eq_mod, Nat.shiftRight_eq_div_pow]

theorem toNat_and_ofNat {n k : ℕ} (hn : n < 2 ^ 32) (hk : k ≤ 32) :
    (UInt32.ofNat n &&& UInt32.ofNat (2 ^ k - 1)).toNat = n % 2 ^ k := by
  have h := @toNat_shift_and n 0 k hn (by decide) hk
  rw [Nat.pow_zero, Nat.div_one] at h
  rw [← h, UInt32.toNat_and, UInt32.toNat_and, UInt32.toNat_shiftRight]
  rfl

theorem toNat_char_ofNat {n : ℕ} (h : n.isValidChar) :
    (Char.ofNat n).val.toNat = n := by
  rw [Char.ofNat, dif_pos h]
  rfl

/-- **Encoding a scalar value** gives its bytes in UTF-8. -/
theorem encode_eq {n : ℕ} (h : n.isValidChar) :
    encode (UInt32.ofNat n) = .ok (utf8 n) := by
  have hmax : n < 0x110000 := by
    rcases h with h | h
    · omega
    · exact h.2
  have hn : n < 2 ^ 32 := by omega
  have hlast : ((0x80 : UInt32) ||| (UInt32.ofNat n &&& 0x3F)).toUInt8 =
      UInt8.ofNat (n % 0x40 + 0x80) :=
    toUInt8_or (i := 6) (k := 2) rfl (toNat_and_ofNat (k := 6) hn (by decide))
      (Nat.mod_lt _ (by decide))
  have hsix : ((0x80 : UInt32) ||| ((UInt32.ofNat n >>> 6) &&& 0x3F)).toUInt8 =
      UInt8.ofNat (n / 64 % 0x40 + 0x80) :=
    toUInt8_or (i := 6) (k := 2) rfl
      (toNat_shift_and (i := 6) (k := 6) hn (by decide) (by decide))
      (Nat.mod_lt _ (by decide))
  have htwelve :
      ((0x80 : UInt32) ||| ((UInt32.ofNat n >>> 12) &&& 0x3F)).toUInt8 =
        UInt8.ofNat (n / 4096 % 0x40 + 0x80) :=
    toUInt8_or (i := 6) (k := 2) rfl
      (toNat_shift_and (i := 12) (k := 6) hn (by decide) (by decide))
      (Nat.mod_lt _ (by decide))
  have hle := fun {k : ℕ} (hk : k < UInt32.size) =>
    UInt32.ofNat_le_iff_le (a := n) hn hk
  have h₁ : UInt32.ofNat n ≤ 0x7F ↔ n ≤ 0x7F := hle (by decide)
  have h₂ : UInt32.ofNat n ≤ 0x7FF ↔ n ≤ 0x7FF := hle (by decide)
  have h₃ : UInt32.ofNat n ≤ 0xFFFF ↔ n ≤ 0xFFFF := hle (by decide)
  have h₄ : UInt32.ofNat n ≤ 0x10FFFF ↔ n ≤ 0x10FFFF := hle (by decide)
  simp only [utf8, String.utf8EncodeChar, toNat_char_ofNat h, encode, h₁, h₂,
    h₃, h₄]
  -- the lead byte is masked by all its bits, so its range decides
  have hlead : ∀ {i j : ℕ}, i < 32 → n / 2 ^ i < 2 ^ j → j ≤ 8 →
      ((UInt32.ofNat n >>> UInt32.ofNat i) &&& UInt32.ofNat (2 ^ 8 - 1)).toNat =
        n / 2 ^ i % 2 ^ j := by
    intro i j hi hlt hj
    have hpow := Nat.pow_le_pow_right (n := 2) (by decide) hj
    rw [toNat_shift_and hn hi (by decide), Nat.mod_eq_of_lt hlt,
      Nat.mod_eq_of_lt (Nat.lt_of_lt_of_le hlt hpow)]
  split
  · have hbyte : (UInt32.ofNat n &&& 0xFF).toNat = n :=
      (toNat_and_ofNat (k := 8) hn (by decide)).trans
        (Nat.mod_eq_of_lt (by omega))
    congr 2
    rw [← UInt8.toNat_inj, UInt32.toNat_toUInt8, hbyte, UInt8.toNat_ofNat']
  split
  · have hfirst :
        ((0xC0 : UInt32) ||| ((UInt32.ofNat n >>> 6) &&& 0xFF)).toUInt8 =
          UInt8.ofNat (n / 64 % 0x20 + 0xC0) :=
      toUInt8_or (i := 5) (k := 6) rfl
        (hlead (i := 6) (j := 5) (by decide) (by omega) (by decide))
        (Nat.mod_lt _ (by decide))
    rw [hfirst, hlast]
  split
  · have hfirst :
        ((0xE0 : UInt32) ||| ((UInt32.ofNat n >>> 12) &&& 0xFF)).toUInt8 =
          UInt8.ofNat (n / 4096 % 0x10 + 0xE0) :=
      toUInt8_or (i := 4) (k := 14) rfl
        (hlead (i := 12) (j := 4) (by decide) (by omega) (by decide))
        (Nat.mod_lt _ (by decide))
    rw [hfirst, hsix, hlast]
  · have hfirst :
        ((0xF0 : UInt32) ||| ((UInt32.ofNat n >>> 18) &&& 0xFF)).toUInt8 =
          UInt8.ofNat (n / 262144 % 0x08 + 0xF0) :=
      toUInt8_or (i := 3) (k := 30) rfl
        (hlead (i := 18) (j := 3) (by decide) (by omega) (by decide))
        (Nat.mod_lt _ (by decide))
    rw [if_pos (by omega), hfirst, htwelve, hsix, hlast]

theorem surrogate_ofNat {n : ℕ} (hn : n < 65536) :
    (UInt32.ofNat n ≥ 0xD800 ∧ UInt32.ofNat n ≤ 0xDFFF ↔ Surrogate n) ∧
      (UInt32.ofNat n ≤ 0xDBFF ↔ n ≤ 0xDBFF) ∧
      (UInt32.ofNat n < 0xDC00 ∨ UInt32.ofNat n > 0xDFFF ↔
        ¬ (0xDC00 ≤ n ∧ n ≤ 0xDFFF)) := by
  have hsize : n < UInt32.size := Nat.lt_trans hn (by decide)
  have hle := fun {k : ℕ} (hk : k < UInt32.size) =>
    UInt32.ofNat_le_iff_le hsize hk
  have hge : UInt32.ofNat n ≥ 0xD800 ↔ 0xD800 ≤ n :=
    UInt32.ofNat_le_iff_le (a := 0xD800) (by decide) hsize
  have hhigh : UInt32.ofNat n ≤ 0xDBFF ↔ n ≤ 0xDBFF := hle (by decide)
  have hlast : UInt32.ofNat n ≤ 0xDFFF ↔ n ≤ 0xDFFF := hle (by decide)
  have hlow : UInt32.ofNat n < 0xDC00 ↔ n < 0xDC00 :=
    UInt32.ofNat_lt_iff_lt (b := 0xDC00) hsize (by decide)
  have hgt : UInt32.ofNat n > 0xDFFF ↔ 0xDFFF < n :=
    UInt32.ofNat_lt_iff_lt (a := 0xDFFF) (by decide) hsize
  rw [hge, hhigh, hlast, hlow, hgt, Surrogate]
  omega

theorem shift_or {x y : ℕ} (hx : x < 1024) (hy : y < 1024) :
    ((UInt32.ofNat x <<< 10) ||| UInt32.ofNat y) + 0x10000 =
      UInt32.ofNat (0x10000 + (x * 1024 + y)) := by
  have hshift : (UInt32.ofNat x <<< 10).toNat = 2 ^ 10 * x := by
    rw [UInt32.toNat_shiftLeft, UInt32.toNat_ofNat',
      Nat.mod_eq_of_lt (a := x) (by omega), Nat.shiftLeft_eq]
    show x * 2 ^ 10 % 2 ^ 32 = _
    omega
  have hor : ((UInt32.ofNat x <<< 10) ||| UInt32.ofNat y).toNat =
      x * 1024 + y := by
    rw [UInt32.toNat_or, hshift, UInt32.toNat_ofNat',
      Nat.mod_eq_of_lt (by omega), ← Nat.two_pow_add_eq_or_of_lt hy]
    omega
  rw [← UInt32.toNat_inj, UInt32.toNat_add, hor, UInt32.toNat_ofNat',
    Nat.add_comm]
  rfl

theorem pair_ofNat {n m : ℕ} (hhigh : 0xD800 ≤ n ∧ n ≤ 0xDBFF)
    (hlow : 0xDC00 ≤ m ∧ m ≤ 0xDFFF) :
    (((UInt32.ofNat n - 0xD800) <<< 10) ||| (UInt32.ofNat m - 0xDC00)) +
        0x10000 =
      UInt32.ofNat (0x10000 + ((n - 0xD800) * 1024 + (m - 0xDC00))) := by
  have hn : UInt32.ofNat n - 0xD800 = UInt32.ofNat (n - 0xD800) :=
    (UInt32.ofNat_sub hhigh.1).symm
  have hm : UInt32.ofNat m - 0xDC00 = UInt32.ofNat (m - 0xDC00) :=
    (UInt32.ofNat_sub hlow.1).symm
  rw [hn, hm]
  exact shift_or (by omega) (by omega)

theorem valid_unit {n : ℕ} (hn : n < 65536) (hunit : ¬ Surrogate n) :
    n.isValidChar := by
  unfold Surrogate at hunit
  unfold Nat.isValidChar
  omega

theorem valid_pair {n m : ℕ} (hhigh : 0xD800 ≤ n ∧ n ≤ 0xDBFF)
    (hlow : 0xDC00 ≤ m ∧ m ≤ 0xDFFF) :
    (0x10000 + ((n - 0xD800) * 1024 + (m - 0xDC00))).isValidChar := by
  unfold Nat.isValidChar
  omega

/-! ## §4  Strings -/

theorem readPiece_quote (rest : List UInt8) :
    readPiece (quotationMark :: rest) = .ok (none, rest) :=
  rfl

theorem readPiece_unicode (t : List UInt8) :
    readPiece (reverseSolidus :: letterU :: t) = (do
      let r ← parseHex4 (t.length + 2) 4 0 t
      let r ← parseSurrogate (t.length + 2) r.1 r.2
      let bytes ← encode r.1
      .ok (some bytes, r.2)) :=
  rfl

/-- **A character as it is written** is taken as it stands. -/
theorem readPiece_piece {t s : List UInt8} (h : Piece t s)
    (rest : List UInt8) : readPiece (t ++ rest) = .ok (some s, rest) := by
  cases h with
  | @plain b hcontrol hquote hsolidus =>
      have hlow : ¬ b < 32 := UInt8.not_lt.mpr hcontrol
      show readPiece (b :: rest) = _
      rw [readPiece]
      show (if b = reverseSolidus then _ else _) = _
      rw [if_neg hsolidus]
      show (if b = quotationMark then _ else _) = _
      rw [if_neg hquote]
      show (if b < 32 then _ else _) = _
      rw [if_neg hlow]
      rfl
  | @short c b hc =>
      have hesc : escapeTable.getD c.toNat 0 = b := by
        rw [(escapeTable_eq c).1, hc]
        rfl
      have hb : b ≠ 0 := by
        rintro rfl
        exact (escapeTable_eq c).2 hc
      show (if escapeTable.getD c.toNat 0 ≠ 0 then
        Except.ok (some [escapeTable.getD c.toNat 0], rest) else _) = _
      rw [hesc, if_pos hb]
  | @unit a b c d n hn hunit =>
      have hlt := hex4_lt hn
      show readPiece (reverseSolidus :: letterU :: a :: b :: c :: d :: rest) = _
      rw [readPiece_unicode, parseHex4_hex4 hn, ok_bind, parseSurrogate,
        if_neg (fun h => hunit ((surrogate_ofNat hlt).1.mp h)), ok_bind,
        encode_eq (valid_unit hlt hunit)]
      rfl
  | @pair a b c d a' b' c' d' n m hn hm hhigh hlow =>
      have hlt := hex4_lt hn
      show readPiece (reverseSolidus :: letterU :: a :: b :: c :: d ::
        reverseSolidus :: letterU :: a' :: b' :: c' :: d' :: rest) = _
      rw [readPiece_unicode, parseHex4_hex4 hn, ok_bind, parseSurrogate,
        if_pos ((surrogate_ofNat hlt).1.mpr ⟨by omega, by omega⟩),
        if_pos ((surrogate_ofNat hlt).2.1.mpr hhigh.2), consume_cons,
        Option.bind_some, consume_cons]
      simp only [parseHex4_hex4 hm, ok_bind]
      rw [if_neg (fun h => (surrogate_ofNat (hex4_lt hm)).2.2.mp h hlow),
        ok_bind, pair_ofNat hhigh hlow,
        encode_eq (valid_pair hhigh hlow)]
      rfl

/-- The unit is a character by itself, or the first half of one whose second
half follows. -/
theorem parseSurrogate_outcome (e : ℕ) {n : ℕ} (hn : n < 65536)
    (src : List UInt8) :
    Outcome e (fun r => (¬ Surrogate n ∧ r = (UInt32.ofNat n, src)) ∨
        ∃ a b c d m, hex4 a b c d = some m ∧
          (0xD800 ≤ n ∧ n ≤ 0xDBFF) ∧ (0xDC00 ≤ m ∧ m ≤ 0xDFFF) ∧
          src = reverseSolidus :: letterU :: a :: b :: c :: d :: r.2 ∧
          r.1 = UInt32.ofNat (0x10000 + ((n - 0xD800) * 1024 + (m - 0xDC00))))
      (parseSurrogate e (UInt32.ofNat n) src) := by
  obtain ⟨hsurrogate, hhigh, -⟩ := surrogate_ofNat hn
  rw [parseSurrogate]
  split
  · rename_i hs
    have hfirst := (hsurrogate.mp hs).1
    split
    · rename_i hh
      have hlast := hhigh.mp hh
      split
      · exact Nat.le_refl e
      · rename_i src' hsrc
        obtain ⟨src₁, h₁, h₂⟩ := Option.bind_eq_some_iff.mp hsrc
        have hsrc : src = reverseSolidus :: letterU :: src' := by
          rw [consume_eq_some (by decide) h₁, consume_eq_some (by decide) h₂]
        apply (parseHex4_outcome e src').bind
        rintro ⟨m', rest⟩ ⟨a, b, c, d, m, hsrc', hm, hm'⟩
        obtain rfl : m' = UInt32.ofNat m := hm'
        obtain ⟨-, -, hlow⟩ := surrogate_ofNat (hex4_lt hm)
        show Outcome e _ (if _ then _ else _)
        split
        · exact Nat.le_refl e
        · rename_i hl
          have hm' := not_not.mp (fun h => hl (hlow.mpr h))
          refine Or.inr ⟨a, b, c, d, m, hm, ⟨hfirst, hlast⟩, hm', ?_, ?_⟩
          · rw [hsrc, hsrc']
          · exact pair_ofNat ⟨hfirst, hlast⟩ hm'
    · exact Nat.le_refl e
  · rename_i hs
    exact Or.inl ⟨fun h => hs (hsurrogate.mpr h), rfl⟩

/-- **A turn of the loop** takes the closing quotation mark or one character. -/
theorem readPiece_outcome (src : List UInt8) :
    Outcome src.length (fun r => (r.1 = none ∧ src = quotationMark :: r.2) ∨
        ∃ t s, r.1 = some s ∧ Piece t s ∧ src = t ++ r.2) (readPiece src) := by
  by_cases hsolidus : peek src = reverseSolidus
  · obtain ⟨tail, rfl⟩ : ∃ tail, src = reverseSolidus :: tail :=
      ⟨_, cons_of_peek (by decide) hsolidus⟩
    obtain ⟨hescape, hnul⟩ := escapeTable_eq (peek tail)
    by_cases hshort : escapeTable.getD (peek tail).toNat 0 ≠ 0
    · have hread : readPiece (reverseSolidus :: tail) =
          .ok (some [escapeTable.getD (peek tail).toNat 0], tail.tail) :=
        if_pos hshort
      rw [hread]
      cases hc : unescape (peek tail) with
      | none =>
          rw [hescape, hc] at hshort
          exact absurd rfl hshort
      | some b =>
          have hpeek : peek tail ≠ 0 := by
            intro h
            rw [h] at hc
            cases hc
          refine Or.inr ⟨[reverseSolidus, peek tail], [b], ?_, .short hc, ?_⟩
          · rw [hescape, hc]
            rfl
          · exact congrArg (reverseSolidus :: ·) (cons_of_peek hpeek rfl)
    by_cases hu : peek tail = letterU
    · obtain ⟨t, rfl⟩ : ∃ t, tail = letterU :: t :=
        ⟨_, cons_of_peek (by decide) hu⟩
      rw [readPiece_unicode]
      apply (parseHex4_outcome _ t).bind
      rintro ⟨n', rest⟩ ⟨a, b, c, d, n, rfl, hn, hn'⟩
      obtain rfl : n' = UInt32.ofNat n := hn'
      apply (parseSurrogate_outcome _ (hex4_lt hn) rest).bind
      rintro r (⟨hunit, rfl⟩ | ⟨a', b', c', d', m, hm, hhigh, hlow, hrest, hr⟩)
      · show Outcome _ _ (encode (UInt32.ofNat n) >>= fun bytes =>
          .ok (some bytes, rest))
        rw [encode_eq (valid_unit (hex4_lt hn) hunit), ok_bind]
        exact Or.inr ⟨_, _, rfl, .unit hn hunit, rfl⟩
      · rw [hr, encode_eq (valid_pair hhigh hlow), ok_bind, hrest]
        exact Or.inr ⟨_, _, rfl, .pair hn hm hhigh hlow, rfl⟩
    · have hread : readPiece (reverseSolidus :: tail) =
          .error (.parseError kParseErrorStringEscapeInvalid
            (reverseSolidus :: tail).length) :=
        (if_neg hshort).trans (if_neg hu)
      rw [hread]
      exact Nat.le_refl _
  rw [readPiece]
  show Outcome _ _ (if peek src = reverseSolidus then _ else _)
  rw [if_neg hsolidus]
  split
  · rename_i hquote
    exact Or.inl ⟨rfl, cons_of_peek (by decide) hquote⟩
  rename_i hquote
  split
  · exact Nat.le_refl _
  · rename_i hlow
    have hcontrol : 32 ≤ peek src := UInt8.not_lt.mp hlow
    have hpeek : peek src ≠ 0 := by
      intro h
      rw [h] at hcontrol
      exact absurd hcontrol (by decide)
    exact Or.inr ⟨[peek src], [peek src], rfl,
      .plain hcontrol hquote hsolidus, cons_of_peek hpeek rfl⟩

/-! ## §5  Whole strings -/

theorem parseStringToStream_chars {u s : List UInt8} (h : Chars u s) :
    ∀ (fuel : ℕ) (out rest : List UInt8), u.length < fuel →
      parseStringToStream fuel (u ++ quotationMark :: rest) out =
        .ok (out ++ s, rest) := by
  induction h with
  | nil =>
      intro fuel out rest hfuel
      cases fuel with
      | zero => exact absurd hfuel (Nat.not_lt_zero _)
      | succ fuel =>
          rw [List.nil_append, parseStringToStream, readPiece_quote, ok_bind,
            List.append_nil]
  | @cons t s u r hpiece h ih =>
      intro fuel out rest hfuel
      have hpos := hpiece.length_pos
      rw [List.length_append] at hfuel
      cases fuel with
      | zero => exact absurd hfuel (Nat.not_lt_zero _)
      | succ fuel =>
          rw [List.append_assoc, parseStringToStream, readPiece_piece hpiece,
            ok_bind]
          show parseStringToStream fuel _ (out ++ s) = _
          rw [ih fuel (out ++ s) rest (by omega), List.append_assoc]

theorem parseStringToStream_outcome : ∀ (fuel : ℕ) (src out : List UInt8),
    src.length < fuel →
      Outcome src.length (fun r => ∃ u s, Chars u s ∧
          src = u ++ quotationMark :: r.2 ∧ r.1 = out ++ s)
        (parseStringToStream fuel src out) := by
  intro fuel
  induction fuel with
  | zero =>
      intro src out hfuel
      exact absurd hfuel (Nat.not_lt_zero _)
  | succ fuel ih =>
      intro src out hfuel
      rw [parseStringToStream]
      apply (readPiece_outcome src).bind
      rintro ⟨piece, rest⟩ (⟨hnone, hsrc⟩ | ⟨t, s, hsome, hpiece, hsrc⟩)
      · obtain rfl : piece = none := hnone
        exact ⟨[], [], .nil, hsrc, (List.append_nil out).symm⟩
      · obtain rfl : piece = some s := hsome
        have hpos := hpiece.length_pos
        have hlen : src.length = t.length + rest.length := by
          rw [hsrc, List.length_append]
        apply (ih rest (out ++ s) (by omega)).imp (by omega)
        rintro r ⟨u, s', hchars, hrest, hout⟩
        refine ⟨t ++ u, s ++ s', .cons hpiece hchars, ?_, ?_⟩
        · rw [hsrc, hrest, List.append_assoc]
        · rw [hout, List.append_assoc]

theorem copying_str {s t : List UInt8} (h : Str s t) (rest : List UInt8) :
    copying.parseString () (t ++ rest) = .ok (s, (), rest) := by
  obtain ⟨u, hchars, rfl⟩ := h
  have hsplit : quotationMark :: (u ++ [quotationMark]) ++ rest =
      quotationMark :: (u ++ quotationMark :: rest) := by simp
  have hread := parseStringToStream_chars hchars
    (quotationMark :: (u ++ quotationMark :: rest)).length [] rest
    (by rw [List.length_cons, List.length_append]; omega)
  rw [hsplit]
  show (parseStringToStream _ (u ++ quotationMark :: rest) [] >>= _) = _
  rw [hread]
  rfl

theorem copying_outcome {src : List UInt8} (h : peek src = quotationMark) :
    Outcome src.length (fun r => ∃ t, Str r.1 t ∧ src = t ++ r.2.2)
      (copying.parseString () src) := by
  obtain ⟨tail, rfl⟩ : ∃ tail, src = quotationMark :: tail :=
    ⟨_, cons_of_peek (by decide) h⟩
  show Outcome _ _ (parseStringToStream (quotationMark :: tail).length tail [] >>= _)
  have hlen := @List.length_cons _ quotationMark tail
  apply ((parseStringToStream_outcome _ tail [] (by omega)).imp (by omega)
    (fun _ h => h)).bind
  rintro r ⟨u, s, hchars, htail, hout⟩
  refine ⟨quotationMark :: (u ++ [quotationMark]), ⟨u, ?_, rfl⟩, ?_⟩
  · show Chars u r.1
    rw [hout]
    exact hchars
  · rw [htail]
    simp

end Reader

end AWRPC
