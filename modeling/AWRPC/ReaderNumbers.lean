import AWRPC.ReaderStrings

/-!
# The numbers of the reader

The two digit loops are one loop on natural numbers that stops before a limit;
whatever it leaves, the integer part is taken whole. A number is read exactly
where the grammar has one, in the first integer type that it fits into.
-/

namespace AWRPC

open Bytes Decimal Json JsonGrammar

namespace Reader

open ParseErrorCode

/-! ## §1  Digits -/

/-- The number `n` with more digits behind it. -/
def readDigits (n : ℕ) (ds : List UInt8) : ℕ :=
  ds.foldl (fun n b => 10 * n + (b.toNat - 48)) n

theorem le_readDigits (n : ℕ) (ds : List UInt8) : n ≤ readDigits n ds := by
  induction ds generalizing n with
  | nil => exact Nat.le_refl n
  | cons d ds ih =>
      have h := ih (10 * n + (d.toNat - 48))
      rw [readDigits, List.foldl_cons]
      rw [readDigits] at h
      omega

/-- The two loops over the digits, on numbers: stop before `limit` is passed. -/
def digitsUpTo (limit : ℕ) (n : ℕ) : List UInt8 → ℕ × Bool × List UInt8
  | [] => (n, false, [])
  | c :: src =>
      if isDigit c then
        if limit < 10 * n + (c.toNat - 48) then (n, true, c :: src)
        else digitsUpTo limit (10 * n + (c.toNat - 48)) src
      else (n, false, c :: src)

theorem isDigit_iff {b : UInt8} :
    isDigit b = true ↔ 48 ≤ b.toNat ∧ b.toNat ≤ 57 := by
  rw [isDigit, Bool.and_eq_true, decide_eq_true_eq, decide_eq_true_eq,
    UInt8.le_iff_toNat_le, UInt8.le_iff_toNat_le]
  rfl

/-- A loop over the digits in words of type `U`, up to `most * 10 + last`, is the
one on numbers, where the words hold the limit. -/
theorem digits_eq {U : Type} {ofNat : ℕ → U}
    {loop : U → List UInt8 → U × Bool × List UInt8} {most limit bound : ℕ}
    {last : UInt8} (hnil : ∀ i, loop i [] = (i, false, []))
    (hcons : ∀ n < bound, ∀ c src, loop (ofNat n) (c :: src) =
      if isDigit c then
        if most ≤ n ∧ (n ≠ most ∨ last < c) then (ofNat n, true, c :: src)
        else loop (ofNat (n * 10 + (c - 48).toNat)) src
      else (ofNat n, false, c :: src))
    (hlimit : 10 * most + (last.toNat - 48) = limit)
    (hlast : isDigit last = true) (hmax : limit < bound) :
    ∀ (src : List UInt8) {n : ℕ}, n ≤ limit →
      loop (ofNat n) src =
        (ofNat (digitsUpTo limit n src).1, (digitsUpTo limit n src).2) := by
  intro src
  induction src with
  | nil =>
      intro n hn
      exact hnil _
  | cons c src ih =>
      intro n hn
      rw [hcons n (Nat.lt_of_le_of_lt hn hmax), digitsUpTo]
      split
      · rename_i hc
        have hd := isDigit_iff.mp hc
        have hl := isDigit_iff.mp hlast
        -- the comparison with `most` and `last` is one with `limit`
        have hstop : (most ≤ n ∧ (n ≠ most ∨ last < c)) ↔
            limit < 10 * n + (c.toNat - 48) := by
          rw [UInt8.lt_iff_toNat_lt]
          omega
        have hsub : (c - 48).toNat = c.toNat - 48 :=
          UInt8.toNat_sub_of_le _ _ (UInt8.le_iff_toNat_le.mpr hd.1)
        rw [hsub, Nat.mul_comm n 10]
        simp only [hstop]
        split
        · rfl
        · rename_i hgo
          exact ih (Nat.le_of_not_lt hgo)
      · rfl

theorem digits32_eq {most : UInt32} {last : UInt8} {limit : ℕ}
    (hlimit : 10 * most.toNat + (last.toNat - 48) = limit)
    (hlast : isDigit last = true) (hmax : limit < 2 ^ 32) :
    ∀ (src : List UInt8) {n : ℕ}, n ≤ limit →
      digits32 most last (UInt32.ofNat n) src =
        (UInt32.ofNat (digitsUpTo limit n src).1, (digitsUpTo limit n src).2) := by
  refine digits_eq (fun _ => rfl) (fun n hn c src => ?_) hlimit hlast hmax
  have hnat : (UInt32.ofNat n).toNat = n := UInt32.toNat_ofNat_of_lt' hn
  have hnext : UInt32.ofNat n * 10 + (c - 48).toUInt32 =
      UInt32.ofNat (n * 10 + (c - 48).toNat) := by
    rw [UInt32.ofNat_add, UInt32.ofNat_mul, ← UInt8.toNat_toUInt32,
      UInt32.ofNat_toNat]
    rfl
  have hstop : UInt32.ofNat n ≥ most ∧ (UInt32.ofNat n ≠ most ∨ c > last) ↔
      most.toNat ≤ n ∧ (n ≠ most.toNat ∨ last < c) := by
    rw [ge_iff_le, UInt32.le_iff_toNat_le, Ne, ← UInt32.toNat_inj, hnat]
  rw [digits32, hnext]
  simp only [hstop]

theorem digits64_eq {most : UInt64} {last : UInt8} {limit : ℕ}
    (hlimit : 10 * most.toNat + (last.toNat - 48) = limit)
    (hlast : isDigit last = true) (hmax : limit < 2 ^ 64) :
    ∀ (src : List UInt8) {n : ℕ}, n ≤ limit →
      digits64 most last (UInt64.ofNat n) src =
        (UInt64.ofNat (digitsUpTo limit n src).1, (digitsUpTo limit n src).2) := by
  refine digits_eq (fun _ => rfl) (fun n hn c src => ?_) hlimit hlast hmax
  have hnat : (UInt64.ofNat n).toNat = n := UInt64.toNat_ofNat_of_lt' hn
  have hnext : UInt64.ofNat n * 10 + (c - 48).toUInt64 =
      UInt64.ofNat (n * 10 + (c - 48).toNat) := by
    rw [UInt64.ofNat_add, UInt64.ofNat_mul, ← UInt8.toNat_toUInt64,
      UInt64.ofNat_toNat]
    rfl
  have hstop : UInt64.ofNat n ≥ most ∧ (UInt64.ofNat n ≠ most ∨ c > last) ↔
      most.toNat ≤ n ∧ (n ≠ most.toNat ∨ last < c) := by
    rw [ge_iff_le, UInt64.le_iff_toNat_le, Ne, ← UInt64.toNat_inj, hnat]
  rw [digits64, hnext]
  simp only [hstop]

/-- The loop takes a front `a` of the digits: all of them, or as many as stay
within the limit. -/
theorem digitsUpTo_split (limit : ℕ) : ∀ (src : List UInt8) {n : ℕ}, n ≤ limit →
    ∃ a b, src.takeWhile isDigit = a ++ b ∧
      (digitsUpTo limit n src).1 = readDigits n a ∧ readDigits n a ≤ limit ∧
      (digitsUpTo limit n src).2.2 = b ++ src.dropWhile isDigit ∧
      ((digitsUpTo limit n src).2.1 = false ∧ b = [] ∨
        (digitsUpTo limit n src).2.1 = true ∧ limit < readDigits n (a ++ b)) := by
  intro src
  induction src with
  | nil =>
      intro n hn
      exact ⟨[], [], rfl, rfl, hn, rfl, Or.inl ⟨rfl, rfl⟩⟩
  | cons c src ih =>
      intro n hn
      rw [digitsUpTo]
      by_cases hc : isDigit c = true
      · rw [if_pos hc, List.takeWhile_cons_of_pos hc,
          List.dropWhile_cons_of_pos hc]
        split
        · rename_i hstop
          have hgrow := le_readDigits (10 * n + (c.toNat - 48))
            (src.takeWhile isDigit)
          refine ⟨[], c :: src.takeWhile isDigit, rfl, rfl, hn, ?_,
            Or.inr ⟨rfl, Nat.lt_of_lt_of_le hstop hgrow⟩⟩
          rw [List.cons_append, List.takeWhile_append_dropWhile]
        · rename_i hgo
          obtain ⟨a, b, htake, hn', hle, hdrop, hend⟩ :=
            ih (Nat.le_of_not_lt hgo)
          exact ⟨c :: a, b, congrArg (c :: ·) htake, hn', hle, hdrop, hend⟩
      · rw [if_neg hc, List.takeWhile_cons_of_neg hc,
          List.dropWhile_cons_of_neg hc]
        exact ⟨[], [], rfl, rfl, hn, rfl, Or.inl ⟨rfl, rfl⟩⟩

/-! ## §2  Integer parts -/

/-- The type that the value of an integer part fits into. -/
def significand (minus : Bool) (m : ℕ) : Significand :=
  if m ≤ (if minus then 2147483648 else 4294967295) then
    .unsigned (UInt32.ofNat m)
  else if m ≤ (if minus then 9223372036854775808 else 18446744073709551615) then
    .unsigned64 (UInt64.ofNat m)
  else .tooLong

theorem digits32_limit (minus : Bool) {n : ℕ} (hn : n ≤ 2147483648)
    (src : List UInt8) :
    (if minus then digits32 214748364 56 (UInt32.ofNat n) src
      else digits32 429496729 53 (UInt32.ofNat n) src) =
      (UInt32.ofNat (digitsUpTo (if minus then 2147483648 else 4294967295) n src).1,
        (digitsUpTo (if minus then 2147483648 else 4294967295) n src).2) := by
  cases minus with
  | true => exact digits32_eq rfl (by decide) (by decide) src hn
  | false => exact digits32_eq rfl (by decide) (by decide) src (Nat.le_trans hn (by decide))

theorem digits64_limit (minus : Bool) {n : ℕ} (hn : n ≤ 4294967295)
    (src : List UInt8) :
    (if minus then digits64 0x0CCCCCCCCCCCCCCC 56 (UInt64.ofNat n) src
      else digits64 0x1999999999999999 53 (UInt64.ofNat n) src) =
      (UInt64.ofNat (digitsUpTo
          (if minus then 9223372036854775808 else 18446744073709551615) n src).1,
        (digitsUpTo
          (if minus then 9223372036854775808 else 18446744073709551615) n src).2) := by
  cases minus with
  | true => exact digits64_eq rfl (by decide) (by decide) src (Nat.le_trans hn (by decide))
  | false => exact digits64_eq rfl (by decide) (by decide) src (Nat.le_trans hn (by decide))

theorem takeWhile_of_digit {src : List UInt8}
    (h : isDigit (peek src) = true) :
    src.takeWhile isDigit = peek src :: src.tail.takeWhile isDigit := by
  have hnul : peek src ≠ 0 := by
    intro hzero
    rw [hzero] at h
    exact absurd h (by decide)
  rw [← List.takeWhile_cons_of_pos h, ← cons_of_peek hnul rfl]

theorem takeWhile_ne_nil {src : List UInt8} (h : isDigit (peek src) = true) :
    src.takeWhile isDigit ≠ [] := by
  rw [takeWhile_of_digit h]
  exact List.cons_ne_nil _ _

/-- **The integer part** is taken whole, whatever type its value fits into. -/
theorem parseInt_digits (minus : Bool) (src : List UInt8)
    (hdigit : isDigit (peek src) = true) (hzero : peek src ≠ 48) :
    parseInt minus src = .ok
      (significand minus (value (src.takeWhile isDigit)),
        src.dropWhile isDigit) := by
  have hd := isDigit_iff.mp hdigit
  have hnat : peek src ≠ 0 := by
    intro h
    rw [h] at hdigit
    exact absurd hdigit (by decide)
  obtain ⟨d, tail, rfl⟩ : ∃ d tail, src = d :: tail :=
    ⟨_, _, cons_of_peek hnat rfl⟩
  have hpeek : peek (d :: tail) = d := rfl
  rw [hpeek] at hd hdigit hzero
  have hfirst : (d - 48).toUInt32 = UInt32.ofNat (d.toNat - 48) := by
    have hsub : (d - 48).toNat = d.toNat - 48 :=
      UInt8.toNat_sub_of_le _ _ (UInt8.le_iff_toNat_le.mpr hd.1)
    rw [← UInt32.toNat_inj, UInt8.toNat_toUInt32, hsub, UInt32.toNat_ofNat',
      Nat.mod_eq_of_lt (by omega)]
  have hrange : 49 ≤ d ∧ d ≤ 57 := by
    have hne : d.toNat ≠ 48 := fun h => hzero (UInt8.toNat_inj.mp h)
    rw [UInt8.le_iff_toNat_le, UInt8.le_iff_toNat_le]
    show 49 ≤ d.toNat ∧ d.toNat ≤ 57
    omega
  have hvalue : value ((d :: tail).takeWhile isDigit) =
      readDigits (d.toNat - 48) (tail.takeWhile isDigit) := by
    rw [List.takeWhile_cons_of_pos hdigit, value, List.foldl_cons, readDigits]
    show List.foldl _ (10 * 0 + (d.toNat - 48)) _ = _
    rw [Nat.mul_zero, Nat.zero_add]
  rw [hvalue, List.dropWhile_cons_of_pos hdigit]
  -- the first loop, and where it stops the second one
  obtain ⟨a, b, htake, hn, hle, hleft, hend⟩ := digitsUpTo_split
    (if minus then 2147483648 else 4294967295) tail
    (n := d.toNat - 48) (by split <;> omega)
  rw [parseInt]
  simp only [hpeek, if_neg hzero, if_pos hrange, hfirst, List.tail_cons,
    digits32_limit minus (n := d.toNat - 48) (by omega), hn, hleft]
  rcases hend with ⟨hstop, rfl⟩ | ⟨hstop, hover⟩
  · rw [if_neg (by rw [hstop]; exact Bool.false_ne_true)]
    rw [List.append_nil] at htake
    rw [htake, significand, if_pos hle, List.nil_append]
  · rw [if_pos hstop]
    have hbound : readDigits (d.toNat - 48) a ≤ 4294967295 :=
      Nat.le_trans hle (by cases minus <;> decide)
    have hwide : (UInt32.ofNat (readDigits (d.toNat - 48) a)).toUInt64 =
        UInt64.ofNat (readDigits (d.toNat - 48) a) := by
      rw [← UInt64.toNat_inj, UInt32.toNat_toUInt64, UInt32.toNat_ofNat',
        UInt64.toNat_ofNat', Nat.mod_eq_of_lt (by omega),
        Nat.mod_eq_of_lt (by omega)]
    have hb : Digits b := by
      intro c hc
      apply digits_takeWhile tail
      rw [htake]
      exact List.mem_append_right a hc
    obtain ⟨hb₁, hb₂⟩ := hb.span (ends_dropWhile tail)
    obtain ⟨a', b', htake', hn', hle', hleft', hend'⟩ := digitsUpTo_split
      (if minus then 9223372036854775808 else 18446744073709551615)
      (b ++ tail.dropWhile isDigit) (n := readDigits (d.toNat - 48) a)
      (Nat.le_trans hbound (by cases minus <;> decide))
    rw [hb₁] at htake'
    rw [hb₂] at hleft'
    have hmore : readDigits (d.toNat - 48) (a ++ b) =
        readDigits (readDigits (d.toNat - 48) a) b :=
      List.foldl_append
    rw [htake, significand, if_neg (Nat.not_le.mpr hover), hmore, hwide,
      digits64_limit minus hbound]
    rcases hend' with ⟨hstop', rfl⟩ | ⟨hstop', hover'⟩
    · rw [List.append_nil] at htake'
      simp only [hstop', hn', hleft', List.nil_append, Bool.false_eq_true,
        if_false]
      rw [htake', if_pos hle']
    · have hb' : Digits b' := fun c hc =>
        hb c (htake' ▸ List.mem_append_right a' hc)
      simp only [hstop', hleft', if_true,
        (hb'.span (ends_dropWhile tail)).2]
      rw [htake', if_neg (Nat.not_le.mpr hover')]

theorem parseInt_zero (minus : Bool) (rest : List UInt8) :
    parseInt minus (48 :: rest) = .ok (significand minus 0, rest) := by
  cases minus with
  | true => rfl
  | false => rfl

theorem parseInt_outcome (minus : Bool) (src : List UInt8) :
    Outcome src.length (fun r => ∃ t, IntPart t ∧ src = t ++ r.2 ∧
        r.1 = significand minus (value t)) (parseInt minus src) := by
  by_cases hzero : peek src = 48
  · obtain ⟨rest, rfl⟩ : ∃ rest, src = 48 :: rest :=
      ⟨_, cons_of_peek (by decide) hzero⟩
    rw [parseInt_zero]
    exact ⟨[48], Or.inl rfl, rfl, rfl⟩
  by_cases hdigit : isDigit (peek src) = true
  · rw [parseInt_digits minus _ hdigit hzero]
    have hdigits := digits_takeWhile src
    refine ⟨src.takeWhile isDigit, Or.inr ?_,
      List.takeWhile_append_dropWhile.symm, rfl⟩
    rw [takeWhile_of_digit hdigit] at hdigits
    exact ⟨_, _, takeWhile_of_digit hdigit, hzero, hdigits⟩
  · have hrange : ¬ (49 ≤ peek src ∧ peek src ≤ 57) := by
      rintro ⟨hlo, hhi⟩
      apply hdigit
      rw [isDigit, Bool.and_eq_true, decide_eq_true_eq, decide_eq_true_eq]
      exact ⟨UInt8.le_trans (by decide) hlo, hhi⟩
    rw [parseInt]
    simp only [if_neg hzero, if_neg hrange]
    exact Nat.le_refl _

theorem parseInt_intPart (minus : Bool) {t : List UInt8} (h : IntPart t)
    {rest : List UInt8} (hrest : Ends rest) :
    parseInt minus (t ++ rest) = .ok (significand minus (value t), rest) := by
  rcases h with rfl | ⟨d, ds, rfl, hd, hdigits⟩
  · exact parseInt_zero minus rest
  · have hspan := hdigits.span hrest
    rw [parseInt_digits minus (d :: ds ++ rest)
      (hdigits d List.mem_cons_self) hd, hspan.1, hspan.2]

/-! ## §3  Fractions and exponents -/

theorem parseFrac_outcome (src : List UInt8) :
    Outcome src.length (fun r => ∃ t, FracPart t ∧ src = t ++ r.2 ∧
        (r.1 = false ↔ t = [])) (parseFrac src) := by
  rw [parseFrac]
  split
  · exact ⟨[], Or.inl rfl, rfl, iff_of_true rfl rfl⟩
  rename_i rest hpoint
  obtain rfl := consume_eq_some (by decide) hpoint
  split
  · rename_i hdigit
    refine ⟨46 :: rest.takeWhile isDigit,
      Or.inr ⟨_, rfl, takeWhile_ne_nil hdigit, digits_takeWhile rest⟩, ?_,
      iff_of_false (Bool.noConfusion) (List.cons_ne_nil _ _)⟩
    rw [List.cons_append, List.takeWhile_append_dropWhile]
  · exact Nat.le_succ _

theorem parseFrac_fracPart {t : List UInt8} (h : FracPart t)
    {rest : List UInt8} (hrest : Ends rest) (hpoint : rest.head? ≠ some 46) :
    parseFrac (t ++ rest) = .ok (decide (t ≠ []), rest) := by
  rcases h with rfl | ⟨ds, rfl, hds, hdigits⟩
  · have hnone : consume 46 rest = none := by
      cases rest with
      | nil => rfl
      | cons b rest =>
          exact consume_of_ne (fun hb => hpoint (congrArg some hb)) rest
    rw [List.nil_append, parseFrac, hnone]
    rfl
  · obtain ⟨d, ds, rfl⟩ := List.exists_cons_of_ne_nil hds
    have hd : isDigit (peek (d :: ds ++ rest)) = true :=
      hdigits d List.mem_cons_self
    rw [List.cons_append, parseFrac, consume_cons]
    show (if isDigit (peek (d :: ds ++ rest)) then _ else _) = _
    rw [if_pos hd, (hdigits.span hrest).2]
    rfl

theorem parseExp_outcome (src : List UInt8) :
    Outcome src.length (fun r => ∃ t, ExpPart t ∧ src = t ++ r.2 ∧
        (r.1 = false ↔ t = [])) (parseExp src) := by
  rw [parseExp]
  split
  · exact ⟨[], Or.inl rfl, rfl, iff_of_true rfl rfl⟩
  rename_i rest hletter
  obtain ⟨e, he, rfl⟩ : ∃ e, (e = 101 ∨ e = 69) ∧ src = e :: rest := by
    rcases Option.or_eq_some_iff.mp hletter with h | ⟨-, h⟩
    · exact ⟨101, Or.inl rfl, consume_eq_some (by decide) h⟩
    · exact ⟨69, Or.inr rfl, consume_eq_some (by decide) h⟩
  obtain ⟨sign, hsign, hrest⟩ : ∃ sign : List UInt8,
      (sign = [] ∨ sign = [43] ∨ sign = [45]) ∧
        rest = sign ++ ((consume 43 rest).or (consume 45 rest)).getD rest := by
    cases hs : (consume 43 rest).or (consume 45 rest) with
    | none => exact ⟨[], Or.inl rfl, rfl⟩
    | some left =>
        rcases Option.or_eq_some_iff.mp hs with h | ⟨-, h⟩
        · exact ⟨[43], Or.inr (Or.inl rfl), consume_eq_some (by decide) h⟩
        · exact ⟨[45], Or.inr (Or.inr rfl), consume_eq_some (by decide) h⟩
  generalize ((consume 43 rest).or (consume 45 rest)).getD rest = left at hrest
  subst hrest
  simp only
  split
  · rename_i hdigit
    refine ⟨e :: (sign ++ left.takeWhile isDigit),
      Or.inr ⟨e, sign, _, rfl, he, hsign, takeWhile_ne_nil hdigit,
        digits_takeWhile left⟩, ?_,
      iff_of_false (Bool.noConfusion) (List.cons_ne_nil _ _)⟩
    rw [List.cons_append, List.append_assoc, List.takeWhile_append_dropWhile]
  · show left.length ≤ (e :: (sign ++ left)).length
    rw [List.length_cons, List.length_append]
    omega

theorem parseExp_expPart {t : List UInt8} (h : ExpPart t)
    {rest : List UInt8} (hrest : Ends rest) (hlower : rest.head? ≠ some 101)
    (hupper : rest.head? ≠ some 69) :
    parseExp (t ++ rest) = .ok (decide (t ≠ []), rest) := by
  rcases h with rfl | ⟨e, sign, ds, rfl, he, hsign, hds, hdigits⟩
  · have hnone : (consume 101 rest).or (consume 69 rest) = none := by
      cases rest with
      | nil => rfl
      | cons b rest =>
          rw [consume_of_ne (fun hb => hlower (congrArg some hb)),
            consume_of_ne (fun hb => hupper (congrArg some hb))]
          rfl
    rw [List.nil_append, parseExp, hnone]
    rfl
  · obtain ⟨d, ds, rfl⟩ := List.exists_cons_of_ne_nil hds
    have hd : isDigit d = true := hdigits d List.mem_cons_self
    have hne : ∀ {c : UInt8}, isDigit c = false → d ≠ c := by
      rintro c hc rfl
      rw [hc] at hd
      cases hd
    have hletter : (consume 101 (e :: (sign ++ d :: ds) ++ rest)).or
        (consume 69 (e :: (sign ++ d :: ds) ++ rest)) =
          some (sign ++ d :: ds ++ rest) := by
      rcases he with rfl | rfl
      · rfl
      · rfl
    have hleft : ((consume 43 (sign ++ d :: ds ++ rest)).or
        (consume 45 (sign ++ d :: ds ++ rest))).getD
          (sign ++ d :: ds ++ rest) = d :: ds ++ rest := by
      rcases hsign with rfl | rfl | rfl
      · show ((consume 43 (d :: (ds ++ rest))).or
          (consume 45 (d :: (ds ++ rest)))).getD _ = _
        rw [consume_of_ne (hne (by decide)), consume_of_ne (hne (by decide))]
        rfl
      · rfl
      · rfl
    rw [parseExp, hletter]
    simp only [hleft]
    show (if isDigit d then _ else _) = _
    rw [if_pos hd, (hdigits.span hrest).2]
    rfl

/-! ## §4  Numbers -/

section Numbers

variable {δ : Type}

/-- A whole number in the first of the integer types that it fits into. -/
def integer (minus : Bool) (m : ℕ) : Option (Number δ) :=
  if minus then
    if m ≤ 2 ^ 31 then some (.int (Int32.ofInt (-m)))
    else if m ≤ 2 ^ 63 then some (.int64 (Int64.ofInt (-m)))
    else none
  else if m < 2 ^ 32 then some (.uint (UInt32.ofNat m))
  else if m < 2 ^ 64 then some (.uint64 (UInt64.ofNat m))
  else none

/-- The number of a token: an integer where it is one and fits, else a double
where it is in range. -/
def tokenNumber (toDouble : List UInt8 → Option δ) (k : NumberToken) :
    Option (Number δ) :=
  (if k.frac = [] ∧ k.exp = [] then integer k.minus (value k.int)
    else none).or ((toDouble k.text).map .double)

def NumberText (toDouble : List UInt8 → Option δ) (t : List UInt8)
    (n : Number δ) : Prop :=
  ∃ k : NumberToken, k.text = t ∧ tokenNumber toDouble k = some n

theorem neg_ofNat32 (m : ℕ) :
    (~~~(UInt32.ofNat m) + 1).toInt32 = Int32.ofInt (-m) := by
  rw [← UInt32.neg_eq_not_add, Int32.ofInt_neg]
  apply Int32.toBitVec_inj.mp
  simp

theorem neg_ofNat64 (m : ℕ) :
    (~~~(UInt64.ofNat m) + 1).toInt64 = Int64.ofInt (-m) := by
  rw [← UInt64.neg_eq_not_add, Int64.ofInt_neg]
  apply Int64.toBitVec_inj.mp
  simp

theorem number_significand (minus : Bool) (m : ℕ) :
    (significand minus m).number minus = (integer minus m : Option (Number δ)) := by
  cases minus with
  | true =>
      show (if m ≤ 2147483648 then Significand.unsigned (UInt32.ofNat m)
        else if m ≤ 9223372036854775808 then .unsigned64 (UInt64.ofNat m)
        else .tooLong).number true = if m ≤ 2147483648 then _
          else if m ≤ 9223372036854775808 then _ else _
      split
      · show some (Number.int (~~~(UInt32.ofNat m) + 1).toInt32) = _
        rw [neg_ofNat32]
      split
      · show some (Number.int64 (~~~(UInt64.ofNat m) + 1).toInt64) = _
        rw [neg_ofNat64]
      · rfl
  | false =>
      have h₁ : m ≤ 4294967295 ↔ m < 2 ^ 32 := Nat.lt_succ_iff.symm
      have h₂ : m ≤ 18446744073709551615 ↔ m < 2 ^ 64 := Nat.lt_succ_iff.symm
      show (if m ≤ 4294967295 then Significand.unsigned (UInt32.ofNat m)
        else if m ≤ 18446744073709551615 then .unsigned64 (UInt64.ofNat m)
        else .tooLong).number false = if m < 2 ^ 32 then _
          else if m < 2 ^ 64 then _ else _
      by_cases h32 : m < 2 ^ 32
      · rw [if_pos (h₁.mpr h32), if_pos h32]
        rfl
      by_cases h64 : m < 2 ^ 64
      · rw [if_neg (fun h => h32 (h₁.mp h)), if_neg h32,
          if_pos (h₂.mpr h64), if_pos h64]
        rfl
      · rw [if_neg (fun h => h32 (h₁.mp h)), if_neg h32,
          if_neg (fun h => h64 (h₂.mp h)), if_neg h64]
        rfl

/-- What is done with the parts of a number once they are taken. -/
def finishNumber (toDouble : List UInt8 → Option δ) (k : NumberToken)
    (rest : List UInt8) : Except Stop (Number δ × List UInt8) :=
  match tokenNumber toDouble k with
  | some n => .ok (n, rest)
  | none => .error (.parseError kParseErrorNumberTooBig (k.text ++ rest).length)

theorem finishNumber_eq (toDouble : List UInt8 → Option δ) (k : NumberToken)
    (frac exp : Bool) (rest : List UInt8) (hfrac : frac = false ↔ k.frac = [])
    (hexp : exp = false ↔ k.exp = []) :
    (match (if frac || exp then none
        else (significand k.minus (value k.int)).number k.minus) with
      | some n => .ok (n, rest)
      | none =>
          match toDouble
              ((k.text ++ rest).take ((k.text ++ rest).length - rest.length)) with
          | some d => .ok (.double d, rest)
          | none =>
              .error (.parseError kParseErrorNumberTooBig
                (k.text ++ rest).length)) = finishNumber toDouble k rest := by
  have htake : (k.text ++ rest).take ((k.text ++ rest).length - rest.length) =
      k.text := by
    rw [List.length_append, Nat.add_sub_cancel, List.take_left]
  have hwhole : (if frac || exp then none
      else (significand k.minus (value k.int)).number k.minus) =
        if k.frac = [] ∧ k.exp = [] then
          (integer k.minus (value k.int) : Option (Number δ)) else none := by
    rw [number_significand]
    by_cases hw : k.frac = [] ∧ k.exp = []
    · rw [if_pos hw, hfrac.mpr hw.1, hexp.mpr hw.2]
      rfl
    · have hparts : (frac || exp) = true := by
        rw [Bool.or_eq_true, ← Bool.not_eq_false, ← Bool.not_eq_false, hfrac,
          hexp]
        exact not_and_or.mp hw
      rw [if_neg hw, if_pos hparts]
  rw [htake, hwhole, finishNumber, tokenNumber]
  generalize (if k.frac = [] ∧ k.exp = [] then
    (integer k.minus (value k.int) : Option (Number δ)) else none) = whole
  cases whole with
  | some n => rfl
  | none =>
      cases toDouble k.text with
      | some d => rfl
      | none => rfl

/-- **A number is read** as the grammar has it, or it is refused. -/
theorem parseNumber_outcome (toDouble : List UInt8 → Option δ)
    (src : List UInt8) :
    Outcome src.length (fun r => ∃ t, NumberText toDouble t r.1 ∧
        src = t ++ r.2) (parseNumber toDouble src) := by
  obtain ⟨minus, sign, hsign, hminus, hsrc, hsome⟩ : ∃ (minus : Bool)
      (sign : List UInt8), sign = (if minus then [45] else []) ∧
        (consume 45 src).isSome = minus ∧
          src = sign ++ (consume 45 src).getD src ∧ True := by
    cases hs : consume 45 src with
    | none => exact ⟨false, [], rfl, rfl, rfl, trivial⟩
    | some left =>
        exact ⟨true, [45], rfl, rfl, consume_eq_some (by decide) hs, trivial⟩
  have hlen := congrArg List.length hsrc
  rw [List.length_append] at hlen
  rw [parseNumber, hminus]
  apply ((parseInt_outcome minus _).imp (by omega) fun _ h => h).bind
  rintro ⟨i, left₁⟩ ⟨int, hint, hleft₁, hi⟩
  obtain rfl : i = significand minus (value int) := hi
  replace hleft₁ : (consume 45 src).getD src = int ++ left₁ := hleft₁
  have hlen₁ := congrArg List.length hleft₁
  rw [List.length_append] at hlen₁
  apply ((parseFrac_outcome left₁).imp (by omega) fun _ h => h).bind
  rintro ⟨f, left₂⟩ ⟨frac, hfrac, hleft₂, hf⟩
  replace hleft₂ : left₁ = frac ++ left₂ := hleft₂
  have hlen₂ := congrArg List.length hleft₂
  rw [List.length_append] at hlen₂
  apply ((parseExp_outcome left₂).imp (by omega) fun _ h => h).bind
  rintro ⟨e, rest⟩ ⟨exp, hexp, hrest, he⟩
  obtain ⟨k, hk⟩ : ∃ k, k = NumberToken.mk minus int frac exp hint hfrac hexp :=
    ⟨_, rfl⟩
  have hsrc' : src = k.text ++ rest := by
    rw [hsrc, hleft₁, hleft₂, show left₂ = exp ++ rest from hrest, hsign, hk]
    simp [NumberToken.text]
  have hgoal : Outcome src.length
      (fun r => ∃ t, NumberText toDouble t r.1 ∧ src = t ++ r.2)
      (finishNumber toDouble k rest) := by
    rw [finishNumber]
    cases hn : tokenNumber toDouble k with
    | none => exact Nat.le_of_eq (congrArg List.length hsrc').symm
    | some n => exact ⟨k.text, ⟨k, rfl, hn⟩, hsrc'⟩
  have hfinish := finishNumber_eq toDouble k f e rest
    (by rw [hk]; exact hf) (by rw [hk]; exact he)
  rw [← hfinish, ← hsrc', hk] at hgoal
  exact hgoal

theorem parseNumber_text {toDouble : List UInt8 → Option δ} {t : List UInt8}
    {n : Number δ} (h : NumberText toDouble t n) {rest : List UInt8}
    (hrest : EndsNumber rest) :
    parseNumber toDouble (t ++ rest) = .ok (n, rest) := by
  obtain ⟨k, rfl, hn⟩ := h
  have hsign : (consume 45 (k.text ++ rest)).isSome = k.minus ∧
      (consume 45 (k.text ++ rest)).getD (k.text ++ rest) =
        k.int ++ (k.frac ++ (k.exp ++ rest)) := by
    have htext : k.text ++ rest = (if k.minus then [45] else []) ++
        (k.int ++ (k.frac ++ (k.exp ++ rest))) := by
      simp [NumberToken.text]
    rw [htext]
    cases k.minus with
    | true => exact ⟨rfl, rfl⟩
    | false =>
        obtain ⟨d, ds, hint, hd⟩ := k.int_part.head
        have hne : d ≠ 45 := by
          rintro rfl
          exact absurd hd (by decide)
        rw [hint]
        show (consume 45 (d :: _)).isSome = false ∧
          (consume 45 (d :: _)).getD (d :: _) = _
        rw [consume_of_ne hne]
        exact ⟨rfl, rfl⟩
  have hexp := k.exp_part.ends hrest
  have hends : Ends (k.exp ++ rest) := fun b hb => (hexp b hb).1
  have hnot : ∀ {c : UInt8}, (∀ b ∈ rest.head?, b ≠ c) →
      rest.head? ≠ some c :=
    fun h hc => h _ hc rfl
  have hfinish := finishNumber_eq toDouble k (decide (k.frac ≠ []))
    (decide (k.exp ≠ [])) rest (by simp) (by simp)
  rw [finishNumber, hn] at hfinish
  rw [parseNumber, hsign.1, hsign.2,
    parseInt_intPart _ k.int_part (k.frac_part.ends hends), ok_bind,
    parseFrac_fracPart k.frac_part hends (fun h => (hexp _ h).2 rfl), ok_bind,
    parseExp_expPart k.exp_part (fun b hb => (hrest b hb).1)
      (hnot fun b hb => (hrest b hb).2.2.1)
      (hnot fun b hb => (hrest b hb).2.2.2), ok_bind]
  exact hfinish

end Numbers

end Reader

end AWRPC
