import Mathlib.Data.List.Forall2
import AWRPC.Lib.JsonText

/-!
# The JSON grammar

Trees over any representation of numbers and strings, and the texts that stand
for a tree: with white space, every escape and the number tokens of a relation
`N`. `Text N v t` is defined by recursion on the tree `v`; nothing here says how
a text is read.
-/

/-- A JSON value over numbers `ν` and strings `τ`. -/
inductive JsonTree (ν τ : Type) where
  | null
  | bool (b : Bool)
  | num (n : ν)
  | str (s : τ)
  | arr (es : List (JsonTree ν τ))
  | obj (ms : List (τ × JsonTree ν τ))

namespace JsonGrammar

open Bytes Decimal Json

/-! ## §1  White space and strings -/

def isWs (b : UInt8) : Bool := b = 32 || b = 10 || b = 13 || b = 9

def Ws (w : List UInt8) : Prop := ∀ b ∈ w, isWs b = true

theorem ws_nil : Ws [] := fun _ h => absurd h List.not_mem_nil

/-- The number that four hexadecimal digits stand for. -/
def hex4 (a b c d : UInt8) : Option ℕ := do
  let a ← hexValue a
  let b ← hexValue b
  let c ← hexValue c
  let d ← hexValue d
  some (4096 * a + 256 * b + 16 * c + d)

/-- A code unit of UTF-16 that is half of a pair. -/
def Surrogate (n : ℕ) : Prop := 0xD800 ≤ n ∧ n ≤ 0xDFFF

instance (n : ℕ) : Decidable (Surrogate n) :=
  inferInstanceAs (Decidable (_ ∧ _))

def utf8 (n : ℕ) : List UInt8 := String.utf8EncodeChar (Char.ofNat n)

/-- One character between quotation marks, and the bytes it stands for. -/
inductive Piece : List UInt8 → List UInt8 → Prop where
  | plain {b : UInt8} (hcontrol : 32 ≤ b) (hquote : b ≠ quotationMark)
      (hsolidus : b ≠ reverseSolidus) : Piece [b] [b]
  | short {c b : UInt8} (hc : unescape c = some b) :
      Piece [reverseSolidus, c] [b]
  | unit {a b c d : UInt8} {n : ℕ} (hn : hex4 a b c d = some n)
      (hunit : ¬ Surrogate n) :
      Piece [reverseSolidus, letterU, a, b, c, d] (utf8 n)
  | pair {a b c d a' b' c' d' : UInt8} {n m : ℕ}
      (hn : hex4 a b c d = some n) (hm : hex4 a' b' c' d' = some m)
      (hhigh : 0xD800 ≤ n ∧ n ≤ 0xDBFF) (hlow : 0xDC00 ≤ m ∧ m ≤ 0xDFFF) :
      Piece [reverseSolidus, letterU, a, b, c, d,
          reverseSolidus, letterU, a', b', c', d']
        (utf8 (0x10000 + ((n - 0xD800) * 1024 + (m - 0xDC00))))

/-- The text `u` between two quotation marks stands for the string `s`. -/
inductive Chars : List UInt8 → List UInt8 → Prop where
  | nil : Chars [] []
  | cons {t s u r : List UInt8} (hpiece : Piece t s) (h : Chars u r) :
      Chars (t ++ u) (s ++ r)

/-- A string with its quotation marks. -/
def Str (s t : List UInt8) : Prop :=
  ∃ u, Chars u s ∧ t = quotationMark :: (u ++ [quotationMark])

/-! ## §2  Number tokens -/

def Digits (ds : List UInt8) : Prop := ∀ d ∈ ds, isDigit d = true

/-- Zero, or digits that do not begin with one. -/
def IntPart (t : List UInt8) : Prop :=
  t = [48] ∨ ∃ d ds, t = d :: ds ∧ d ≠ 48 ∧ Digits (d :: ds)

def FracPart (t : List UInt8) : Prop :=
  t = [] ∨ ∃ ds, t = 46 :: ds ∧ ds ≠ [] ∧ Digits ds

def ExpPart (t : List UInt8) : Prop :=
  t = [] ∨ ∃ e sign ds, t = e :: (sign ++ ds) ∧ (e = 101 ∨ e = 69) ∧
    (sign = [] ∨ sign = [43] ∨ sign = [45]) ∧ ds ≠ [] ∧ Digits ds

/-- A number token by its parts. -/
structure NumberToken where
  minus : Bool
  int : List UInt8
  frac : List UInt8
  exp : List UInt8
  int_part : IntPart int
  frac_part : FracPart frac
  exp_part : ExpPart exp

namespace NumberToken

def text (k : NumberToken) : List UInt8 :=
  (if k.minus then [45] else []) ++ k.int ++ k.frac ++ k.exp

end NumberToken

/-- What may stand behind a number: nothing that would go on with it. -/
def EndsNumber (rest : List UInt8) : Prop :=
  ∀ b ∈ rest.head?, isDigit b = false ∧ b ≠ 46 ∧ b ≠ 101 ∧ b ≠ 69

/-! ## §3  Trees -/

/-- What stands in front of an element: nothing, or a comma. -/
def Lead (sep : Bool) (p : List UInt8) : Prop :=
  if sep then ∃ w, Ws w ∧ p = comma :: w else p = []

section Trees

variable {ν : Type} (N : List UInt8 → ν → Prop)

mutual

/-- The text `t` stands for the tree. -/
def Text : JsonTree ν (List UInt8) → List UInt8 → Prop
  | .null, t => t = lit "null"
  | .bool true, t => t = lit "true"
  | .bool false, t => t = lit "false"
  | .num n, t => N t n
  | .str s, t => Str s t
  | .arr es, t => ∃ w u, Ws w ∧ Elements false es u ∧
      t = beginArray :: (w ++ u ++ [endArray])
  | .obj ms, t => ∃ w u, Ws w ∧ Members false ms u ∧
      t = beginObject :: (w ++ u ++ [endObject])

def Elements (sep : Bool) : List (JsonTree ν (List UInt8)) → List UInt8 → Prop
  | [], u => u = []
  | v :: es, u => ∃ p t w r, Lead sep p ∧ Text v t ∧ Ws w ∧
      Elements true es r ∧ u = p ++ t ++ w ++ r

def Members (sep : Bool) :
    List (List UInt8 × JsonTree ν (List UInt8)) → List UInt8 → Prop
  | [], u => u = []
  | (k, v) :: ms, u => ∃ p q w₁ w₂ t w r, Lead sep p ∧ Str k q ∧ Ws w₁ ∧
      Ws w₂ ∧ Text v t ∧ Ws w ∧ Members true ms r ∧
      u = p ++ q ++ w₁ ++ colon :: w₂ ++ t ++ w ++ r

end

/-- A value with white space around it. -/
def Document (v : JsonTree ν (List UInt8)) (text : List UInt8) : Prop :=
  ∃ w t w', Ws w ∧ Text N v t ∧ Ws w' ∧ text = w ++ t ++ w'

end Trees

/-! ## §4  Facts of the grammar -/

theorem Piece.length_pos {t s : List UInt8} (h : Piece t s) : 0 < t.length := by
  cases h with
  | plain => exact Nat.succ_pos _
  | short => exact Nat.succ_pos _
  | unit => exact Nat.succ_pos _
  | pair => exact Nat.succ_pos _

/-- Digits are taken up to something that is none. -/
theorem Digits.span {ds : List UInt8} (h : Digits ds) {rest : List UInt8}
    (hrest : Ends rest) :
    (ds ++ rest).takeWhile isDigit = ds ∧
      (ds ++ rest).dropWhile isDigit = rest := by
  rw [List.takeWhile_append_of_pos h, List.dropWhile_append_of_pos h]
  cases rest with
  | nil => exact ⟨List.append_nil ds, rfl⟩
  | cons b rest =>
      have hb : ¬ isDigit b = true := by
        rw [hrest b rfl]
        exact Bool.false_ne_true
      rw [List.takeWhile_cons_of_neg hb, List.dropWhile_cons_of_neg hb]
      exact ⟨List.append_nil ds, rfl⟩

theorem digits_takeWhile (src : List UInt8) :
    Digits (src.takeWhile isDigit) :=
  fun _ hd => List.mem_takeWhile_imp hd

theorem ends_dropWhile (src : List UInt8) : Ends (src.dropWhile isDigit) := by
  intro b hb
  have h := List.head?_dropWhile_not isDigit src
  rw [Option.mem_def.mp hb] at h
  exact h

theorem IntPart.head {t : List UInt8} (h : IntPart t) :
    ∃ d ds, t = d :: ds ∧ isDigit d = true := by
  rcases h with rfl | ⟨d, ds, rfl, -, hdigits⟩
  · exact ⟨48, [], rfl, rfl⟩
  · exact ⟨d, ds, rfl, hdigits d List.mem_cons_self⟩

/-- Behind the digits of a fraction stands an exponent or what ends a number. -/
theorem ExpPart.ends {t : List UInt8} (h : ExpPart t) {rest : List UInt8}
    (hrest : EndsNumber rest) :
    ∀ b ∈ (t ++ rest).head?, isDigit b = false ∧ b ≠ 46 := by
  rcases h with rfl | ⟨e, sign, ds, rfl, he, -, -, -⟩
  · intro b hb
    exact ⟨(hrest b hb).1, (hrest b hb).2.1⟩
  · intro b hb
    obtain rfl : e = b := Option.some_inj.mp hb
    rcases he with rfl | rfl
    · exact ⟨rfl, by decide⟩
    · exact ⟨rfl, by decide⟩

theorem FracPart.ends {t : List UInt8} (h : FracPart t) {rest : List UInt8}
    (hrest : Ends rest) : Ends (t ++ rest) := by
  rcases h with rfl | ⟨ds, rfl, -, -⟩
  · exact hrest
  · intro b hb
    obtain rfl : 46 = b := Option.some_inj.mp hb
    rfl

/-- A number token begins with a digit or a minus sign. -/
theorem NumberToken.head_text (k : NumberToken) :
    ∃ b t, k.text = b :: t ∧ (isDigit b = true ∨ b = 45) := by
  obtain ⟨d, ds, hint, hd⟩ := k.int_part.head
  rw [NumberToken.text, hint]
  cases k.minus with
  | true => exact ⟨45, _, rfl, Or.inr rfl⟩
  | false => exact ⟨d, _, rfl, Or.inl hd⟩

theorem EndsNumber.ws_append {w : List UInt8} (hw : Ws w) {rest : List UInt8}
    (h : EndsNumber rest) : EndsNumber (w ++ rest) := by
  cases w with
  | nil => exact h
  | cons c w =>
      have hsplit : ∀ c : UInt8, isWs c = true →
          isDigit c = false ∧ c ≠ 46 ∧ c ≠ 101 ∧ c ≠ 69 := by
        refine forall_byte ?_
        decide +kernel
      intro b hb
      obtain rfl : c = b := Option.some_inj.mp hb
      exact hsplit c (hw c List.mem_cons_self)

/-- The bytes that a value can begin with. -/
def startsValue (b : UInt8) : Bool :=
  b = 110 || b = 116 || b = 102 || b = quotationMark || b = beginArray ||
    b = beginObject || b = 45 || isDigit b

theorem startsValue_spec : ∀ b : UInt8, startsValue b = true →
    isWs b = false ∧ b ≠ endArray ∧ b ≠ 0 := by
  refine forall_byte ?_
  decide +kernel

section TreeFacts

variable {ν : Type} {N : List UInt8 → ν → Prop}

theorem Text.head (hN : ∀ t n, N t n → ∃ b t', t = b :: t' ∧
    (isDigit b = true ∨ b = 45)) {v : JsonTree ν (List UInt8)}
    {t : List UInt8} (h : Text N v t) :
    ∃ b t', t = b :: t' ∧ startsValue b = true := by
  cases v with
  | null => exact ⟨110, _, h, rfl⟩
  | bool b =>
      cases b with
      | true => exact ⟨116, _, h, rfl⟩
      | false => exact ⟨102, _, h, rfl⟩
  | num n =>
      obtain ⟨b, t', rfl, hb⟩ := hN t n h
      refine ⟨b, t', rfl, ?_⟩
      rcases hb with hb | rfl
      · rw [startsValue, hb, Bool.or_true]
      · rfl
  | str s =>
      obtain ⟨u, -, rfl⟩ := h
      exact ⟨quotationMark, _, rfl, rfl⟩
  | arr es =>
      obtain ⟨w, u, -, -, rfl⟩ := h
      exact ⟨beginArray, _, rfl, rfl⟩
  | obj ms =>
      obtain ⟨w, u, -, -, rfl⟩ := h
      exact ⟨beginObject, _, rfl, rfl⟩

/-- Behind a comma the elements go on as at the start. -/
theorem elements_true {v : JsonTree ν (List UInt8)}
    {es : List (JsonTree ν (List UInt8))} {r : List UInt8} :
    Elements N true (v :: es) r ↔
      ∃ w u, Ws w ∧ Elements N false (v :: es) u ∧ r = comma :: (w ++ u) := by
  constructor
  · rintro ⟨p, t, w', r', ⟨w, hw, rfl⟩, ht, hw', hr', rfl⟩
    exact ⟨w, [] ++ t ++ w' ++ r', hw, ⟨[], t, w', r', rfl, ht, hw', hr', rfl⟩,
      by simp⟩
  · rintro ⟨w, u, hw, ⟨p, t, w', r', hp, ht, hw', hr', rfl⟩, rfl⟩
    obtain rfl : p = [] := hp
    exact ⟨comma :: w, t, w', r', ⟨w, hw, rfl⟩, ht, hw', hr', by simp⟩

theorem members_true {k : List UInt8} {v : JsonTree ν (List UInt8)}
    {ms : List (List UInt8 × JsonTree ν (List UInt8))} {r : List UInt8} :
    Members N true ((k, v) :: ms) r ↔
      ∃ w u, Ws w ∧ Members N false ((k, v) :: ms) u ∧
        r = comma :: (w ++ u) := by
  constructor
  · rintro ⟨p, q, w₁, w₂, t, w', r', ⟨w, hw, rfl⟩, hq, hw₁, hw₂, ht, hw', hr',
      rfl⟩
    exact ⟨w, [] ++ q ++ w₁ ++ colon :: w₂ ++ t ++ w' ++ r', hw,
      ⟨[], q, w₁, w₂, t, w', r', rfl, hq, hw₁, hw₂, ht, hw', hr', rfl⟩,
      by simp⟩
  · rintro ⟨w, u, hw, ⟨p, q, w₁, w₂, t, w', r', hp, hq, hw₁, hw₂, ht, hw', hr',
      rfl⟩, rfl⟩
    obtain rfl : p = [] := hp
    exact ⟨comma :: w, q, w₁, w₂, t, w', r', ⟨w, hw, rfl⟩, hq, hw₁, hw₂, ht,
      hw', hr', by simp⟩

end TreeFacts

/-! ## §5  No text of the grammar has a NUL -/

theorem Ws.nul {w : List UInt8} (h : Ws w) : (0 : UInt8) ∉ w := by
  intro hmem
  exact absurd (h 0 hmem) (by decide)

theorem Lead.nul {sep : Bool} {p : List UInt8} (h : Lead sep p) :
    (0 : UInt8) ∉ p := by
  cases sep with
  | false =>
      obtain rfl : p = [] := h
      exact List.not_mem_nil
  | true =>
      obtain ⟨w, hw, rfl⟩ := h
      have hw' := hw.nul
      simp [hw', comma]

theorem Digits.nul {ds : List UInt8} (h : Digits ds) : (0 : UInt8) ∉ ds := by
  intro hmem
  exact absurd (h 0 hmem) (by decide)

theorem hex4_nul {a b c d : UInt8} {n : ℕ} (h : hex4 a b c d = some n) :
    (0 : UInt8) ∉ [a, b, c, d] := by
  intro hmem
  simp only [List.mem_cons, List.not_mem_nil, or_false] at hmem
  simp only [hex4, Option.bind_eq_bind, Option.bind_eq_some_iff] at h
  obtain ⟨a', ha, b', hb, c', hc, d', hd, -⟩ := h
  rcases hmem with rfl | rfl | rfl | rfl
  · cases ha
  · cases hb
  · cases hc
  · cases hd

theorem Piece.nul {t s : List UInt8} (h : Piece t s) : (0 : UInt8) ∉ t := by
  cases h with
  | @plain b hcontrol hquote hsolidus =>
      intro hmem
      rw [← List.mem_singleton.mp hmem] at hcontrol
      exact absurd hcontrol (by decide)
  | @short c b hc =>
      intro hmem
      rcases List.mem_cons.mp hmem with h | h
      · exact absurd h (by decide)
      · rw [← List.mem_singleton.mp h] at hc
        cases hc
  | @unit a b c d n hn hunit =>
      intro hmem
      rcases List.mem_cons.mp hmem with h | h
      · exact absurd h (by decide)
      rcases List.mem_cons.mp h with h | h
      · exact absurd h (by decide)
      · exact hex4_nul hn h
  | @pair a b c d a' b' c' d' n m hn hm hhigh hlow =>
      intro hmem
      have hsplit : (0 : UInt8) ∈ [reverseSolidus, letterU] ++ [a, b, c, d] ++
          [reverseSolidus, letterU] ++ [a', b', c', d'] := hmem
      simp only [List.mem_append] at hsplit
      rcases hsplit with ((h | h) | h) | h
      · exact absurd h (by decide)
      · exact hex4_nul hn h
      · exact absurd h (by decide)
      · exact hex4_nul hm h

theorem Chars.nul {u s : List UInt8} (h : Chars u s) : (0 : UInt8) ∉ u := by
  induction h with
  | nil => exact List.not_mem_nil
  | cons hpiece h ih =>
      intro hmem
      rcases List.mem_append.mp hmem with h | h
      · exact hpiece.nul h
      · exact ih h

theorem Str.nul {s t : List UInt8} (h : Str s t) : (0 : UInt8) ∉ t := by
  obtain ⟨u, hchars, rfl⟩ := h
  have hu := hchars.nul
  simp [hu, quotationMark]

theorem NumberToken.nul (k : NumberToken) : (0 : UInt8) ∉ k.text := by
  have hint : (0 : UInt8) ∉ k.int := by
    rcases k.int_part with h | ⟨d, ds, h, -, hdigits⟩
    · rw [h]
      decide
    · rw [h]
      exact hdigits.nul
  have hfrac : (0 : UInt8) ∉ k.frac := by
    rcases k.frac_part with h | ⟨ds, h, -, hdigits⟩
    · rw [h]
      exact List.not_mem_nil
    · have hds := hdigits.nul
      rw [h]
      simp [hds]
  have hexp : (0 : UInt8) ∉ k.exp := by
    rcases k.exp_part with h | ⟨e, sign, ds, h, he, hsign, -, hdigits⟩
    · rw [h]
      exact List.not_mem_nil
    · have hds := hdigits.nul
      rw [h]
      rcases he with rfl | rfl <;> rcases hsign with rfl | rfl | rfl <;>
        simp [hds]
  have hminus : (0 : UInt8) ∉ (if k.minus then [(45 : UInt8)] else []) := by
    split <;> decide
  rw [NumberToken.text]
  simp only [List.mem_append]
  rintro (((h | h) | h) | h)
  · exact hminus h
  · exact hint h
  · exact hfrac h
  · exact hexp h

section NulFree

variable {ν : Type} {N : List UInt8 → ν → Prop}

mutual

theorem Text.nul (hN : ∀ t n, N t n → (0 : UInt8) ∉ t) :
    ∀ (v : JsonTree ν (List UInt8)) {t : List UInt8}, Text N v t →
      (0 : UInt8) ∉ t
  | .null, t, h => by
      obtain rfl : t = lit "null" := h
      decide
  | .bool true, t, h => by
      obtain rfl : t = lit "true" := h
      decide
  | .bool false, t, h => by
      obtain rfl : t = lit "false" := h
      decide
  | .num n, t, h => hN t n h
  | .str s, t, h => Str.nul h
  | .arr es, t, h => by
      obtain ⟨w, u, hw, hu, rfl⟩ := h
      have hw' := hw.nul
      have hu' := Elements.nul hN es false hu
      simp [hw', hu', beginArray, Json.endArray]
  | .obj ms, t, h => by
      obtain ⟨w, u, hw, hu, rfl⟩ := h
      have hw' := hw.nul
      have hu' := Members.nul hN ms false hu
      simp [hw', hu', beginObject, Json.endObject]

theorem Elements.nul (hN : ∀ t n, N t n → (0 : UInt8) ∉ t) :
    ∀ (es : List (JsonTree ν (List UInt8))) (sep : Bool) {u : List UInt8},
      Elements N sep es u → (0 : UInt8) ∉ u
  | [], sep, u, h => by
      obtain rfl : u = [] := h
      exact List.not_mem_nil
  | v :: es, sep, u, h => by
      obtain ⟨p, t, w, r, hp, ht, hw, hr, rfl⟩ := h
      have hp' := Lead.nul hp
      have ht' := Text.nul hN v ht
      have hw' := hw.nul
      have hr' := Elements.nul hN es true hr
      simp [hp', ht', hw', hr']

theorem Members.nul (hN : ∀ t n, N t n → (0 : UInt8) ∉ t) :
    ∀ (ms : List (List UInt8 × JsonTree ν (List UInt8))) (sep : Bool)
      {u : List UInt8}, Members N sep ms u → (0 : UInt8) ∉ u
  | [], sep, u, h => by
      obtain rfl : u = [] := h
      exact List.not_mem_nil
  | (k, v) :: ms, sep, u, h => by
      obtain ⟨p, q, w₁, w₂, t, w, r, hp, hq, hw₁, hw₂, ht, hw, hr, rfl⟩ := h
      have hp' := Lead.nul hp
      have hq' := hq.nul
      have hw₁' := hw₁.nul
      have hw₂' := hw₂.nul
      have ht' := Text.nul hN v ht
      have hw' := hw.nul
      have hr' := Members.nul hN ms true hr
      simp [hp', hq', hw₁', hw₂', ht', hw', hr', colon]

end

theorem Document.nul (hN : ∀ t n, N t n → (0 : UInt8) ∉ t)
    {v : JsonTree ν (List UInt8)} {text : List UInt8}
    (h : Document N v text) : (0 : UInt8) ∉ text := by
  obtain ⟨w, t, w', hw, ht, hw', rfl⟩ := h
  have hw₁ := hw.nul
  have ht₁ := Text.nul hN v ht
  have hw₂ := hw'.nul
  simp [hw₁, ht₁, hw₂]

end NulFree

/-! ## §6  Trees over related strings -/

section Related

variable {ν τ τ' : Type}

mutual

/-- The same tree, up to strings that `R` relates. -/
def Related (R : τ → τ' → Prop) : JsonTree ν τ → JsonTree ν τ' → Prop
  | .null, w => w = .null
  | .bool b, w => w = .bool b
  | .num n, w => w = .num n
  | .str s, w => ∃ s', w = .str s' ∧ R s s'
  | .arr es, w => ∃ es', w = .arr es' ∧ RelatedElements R es es'
  | .obj ms, w => ∃ ms', w = .obj ms' ∧ RelatedMembers R ms ms'

def RelatedElements (R : τ → τ' → Prop) :
    List (JsonTree ν τ) → List (JsonTree ν τ') → Prop
  | [], ws => ws = []
  | v :: es, ws => ∃ w es', ws = w :: es' ∧ Related R v w ∧
      RelatedElements R es es'

def RelatedMembers (R : τ → τ' → Prop) :
    List (τ × JsonTree ν τ) → List (τ' × JsonTree ν τ') → Prop
  | [], ws => ws = []
  | (k, v) :: ms, ws => ∃ k' w ms', ws = (k', w) :: ms' ∧ R k k' ∧
      Related R v w ∧ RelatedMembers R ms ms'

end

theorem relatedElements_iff {R : τ → τ' → Prop} {es : List (JsonTree ν τ)}
    {ws : List (JsonTree ν τ')} :
    RelatedElements R es ws ↔ List.Forall₂ (Related R) es ws := by
  induction es generalizing ws with
  | nil =>
      rw [RelatedElements]
      exact List.forall₂_nil_left_iff.symm
  | cons v es ih =>
      rw [RelatedElements, List.forall₂_cons_left_iff]
      constructor
      · rintro ⟨w, es', rfl, hv, hes⟩
        exact ⟨w, es', hv, ih.mp hes, rfl⟩
      · rintro ⟨w, es', hv, hes, rfl⟩
        exact ⟨w, es', rfl, hv, ih.mpr hes⟩

mutual

theorem Related.mono {R S : τ → τ' → Prop} (hRS : ∀ s s', R s s' → S s s') :
    ∀ (v : JsonTree ν τ) {w : JsonTree ν τ'}, Related R v w → Related S v w
  | .null, w, h => h
  | .bool b, w, h => h
  | .num n, w, h => h
  | .str s, w, h => by
      obtain ⟨s', rfl, hs⟩ := h
      exact ⟨s', rfl, hRS s s' hs⟩
  | .arr es, w, h => by
      obtain ⟨es', rfl, hes⟩ := h
      exact ⟨es', rfl, RelatedElements.mono hRS es hes⟩
  | .obj ms, w, h => by
      obtain ⟨ms', rfl, hms⟩ := h
      exact ⟨ms', rfl, RelatedMembers.mono hRS ms hms⟩

theorem RelatedElements.mono {R S : τ → τ' → Prop}
    (hRS : ∀ s s', R s s' → S s s') :
    ∀ (es : List (JsonTree ν τ)) {ws : List (JsonTree ν τ')},
      RelatedElements R es ws → RelatedElements S es ws
  | [], ws, h => h
  | v :: es, ws, h => by
      obtain ⟨w, es', rfl, hv, hes⟩ := h
      exact ⟨w, es', rfl, Related.mono hRS v hv, RelatedElements.mono hRS es hes⟩

theorem RelatedMembers.mono {R S : τ → τ' → Prop}
    (hRS : ∀ s s', R s s' → S s s') :
    ∀ (ms : List (τ × JsonTree ν τ)) {ws : List (τ' × JsonTree ν τ')},
      RelatedMembers R ms ws → RelatedMembers S ms ws
  | [], ws, h => h
  | (k, v) :: ms, ws, h => by
      obtain ⟨k', w, ms', rfl, hk, hv, hms⟩ := h
      exact ⟨k', w, ms', rfl, hRS k k' hk, Related.mono hRS v hv,
        RelatedMembers.mono hRS ms hms⟩

end

end Related

theorem utf8_length (n : ℕ) : (utf8 n).length ≤ 4 := by
  rw [utf8, String.length_utf8EncodeChar]
  exact Char.utf8Size_le_four _

/-- **No character is longer than it is written**, so that a string can be put
where it was read from. -/
theorem Piece.length_le {t s : List UInt8} (h : Piece t s) :
    s.length ≤ t.length := by
  cases h with
  | plain => exact Nat.le_refl _
  | short => exact Nat.le_succ _
  | @unit a b c d n hn hunit =>
      have h := utf8_length n
      show (utf8 n).length ≤ 6
      omega
  | @pair a b c d a' b' c' d' n m hn hm hhigh hlow =>
      have h := utf8_length (0x10000 + ((n - 0xD800) * 1024 + (m - 0xDC00)))
      show List.length _ ≤ 12
      omega

/-! ## §7  Compact texts are in the grammar -/

theorem hex4_escapeByte : ∀ b : UInt8, b < 32 →
    hex4 48 48 (hexDigit (b.toNat / 16)) (hexDigit (b.toNat % 16)) =
        some b.toNat ∧ ¬ Surrogate b.toNat ∧ utf8 b.toNat = [b] := by
  refine forall_byte ?_
  decide +kernel

theorem piece_escapeByte (b : UInt8) : Piece (escapeByte b) [b] := by
  rw [escapeByte]
  cases hshort : shortEscape b with
  | some c => exact .short (unescape_shortEscape b c hshort).2
  | none =>
      obtain ⟨hquote, hsolidus⟩ := plain_of_shortEscape hshort
      by_cases hcontrol : b < 32
      · obtain ⟨hhex, hunit, hutf8⟩ := hex4_escapeByte b hcontrol
        have hpiece := Piece.unit hhex hunit
        rw [hutf8] at hpiece
        simp only [if_pos hcontrol]
        exact hpiece
      · simp only [if_neg hcontrol]
        exact .plain (UInt8.not_lt.mp hcontrol) hquote hsolidus

theorem str_quote (s : List UInt8) : Str s (quote s) := by
  refine ⟨escape s, ?_, rfl⟩
  induction s with
  | nil => exact .nil
  | cons b s ih => exact Chars.cons (piece_escapeByte b) ih

/-- The token of a whole number. -/
def intToken (n : ℤ) : NumberToken where
  minus := n < 0
  int := Decimal.text n.natAbs
  frac := []
  exp := []
  int_part := by
    have hhead := @head_text n.natAbs
    obtain ⟨d, ds, htext⟩ := List.exists_cons_of_ne_nil (text_ne_nil n.natAbs)
    rw [htext, List.head?_cons, Option.some_inj] at hhead
    by_cases hd : d = 48
    · have hzero := hhead.mp hd
      rw [hzero, text_of_lt_ten (by decide)]
      exact Or.inl rfl
    · refine Or.inr ⟨d, ds, htext, hd, ?_⟩
      rw [← htext]
      exact fun _ => isDigit_of_mem_text
  frac_part := Or.inl rfl
  exp_part := Or.inl rfl

theorem text_intToken (n : ℤ) : (intToken n).text = intText n := by
  by_cases h : n < 0
  · simp [NumberToken.text, intToken, intText, h]
  · simp [NumberToken.text, intToken, intText, h]

section Compact

variable {ν : Type}

mutual

/-- The same tree, with numbers represented as `num` has it. -/
def ofJson (num : ℤ → ν) : Json → JsonTree ν (List UInt8)
  | .str s => .str s
  | .num n => .num (num n)
  | .bool b => .bool b
  | .arr es => .arr (ofElements num es)
  | .obj ms => .obj (ofMembers num ms)

def ofElements (num : ℤ → ν) : List Json → List (JsonTree ν (List UInt8))
  | [] => []
  | v :: es => ofJson num v :: ofElements num es

def ofMembers (num : ℤ → ν) : List (List UInt8 × Json) →
    List (List UInt8 × JsonTree ν (List UInt8))
  | [] => []
  | (k, v) :: ms => (k, ofJson num v) :: ofMembers num ms

end

mutual

/-- Every number of the tree satisfies `P`. -/
def Numbers (P : ℤ → Prop) : Json → Prop
  | .str _ => True
  | .num n => P n
  | .bool _ => True
  | .arr es => ElementNumbers P es
  | .obj ms => MemberNumbers P ms

def ElementNumbers (P : ℤ → Prop) : List Json → Prop
  | [] => True
  | v :: es => Numbers P v ∧ ElementNumbers P es

def MemberNumbers (P : ℤ → Prop) : List (List UInt8 × Json) → Prop
  | [] => True
  | (_, v) :: ms => Numbers P v ∧ MemberNumbers P ms

end

theorem memberNumbers_append (P : ℤ → Prop) (ms ns : List (List UInt8 × Json)) :
    MemberNumbers P (ms ++ ns) ↔ MemberNumbers P ms ∧ MemberNumbers P ns := by
  induction ms with
  | nil =>
      rw [List.nil_append, MemberNumbers, true_and]
  | cons m ms ih =>
      rw [List.cons_append, MemberNumbers, MemberNumbers, ih, and_assoc]

theorem lead_separator (sep : Bool) : Lead sep (separator sep) := by
  cases sep with
  | false => exact rfl
  | true => exact ⟨[], ws_nil, rfl⟩

variable {N : List UInt8 → ν → Prop} {P : ℤ → Prop} {num : ℤ → ν}

mutual

/-- **A compact text stands for its tree.** -/
theorem text_render (hnum : ∀ n, P n → N (intText n) (num n)) :
    ∀ v : Json, Numbers P v → Text N (ofJson num v) (render v)
  | .str s, _ => by
      rw [ofJson, render]
      exact str_quote s
  | .num n, h => by
      rw [ofJson, render]
      exact hnum n h
  | .bool true, _ => by
      rw [ofJson, render]
      exact rfl
  | .bool false, _ => by
      rw [ofJson, render]
      exact rfl
  | .arr es, h => by
      rw [ofJson, render]
      exact ⟨[], _, ws_nil, elements_render hnum es false h, by simp⟩
  | .obj ms, h => by
      rw [ofJson, render]
      exact ⟨[], _, ws_nil, members_render hnum ms false h, by simp⟩

theorem elements_render (hnum : ∀ n, P n → N (intText n) (num n)) :
    ∀ (es : List Json) (sep : Bool), ElementNumbers P es →
      Elements N sep (ofElements num es) (renderElements sep es)
  | [], sep, _ => by
      rw [ofElements, renderElements]
      exact rfl
  | v :: es, sep, h => by
      rw [ofElements, renderElements]
      exact ⟨_, _, [], _, lead_separator sep, text_render hnum v h.1, ws_nil,
        elements_render hnum es true h.2, by simp⟩

theorem members_render (hnum : ∀ n, P n → N (intText n) (num n)) :
    ∀ (ms : List (List UInt8 × Json)) (sep : Bool), MemberNumbers P ms →
      Members N sep (ofMembers num ms) (renderMembers sep ms)
  | [], sep, _ => by
      rw [ofMembers, renderMembers]
      exact rfl
  | (k, v) :: ms, sep, h => by
      rw [ofMembers, renderMembers]
      exact ⟨_, _, [], [], _, [], _, lead_separator sep, str_quote k, ws_nil,
        ws_nil, text_render hnum v h.1, ws_nil, members_render hnum ms true h.2,
        by simp⟩

end

theorem document_render (hnum : ∀ n, P n → N (intText n) (num n)) {v : Json}
    (h : Numbers P v) : Document N (ofJson num v) (render v) :=
  ⟨[], _, [], ws_nil, text_render hnum v h, ws_nil, by simp⟩

end Compact

end JsonGrammar
