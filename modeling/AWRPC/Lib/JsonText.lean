import AWRPC.Lib.Decimal
import AWRPC.Lib.Utf8

/-!
# JSON texts

A tree of JSON values with byte strings and whole numbers, its compact text
(`render`) and a reader that accepts only well-formed texts without white space
(`parse`). The reader gets every tree back (`parse_render`), so that a text
stands for at most one tree, and the text is valid UTF-8 exactly when the
strings of the tree are (`valid_render_iff`).
-/

inductive Json where
  | str (s : List UInt8)
  | num (n : ℤ)
  | bool (b : Bool)
  | arr (es : List Json)
  | obj (ms : List (List UInt8 × Json))

namespace Json

open Bytes Decimal

abbrev quotationMark : UInt8 := 34
abbrev comma : UInt8 := 44
abbrev colon : UInt8 := 58
abbrev beginArray : UInt8 := 91
abbrev reverseSolidus : UInt8 := 92
abbrev endArray : UInt8 := 93
abbrev letterU : UInt8 := 117
abbrev beginObject : UInt8 := 123
abbrev endObject : UInt8 := 125

/-! ## §1  Texts -/

def hexDigit (d : ℕ) : UInt8 :=
  if d < 10 then UInt8.ofNat (48 + d) else UInt8.ofNat (55 + d)

/-- The letter that stands for a byte behind a backslash, where there is one. -/
def shortEscape (b : UInt8) : Option UInt8 :=
  if b = 8 then some 98
  else if b = 9 then some 116
  else if b = 10 then some 110
  else if b = 12 then some 102
  else if b = 13 then some 114
  else if b = quotationMark then some quotationMark
  else if b = reverseSolidus then some reverseSolidus
  else none

def escapeByte (b : UInt8) : List UInt8 :=
  match shortEscape b with
  | some c => [reverseSolidus, c]
  | none =>
      if b < 32 then
        [reverseSolidus, letterU, 48, 48, hexDigit (b.toNat / 16),
          hexDigit (b.toNat % 16)]
      else [b]

def escape (s : List UInt8) : List UInt8 := s.flatMap escapeByte

def quote (s : List UInt8) : List UInt8 :=
  quotationMark :: (escape s ++ [quotationMark])

/-- The comma in front of all but the first. -/
def separator (sep : Bool) : List UInt8 := if sep then [comma] else []

mutual

def render : Json → List UInt8
  | .str s => quote s
  | .num n => intText n
  | .bool true => lit "true"
  | .bool false => lit "false"
  | .arr es => beginArray :: (renderElements false es ++ [endArray])
  | .obj ms => beginObject :: (renderMembers false ms ++ [endObject])

def renderElements (sep : Bool) : List Json → List UInt8
  | [] => []
  | e :: es => separator sep ++ render e ++ renderElements true es

def renderMembers (sep : Bool) : List (List UInt8 × Json) → List UInt8
  | [] => []
  | (k, v) :: ms =>
      separator sep ++ quote k ++ colon :: render v ++ renderMembers true ms

end

/-- Behind `k` elements, the next ones go on with a comma where `0 < k`. -/
theorem renderElements_append (k : ℕ) (es fs : List Json) :
    renderElements (0 < k) (es ++ fs) =
      renderElements (0 < k) es ++ renderElements (0 < k + es.length) fs := by
  induction es generalizing k with
  | nil => rw [renderElements, List.nil_append, List.nil_append]; rfl
  | cons e es ih =>
      have hih := ih (k + 1)
      have hlen : k + (e :: es).length = k + 1 + es.length := by
        rw [List.length_cons]
        omega
      rw [decide_eq_true (Nat.succ_pos k)] at hih
      rw [List.cons_append, renderElements, renderElements, hih, hlen,
        ← List.append_assoc]

theorem renderMembers_append (k : ℕ) (ms ns : List (List UInt8 × Json)) :
    renderMembers (0 < k) (ms ++ ns) =
      renderMembers (0 < k) ms ++ renderMembers (0 < k + ms.length) ns := by
  induction ms generalizing k with
  | nil => rw [renderMembers, List.nil_append, List.nil_append]; rfl
  | cons m ms ih =>
      have hih := ih (k + 1)
      have hlen : k + (m :: ms).length = k + 1 + ms.length := by
        rw [List.length_cons]
        omega
      rw [decide_eq_true (Nat.succ_pos k)] at hih
      rw [List.cons_append, renderMembers, renderMembers, hih, hlen,
        ← List.append_assoc]

/-! ## §2  The reader -/

/-- The byte a letter stands for behind a backslash. -/
def unescape (c : UInt8) : Option UInt8 :=
  if c = 98 then some 8
  else if c = 116 then some 9
  else if c = 110 then some 10
  else if c = 102 then some 12
  else if c = 114 then some 13
  else if c = quotationMark ∨ c = reverseSolidus ∨ c = 47 then some c
  else none

def hexValue (b : UInt8) : Option ℕ :=
  if 48 ≤ b ∧ b ≤ 57 then some (b.toNat - 48)
  else if 65 ≤ b ∧ b ≤ 70 then some (b.toNat - 55)
  else if 97 ≤ b ∧ b ≤ 102 then some (b.toNat - 87)
  else none

/-- The bytes of the character with four hexadecimal digits; surrogates are not
read. -/
def hexChar (a b c d : UInt8) : Option (List UInt8) := do
  let a ← hexValue a
  let b ← hexValue b
  let c ← hexValue c
  let d ← hexValue d
  let n := 4096 * a + 256 * b + 16 * c + d
  if n.isValidChar then some (String.utf8EncodeChar (Char.ofNat n)) else none

/-- The string behind an opening quotation mark, and what follows the closing
one. -/
def readChars : List UInt8 → Option (List UInt8 × List UInt8)
  | [] => none
  | b :: t =>
      if b = quotationMark then some ([], t)
      else if b = reverseSolidus then
        match t with
        | [] => none
        | c :: t =>
            if c = letterU then
              match t with
              | w :: x :: y :: z :: t => do
                  let s ← hexChar w x y z
                  let r ← readChars t
                  some (s ++ r.1, r.2)
              | _ => none
            else do
              let s ← unescape c
              let r ← readChars t
              some (s :: r.1, r.2)
      else if b < 32 then none
      else do
        let r ← readChars t
        some (b :: r.1, r.2)

def expect (c : UInt8) : List UInt8 → Option (List UInt8)
  | [] => none
  | b :: t => if b = c then some t else none

/-- What stands in front of an element: nothing, or the comma. -/
def readSeparator (sep : Bool) (t : List UInt8) : Option (List UInt8) :=
  if sep then expect comma t else some t

mutual

def readValue : ℕ → List UInt8 → Option (Json × List UInt8)
  | 0, _ => none
  | _ + 1, [] => none
  | fuel + 1, b :: t =>
      if b = quotationMark then
        (readChars t).map fun r => (.str r.1, r.2)
      else if b = beginObject then
        (readMembers fuel false t).map fun r => (.obj r.1, r.2)
      else if b = beginArray then
        (readElements fuel false t).map fun r => (.arr r.1, r.2)
      else if (b :: t).take 4 = lit "true" then
        some (.bool true, (b :: t).drop 4)
      else if (b :: t).take 5 = lit "false" then
        some (.bool false, (b :: t).drop 5)
      else (readInt (b :: t)).map fun r => (.num r.1, r.2)

def readElements :
    ℕ → Bool → List UInt8 → Option (List Json × List UInt8)
  | 0, _, _ => none
  | fuel + 1, sep, t =>
      if t.head? = some endArray then some ([], t.tail)
      else do
        let t ← readSeparator sep t
        let v ← readValue fuel t
        let r ← readElements fuel true v.2
        some (v.1 :: r.1, r.2)

def readMembers :
    ℕ → Bool → List UInt8 → Option (List (List UInt8 × Json) × List UInt8)
  | 0, _, _ => none
  | fuel + 1, sep, t =>
      if t.head? = some endObject then some ([], t.tail)
      else do
        let t ← readSeparator sep t
        let t ← expect quotationMark t
        let k ← readChars t
        let t ← expect colon k.2
        let v ← readValue fuel t
        let r ← readMembers fuel true v.2
        some ((k.1, v.1) :: r.1, r.2)

end

/-- The tree of a whole text; its length is fuel enough. -/
def parse (t : List UInt8) : Option Json :=
  match readValue t.length t with
  | some (v, []) => some v
  | _ => none

/-! ## §3  Strings come back -/

/-- What holds of every byte by computation. -/
theorem forall_byte {P : UInt8 → Prop} (h : ∀ d : Fin 256, P (UInt8.ofFin d))
    (b : UInt8) : P b := h b.toFin

theorem unescape_shortEscape : ∀ b c : UInt8, shortEscape b = some c →
    c ≠ letterU ∧ unescape c = some b := by
  refine forall_byte ?_
  decide +kernel

theorem hexChar_escapeByte : ∀ b : UInt8, b < 32 →
    hexChar 48 48 (hexDigit (b.toNat / 16)) (hexDigit (b.toNat % 16)) =
      some [b] := by
  refine forall_byte ?_
  decide +kernel

theorem plain_of_shortEscape {b : UInt8} (h : shortEscape b = none) :
    b ≠ quotationMark ∧ b ≠ reverseSolidus := by
  constructor
  · rintro rfl
    exact absurd h (by decide)
  · rintro rfl
    exact absurd h (by decide)

theorem readChars_escapeByte (b : UInt8) (t : List UInt8) :
    readChars (escapeByte b ++ t) =
      (readChars t).map fun r => (b :: r.1, r.2) := by
  rw [escapeByte]
  cases hshort : shortEscape b with
  | some c =>
      obtain ⟨hc, hunescape⟩ := unescape_shortEscape b c hshort
      show readChars (reverseSolidus :: c :: t) = _
      rw [readChars.eq_def]
      simp only [reduceIte, if_neg hc, hunescape]
      cases readChars t <;> rfl
  | none =>
      obtain ⟨hquote, hsolidus⟩ := plain_of_shortEscape hshort
      by_cases hcontrol : b < 32
      · have hchar := hexChar_escapeByte b hcontrol
        simp only [if_pos hcontrol, List.cons_append, List.nil_append]
        rw [readChars.eq_def]
        simp only [reduceIte, hchar]
        cases readChars t <;> rfl
      · simp only [if_neg hcontrol, List.cons_append, List.nil_append]
        rw [readChars.eq_def]
        simp only [if_neg hquote, if_neg hsolidus, if_neg hcontrol]
        cases readChars t <;> rfl

theorem readChars_escape (s rest : List UInt8) :
    readChars (escape s ++ quotationMark :: rest) = some (s, rest) := by
  induction s with
  | nil =>
      show readChars (quotationMark :: rest) = _
      rw [readChars.eq_def]
      rfl
  | cons b s ih =>
      rw [escape, List.flatMap_cons, List.append_assoc, readChars_escapeByte]
      change Option.map _ (readChars (escape s ++ _)) = _
      rw [ih]
      rfl

/-! ## §4  Trees come back -/

theorem expect_cons (c : UInt8) (t : List UInt8) : expect c (c :: t) = some t :=
  if_pos rfl

theorem readSeparator_separator (sep : Bool) (t : List UInt8) :
    readSeparator sep (separator sep ++ t) = some t := by
  cases sep with
  | false => rfl
  | true => exact expect_cons comma t

theorem head_intText (n : ℤ) : ∃ b t, intText n = b :: t ∧
    (b = 45 ∨ isDigit b = true) := by
  rw [intText]
  split
  · exact ⟨45, _, rfl, Or.inl rfl⟩
  · obtain ⟨d, ds, htext⟩ := List.exists_cons_of_ne_nil (text_ne_nil n.natAbs)
    have hd : d ∈ text n.natAbs := htext ▸ List.mem_cons_self
    exact ⟨d, ds, htext, Or.inr (isDigit_of_mem_text hd)⟩

/-- The text of a value is not empty and does not look like the end of an
array. -/
theorem head_render (v : Json) :
    ∃ b t, render v = b :: t ∧ b ≠ endArray := by
  cases v with
  | str s => exact ⟨quotationMark, _, by rw [render, quote], by decide⟩
  | num n =>
      obtain ⟨b, t, htext, hb⟩ := head_intText n
      refine ⟨b, t, by rw [render, htext], ?_⟩
      rintro rfl
      exact absurd hb (by decide)
  | bool b =>
      cases b with
      | true => exact ⟨116, lit "rue", by rw [render]; decide, by decide⟩
      | false => exact ⟨102, lit "alse", by rw [render]; decide, by decide⟩
  | arr es => exact ⟨beginArray, _, by rw [render], by decide⟩
  | obj ms => exact ⟨beginObject, _, by rw [render], by decide⟩

/-- Behind a value in an array or an object no digit follows. -/
theorem ends_elements (es : List Json) (rest : List UInt8) :
    Ends (renderElements true es ++ endArray :: rest) := by
  cases es with
  | nil =>
      rw [renderElements]
      rintro _ ⟨⟩
      decide
  | cons e es =>
      rw [renderElements]
      rintro _ ⟨⟩
      decide

theorem ends_members (ms : List (List UInt8 × Json)) (rest : List UInt8) :
    Ends (renderMembers true ms ++ endObject :: rest) := by
  cases ms with
  | nil =>
      rw [renderMembers]
      rintro _ ⟨⟩
      decide
  | cons m ms =>
      rw [renderMembers]
      rintro _ ⟨⟩
      decide

theorem readValue_num (fuel : ℕ) (n : ℤ) {rest : List UInt8} (h : Ends rest) :
    readValue (fuel + 1) (intText n ++ rest) = some (.num n, rest) := by
  have hread := readInt_intText n h
  obtain ⟨b, t, htext, hb⟩ := head_intText n
  -- the reader tries strings, brackets and names before numbers
  have hfirst : ∀ c, c ≠ 45 → isDigit c = false → b ≠ c := by
    rintro _ hsign hdigit rfl
    rcases hb with hb | hb
    · exact hsign hb
    · rw [hdigit] at hb
      cases hb
  have htrue : ((b :: (t ++ rest)).take 4) ≠ lit "true" := by
    intro heq
    exact hfirst 116 (by decide) (by decide) (List.cons.inj heq).1
  have hfalse : ((b :: (t ++ rest)).take 5) ≠ lit "false" := by
    intro heq
    exact hfirst 102 (by decide) (by decide) (List.cons.inj heq).1
  rw [htext, List.cons_append] at hread ⊢
  rw [readValue, if_neg (hfirst _ (by decide) (by decide)),
    if_neg (hfirst _ (by decide) (by decide)),
    if_neg (hfirst _ (by decide) (by decide)), if_neg htrue, if_neg hfalse,
    hread]
  rfl

mutual

theorem readValue_render : ∀ (v : Json) (fuel : ℕ) (rest : List UInt8),
    (render v).length ≤ fuel → Ends rest →
      readValue fuel (render v ++ rest) = some (v, rest)
  | v, 0, rest, hfuel, _ => by
      -- no value has an empty text
      obtain ⟨b, t, hv, -⟩ := head_render v
      rw [hv] at hfuel
      exact absurd hfuel (Nat.not_succ_le_zero _)
  | .str s, fuel + 1, rest, _, _ => by
      have hread := readChars_escape s rest
      rw [render, quote, List.cons_append, List.append_assoc, readValue,
        if_pos rfl]
      change Option.map _ (readChars (escape s ++ quotationMark :: rest)) = _
      rw [hread]
      rfl
  | .num n, fuel + 1, rest, _, hends => by
      rw [render]
      exact readValue_num fuel n hends
  | .bool true, fuel + 1, rest, _, _ => by
      rw [render]
      rfl
  | .bool false, fuel + 1, rest, _, _ => by
      rw [render]
      rfl
  | .arr es, fuel + 1, rest, hfuel, _ => by
      rw [render, List.length_cons, List.length_append,
        List.length_singleton] at hfuel
      have hread := readElements_render es fuel false rest (by omega)
      rw [render, List.cons_append, List.append_assoc, List.singleton_append,
        readValue, if_neg (by decide), if_neg (by decide), if_pos rfl, hread]
      rfl
  | .obj ms, fuel + 1, rest, hfuel, _ => by
      rw [render, List.length_cons, List.length_append,
        List.length_singleton] at hfuel
      have hread := readMembers_render ms fuel false rest (by omega)
      rw [render, List.cons_append, List.append_assoc, List.singleton_append,
        readValue, if_neg (by decide), if_pos rfl, hread]
      rfl

theorem readElements_render : ∀ (es : List Json) (fuel : ℕ) (sep : Bool)
    (rest : List UInt8), (renderElements sep es).length < fuel →
      readElements fuel sep (renderElements sep es ++ endArray :: rest) =
        some (es, rest)
  | _, 0, _, _, hfuel => absurd hfuel (Nat.not_lt_zero _)
  | [], fuel + 1, sep, rest, _ => by
      rw [renderElements, List.nil_append, readElements]
      rfl
  | e :: es, fuel + 1, sep, rest, hfuel => by
      obtain ⟨b, t, hrender, hb⟩ := head_render e
      have hlen : 0 < (render e).length := by rw [hrender]; simp
      rw [renderElements, List.length_append, List.length_append] at hfuel
      have hvalue := readValue_render e fuel _ (by omega) (ends_elements es rest)
      have hrest := readElements_render es fuel true rest (by omega)
      -- the element in front is not taken for the end of the array
      have hhead : (separator sep ++ (render e ++
          (renderElements true es ++ endArray :: rest))).head? ≠
            some endArray := by
        cases sep with
        | true => exact fun h => absurd (Option.some.inj h) (by decide)
        | false =>
            rw [hrender]
            exact fun h => hb (Option.some.inj h)
      rw [renderElements, List.append_assoc, List.append_assoc, readElements,
        if_neg hhead, readSeparator_separator]
      simp only [Option.bind_eq_bind, Option.bind_some, hvalue, hrest]

theorem readMembers_render : ∀ (ms : List (List UInt8 × Json)) (fuel : ℕ)
    (sep : Bool) (rest : List UInt8), (renderMembers sep ms).length < fuel →
      readMembers fuel sep (renderMembers sep ms ++ endObject :: rest) =
        some (ms, rest)
  | _, 0, _, _, hfuel => absurd hfuel (Nat.not_lt_zero _)
  | [], fuel + 1, sep, rest, _ => by
      rw [renderMembers, List.nil_append, readMembers]
      rfl
  | (k, v) :: ms, fuel + 1, sep, rest, hfuel => by
      rw [renderMembers] at hfuel
      simp only [List.length_append, List.length_cons] at hfuel
      have hvalue := readValue_render v fuel _ (by omega) (ends_members ms rest)
      have hrest := readMembers_render ms fuel true rest (by omega)
      have htext : renderMembers sep ((k, v) :: ms) ++ endObject :: rest =
          separator sep ++ quotationMark :: (escape k ++ quotationMark ::
            (colon :: (render v ++
              (renderMembers true ms ++ endObject :: rest)))) := by
        simp [renderMembers, quote]
      have hhead : (renderMembers sep ((k, v) :: ms) ++
          endObject :: rest).head? ≠ some endObject := by
        rw [htext]
        cases sep with
        | true => exact fun h => absurd (Option.some.inj h) (by decide)
        | false => exact fun h => absurd (Option.some.inj h) (by decide)
      rw [readMembers, if_neg hhead, htext, readSeparator_separator]
      simp only [Option.bind_eq_bind, Option.bind_some, expect_cons,
        readChars_escape, hvalue, hrest]

end

/-- **Round trip.** -/
theorem parse_render (v : Json) : parse (render v) = some v := by
  have hread := readValue_render v (render v).length [] (Nat.le_refl _) nofun
  rw [List.append_nil] at hread
  rw [parse, hread]

/-! ## §5  Sizes -/

theorem length_escapeByte_le : ∀ b : UInt8, (escapeByte b).length ≤ 6 := by
  refine forall_byte ?_
  decide +kernel

theorem length_quote_le (s : List UInt8) :
    (quote s).length ≤ 6 * s.length + 2 := by
  have hescape : (escape s).length ≤ 6 * s.length := by
    induction s with
    | nil => exact Nat.le_refl 0
    | cons b s ih =>
        have hb := length_escapeByte_le b
        rw [escape, List.flatMap_cons, List.length_append, List.length_cons]
        change _ + (escape s).length ≤ _
        omega
  rw [quote, List.length_cons, List.length_append, List.length_singleton]
  omega

/-- An upper bound of the text of members, from their keys and values. -/
def weight : List (List UInt8 × Json) → ℕ
  | [] => 0
  | (k, v) :: ms => 6 * k.length + (render v).length + 4 + weight ms

@[simp] theorem weight_append (ms ns : List (List UInt8 × Json)) :
    weight (ms ++ ns) = weight ms + weight ns := by
  induction ms with
  | nil => simp [weight]
  | cons m ms ih =>
      rw [List.cons_append, weight, weight, ih]
      omega

theorem length_renderMembers_le (sep : Bool)
    (ms : List (List UInt8 × Json)) :
    (renderMembers sep ms).length ≤ weight ms := by
  induction ms generalizing sep with
  | nil =>
      rw [renderMembers]
      exact Nat.le_refl 0
  | cons m ms ih =>
      have hrest := ih true
      have hquote := length_quote_le m.1
      have hsep : (separator sep).length ≤ 1 := by cases sep <;> decide
      rw [renderMembers, weight]
      simp only [List.length_append, List.length_cons]
      omega

theorem length_render_obj_le (ms : List (List UInt8 × Json)) :
    (render (.obj ms)).length ≤ weight ms + 2 := by
  have hms := length_renderMembers_le false ms
  rw [render, List.length_cons, List.length_append, List.length_singleton]
  omega

/-! ## §6  Encoding -/

open Utf8

mutual

/-- Every string of the tree, keys included, satisfies `P`. -/
def Strings (P : List UInt8 → Prop) : Json → Prop
  | .str s => P s
  | .num _ => True
  | .bool _ => True
  | .arr es => ElementStrings P es
  | .obj ms => MemberStrings P ms

def ElementStrings (P : List UInt8 → Prop) : List Json → Prop
  | [] => True
  | e :: es => Strings P e ∧ ElementStrings P es

def MemberStrings (P : List UInt8 → Prop) : List (List UInt8 × Json) → Prop
  | [] => True
  | (k, v) :: ms => P k ∧ Strings P v ∧ MemberStrings P ms

end

theorem memberStrings_append (P : List UInt8 → Prop)
    (ms ns : List (List UInt8 × Json)) :
    MemberStrings P (ms ++ ns) ↔ MemberStrings P ms ∧ MemberStrings P ns := by
  induction ms with
  | nil =>
      rw [List.nil_append, MemberStrings, true_and]
  | cons m ms ih =>
      rw [List.cons_append, MemberStrings, MemberStrings, ih, and_assoc,
        and_assoc]

/-- A byte stands for itself, or it is ASCII and so is what stands for it. -/
theorem escapeByte_cases : ∀ b : UInt8, escapeByte b = [b] ∨
    b.toNat < 128 ∧ (escapeByte b).head? = some reverseSolidus ∧
      ∀ c ∈ escapeByte b, c.toNat < 128 := by
  refine forall_byte ?_
  decide +kernel

theorem valid_escape_iff (s : List UInt8) : Valid (escape s) ↔ Valid s := by
  suffices go : ∀ s front : List UInt8,
      Valid (front ++ escape s) ↔ Valid (front ++ s) from go s []
  intro s
  induction s with
  | nil => exact fun _ => Iff.rfl
  | cons b s ih =>
      intro front
      have hcons : escape (b :: s) = escapeByte b ++ escape s :=
        List.flatMap_cons
      rw [hcons]
      rcases escapeByte_cases b with hself | ⟨hb, hhead, hascii⟩
      · -- the byte may belong to a character that begins in `front`
        have hfront := ih (front ++ [b])
        rw [List.append_assoc, List.append_assoc] at hfront
        rwa [hself]
      · have hs : Valid (escape s) ↔ Valid s := ih []
        rw [valid_append_ascii_iff hb, valid_append_of_head,
          valid_ascii_append_iff hascii, hs]
        intro c hc
        rw [List.head?_append, hhead] at hc
        cases hc
        decide

theorem valid_quote_iff (s : List UInt8) : Valid (quote s) ↔ Valid s := by
  have hlast : Valid (escape s ++ [quotationMark]) ↔ Valid (escape s) :=
    valid_append_iff (valid_ascii (by decide)) (List.cons_ne_nil _ _)
  rw [quote, valid_ascii_cons_iff (by decide), hlast, valid_escape_iff]

theorem valid_intText (n : ℤ) : Valid (intText n) := by
  have hdigit : ∀ b : UInt8, isDigit b = true → b.toNat < 128 := by
    refine forall_byte ?_
    decide +kernel
  have htext : Valid (text n.natAbs) :=
    valid_of_ascii fun b hb => hdigit b (isDigit_of_mem_text hb)
  rw [intText]
  split
  · exact (valid_ascii_cons_iff (by decide)).mpr htext
  · exact htext

theorem valid_separator_append_iff (sep : Bool) (t : List UInt8) :
    Valid (separator sep ++ t) ↔ Valid t := by
  cases sep with
  | false => rfl
  | true => exact valid_ascii_cons_iff (by decide)

mutual

/-- **The text is valid exactly when the strings are.** -/
theorem valid_render_iff : ∀ v : Json, Valid (render v) ↔ Strings Valid v
  | .str s => by rw [render, Strings, valid_quote_iff]
  | .num n => by
      rw [render, Strings]
      exact iff_true_intro (valid_intText n)
  | .bool true => by
      rw [render, Strings]
      exact iff_true_intro (valid_lit "true")
  | .bool false => by
      rw [render, Strings]
      exact iff_true_intro (valid_lit "false")
  | .arr es => by
      have hend : Valid [endArray] := valid_ascii (by decide)
      rw [render, Strings, valid_ascii_cons_iff (by decide),
        valid_append_iff hend (List.cons_ne_nil _ _),
        valid_renderElements_iff es]
  | .obj ms => by
      have hend : Valid [endObject] := valid_ascii (by decide)
      rw [render, Strings, valid_ascii_cons_iff (by decide),
        valid_append_iff hend (List.cons_ne_nil _ _),
        valid_renderMembers_iff ms]

theorem valid_renderElements_iff : ∀ (es : List Json) {sep : Bool},
    Valid (renderElements sep es) ↔ ElementStrings Valid es
  | [], _ => by
      rw [renderElements, ElementStrings]
      exact iff_true_intro (valid_chars [])
  | e :: es, sep => by
      have hhead : ∀ c ∈ (renderElements true es).head?, c.toNat < 128 := by
        cases es with
        | nil => exact nofun
        | cons e es =>
            rw [renderElements]
            rintro _ ⟨⟩
            decide
      rw [renderElements, ElementStrings, List.append_assoc,
        valid_separator_append_iff, valid_append_of_head hhead,
        valid_render_iff e, valid_renderElements_iff es]

theorem valid_renderMembers_iff : ∀ (ms : List (List UInt8 × Json))
    {sep : Bool}, Valid (renderMembers sep ms) ↔ MemberStrings Valid ms
  | [], _ => by
      rw [renderMembers, MemberStrings]
      exact iff_true_intro (valid_chars [])
  | (k, v) :: ms, sep => by
      have hhead : ∀ c ∈ (renderMembers true ms).head?, c.toNat < 128 := by
        cases ms with
        | nil => exact nofun
        | cons m ms =>
            rw [renderMembers]
            rintro _ ⟨⟩
            decide
      rw [renderMembers, MemberStrings, valid_append_of_head hhead,
        List.append_assoc, valid_separator_append_iff,
        valid_append_ascii_iff (by decide), valid_quote_iff,
        valid_render_iff v, valid_renderMembers_iff ms, and_assoc]

end

/-! ## §7  Members -/

def member (k : List UInt8) : Json → Option Json
  | .obj ms => ms.lookup k
  | _ => none

theorem member_append (k : List UInt8) (ms ns : List (List UInt8 × Json)) :
    member k (.obj (ms ++ ns)) =
      (member k (.obj ms)).or (member k (.obj ns)) :=
  List.lookup_append

theorem member_single (k k' : List UInt8) (v : Json) :
    member k (.obj [(k', v)]) = if k = k' then some v else none := by
  rw [member, List.lookup_cons]
  by_cases hk : k = k'
  · simp [hk]
  · have hbeq : (k == k') = false := by simpa using hk
    rw [hbeq, if_neg hk]
    rfl

theorem member_if {p : Prop} [Decidable p] (k k' : List UInt8) (v : Json) :
    member k (.obj (if p then [(k', v)] else [])) =
      if p ∧ k = k' then some v else none := by
  by_cases hp : p
  · simp [hp, member_single]
  · simp [hp, member]

end Json
