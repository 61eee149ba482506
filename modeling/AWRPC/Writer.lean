import AWRPC.Itoa
import AWRPC.Lib.JsonText

/-!
# The JSON writer

`rapidjson/writer.h` as `serialization.h` instantiates it: a writer into a
`DirectStringBuffer` with a stack of at most 128 levels. A failed assertion, and
a level too many, are `none`. `WritesValue`, `WritesElements` and `WritesMembers`
say that a piece of writing code appends the text of a tree; the rules below
follow the shape of the code.
-/

namespace AWRPC

open Bytes Decimal Json

/-! ## §1  `DirectStringBuffer` -/

/-- The bytes up to `current_`, and the room there is in all. -/
structure DirectStringBuffer where
  buffer_ : List UInt8
  maxLen : ℕ
deriving DecidableEq

namespace DirectStringBuffer

/-- A byte for which there is no room is dropped. -/
def put (b : DirectStringBuffer) (c : UInt8) : DirectStringBuffer :=
  if b.buffer_.length < b.maxLen then { b with buffer_ := b.buffer_ ++ [c] }
  else b

def putAll (b : DirectStringBuffer) (s : List UInt8) : DirectStringBuffer :=
  s.foldl put b

/-- The buffer after `t` has been put into `maxLen` bytes. -/
def filled (maxLen : ℕ) (t : List UInt8) : DirectStringBuffer :=
  ⟨t.take maxLen, maxLen⟩

@[simp] theorem put_filled (maxLen : ℕ) (t : List UInt8) (c : UInt8) :
    (filled maxLen t).put c = filled maxLen (t ++ [c]) := by
  rw [put, filled, filled]
  rcases Nat.lt_or_ge t.length maxLen with hlt | hge
  · have hroom : (t.take maxLen).length < maxLen := by
      rw [List.length_take]
      omega
    rw [if_pos hroom, List.take_of_length_le (Nat.le_of_lt hlt),
      List.take_of_length_le (by simp; omega)]
  · have hfull : ¬ (t.take maxLen).length < maxLen := by
      rw [List.length_take]
      omega
    rw [if_neg hfull, List.take_append_of_le_length hge]

@[simp] theorem putAll_filled (maxLen : ℕ) (t s : List UInt8) :
    (filled maxLen t).putAll s = filled maxLen (t ++ s) := by
  induction s generalizing t with
  | nil => simp [putAll]
  | cons c s ih =>
      have hput : (filled maxLen t).putAll (c :: s) =
          ((filled maxLen t).put c).putAll s := rfl
      rw [hput, put_filled, ih, List.append_assoc]
      rfl

end DirectStringBuffer

/-! ## §2  The writer -/

inductive JsonType where
  | kNullType | kFalseType | kTrueType | kObjectType | kArrayType
  | kStringType | kNumberType
deriving DecidableEq

structure Level where
  valueCount : ℕ
  inArray : Bool
deriving DecidableEq

/-- The levels are kept with the top of the stack in front. -/
structure Writer where
  os_ : DirectStringBuffer
  level_stack_ : List Level
  hasRoot_ : Bool
deriving DecidableEq

/-- `2048 / (2 * sizeof(size_t))` -/
def WriterNestingLevels : ℕ := 128

def hexDigits : List UInt8 := lit "0123456789ABCDEF"

/-- The table `escape`, row by row. -/
def escapeTable : List UInt8 :=
  lit "uuuuuuuubtnufruu" ++ lit "uuuuuuuuuuuuuuuu" ++
    ([0, 0, 34] ++ List.replicate 13 0) ++ List.replicate 32 0 ++
    (List.replicate 12 0 ++ [92, 0, 0, 0]) ++ List.replicate 160 0

namespace Writer

def new (maxLen : ℕ) : Writer := ⟨⟨[], maxLen⟩, [], false⟩

/-- `Prefix`: the comma or the colon in front of a value that is not the first
of its level. -/
def prefixValue (w : Writer) (type : JsonType) : Option Writer :=
  match w.level_stack_ with
  | level :: levels =>
      let os_ :=
        if level.valueCount > 0 then
          if level.inArray then w.os_.put comma
          else w.os_.put (if level.valueCount % 2 = 0 then comma else colon)
        else w.os_
      if !level.inArray && level.valueCount % 2 = 0 && type ≠ .kStringType then
        none
      else
        some
          { w with
            os_ := os_
            level_stack_ :=
              { level with valueCount := level.valueCount + 1 } :: levels }
  | [] => if w.hasRoot_ then none else some { w with hasRoot_ := true }

def writeChar (os_ : DirectStringBuffer) (c : UInt8) : DirectStringBuffer :=
  let e := escapeTable.getD c.toNat 0
  if e ≠ 0 then
    let os_ := (os_.put reverseSolidus).put e
    if e = letterU then
      (((os_.put 48).put 48).put (hexDigits.getD (c >>> 4).toNat 0)).put
        (hexDigits.getD (c &&& 0xF).toNat 0)
    else os_
  else os_.put c

/-- `WriteString`, without validation of the encoding. -/
def writeString (os_ : DirectStringBuffer) (str : List UInt8) :
    DirectStringBuffer :=
  (str.foldl writeChar (os_.put quotationMark)).put quotationMark

/-- `String(str)`; `StrLen` counts in 32 bits. -/
def string (str : List UInt8) (w : Writer) : Option Writer := do
  let w ← w.prefixValue .kStringType
  let length := str.length % 2 ^ 32
  some { w with os_ := writeString w.os_ (str.take length) }

def key (str : List UInt8) (w : Writer) : Option Writer := w.string str

def int (i : Int32) (w : Writer) : Option Writer := do
  let w ← w.prefixValue .kNumberType
  some { w with os_ := w.os_.putAll (i32toa i) }

def int64 (i64 : Int64) (w : Writer) : Option Writer := do
  let w ← w.prefixValue .kNumberType
  some { w with os_ := w.os_.putAll (i64toa i64) }

def bool (b : Bool) (w : Writer) : Option Writer := do
  let w ← w.prefixValue (if b then .kTrueType else .kFalseType)
  some { w with os_ := w.os_.putAll (if b then lit "true" else lit "false") }

/-- `level_stack_.Push<Level>()`: the allocator has no room for one more. -/
def push (level : Level) (w : Writer) : Option Writer :=
  if w.level_stack_.length < WriterNestingLevels then
    some { w with level_stack_ := level :: w.level_stack_ }
  else none

def startObject (w : Writer) : Option Writer := do
  let w ← w.prefixValue .kObjectType
  let w ← w.push ⟨0, false⟩
  some { w with os_ := w.os_.put beginObject }

def endObject (w : Writer) : Option Writer :=
  match w.level_stack_ with
  | level :: levels =>
      if level.inArray || level.valueCount % 2 ≠ 0 then none
      else
        some
          { w with
            os_ := w.os_.put Json.endObject
            level_stack_ := levels }
  | [] => none

def startArray (w : Writer) : Option Writer := do
  let w ← w.prefixValue .kArrayType
  let w ← w.push ⟨0, true⟩
  some { w with os_ := w.os_.put beginArray }

def endArray (w : Writer) : Option Writer :=
  match w.level_stack_ with
  | level :: levels =>
      if level.inArray then
        some
          { w with
            os_ := w.os_.put Json.endArray
            level_stack_ := levels }
      else none
  | [] => none

end Writer

/-! ## §3  What one call writes -/

/-- What `Prefix` puts in front of the next value of a level. -/
def Level.mark (l : Level) : List UInt8 :=
  if l.valueCount = 0 then []
  else if l.inArray ∨ l.valueCount % 2 = 0 then [comma]
  else [colon]

def Level.next (l : Level) : Level := { l with valueCount := l.valueCount + 1 }

/-- An even position of an object takes a key only. -/
def Level.Takes (l : Level) (type : JsonType) : Prop :=
  l.inArray = true ∨ l.valueCount % 2 = 1 ∨ type = .kStringType

/-- The table holds the escapes of JSON. -/
theorem escapeTable_eq : ∀ c : UInt8, escapeByte c =
    let e := escapeTable.getD c.toNat 0
    if e ≠ 0 then
      if e = letterU then
        [reverseSolidus, e, 48, 48, hexDigits.getD (c >>> 4).toNat 0,
          hexDigits.getD (c &&& 0xF).toNat 0]
      else [reverseSolidus, e]
    else [c] := by
  refine forall_byte ?_
  decide +kernel

open DirectStringBuffer in
theorem writeChar_filled (maxLen : ℕ) (t : List UInt8) (c : UInt8) :
    Writer.writeChar (filled maxLen t) c =
      filled maxLen (t ++ escapeByte c) := by
  rw [escapeTable_eq c]
  simp only [Writer.writeChar]
  split
  · split
    · simp
    · simp
  · simp

open DirectStringBuffer in
theorem writeString_filled (maxLen : ℕ) (t str : List UInt8) :
    Writer.writeString (filled maxLen t) str =
      filled maxLen (t ++ quote str) := by
  have hfold : ∀ u, str.foldl Writer.writeChar (filled maxLen u) =
      filled maxLen (u ++ escape str) := by
    induction str with
    | nil => simp [escape]
    | cons c str ih =>
        intro u
        rw [List.foldl_cons, writeChar_filled, ih, List.append_assoc]
        rfl
  rw [Writer.writeString, put_filled, hfold, put_filled, quote]
  simp

/-- The writer after `t`, inside the levels `ls`. -/
def writing (maxLen : ℕ) (t : List UInt8) (ls : List Level) (root : Bool) :
    Writer :=
  ⟨.filled maxLen t, ls, root⟩

section Calls

variable {maxLen : ℕ} {t : List UInt8} {l : Level} {ls : List Level}
  {root : Bool}

theorem prefixValue_writing {type : JsonType} (h : l.Takes type) :
    (writing maxLen t (l :: ls) root).prefixValue type =
      some (writing maxLen (t ++ l.mark) (l.next :: ls) root) := by
  have hassert : ¬ (!l.inArray && l.valueCount % 2 = 0 &&
      type ≠ .kStringType) = true := by
    rcases h with h | h | h
    · simp [h]
    · simp [h]
    · simp [h]
  simp only [Writer.prefixValue, writing, if_neg hassert]
  congr 2
  rw [Level.mark]
  rcases Nat.eq_zero_or_pos l.valueCount with hzero | hpos
  · simp [hzero]
  · rw [if_pos hpos, if_neg (Nat.ne_of_gt hpos)]
    by_cases harray : l.inArray = true
    · simp [harray]
    · by_cases heven : l.valueCount % 2 = 0
      · simp [heven]
      · simp [harray, heven]

theorem string_writing {s : List UInt8} (h : l.Takes .kStringType)
    (hs : s.length < 2 ^ 32) :
    Writer.string s (writing maxLen t (l :: ls) root) =
      some (writing maxLen (t ++ l.mark ++ quote s) (l.next :: ls) root) := by
  have htake : s.take (s.length % 2 ^ 32) = s := by
    rw [Nat.mod_eq_of_lt hs, List.take_length]
  simp only [Writer.string, prefixValue_writing h, Option.bind_eq_bind,
    Option.bind_some, htake]
  rw [writing, writeString_filled]
  rfl

theorem push_writing {level : Level} (h : ls.length < WriterNestingLevels) :
    (writing maxLen t ls root).push level =
      some (writing maxLen t (level :: ls) root) :=
  if_pos h

theorem startObject_writing (hl : l.inArray = true ∨ l.valueCount % 2 = 1)
    (hroom : ls.length + 1 < WriterNestingLevels) :
    (writing maxLen t (l :: ls) root).startObject =
      some (writing maxLen (t ++ l.mark ++ [beginObject])
        (⟨0, false⟩ :: l.next :: ls) root) := by
  have htakes : l.Takes .kObjectType := hl.imp_right Or.inl
  simp only [Writer.startObject, prefixValue_writing htakes,
    Option.bind_eq_bind, Option.bind_some]
  rw [push_writing (by simpa using hroom)]
  simp [writing]

theorem startArray_writing (hl : l.inArray = true ∨ l.valueCount % 2 = 1)
    (hroom : ls.length + 1 < WriterNestingLevels) :
    (writing maxLen t (l :: ls) root).startArray =
      some (writing maxLen (t ++ l.mark ++ [beginArray])
        (⟨0, true⟩ :: l.next :: ls) root) := by
  have htakes : l.Takes .kArrayType := hl.imp_right Or.inl
  simp only [Writer.startArray, prefixValue_writing htakes,
    Option.bind_eq_bind, Option.bind_some]
  rw [push_writing (by simpa using hroom)]
  simp [writing]

/-- The first object of a text has nothing in front. -/
theorem startObject_new :
    (Writer.new maxLen).startObject =
      some (writing maxLen [beginObject] [⟨0, false⟩] true) := by
  have hbuffer : (⟨[], maxLen⟩ : DirectStringBuffer) = .filled maxLen [] := by
    rw [DirectStringBuffer.filled, List.take_nil]
  have hnew : Writer.new maxLen = writing maxLen [] [] false := by
    rw [Writer.new, hbuffer, writing]
  simp [hnew, Writer.startObject, Writer.prefixValue, Writer.push, writing,
    WriterNestingLevels]

theorem endObject_writing (n : ℕ) :
    (writing maxLen t (⟨2 * n, false⟩ :: ls) root).endObject =
      some (writing maxLen (t ++ [endObject]) ls root) := by
  simp [Writer.endObject, writing]

theorem endArray_writing (n : ℕ) :
    (writing maxLen t (⟨n, true⟩ :: ls) root).endArray =
      some (writing maxLen (t ++ [endArray]) ls root) := by
  simp [Writer.endArray, writing]

end Calls

/-! ## §4  What a piece of code writes -/

/-- A piece of code that writes. -/
abbrev Write := Writer → Option Writer

/-- `WriteObject` of `serialization.cpp`, around the code of its scope. -/
def writeObject (body : Write) : Write :=
  Writer.startObject >=> body >=> Writer.endObject

/-- The array of `WriteArray`, behind its key. -/
def writeArray (body : Write) : Write :=
  Writer.startArray >=> body >=> Writer.endArray

/-- `f` writes one value, where there is room for `depth` further levels. -/
def WritesValue (depth : ℕ) (f : Write) (v : Json) : Prop :=
  ∀ maxLen t l ls root, (l.inArray = true ∨ l.valueCount % 2 = 1) →
    ls.length + 1 + depth ≤ WriterNestingLevels →
      f (writing maxLen t (l :: ls) root) =
        some (writing maxLen (t ++ l.mark ++ v.render) (l.next :: ls) root)

/-- `f` writes elements of an array. -/
def WritesElements (depth : ℕ) (f : Write) (es : List Json) : Prop :=
  ∀ maxLen t k ls root, ls.length + 1 + depth ≤ WriterNestingLevels →
    f (writing maxLen t (⟨k, true⟩ :: ls) root) =
      some (writing maxLen (t ++ renderElements (0 < k) es)
        (⟨k + es.length, true⟩ :: ls) root)

/-- `f` writes members of an object. -/
def WritesMembers (depth : ℕ) (f : Write) (ms : List (List UInt8 × Json)) :
    Prop :=
  ∀ maxLen t k ls root, ls.length + 1 + depth ≤ WriterNestingLevels →
    f (writing maxLen t (⟨2 * k, false⟩ :: ls) root) =
      some (writing maxLen (t ++ renderMembers (0 < k) ms)
        (⟨2 * (k + ms.length), false⟩ :: ls) root)

section Rules

variable {depth : ℕ} {f g : Write}

theorem andThen_eq (w : Writer) : (f >=> g) w = (f w).bind g := rfl

theorem writesValue_string {s : List UInt8} (hs : s.length < 2 ^ 32) :
    WritesValue depth (Writer.string s) (.str s) := by
  intro maxLen t l ls root hl _
  have htakes : l.Takes .kStringType := Or.inr (Or.inr rfl)
  rw [string_writing htakes hs, Json.render]

theorem writesValue_int (i : Int32) :
    WritesValue depth (Writer.int i) (.num i.toInt) := by
  intro maxLen t l ls root hl _
  have htakes : l.Takes .kNumberType := hl.imp_right Or.inl
  simp only [Writer.int, prefixValue_writing htakes, Option.bind_eq_bind,
    Option.bind_some, i32toa_eq]
  simp [writing, Json.render]

theorem writesValue_int64 (i64 : Int64) :
    WritesValue depth (Writer.int64 i64) (.num i64.toInt) := by
  intro maxLen t l ls root hl _
  have htakes : l.Takes .kNumberType := hl.imp_right Or.inl
  simp only [Writer.int64, prefixValue_writing htakes, Option.bind_eq_bind,
    Option.bind_some, i64toa_eq]
  simp [writing, Json.render]

theorem writesValue_bool (b : Bool) :
    WritesValue depth (Writer.bool b) (.bool b) := by
  intro maxLen t l ls root hl _
  have htakes : ∀ type, l.Takes type := fun type => hl.imp_right Or.inl
  simp only [Writer.bool, prefixValue_writing (htakes _), Option.bind_eq_bind,
    Option.bind_some]
  cases b with
  | true => simp [writing, Json.render]
  | false => simp [writing, Json.render]

theorem writesElements_value {v : Json} (hf : WritesValue depth f v) :
    WritesElements depth f [v] := by
  intro maxLen t k ls root hroom
  have hmark : (Level.mark ⟨k, true⟩) = separator (0 < k) := by
    cases k with
    | zero => rfl
    | succ k => simp [Level.mark, separator]
  rw [hf maxLen t ⟨k, true⟩ ls root (Or.inl rfl) hroom, hmark, renderElements,
    renderElements, List.append_nil, List.append_assoc]
  rfl

theorem WritesElements.append {es fs : List Json}
    (hf : WritesElements depth f es) (hg : WritesElements depth g fs) :
    WritesElements depth (f >=> g) (es ++ fs) := by
  intro maxLen t k ls root hroom
  rw [andThen_eq, hf maxLen t k ls root hroom, Option.bind_some,
    hg maxLen _ _ ls root hroom, renderElements_append, List.append_assoc,
    List.length_append, Nat.add_assoc]

theorem writesMembers_nil : WritesMembers depth some [] := by
  intro maxLen t k ls root _
  rw [renderMembers, List.append_nil]
  rfl

theorem WritesMembers.append {ms ns : List (List UInt8 × Json)}
    (hf : WritesMembers depth f ms) (hg : WritesMembers depth g ns) :
    WritesMembers depth (f >=> g) (ms ++ ns) := by
  intro maxLen t k ls root hroom
  rw [andThen_eq, hf maxLen t k ls root hroom, Option.bind_some,
    hg maxLen _ _ ls root hroom, renderMembers_append, List.append_assoc,
    List.length_append, Nat.add_assoc]

/-- A key and its value. -/
theorem WritesValue.member {v : Json} {k : List UInt8}
    (hf : WritesValue depth f v) (hk : k.length < 2 ^ 32) :
    WritesMembers depth (Writer.key k >=> f) [(k, v)] := by
  intro maxLen t n ls root hroom
  have hmark : (Level.mark ⟨2 * n, false⟩) = separator (0 < n) := by
    cases n with
    | zero => rfl
    | succ n => simp [Level.mark, separator]
  have hcolon : (Level.mark ⟨2 * n + 1, false⟩) = [colon] := by
    rw [Level.mark, if_neg (Nat.succ_ne_zero _), if_neg]
    simp
  rw [andThen_eq, Writer.key, string_writing (Or.inr (Or.inr rfl)) hk,
    Option.bind_some,
    hf maxLen _ _ ls root (Or.inr (by simp [Level.next])) hroom]
  -- the key takes an even place of the level, its value the odd one behind it
  show some (writing maxLen (t ++ Level.mark ⟨2 * n, false⟩ ++ quote k ++
    Level.mark ⟨2 * n + 1, false⟩ ++ v.render)
      (⟨2 * n + 2, false⟩ :: ls) root) = _
  rw [hmark, hcolon, renderMembers, renderMembers]
  simp [Nat.mul_add]

/-- A member in front of others. -/
theorem WritesValue.cons {v : Json} {k : List UInt8}
    {ms : List (List UInt8 × Json)} (hf : WritesValue depth f v)
    (hk : k.length < 2 ^ 32) (hg : WritesMembers depth g ms) :
    WritesMembers depth (Writer.key k >=> f >=> g) ((k, v) :: ms) := by
  have happend := (hf.member hk).append hg
  have hassoc : ((Writer.key k >=> f) >=> g) =
      (Writer.key k >=> f >=> g) := by
    funext w
    exact Option.bind_assoc (Writer.key k w) f g
  rwa [hassoc] at happend

theorem writesMembers_if {ms : List (List UInt8 × Json)} (p : Prop)
    [Decidable p] (hf : WritesMembers depth f ms) :
    WritesMembers depth (if p then f else some) (if p then ms else []) := by
  by_cases hp : p
  · rw [if_pos hp, if_pos hp]
    exact hf
  · rw [if_neg hp, if_neg hp]
    exact writesMembers_nil

theorem writesValue_object {ms : List (List UInt8 × Json)}
    (hf : WritesMembers depth f ms) :
    WritesValue (depth + 1) (writeObject f) (.obj ms) := by
  intro maxLen t l ls root hl hroom
  have hbody := hf maxLen (t ++ l.mark ++ [beginObject]) 0 (l.next :: ls) root
    (by rw [List.length_cons]; omega)
  rw [writeObject, andThen_eq, startObject_writing hl (by omega),
    Option.bind_some, andThen_eq, hbody, Option.bind_some, endObject_writing,
    Json.render]
  simp

theorem writesValue_array {es : List Json}
    (hf : WritesElements depth f es) :
    WritesValue (depth + 1) (writeArray f) (.arr es) := by
  intro maxLen t l ls root hl hroom
  have hbody := hf maxLen (t ++ l.mark ++ [beginArray]) 0 (l.next :: ls) root
    (by rw [List.length_cons]; omega)
  rw [writeArray, andThen_eq, startArray_writing hl (by omega),
    Option.bind_some, andThen_eq, hbody, Option.bind_some, endArray_writing,
    Json.render]
  simp

/-- **A whole text.** A writer on `maxLen` bytes ends with the text of the
object, as far as there is room. -/
theorem WritesMembers.text {ms : List (List UInt8 × Json)} (maxLen : ℕ)
    (hf : WritesMembers depth f ms) (hdepth : depth < WriterNestingLevels) :
    writeObject f (Writer.new maxLen) =
      some (writing maxLen (Json.obj ms).render [] true) := by
  have hroom : ([] : List Level).length + 1 + depth ≤ WriterNestingLevels := by
    rw [List.length_nil]
    omega
  have hbody := hf maxLen [beginObject] 0 [] true hroom
  rw [writeObject, andThen_eq, startObject_new, Option.bind_some, andThen_eq,
    hbody, Option.bind_some, endObject_writing, Json.render]
  simp

end Rules

end AWRPC
