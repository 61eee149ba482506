import AWRPC.Lib.JsonGrammar

/-!
# The JSON reader

`rapidjson/reader.h` with the handlers of `rapidjson/document.h`, as
`ParseInsitu` of a `JsonDocument` runs them: no parse flag but the one for
parsing in place. A reader function takes what is left of the text and gives
back what it leaves; errors count the bytes left. The value of a number that is
no 64-bit integer is floating-point arithmetic and a parameter, `none` where it
exceeds the largest double. The build is one with assertions: both Release
configurations define `NDEBUG`, and there an assertion that fails here is passed.
-/

namespace AWRPC

open Bytes Decimal Json

inductive ParseErrorCode where
  | kParseErrorDocumentEmpty
  | kParseErrorDocumentRootNotSingular
  | kParseErrorValueInvalid
  | kParseErrorObjectMissName
  | kParseErrorObjectMissColon
  | kParseErrorObjectMissCommaOrCurlyBracket
  | kParseErrorArrayMissCommaOrSquareBracket
  | kParseErrorStringUnicodeEscapeInvalidHex
  | kParseErrorStringUnicodeSurrogateInvalid
  | kParseErrorStringEscapeInvalid
  | kParseErrorStringMissQuotationMark
  | kParseErrorStringInvalidEncoding
  | kParseErrorNumberTooBig
  | kParseErrorNumberMissFraction
  | kParseErrorNumberMissExponent
deriving DecidableEq

/-- How a reader function stops short: with a parse error, at a failed
assertion, or out of fuel, which no text brings about. -/
inductive Stop where
  | parseError (code : ParseErrorCode) (left : ℕ)
  | assertion
  | fuel
deriving DecidableEq

/-- The integer constructors of `GenericValue`, by the type of their argument. -/
inductive Number (δ : Type) where
  | int (i : Int32)
  | uint (u : UInt32)
  | int64 (i64 : Int64)
  | uint64 (u64 : UInt64)
  | double (d : δ)
deriving DecidableEq

abbrev Value (δ τ : Type) := JsonTree (Number δ) τ

namespace Reader

open ParseErrorCode

/-! ## §1  Bytes -/

/-- The byte at the read position; the terminating NUL where nothing is left. -/
def peek (src : List UInt8) : UInt8 := src.headD 0

def consume (c : UInt8) (src : List UInt8) : Option (List UInt8) :=
  if peek src = c then some src.tail else none

/-- `Consume` of one letter after the other, up to the first that is missing. -/
def consumeEach : List UInt8 → List UInt8 → Bool × List UInt8
  | [], src => (true, src)
  | c :: cs, src =>
      match consume c src with
      | some src => consumeEach cs src
      | none => (false, src)

def isWhitespace (b : UInt8) : Bool := b = 32 || b = 10 || b = 13 || b = 9

def skipWhitespace (src : List UInt8) : List UInt8 := src.dropWhile isWhitespace

/-! ## §2  Strings -/

/-- The table `escape`, row by row. -/
def escapeTable : List UInt8 :=
  List.replicate 32 0 ++ ([0, 0, 34] ++ List.replicate 12 0 ++ [47]) ++
    List.replicate 32 0 ++ (List.replicate 12 0 ++ [92, 0, 0, 0]) ++
    [0, 0, 8, 0, 0, 0, 12, 0, 0, 0, 0, 0, 0, 0, 10, 0] ++
    ([0, 0, 13, 0, 9] ++ List.replicate 11 0) ++ List.replicate 128 0

/-- `ParseHex4`, with `n` digits to go; errors are put at the backslash. -/
def parseHex4 (escapeLeft : ℕ) : ℕ → UInt32 → List UInt8 →
    Except Stop (UInt32 × List UInt8)
  | 0, codepoint, src => .ok (codepoint, src)
  | n + 1, codepoint, src =>
      let c := peek src
      let codepoint := (codepoint <<< 4) + c.toUInt32
      if 48 ≤ c ∧ c ≤ 57 then
        parseHex4 escapeLeft n (codepoint - 48) src.tail
      else if 65 ≤ c ∧ c ≤ 70 then
        parseHex4 escapeLeft n (codepoint - 55) src.tail
      else if 97 ≤ c ∧ c ≤ 102 then
        parseHex4 escapeLeft n (codepoint - 87) src.tail
      else
        .error (.parseError kParseErrorStringUnicodeEscapeInvalidHex escapeLeft)

/-- The second half of a surrogate pair. -/
def parseSurrogate (escapeLeft : ℕ) (codepoint : UInt32) (src : List UInt8) :
    Except Stop (UInt32 × List UInt8) :=
  if codepoint ≥ 0xD800 ∧ codepoint ≤ 0xDFFF then
    if codepoint ≤ 0xDBFF then
      match (consume reverseSolidus src).bind (consume letterU) with
      | none =>
          .error
            (.parseError kParseErrorStringUnicodeSurrogateInvalid escapeLeft)
      | some src => do
          let r ← parseHex4 escapeLeft 4 0 src
          if r.1 < 0xDC00 ∨ r.1 > 0xDFFF then
            .error
              (.parseError kParseErrorStringUnicodeSurrogateInvalid escapeLeft)
          else
            .ok ((((codepoint - 0xD800) <<< 10) ||| (r.1 - 0xDC00)) + 0x10000,
              r.2)
    else
      .error (.parseError kParseErrorStringUnicodeSurrogateInvalid escapeLeft)
  else .ok (codepoint, src)

/-- `UTF8<>::Encode` -/
def encode (codepoint : UInt32) : Except Stop (List UInt8) :=
  if codepoint ≤ 0x7F then .ok [(codepoint &&& 0xFF).toUInt8]
  else if codepoint ≤ 0x7FF then
    .ok [((0xC0 : UInt32) ||| ((codepoint >>> 6) &&& 0xFF)).toUInt8,
      ((0x80 : UInt32) ||| (codepoint &&& 0x3F)).toUInt8]
  else if codepoint ≤ 0xFFFF then
    .ok [((0xE0 : UInt32) ||| ((codepoint >>> 12) &&& 0xFF)).toUInt8,
      ((0x80 : UInt32) ||| ((codepoint >>> 6) &&& 0x3F)).toUInt8,
      ((0x80 : UInt32) ||| (codepoint &&& 0x3F)).toUInt8]
  else if codepoint ≤ 0x10FFFF then
    .ok [((0xF0 : UInt32) ||| ((codepoint >>> 18) &&& 0xFF)).toUInt8,
      ((0x80 : UInt32) ||| ((codepoint >>> 12) &&& 0x3F)).toUInt8,
      ((0x80 : UInt32) ||| ((codepoint >>> 6) &&& 0x3F)).toUInt8,
      ((0x80 : UInt32) ||| (codepoint &&& 0x3F)).toUInt8]
  else .error .assertion

/-- One turn of the loop of `ParseStringToStream`: all it takes is taken before
any of it is put. The closing quotation mark puts nothing but a NUL. -/
def readPiece (src : List UInt8) : Except Stop (Option (List UInt8) × List UInt8) :=
  let c := peek src
  if c = reverseSolidus then
    let escapeLeft := src.length
    let e := peek src.tail
    let escaped := escapeTable.getD e.toNat 0
    if escaped ≠ 0 then .ok (some [escaped], src.tail.tail)
    else if e = letterU then do
      let r ← parseHex4 escapeLeft 4 0 src.tail.tail
      let r ← parseSurrogate escapeLeft r.1 r.2
      let bytes ← encode r.1
      .ok (some bytes, r.2)
    else .error (.parseError kParseErrorStringEscapeInvalid escapeLeft)
  else if c = quotationMark then .ok (none, src.tail)
  else if c < 32 then
    .error
      (.parseError
        (if c = 0 then kParseErrorStringMissQuotationMark
          else kParseErrorStringInvalidEncoding) src.length)
  else .ok (some [c], src.tail)

/-- `ParseStringToStream` into a stream of its own, which has `out` in it. -/
def parseStringToStream : ℕ → List UInt8 → List UInt8 →
    Except Stop (List UInt8 × List UInt8)
  | 0, _, _ => .error .fuel
  | fuel + 1, src, out => do
      let r ← readPiece src
      match r.1 with
      | none => .ok (out, r.2)
      | some bytes => parseStringToStream fuel r.2 (out ++ bytes)

/-- `bytes` put one after the other from `dst` on. -/
def putAll (buffer : List UInt8) (dst : ℕ) : List UInt8 → List UInt8
  | [] => buffer
  | c :: bytes => putAll (buffer.set dst c) (dst + 1) bytes

/-- `ParseStringToStream` into the buffer it reads from; `src` and `dst` are
indices. -/
def parseStringInsitu : ℕ → List UInt8 → ℕ → ℕ →
    Except Stop (List UInt8 × ℕ × ℕ)
  | 0, _, _, _ => .error .fuel
  | fuel + 1, buffer, src, dst => do
      let r ← readPiece (buffer.drop src)
      let src := buffer.length - r.2.length
      match r.1 with
      | none => .ok (buffer.set dst 0, src, dst)
      | some bytes =>
          parseStringInsitu fuel (putAll buffer dst bytes) src
            (dst + bytes.length)

/-- What `kParseInsituFlag` decides: the state `σ` that strings are put in and
what a string `τ` is. The function starts at the opening quotation mark. -/
structure Mode (σ τ : Type) where
  parseString : σ → List UInt8 → Except Stop (τ × σ × List UInt8)

/-- Strings are copied out. -/
def copying : Mode Unit (List UInt8) where
  parseString _ src := do
    let r ← parseStringToStream src.length src.tail []
    .ok (r.1, (), r.2)

/-- Strings are put in the buffer, behind their opening quotation mark; a string
is its index there and its length. -/
def insitu : Mode (List UInt8) (ℕ × ℕ) where
  parseString buffer src := do
    let head := buffer.length - src.tail.length
    let r ← parseStringInsitu src.length buffer head head
    .ok ((head, r.2.2 - head), r.1, r.1.drop r.2.1)

/-! ## §3  Numbers -/

/-- The loop over the digits that fit into an `unsigned`; it stops in front of
the digit that does not, with `use64bit`. -/
def digits32 (most : UInt32) (last : UInt8) (i : UInt32) :
    List UInt8 → UInt32 × Bool × List UInt8
  | [] => (i, false, [])
  | c :: src =>
      if isDigit c then
        if i ≥ most ∧ (i ≠ most ∨ c > last) then (i, true, c :: src)
        else digits32 most last (i * 10 + (c - 48).toUInt32) src
      else (i, false, c :: src)

/-- The same for a `uint64_t`, with `useDouble`. -/
def digits64 (most : UInt64) (last : UInt8) (i64 : UInt64) :
    List UInt8 → UInt64 × Bool × List UInt8
  | [] => (i64, false, [])
  | c :: src =>
      if isDigit c then
        if i64 ≥ most ∧ (i64 ≠ most ∨ c > last) then (i64, true, c :: src)
        else digits64 most last (i64 * 10 + (c - 48).toUInt64) src
      else (i64, false, c :: src)

/-- What the integer part of a number has come to. -/
inductive Significand where
  | unsigned (i : UInt32)
  | unsigned64 (i64 : UInt64)
  | tooLong
deriving DecidableEq

def parseInt (minus : Bool) (src : List UInt8) :
    Except Stop (Significand × List UInt8) :=
  let c := peek src
  if c = 48 then .ok (.unsigned 0, src.tail)
  else if 49 ≤ c ∧ c ≤ 57 then
    let i := (c - 48).toUInt32
    let r :=
      if minus then digits32 214748364 56 i src.tail
      else digits32 429496729 53 i src.tail
    if r.2.1 then
      let r :=
        if minus then digits64 0x0CCCCCCCCCCCCCCC 56 r.1.toUInt64 r.2.2
        else digits64 0x1999999999999999 53 r.1.toUInt64 r.2.2
      if r.2.1 then .ok (.tooLong, r.2.2.dropWhile isDigit)
      else .ok (.unsigned64 r.1, r.2.2)
    else .ok (.unsigned r.1, r.2.2)
  else .error (.parseError kParseErrorValueInvalid src.length)

/-- The part behind a decimal point, and whether there is one. -/
def parseFrac (src : List UInt8) : Except Stop (Bool × List UInt8) :=
  match consume 46 src with
  | none => .ok (false, src)
  | some src =>
      if isDigit (peek src) then .ok (true, src.dropWhile isDigit)
      else .error (.parseError kParseErrorNumberMissFraction src.length)

def parseExp (src : List UInt8) : Except Stop (Bool × List UInt8) :=
  match (consume 101 src).or (consume 69 src) with
  | none => .ok (false, src)
  | some src =>
      let src := ((consume 43 src).or (consume 45 src)).getD src
      if isDigit (peek src) then .ok (true, src.dropWhile isDigit)
      else .error (.parseError kParseErrorNumberMissExponent src.length)

/-- The handler called for a number with neither a fraction nor an exponent. -/
def Significand.number {δ : Type} (minus : Bool) :
    Significand → Option (Number δ)
  | .unsigned i =>
      some (if minus then .int (~~~i + 1).toInt32 else .uint i)
  | .unsigned64 i64 =>
      some (if minus then .int64 (~~~i64 + 1).toInt64 else .uint64 i64)
  | .tooLong => none

section Values

variable {δ σ τ : Type}

def parseNumber (toDouble : List UInt8 → Option δ) (src : List UInt8) :
    Except Stop (Number δ × List UInt8) := do
  let minus := (consume 45 src).isSome
  let i ← parseInt minus ((consume 45 src).getD src)
  let frac ← parseFrac i.2
  let exp ← parseExp frac.2
  let token := src.take (src.length - exp.2.length)
  match (if frac.1 || exp.1 then none else i.1.number minus) with
  | some n => .ok (n, exp.2)
  | none =>
      match toDouble token with
      | some d => .ok (.double d, exp.2)
      | none => .error (.parseError kParseErrorNumberTooBig src.length)

/-! ## §4  Values -/

/-- A parse under way: the buffer of the mode, what is left of the text and the
stack of the document, with its top in front. -/
structure Parsing (δ σ τ : Type) where
  buffer : σ
  src : List UInt8
  stack_ : List (Value δ τ)

/-- `sizeof(fixedBuffer_) / sizeof(GenericValue)`; an allocator that is asked
for more fails its assertion. -/
def StackCapacity : ℕ := 128

namespace Parsing

def leaving (p : Parsing δ σ τ) (src : List UInt8) : Parsing δ σ τ :=
  { p with src := src }

def push (p : Parsing δ σ τ) (v : Value δ τ) : Except Stop (Parsing δ σ τ) :=
  if p.stack_.length < StackCapacity then
    .ok { p with stack_ := v :: p.stack_ }
  else .error .assertion

/-- `count` members off the top of a stack, a name below its value. -/
def popMembers : ℕ → List (Value δ τ) → List (τ × Value δ τ) →
    Option (List (τ × Value δ τ) × List (Value δ τ))
  | 0, stack_, ms => some (ms, stack_)
  | count + 1, v :: .str name :: stack_, ms =>
      popMembers count stack_ ((name, v) :: ms)
  | _ + 1, _, _ => none

/-- `EndObject`: the members are moved into the object below them. -/
def endObject (p : Parsing δ σ τ) (memberCount : ℕ) :
    Except Stop (Parsing δ σ τ) :=
  match popMembers memberCount p.stack_ [] with
  | some (ms, .obj _ :: stack_) => .ok { p with stack_ := .obj ms :: stack_ }
  | _ => .error .assertion

/-- `EndArray` -/
def endArray (p : Parsing δ σ τ) (elementCount : ℕ) :
    Except Stop (Parsing δ σ τ) :=
  match p.stack_.drop elementCount with
  | .arr _ :: stack_ =>
      .ok
        { p with
          stack_ := .arr (p.stack_.take elementCount).reverse :: stack_ }
  | _ => .error .assertion

def skip (p : Parsing δ σ τ) : Parsing δ σ τ :=
  { p with src := skipWhitespace p.src }

end Parsing

variable (mode : Mode σ τ) (toDouble : List UInt8 → Option δ)

def parseNull (p : Parsing δ σ τ) : Except Stop (Parsing δ σ τ) :=
  let r := consumeEach [117, 108, 108] p.src.tail
  if r.1 then (p.leaving r.2).push .null
  else .error (.parseError kParseErrorValueInvalid r.2.length)

def parseTrue (p : Parsing δ σ τ) : Except Stop (Parsing δ σ τ) :=
  let r := consumeEach [114, 117, 101] p.src.tail
  if r.1 then (p.leaving r.2).push (.bool true)
  else .error (.parseError kParseErrorValueInvalid r.2.length)

def parseFalse (p : Parsing δ σ τ) : Except Stop (Parsing δ σ τ) :=
  let r := consumeEach [97, 108, 115, 101] p.src.tail
  if r.1 then (p.leaving r.2).push (.bool false)
  else .error (.parseError kParseErrorValueInvalid r.2.length)

/-- A string or the name of a member. -/
def parseString (p : Parsing δ σ τ) : Except Stop (Parsing δ σ τ) := do
  let r ← mode.parseString p.buffer p.src
  let p := { p with buffer := r.2.1, src := r.2.2 }
  p.push (.str r.1)

mutual

def parseValue : ℕ → Parsing δ σ τ → Except Stop (Parsing δ σ τ)
  | 0, _ => .error .fuel
  | fuel + 1, p =>
      let c := peek p.src
      if c = 110 then parseNull p
      else if c = 116 then parseTrue p
      else if c = 102 then parseFalse p
      else if c = quotationMark then parseString mode p
      else if c = beginObject then do
        let p ← (p.leaving p.src.tail).push (.obj [])
        let p := p.skip
        match consume Json.endObject p.src with
        | some src => (p.leaving src).endObject 0
        | none => parseMembers fuel 0 p
      else if c = beginArray then do
        let p ← (p.leaving p.src.tail).push (.arr [])
        let p := p.skip
        match consume Json.endArray p.src with
        | some src => (p.leaving src).endArray 0
        | none => parseElements fuel 0 p
      else do
        let r ← parseNumber toDouble p.src
        (p.leaving r.2).push (.num r.1)

/-- The loop of `ParseObject`. -/
def parseMembers : ℕ → ℕ → Parsing δ σ τ → Except Stop (Parsing δ σ τ)
  | 0, _, _ => .error .fuel
  | fuel + 1, memberCount, p =>
      if peek p.src ≠ quotationMark then
        .error (.parseError kParseErrorObjectMissName p.src.length)
      else do
        let p ← parseString mode p
        let p := p.skip
        match consume colon p.src with
        | none => .error (.parseError kParseErrorObjectMissColon p.src.length)
        | some src => do
            let p ← parseValue fuel (p.leaving (skipWhitespace src))
            let p := p.skip
            let c := peek p.src
            if c = comma then
              parseMembers fuel (memberCount + 1)
                (p.leaving (skipWhitespace p.src.tail))
            else if c = Json.endObject then
              (p.leaving p.src.tail).endObject (memberCount + 1)
            else
              .error
                (.parseError kParseErrorObjectMissCommaOrCurlyBracket
                  p.src.length)

/-- The loop of `ParseArray`. -/
def parseElements : ℕ → ℕ → Parsing δ σ τ → Except Stop (Parsing δ σ τ)
  | 0, _, _ => .error .fuel
  | fuel + 1, elementCount, p => do
      let p ← parseValue fuel p
      let p := p.skip
      match consume comma p.src with
      | some src =>
          parseElements fuel (elementCount + 1)
            (p.leaving (skipWhitespace src))
      | none =>
          match consume Json.endArray p.src with
          | some src => (p.leaving src).endArray (elementCount + 1)
          | none =>
              .error
                (.parseError kParseErrorArrayMissCommaOrSquareBracket
                  p.src.length)

end

/-- `Parse`, with what `ParseStream` takes off the stack afterwards. -/
def parse (buffer : σ) (text : List UInt8) : Except Stop (σ × Value δ τ) := do
  let src := skipWhitespace text
  if peek src = 0 then .error (.parseError kParseErrorDocumentEmpty src.length)
  else do
    let p ← parseValue mode toDouble (2 * src.length + 1) ⟨buffer, src, []⟩
    let p := p.skip
    if peek p.src ≠ 0 then
      .error (.parseError kParseErrorDocumentRootNotSingular p.src.length)
    else
      match p.stack_ with
      | [v] => .ok (p.buffer, v)
      | _ => .error .assertion

end Values

end Reader

end AWRPC
