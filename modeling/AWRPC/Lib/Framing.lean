import AWRPC.Lib.Decimal

/-!
# Frames

A frame is a tag and a payload: eight bytes of header, the tag and the length of
the payload in little-endian order, and the payload behind them. Eight bytes
that were read are the header of the frame that they announce.
-/

namespace Framing

/-! ## §1  Words of 32 bits -/

/-- The four bytes of a word, the least significant one first. -/
def bytesOf (w : UInt32) : List UInt8 :=
  [w.toUInt8, (w >>> 8).toUInt8, (w >>> 16).toUInt8, (w >>> 24).toUInt8]

/-- The word that four bytes make. -/
def wordOf : List UInt8 → UInt32
  | a :: b :: c :: d :: _ =>
      UInt32.ofNat
        (a.toNat + 2 ^ 8 * b.toNat + 2 ^ 16 * c.toNat + 2 ^ 24 * d.toNat)
  | _ => 0

theorem toNat_shift (w : UInt32) (k : ℕ) (hk : k < 32) :
    ((w >>> UInt32.ofNat k).toUInt8).toNat = w.toNat / 2 ^ k % 2 ^ 8 := by
  have hofNat : (UInt32.ofNat k).toNat = k := by
    rw [UInt32.toNat_ofNat', Nat.mod_eq_of_lt (by omega)]
  rw [UInt32.toNat_toUInt8, UInt32.toNat_shiftRight, hofNat,
    Nat.mod_eq_of_lt hk, Nat.shiftRight_eq_div_pow]

theorem wordOf_bytesOf (w : UInt32) (rest : List UInt8) :
    wordOf (bytesOf w ++ rest) = w := by
  have h₀ : (w.toUInt8).toNat = w.toNat % 2 ^ 8 := UInt32.toNat_toUInt8 w
  have h₁ : ((w >>> 8).toUInt8).toNat = _ := toNat_shift w 8 (by decide)
  have h₂ : ((w >>> 16).toUInt8).toNat = _ := toNat_shift w 16 (by decide)
  have h₃ : ((w >>> 24).toUInt8).toNat = _ := toNat_shift w 24 (by decide)
  have hlt := w.toNat_lt
  apply UInt32.toNat_inj.mp
  show (UInt32.ofNat _).toNat = _
  rw [h₀, h₁, h₂, h₃, UInt32.toNat_ofNat', Nat.mod_eq_of_lt (by omega)]
  omega

theorem bytesOf_wordOf (a b c d : UInt8) (rest : List UInt8) :
    bytesOf (wordOf (a :: b :: c :: d :: rest)) = [a, b, c, d] := by
  have ha := a.toNat_lt
  have hb := b.toNat_lt
  have hc := c.toNat_lt
  have hd := d.toNat_lt
  have hword : (wordOf (a :: b :: c :: d :: rest)).toNat =
      a.toNat + 2 ^ 8 * b.toNat + 2 ^ 16 * c.toNat + 2 ^ 24 * d.toNat := by
    show (UInt32.ofNat _).toNat = _
    rw [UInt32.toNat_ofNat', Nat.mod_eq_of_lt (by omega)]
  have hbyte : ∀ (x : UInt8) (k : ℕ), k < 32 →
      (wordOf (a :: b :: c :: d :: rest)).toNat / 2 ^ k % 2 ^ 8 = x.toNat →
        ((wordOf (a :: b :: c :: d :: rest)) >>> UInt32.ofNat k).toUInt8 = x := by
    intro x k hk h
    apply UInt8.toNat_inj.mp
    rw [toNat_shift _ k hk, h]
  rw [hword] at hbyte
  have h₀ : (wordOf (a :: b :: c :: d :: rest)).toUInt8 = a := by
    apply UInt8.toNat_inj.mp
    rw [UInt32.toNat_toUInt8, hword]
    omega
  rw [bytesOf, h₀]
  congr 1
  exact congrArg₂ List.cons (hbyte b 8 (by decide) (by omega))
    (congrArg₂ List.cons (hbyte c 16 (by decide) (by omega))
      (congrArg₂ List.cons (hbyte d 24 (by decide) (by omega)) rfl))

/-! ## §2  Frames -/

structure Frame where
  tag : UInt32
  payload : List UInt8
deriving DecidableEq

namespace Frame

def header (f : Frame) : List UInt8 :=
  bytesOf f.tag ++ bytesOf (UInt32.ofNat f.payload.length)

def encode (f : Frame) : List UInt8 := f.header ++ f.payload

theorem length_header (f : Frame) : f.header.length = 8 := rfl

end Frame

/-- The tag of a header. -/
def tagOf (header : List UInt8) : UInt32 := wordOf header

/-- The length in a header. -/
def lengthOf (header : List UInt8) : ℕ := (wordOf (header.drop 4)).toNat

theorem tagOf_encode (f : Frame) : tagOf f.encode = f.tag := by
  rw [Frame.encode, Frame.header, List.append_assoc]
  exact wordOf_bytesOf f.tag _

theorem encode_drop (f : Frame) : f.encode.drop 8 = f.payload := rfl

/-- Eight bytes are the header of a frame with a payload of the length in it. -/
theorem header_eq {header payload : List UInt8} (hheader : header.length = 8)
    (hpayload : payload.length = lengthOf header) :
    (Frame.mk (tagOf header) payload).header = header := by
  match header, hheader with
  | [a, b, c, d, a', b', c', d'], _ =>
      have hword : UInt32.ofNat payload.length = wordOf [a', b', c', d'] := by
        rw [hpayload]
        exact UInt32.ofNat_toNat
      show bytesOf (wordOf _) ++ bytesOf (UInt32.ofNat payload.length) = _
      rw [hword, bytesOf_wordOf, bytesOf_wordOf]
      rfl

end Framing
