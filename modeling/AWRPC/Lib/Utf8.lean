import Mathlib.Data.List.Basic
import AWRPC.Lib.CharArray

/-!
# Valid UTF-8 and cutting it at a byte count

`Valid` is the library's notion of a valid encoding, read on byte lists. A cut
of a valid text is valid exactly when it falls in front of a byte that starts a
character (`valid_take_iff`), and an ASCII byte splits a text into texts
(`valid_append_ascii_iff`).
-/

namespace Utf8

/-- The bytes are the encoding of some text. -/
def Valid (bs : List UInt8) : Prop := bs.toByteArray.IsValidUTF8

instance (bs : List UInt8) : Decidable (Valid bs) :=
  inferInstanceAs (Decidable bs.toByteArray.IsValidUTF8)

theorem valid_lit (s : String) : Valid (Bytes.lit s) := by
  have h : (Bytes.lit s).toByteArray = s.toByteArray := by
    rw [Bytes.lit]
    ext1
    simp
  rw [Valid, h]
  exact s.isValidUTF8

theorem Valid.append {bs cs : List UInt8} (hb : Valid bs) (hc : Valid cs) :
    Valid (bs ++ cs) := by
  rw [Valid, List.toByteArray_append]
  exact ByteArray.IsValidUTF8.append hb hc

/-- A valid text is empty or begins with a byte that starts a character. -/
theorem Valid.head {b : UInt8} {bs : List UInt8} (h : Valid (b :: bs)) :
    b.IsUTF8FirstByte := by
  have hpos : 0 < (b :: bs).toByteArray.size := by simp
  have hfirst := ByteArray.IsValidUTF8.isUTF8FirstByte_getElem_zero h hpos
  simpa using hfirst

/-- **Byte-count truncation.** -/
theorem valid_take_iff {bs : List UInt8} (h : Valid bs) {k : ℕ}
    (hk : k < bs.length) : Valid (bs.take k) ↔ (bs[k]).IsUTF8FirstByte := by
  let s : String := ⟨bs.toByteArray, h⟩
  let p : String.Pos.Raw := ⟨k⟩
  have hend : p < s.rawEndPos := by
    simpa [String.Pos.Raw.lt_iff, s, p, ← String.size_toByteArray] using hk
  have hle : p ≤ s.rawEndPos := String.Pos.Raw.le_of_lt hend
  have hextract : s.toByteArray.extract 0 p.byteIdx =
      (bs.take k).toByteArray := by
    ext1
    simp [s, p]
  have hleft : p.IsValid s ↔ Valid (bs.take k) := by
    rw [String.Pos.Raw.isValid_iff_isValidUTF8_extract_zero, hextract]
    exact ⟨fun hv => hv.2, fun hv => ⟨hle, hv⟩⟩
  have hbyte : s.getUTF8Byte p hend = bs[k] := by
    simp [String.getUTF8Byte, s, p]
  rw [← hleft, String.Pos.Raw.isValid_iff_isUTF8FirstByte]
  constructor
  · rintro (heq | ⟨_, hfirst⟩)
    · have hlt := String.Pos.Raw.lt_iff.mp hend
      rw [heq] at hlt
      exact absurd hlt (Nat.lt_irrefl _)
    · rwa [hbyte] at hfirst
  · intro hfirst
    exact Or.inr ⟨hend, by rwa [hbyte]⟩

/-- In front of a byte that starts a character a valid text splits into valid
texts; only the first part is stated. -/
theorem Valid.of_append {bs cs : List UInt8} {c : UInt8}
    (h : Valid (bs ++ c :: cs)) (hc : c.IsUTF8FirstByte) : Valid bs := by
  have hk : bs.length < (bs ++ c :: cs).length := by simp
  have htake := (valid_take_iff h hk).mpr (by simpa using hc)
  simpa using htake

/-- A byte that is no text of its own must not be followed by the start of a
character. -/
theorem not_valid_cons_cons {b c : UInt8} {cs : List UInt8}
    (hb : ¬ Valid [b]) (hc : c.IsUTF8FirstByte) : ¬ Valid (b :: c :: cs) :=
  fun h => hb (@Valid.of_append [b] cs c h hc)

/-- Byte-count truncation, also where nothing is cut off. -/
theorem valid_take_iff_getElem? {bs : List UInt8} (h : Valid bs) (k : ℕ) :
    Valid (bs.take k) ↔ ∀ b ∈ bs[k]?, b.IsUTF8FirstByte := by
  rcases Nat.lt_or_ge k bs.length with hlt | hge
  · rw [valid_take_iff h hlt, List.getElem?_eq_getElem hlt]
    constructor
    · rintro hfirst _ ⟨⟩
      exact hfirst
    · intro hall
      exact hall _ rfl
  · rw [List.take_of_length_le hge, List.getElem?_eq_none hge]
    constructor
    · intro _ b hb
      exact absurd hb (by simp)
    · intro _
      exact h

/-- Appending a valid text that is not empty neither makes nor breaks
validity. -/
theorem valid_append_iff {bs cs : List UInt8} (hc : Valid cs) (hne : cs ≠ []) :
    Valid (bs ++ cs) ↔ Valid bs := by
  constructor
  · intro h
    cases cs with
    | nil => exact absurd rfl hne
    | cons c cs => exact h.of_append hc.head
  · intro h
    exact h.append hc

/-! ## ASCII -/

theorem valid_chars (m : List Char) :
    Valid (m.flatMap String.utf8EncodeChar) := ⟨m, rfl⟩

theorem Valid.chars {bs : List UInt8} (h : Valid bs) :
    ∃ m : List Char, bs = m.flatMap String.utf8EncodeChar := by
  obtain ⟨m, hm⟩ := h
  have hdata := congrArg (fun a => a.data.toList) hm
  exact ⟨m, by simpa [List.utf8Encode] using hdata⟩

/-- A character is one byte, or bytes none of which is ASCII. -/
theorem encodeChar_cases (ch : Char) :
    (∃ b, String.utf8EncodeChar ch = [b]) ∨
      ∀ b ∈ String.utf8EncodeChar ch, 128 ≤ b.toNat := by
  rw [String.utf8EncodeChar]
  split
  · exact Or.inl ⟨_, rfl⟩
  · right
    split
    · simp
      omega
    · split
      · simp
        omega
      · simp
        omega

theorem valid_ascii {c : UInt8} (h : c.toNat < 128) : Valid [c] := by
  have hall : ∀ d : Fin 128, Valid [UInt8.ofNat d] := by decide +kernel
  simpa using hall ⟨c.toNat, h⟩

/-- A text that has an ASCII byte `c` behind `bs` has it for its first
character, or has a character inside `bs` before it. -/
theorem first_char_cases {bs cs rest : List UInt8} {c : UInt8} {ch : Char}
    (hc : c.toNat < 128)
    (h : bs ++ c :: cs = String.utf8EncodeChar ch ++ rest) :
    (bs = [] ∧ cs = rest) ∨
      ∃ bs', bs = String.utf8EncodeChar ch ++ bs' ∧ bs' ++ c :: cs = rest := by
  rcases List.append_eq_append_iff.mp h with ⟨w, hch, hw⟩ | ⟨w, hbs, hrest⟩
  · cases w with
    | nil => exact Or.inr ⟨[], by simpa using hch.symm, hw⟩
    | cons d w =>
        cases hw
        rcases encodeChar_cases ch with ⟨b, hb⟩ | hhigh
        · rw [hb] at hch
          have hlen := congrArg List.length hch
          simp at hlen
          obtain ⟨rfl, rfl⟩ : bs = [] ∧ w = [] := by
            constructor
            · exact List.length_eq_zero_iff.mp (by omega)
            · exact List.length_eq_zero_iff.mp (by omega)
          exact Or.inl ⟨rfl, rfl⟩
        · have hge := hhigh c (by rw [hch]; simp)
          exact absurd hc (by omega)
  · exact Or.inr ⟨w, hbs, hrest.symm⟩

/-- **An ASCII byte splits a text** into texts. -/
theorem valid_append_ascii_iff {bs cs : List UInt8} {c : UInt8}
    (hc : c.toNat < 128) : Valid (bs ++ c :: cs) ↔ Valid bs ∧ Valid cs := by
  constructor
  · intro h
    obtain ⟨m, hm⟩ := h.chars
    clear h
    induction m generalizing bs with
    | nil => exact absurd hm (by simp)
    | cons ch m ih =>
        rw [List.flatMap_cons] at hm
        rcases first_char_cases hc hm with ⟨rfl, rfl⟩ | ⟨bs', rfl, htail⟩
        · exact ⟨valid_chars [], valid_chars m⟩
        · obtain ⟨hbs', hcs⟩ := ih htail
          have hch := valid_chars [ch]
          rw [List.flatMap_singleton] at hch
          exact ⟨hch.append hbs', hcs⟩
  · rintro ⟨hbs, hcs⟩
    have hcons := (valid_ascii hc).append hcs
    exact hbs.append hcons

theorem valid_ascii_cons_iff {cs : List UInt8} {c : UInt8}
    (hc : c.toNat < 128) : Valid (c :: cs) ↔ Valid cs := by
  have h := @valid_append_ascii_iff [] cs c hc
  rw [List.nil_append] at h
  rw [h]
  exact ⟨fun h => h.2, fun h => ⟨valid_chars [], h⟩⟩

/-- So does whatever begins with one. -/
theorem valid_append_of_head {bs cs : List UInt8}
    (hc : ∀ c ∈ cs.head?, c.toNat < 128) :
    Valid (bs ++ cs) ↔ Valid bs ∧ Valid cs := by
  cases cs with
  | nil =>
      rw [List.append_nil]
      exact ⟨fun h => ⟨h, valid_chars []⟩, fun h => h.1⟩
  | cons c cs =>
      rw [valid_append_ascii_iff (hc c rfl), valid_ascii_cons_iff (hc c rfl)]

/-- ASCII bytes in front neither make nor break validity. -/
theorem valid_ascii_append_iff {as bs : List UInt8}
    (h : ∀ c ∈ as, c.toNat < 128) : Valid (as ++ bs) ↔ Valid bs := by
  induction as with
  | nil => rfl
  | cons c as ih =>
      obtain ⟨hc, has⟩ := List.forall_mem_cons.mp h
      rw [List.cons_append, valid_ascii_cons_iff hc, ih has]

theorem valid_of_ascii {as : List UInt8} (h : ∀ c ∈ as, c.toNat < 128) :
    Valid as := by
  have hnil := @valid_ascii_append_iff as [] h
  rw [List.append_nil] at hnil
  exact hnil.mpr (valid_chars [])

end Utf8
