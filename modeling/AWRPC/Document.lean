import AWRPC.ReaderInsitu

/-!
# Looking into a message

The accessors of `discord/src/serialization.h`, over strings that lie in the
buffer the message was parsed in as over strings of their own. What they give on
a document parsed in place is what they give on the tree of the text. As in
`Reader`, `RAPIDJSON_ASSERT` is in force, so that an accessor on a value of the
wrong type is an assertion that fails; in a Release build, which defines `NDEBUG`,
it is undefined behaviour.
-/

namespace AWRPC

open Bytes Json JsonGrammar Reader

/-- Why a run goes no further: what the program does not survive, a pipe that
`Open` still waits for where the answers given end (`busy`), and a bound on a loop
that is used up (`fuel`), which is shown never to be. -/
inductive Fault where
  | assertion
  | overrun
  | indeterminate
  | busy
  | fuel
deriving DecidableEq

/-- Whatever it ends with satisfies `P`, unless the program fails; it does
end. -/
def Ends {α : Type} (P : α → Prop) : Except Fault α → Prop
  | .ok a => P a
  | .error e => e ≠ .fuel

theorem Ends.bind {α β : Type} {P : α → Prop} {Q : β → Prop}
    {x : Except Fault α} {f : α → Except Fault β} (h : Ends P x)
    (hf : ∀ a, P a → Ends Q (f a)) : Ends Q (x >>= f) := by
  cases x with
  | ok a => exact hf a h
  | error e => exact h

theorem Ends.imp {α : Type} {P Q : α → Prop} {x : Except Fault α}
    (h : Ends P x) (hPQ : ∀ a, P a → Q a) : Ends Q x := by
  cases x with
  | ok a => exact hPQ a h
  | error e => exact h

/-- What is known of the result besides. -/
theorem Ends.of_eq {α : Type} {P : α → Prop} {x : Except Fault α}
    (h : Ends P x) : Ends (fun a => x = .ok a ∧ P a) x := by
  cases x with
  | ok a => exact ⟨rfl, h⟩
  | error e => exact h

/-! ## §1  `document.h` -/

namespace Number

variable {δ : Type}

/-- `kIntFlag`, as the constructors set it. -/
def isInt : Number δ → Bool
  | .int _ => true
  | .uint u => u &&& 0x80000000 = 0
  | .int64 i64 =>
      if 0 ≤ i64 then i64.toUInt64 &&& 0xFFFFFFFF80000000 = 0
      else -2147483648 ≤ i64
  | .uint64 u64 => u64 &&& 0xFFFFFFFF80000000 = 0
  | .double _ => false

/-- `data_.n.i.i`, the low half of the number. -/
def getInt : Number δ → Int32
  | .int i => i
  | .uint u => u.toInt32
  | .int64 i64 => i64.toInt32
  | .uint64 u64 => u64.toUInt32.toInt32
  | .double _ => 0

end Number

/-- The bytes of a string by its length, and those up to the first NUL. -/
structure StringViews (τ : Type) where
  data : τ → List UInt8
  c_str : τ → List UInt8

/-- Strings in a buffer, by index and length. -/
def inBuffer (buffer : List UInt8) : StringViews (ℕ × ℕ) where
  data r := (buffer.drop r.1).take r.2
  c_str r := cString (buffer.drop r.1)

/-- Strings of their own, with a NUL behind each. -/
def copied : StringViews (List UInt8) where
  data s := s
  c_str s := cString s

section Accessors

variable {δ τ : Type} (strings : StringViews τ)

def findMember (name : List UInt8) : Value δ τ →
    Except Fault (Option (Value δ τ))
  | .obj ms => .ok ((ms.find? fun m => strings.data m.1 = name).map (·.2))
  | _ => .error .assertion

/-! ## §2  `serialization.h` -/

/-- What the accessors share: the member of an object that is there. -/
def member? (obj : Option (Value δ τ)) (name : List UInt8) :
    Except Fault (Option (Value δ τ)) :=
  match obj with
  | some obj => findMember strings name obj
  | none => .ok none

def getObjMember (obj : Option (Value δ τ)) (name : List UInt8) :
    Except Fault (Option (Value δ τ)) := do
  match ← member? strings obj name with
  | some (.obj ms) => .ok (some (.obj ms))
  | _ => .ok none

def getIntMember (obj : Option (Value δ τ)) (name : List UInt8)
    (notFoundDefault : Int32) : Except Fault Int32 := do
  match ← member? strings obj name with
  | some (.num n) => .ok (if n.isInt then n.getInt else notFoundDefault)
  | _ => .ok notFoundDefault

def getStrMember (obj : Option (Value δ τ)) (name : List UInt8)
    (notFoundDefault : Option (List UInt8)) :
    Except Fault (Option (List UInt8)) := do
  match ← member? strings obj name with
  | some (.str s) => .ok (some (strings.c_str s))
  | _ => .ok notFoundDefault

theorem member?_ends (obj : Option (Value δ τ)) (name : List UInt8) :
    Ends (fun _ => True) (member? strings obj name) := by
  cases obj with
  | none => trivial
  | some v =>
      cases v with
      | obj ms => trivial
      | arr es => rintro ⟨⟩
      | str s => rintro ⟨⟩
      | num n => rintro ⟨⟩
      | bool b => rintro ⟨⟩
      | null => rintro ⟨⟩

theorem getObjMember_ends (obj : Option (Value δ τ)) (name : List UInt8) :
    Ends (fun _ => True) (getObjMember strings obj name) := by
  apply (member?_ends strings obj name).bind
  intro v _
  split
  · trivial
  · trivial

theorem getIntMember_ends (obj : Option (Value δ τ)) (name : List UInt8)
    (notFoundDefault : Int32) :
    Ends (fun _ => True) (getIntMember strings obj name notFoundDefault) := by
  apply (member?_ends strings obj name).bind
  intro v _
  split
  · trivial
  · trivial

theorem getStrMember_ends (obj : Option (Value δ τ)) (name : List UInt8)
    (notFoundDefault : Option (List UInt8)) :
    Ends (fun _ => True) (getStrMember strings obj name notFoundDefault) := by
  apply (member?_ends strings obj name).bind
  intro v _
  split
  · trivial
  · trivial

end Accessors

/-- An array of `len` bytes, by the C string in it. -/
abbrev CStr (len : ℕ) := { s : List UInt8 // s.length < len }

theorem length_copy_lt {len : ℕ} (dest : CStr len) (s : List UInt8) :
    (s.take (len - 1)).length < len := by
  have hlen := dest.property
  rw [List.length_take]
  omega

/-- `StringCopy`; a null pointer leaves the array as it is. -/
def stringCopy {len : ℕ} (dest : CStr len) (src : Option (List UInt8)) :
    CStr len :=
  match src with
  | some s => ⟨s.take (len - 1), length_copy_lt dest s⟩
  | none => dest

/-- A document and the array of the message it was parsed in. -/
structure JsonDocument (δ : Type) where
  value : Value δ (ℕ × ℕ)
  buffer : List UInt8

namespace JsonDocument

variable {δ : Type}

/-- `message.ParseInsitu` on a new document, which stays an empty object where
the text is none. -/
def parseInsitu (toDouble : List UInt8 → Option δ) (text : List UInt8) :
    Except Fault (JsonDocument δ) :=
  match parse insitu toDouble text text with
  | .ok r => .ok ⟨r.2, r.1⟩
  | .error (.parseError _ _) => .ok ⟨.obj [], text⟩
  | .error .assertion => .error .assertion
  | .error .fuel => .error .fuel

def strings (d : JsonDocument δ) : StringViews (ℕ × ℕ) := inBuffer d.buffer

end JsonDocument

/-- The same with every string copied out of the text. -/
def parseCopy {δ : Type} (toDouble : List UInt8 → Option δ)
    (text : List UInt8) : Except Fault (Value δ (List UInt8)) :=
  match parse copying toDouble () text with
  | .ok r => .ok r.2
  | .error (.parseError _ _) => .ok (.obj [])
  | .error .assertion => .error .assertion
  | .error .fuel => .error .fuel

/-! ## §3  In place or copied -/

section Views

variable {δ : Type} {buffer : List UInt8} {n : ℕ}

theorem Reader.At.data {r : ℕ × ℕ} {s : List UInt8} (h : At buffer n r s) :
    (inBuffer buffer).data r = s := by
  obtain ⟨hlen, -, htake⟩ := h
  have hcut := congrArg (List.take r.2) htake
  rw [List.take_take, Nat.min_eq_left (Nat.le_succ _), hlen,
    List.take_left] at hcut
  rw [← hlen] at hcut
  exact hcut

theorem Reader.At.c_str {r : ℕ × ℕ} {s : List UInt8} (h : At buffer n r s) :
    (inBuffer buffer).c_str r = cString s := by
  obtain ⟨-, -, htake⟩ := h
  have hsplit := (List.take_append_drop (r.2 + 1) (buffer.drop r.1)).symm
  rw [htake, List.append_assoc] at hsplit
  show cString (buffer.drop r.1) = _
  rw [hsplit]
  exact cutAt_append_cons 0 s _

theorem findMember_agree {ms : List ((ℕ × ℕ) × Value δ (ℕ × ℕ))}
    {ms' : List (List UInt8 × Value δ (List UInt8))}
    (h : RelatedMembers (At buffer n) ms ms') (name : List UInt8) :
    Option.Rel (Related (At buffer n))
      ((ms.find? fun m => (inBuffer buffer).data m.1 = name).map (·.2))
      ((ms'.find? fun m => copied.data m.1 = name).map (·.2)) := by
  induction ms generalizing ms' with
  | nil =>
      obtain rfl : ms' = [] := h
      exact .none
  | cons m ms ih =>
      obtain ⟨r, v⟩ := m
      obtain ⟨s, w, ms', rfl, hname, hvalue, hms⟩ := h
      have hdata : (inBuffer buffer).data r = copied.data s := hname.data
      rw [List.find?_cons, List.find?_cons]
      simp only [hdata]
      by_cases hs : copied.data s = name
      · simp only [hs, decide_true, Option.map_some]
        exact .some hvalue
      · simp only [hs, decide_false]
        exact ih hms

variable {obj : Option (Value δ (ℕ × ℕ))}
  {obj' : Option (Value δ (List UInt8))}

theorem member?_agree (h : Option.Rel (Related (At buffer n)) obj obj')
    (name : List UInt8) :
    Agree (Option.Rel (Related (At buffer n)))
      (member? (inBuffer buffer) obj name) (member? copied obj' name) := by
  cases h with
  | none => exact .none
  | @some v w h =>
      cases v with
      | obj ms =>
          obtain ⟨ms', rfl, hms⟩ := h
          exact findMember_agree hms name
      | arr es =>
          obtain ⟨es', rfl, -⟩ := h
          exact rfl
      | str r =>
          obtain ⟨s, rfl, -⟩ := h
          exact rfl
      | num k =>
          obtain rfl : w = .num k := h
          exact rfl
      | bool b =>
          obtain rfl : w = .bool b := h
          exact rfl
      | null =>
          obtain rfl : w = .null := h
          exact rfl

theorem getObjMember_agree (h : Option.Rel (Related (At buffer n)) obj obj')
    (name : List UInt8) :
    Agree (Option.Rel (Related (At buffer n)))
      (getObjMember (inBuffer buffer) obj name)
      (getObjMember copied obj' name) := by
  apply (member?_agree h name).bind
  intro a b hab
  cases hab with
  | none =>
      show Option.Rel _ none none
      exact .none
  | @some v w hvw =>
  cases v with
  | obj ms =>
      obtain ⟨ms', rfl, hms⟩ := hvw
      show Option.Rel _ (some _) (some _)
      exact .some ⟨ms', rfl, hms⟩
  | arr es =>
      obtain ⟨es', rfl, -⟩ := hvw
      show Option.Rel _ none none
      exact .none
  | str r =>
      obtain ⟨s, rfl, -⟩ := hvw
      show Option.Rel _ none none
      exact .none
  | num k =>
      obtain rfl : w = .num k := hvw
      show Option.Rel _ none none
      exact .none
  | bool b =>
      obtain rfl : w = .bool b := hvw
      show Option.Rel _ none none
      exact .none
  | null =>
      obtain rfl : w = .null := hvw
      show Option.Rel _ none none
      exact .none

theorem getIntMember_agree (h : Option.Rel (Related (At buffer n)) obj obj')
    (name : List UInt8) (notFoundDefault : Int32) :
    Agree Eq (getIntMember (inBuffer buffer) obj name notFoundDefault)
      (getIntMember copied obj' name notFoundDefault) := by
  apply (member?_agree h name).bind
  intro a b hab
  cases hab with
  | none => exact rfl
  | @some v w hvw =>
  cases v with
  | num k =>
      obtain rfl : w = .num k := hvw
      exact rfl
  | obj ms =>
      obtain ⟨ms', rfl, -⟩ := hvw
      exact rfl
  | arr es =>
      obtain ⟨es', rfl, -⟩ := hvw
      exact rfl
  | str r =>
      obtain ⟨s, rfl, -⟩ := hvw
      exact rfl
  | bool b =>
      obtain rfl : w = .bool b := hvw
      exact rfl
  | null =>
      obtain rfl : w = .null := hvw
      exact rfl

theorem getStrMember_agree (h : Option.Rel (Related (At buffer n)) obj obj')
    (name : List UInt8) (notFoundDefault : Option (List UInt8)) :
    Agree Eq (getStrMember (inBuffer buffer) obj name notFoundDefault)
      (getStrMember copied obj' name notFoundDefault) := by
  apply (member?_agree h name).bind
  intro a b hab
  cases hab with
  | none => exact rfl
  | @some v w hvw =>
  cases v with
  | str r =>
      obtain ⟨s, rfl, hr⟩ := hvw
      show some ((inBuffer buffer).c_str r) = some (copied.c_str s)
      rw [hr.c_str]
      rfl
  | obj ms =>
      obtain ⟨ms', rfl, -⟩ := hvw
      exact rfl
  | arr es =>
      obtain ⟨es', rfl, -⟩ := hvw
      exact rfl
  | num k =>
      obtain rfl : w = .num k := hvw
      exact rfl
  | bool b =>
      obtain rfl : w = .bool b := hvw
      exact rfl
  | null =>
      obtain rfl : w = .null := hvw
      exact rfl

/-- `GetObjMember` along a path of names. -/
def objAt {τ : Type} (strings : StringViews τ) : Option (Value δ τ) →
    List (List UInt8) → Except Fault (Option (Value δ τ))
  | obj, [] => .ok obj
  | obj, name :: path => do objAt strings (← getObjMember strings obj name) path

theorem objAt_agree (path : List (List UInt8)) :
    ∀ {obj : Option (Value δ (ℕ × ℕ))} {obj' : Option (Value δ (List UInt8))},
      Option.Rel (Related (At buffer n)) obj obj' →
        Agree (Option.Rel (Related (At buffer n)))
          (objAt (inBuffer buffer) obj path) (objAt copied obj' path) := by
  induction path with
  | nil => exact fun h => h
  | cons name path ih =>
      intro obj obj' h
      exact (getObjMember_agree h name).bind fun _ _ => ih

end Views

theorem parseInsitu_agree {δ : Type} (toDouble : List UInt8 → Option δ)
    (text : List UInt8) :
    Agree (fun d w => Related (At d.buffer text.length) d.value w)
      (JsonDocument.parseInsitu toDouble text) (parseCopy toDouble text) := by
  have h := @parse_insitu δ toDouble text
  rw [JsonDocument.parseInsitu, parseCopy]
  cases hp : parse insitu toDouble text text with
  | ok r =>
      cases hq : parse copying toDouble () text with
      | ok r' =>
          rw [hp, hq] at h
          exact h.2
      | error e =>
          rw [hp, hq] at h
          exact absurd h id
  | error e =>
      cases hq : parse copying toDouble () text with
      | ok r' =>
          rw [hp, hq] at h
          exact absurd h id
      | error e' =>
          rw [hp, hq] at h
          obtain rfl : e = e' := h
          cases e with
          | parseError code left => exact ⟨[], rfl, rfl⟩
          | assertion => exact rfl
          | fuel => exact rfl

theorem parseInsitu_ends {δ : Type} (toDouble : List UInt8 → Option δ)
    (text : List UInt8) :
    Ends (fun _ => True) (JsonDocument.parseInsitu toDouble text) := by
  have hagree := @parse_insitu δ toDouble text
  have hcopy := @parse_outcome δ toDouble text
  rw [JsonDocument.parseInsitu]
  cases hp : parse insitu toDouble text text with
  | ok r => trivial
  | error e =>
      cases e with
      | parseError code left => trivial
      | assertion => rintro ⟨⟩
      | fuel =>
          cases hq : parse copying toDouble () text with
          | ok r =>
              rw [hp, hq] at hagree
              exact absurd hagree id
          | error e =>
              rw [hp, hq] at hagree
              obtain rfl : Stop.fuel = e := hagree
              rw [hq] at hcopy
              exact absurd hcopy id

theorem eq_of_agree {α ε : Type} {x y : Except ε α} (h : Agree Eq x y) :
    x = y := by
  cases x with
  | ok a =>
      cases y with
      | ok b => exact congrArg Except.ok h
      | error e => exact absurd h id
  | error e =>
      cases y with
      | ok b => exact absurd h id
      | error e' => exact congrArg Except.error h

/-- **Looking into a message parsed in place** gives what looking into the tree
of its text gives. -/
theorem lookup_insitu {δ : Type} (toDouble : List UInt8 → Option δ)
    (text : List UInt8) (path : List (List UInt8)) (name : List UInt8)
    (noInt : Int32) (noStr : Option (List UInt8)) :
    (do let d ← JsonDocument.parseInsitu toDouble text
        let obj ← objAt d.strings (some d.value) path
        return (← getIntMember d.strings obj name noInt,
          ← getStrMember d.strings obj name noStr)) =
      (do let v ← parseCopy toDouble text
          let obj ← objAt copied (some v) path
          return (← getIntMember copied obj name noInt,
            ← getStrMember copied obj name noStr)) := by
  apply eq_of_agree
  apply (parseInsitu_agree toDouble text).bind
  intro d w hroot
  apply (objAt_agree path (.some hroot)).bind
  intro obj obj' hobj
  apply (getIntMember_agree hobj name noInt).bind
  rintro i _ rfl
  apply (getStrMember_agree hobj name noStr).bind
  rintro s _ rfl
  exact rfl

end AWRPC
