import AWRPC.ReaderNumbers

/-!
# What the reader accepts

`parse` accepts a text exactly when the text up to its first NUL is a JSON
document whose values fit on the stack, and gives the tree of the document. Any
other text is refused with an error inside the text, except that a document too
large for the stack fails an assertion.
-/

namespace AWRPC

open Bytes Decimal Json JsonGrammar

namespace Reader

open ParseErrorCode

variable {δ : Type}

/-! ## §1  The stack -/

mutual

/-- The values that stand on the stack at a time while a value is read. -/
def slots : Value δ (List UInt8) → ℕ
  | .null => 1
  | .bool _ => 1
  | .num _ => 1
  | .str _ => 1
  | .arr es => 1 + slotsElements 0 es
  | .obj ms => 1 + slotsMembers 0 ms

/-- The same for the elements of an array, `k` of which are there already. -/
def slotsElements (k : ℕ) : List (Value δ (List UInt8)) → ℕ
  | [] => k
  | v :: es => max (k + slots v) (slotsElements (k + 1) es)

def slotsMembers (k : ℕ) : List (List UInt8 × Value δ (List UInt8)) → ℕ
  | [] => k
  | (_, v) :: ms => max (k + 1 + slots v) (slotsMembers (k + 2) ms)

end

theorem slots_pos (v : Value δ (List UInt8)) : 0 < slots v := by
  cases v with
  | null => rw [slots]; exact Nat.one_pos
  | bool b => rw [slots]; exact Nat.one_pos
  | num n => rw [slots]; exact Nat.one_pos
  | str s => rw [slots]; exact Nat.one_pos
  | arr es => rw [slots]; omega
  | obj ms => rw [slots]; omega

/-- The members of an object as they lie on the stack. -/
def stacked (ms : List (List UInt8 × Value δ (List UInt8))) :
    List (Value δ (List UInt8)) :=
  ms.reverse.flatMap fun m => [m.2, .str m.1]

theorem stacked_snoc (ms : List (List UInt8 × Value δ (List UInt8)))
    (k : List UInt8) (v : Value δ (List UInt8)) :
    stacked (ms ++ [(k, v)]) = v :: .str k :: stacked ms := by
  rw [stacked, List.reverse_append]
  rfl

theorem length_stacked (ms : List (List UInt8 × Value δ (List UInt8))) :
    (stacked ms).length = 2 * ms.length := by
  induction ms using List.reverseRecOn with
  | nil => rfl
  | append_singleton ms m ih =>
      rw [stacked_snoc, List.length_cons, List.length_cons, ih,
        List.length_append, List.length_singleton]
      omega

theorem popMembers_stacked (ms : List (List UInt8 × Value δ (List UInt8)))
    (st : List (Value δ (List UInt8)))
    (ns : List (List UInt8 × Value δ (List UInt8))) :
    Parsing.popMembers ms.length (stacked ms ++ st) ns = some (ms ++ ns, st) := by
  induction ms using List.reverseRecOn generalizing ns with
  | nil => rfl
  | append_singleton ms m ih =>
      obtain ⟨k, v⟩ := m
      rw [stacked_snoc, List.length_append, List.length_singleton]
      show Parsing.popMembers ms.length (stacked ms ++ st) ((k, v) :: ns) = _
      rw [ih, List.append_assoc]
      rfl

/-- **The members** are moved into their object, in the order of the text. -/
theorem endObject_stacked {p : Parsing δ Unit (List UInt8)}
    (ms : List (List UInt8 × Value δ (List UInt8)))
    {ns : List (List UInt8 × Value δ (List UInt8))}
    {st : List (Value δ (List UInt8))}
    (h : p.stack_ = stacked ms ++ .obj ns :: st) {k : ℕ} (hk : k = ms.length) :
    p.endObject k = .ok { p with stack_ := .obj ms :: st } := by
  rw [Parsing.endObject, h, hk, popMembers_stacked, List.append_nil]

theorem endArray_stacked {p : Parsing δ Unit (List UInt8)}
    (es : List (Value δ (List UInt8))) {fs st : List (Value δ (List UInt8))}
    (h : p.stack_ = es.reverse ++ .arr fs :: st) {k : ℕ} (hk : k = es.length) :
    p.endArray k = .ok { p with stack_ := .arr es :: st } := by
  have hlen : k = es.reverse.length := by rw [hk, List.length_reverse]
  rw [Parsing.endArray, h, hlen, List.drop_left, List.take_left,
    List.reverse_reverse]

theorem push_outcome (n : ℕ) (p : Parsing δ Unit (List UInt8))
    (v : Value δ (List UInt8)) :
    Outcome n (fun q => q.src = p.src ∧ q.stack_ = v :: p.stack_)
      (p.push v) := by
  rw [Parsing.push]
  split
  · exact ⟨rfl, rfl⟩
  · trivial

/-! ## §2  Literals -/

theorem lit_null : lit "null" = [110, 117, 108, 108] := by decide

theorem lit_true : lit "true" = [116, 114, 117, 101] := by decide

theorem lit_false : lit "false" = [102, 97, 108, 115, 101] := by decide

theorem consumeEach_split : ∀ (cs src : List UInt8), (0 : UInt8) ∉ cs →
    (consumeEach cs src).2.length ≤ src.length ∧
      ((consumeEach cs src).1 = true → src = cs ++ (consumeEach cs src).2)
  | [], src, _ => ⟨Nat.le_refl _, fun _ => rfl⟩
  | c :: cs, src, hcs => by
      have hc : c ≠ 0 := fun h => hcs (h ▸ List.mem_cons_self)
      rw [consumeEach]
      split
      · rename_i rest hrest
        obtain rfl := consume_eq_some hc hrest
        obtain ⟨hle, hsplit⟩ := consumeEach_split cs rest
          fun h => hcs (List.mem_cons_of_mem c h)
        exact ⟨Nat.le_succ_of_le hle, fun h => congrArg (c :: ·) (hsplit h)⟩
      · exact ⟨Nat.le_refl _, fun h => Bool.noConfusion h⟩

/-- What the functions for the literals do with their letters. -/
theorem literal_outcome {p : Parsing δ Unit (List UInt8)} {c : UInt8}
    {cs : List UInt8} (hcs : (0 : UInt8) ∉ c :: cs) (hpeek : peek p.src = c)
    (v : Value δ (List UInt8)) :
    Outcome p.src.length
      (fun q => p.src = c :: cs ++ q.src ∧ q.stack_ = v :: p.stack_)
      (if (consumeEach cs p.src.tail).1 then
        (p.leaving (consumeEach cs p.src.tail).2).push v
      else
        .error (.parseError kParseErrorValueInvalid
          (consumeEach cs p.src.tail).2.length)) := by
  have hsrc := cons_of_peek (fun h => hcs (h ▸ List.mem_cons_self)) hpeek
  have hlen := congrArg List.length hsrc
  rw [List.length_cons] at hlen
  obtain ⟨hle, hsplit⟩ := consumeEach_split cs p.src.tail
    fun h => hcs (List.mem_cons_of_mem c h)
  split
  · rename_i hall
    apply (push_outcome _ (p.leaving _) v).imp (Nat.le_refl _)
    rintro q ⟨hq, hstack⟩
    refine ⟨?_, hstack⟩
    rw [hsrc, hsplit hall, hq]
    rfl
  · show (consumeEach cs p.src.tail).2.length ≤ p.src.length
    omega

theorem parseNull_outcome {p : Parsing δ Unit (List UInt8)}
    (h : peek p.src = 110) :
    Outcome p.src.length (fun q => p.src = lit "null" ++ q.src ∧
      q.stack_ = .null :: p.stack_) (parseNull p) := by
  rw [lit_null]
  exact literal_outcome (by decide) h .null

theorem parseTrue_outcome {p : Parsing δ Unit (List UInt8)}
    (h : peek p.src = 116) :
    Outcome p.src.length (fun q => p.src = lit "true" ++ q.src ∧
      q.stack_ = .bool true :: p.stack_) (parseTrue p) := by
  rw [lit_true]
  exact literal_outcome (by decide) h (.bool true)

theorem parseFalse_outcome {p : Parsing δ Unit (List UInt8)}
    (h : peek p.src = 102) :
    Outcome p.src.length (fun q => p.src = lit "false" ++ q.src ∧
      q.stack_ = .bool false :: p.stack_) (parseFalse p) := by
  rw [lit_false]
  exact literal_outcome (by decide) h (.bool false)

theorem parseString_outcome {p : Parsing δ Unit (List UInt8)}
    (h : peek p.src = quotationMark) :
    Outcome p.src.length (fun q => ∃ s t, Str s t ∧ p.src = t ++ q.src ∧
      q.stack_ = .str s :: p.stack_) (parseString copying p) := by
  rw [parseString]
  apply (copying_outcome h).bind
  rintro r ⟨t, hstr, hsrc⟩
  apply (push_outcome _ _ _).imp (Nat.le_refl _)
  rintro q ⟨hq, hstack⟩
  exact ⟨r.1, t, hstr, by rw [hq, ← hsrc], hstack⟩

/-! ## §3  What is read is in the grammar -/

section Soundness

variable (toDouble : List UInt8 → Option δ)

def ValueRead (p q : Parsing δ Unit (List UInt8)) : Prop :=
  ∃ v t, Text (NumberText toDouble) v t ∧ p.src = t ++ q.src ∧
    q.stack_ = v :: p.stack_

/-- The elements behind `es`, up to the bracket, have been read. -/
def ElementsRead (es st : List (Value δ (List UInt8)))
    (p q : Parsing δ Unit (List UInt8)) : Prop :=
  ∃ v es' u, Elements (NumberText toDouble) false (v :: es') u ∧
    p.src = u ++ Json.endArray :: q.src ∧
      q.stack_ = .arr (es ++ v :: es') :: st

def MembersRead (ms : List (List UInt8 × Value δ (List UInt8)))
    (st : List (Value δ (List UInt8)))
    (p q : Parsing δ Unit (List UInt8)) : Prop :=
  ∃ k v ms' u, Members (NumberText toDouble) false ((k, v) :: ms') u ∧
    p.src = u ++ Json.endObject :: q.src ∧
      q.stack_ = .obj (ms ++ (k, v) :: ms') :: st

/-- `fuel` is enough for the values of the texts that it is meant for. -/
def ReadsValues (fuel : ℕ) : Prop :=
  ∀ p : Parsing δ Unit (List UInt8), 2 * p.src.length + 1 ≤ fuel →
    Outcome p.src.length (ValueRead toDouble p)
      (parseValue copying toDouble fuel p)

def ReadsElements (fuel : ℕ) : Prop :=
  ∀ (es fs st : List (Value δ (List UInt8)))
    (p : Parsing δ Unit (List UInt8)),
    p.stack_ = es.reverse ++ .arr fs :: st → 2 * p.src.length + 2 ≤ fuel →
      Outcome p.src.length (ElementsRead toDouble es st p)
        (parseElements copying toDouble fuel es.length p)

def ReadsMembers (fuel : ℕ) : Prop :=
  ∀ (ms ns : List (List UInt8 × Value δ (List UInt8)))
    (st : List (Value δ (List UInt8))) (p : Parsing δ Unit (List UInt8)),
    p.stack_ = stacked ms ++ .obj ns :: st → 2 * p.src.length + 2 ≤ fuel →
      Outcome p.src.length (MembersRead toDouble ms st p)
        (parseMembers copying toDouble fuel ms.length p)

variable {toDouble}

theorem skip_split (p : Parsing δ Unit (List UInt8)) :
    ∃ w, Ws w ∧ p.src = w ++ p.skip.src :=
  skipWhitespace_split p.src

theorem readsElements_succ {fuel : ℕ} (hvalues : ReadsValues toDouble fuel)
    (helements : ReadsElements toDouble fuel) :
    ReadsElements toDouble (fuel + 1) := by
  intro es fs st p hstack hfuel
  rw [parseElements]
  apply (hvalues p (by omega)).bind
  rintro q ⟨v, t, ht, hsrc, hq⟩
  obtain ⟨w, hw, hskip⟩ := skip_split q
  have hlen : p.src.length = t.length + (w.length + q.skip.src.length) := by
    rw [hsrc, hskip, List.length_append, List.length_append]
  have hstack' : q.skip.stack_ = (es ++ [v]).reverse ++ .arr fs :: st := by
    rw [List.reverse_append]
    exact hq.trans (congrArg (v :: ·) hstack)
  simp only
  split
  · rename_i rest hrest
    have hcomma : q.skip.src = comma :: rest :=
      consume_eq_some (by decide) hrest
    obtain ⟨w', hw', hskip'⟩ := skipWhitespace_split rest
    have hlen' := length_skipWhitespace_le rest
    have hlen'' := congrArg List.length hcomma
    rw [List.length_cons] at hlen''
    have hrec := helements (es ++ [v]) fs st
      (q.skip.leaving (skipWhitespace rest)) hstack'
      (by show 2 * (skipWhitespace rest).length + 2 ≤ fuel; omega)
    rw [List.length_append, List.length_singleton] at hrec
    apply hrec.imp (by show (skipWhitespace rest).length ≤ _; omega)
    rintro r ⟨v', es', u, hes', hu, hr⟩
    replace hu : skipWhitespace rest = u ++ Json.endArray :: r.src := hu
    refine ⟨v, v' :: es', [] ++ t ++ w ++ comma :: (w' ++ u), ?_, ?_, ?_⟩
    · exact ⟨[], t, w, _, rfl, ht, hw, elements_true.mpr ⟨w', u, hw', hes', rfl⟩,
        rfl⟩
    · rw [hsrc, hskip, hcomma, hskip', hu]
      simp
    · rw [hr, List.append_assoc]
      rfl
  · split
    · rename_i rest hrest
      have hbracket : q.skip.src = Json.endArray :: rest :=
        consume_eq_some (by decide) hrest
      have hend := endArray_stacked _ (p := q.skip.leaving rest) hstack'
        (k := es.length + 1) (by rw [List.length_append]; rfl)
      rw [hend]
      refine ⟨v, [], [] ++ t ++ w ++ [], ?_, ?_, rfl⟩
      · exact ⟨[], t, w, [], rfl, ht, hw, rfl, rfl⟩
      · rw [hsrc, hskip, hbracket]
        simp [Parsing.leaving]
    · show q.skip.src.length ≤ p.src.length
      omega

theorem readsMembers_succ {fuel : ℕ} (hvalues : ReadsValues toDouble fuel)
    (hmembers : ReadsMembers toDouble fuel) :
    ReadsMembers toDouble (fuel + 1) := by
  intro ms ns st p hstack hfuel
  rw [parseMembers]
  split
  · exact Nat.le_refl _
  rename_i hquote
  apply (parseString_outcome (not_not.mp hquote)).bind
  rintro q ⟨k, q₁, hk, hsrc, hq⟩
  obtain ⟨w₁, hw₁, hskip₁⟩ := skip_split q
  have hlen₁ : p.src.length = q₁.length + (w₁.length + q.skip.src.length) := by
    rw [hsrc, hskip₁, List.length_append, List.length_append]
  simp only
  split
  · show q.skip.src.length ≤ p.src.length
    omega
  rename_i rest₁ hrest₁
  have hcolon : q.skip.src = colon :: rest₁ := consume_eq_some (by decide) hrest₁
  obtain ⟨w₂, hw₂, hskip₂⟩ := skipWhitespace_split rest₁
  have hlen₂ := length_skipWhitespace_le rest₁
  have hlen₃ := congrArg List.length hcolon
  rw [List.length_cons] at hlen₃
  apply ((hvalues (q.skip.leaving (skipWhitespace rest₁))
    (by show 2 * (skipWhitespace rest₁).length + 1 ≤ fuel; omega)).imp
    (by show (skipWhitespace rest₁).length ≤ _; omega) fun _ h => h).bind
  rintro x ⟨v, t, ht, hsrc', hx⟩
  replace hsrc' : skipWhitespace rest₁ = t ++ x.src := hsrc'
  obtain ⟨w, hw, hskip⟩ := skip_split x
  have hlen : (skipWhitespace rest₁).length =
      t.length + (w.length + x.skip.src.length) := by
    rw [hsrc', hskip, List.length_append, List.length_append]
  have hstack' : x.skip.stack_ =
      stacked (ms ++ [(k, v)]) ++ .obj ns :: st := by
    rw [stacked_snoc]
    exact hx.trans (congrArg (v :: ·) (hq.trans (congrArg (.str k :: ·) hstack)))
  have hwhole : ∀ r, p.src = [] ++ q₁ ++ w₁ ++ colon :: w₂ ++ t ++ w ++ r ↔
      x.skip.src = r := by
    intro r
    rw [hsrc, hskip₁, hcolon, hskip₂, hsrc', hskip]
    simp
  split
  · rename_i hcomma
    have hcomma' := cons_of_peek (by decide) hcomma
    obtain ⟨w', hw', hskip'⟩ := skipWhitespace_split x.skip.src.tail
    have hlen' := length_skipWhitespace_le x.skip.src.tail
    have hlen'' := congrArg List.length hcomma'
    rw [List.length_cons] at hlen''
    have hrec := hmembers (ms ++ [(k, v)]) ns st
      (x.skip.leaving (skipWhitespace x.skip.src.tail)) hstack'
      (by show 2 * (skipWhitespace x.skip.src.tail).length + 2 ≤ fuel; omega)
    rw [List.length_append, List.length_singleton] at hrec
    apply hrec.imp
      (by show (skipWhitespace x.skip.src.tail).length ≤ _; omega)
    rintro r ⟨k', v', ms', u, hms', hu, hr⟩
    replace hu : skipWhitespace x.skip.src.tail = u ++ Json.endObject :: r.src :=
      hu
    refine ⟨k, v, (k', v') :: ms',
      [] ++ q₁ ++ w₁ ++ colon :: w₂ ++ t ++ w ++ comma :: (w' ++ u), ?_, ?_, ?_⟩
    · exact ⟨[], q₁, w₁, w₂, t, w, _, rfl, hk, hw₁, hw₂, ht, hw,
        members_true.mpr ⟨w', u, hw', hms', rfl⟩, rfl⟩
    · rw [List.append_assoc, hwhole, hcomma', hskip', hu]
      simp
    · rw [hr, List.append_assoc]
      rfl
  split
  · rename_i hbrace
    have hbrace' := cons_of_peek (by decide) hbrace
    have hend := endObject_stacked _
      (p := x.skip.leaving x.skip.src.tail) hstack'
      (k := ms.length + 1) (by rw [List.length_append]; rfl)
    rw [hend]
    refine ⟨k, v, [], [] ++ q₁ ++ w₁ ++ colon :: w₂ ++ t ++ w ++ [], ?_, ?_, rfl⟩
    · exact ⟨[], q₁, w₁, w₂, t, w, [], rfl, hk, hw₁, hw₂, ht, hw, rfl, rfl⟩
    · rw [List.append_assoc, hwhole, hbrace']
      rfl
  · show x.skip.src.length ≤ p.src.length
    omega

/-- The bracket has been pushed; the elements and the closing bracket follow. -/
theorem array_outcome {fuel : ℕ} (helements : ReadsElements toDouble fuel)
    {p : Parsing δ Unit (List UInt8)} (h : peek p.src = beginArray)
    (hfuel : 2 * p.src.length + 1 ≤ fuel + 1) :
    Outcome p.src.length (ValueRead toDouble p) (do
      let p ← (p.leaving p.src.tail).push (.arr [])
      let p := p.skip
      match consume Json.endArray p.src with
      | some src => (p.leaving src).endArray 0
      | none => parseElements copying toDouble fuel 0 p) := by
  have hsrc := cons_of_peek (by decide) h
  have hlen := congrArg List.length hsrc
  rw [List.length_cons] at hlen
  apply (push_outcome _ (p.leaving p.src.tail) (.arr [])).bind
  rintro q ⟨hq, hstack⟩
  replace hq : q.src = p.src.tail := hq
  obtain ⟨w, hw, hskip⟩ := skip_split q
  have hlen' : q.src.length = w.length + q.skip.src.length := by
    rw [hskip, List.length_append]
  rw [hq] at hlen'
  simp only
  split
  · rename_i rest hrest
    have hbracket : q.skip.src = Json.endArray :: rest :=
      consume_eq_some (by decide) hrest
    rw [endArray_stacked (p := q.skip.leaving rest) [] hstack (k := 0)
      rfl]
    refine ⟨.arr [], _, ⟨w, [], hw, rfl, rfl⟩, ?_, rfl⟩
    rw [hsrc, ← hq, hskip, hbracket]
    simp [Parsing.leaving]
  · apply (helements [] [] p.stack_ q.skip hstack (by omega)).imp (by omega)
    rintro r ⟨v, es, u, hes, hu, hr⟩
    refine ⟨.arr (v :: es), _, ⟨w, u, hw, hes, rfl⟩, ?_, hr⟩
    rw [hsrc, ← hq, hskip, hu]
    simp

theorem object_outcome {fuel : ℕ} (hmembers : ReadsMembers toDouble fuel)
    {p : Parsing δ Unit (List UInt8)} (h : peek p.src = beginObject)
    (hfuel : 2 * p.src.length + 1 ≤ fuel + 1) :
    Outcome p.src.length (ValueRead toDouble p) (do
      let p ← (p.leaving p.src.tail).push (.obj [])
      let p := p.skip
      match consume Json.endObject p.src with
      | some src => (p.leaving src).endObject 0
      | none => parseMembers copying toDouble fuel 0 p) := by
  have hsrc := cons_of_peek (by decide) h
  have hlen := congrArg List.length hsrc
  rw [List.length_cons] at hlen
  apply (push_outcome _ (p.leaving p.src.tail) (.obj [])).bind
  rintro q ⟨hq, hstack⟩
  replace hq : q.src = p.src.tail := hq
  obtain ⟨w, hw, hskip⟩ := skip_split q
  have hlen' : q.src.length = w.length + q.skip.src.length := by
    rw [hskip, List.length_append]
  rw [hq] at hlen'
  simp only
  split
  · rename_i rest hrest
    have hbrace : q.skip.src = Json.endObject :: rest :=
      consume_eq_some (by decide) hrest
    rw [endObject_stacked (p := q.skip.leaving rest) [] hstack (k := 0)
      rfl]
    refine ⟨.obj [], _, ⟨w, [], hw, rfl, rfl⟩, ?_, rfl⟩
    rw [hsrc, ← hq, hskip, hbrace]
    simp [Parsing.leaving]
  · apply (hmembers [] [] p.stack_ q.skip hstack (by omega)).imp (by omega)
    rintro r ⟨k, v, ms, u, hms, hu, hr⟩
    refine ⟨.obj ((k, v) :: ms), _, ⟨w, u, hw, hms, rfl⟩, ?_, hr⟩
    rw [hsrc, ← hq, hskip, hu]
    simp

theorem readsValues_succ {fuel : ℕ} (helements : ReadsElements toDouble fuel)
    (hmembers : ReadsMembers toDouble fuel) :
    ReadsValues toDouble (fuel + 1) := by
  intro p hfuel
  rw [parseValue]
  simp only
  split
  · rename_i h
    apply (parseNull_outcome h).imp (Nat.le_refl _)
    rintro q ⟨hsrc, hstack⟩
    exact ⟨.null, _, rfl, hsrc, hstack⟩
  split
  · rename_i h
    apply (parseTrue_outcome h).imp (Nat.le_refl _)
    rintro q ⟨hsrc, hstack⟩
    exact ⟨.bool true, _, rfl, hsrc, hstack⟩
  split
  · rename_i h
    apply (parseFalse_outcome h).imp (Nat.le_refl _)
    rintro q ⟨hsrc, hstack⟩
    exact ⟨.bool false, _, rfl, hsrc, hstack⟩
  split
  · rename_i h
    apply (parseString_outcome h).imp (Nat.le_refl _)
    rintro q ⟨s, t, hstr, hsrc, hstack⟩
    exact ⟨.str s, t, hstr, hsrc, hstack⟩
  split
  · rename_i h
    exact object_outcome hmembers h hfuel
  split
  · rename_i h
    exact array_outcome helements h hfuel
  · apply (parseNumber_outcome toDouble p.src).bind
    rintro ⟨n, rest⟩ ⟨t, ht, hsrc⟩
    apply (push_outcome _ (p.leaving rest) (.num n)).imp (Nat.le_refl _)
    rintro q ⟨hq, hstack⟩
    exact ⟨.num n, t, ht, hsrc.trans (congrArg (t ++ ·) hq.symm), hstack⟩

/-- The three functions call each other with one less fuel. -/
theorem reads (toDouble : List UInt8 → Option δ) (fuel : ℕ) : ReadsValues toDouble fuel ∧
    ReadsElements toDouble fuel ∧ ReadsMembers toDouble fuel := by
  induction fuel with
  | zero =>
      refine ⟨?_, ?_, ?_⟩
      · intro p hfuel
        exact absurd hfuel (Nat.not_succ_le_zero _)
      · intro es fs st p hstack hfuel
        exact absurd hfuel (Nat.not_succ_le_zero _)
      · intro ms ns st p hstack hfuel
        exact absurd hfuel (Nat.not_succ_le_zero _)
  | succ fuel ih =>
      obtain ⟨hvalues, helements, hmembers⟩ := ih
      exact ⟨readsValues_succ helements hmembers,
        readsElements_succ hvalues helements,
        readsMembers_succ hvalues hmembers⟩

end Soundness

/-! ## §4  What is in the grammar is read -/

section Completeness

variable {toDouble : List UInt8 → Option δ}

theorem numberText_head (t : List UInt8) (n : Number δ)
    (h : NumberText toDouble t n) :
    ∃ b t', t = b :: t' ∧ (isDigit b = true ∨ b = 45) := by
  obtain ⟨k, rfl, -⟩ := h
  exact k.head_text

/-- A value is in front, so white space has been skipped and no bracket is. -/
theorem text_front {v : Value δ (List UInt8)} {t : List UInt8}
    (h : Text (NumberText toDouble) v t) (rest : List UInt8) :
    skipWhitespace (t ++ rest) = t ++ rest ∧
      consume Json.endArray (t ++ rest) = none ∧ peek (t ++ rest) ≠ 0 := by
  obtain ⟨b, t', rfl, hb⟩ := h.head numberText_head
  obtain ⟨hws, hbracket, hnul⟩ := startsValue_spec b hb
  refine ⟨?_, consume_of_ne hbracket _, hnul⟩
  exact skipWhitespace_append ws_nil hws _

theorem skip_ws {w : List UInt8} (hw : Ws w) {b : UInt8} (hb : isWs b = false)
    (rest : List UInt8) (st : List (Value δ (List UInt8))) :
    (Parsing.mk () (w ++ b :: rest) st).skip = ⟨(), b :: rest, st⟩ := by
  rw [Parsing.skip]
  simp only [skipWhitespace_append hw hb]

theorem push_eq (st : List (Value δ (List UInt8))) (rest : List UInt8)
    {v : Value δ (List UInt8)} (hv : slots v = 1) :
    (Parsing.mk () rest st).push v =
      if st.length + slots v ≤ StackCapacity then .ok ⟨(), rest, v :: st⟩
      else .error .assertion := by
  rw [hv]
  rfl

/-- A comma, then the next elements. -/
theorem parseElements_comma {fuel k : ℕ} {p q : Parsing δ Unit (List UInt8)}
    (h : parseValue copying toDouble fuel p = .ok q) (src : List UInt8)
    (hsrc : q.skip.src = comma :: src) :
    parseElements copying toDouble (fuel + 1) k p =
      parseElements copying toDouble fuel (k + 1)
        (q.skip.leaving (skipWhitespace src)) := by
  rw [parseElements, h, ok_bind]
  simp only [hsrc, consume_cons]

theorem parseElements_close {fuel k : ℕ} {p q : Parsing δ Unit (List UInt8)}
    (h : parseValue copying toDouble fuel p = .ok q) (src : List UInt8)
    (hsrc : q.skip.src = Json.endArray :: src) :
    parseElements copying toDouble (fuel + 1) k p =
      (q.skip.leaving src).endArray (k + 1) := by
  rw [parseElements, h, ok_bind]
  simp only [hsrc, consume_cons,
    consume_of_ne (show Json.endArray ≠ comma by decide)]

theorem parseElements_error {fuel k : ℕ} {p : Parsing δ Unit (List UInt8)}
    {e : Stop} (h : parseValue copying toDouble fuel p = .error e) :
    parseElements copying toDouble (fuel + 1) k p = .error e := by
  rw [parseElements, h, error_bind]

theorem parseString_str {k q : List UInt8} (h : Str k q) (rest : List UInt8)
    (st : List (Value δ (List UInt8))) :
    parseString copying ⟨(), q ++ rest, st⟩ =
      (Parsing.mk () rest st).push (.str k) := by
  rw [parseString]
  simp only [copying_str h, ok_bind]

/-- The name and the colon are read; the value is next. -/
theorem parseMembers_name {k q w₁ w₂ : List UInt8} (hk : Str k q) (hw₁ : Ws w₁)
    (hw₂ : Ws w₂) {v : Value δ (List UInt8)} {t : List UInt8}
    (ht : Text (NumberText toDouble) v t) (rest : List UInt8)
    {st : List (Value δ (List UInt8))} (hst : st.length < StackCapacity)
    (fuel n : ℕ) :
    parseMembers copying toDouble (fuel + 1) n
        ⟨(), q ++ (w₁ ++ colon :: (w₂ ++ (t ++ rest))), st⟩ = (do
      let p ← parseValue copying toDouble fuel ⟨(), t ++ rest, .str k :: st⟩
      let p := p.skip
      let c := peek p.src
      if c = comma then
        parseMembers copying toDouble fuel (n + 1)
          (p.leaving (skipWhitespace p.src.tail))
      else if c = Json.endObject then
        (p.leaving p.src.tail).endObject (n + 1)
      else
        .error
          (.parseError kParseErrorObjectMissCommaOrCurlyBracket p.src.length)) := by
  have hpeek : peek (q ++ (w₁ ++ colon :: (w₂ ++ (t ++ rest)))) =
      quotationMark := by
    obtain ⟨u, -, rfl⟩ := hk
    rfl
  have hskip : skipWhitespace (w₂ ++ (t ++ rest)) = t ++ rest := by
    obtain ⟨b, t', rfl, hb⟩ := ht.head numberText_head
    exact skipWhitespace_append hw₂ (startsValue_spec b hb).1 _
  rw [parseMembers, if_neg (not_not.mpr hpeek), parseString_str hk,
    Parsing.push, if_pos hst, ok_bind]
  simp only
  rw [skip_ws hw₁ (b := colon) (by decide)]
  simp only [consume_cons, Parsing.leaving, hskip]

theorem parseMembers_full {k q rest : List UInt8} (hk : Str k q)
    {st : List (Value δ (List UInt8))} (hst : ¬ st.length < StackCapacity)
    (fuel n : ℕ) :
    parseMembers copying toDouble (fuel + 1) n ⟨(), q ++ rest, st⟩ =
      .error .assertion := by
  have hpeek : peek (q ++ rest) = quotationMark := by
    obtain ⟨u, -, rfl⟩ := hk
    rfl
  rw [parseMembers, if_neg (not_not.mpr hpeek), parseString_str hk,
    Parsing.push, if_neg hst, error_bind]

/-- What stands behind a value in a list does not go on with a number. -/
theorem endsNumber_of_head {c : UInt8} (hc : isDigit c = false ∧ c ≠ 46 ∧
    c ≠ 101 ∧ c ≠ 69) (rest : List UInt8) : EndsNumber (c :: rest) := by
  intro b hb
  obtain rfl : c = b := Option.some_inj.mp hb
  exact hc

theorem parseValue_array (fuel : ℕ) (src : List UInt8)
    (st : List (Value δ (List UInt8))) :
    parseValue copying toDouble (fuel + 1) ⟨(), beginArray :: src, st⟩ = (do
      let p ← (Parsing.mk () src st).push (.arr [])
      let p := p.skip
      match consume Json.endArray p.src with
      | some src => (p.leaving src).endArray 0
      | none => parseElements copying toDouble fuel 0 p) :=
  rfl

theorem parseValue_object (fuel : ℕ) (src : List UInt8)
    (st : List (Value δ (List UInt8))) :
    parseValue copying toDouble (fuel + 1) ⟨(), beginObject :: src, st⟩ = (do
      let p ← (Parsing.mk () src st).push (.obj [])
      let p := p.skip
      match consume Json.endObject p.src with
      | some src => (p.leaving src).endObject 0
      | none => parseMembers copying toDouble fuel 0 p) :=
  rfl

theorem elements_front {v : Value δ (List UInt8)}
    {es : List (Value δ (List UInt8))} {u : List UInt8}
    (h : Elements (NumberText toDouble) false (v :: es) u) {w : List UInt8}
    (hw : Ws w) (rest : List UInt8) :
    skipWhitespace (w ++ (u ++ rest)) = u ++ rest ∧
      consume Json.endArray (u ++ rest) = none := by
  obtain ⟨p, t, w', r, hp, ht, -, -, rfl⟩ := h
  obtain rfl : p = [] := hp
  obtain ⟨b, t', rfl, hb⟩ := ht.head numberText_head
  obtain ⟨hws, hbracket, -⟩ := startsValue_spec b hb
  exact ⟨skipWhitespace_append hw hws _, consume_of_ne hbracket _⟩

theorem members_front {m : List UInt8 × Value δ (List UInt8)}
    {ms : List (List UInt8 × Value δ (List UInt8))} {u : List UInt8}
    (h : Members (NumberText toDouble) false (m :: ms) u) {w : List UInt8}
    (hw : Ws w) (rest : List UInt8) :
    skipWhitespace (w ++ (u ++ rest)) = u ++ rest ∧
      consume Json.endObject (u ++ rest) = none := by
  obtain ⟨p, q, w₁, w₂, t, w', r, hp, ⟨s, -, rfl⟩, -, -, -, -, -, rfl⟩ := h
  obtain rfl : p = [] := hp
  exact ⟨skipWhitespace_append hw (b := quotationMark) (by decide) _,
    consume_of_ne (b := quotationMark) (by decide) _⟩

mutual

theorem parseValue_text : ∀ (v : Value δ (List UInt8)) {t rest : List UInt8}
    (fuel : ℕ) (st : List (Value δ (List UInt8))),
    Text (NumberText toDouble) v t → EndsNumber rest →
    2 * (t ++ rest).length + 1 ≤ fuel →
      parseValue copying toDouble fuel ⟨(), t ++ rest, st⟩ =
        if st.length + slots v ≤ StackCapacity then .ok ⟨(), rest, v :: st⟩
        else .error .assertion
  | v, t, rest, 0, st, ht, hrest, hfuel =>
      absurd hfuel (Nat.not_succ_le_zero _)
  | .null, t, rest, fuel + 1, st, ht, hrest, hfuel => by
      obtain rfl : t = lit "null" := ht
      rw [← push_eq st rest (by rw [slots]), lit_null]
      rfl
  | .bool true, t, rest, fuel + 1, st, ht, hrest, hfuel => by
      obtain rfl : t = lit "true" := ht
      rw [← push_eq st rest (by rw [slots]), lit_true]
      rfl
  | .bool false, t, rest, fuel + 1, st, ht, hrest, hfuel => by
      obtain rfl : t = lit "false" := ht
      rw [← push_eq st rest (by rw [slots]), lit_false]
      rfl
  | .num n, t, rest, fuel + 1, st, ht, hrest, hfuel => by
      rw [← push_eq st rest (by rw [slots])]
      obtain ⟨b, t', rfl, hb⟩ := numberText_head t n ht
      have hnumber : ∀ b : UInt8, isDigit b = true ∨ b = 45 → b ≠ 110 ∧
          b ≠ 116 ∧ b ≠ 102 ∧ b ≠ quotationMark ∧ b ≠ beginObject ∧
            b ≠ beginArray := by
        refine forall_byte ?_
        decide +kernel
      obtain ⟨h₁, h₂, h₃, h₄, h₅, h₆⟩ := hnumber b hb
      have hread := parseNumber_text ht hrest
      rw [parseValue]
      show (if b = 110 then _ else _) = _
      rw [if_neg h₁]
      show (if b = 116 then _ else _) = _
      rw [if_neg h₂]
      show (if b = 102 then _ else _) = _
      rw [if_neg h₃]
      show (if b = quotationMark then _ else _) = _
      rw [if_neg h₄]
      show (if b = beginObject then _ else _) = _
      rw [if_neg h₅]
      show (if b = beginArray then _ else _) = _
      rw [if_neg h₆]
      simp only [hread, ok_bind]
      rfl
  | .str s, t, rest, fuel + 1, st, ht, hrest, hfuel => by
      rw [← push_eq st rest (by rw [slots])]
      have hread := parseString_str (δ := δ) (k := s) (q := t) ht rest st
      obtain ⟨u, hu, rfl⟩ : Str s t := ht
      rw [← hread]
      rfl
  | .arr es, t, rest, fuel + 1, st, ht, hrest, hfuel => by
      obtain ⟨w, u, hw, hu, rfl⟩ := ht
      have hsrc : beginArray :: (w ++ u ++ [Json.endArray]) ++ rest =
          beginArray :: (w ++ (u ++ Json.endArray :: rest)) := by simp
      rw [hsrc, List.length_cons, List.length_append] at hfuel
      rw [hsrc, parseValue_array, Parsing.push, slots, ← Nat.add_assoc]
      by_cases hst : st.length < StackCapacity
      · rw [if_pos hst, ok_bind]
        simp only [Parsing.skip]
        cases es with
        | nil =>
            obtain rfl : u = [] := hu
            rw [List.nil_append,
              skipWhitespace_append hw (b := Json.endArray) (by decide)]
            simp only [consume_cons]
            rw [slotsElements,
              if_pos (show st.length + 1 + 0 ≤ StackCapacity from hst)]
            rfl
        | cons v es =>
            obtain ⟨hskip, hbracket⟩ :=
              elements_front hu hw (Json.endArray :: rest)
            simp only [hskip, hbracket]
            exact parseElements_text (v :: es) _ _ [] [] st
              (List.cons_ne_nil _ _)
              hu (by omega)
      · rw [if_neg hst, error_bind, if_neg (by omega)]
  | .obj ms, t, rest, fuel + 1, st, ht, hrest, hfuel => by
      obtain ⟨w, u, hw, hu, rfl⟩ := ht
      have hsrc : beginObject :: (w ++ u ++ [Json.endObject]) ++ rest =
          beginObject :: (w ++ (u ++ Json.endObject :: rest)) := by simp
      rw [hsrc, List.length_cons, List.length_append] at hfuel
      rw [hsrc, parseValue_object, Parsing.push, slots, ← Nat.add_assoc]
      by_cases hst : st.length < StackCapacity
      · rw [if_pos hst, ok_bind]
        simp only [Parsing.skip]
        cases ms with
        | nil =>
            obtain rfl : u = [] := hu
            rw [List.nil_append,
              skipWhitespace_append hw (b := Json.endObject) (by decide)]
            simp only [consume_cons]
            rw [slotsMembers,
              if_pos (show st.length + 1 + 0 ≤ StackCapacity from hst)]
            rfl
        | cons m ms =>
            obtain ⟨hskip, hbrace⟩ :=
              members_front hu hw (Json.endObject :: rest)
            simp only [hskip, hbrace]
            exact parseMembers_text (m :: ms) _ _ [] [] st
              (List.cons_ne_nil _ _)
              hu (by omega)
      · rw [if_neg hst, error_bind, if_neg (by omega)]

theorem parseElements_text : ∀ (es : List (Value δ (List UInt8)))
    {u : List UInt8} (rest : List UInt8) (fuel : ℕ)
    (done fs st : List (Value δ (List UInt8))), es ≠ [] →
    Elements (NumberText toDouble) false es u →
    2 * (u ++ Json.endArray :: rest).length + 2 ≤ fuel →
      parseElements copying toDouble fuel done.length
          ⟨(), u ++ Json.endArray :: rest, done.reverse ++ .arr fs :: st⟩ =
        if st.length + 1 + slotsElements done.length es ≤ StackCapacity then
          .ok ⟨(), rest, .arr (done ++ es) :: st⟩
        else .error .assertion
  | [], _, _, _, _, _, _, hne, _, _ => absurd rfl hne
  | v :: es, u, rest, 0, done, fs, st, hne, hu, hfuel =>
      absurd hfuel (Nat.not_succ_le_zero _)
  | v :: es, u, rest, fuel + 1, done, fs, st, hne, hu, hfuel => by
      obtain ⟨p, t, w, r, hp, ht, hw, hr, rfl⟩ := hu
      obtain rfl : p = [] := hp
      have hsrc : [] ++ t ++ w ++ r ++ Json.endArray :: rest =
          t ++ (w ++ (r ++ Json.endArray :: rest)) := by simp
      rw [hsrc] at hfuel ⊢
      have hstack : (done.reverse ++ .arr fs :: st).length + slots v =
          st.length + 1 + (done.length + slots v) := by
        rw [List.length_append, List.length_reverse, List.length_cons]
        omega
      have hnext : ∀ {c : UInt8} (s : List UInt8),
          isDigit c = false ∧ c ≠ 46 ∧ c ≠ 101 ∧ c ≠ 69 →
            r ++ Json.endArray :: rest = c :: s →
              parseValue copying toDouble fuel
                  ⟨(), t ++ (w ++ (r ++ Json.endArray :: rest)),
                    done.reverse ++ .arr fs :: st⟩ =
                if st.length + 1 + (done.length + slots v) ≤ StackCapacity then
                  .ok ⟨(), w ++ (r ++ Json.endArray :: rest),
                    v :: (done.reverse ++ .arr fs :: st)⟩
                else .error .assertion := by
        intro c s hc hcs
        rw [← hstack]
        refine parseValue_text v _ _ ht ?_ (by omega)
        rw [hcs]
        exact (endsNumber_of_head hc s).ws_append hw
      have hdone : v :: (done.reverse ++ .arr fs :: st) =
          (done ++ [v]).reverse ++ .arr fs :: st := by
        rw [List.reverse_append]
        rfl
      rw [slotsElements]
      cases es with
      | nil =>
          obtain rfl : r = [] := hr
          have hvalue := hnext (c := Json.endArray) rest (by decide) rfl
          rw [slotsElements]
          have hpos := slots_pos v
          by_cases hfit :
              st.length + 1 + (done.length + slots v) ≤ StackCapacity
          · rw [if_pos hfit] at hvalue
            rw [parseElements_close hvalue rest
                (by rw [List.nil_append, skip_ws hw (by decide)]),
              endArray_stacked (done ++ [v]) (k := done.length + 1) hdone (by simp),
              if_pos (by omega)]
            rfl
          · rw [if_neg hfit] at hvalue
            rw [parseElements_error hvalue, if_neg (by omega)]
      | cons v' es =>
          obtain ⟨w', u', hw', hu', rfl⟩ := elements_true.mp hr
          have hvalue := hnext (c := comma)
            (w' ++ (u' ++ Json.endArray :: rest)) (by decide) (by simp)
          obtain ⟨hskip, -⟩ := elements_front hu' hw' (Json.endArray :: rest)
          by_cases hfit :
              st.length + 1 + (done.length + slots v) ≤ StackCapacity
          · rw [if_pos hfit] at hvalue
            have hlen : (t ++ (w ++ (comma :: (w' ++ u') ++
                Json.endArray :: rest))).length =
                  t.length + w.length + 1 + w'.length +
                    (u' ++ Json.endArray :: rest).length := by
              simp
              omega
            have hrec := parseElements_text (v' :: es) rest fuel
              (done ++ [v]) fs st (List.cons_ne_nil _ _) hu'
              (by omega)
            rw [List.length_append, List.length_singleton,
              List.append_assoc done] at hrec
            rw [parseElements_comma hvalue
                (w' ++ (u' ++ Json.endArray :: rest))
                (by rw [List.cons_append, List.append_assoc,
                  skip_ws hw (by decide)]), hskip, hdone]
            exact hrec.trans (if_congr (by omega) rfl rfl)
          · rw [if_neg hfit] at hvalue
            rw [parseElements_error hvalue, if_neg (by omega)]

theorem parseMembers_text : ∀ (ms : List (List UInt8 × Value δ (List UInt8)))
    {u : List UInt8} (rest : List UInt8) (fuel : ℕ)
    (done ns : List (List UInt8 × Value δ (List UInt8)))
    (st : List (Value δ (List UInt8))), ms ≠ [] →
    Members (NumberText toDouble) false ms u →
    2 * (u ++ Json.endObject :: rest).length + 2 ≤ fuel →
      parseMembers copying toDouble fuel done.length
          ⟨(), u ++ Json.endObject :: rest, stacked done ++ .obj ns :: st⟩ =
        if st.length + 1 + slotsMembers (2 * done.length) ms ≤
            StackCapacity then
          .ok ⟨(), rest, .obj (done ++ ms) :: st⟩
        else .error .assertion
  | [], _, _, _, _, _, _, hne, _, _ => absurd rfl hne
  | (k, v) :: ms, u, rest, 0, done, ns, st, hne, hu, hfuel =>
      absurd hfuel (Nat.not_succ_le_zero _)
  | (k, v) :: ms, u, rest, fuel + 1, done, ns, st, hne, hu, hfuel => by
      obtain ⟨p, q, w₁, w₂, t, w, r, hp, hk, hw₁, hw₂, ht, hw, hr, rfl⟩ := hu
      obtain rfl : p = [] := hp
      have hsrc : [] ++ q ++ w₁ ++ colon :: w₂ ++ t ++ w ++ r ++
          Json.endObject :: rest = q ++ (w₁ ++ colon :: (w₂ ++
            (t ++ (w ++ (r ++ Json.endObject :: rest))))) := by simp
      rw [hsrc] at hfuel ⊢
      have hbelow : (stacked done ++ .obj ns :: st).length =
          st.length + 1 + 2 * done.length := by
        rw [List.length_append, length_stacked, List.length_cons]
        omega
      have hpos := slots_pos v
      rw [slotsMembers]
      by_cases hname : (stacked done ++ .obj ns :: st).length < StackCapacity
      case neg =>
        rw [parseMembers_full hk hname, if_neg (by omega)]
      rw [parseMembers_name hk hw₁ hw₂ ht _ hname]
      have hnext : ∀ {c : UInt8} (s : List UInt8),
          isDigit c = false ∧ c ≠ 46 ∧ c ≠ 101 ∧ c ≠ 69 →
            r ++ Json.endObject :: rest = c :: s →
              parseValue copying toDouble fuel
                  ⟨(), t ++ (w ++ (r ++ Json.endObject :: rest)),
                    .str k :: (stacked done ++ .obj ns :: st)⟩ =
                if st.length + 1 + (2 * done.length + 1 + slots v) ≤
                    StackCapacity then
                  .ok ⟨(), w ++ (r ++ Json.endObject :: rest),
                    v :: .str k :: (stacked done ++ .obj ns :: st)⟩
                else .error .assertion := by
        intro c s hc hcs
        have hstack : (.str k :: (stacked done ++ .obj ns :: st)).length +
            slots v = st.length + 1 + (2 * done.length + 1 + slots v) := by
          rw [List.length_cons, hbelow]
          omega
        have hlen : (q ++ (w₁ ++ colon :: (w₂ ++ (t ++ (w ++
            (r ++ Json.endObject :: rest)))))).length =
              q.length + w₁.length + 1 + w₂.length +
                (t ++ (w ++ (r ++ Json.endObject :: rest))).length := by
          simp
          omega
        rw [← hstack]
        refine parseValue_text v _ _ ht ?_ (by omega)
        rw [hcs]
        exact (endsNumber_of_head hc s).ws_append hw
      have hdone : v :: .str k :: (stacked done ++ .obj ns :: st) =
          stacked (done ++ [(k, v)]) ++ .obj ns :: st := by
        rw [stacked_snoc]
        rfl
      by_cases hfit :
          st.length + 1 + (2 * done.length + 1 + slots v) ≤ StackCapacity
      case neg =>
        cases ms with
        | nil =>
            obtain rfl : r = [] := hr
            rw [hnext (c := Json.endObject) rest (by decide) rfl, if_neg hfit,
              error_bind, if_neg (by omega)]
        | cons m ms =>
            obtain ⟨w', u', hw', hu', rfl⟩ := members_true.mp hr
            rw [hnext (c := comma) (w' ++ (u' ++ Json.endObject :: rest))
                (by decide) (by simp), if_neg hfit, error_bind,
              if_neg (by omega)]
      cases ms with
      | nil =>
          obtain rfl : r = [] := hr
          have hvalue := hnext (c := Json.endObject) rest (by decide) rfl
          rw [if_pos hfit] at hvalue
          rw [hvalue, ok_bind, List.nil_append,
            skip_ws hw (b := Json.endObject) (by decide)]
          show Parsing.endObject _ _ = _
          rw [endObject_stacked (done ++ [(k, v)])
              (k := done.length + 1) hdone (by simp), slotsMembers,
            if_pos (by omega)]
          rfl
      | cons m ms =>
          obtain ⟨w', u', hw', hu', rfl⟩ := members_true.mp hr
          have hvalue := hnext (c := comma)
            (w' ++ (u' ++ Json.endObject :: rest)) (by decide) (by simp)
          obtain ⟨hskip, -⟩ := members_front hu' hw' (Json.endObject :: rest)
          have hlen : (q ++ (w₁ ++ colon :: (w₂ ++ (t ++ (w ++
              (comma :: (w' ++ u') ++ Json.endObject :: rest)))))).length =
                q.length + w₁.length + 1 + w₂.length + t.length + w.length + 1 +
                  w'.length + (u' ++ Json.endObject :: rest).length := by
            simp
            omega
          have hrec := parseMembers_text (m :: ms) rest fuel
            (done ++ [(k, v)]) ns st (List.cons_ne_nil _ _) hu'
            (by omega)
          rw [List.length_append, List.length_singleton, Nat.mul_add,
            Nat.mul_one, List.append_assoc done] at hrec
          rw [if_pos hfit] at hvalue
          rw [hvalue, ok_bind, List.cons_append, List.append_assoc w',
            skip_ws hw (b := comma) (by decide)]
          show parseMembers copying toDouble fuel (done.length + 1)
            ⟨(), skipWhitespace (w' ++ (u' ++ Json.endObject :: rest)),
              v :: .str k :: (stacked done ++ .obj ns :: st)⟩ = _
          rw [hskip, hdone]
          exact hrec.trans (if_congr (by omega) rfl rfl)

end

end Completeness

/-! ## §5  Documents -/

section Documents

variable {toDouble : List UInt8 → Option δ}

/-- A text goes on with a NUL behind its C string, or ends there. -/
theorem cString_split (text : List UInt8) :
    ∃ tail, text = cString text ++ tail ∧ peek tail = 0 := by
  refine ⟨text.dropWhile (· != 0), List.takeWhile_append_dropWhile.symm, ?_⟩
  have h := List.head?_dropWhile_not (· != (0 : UInt8)) text
  cases hdrop : text.dropWhile (· != 0) with
  | nil => rfl
  | cons b tail =>
      rw [hdrop] at h
      exact bne_eq_false_iff_eq.mp h

theorem cString_append {t : List UInt8} (ht : (0 : UInt8) ∉ t)
    {tail : List UInt8} (htail : peek tail = 0) : cString (t ++ tail) = t := by
  cases tail with
  | nil => rw [List.append_nil, cString, cutAt_of_notMem ht]
  | cons b tail =>
      obtain rfl : b = 0 := htail
      exact cutAt_append_self tail ht

theorem skipWhitespace_end {w tail : List UInt8} (hw : Ws w)
    (htail : peek tail = 0) : skipWhitespace (w ++ tail) = tail := by
  cases tail with
  | nil =>
      rw [List.append_nil]
      exact List.dropWhile_eq_nil_iff.mpr hw
  | cons b tail =>
      obtain rfl : b = 0 := htail
      exact skipWhitespace_append hw (by decide) tail

theorem endsNumber_end {w tail : List UInt8} (hw : Ws w)
    (htail : peek tail = 0) : EndsNumber (w ++ tail) := by
  refine EndsNumber.ws_append hw ?_
  intro b hb
  cases tail with
  | nil => cases hb
  | cons c tail =>
      obtain rfl : c = b := Option.some_inj.mp hb
      obtain rfl : c = 0 := htail
      decide

theorem numberText_nul (t : List UInt8) (n : Number δ)
    (h : NumberText toDouble t n) : (0 : UInt8) ∉ t := by
  obtain ⟨k, rfl, -⟩ := h
  exact k.nul

/-- **A document is read**, or it needs more room than the stack has. -/
theorem parse_document {v : Value δ (List UInt8)} {text : List UInt8}
    (h : Document (NumberText toDouble) v (cString text)) :
    parse copying toDouble () text =
      if slots v ≤ StackCapacity then .ok ((), v) else .error .assertion := by
  obtain ⟨tail, htext, htail⟩ := cString_split text
  obtain ⟨w, t, w', hw, ht, hw', hdoc⟩ := h
  have hsrc : skipWhitespace text = t ++ (w' ++ tail) := by
    obtain ⟨b, t', rfl, hb⟩ := ht.head numberText_head
    rw [htext, hdoc, List.append_assoc, List.append_assoc]
    exact skipWhitespace_append hw (startsValue_spec b hb).1 _
  have hvalue := parseValue_text v (2 * (t ++ (w' ++ tail)).length + 1)
    [] ht (endsNumber_end hw' htail) (Nat.le_refl _)
  rw [List.length_nil, Nat.zero_add] at hvalue
  rw [parse]
  simp only [hsrc]
  rw [if_neg (text_front ht (w' ++ tail)).2.2, hvalue]
  split
  · rw [ok_bind]
    simp only [Parsing.skip, skipWhitespace_end hw' htail]
    rw [if_neg (not_not.mpr htail)]
  · rw [error_bind]

/-- Whatever the text, `parse` gives the tree of a document or stops with an
error inside the text or at an assertion. -/
theorem parse_outcome (text : List UInt8) :
    Outcome text.length
      (fun r => Document (NumberText toDouble) r.2 (cString text))
      (parse copying toDouble () text) := by
  obtain ⟨w, hw, htext⟩ := skipWhitespace_split text
  have hlen := length_skipWhitespace_le text
  rw [parse]
  simp only
  split
  · exact hlen
  apply (((reads toDouble _).1
    ⟨(), skipWhitespace text, []⟩ (Nat.le_refl _)).imp hlen fun _ h => h).bind
  rintro p ⟨v, t, ht, hsrc, hstack⟩
  replace hsrc : skipWhitespace text = t ++ p.src := hsrc
  obtain ⟨w', hw', hskip⟩ := skip_split p
  have hlen' : (skipWhitespace text).length =
      t.length + (w'.length + p.skip.src.length) := by
    rw [hsrc, hskip, List.length_append, List.length_append]
  split
  · show p.skip.src.length ≤ text.length
    omega
  rename_i hend
  have hdoc : Document (NumberText toDouble) v (w ++ t ++ w') :=
    ⟨w, t, w', hw, ht, hw', rfl⟩
  have hcString : cString text = w ++ t ++ w' := by
    rw [htext, hsrc, hskip, ← List.append_assoc, ← List.append_assoc]
    exact cString_append (hdoc.nul numberText_nul) (not_not.mp hend)
  have hstack' : p.skip.stack_ = [v] := hstack
  rw [hstack', hcString]
  exact hdoc

/-- **What is accepted**: the documents that fit on the stack. -/
theorem parse_ok_iff {text : List UInt8} {v : Value δ (List UInt8)} :
    parse copying toDouble () text = .ok ((), v) ↔
      Document (NumberText toDouble) v (cString text) ∧
        slots v ≤ StackCapacity := by
  constructor
  · intro h
    have hdoc : Document (NumberText toDouble) v (cString text) :=
      (parse_outcome text).of_ok h
    refine ⟨hdoc, ?_⟩
    rw [parse_document hdoc] at h
    split at h
    · assumption
    · cases h
  · rintro ⟨hdoc, hfit⟩
    rw [parse_document hdoc, if_pos hfit]

end Documents

end Reader

end AWRPC
