import AWRPC.ReaderValues

/-!
# Parsing in place

`ParseInsitu` writes every string over the text it is read from, and the values
point into the buffer. It gives the tree that a parse with strings copied out
gives, or stops as that does: what is written never passes the read position, and
a string that has been written stays as it is.
-/

namespace AWRPC

open Bytes Decimal Json JsonGrammar

namespace Reader

open ParseErrorCode

/-! ## §1  Two computations that agree -/

section Agreement

variable {α β ε : Type}

/-- Both give something, related by `R`, or both stop in the same way. -/
def Agree (R : α → β → Prop) : Except ε α → Except ε β → Prop
  | .ok a, .ok b => R a b
  | .error e, .error e' => e = e'
  | _, _ => False

theorem Agree.bind {γ δ : Type} {R : α → β → Prop} {S : γ → δ → Prop}
    {x : Except ε α} {y : Except ε β} {f : α → Except ε γ}
    {g : β → Except ε δ} (h : Agree R x y)
    (hf : ∀ a b, R a b → Agree S (f a) (g b)) :
    Agree S (x >>= f) (y >>= g) := by
  cases x with
  | ok a =>
      cases y with
      | ok b => exact hf a b h
      | error e => exact absurd h id
  | error e =>
      cases y with
      | ok b => exact absurd h id
      | error e' => exact h

/-- The same computation on both sides, with what is known of it. -/
theorem Agree.of_outcome {n : ℕ} {P : α → Prop} {x : Except Stop α}
    (h : Outcome n P x) : Agree (fun a b => a = b ∧ P b) x x := by
  cases x with
  | ok a => exact ⟨rfl, h⟩
  | error e => exact rfl

theorem Agree.imp {R S : α → β → Prop} {x : Except ε α} {y : Except ε β}
    (h : Agree R x y) (hRS : ∀ a b, R a b → S a b) : Agree S x y := by
  cases x with
  | ok a =>
      cases y with
      | ok b => exact hRS a b h
      | error e => exact h
  | error e =>
      cases y with
      | ok b => exact h
      | error e' => exact h

end Agreement

/-! ## §2  Strings in the buffer -/

/-- The string `s` with its NUL, all in front of `pos`. -/
def At (buffer : List UInt8) (pos : ℕ) (r : ℕ × ℕ) (s : List UInt8) : Prop :=
  r.2 = s.length ∧ r.1 + r.2 < pos ∧
    (buffer.drop r.1).take (r.2 + 1) = s ++ [0]

/-- What stands in front of `pos` decides. -/
theorem At.frame {buffer buffer' : List UInt8} {pos pos' : ℕ} {r : ℕ × ℕ}
    {s : List UInt8} (h : At buffer pos r s)
    (hsame : buffer'.take pos = buffer.take pos) (hpos : pos ≤ pos') :
    At buffer' pos' r s := by
  obtain ⟨hlen, hlt, htake⟩ := h
  refine ⟨hlen, Nat.lt_of_lt_of_le hlt hpos, ?_⟩
  have hcut : ∀ b : List UInt8, (b.drop r.1).take (r.2 + 1) =
      ((b.take pos).drop r.1).take (r.2 + 1) := by
    intro b
    rw [List.drop_take, List.take_take, Nat.min_eq_left (by omega)]
  rw [hcut, hsame, ← hcut, htake]

theorem putAll_eq (front : List UInt8) : ∀ (bytes hole rest : List UInt8),
    bytes.length ≤ hole.length →
      putAll (front ++ (hole ++ rest)) front.length bytes =
        front ++ (bytes ++ (hole.drop bytes.length ++ rest)) := by
  intro bytes
  induction bytes generalizing front with
  | nil =>
      intro hole rest h
      rfl
  | cons c bytes ih =>
      intro hole rest h
      cases hole with
      | nil => exact absurd h (Nat.not_succ_le_zero _)
      | cons b hole =>
          have hset : (front ++ (b :: hole ++ rest)).set front.length c =
              (front ++ [c]) ++ (hole ++ rest) := by
            rw [List.set_append_right _ _ (Nat.le_refl _), Nat.sub_self]
            simp
          have hih := ih (front ++ [c]) hole rest (Nat.le_of_succ_le_succ h)
          rw [List.length_append, List.length_singleton] at hih
          rw [putAll, hset, hih]
          simp

theorem set_front (front : List UInt8) (b c : UInt8) (rest : List UInt8) :
    (front ++ b :: rest).set front.length c = front ++ c :: rest := by
  rw [List.set_append_right _ _ (Nat.le_refl _), Nat.sub_self, List.set_cons_zero]

/-- **Put behind what is kept, taken ahead of it.** In front of the read position
stand what was there before the string, the string so far and a hole of what has
been taken but not overwritten. -/
theorem parseStringInsitu_agree (pre : List UInt8) : ∀ (fuel : ℕ)
    (out hole rest : List UInt8),
    Agree (fun a r => ∃ hole', (pre ++ r.1 ++ (0 :: hole' ++ r.2)).length =
          (pre ++ out ++ (hole ++ rest)).length ∧
        a = (pre ++ r.1 ++ (0 :: hole' ++ r.2),
          (pre ++ r.1 ++ 0 :: hole').length, (pre ++ r.1).length))
      (parseStringInsitu fuel (pre ++ out ++ (hole ++ rest))
        (pre ++ out ++ hole).length (pre ++ out).length)
      (parseStringToStream fuel rest out) := by
  intro fuel
  induction fuel with
  | zero =>
      intro out hole rest
      exact rfl
  | succ fuel ih =>
      intro out hole rest
      have hdrop : (pre ++ out ++ (hole ++ rest)).drop
          (pre ++ out ++ hole).length = rest := by
        rw [← List.append_assoc, List.drop_left]
      rw [parseStringToStream, parseStringInsitu, hdrop]
      apply (Agree.of_outcome (readPiece_outcome rest)).bind
      rintro r r' ⟨rfl, ⟨hnone, hrest⟩ | ⟨t, s, hsome, hpiece, hrest⟩⟩
      · simp only [hnone]
        obtain ⟨b, hole', hhole⟩ : ∃ b hole', hole ++ [quotationMark] =
            b :: hole' := by
          cases hole with
          | nil => exact ⟨_, _, rfl⟩
          | cons b hole => exact ⟨_, _, rfl⟩
        have hbuffer : pre ++ out ++ (hole ++ rest) =
            pre ++ out ++ b :: (hole' ++ r.2) := by
          have hcons := congrArg (· ++ r.2) hhole
          rw [hrest]
          simpa using hcons
        have hsrc : (pre ++ out ++ (hole ++ rest)).length - r.2.length =
            (pre ++ out ++ 0 :: hole').length := by
          rw [hbuffer]
          simp
          omega
        refine ⟨hole', ?_, ?_⟩
        · rw [hbuffer]
          simp
        · rw [hsrc, hbuffer, set_front]
          rfl
      · simp only [hsome]
        have hle := hpiece.length_le
        have hput := putAll_eq (pre ++ out) s (hole ++ t) r.2
          (by rw [List.length_append]; omega)
        have hbuffer : pre ++ out ++ (hole ++ rest) =
            pre ++ out ++ (hole ++ t ++ r.2) := by
          rw [hrest, List.append_assoc hole]
        have hnext : pre ++ out ++ (s ++ ((hole ++ t).drop s.length ++ r.2)) =
            pre ++ (out ++ s) ++ ((hole ++ t).drop s.length ++ r.2) := by
          simp
        have hsrc : (pre ++ out ++ (hole ++ rest)).length - r.2.length =
            (pre ++ (out ++ s) ++ (hole ++ t).drop s.length).length := by
          rw [hbuffer]
          simp
          omega
        have hdst : (pre ++ out).length + s.length =
            (pre ++ (out ++ s)).length := by
          simp
          omega
        have hlen : (pre ++ out ++ (hole ++ t ++ r.2)).length =
            (pre ++ (out ++ s) ++
              ((hole ++ t).drop s.length ++ r.2)).length := by
          simp
          omega
        rw [hsrc, hbuffer, hput, hnext, hdst, hlen]
        exact ih (out ++ s) _ r.2

/-- The whole string, from the opening quotation mark on. -/
theorem insitu_agree (pre tail : List UInt8) :
    Agree (fun a r => ∃ hole, (pre ++ r.1 ++ (0 :: hole ++ r.2.2)).length =
          (pre ++ tail).length ∧
        a = ((pre.length, r.1.length), pre ++ r.1 ++ (0 :: hole ++ r.2.2),
          r.2.2))
      (insitu.parseString (pre ++ tail) (quotationMark :: tail))
      (copying.parseString () (quotationMark :: tail)) := by
  have heq := parseStringInsitu_agree pre (quotationMark :: tail).length
    [] [] tail
  have hhead : (pre ++ tail).length - tail.length = pre.length := by
    rw [List.length_append, Nat.add_sub_cancel]
  rw [List.append_nil, List.nil_append, List.append_nil] at heq
  have hinsitu : insitu.parseString (pre ++ tail) (quotationMark :: tail) = (do
      let r ← parseStringInsitu (quotationMark :: tail).length (pre ++ tail)
        pre.length pre.length
      .ok ((pre.length, r.2.2 - pre.length), r.1, r.1.drop r.2.1)) := by
    rw [← hhead]
    rfl
  rw [hinsitu]
  apply heq.bind
  rintro a r ⟨hole, hlength, rfl⟩
  refine ⟨hole, hlength, ?_⟩
  have hdrop : (pre ++ r.1 ++ (0 :: hole ++ r.2)).drop
      (pre ++ r.1 ++ 0 :: hole).length = r.2 := by
    rw [← List.append_assoc, List.drop_left]
  have hdst : (pre ++ r.1).length - pre.length = r.1.length := by
    rw [List.length_append, Nat.add_sub_cancel_left]
  simp only [hdrop, hdst]

/-! ## §3  The two parses side by side -/

variable {δ : Type}

/-- A parse in place next to one that copies: `n` bytes in all, of which the same
are left, and the same values on the stack. -/
structure Beside (n : ℕ) (p : Parsing δ (List UInt8) (ℕ × ℕ))
    (q : Parsing δ Unit (List UInt8)) : Prop where
  src : p.src = q.src
  length : p.buffer.length = n
  left : p.buffer.drop (n - p.src.length) = p.src
  stack : List.Forall₂ (Related (At p.buffer (n - p.src.length)))
    p.stack_ q.stack_

theorem Beside.length_le {n : ℕ} {p : Parsing δ (List UInt8) (ℕ × ℕ)}
    {q : Parsing δ Unit (List UInt8)} (h : Beside n p q) : p.src.length ≤ n := by
  have hlen := congrArg List.length h.left
  rw [List.length_drop, h.length] at hlen
  omega

/-- Reading on changes nothing in the buffer. -/
theorem Beside.leaving {n : ℕ} {p : Parsing δ (List UInt8) (ℕ × ℕ)}
    {q : Parsing δ Unit (List UInt8)} (h : Beside n p q) {rest : List UInt8}
    (hrest : rest <:+ p.src) : Beside n (p.leaving rest) (q.leaving rest) := by
  obtain ⟨t, ht⟩ := hrest
  have hle := h.length_le
  have hlen : p.src.length = t.length + rest.length := by
    rw [← ht, List.length_append]
  refine ⟨rfl, h.length, ?_, ?_⟩
  · show p.buffer.drop (n - rest.length) = rest
    have hsplit : n - rest.length = n - p.src.length + t.length := by omega
    rw [hsplit, ← List.drop_drop, h.left, ← ht, List.drop_left]
  · refine h.stack.imp fun v w hvw => Related.mono (fun r s hr => ?_) v hvw
    exact hr.frame rfl (by show n - p.src.length ≤ n - rest.length; omega)

theorem skipWhitespace_suffix (src : List UInt8) : skipWhitespace src <:+ src :=
  List.dropWhile_suffix _

theorem Beside.skip {n : ℕ} {p : Parsing δ (List UInt8) (ℕ × ℕ)}
    {q : Parsing δ Unit (List UInt8)} (h : Beside n p q) :
    Beside n p.skip q.skip := by
  have hskip : q.skip = q.leaving (skipWhitespace p.src) := by
    rw [h.src]
    rfl
  rw [hskip]
  exact h.leaving (skipWhitespace_suffix p.src)

theorem Beside.push {n : ℕ} {p : Parsing δ (List UInt8) (ℕ × ℕ)}
    {q : Parsing δ Unit (List UInt8)} (h : Beside n p q)
    {v : Value δ (ℕ × ℕ)} {w : Value δ (List UInt8)}
    (hvw : Related (At p.buffer (n - p.src.length)) v w) :
    Agree (Beside n) (p.push v) (q.push w) := by
  rw [Parsing.push, Parsing.push, h.stack.length_eq]
  split
  · exact ⟨h.src, h.length, h.left, .cons hvw h.stack⟩
  · exact rfl

/-- **A string** is put over the text it is read from: what the values so far
point to is in front of it. -/
theorem Beside.parseString {n : ℕ} {p : Parsing δ (List UInt8) (ℕ × ℕ)}
    {q : Parsing δ Unit (List UInt8)} (h : Beside n p q)
    (hquote : peek p.src = quotationMark) :
    Agree (Beside n) (parseString insitu p) (parseString copying q) := by
  obtain ⟨tail, hsrc⟩ : ∃ tail, p.src = quotationMark :: tail :=
    ⟨_, cons_of_peek (by decide) hquote⟩
  have hle := h.length_le
  have hlen := congrArg List.length hsrc
  rw [List.length_cons] at hlen
  obtain ⟨pre, hpre, hbuffer⟩ : ∃ pre, pre.length = n - p.src.length ∧
      p.buffer = pre ++ [quotationMark] ++ tail := by
    refine ⟨p.buffer.take (n - p.src.length), ?_, ?_⟩
    · rw [List.length_take, h.length, Nat.min_eq_left (Nat.sub_le _ _)]
    · have hsplit := List.take_append_drop (n - p.src.length) p.buffer
      have hquoted : [quotationMark] ++ tail = p.src := hsrc.symm
      rw [h.left] at hsplit
      rw [List.append_assoc, hquoted]
      exact hsplit.symm
  have hstring := insitu_agree (pre ++ [quotationMark]) tail
  rw [← hbuffer, ← hsrc, h.length] at hstring
  rw [Reader.parseString, Reader.parseString, ← h.src]
  apply hstring.bind
  rintro a ⟨s, ⟨⟩, rest⟩ ⟨hole, hlength, rfl⟩
  simp only at hlength ⊢
  have hbuffer' : pre ++ [quotationMark] ++ s ++ (0 :: hole ++ rest) =
      pre ++ [quotationMark] ++ s ++ 0 :: hole ++ rest := by simp
  have hpos : n - rest.length =
      (pre ++ [quotationMark] ++ s ++ 0 :: hole).length := by
    rw [← hlength, hbuffer', List.length_append, Nat.add_sub_cancel]
  have hpos' : n - p.src.length ≤ n - rest.length := by
    rw [hpos, ← hpre]
    simp
  have hbeside : Beside n
      (Parsing.mk (pre ++ [quotationMark] ++ s ++ (0 :: hole ++ rest)) rest
        p.stack_) ⟨(), rest, q.stack_⟩ := by
    refine ⟨rfl, hlength, ?_, ?_⟩
    · simp only
      rw [hpos, hbuffer', List.drop_left]
    · refine h.stack.imp fun v w hvw => Related.mono (fun r s' hr => ?_) v hvw
      refine hr.frame ?_ hpos'
      -- the bytes in front of the quotation mark are as before
      rw [hbuffer, ← hpre, List.append_assoc, List.append_assoc,
        List.append_assoc, List.take_left, List.take_left]
  refine hbeside.push ⟨s, rfl, rfl, ?_, ?_⟩
  · show (pre ++ [quotationMark]).length + s.length < n - rest.length
    rw [hpos]
    simp
    omega
  · show ((pre ++ [quotationMark] ++ s ++ (0 :: hole ++ rest)).drop
      (pre ++ [quotationMark]).length).take (s.length + 1) = s ++ [0]
    rw [List.append_assoc (pre ++ [quotationMark]), List.drop_left]
    have hfront : s ++ (0 :: hole ++ rest) = s ++ [0] ++ (hole ++ rest) := by
      simp
    have hlen' : s.length + 1 = (s ++ [(0 : UInt8)]).length := by simp
    rw [hfront, hlen', List.take_left]

theorem popMembers_related {R : ℕ × ℕ → List UInt8 → Prop} : ∀ (k : ℕ)
    {st : List (Value δ (ℕ × ℕ))} {st' : List (Value δ (List UInt8))}
    (ms : List ((ℕ × ℕ) × Value δ (ℕ × ℕ)))
    (ms' : List (List UInt8 × Value δ (List UInt8))),
    List.Forall₂ (Related R) st st' → RelatedMembers R ms ms' →
      Option.Rel (fun a b => RelatedMembers R a.1 b.1 ∧
          List.Forall₂ (Related R) a.2 b.2)
        (Parsing.popMembers k st ms) (Parsing.popMembers k st' ms') := by
  intro k
  induction k with
  | zero =>
      intro st st' ms ms' hst hms
      exact .some ⟨hms, hst⟩
  | succ k ih =>
      intro st st' ms ms' hst hms
      cases hst with
      | nil => exact .none
      | @cons v w st st' hvw hst =>
          cases hst with
          | nil => exact .none
          | @cons name name' st st' hname hst =>
              cases name with
              | str s =>
                  obtain ⟨s', rfl, hs⟩ := hname
                  exact ih _ _ hst ⟨s', w, ms', rfl, hs, hvw, hms⟩
              | null =>
                  obtain rfl : name' = .null := hname
                  exact .none
              | bool b =>
                  obtain rfl : name' = .bool b := hname
                  exact .none
              | num m =>
                  obtain rfl : name' = .num m := hname
                  exact .none
              | arr es =>
                  obtain ⟨es', rfl, -⟩ := hname
                  exact .none
              | obj ns =>
                  obtain ⟨ns', rfl, -⟩ := hname
                  exact .none

theorem Beside.endObject {n : ℕ} {p : Parsing δ (List UInt8) (ℕ × ℕ)}
    {q : Parsing δ Unit (List UInt8)} (h : Beside n p q) (k : ℕ) :
    Agree (Beside n) (p.endObject k) (q.endObject k) := by
  have hpop := popMembers_related k [] [] h.stack rfl
  rw [Parsing.endObject, Parsing.endObject]
  cases hp : Parsing.popMembers k p.stack_ [] with
  | none =>
      rw [hp] at hpop
      cases hq : Parsing.popMembers k q.stack_ [] with
      | none => exact rfl
      | some b =>
          rw [hq] at hpop
          cases hpop
  | some a =>
      obtain ⟨ms, st⟩ := a
      rw [hp] at hpop
      cases hq : Parsing.popMembers k q.stack_ [] with
      | none =>
          rw [hq] at hpop
          cases hpop
      | some b =>
          obtain ⟨ms', st'⟩ := b
          rw [hq] at hpop
          cases hpop with
          | some hrel =>
              obtain ⟨hms, hst⟩ := hrel
              cases hst with
              | nil => exact rfl
              | @cons v w st st' hvw hst =>
                  cases v with
                  | obj ns =>
                      obtain ⟨ns', rfl, -⟩ := hvw
                      exact ⟨h.src, h.length, h.left, .cons ⟨_, rfl, hms⟩ hst⟩
                  | null =>
                      obtain rfl : w = .null := hvw
                      exact rfl
                  | bool b =>
                      obtain rfl : w = .bool b := hvw
                      exact rfl
                  | num m =>
                      obtain rfl : w = .num m := hvw
                      exact rfl
                  | str s =>
                      obtain ⟨s', rfl, -⟩ := hvw
                      exact rfl
                  | arr es =>
                      obtain ⟨es', rfl, -⟩ := hvw
                      exact rfl

theorem Beside.endArray {n : ℕ} {p : Parsing δ (List UInt8) (ℕ × ℕ)}
    {q : Parsing δ Unit (List UInt8)} (h : Beside n p q) (k : ℕ) :
    Agree (Beside n) (p.endArray k) (q.endArray k) := by
  have hdrop := List.forall₂_drop k h.stack
  have htake := List.rel_reverse (List.forall₂_take k h.stack)
  rw [Parsing.endArray, Parsing.endArray]
  cases hp : p.stack_.drop k with
  | nil =>
      rw [hp, List.forall₂_nil_left_iff] at hdrop
      rw [hdrop]
      exact rfl
  | cons v st =>
      rw [hp, List.forall₂_cons_left_iff] at hdrop
      obtain ⟨w, st', hvw, hst, hq⟩ := hdrop
      rw [hq]
      cases v with
      | arr es =>
          obtain ⟨es', rfl, -⟩ := hvw
          exact ⟨h.src, h.length, h.left,
            .cons ⟨_, rfl, relatedElements_iff.mpr htake⟩ hst⟩
      | null =>
          obtain rfl : w = .null := hvw
          exact rfl
      | bool b =>
          obtain rfl : w = .bool b := hvw
          exact rfl
      | num m =>
          obtain rfl : w = .num m := hvw
          exact rfl
      | str s =>
          obtain ⟨s', rfl, -⟩ := hvw
          exact rfl
      | obj ms =>
          obtain ⟨ms', rfl, -⟩ := hvw
          exact rfl

/-! ## §4  The whole parse -/

theorem consumeEach_suffix : ∀ (cs src : List UInt8), (0 : UInt8) ∉ cs →
    (consumeEach cs src).2 <:+ src
  | [], src, _ => List.suffix_refl src
  | c :: cs, src, hcs => by
      have hc : c ≠ 0 := fun h => hcs (h ▸ List.mem_cons_self)
      rw [consumeEach]
      split
      · rename_i rest hrest
        obtain rfl := consume_eq_some hc hrest
        have hih := consumeEach_suffix cs rest
          fun h => hcs (List.mem_cons_of_mem c h)
        exact hih.trans (List.suffix_cons c rest)
      · exact List.suffix_refl src

theorem consume_suffix {c : UInt8} (hc : c ≠ 0) {src rest : List UInt8}
    (h : consume c src = some rest) : rest <:+ src := by
  rw [consume_eq_some hc h]
  exact List.suffix_cons c rest

theorem Beside.literal {n : ℕ} {p : Parsing δ (List UInt8) (ℕ × ℕ)}
    {q : Parsing δ Unit (List UInt8)} (h : Beside n p q) {cs : List UInt8}
    (hcs : (0 : UInt8) ∉ cs) {v : Value δ (ℕ × ℕ)} {w : Value δ (List UInt8)}
    (hvw : ∀ R : ℕ × ℕ → List UInt8 → Prop, Related R v w) :
    Agree (Beside n)
      (if (consumeEach cs p.src.tail).1 then
        (p.leaving (consumeEach cs p.src.tail).2).push v
      else .error (.parseError kParseErrorValueInvalid
        (consumeEach cs p.src.tail).2.length))
      (if (consumeEach cs q.src.tail).1 then
        (q.leaving (consumeEach cs q.src.tail).2).push w
      else .error (.parseError kParseErrorValueInvalid
        (consumeEach cs q.src.tail).2.length)) := by
  rw [← h.src]
  split
  · exact (h.leaving ((consumeEach_suffix cs _ hcs).trans
      (List.tail_suffix _))).push (hvw _)
  · exact rfl

section Parses

variable {toDouble : List UInt8 → Option δ}

theorem Beside.number (toDouble : List UInt8 → Option δ) {n : ℕ}
    {p : Parsing δ (List UInt8) (ℕ × ℕ)}
    {q : Parsing δ Unit (List UInt8)} (h : Beside n p q) :
    Agree (Beside n)
      (parseNumber toDouble p.src >>= fun r => (p.leaving r.2).push (.num r.1))
      (parseNumber toDouble q.src >>= fun r =>
        (q.leaving r.2).push (.num r.1)) := by
  rw [← h.src]
  apply (Agree.of_outcome (parseNumber_outcome toDouble p.src)).bind
  rintro r r' ⟨rfl, t, -, hsrc⟩
  exact (h.leaving ⟨t, hsrc.symm⟩).push (v := .num r.1) (w := .num r.1) rfl

/-- **The three functions** stay side by side. -/
theorem parse_beside (n fuel : ℕ) :
    (∀ p q, Beside n p q →
      Agree (Beside n) (parseValue insitu toDouble fuel p)
        (parseValue copying toDouble fuel q)) ∧
    (∀ k p q, Beside n p q →
      Agree (Beside n) (parseMembers insitu toDouble fuel k p)
        (parseMembers copying toDouble fuel k q)) ∧
    ∀ k p q, Beside n p q →
      Agree (Beside n) (parseElements insitu toDouble fuel k p)
        (parseElements copying toDouble fuel k q) := by
  induction fuel with
  | zero => exact ⟨fun _ _ _ => rfl, fun _ _ _ _ => rfl, fun _ _ _ _ => rfl⟩
  | succ fuel ih =>
      obtain ⟨hvalue, hmembers, helements⟩ := ih
      refine ⟨?_, ?_, ?_⟩
      · intro p q h
        rw [parseValue, parseValue, ← h.src]
        simp only
        split
        · exact h.literal (v := .null) (w := .null) (by decide) fun _ => rfl
        split
        · exact h.literal (v := .bool true) (w := .bool true) (by decide)
            fun _ => rfl
        split
        · exact h.literal (v := .bool false) (w := .bool false) (by decide)
            fun _ => rfl
        split
        · rename_i hquote
          exact h.parseString hquote
        split
        · apply ((h.leaving (List.tail_suffix p.src)).push (v := .obj [])
            (w := .obj []) ⟨[], rfl, rfl⟩).bind
          intro p q h
          rw [← h.skip.src]
          cases hbrace : consume Json.endObject p.skip.src with
          | some src =>
              exact (h.skip.leaving
                (consume_suffix (by decide) hbrace)).endObject 0
          | none => exact hmembers 0 _ _ h.skip
        split
        · apply ((h.leaving (List.tail_suffix p.src)).push (v := .arr [])
            (w := .arr []) ⟨[], rfl, rfl⟩).bind
          intro p q h
          rw [← h.skip.src]
          cases hbracket : consume Json.endArray p.skip.src with
          | some src =>
              exact (h.skip.leaving
                (consume_suffix (by decide) hbracket)).endArray 0
          | none => exact helements 0 _ _ h.skip
        · have hnumber := h.number toDouble
          rw [← h.src] at hnumber
          exact hnumber
      · intro k p q h
        rw [parseMembers, parseMembers, ← h.src]
        split
        · exact rfl
        rename_i hquote
        apply (h.parseString (not_not.mp hquote)).bind
        intro p q h
        simp only
        rw [← h.skip.src]
        cases hcolon : consume colon p.skip.src with
        | none => exact rfl
        | some src =>
            have hsrc := (skipWhitespace_suffix src).trans
              (consume_suffix (by decide) hcolon)
            apply (hvalue _ _ (h.skip.leaving hsrc)).bind
            intro p q h
            rw [← h.skip.src]
            have htail := List.tail_suffix p.skip.src
            split
            · exact hmembers _ _ _
                (h.skip.leaving ((skipWhitespace_suffix _).trans htail))
            split
            · exact (h.skip.leaving htail).endObject _
            · exact rfl
      · intro k p q h
        rw [parseElements, parseElements]
        apply (hvalue p q h).bind
        intro p q h
        simp only
        rw [← h.skip.src]
        cases hcomma : consume comma p.skip.src with
        | some src =>
            have hsrc := (skipWhitespace_suffix src).trans
              (consume_suffix (by decide) hcomma)
            exact helements _ _ _ (h.skip.leaving hsrc)
        | none =>
            cases hbracket : consume Json.endArray p.skip.src with
            | some src =>
                exact (h.skip.leaving
                  (consume_suffix (by decide) hbracket)).endArray _
            | none => exact rfl

/-- **Parsing in place agrees with parsing into copies**: the same document, its
strings in the buffer with a NUL behind each, or the same error. -/
theorem parse_insitu (text : List UInt8) :
    Agree (fun a b => a.1.length = text.length ∧
        Related (At a.1 text.length) a.2 b.2)
      (parse insitu toDouble text text) (parse copying toDouble () text) := by
  have hstart : Beside text.length
      (Parsing.mk text (skipWhitespace text) [])
      (Parsing.mk (δ := δ) () (skipWhitespace text) []) := by
    have hwhole : Beside text.length
        (Parsing.mk text text []) (Parsing.mk (δ := δ) () text []) := by
      refine ⟨rfl, rfl, ?_, .nil⟩
      show text.drop (text.length - text.length) = text
      rw [Nat.sub_self, List.drop_zero]
    exact hwhole.leaving (skipWhitespace_suffix text)
  rw [parse, parse]
  simp only
  split
  · exact rfl
  apply ((parse_beside text.length _).1 _ _ hstart).bind
  intro p q h
  rw [← h.skip.src]
  split
  · exact rfl
  have hlength : p.skip.buffer.length = text.length := h.skip.length
  have hstack := h.skip.stack
  cases hp : p.skip.stack_ with
  | nil =>
      rw [hp, List.forall₂_nil_left_iff] at hstack
      rw [hstack]
      exact rfl
  | cons v st =>
      rw [hp, List.forall₂_cons_left_iff] at hstack
      obtain ⟨w, st', hvw, hst, hq⟩ := hstack
      rw [hq]
      cases hst with
      | nil =>
          refine ⟨hlength, Related.mono (fun r s hr => ?_) v hvw⟩
          exact hr.frame rfl (Nat.sub_le _ _)
      | cons hx hst => exact rfl

end Parses

end Reader

end AWRPC
