import AWRPC.Lib.Machine
import Mathlib.Data.Fin.Basic
import Mathlib.Data.Nat.ModEq
import Mathlib.Data.Nat.Notation
import Mathlib.Logic.Function.Basic

/-!
# The queue of messages

`discord/src/msg_queue.h`: one thread adds, one sends, and they share three
counters of 32 bits and an array. In any interleaving of their accesses what is
sent is what was added, in order, as long as every message that `GetNextAddMessage`
gave out is added; one that is not leaves the queue out of step.
-/

namespace AWRPC

structure MsgQueue (α : Type) (n : ℕ) where
  queue_ : Fin n → α
  nextAdd_ : UInt32 := 0
  nextSend_ : UInt32 := 0
  pendingSends_ : UInt32 := 0

namespace MsgQueue

variable {α : Type} {n : ℕ} [NeZero n]

/-! ## §1  `msg_queue.h` -/

/-- The test in `GetNextAddMessage`. -/
def fallingBehind (q : MsgQueue α n) : Bool := n ≤ q.pendingSends_.toNat

/-- The rest of `GetNextAddMessage`. -/
def claim (q : MsgQueue α n) : Fin n × MsgQueue α n :=
  (Fin.ofNat n q.nextAdd_.toNat, { q with nextAdd_ := q.nextAdd_ + 1 })

def getNextAddMessage (q : MsgQueue α n) : Option (Fin n) × MsgQueue α n :=
  if q.fallingBehind then (none, q) else (some q.claim.1, q.claim.2)

/-- Something is written into the message that was given out. -/
def put (q : MsgQueue α n) (i : Fin n) (a : α) : MsgQueue α n :=
  { q with queue_ := Function.update q.queue_ i a }

def commitAdd (q : MsgQueue α n) : MsgQueue α n :=
  { q with pendingSends_ := q.pendingSends_ + 1 }

def havePendingSends (q : MsgQueue α n) : Bool := q.pendingSends_ ≠ 0

def getNextSendMessage (q : MsgQueue α n) : Fin n × MsgQueue α n :=
  (Fin.ofNat n q.nextSend_.toNat, { q with nextSend_ := q.nextSend_ + 1 })

def commitSend (q : MsgQueue α n) : MsgQueue α n :=
  { q with pendingSends_ := q.pendingSends_ - 1 }

/-! ## §2  Two threads -/

/-- Where the thread that adds stands: outside, behind the test, or with a
message it may write into. -/
inductive AddPoint (n : ℕ) where
  | outside | admitted
  | filling (i : Fin n)
deriving DecidableEq

inductive SendPoint (n : ℕ) where
  | outside | admitted
  | reading (i : Fin n)
deriving DecidableEq

/-- The queue and its two threads; `added`, `sent` and `abandoned` tell what has
become of the messages that were given out. -/
structure Shared (α : Type) (n : ℕ) where
  q : MsgQueue α n
  adder : AddPoint n := .outside
  sender : SendPoint n := .outside
  added : List α := []
  sent : List α := []
  abandoned : ℕ := 0

/-- The accesses to the queue. A message may be written several times, and need
not be added. -/
inductive Access (α : Type) where
  | test | claim | write (a : α) | commitAdd | abandon
  | check | take | commitSend

def Shared.step (s : Shared α n) : Access α → Option (Shared α n)
  | .test =>
      match s.adder with
      | .outside =>
          if s.q.fallingBehind then some s else some { s with adder := .admitted }
      | _ => none
  | .claim =>
      match s.adder with
      | .admitted =>
          some { s with adder := .filling s.q.claim.1, q := s.q.claim.2 }
      | _ => none
  | .write a =>
      match s.adder with
      | .filling i => some { s with q := s.q.put i a }
      | _ => none
  | .commitAdd =>
      match s.adder with
      | .filling i =>
          some
            { s with
              adder := .outside
              q := s.q.commitAdd
              added := s.added ++ [s.q.queue_ i] }
      | _ => none
  | .abandon =>
      match s.adder with
      | .filling _ =>
          some { s with adder := .outside, abandoned := s.abandoned + 1 }
      | _ => none
  | .check =>
      match s.sender with
      | .outside =>
          if s.q.havePendingSends then some { s with sender := .admitted }
          else some s
      | _ => none
  | .take =>
      match s.sender with
      | .admitted =>
          some
            { s with
              sender := .reading s.q.getNextSendMessage.1
              q := s.q.getNextSendMessage.2 }
      | _ => none
  | .commitSend =>
      match s.sender with
      | .reading i =>
          some
            { s with
              sender := .outside
              q := s.q.commitSend
              sent := s.sent ++ [s.q.queue_ i] }
      | _ => none

/-- The queue as it is constructed, whatever its array holds. -/
def shared (queue_ : Fin n → α) : Machine (Shared α n) (Access α) Unit where
  init := { q := { queue_ := queue_ } }
  step := fun s e => (s.step e).map fun s' => (s', ())

/-! ## §3  The counters -/

/-- The messages that are given out and not yet added. -/
def AddPoint.out : AddPoint n → ℕ
  | .filling _ => 1
  | _ => 0

def SendPoint.out : SendPoint n → ℕ
  | .reading _ => 1
  | _ => 0

/-- The counters count, modulo 2³². -/
structure Counted (s : Shared α n) : Prop where
  nextAdd : s.q.nextAdd_ =
    UInt32.ofNat (s.added.length + s.abandoned + s.adder.out)
  nextSend : s.q.nextSend_ = UInt32.ofNat (s.sent.length + s.sender.out)
  pending : s.q.pendingSends_.toNat + s.sent.length = s.added.length
  atMost : s.q.pendingSends_.toNat ≤ n
  room : s.adder ≠ .outside → s.q.pendingSends_.toNat < n
  some : s.sender ≠ .outside → 0 < s.q.pendingSends_.toNat

/-- What was added and not yet sent lies in the array in order, apart from the
message that is being written. -/
structure InStep (s : Shared α n) : Prop where
  sent : s.sent <+: s.added
  filling : ∀ i, s.adder = .filling i → i = Fin.ofNat n s.added.length
  reading : ∀ i, s.sender = .reading i → i = Fin.ofNat n s.sent.length
  waiting : ∀ k, s.sent.length ≤ k → k < s.added.length →
    s.added[k]? = Option.some (s.q.queue_ (Fin.ofNat n k))

theorem ofNat_toNat (hn : n ∣ 2 ^ 32) (k : ℕ) :
    Fin.ofNat n (UInt32.ofNat k).toNat = Fin.ofNat n k := by
  apply Fin.ext
  show (UInt32.ofNat k).toNat % n = k % n
  rw [UInt32.toNat_ofNat', Nat.mod_mod_of_dvd k hn]

/-- Messages less than `n` apart lie in different places. -/
theorem ofNat_ne {k m : ℕ} (hlt : k < m) (hnear : m < k + n) :
    Fin.ofNat n k ≠ Fin.ofNat n m := by
  intro h
  have hmod : k % n = m % n := congrArg Fin.val h
  have hdvd : n ∣ m - k := (Nat.modEq_iff_dvd' (Nat.le_of_lt hlt)).mp hmod
  have hle := Nat.le_of_dvd (by omega) hdvd
  omega

theorem counted_init (queue_ : Fin n → α) :
    Counted (shared queue_).init where
  nextAdd := rfl
  nextSend := rfl
  pending := rfl
  atMost := Nat.zero_le _
  room := fun h => absurd rfl h
  some := fun h => absurd rfl h

theorem inStep_init (queue_ : Fin n → α) : InStep (shared queue_).init where
  sent := List.prefix_rfl
  filling := fun _ => nofun
  reading := fun _ => nofun
  waiting := fun _ _ h => absurd h (Nat.not_lt_zero _)

theorem toNat_add_one {w : UInt32} (h : w.toNat + 1 < 2 ^ 32) :
    (w + 1).toNat = w.toNat + 1 := by
  rw [UInt32.toNat_add]
  exact Nat.mod_eq_of_lt h

theorem toNat_sub_one {w : UInt32} (h : 0 < w.toNat) :
    (w - 1).toNat + 1 = w.toNat := by
  have hle : (1 : UInt32) ≤ w := UInt32.le_iff_toNat_le.mpr h
  rw [UInt32.toNat_sub_of_le w 1 hle]
  exact Nat.sub_add_cancel h

omit [NeZero n] in
theorem pending_of_have {q : MsgQueue α n} (h : q.havePendingSends = true) :
    0 < q.pendingSends_.toNat := by
  have hne : q.pendingSends_ ≠ 0 := by simpa [havePendingSends] using h
  exact Nat.pos_of_ne_zero fun hzero => hne (UInt32.toNat_inj.mp hzero)

/-- Everything a step can do. -/
inductive Moved (s : Shared α n) : Shared α n → Prop where
  | stay : Moved s s
  | enter (hadder : s.adder = .outside)
      (hroom : s.q.pendingSends_.toNat < n) :
      Moved s { s with adder := .admitted }
  | claim (hadder : s.adder = .admitted) :
      Moved s { s with adder := .filling s.q.claim.1, q := s.q.claim.2 }
  | write (i : Fin n) (a : α) (hadder : s.adder = .filling i) :
      Moved s { s with q := s.q.put i a }
  | add (i : Fin n) (hadder : s.adder = .filling i) :
      Moved s
        { s with
          adder := .outside
          q := s.q.commitAdd
          added := s.added ++ [s.q.queue_ i] }
  | abandon (i : Fin n) (hadder : s.adder = .filling i) :
      Moved s { s with adder := .outside, abandoned := s.abandoned + 1 }
  | check (hsender : s.sender = .outside)
      (hsome : 0 < s.q.pendingSends_.toNat) :
      Moved s { s with sender := .admitted }
  | take (hsender : s.sender = .admitted) :
      Moved s
        { s with
          sender := .reading s.q.getNextSendMessage.1
          q := s.q.getNextSendMessage.2 }
  | send (i : Fin n) (hsender : s.sender = .reading i) :
      Moved s
        { s with
          sender := .outside
          q := s.q.commitSend
          sent := s.sent ++ [s.q.queue_ i] }

theorem moved_of_step {s s' : Shared α n} {e : Access α}
    (hstep : s.step e = some s') : Moved s s' := by
  cases e with
  | test =>
      rw [Shared.step] at hstep
      split at hstep
      · rename_i hadder
        split at hstep
        · cases hstep
          exact .stay
        · rename_i hfree
          cases hstep
          exact .enter hadder (by simpa [fallingBehind] using hfree)
      · cases hstep
  | claim =>
      rw [Shared.step] at hstep
      split at hstep
      · rename_i hadder
        cases hstep
        exact .claim hadder
      · cases hstep
  | write a =>
      rw [Shared.step] at hstep
      split at hstep
      · rename_i i hadder
        cases hstep
        exact .write i a hadder
      · cases hstep
  | commitAdd =>
      rw [Shared.step] at hstep
      split at hstep
      · rename_i i hadder
        cases hstep
        exact .add i hadder
      · cases hstep
  | abandon =>
      rw [Shared.step] at hstep
      split at hstep
      · rename_i i hadder
        cases hstep
        exact .abandon i hadder
      · cases hstep
  | check =>
      rw [Shared.step] at hstep
      split at hstep
      · rename_i hsender
        split at hstep
        · rename_i hpending
          cases hstep
          exact .check hsender (pending_of_have hpending)
        · cases hstep
          exact .stay
      · cases hstep
  | take =>
      rw [Shared.step] at hstep
      split at hstep
      · rename_i hsender
        cases hstep
        exact .take hsender
      · cases hstep
  | commitSend =>
      rw [Shared.step] at hstep
      split at hstep
      · rename_i i hsender
        cases hstep
        exact .send i hsender
      · cases hstep

theorem counted_step (hlt : n < 2 ^ 32) {s s' : Shared α n} (h : Counted s)
    (hmoved : Moved s s') : Counted s' := by
  have hadd := h.nextAdd
  have hsend := h.nextSend
  cases hmoved with
  | stay => exact h
  | enter hadder hroom =>
      rw [hadder] at hadd
      exact ⟨hadd, hsend, h.pending, h.atMost, fun _ => hroom, h.some⟩
  | claim hadder =>
      rw [hadder] at hadd
      have hroom := h.room (by rw [hadder]; rintro ⟨⟩)
      refine ⟨?_, hsend, h.pending, h.atMost, fun _ => hroom, h.some⟩
      show s.q.nextAdd_ + 1 = _
      rw [hadd]
      exact (UInt32.ofNat_add _ 1).symm
  | write i a hadder =>
      exact ⟨hadd, hsend, h.pending, h.atMost, h.room, h.some⟩
  | add i hadder =>
      rw [hadder] at hadd
      have hroom := h.room (by rw [hadder]; rintro ⟨⟩)
      have hpending : (s.q.pendingSends_ + 1).toNat = _ :=
        toNat_add_one (Nat.lt_of_le_of_lt hroom hlt)
      have hlength : (s.added ++ [s.q.queue_ i]).length = s.added.length + 1 :=
        List.length_append
      refine ⟨?_, hsend, ?_, ?_, fun h' => absurd rfl h', fun _ => ?_⟩
      · show s.q.nextAdd_ = UInt32.ofNat (List.length _ + s.abandoned + 0)
        rw [hadd, hlength, AddPoint.out]
        congr 1
        omega
      · show (s.q.pendingSends_ + 1).toNat + s.sent.length = List.length _
        rw [hpending, hlength, ← h.pending]
        omega
      · exact hpending.trans_le hroom
      · exact Nat.lt_of_lt_of_eq (Nat.succ_pos _) hpending.symm
  | abandon i hadder =>
      rw [hadder] at hadd
      exact ⟨hadd, hsend, h.pending, h.atMost, fun h' => absurd rfl h', h.some⟩
  | check hsender hsome =>
      rw [hsender] at hsend
      exact ⟨hadd, hsend, h.pending, h.atMost, h.room, fun _ => hsome⟩
  | take hsender =>
      rw [hsender] at hsend
      have hsome := h.some (by rw [hsender]; rintro ⟨⟩)
      refine ⟨hadd, ?_, h.pending, h.atMost, h.room, fun _ => hsome⟩
      show s.q.nextSend_ + 1 = _
      rw [hsend]
      exact (UInt32.ofNat_add _ 1).symm
  | send i hsender =>
      rw [hsender] at hsend
      have hsome := h.some (by rw [hsender]; rintro ⟨⟩)
      have hpending : (s.q.pendingSends_ - 1).toNat + 1 = _ := toNat_sub_one hsome
      have hlength : (s.sent ++ [s.q.queue_ i]).length = s.sent.length + 1 :=
        List.length_append
      have hmost := h.atMost
      refine ⟨hadd, ?_, ?_, ?_, fun hne => ?_, fun h' => absurd rfl h'⟩
      · show s.q.nextSend_ = UInt32.ofNat (List.length _ + 0)
        rw [hsend, hlength]
        rfl
      · show (s.q.pendingSends_ - 1).toNat + List.length _ = s.added.length
        rw [hlength, ← h.pending, ← hpending]
        omega
      · show (s.q.pendingSends_ - 1).toNat ≤ n
        omega
      · have hroom := h.room hne
        show (s.q.pendingSends_ - 1).toNat < n
        omega

/-! ## §4  What is sent -/

theorem prefix_concat {l m : List α} {a : α} (h : l <+: m)
    (ha : m[l.length]? = some a) : l ++ [a] <+: m := by
  obtain ⟨rest, rfl⟩ := h
  rw [List.getElem?_append_right (Nat.le_refl _), Nat.sub_self] at ha
  cases rest with
  | nil => cases ha
  | cons b rest =>
      obtain rfl : b = a := Option.some.inj ha
      exact ⟨rest, List.append_assoc l [b] rest⟩

theorem inStep_step (hn : n ∣ 2 ^ 32) {s s' : Shared α n} (hcount : Counted s)
    (h : s.abandoned = 0 → InStep s) (hmoved : Moved s s')
    (hzero : s'.abandoned = 0) : InStep s' := by
  cases hmoved with
  | stay => exact h hzero
  | enter hadder hroom =>
      obtain ⟨hsent, hfilling, hreading, hwaiting⟩ := h hzero
      exact ⟨hsent, fun _ => nofun, hreading, hwaiting⟩
  | claim hadder =>
      obtain ⟨hsent, hfilling, hreading, hwaiting⟩ := h hzero
      refine ⟨hsent, ?_, hreading, hwaiting⟩
      rintro i ⟨⟩
      have hadd := hcount.nextAdd
      rw [hadder] at hadd
      have hzero' : s.abandoned = 0 := hzero
      show Fin.ofNat n s.q.nextAdd_.toNat = _
      rw [hadd, ofNat_toNat hn, hzero']
      rfl
  | write i a hadder =>
      obtain ⟨hsent, hfilling, hreading, hwaiting⟩ := h hzero
      refine ⟨hsent, hfilling, hreading, ?_⟩
      intro k hlo hhi
      have hroom := hcount.room (by rw [hadder]; rintro ⟨⟩)
      have hpending := hcount.pending
      have hne : Fin.ofNat n k ≠ i := by
        rw [hfilling i hadder]
        refine ofNat_ne hhi ?_
        have hlo' : s.sent.length ≤ k := hlo
        omega
      show s.added[k]? = some (Function.update s.q.queue_ i a (Fin.ofNat n k))
      rw [Function.update_of_ne hne]
      exact hwaiting k hlo hhi
  | add i hadder =>
      obtain ⟨hsent, hfilling, hreading, hwaiting⟩ := h hzero
      refine ⟨hsent.trans (List.prefix_append _ _), fun _ => nofun, hreading, ?_⟩
      intro k hlo hhi
      have hhi' : k < s.added.length + 1 := by
        rw [List.length_append, List.length_singleton] at hhi
        exact hhi
      rcases Nat.lt_succ_iff_lt_or_eq.mp hhi' with hk | rfl
      · rw [List.getElem?_append_left hk]
        exact hwaiting k hlo hk
      · rw [List.getElem?_concat_length, hfilling i hadder]
        rfl
  | abandon i hadder => cases hzero
  | check hsender hsome =>
      obtain ⟨hsent, hfilling, hreading, hwaiting⟩ := h hzero
      exact ⟨hsent, hfilling, fun _ => nofun, hwaiting⟩
  | take hsender =>
      obtain ⟨hsent, hfilling, hreading, hwaiting⟩ := h hzero
      refine ⟨hsent, hfilling, ?_, hwaiting⟩
      rintro i ⟨⟩
      have hsend := hcount.nextSend
      rw [hsender] at hsend
      show Fin.ofNat n s.q.nextSend_.toNat = _
      rw [hsend, ofNat_toNat hn]
      rfl
  | send i hsender =>
      obtain ⟨hsent, hfilling, hreading, hwaiting⟩ := h hzero
      have hsome := hcount.some (by rw [hsender]; rintro ⟨⟩)
      have hpending := hcount.pending
      have hnext := hwaiting s.sent.length (Nat.le_refl _) (by omega)
      rw [← hreading i hsender] at hnext
      refine ⟨?_, hfilling, fun _ => nofun, ?_⟩
      · exact prefix_concat hsent hnext
      · intro k hlo hhi
        rw [List.length_append] at hlo
        exact hwaiting k (by omega) hhi

theorem run_inStep (hn : n ∣ 2 ^ 32) (hlt : n < 2 ^ 32) {queue_ : Fin n → α}
    {es : List (Access α)} {s : Shared α n} {os : List Unit}
    (h : (shared queue_).run (shared queue_).init es = some (s, os)) :
    Counted s ∧ (s.abandoned = 0 → InStep s) := by
  refine (Machine.run_keeps (Q := fun _ => True) ?_
    (I := fun s => Counted s ∧ (s.abandoned = 0 → InStep s))
    ⟨counted_init queue_, fun _ => inStep_init queue_⟩ h).1
  intro s e r hs hr
  obtain ⟨s', hs', rfl⟩ := Option.map_eq_some_iff.mp hr
  have hmoved := moved_of_step hs'
  exact ⟨⟨counted_step hlt hs.1 hmoved, inStep_step hn hs.1 hs.2 hmoved⟩, trivial⟩

/-- **Messages are sent in the order in which they were added**, none lost and
none twice, whatever the interleaving: while a message is read it is the next
one, and nothing is written into it. -/
theorem sent_in_order (hn : n ∣ 2 ^ 32) (hlt : n < 2 ^ 32) {queue_ : Fin n → α}
    {es : List (Access α)} {s : Shared α n} {os : List Unit}
    (h : (shared queue_).run (shared queue_).init es = some (s, os))
    (hall : s.abandoned = 0) :
    s.sent <+: s.added ∧
      s.q.pendingSends_.toNat + s.sent.length = s.added.length ∧
      (∀ j, s.sender = .reading j →
        s.added[s.sent.length]? = some (s.q.queue_ j)) ∧
      ∀ i j, s.adder = .filling i → s.sender = .reading j → i ≠ j := by
  obtain ⟨hcount, hstep⟩ := run_inStep hn hlt h
  obtain ⟨hsent, hfilling, hreading, hwaiting⟩ := hstep hall
  have hpending := hcount.pending
  refine ⟨hsent, hpending, ?_, ?_⟩
  · intro j hj
    have hsome := hcount.some (by rw [hj]; rintro ⟨⟩)
    rw [hreading j hj]
    exact hwaiting _ (Nat.le_refl _) (by omega)
  · intro i j hi hj
    have hroom := hcount.room (by rw [hi]; rintro ⟨⟩)
    have hsome := hcount.some (by rw [hj]; rintro ⟨⟩)
    rw [hfilling i hi, hreading j hj]
    exact (ofNat_ne (by omega) (by omega)).symm

theorem sent_in_order_once :
    ∃ s : Shared ℕ 8,
      (shared fun _ => 0).run (shared fun _ => 0).init
          [.test, .claim, .write 7, .commitAdd, .check, .take] =
        some (s, [(), (), (), (), (), ()]) ∧
      s.sent <+: s.added ∧
      s.q.pendingSends_.toNat + s.sent.length = s.added.length ∧
      (∀ j, s.sender = .reading j →
        s.added[s.sent.length]? = some (s.q.queue_ j)) ∧
      ∀ i j, s.adder = .filling i → s.sender = .reading j → i ≠ j :=
  ⟨_, rfl, sent_in_order (by decide) (by decide)
    (show (shared fun _ => 0).run _ [.test, .claim, .write 7, .commitAdd, .check,
      .take] = some (_, _) from rfl) rfl⟩

/-- What is sent where `a` is added to an empty queue. -/
def passed (q : MsgQueue α n) (a : α) : α :=
  let r := q.claim
  let q := (r.2.put r.1 a).commitAdd
  q.queue_ q.getNextSendMessage.1

/-- **Exactly where the queue is in step**: an empty queue passes what is added
when, of the messages that `GetNextAddMessage` gave out, a multiple of the size
of the queue was never added. -/
theorem passed_iff [Nontrivial α] (hn : n ∣ 2 ^ 32) (hlt : n < 2 ^ 32)
    {queue_ : Fin n → α} {es : List (Access α)} {s : Shared α n} {os : List Unit}
    (h : (shared queue_).run (shared queue_).init es = some (s, os))
    (hadder : s.adder = .outside) (hsender : s.sender = .outside)
    (hempty : s.q.havePendingSends = false) :
    (∀ a, s.q.passed a = a) ↔ n ∣ s.abandoned := by
  obtain ⟨hcount, -⟩ := run_inStep hn hlt h
  have hadd := hcount.nextAdd
  have hsend := hcount.nextSend
  have hpending := hcount.pending
  have hzero : s.q.pendingSends_ = 0 := by simpa [havePendingSends] using hempty
  rw [hadder] at hadd
  rw [hsender] at hsend
  rw [hzero] at hpending
  have hlength : s.sent.length = s.added.length := by simpa using hpending
  have hclaim : s.q.claim.1 = Fin.ofNat n (s.added.length + s.abandoned) := by
    show Fin.ofNat n s.q.nextAdd_.toNat = _
    rw [hadd, ofNat_toNat hn]
    rfl
  have htake : Fin.ofNat n s.q.nextSend_.toNat = Fin.ofNat n s.added.length := by
    rw [hsend, ofNat_toNat hn, ← hlength]
    rfl
  have hpassed : ∀ a, s.q.passed a = Function.update s.q.queue_
      (Fin.ofNat n (s.added.length + s.abandoned)) a
        (Fin.ofNat n s.added.length) := by
    intro a
    show Function.update s.q.queue_ s.q.claim.1 a
      (Fin.ofNat n s.q.nextSend_.toNat) = _
    rw [hclaim, htake]
  have hsame : Fin.ofNat n s.added.length =
      Fin.ofNat n (s.added.length + s.abandoned) ↔ n ∣ s.abandoned := by
    rw [Fin.ext_iff]
    show s.added.length ≡ s.added.length + s.abandoned [MOD n] ↔ _
    rw [Nat.modEq_iff_dvd' (Nat.le_add_right _ _), Nat.add_sub_cancel_left]
  constructor
  · intro hall
    by_contra hnot
    have hne := fun he => hnot (hsame.mp he)
    obtain ⟨a, ha⟩ := exists_ne (s.q.queue_ (Fin.ofNat n s.added.length))
    have hgot := hall a
    rw [hpassed, Function.update_of_ne hne] at hgot
    exact ha hgot.symm
  · intro hdvd a
    rw [hpassed, ← hsame.mpr hdvd, Function.update_self]

theorem passed_iff_once :
    ∃ s : Shared ℕ 8,
      (shared fun _ => 0).run (shared fun _ => 0).init
          [.test, .claim, .abandon] = some (s, [(), (), ()]) ∧
      ((∀ a, s.q.passed a = a) ↔ 8 ∣ s.abandoned) :=
  ⟨_, rfl, passed_iff (by decide) (by decide)
    (show (shared fun _ => 0).run _ [.test, .claim, .abandon] = some (_, _)
      from rfl) rfl rfl rfl⟩

/-! ## §5  The queue in a program -/

/-- A queue to which only messages with `P` are added, every one that is given
out among them. -/
def Queued (P : α → Prop) (q : MsgQueue α n) (sender : SendPoint n) : Prop :=
  ∃ added sent, Counted ⟨q, .outside, sender, added, sent, 0⟩ ∧
    InStep ⟨q, .outside, sender, added, sent, 0⟩ ∧ ∀ a ∈ added, P a

section Program

variable {P : α → Prop} {q : MsgQueue α n} {sender : SendPoint n} {i : Fin n}

theorem queued_new (queue_ : Fin n → α) :
    Queued P { queue_ := queue_ } .outside :=
  ⟨[], [], counted_init queue_, inStep_init queue_,
    fun _ h => absurd h List.not_mem_nil⟩

/-- The steps of both invariants at once. -/
theorem both_step (hn : n ∣ 2 ^ 32) (hlt : n < 2 ^ 32) {s s' : Shared α n}
    (hcount : Counted s) (h : InStep s) (hmoved : Moved s s')
    (hzero : s'.abandoned = 0) : Counted s' ∧ InStep s' :=
  ⟨counted_step hlt hcount hmoved,
    inStep_step hn hcount (fun _ => h) hmoved hzero⟩

theorem Queued.add (hn : n ∣ 2 ^ 32) (hlt : n < 2 ^ 32) (h : Queued P q sender)
    (hfree : q.fallingBehind = false) {a : α} (ha : P a) :
    Queued P ((q.claim.2.put q.claim.1 a).commitAdd) sender := by
  obtain ⟨added, sent, hcount, hstep, hall⟩ := h
  have hroom : q.pendingSends_.toNat < n := by
    simpa [fallingBehind] using hfree
  obtain ⟨hc₁, hs₁⟩ := both_step hn hlt hcount hstep (.enter rfl hroom) rfl
  obtain ⟨hc₂, hs₂⟩ := both_step hn hlt hc₁ hs₁ (.claim rfl) rfl
  obtain ⟨hc₃, hs₃⟩ := both_step hn hlt hc₂ hs₂ (.write _ a rfl) rfl
  obtain ⟨hc₄, hs₄⟩ := both_step hn hlt hc₃ hs₃ (.add _ rfl) rfl
  refine ⟨_, _, hc₄, hs₄, ?_⟩
  intro b hb
  rcases List.mem_append.mp hb with hb | hb
  · exact hall b hb
  · rw [List.mem_singleton.mp hb]
    show P (Function.update q.queue_ q.claim.1 a q.claim.1)
    rw [Function.update_self]
    exact ha

theorem Queued.take (hn : n ∣ 2 ^ 32) (hlt : n < 2 ^ 32)
    (h : Queued P q .outside) (hpending : q.havePendingSends = true) :
    Queued P q.getNextSendMessage.2 (.reading q.getNextSendMessage.1) := by
  obtain ⟨added, sent, hcount, hstep, hall⟩ := h
  obtain ⟨hc₁, hs₁⟩ := both_step hn hlt hcount hstep
    (.check rfl (pending_of_have hpending)) rfl
  obtain ⟨hc₂, hs₂⟩ := both_step hn hlt hc₁ hs₁ (.take rfl) rfl
  exact ⟨added, sent, hc₂, hs₂, hall⟩

theorem Queued.atMost (h : Queued P q sender) : q.pendingSends_.toNat ≤ n := by
  obtain ⟨added, sent, hcount, -⟩ := h
  exact hcount.atMost

/-- What is being sent is still pending. -/
theorem Queued.pending (h : Queued P q (.reading i)) :
    0 < q.pendingSends_.toNat := by
  obtain ⟨added, sent, hcount, -⟩ := h
  exact hcount.some nofun

theorem Queued.read (h : Queued P q (.reading i)) : P (q.queue_ i) := by
  have hsome := h.pending
  obtain ⟨added, sent, hcount, hstep, hall⟩ := h
  have hpending : q.pendingSends_.toNat + sent.length = added.length :=
    hcount.pending
  have hlt : sent.length < added.length := by omega
  have hnext := hstep.waiting sent.length (Nat.le_refl _) hlt
  rw [← hstep.reading i rfl] at hnext
  exact hall _ (List.mem_of_getElem? hnext)

theorem Queued.send (hn : n ∣ 2 ^ 32) (hlt : n < 2 ^ 32)
    (h : Queued P q (.reading i)) : Queued P q.commitSend .outside := by
  obtain ⟨added, sent, hcount, hstep, hall⟩ := h
  obtain ⟨hc, hs⟩ := both_step hn hlt hcount hstep (.send i rfl) rfl
  exact ⟨added, _, hc, hs, hall⟩

end Program

end MsgQueue

end AWRPC
