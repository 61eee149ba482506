import AWRPC.ClientPipes

/-!
# The end of the I/O thread, and of `Discord_Shutdown`

`Discord_Shutdown` has the I/O thread stop, and waits for it. Each access of a round
of `Discord_UpdateConnection` leaves less to do: fewer bytes to come, fewer messages
in `SendQueue`, or a place further on; and told to stop the thread begins at most
one more round. What is sent fits the frame that it is sent in, so that only a
message of Discord's can make the program fail. `Open` asks for each of the ten
pipes once, but as often as a pipe is busy and becomes free it asks again.
-/

namespace AWRPC

open Bytes Framing RpcConnection MsgQueue

variable {δ : Type} {toDouble : List UInt8 → Option δ}

/-! ## §1  A message leaves less to come -/

section Reads

variable {σ : Type} {callbacks : Callbacks δ σ} {n : ℕ}

end Reads

/-! ## §2  The tries of `Open` -/

/-- Nothing but these has `Open` ask again: a name under which there is no pipe, of
which there are ten, and a pipe that was busy and has become free. -/
def AskedOn (creates : List CreateFileAnswer) (digit : UInt8) : Prop :=
  (∀ answer ∈ creates, answer = .notFound ∨ answer = .busy true) ∧
    creates.count .notFound ≤ 57 - digit.toNat

/-- From `creates` to `creates'` not more is asked than `n` times, but where a pipe
was busy and has become free. -/
def AskedWithin (n : ℕ) (creates creates' : List CreateFileAnswer) : Prop :=
  ∃ asked, creates = asked ++ creates' ∧
    asked.length ≤ n + asked.count (.busy true)

section Tries

variable {m n : ℕ} {answer : CreateFileAnswer}
  {creates creates' creates'' : List CreateFileAnswer}

theorem AskedWithin.trans (h : AskedWithin m creates creates')
    (h' : AskedWithin n creates' creates'') :
    AskedWithin (m + n) creates creates'' := by
  obtain ⟨asked, rfl, hle⟩ := h
  obtain ⟨asked', rfl, hle'⟩ := h'
  refine ⟨asked ++ asked', by rw [List.append_assoc], ?_⟩
  rw [List.length_append, List.count_append]
  omega

theorem AskedWithin.mono (h : AskedWithin m creates creates') (hmn : m ≤ n) :
    AskedWithin n creates creates' := by
  obtain ⟨asked, hcreates, hle⟩ := h
  exact ⟨asked, hcreates, Nat.le_trans hle (Nat.add_le_add_right hmn _)⟩

theorem digit_succ {digit : UInt8} (h : digit < 57) :
    (digit + 1).toNat = digit.toNat + 1 := by
  have hlt : digit.toNat < 57 := UInt8.lt_iff_toNat_lt.mp h
  rw [UInt8.toNat_add]
  exact Nat.mod_eq_of_lt (Nat.lt_trans (Nat.succ_lt_succ hlt) (by decide))

/-- `Open` has not returned exactly where every answer has it ask again. -/
theorem createPipe_busy_iff (creates : List CreateFileAnswer) :
    ∀ {digit : UInt8}, digit ≤ 57 →
      (BaseConnection.createPipe creates digit = .error .busy ↔
        AskedOn creates digit) := by
  induction creates with
  | nil =>
      refine fun _ => ⟨fun _ => ⟨?_, Nat.zero_le _⟩, fun _ => rfl⟩
      exact fun _ h => absurd h List.not_mem_nil
  | cons answer creates ih =>
      intro digit hdigit
      cases answer with
      | opened =>
          refine ⟨by rintro ⟨⟩, fun h => ?_⟩
          rcases h.1 .opened List.mem_cons_self with h | h
          all_goals cases h
      | failed =>
          refine ⟨by rintro ⟨⟩, fun h => ?_⟩
          rcases h.1 .failed List.mem_cons_self with h | h
          all_goals cases h
      | notFound =>
          rw [BaseConnection.createPipe, AskedOn, List.forall_mem_cons,
            List.count_cons_self]
          split
          · rename_i hlt
            have hnat : digit.toNat < 57 := UInt8.lt_iff_toNat_lt.mp hlt
            have hsucc := digit_succ hlt
            rw [ih (UInt8.le_iff_toNat_le.mpr (by rw [hsucc]; exact hnat)), AskedOn,
              hsucc]
            constructor
            · exact fun h => ⟨⟨Or.inl rfl, h.1⟩, by omega⟩
            · exact fun h => ⟨h.1.2, by omega⟩
          · rename_i hlt
            have hnat : 57 ≤ digit.toNat :=
              UInt8.le_iff_toNat_le.mp (UInt8.not_lt.mp hlt)
            exact ⟨by rintro ⟨⟩, fun h => by omega⟩
      | busy free =>
          rw [BaseConnection.createPipe, AskedOn, List.forall_mem_cons,
            List.count_cons_of_ne (by rintro ⟨⟩)]
          split
          · rename_i hfree
            rw [ih hdigit, AskedOn, hfree]
            exact ⟨fun h => ⟨⟨Or.inr rfl, h.1⟩, h.2⟩, fun h => ⟨h.1.2, h.2⟩⟩
          · rename_i hfree
            refine ⟨by rintro ⟨⟩, fun h => ?_⟩
            rcases h.1.1 with h | h
            · cases h
            · cases h
              exact absurd rfl hfree

/-- A pipe that is busy whenever it has become free holds `Open`. -/
theorem askedOn_busy (k : ℕ) (digit : UInt8) :
    AskedOn (List.replicate k (.busy true)) digit := by
  refine ⟨fun answer hmem => Or.inr (List.eq_of_mem_replicate hmem), ?_⟩
  rw [List.count_replicate, if_neg (by decide)]
  exact Nat.zero_le _

end Tries

/-! ## §3  What `Open` asks for -/

section Open

variable {σ : Type} (callbacks : Callbacks δ σ)

/-- Where the program fails, the fault has `P`. -/
def Fails {α : Type} (P : Fault → Prop) : Except Fault α → Prop
  | .ok _ => True
  | .error fault => P fault

theorem Fails.bind {α β : Type} {P : Fault → Prop} {x : Except Fault α}
    {f : α → Except Fault β} (h : Fails P x) (hf : ∀ a, Fails P (f a)) :
    Fails P (x >>= f) := by
  cases x with
  | ok a => exact hf a
  | error fault => exact h

theorem Fails.imp {α : Type} {P Q : Fault → Prop} {x : Except Fault α}
    (h : Fails P x) (hPQ : ∀ fault, P fault → Q fault) : Fails Q x := by
  cases x with
  | ok a => trivial
  | error fault => exact hPQ fault h

theorem open_asksOn (toDouble : List UInt8 → Option δ) {c : RpcConnection σ}
    (hstate : c.state = .Disconnected)
    (hasked : AskedOn c.connection.answers.creates 48) :
    c.open_ callbacks toDouble = .error .busy := by
  have hcreate := (createPipe_busy_iff _ (by decide)).mpr hasked
  rw [RpcConnection.open_, if_neg (by rw [hstate]; rintro ⟨⟩), openPipe,
    if_pos hstate, BaseConnection.open_, hcreate]
  rfl

end Open

/-! ## §4  The steps of a round -/

section Steps

variable {T : Terms} {c : Client}

/-- The answers to `CreateFileW` that are left. -/
def Client.creates (c : Client) : List CreateFileAnswer :=
  c.Instance.connection.answers.creates

end Steps

/-! ## §5  The steps of the thread -/

/-- `Open` has not returned: at each try there was no pipe of the name, or one that
was busy and has become free. -/
def Client.AsksOn (toDouble : List UInt8 → Option δ) (c : Client) : Prop :=
  c.io = .outside ∧ c.Instance.state = .Disconnected ∧ AskedOn c.creates 48 ∧
    c.threadStep toDouble = .error .busy

section Thread

variable {c c' : Client}

end Thread

/-! ## §6  The end -/

section End

variable {c c' c'' : Client} {e : ClientEvent} {es : List ClientEvent}

/-- Where a connection is due and every answer has `Open` ask again, it does. -/
theorem asksOn_of_asked (hthread : c.thread = .updating) (hio : c.io = .outside)
    (hconnection : c.Connection = true) (hstate : c.Instance.state = .Disconnected)
    (hdue : c.Instance.context.now.1 ≥ c.Instance.context.now.2.NextConnect)
    (hasked : AskedOn c.creates 48) : c.AsksOn toDouble := by
  refine ⟨hio, hstate, hasked, ?_⟩
  have hopen := open_asksOn (c.callbacks δ) toDouble (c := { c.Instance with
      context := c.Instance.context.now.2.updateReconnectTime }) hstate hasked
  have hclosed : c.Instance.isOpen = false :=
    decide_eq_false (by rw [hstate]; rintro ⟨⟩)
  have henter : c.enter toDouble = .error .busy := by
    rw [Client.enter, hconnection, hclosed]
    simp only [Bool.not_true, Bool.false_eq_true, if_false]
    rw [if_pos hdue, Client.connect]
    exact congrArg (· >>= _) hopen
  rw [Client.threadStep, hthread, Client.ioStep, hio, henter]
  rfl

/-- However often the pipe is busy and becomes free, the game still waits. -/
theorem shutdown_waits_busy (k : ℕ) : ∃ c,
    (Client.start { creates := List.replicate k (.busy true) } [] []).Runs toDouble
      [.game (.initialize_ (lit "7") none 1), .game .shutdown] c ∧
    c.joining = true ∧ c.AsksOn toDouble := by
  refine ⟨_, ⟨_, rfl⟩, rfl, ?_⟩
  exact asksOn_of_asked rfl rfl rfl rfl (Int.le_refl 0) (askedOn_busy k 48)

end End

end AWRPC
