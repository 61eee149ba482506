import AWRPC.ReaderValues
import AWRPC.Serialization
import Mathlib.Algebra.Group.Int.Defs

/-!
# The commands, read back

The five commands of `discord/src/serialization.cpp` through the reader of the
same library: what `Writer` puts into a buffer, `parse` takes for the tree that
was written, each whole number in the first integer type it fits into.
-/

namespace AWRPC

open Bytes Decimal Json JsonGrammar Reader

variable {δ : Type}

/-! ## §1  Whole numbers -/

/-- A whole number as the reader stores it. -/
def wholeNumber (n : ℤ) : Number δ :=
  if n < 0 then
    if -2 ^ 31 ≤ n then .int (Int32.ofInt n) else .int64 (Int64.ofInt n)
  else if n < 2 ^ 32 then .uint (UInt32.ofNat n.toNat)
  else .uint64 (UInt64.ofNat n.toNat)

/-- Some integer constructor of `GenericValue` takes the number. -/
def Whole (n : ℤ) : Prop := -2 ^ 63 ≤ n ∧ n < 2 ^ 64

theorem integer_eq {n : ℤ} (h : Whole n) :
    integer (n < 0) n.natAbs = some (wholeNumber n : Number δ) := by
  obtain ⟨hlo, hhi⟩ := h
  by_cases hneg : n < 0
  · have habs : -(n.natAbs : ℤ) = n := by omega
    rw [integer, wholeNumber, if_pos (decide_eq_true hneg), if_pos hneg, habs]
    by_cases hint : -2 ^ 31 ≤ n
    · rw [if_pos hint, if_pos (by omega)]
    · rw [if_neg hint, if_neg (by omega), if_pos (by omega)]
  · have habs : n.natAbs = n.toNat := by omega
    rw [integer, wholeNumber, if_neg (by simpa using hneg), if_neg hneg, habs]
    by_cases hint : n < 2 ^ 32
    · rw [if_pos hint, if_pos (by omega)]
    · rw [if_neg hint, if_neg (by omega), if_pos (by omega)]

theorem numberText_intText (toDouble : List UInt8 → Option δ) {n : ℤ}
    (h : Whole n) : NumberText toDouble (intText n) (wholeNumber n) := by
  refine ⟨intToken n, text_intToken n, ?_⟩
  have hvalue : value (intToken n).int = n.natAbs := value_text _
  rw [tokenNumber, if_pos ⟨rfl, rfl⟩, hvalue]
  show (integer (decide (n < 0)) n.natAbs).or _ = _
  rw [integer_eq h]
  rfl

theorem whole_int32 (i : Int32) : Whole i.toInt := by
  have hlo := i.le_toInt
  have hhi := i.toInt_lt
  exact ⟨by omega, by omega⟩

theorem whole_int64 (i : Int64) : Whole i.toInt := by
  have hlo := i.le_toInt
  have hhi := i.toInt_lt
  exact ⟨by omega, by omega⟩

/-! ## §2  Room on the stack -/

mutual

/-- The values of a tree, names of members included. -/
def nodes : Json → ℕ
  | .str _ => 1
  | .num _ => 1
  | .bool _ => 1
  | .arr es => 1 + elementNodes es
  | .obj ms => 1 + memberNodes ms

def elementNodes : List Json → ℕ
  | [] => 0
  | v :: es => nodes v + elementNodes es

def memberNodes : List (List UInt8 × Json) → ℕ
  | [] => 0
  | (_, v) :: ms => 1 + nodes v + memberNodes ms

end

theorem nodes_pos (v : Json) : 0 < nodes v := by
  cases v with
  | str s => rw [nodes]; exact Nat.one_pos
  | num n => rw [nodes]; exact Nat.one_pos
  | bool b => rw [nodes]; exact Nat.one_pos
  | arr es => rw [nodes]; omega
  | obj ms => rw [nodes]; omega

mutual

theorem slots_ofJson_le (num : ℤ → Number δ) : ∀ v : Json,
    slots (ofJson num v) ≤ nodes v
  | .str s => by rw [ofJson, slots, nodes]
  | .num n => by rw [ofJson, slots, nodes]
  | .bool b => by rw [ofJson, slots, nodes]
  | .arr es => by
      have h := slotsElements_le num es 0
      rw [ofJson, slots, nodes]
      omega
  | .obj ms => by
      have h := slotsMembers_le num ms 0
      rw [ofJson, slots, nodes]
      omega

theorem slotsElements_le (num : ℤ → Number δ) : ∀ (es : List Json) (k : ℕ),
    slotsElements k (ofElements num es) ≤ k + elementNodes es
  | [], k => by rw [ofElements, slotsElements, elementNodes]; exact Nat.le_refl _
  | v :: es, k => by
      have hv := slots_ofJson_le num v
      have hes := slotsElements_le num es (k + 1)
      have hpos := nodes_pos v
      rw [ofElements, slotsElements, elementNodes]
      omega

theorem slotsMembers_le (num : ℤ → Number δ) :
    ∀ (ms : List (List UInt8 × Json)) (k : ℕ),
      slotsMembers k (ofMembers num ms) ≤ k + memberNodes ms
  | [], k => by rw [ofMembers, slotsMembers, memberNodes]; exact Nat.le_refl _
  | (_, v) :: ms, k => by
      have hv := slots_ofJson_le num v
      have hms := slotsMembers_le num ms (k + 2)
      have hpos := nodes_pos v
      rw [ofMembers, slotsMembers, memberNodes]
      omega

end

/-- **A compact text is read as the tree it was made from.** -/
theorem parse_text (toDouble : List UInt8 → Option δ) {v : Json}
    (hnum : Numbers Whole v) (hroom : nodes v ≤ StackCapacity) :
    parse copying toDouble () v.render = .ok ((), ofJson wholeNumber v) := by
  have hdoc : Document (NumberText toDouble) (ofJson wholeNumber v) v.render :=
    document_render (fun _ => numberText_intText toDouble) hnum
  have hnul : cString v.render = v.render :=
    cutAt_of_notMem (hdoc.nul numberText_nul)
  have hfit := slots_ofJson_le (wholeNumber (δ := δ)) v
  rw [← hnul] at hdoc
  rw [parse_document hdoc, if_pos (Nat.le_trans hfit hroom)]

/-! ## §3  The commands -/

/-- The calls of the functions of `serialization.cpp`. -/
inductive Command where
  | richPresence (nonce pid : Int32) (presence : Option DiscordRichPresence)
  | handshake (version : Int32) (applicationId : List UInt8)
  | subscribe (nonce : Int32) (evtName : List UInt8)
  | unsubscribe (nonce : Int32) (evtName : List UInt8)
  | joinReply (userId : List UInt8) (reply nonce : Int32)

namespace Command

def write (maxLen : ℕ) : Command → Option (List UInt8)
  | richPresence nonce pid presence =>
      jsonWriteRichPresenceObj maxLen nonce pid presence
  | handshake version applicationId =>
      jsonWriteHandshakeObj maxLen version applicationId
  | subscribe nonce evtName => jsonWriteSubscribeCommand maxLen nonce evtName
  | unsubscribe nonce evtName =>
      jsonWriteUnsubscribeCommand maxLen nonce evtName
  | joinReply userId reply nonce => jsonWriteJoinReply maxLen userId reply nonce

def members : Command → List (List UInt8 × Json)
  | richPresence nonce pid presence => presenceMembers nonce pid presence
  | handshake version applicationId =>
      [(lit "v", .num version.toInt), (lit "client_id", .str applicationId)]
  | subscribe nonce evtName =>
      [nonceMember nonce, (lit "cmd", .str (lit "SUBSCRIBE")),
        (lit "evt", .str evtName)]
  | unsubscribe nonce evtName =>
      [nonceMember nonce, (lit "cmd", .str (lit "UNSUBSCRIBE")),
        (lit "evt", .str evtName)]
  | joinReply userId reply nonce =>
      [(lit "cmd", .str
          (if reply = discordReplyYes then lit "SEND_ACTIVITY_JOIN_INVITE"
            else lit "CLOSE_ACTIVITY_JOIN_REQUEST")),
        (lit "args", .obj [(lit "user_id", .str userId)]), nonceMember nonce]

/-- The strings of a presence are as long as the interface lets them be, the others
are shorter than 64 bytes, and the nonce is one that `NumberToString` can write. -/
def WithinLimits : Command → Prop
  | richPresence nonce _ presence =>
      nonce ≠ Int32.minValue ∧ ∀ q ∈ presence, q.WithinLimits
  | handshake _ applicationId => applicationId.length < 64
  | subscribe nonce evtName => nonce ≠ Int32.minValue ∧ evtName.length < 64
  | unsubscribe nonce evtName => nonce ≠ Int32.minValue ∧ evtName.length < 64
  | joinReply userId _ nonce => nonce ≠ Int32.minValue ∧ userId.length < 64

/-! ## §4  What is written is read -/

theorem memberNodes_append (ms ns : List (List UInt8 × Json)) :
    memberNodes (ms ++ ns) = memberNodes ms + memberNodes ns := by
  induction ms with
  | nil => rw [List.nil_append, memberNodes, Nat.zero_add]
  | cons m ms ih =>
      rw [List.cons_append, memberNodes, memberNodes, ih]
      omega

theorem memberNodes_append_le {ms ns : List (List UInt8 × Json)} {m n : ℕ}
    (hm : memberNodes ms ≤ m) (hn : memberNodes ns ≤ n) :
    memberNodes (ms ++ ns) ≤ m + n := by
  rw [memberNodes_append]
  exact Nat.add_le_add hm hn

theorem memberNodes_if_le {p : Prop} [Decidable p]
    {ms : List (List UInt8 × Json)} {n : ℕ} (h : memberNodes ms ≤ n) :
    memberNodes (if p then ms else []) ≤ n := by
  split
  · exact h
  · exact Nat.zero_le n

theorem memberNodes_optional_le (k : List UInt8) (value : Option (List UInt8)) :
    memberNodes (optionalMember k value) ≤ 2 :=
  memberNodes_if_le (Nat.le_refl 2)

theorem memberNodes_object_le (k : List UInt8) {ms : List (List UInt8 × Json)}
    {n : ℕ} (h : memberNodes ms ≤ n) : memberNodes [(k, .obj ms)] ≤ n + 2 := by
  rw [memberNodes, nodes, memberNodes]
  omega

theorem memberNodes_activity_le (p : DiscordRichPresence) :
    memberNodes (activityMembers p) ≤ 38 := by
  have hall : memberNodes (activityMembers p) ≤ _ :=
    memberNodes_append_le (memberNodes_optional_le _ _)
    (memberNodes_append_le (memberNodes_optional_le _ _)
    (memberNodes_append_le (memberNodes_if_le (memberNodes_object_le _
      (memberNodes_append_le (memberNodes_if_le (Nat.le_refl 2))
        (memberNodes_if_le (Nat.le_refl 2)))))
    (memberNodes_append_le (memberNodes_if_le (memberNodes_object_le _
      (memberNodes_append_le (memberNodes_optional_le _ _)
      (memberNodes_append_le (memberNodes_optional_le _ _)
      (memberNodes_append_le (memberNodes_optional_le _ _)
        (memberNodes_optional_le _ _))))))
    (memberNodes_append_le (memberNodes_if_le (memberNodes_object_le _
      (memberNodes_append_le (memberNodes_optional_le _ _)
        (memberNodes_if_le (Nat.le_refl 4)))))
    (memberNodes_append_le (memberNodes_if_le (memberNodes_object_le _
      (memberNodes_append_le (memberNodes_optional_le _ _)
      (memberNodes_append_le (memberNodes_optional_le _ _)
        (memberNodes_optional_le _ _)))))
    (Nat.le_refl 2))))))
  exact Nat.le_trans hall (by decide)

theorem whole_optional {P : ℤ → Prop} (k : List UInt8)
    (value : Option (List UInt8)) : MemberNumbers P (optionalMember k value) := by
  rw [optionalMember]
  split
  · exact ⟨trivial, trivial⟩
  · trivial

theorem numbers_if {P : ℤ → Prop} {p : Prop} [Decidable p]
    {ms : List (List UInt8 × Json)} (h : MemberNumbers P ms) :
    MemberNumbers P (if p then ms else []) := by
  split
  · exact h
  · trivial

theorem whole_activity (p : DiscordRichPresence) :
    MemberNumbers Whole (activityMembers p) := by
  unfold activityMembers timestampMembers assetMembers partyMembers secretMembers
  simp only [memberNumbers_append]
  refine ⟨whole_optional _ _, whole_optional _ _, numbers_if ⟨?_, trivial⟩,
    numbers_if ⟨?_, trivial⟩, numbers_if ⟨?_, trivial⟩,
    numbers_if ⟨?_, trivial⟩, trivial, trivial⟩
  · rw [Numbers, memberNumbers_append]
    exact ⟨numbers_if ⟨whole_int64 _, trivial⟩,
      numbers_if ⟨whole_int64 _, trivial⟩⟩
  · rw [Numbers]
    simp only [memberNumbers_append]
    exact ⟨whole_optional _ _, whole_optional _ _, whole_optional _ _,
      whole_optional _ _⟩
  · rw [Numbers, memberNumbers_append]
    exact ⟨whole_optional _ _,
      numbers_if ⟨⟨whole_int32 _, whole_int32 _, trivial⟩, trivial⟩⟩
  · rw [Numbers]
    simp only [memberNumbers_append]
    exact ⟨whole_optional _ _, whole_optional _ _, whole_optional _ _⟩

theorem whole_members (c : Command) : MemberNumbers Whole c.members := by
  cases c with
  | richPresence nonce pid presence =>
      refine ⟨trivial, trivial, ⟨whole_int32 pid, ?_⟩, trivial⟩
      cases presence with
      | none => trivial
      | some q => exact ⟨whole_activity q, trivial⟩
  | handshake version applicationId =>
      exact ⟨whole_int32 version, trivial, trivial⟩
  | subscribe nonce evtName => exact ⟨trivial, trivial, trivial, trivial⟩
  | unsubscribe nonce evtName => exact ⟨trivial, trivial, trivial, trivial⟩
  | joinReply userId reply nonce =>
      exact ⟨trivial, ⟨trivial, trivial⟩, trivial, trivial⟩

theorem nodes_members_le (c : Command) :
    nodes (.obj c.members) ≤ StackCapacity := by
  have hmembers : memberNodes c.members ≤ 48 := by
    cases c with
    | richPresence nonce pid presence =>
        have hactivity : memberNodes (presence.toList.map fun q =>
            (lit "activity", .obj (activityMembers q))) ≤ 40 := by
          cases presence with
          | none => exact Nat.zero_le _
          | some q =>
              exact memberNodes_object_le _ (memberNodes_activity_le q)
        simp only [members, presenceMembers, nonceMember, memberNodes, nodes]
        omega
    | handshake version applicationId => exact Nat.le_of_ble_eq_true rfl
    | subscribe nonce evtName => exact Nat.le_of_ble_eq_true rfl
    | unsubscribe nonce evtName => exact Nat.le_of_ble_eq_true rfl
    | joinReply userId reply nonce => exact Nat.le_of_ble_eq_true rfl
  rw [nodes]
  exact Nat.le_trans (Nat.add_le_add_left hmembers 1) (by decide)

theorem length_small_le {ms : List (List UInt8 × Json)}
    (h : weight ms ≤ 2048) : (Json.obj ms).render.length ≤ MaxMessageSize := by
  have hrender := length_render_obj_le ms
  rw [MaxMessageSize]
  omega

theorem weight_nonce_le (nonce : Int32) :
    weight [nonceMember nonce] ≤ 138 := by
  refine weight_string_le (by decide) (n := 11) ?_
  rw [← i32toa_eq]
  exact length_i32toa_le nonce

theorem weight_subscription_le {cmd evtName : List UInt8} (nonce : Int32)
    (hcmd : cmd.length < 64) (hname : evtName.length < 64) :
    weight [nonceMember nonce, (lit "cmd", .str cmd),
      (lit "evt", .str evtName)] ≤ 1038 :=
  @weight_append_le [nonceMember nonce] _ _ _ (weight_nonce_le nonce)
    (@weight_append_le [(lit "cmd", .str cmd)] _ _ _
      (weight_string_le (by decide) (Nat.le_of_lt_succ hcmd))
      (weight_string_le (by decide) (Nat.le_of_lt_succ hname)))

theorem length_members_le {c : Command} (h : c.WithinLimits) :
    (Json.obj c.members).render.length ≤ MaxMessageSize := by
  cases c with
  | richPresence nonce pid presence => exact length_presence_le nonce pid h.2
  | handshake version applicationId =>
      have hlo := version.le_toInt
      have hhi := version.toInt_lt
      refine length_small_le (Nat.le_trans
        (@weight_append_le [(lit "v", .num version.toInt)] _ _ _
          (weight_number_le (by decide) (by omega))
          (weight_string_le (by decide) (Nat.le_of_lt_succ h))) (by decide))
  | subscribe nonce evtName =>
      exact length_small_le
        (Nat.le_trans (weight_subscription_le nonce (by decide) h.2) (by decide))
  | unsubscribe nonce evtName =>
      exact length_small_le
        (Nat.le_trans (weight_subscription_le nonce (by decide) h.2) (by decide))
  | joinReply userId reply nonce =>
      have hcmd : (if reply = discordReplyYes then
          lit "SEND_ACTIVITY_JOIN_INVITE"
          else lit "CLOSE_ACTIVITY_JOIN_REQUEST").length ≤ 27 := by
        split
        · decide
        · decide
      refine length_small_le (Nat.le_trans
        (@weight_append_le [(lit "cmd", .str _)] _ _ _
          (weight_string_le (by decide) hcmd)
          (@weight_append_le [(lit "args", .obj [(lit "user_id", .str userId)])]
            _ _ _
            (weight_object_le (by decide)
              (weight_string_le (by decide) (Nat.le_of_lt_succ h.2)))
            (weight_nonce_le nonce))) (by decide))

theorem write_eq {c : Command} (h : c.WithinLimits) (maxLen : ℕ) :
    c.write maxLen = some ((Json.obj c.members).render.take maxLen) := by
  have hlt : ∀ s : List UInt8, s.length < 64 → s.length < 2 ^ 32 :=
    fun _ hs => Nat.lt_trans hs (by decide)
  cases c with
  | richPresence nonce pid presence =>
      exact jsonWriteRichPresenceObj_eq maxLen pid h.1 h.2
  | handshake version applicationId =>
      exact jsonWriteHandshakeObj_eq maxLen version (hlt _ h)
  | subscribe nonce evtName =>
      exact writeSubscription_eq maxLen (by decide) h.1 (hlt _ h.2)
  | unsubscribe nonce evtName =>
      exact writeSubscription_eq maxLen (by decide) h.1 (hlt _ h.2)
  | joinReply userId reply nonce =>
      exact jsonWriteJoinReply_eq maxLen reply (hlt _ h.2) h.1

theorem parse_written (toDouble : List UInt8 → Option δ) {c : Command}
    (h : c.WithinLimits) {maxLen : ℕ} (hlen : MaxMessageSize ≤ maxLen)
    {text : List UInt8} (hwrite : c.write maxLen = some text) :
    parse copying toDouble () text =
      .ok ((), ofJson wholeNumber (.obj c.members)) := by
  rw [write_eq h maxLen, List.take_of_length_le
    (Nat.le_trans (length_members_le h) hlen)] at hwrite
  cases hwrite
  exact parse_text toDouble (whole_members c) (nodes_members_le c)

/-- **Every command is read as it was written.** -/
theorem read_written (toDouble : List UInt8 → Option δ) {c : Command}
    (h : c.WithinLimits) {maxLen : ℕ} (hlen : MaxMessageSize ≤ maxLen) :
    ∃ text, c.write maxLen = some text ∧
      parse copying toDouble () text =
        .ok ((), ofJson wholeNumber (.obj c.members)) :=
  ⟨_, write_eq h maxLen, parse_written toDouble h hlen (write_eq h maxLen)⟩

theorem read_written_handshake :
    ∃ text, (handshake 1 (lit "345229890980937739")).write MaxMessageSize =
        some text ∧
      parse copying (fun _ => (none : Option ℕ)) () text =
        .ok ((), ofJson wholeNumber (.obj [(lit "v", .num 1),
          (lit "client_id", .str (lit "345229890980937739"))])) :=
  read_written _ (c := handshake 1 (lit "345229890980937739"))
    (show List.length _ < 64 by decide) (Nat.le_refl _)

/-! ## §5  What is written is within the limits -/

/-- The strings of a presence are as long as the interface lets them be; the others,
for which it states no limit, are shorter than 64 bytes. -/
def Fits : Command → Prop
  | richPresence _ _ presence => ∀ q ∈ presence, q.WithinLimits
  | handshake _ applicationId => applicationId.length < 64
  | subscribe _ evtName => evtName.length < 64
  | unsubscribe _ evtName => evtName.length < 64
  | joinReply userId _ _ => userId.length < 64

theorem jsonWriteNonce_fault (w : Writer) :
    jsonWriteNonce Int32.minValue w = none := by
  have hnumber : numberToString Int32.minValue = none := by decide
  rw [jsonWriteNonce, andThen_eq, hnumber]
  exact Option.bind_fun_none _

theorem andThen_fault {f g : Write} (hg : ∀ w, g w = none) (w : Writer) :
    (f >=> g) w = none := by
  rw [andThen_eq, funext hg]
  exact Option.bind_fun_none _

theorem message_fault {body : Write} (maxLen : ℕ) (h : ∀ w, body w = none) :
    message maxLen body = none := by
  rw [message, writeObject, andThen_eq, startObject_new, Option.bind_some,
    andThen_eq, h]
  rfl

/-- A command that is written has a nonce that can be. -/
theorem withinLimits_of_write {c : Command} (h : c.Fits) {maxLen : ℕ}
    {text : List UInt8} (hwrite : c.write maxLen = some text) :
    c.WithinLimits := by
  have hfault : ∀ body : Write, (∀ w, body w = none) →
      message maxLen body ≠ some text := by
    intro body hbody hsome
    rw [message_fault maxLen hbody] at hsome
    cases hsome
  have hfirst : ∀ (body : Write) (w : Writer),
      (jsonWriteNonce Int32.minValue >=> body) w = none := by
    intro body w
    rw [andThen_eq, jsonWriteNonce_fault]
    rfl
  cases c with
  | richPresence nonce pid presence =>
      refine ⟨?_, h⟩
      rintro rfl
      exact hfault _ (hfirst _) hwrite
  | handshake version applicationId => exact h
  | subscribe nonce evtName =>
      refine ⟨?_, h⟩
      rintro rfl
      exact hfault _ (hfirst _) hwrite
  | unsubscribe nonce evtName =>
      refine ⟨?_, h⟩
      rintro rfl
      exact hfault _ (hfirst _) hwrite
  | joinReply userId reply nonce =>
      refine ⟨?_, h⟩
      rintro rfl
      exact hfault _ (andThen_fault (andThen_fault (andThen_fault
        (andThen_fault jsonWriteNonce_fault)))) hwrite

end Command

/-! ## §6  What is written fits the buffer -/

section Within

variable {maxLen : ℕ} {b : DirectStringBuffer} {f g : Write}

/-- The buffer has `maxLen` bytes and is not overrun. -/
def DirectStringBuffer.Within (maxLen : ℕ) (b : DirectStringBuffer) : Prop :=
  b.maxLen = maxLen ∧ b.buffer_.length ≤ maxLen

theorem within_put (h : b.Within maxLen) (c : UInt8) :
    (b.put c).Within maxLen := by
  rw [DirectStringBuffer.put]
  split
  · rename_i hroom
    rw [h.1] at hroom
    refine ⟨h.1, ?_⟩
    rw [List.length_append, List.length_singleton]
    exact hroom
  · exact h

theorem within_foldl {put : DirectStringBuffer → UInt8 → DirectStringBuffer}
    (hput : ∀ b c, b.Within maxLen → (put b c).Within maxLen)
    (h : b.Within maxLen) (s : List UInt8) : (s.foldl put b).Within maxLen := by
  induction s generalizing b with
  | nil => exact h
  | cons c s ih => exact ih (hput b c h)

theorem within_writeChar (h : b.Within maxLen) (c : UInt8) :
    (Writer.writeChar b c).Within maxLen := by
  rw [Writer.writeChar]
  simp only
  split
  · split
    · exact within_put (within_put (within_put (within_put (within_put
        (within_put h _) _) _) _) _) _
    · exact within_put (within_put h _) _
  · exact within_put h c

/-- The code leaves a buffer that is not overrun so. -/
def KeepsWithin (maxLen : ℕ) (f : Write) : Prop :=
  ∀ w w', w.os_.Within maxLen → f w = some w' → w'.os_.Within maxLen

theorem KeepsWithin.andThen (hf : KeepsWithin maxLen f)
    (hg : KeepsWithin maxLen g) : KeepsWithin maxLen (f >=> g) := by
  intro w w' h hw
  rw [andThen_eq] at hw
  obtain ⟨w₁, h₁, h₂⟩ := Option.bind_eq_some_iff.mp hw
  exact hg w₁ w' (hf w w₁ h h₁) h₂

theorem keepsWithin_prefixValue (type : JsonType) :
    KeepsWithin maxLen fun w => w.prefixValue type := by
  intro w w' h hw
  change w.prefixValue type = some w' at hw
  rw [Writer.prefixValue] at hw
  split at hw
  · simp only at hw
    split at hw
    · cases hw
    · cases hw
      simp only
      split
      · split
        · exact within_put h _
        · exact within_put h _
      · exact h
  · split at hw
    · cases hw
    · cases hw
      exact h

/-- A value: `Prefix`, and something put behind it. -/
theorem keepsWithin_value (type : JsonType)
    (put : DirectStringBuffer → DirectStringBuffer)
    (hput : ∀ b, b.Within maxLen → (put b).Within maxLen) :
    KeepsWithin maxLen fun w =>
      (w.prefixValue type).bind fun w => some { w with os_ := put w.os_ } := by
  intro w w' h hw
  obtain ⟨w₁, h₁, h₂⟩ := Option.bind_eq_some_iff.mp hw
  cases h₂
  exact hput _ (keepsWithin_prefixValue type w w₁ h h₁)

theorem keepsWithin_string (str : List UInt8) :
    KeepsWithin maxLen (Writer.string str) := by
  refine keepsWithin_value .kStringType (fun os_ => Writer.writeString os_ _)
    fun b h => ?_
  exact within_put (within_foldl (fun b c h => within_writeChar h c)
    (within_put h _) _) _

theorem KeepsWithin.member (k : List UInt8) (hf : KeepsWithin maxLen f) :
    KeepsWithin maxLen (writeKey k >=> f) :=
  KeepsWithin.andThen (keepsWithin_string k) hf

end Within

end AWRPC
