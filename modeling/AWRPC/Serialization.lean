import AWRPC.Writer
import AWRPC.Discord

/-!
# The messages

`discord/src/serialization.cpp`: the commands as JSON texts. Each function
writes the text of a tree, cut off where the buffer ends; the tree of a presence
within the limits of the interface fits into the 16 KiB there are, and gives the
presence back.
-/

namespace AWRPC

open Bytes Decimal Json

/-! ## §1  `serialization.cpp` -/

def writeKey (k : List UInt8) : Write := Writer.key k

/-- `value && value[0]` -/
def given : Option (List UInt8) → Bool
  | some (_ :: _) => true
  | _ => false

def writeOptionalString (k : List UInt8) (value : Option (List UInt8)) :
    Write :=
  if given value then writeKey k >=> Writer.string (value.getD []) else some

def jsonWriteNonce (nonce : Int32) : Write :=
  writeKey (lit "nonce") >=> fun w => do
    let nonceBuffer ← numberToString nonce
    Writer.string nonceBuffer w

/-- The code in the scope of `activity`. -/
def writeActivity (presence : DiscordRichPresence) : Write :=
  writeOptionalString (lit "state") presence.state >=>
  writeOptionalString (lit "details") presence.details >=>
  (if presence.startTimestamp ≠ 0 ∨ presence.endTimestamp ≠ 0 then
    writeKey (lit "timestamps") >=> writeObject
      ((if presence.startTimestamp ≠ 0 then
          writeKey (lit "start") >=> Writer.int64 presence.startTimestamp
        else some) >=>
      (if presence.endTimestamp ≠ 0 then
          writeKey (lit "end") >=> Writer.int64 presence.endTimestamp
        else some))
  else some) >=>
  (if given presence.largeImageKey ∨ given presence.largeImageText ∨
      given presence.smallImageKey ∨ given presence.smallImageText then
    writeKey (lit "assets") >=> writeObject
      (writeOptionalString (lit "large_image") presence.largeImageKey >=>
      writeOptionalString (lit "large_text") presence.largeImageText >=>
      writeOptionalString (lit "small_image") presence.smallImageKey >=>
      writeOptionalString (lit "small_text") presence.smallImageText)
  else some) >=>
  (if given presence.partyId ∨ presence.partySize ≠ 0 ∨
      presence.partyMax ≠ 0 then
    writeKey (lit "party") >=> writeObject
      (writeOptionalString (lit "id") presence.partyId >=>
      (if presence.partySize ≠ 0 ∧ presence.partyMax ≠ 0 then
        writeKey (lit "size") >=> writeArray
          (Writer.int presence.partySize >=> Writer.int presence.partyMax)
      else some))
  else some) >=>
  (if given presence.matchSecret ∨ given presence.joinSecret ∨
      given presence.spectateSecret then
    writeKey (lit "secrets") >=> writeObject
      (writeOptionalString (lit "match") presence.matchSecret >=>
      writeOptionalString (lit "join") presence.joinSecret >=>
      writeOptionalString (lit "spectate") presence.spectateSecret)
  else some) >=>
  writeKey (lit "instance") >=> Writer.bool (presence.instance_ ≠ 0)

/-- The message left in a buffer of `maxLen` bytes. -/
def message (maxLen : ℕ) (body : Write) : Option (List UInt8) := do
  let writer ← writeObject body (Writer.new maxLen)
  some writer.os_.buffer_

def jsonWriteRichPresenceObj (maxLen : ℕ) (nonce pid : Int32)
    (presence : Option DiscordRichPresence) : Option (List UInt8) :=
  message maxLen
    (jsonWriteNonce nonce >=>
    writeKey (lit "cmd") >=> Writer.string (lit "SET_ACTIVITY") >=>
    writeKey (lit "args") >=> writeObject
      (writeKey (lit "pid") >=> Writer.int pid >=>
      match presence with
      | some presence =>
          writeKey (lit "activity") >=> writeObject (writeActivity presence)
      | none => some))

def jsonWriteHandshakeObj (maxLen : ℕ) (version : Int32)
    (applicationId : List UInt8) : Option (List UInt8) :=
  message maxLen
    (writeKey (lit "v") >=> Writer.int version >=>
    writeKey (lit "client_id") >=> Writer.string applicationId)

/-- What the two subscription commands share. -/
def writeSubscription (maxLen : ℕ) (cmd : List UInt8) (nonce : Int32)
    (evtName : List UInt8) : Option (List UInt8) :=
  message maxLen
    (jsonWriteNonce nonce >=>
    writeKey (lit "cmd") >=> Writer.string cmd >=>
    writeKey (lit "evt") >=> Writer.string evtName)

def jsonWriteSubscribeCommand (maxLen : ℕ) (nonce : Int32)
    (evtName : List UInt8) : Option (List UInt8) :=
  writeSubscription maxLen (lit "SUBSCRIBE") nonce evtName

def jsonWriteUnsubscribeCommand (maxLen : ℕ) (nonce : Int32)
    (evtName : List UInt8) : Option (List UInt8) :=
  writeSubscription maxLen (lit "UNSUBSCRIBE") nonce evtName

/-- `DISCORD_REPLY_YES` -/
def discordReplyYes : Int32 := 1

def jsonWriteJoinReply (maxLen : ℕ) (userId : List UInt8) (reply nonce : Int32) :
    Option (List UInt8) :=
  message maxLen
    (writeKey (lit "cmd") >=>
    Writer.string
      (if reply = discordReplyYes then lit "SEND_ACTIVITY_JOIN_INVITE"
        else lit "CLOSE_ACTIVITY_JOIN_REQUEST") >=>
    writeKey (lit "args") >=>
    writeObject (writeKey (lit "user_id") >=> Writer.string userId) >=>
    jsonWriteNonce nonce)

/-! ## §2  The trees -/

def optionalMember (k : List UInt8) (value : Option (List UInt8)) :
    List (List UInt8 × Json) :=
  if given value then [(k, .str (value.getD []))] else []

def nonceMember (nonce : Int32) : List UInt8 × Json :=
  (lit "nonce", .str (intText nonce.toInt))

def timestampMembers (p : DiscordRichPresence) : List (List UInt8 × Json) :=
  (if p.startTimestamp ≠ 0 then
    [(lit "start", .num p.startTimestamp.toInt)] else []) ++
  (if p.endTimestamp ≠ 0 then
    [(lit "end", .num p.endTimestamp.toInt)] else [])

def assetMembers (p : DiscordRichPresence) : List (List UInt8 × Json) :=
  optionalMember (lit "large_image") p.largeImageKey ++
  (optionalMember (lit "large_text") p.largeImageText ++
  (optionalMember (lit "small_image") p.smallImageKey ++
  optionalMember (lit "small_text") p.smallImageText))

def partyMembers (p : DiscordRichPresence) : List (List UInt8 × Json) :=
  optionalMember (lit "id") p.partyId ++
  (if p.partySize ≠ 0 ∧ p.partyMax ≠ 0 then
    [(lit "size",
      .arr ([.num p.partySize.toInt] ++ [.num p.partyMax.toInt]))]
  else [])

def secretMembers (p : DiscordRichPresence) : List (List UInt8 × Json) :=
  optionalMember (lit "match") p.matchSecret ++
  (optionalMember (lit "join") p.joinSecret ++
  optionalMember (lit "spectate") p.spectateSecret)

def activityMembers (p : DiscordRichPresence) : List (List UInt8 × Json) :=
  optionalMember (lit "state") p.state ++
  (optionalMember (lit "details") p.details ++
  ((if p.startTimestamp ≠ 0 ∨ p.endTimestamp ≠ 0 then
    [(lit "timestamps", .obj (timestampMembers p))] else []) ++
  ((if given p.largeImageKey ∨ given p.largeImageText ∨
      given p.smallImageKey ∨ given p.smallImageText then
    [(lit "assets", .obj (assetMembers p))] else []) ++
  ((if given p.partyId ∨ p.partySize ≠ 0 ∨ p.partyMax ≠ 0 then
    [(lit "party", .obj (partyMembers p))] else []) ++
  ((if given p.matchSecret ∨ given p.joinSecret ∨ given p.spectateSecret then
    [(lit "secrets", .obj (secretMembers p))] else []) ++
  [(lit "instance", .bool (p.instance_ ≠ 0))])))))

def presenceMembers (nonce pid : Int32) (p : Option DiscordRichPresence) :
    List (List UInt8 × Json) :=
  [nonceMember nonce, (lit "cmd", .str (lit "SET_ACTIVITY")),
    (lit "args", .obj ((lit "pid", .num pid.toInt) ::
      p.toList.map fun q => (lit "activity", .obj (activityMembers q))))]

/-! ## §3  What the functions write -/

section Rules

variable {depth : ℕ}

theorem writes_optionalString {k : List UInt8} (hk : k.length < 2 ^ 32)
    {n : ℕ} (hn : n < 2 ^ 32) {value : Option (List UInt8)}
    (hvalue : DiscordRichPresence.Fits n value) :
    WritesMembers depth (writeOptionalString k value)
      (optionalMember k value) := by
  have hlength : (value.getD []).length < 2 ^ 32 := by
    cases value with
    | none => decide
    | some s =>
        have hs := hvalue s rfl
        rw [Option.getD_some]
        omega
  exact writesMembers_if _ ((writesValue_string hlength).member hk)

theorem writes_nonce {nonce : Int32} (h : nonce ≠ Int32.minValue) :
    WritesMembers depth (jsonWriteNonce nonce) [nonceMember nonce] := by
  have hlength : (intText nonce.toInt).length < 2 ^ 32 := by
    have hle := length_i32toa_le nonce
    rw [i32toa_eq] at hle
    omega
  have hnonce : jsonWriteNonce nonce = (Writer.key (lit "nonce") >=>
      Writer.string (intText nonce.toInt)) := by
    rw [jsonWriteNonce, numberToString_eq h]
    rfl
  rw [hnonce]
  exact (writesValue_string hlength).member (by decide)

theorem writes_activity {p : DiscordRichPresence} (h : p.WithinLimits) :
    WritesMembers 2 (writeActivity p) (activityMembers p) := by
  refine (writes_optionalString (by decide) (by decide) h.state).append ?_
  refine (writes_optionalString (by decide) (by decide) h.details).append ?_
  refine (writesMembers_if _ (WritesValue.member ?_ (by decide))).append ?_
  · exact writesValue_object ((writesMembers_if _ ((writesValue_int64 _).member
      (by decide))).append (writesMembers_if _ ((writesValue_int64 _).member
        (by decide))))
  refine (writesMembers_if _ (WritesValue.member ?_ (by decide))).append ?_
  · exact writesValue_object
      ((writes_optionalString (by decide) (by decide) h.largeImageKey).append
      ((writes_optionalString (by decide) (by decide) h.largeImageText).append
      ((writes_optionalString (by decide) (by decide) h.smallImageKey).append
      (writes_optionalString (by decide) (by decide) h.smallImageText))))
  refine (writesMembers_if _ (WritesValue.member ?_ (by decide))).append ?_
  · have hsize : WritesValue 1 (writeArray
        (Writer.int p.partySize >=> Writer.int p.partyMax)) _ :=
      writesValue_array ((writesElements_value (writesValue_int p.partySize)).append
        (writesElements_value (writesValue_int p.partyMax)))
    exact writesValue_object ((writes_optionalString (by decide) (by decide) h.partyId).append
      (writesMembers_if _ (hsize.member (by decide))))
  refine (writesMembers_if _ (WritesValue.member ?_ (by decide))).append ?_
  · exact writesValue_object
      ((writes_optionalString (by decide) (by decide) h.matchSecret).append
      ((writes_optionalString (by decide) (by decide) h.joinSecret).append
      (writes_optionalString (by decide) (by decide) h.spectateSecret)))
  exact (writesValue_bool _).member (by decide)

end Rules

/-- **Every message is the text of its tree**, as far as there is room. -/
theorem message_eq {depth : ℕ} {body : Write} {ms : List (List UInt8 × Json)}
    (maxLen : ℕ) (hbody : WritesMembers depth body ms)
    (hdepth : depth < WriterNestingLevels) :
    message maxLen body = some ((Json.obj ms).render.take maxLen) := by
  rw [message, hbody.text maxLen hdepth]
  rfl

theorem jsonWriteRichPresenceObj_eq (maxLen : ℕ) {nonce : Int32} (pid : Int32)
    {p : Option DiscordRichPresence} (hnonce : nonce ≠ Int32.minValue)
    (hp : ∀ q ∈ p, q.WithinLimits) :
    jsonWriteRichPresenceObj maxLen nonce pid p =
      some ((Json.obj (presenceMembers nonce pid p)).render.take maxLen) := by
  refine @message_eq 4 _ _ maxLen ?_ (by decide)
  refine (writes_nonce hnonce).append ?_
  refine (writesValue_string (by decide)).cons (by decide) ?_
  refine (writesValue_object ?_).member (by decide)
  refine (writesValue_int pid).cons (by decide) ?_
  cases p with
  | none => exact writesMembers_nil
  | some q =>
      have hactivity := writes_activity (hp q rfl)
      exact (writesValue_object hactivity).member (by decide)

theorem jsonWriteHandshakeObj_eq (maxLen : ℕ) (version : Int32)
    {applicationId : List UInt8} (h : applicationId.length < 2 ^ 32) :
    jsonWriteHandshakeObj maxLen version applicationId =
      some ((Json.obj [(lit "v", .num version.toInt),
        (lit "client_id", .str applicationId)]).render.take maxLen) := by
  refine @message_eq 0 _ _ maxLen ?_ (by decide)
  refine (writesValue_int version).cons (by decide) ?_
  exact (writesValue_string h).member (by decide)

/-- Both subscription commands. -/
theorem writeSubscription_eq (maxLen : ℕ) {cmd : List UInt8} {nonce : Int32}
    {evtName : List UInt8} (hcmd : cmd.length < 2 ^ 32)
    (hnonce : nonce ≠ Int32.minValue) (hname : evtName.length < 2 ^ 32) :
    writeSubscription maxLen cmd nonce evtName =
      some ((Json.obj [nonceMember nonce, (lit "cmd", .str cmd),
        (lit "evt", .str evtName)]).render.take maxLen) := by
  refine @message_eq 0 _ _ maxLen ?_ (by decide)
  refine (writes_nonce hnonce).append ?_
  refine (writesValue_string hcmd).cons (by decide) ?_
  exact (writesValue_string hname).member (by decide)

theorem jsonWriteJoinReply_eq (maxLen : ℕ) {userId : List UInt8}
    (reply : Int32) {nonce : Int32} (huser : userId.length < 2 ^ 32)
    (hnonce : nonce ≠ Int32.minValue) :
    jsonWriteJoinReply maxLen userId reply nonce =
      some ((Json.obj [(lit "cmd", .str
          (if reply = discordReplyYes then lit "SEND_ACTIVITY_JOIN_INVITE"
            else lit "CLOSE_ACTIVITY_JOIN_REQUEST")),
        (lit "args", .obj [(lit "user_id", .str userId)]),
        nonceMember nonce]).render.take maxLen) := by
  refine @message_eq 1 _ _ maxLen ?_ (by decide)
  refine (writesValue_string ?_).cons (by decide) ?_
  · split
    · decide
    · decide
  refine (writesValue_object ?_).cons (by decide) (writes_nonce hnonce)
  exact (writesValue_string huser).member (by decide)

/-! ## §4  Room -/

/-- `MaxMessageSize` of `discord_rpc.cpp`. -/
def MaxMessageSize : ℕ := 16 * 1024

theorem weight_if_le {p : Prop} [Decidable p]
    {ms : List (List UInt8 × Json)} {n : ℕ} (h : weight ms ≤ n) :
    weight (if p then ms else []) ≤ n := by
  split
  · exact h
  · exact Nat.zero_le n

theorem weight_append_le {ms ns : List (List UInt8 × Json)} {m n : ℕ}
    (hm : weight ms ≤ m) (hn : weight ns ≤ n) : weight (ms ++ ns) ≤ m + n := by
  rw [weight_append]
  exact Nat.add_le_add hm hn

section Room

variable {k : List UInt8} (hk : k.length ≤ 11)

include hk

theorem weight_string_le {s : List UInt8} {n : ℕ} (hs : s.length ≤ n) :
    weight [(k, .str s)] ≤ 6 * n + 72 := by
  have hquote := length_quote_le s
  rw [weight, weight, Json.render]
  omega

theorem weight_optionalMember_le {n : ℕ} {value : Option (List UInt8)}
    (h : DiscordRichPresence.Fits n value) :
    weight (optionalMember k value) ≤ 6 * n + 72 := by
  have hlength : (value.getD []).length ≤ n := by
    cases value with
    | none => exact Nat.zero_le n
    | some s => exact h s rfl
  exact weight_if_le (weight_string_le hk hlength)

theorem weight_number_le {n : ℤ} (hn : n.natAbs < 10 ^ 19) :
    weight [(k, .num n)] ≤ 90 := by
  have hlength := @length_intText_le 18 n hn
  rw [weight, weight, Json.render]
  omega

theorem weight_numbers_le {m n : ℤ} (hm : m.natAbs < 10 ^ 19)
    (hn : n.natAbs < 10 ^ 19) :
    weight [(k, .arr ([.num m] ++ [.num n]))] ≤ 114 := by
  have hlength := @length_intText_le 18 m hm
  have hlength' := @length_intText_le 18 n hn
  simp [weight, Json.render, renderElements, separator]
  omega

theorem weight_bool_le (b : Bool) : weight [(k, .bool b)] ≤ 75 := by
  have hlength : (Json.bool b).render.length ≤ 5 := by
    cases b with
    | true => rw [Json.render]; decide
    | false => rw [Json.render]; decide
  rw [weight, weight]
  omega

theorem weight_object_le {ms : List (List UInt8 × Json)} {n : ℕ}
    (h : weight ms ≤ n) : weight [(k, .obj ms)] ≤ n + 72 := by
  have hlength := length_render_obj_le ms
  rw [weight, weight]
  omega

end Room

theorem weight_activityMembers_le {p : DiscordRichPresence}
    (h : p.WithinLimits) : weight (activityMembers p) ≤ 8000 := by
  have hint : ∀ i : Int32, i.toInt.natAbs < 10 ^ 19 := by
    intro i
    have hlo := i.le_toInt
    have hhi := i.toInt_lt
    omega
  have hint64 : ∀ i : Int64, i.toInt.natAbs < 10 ^ 19 := by
    intro i
    have hlo := i.le_toInt
    have hhi := i.toInt_lt
    omega
  -- the bound is summed along the members as `activityMembers` appends them
  have hall : weight (activityMembers p) ≤ _ :=
    weight_append_le (weight_optionalMember_le (by decide) h.state)
    (weight_append_le (weight_optionalMember_le (by decide) h.details)
    (weight_append_le (weight_if_le (weight_object_le (by decide)
      (weight_append_le
        (weight_if_le (weight_number_le (by decide) (hint64 _)))
        (weight_if_le (weight_number_le (by decide) (hint64 _))))))
    (weight_append_le (weight_if_le (weight_object_le (by decide)
      (weight_append_le (weight_optionalMember_le (by decide) h.largeImageKey)
      (weight_append_le (weight_optionalMember_le (by decide) h.largeImageText)
      (weight_append_le (weight_optionalMember_le (by decide) h.smallImageKey)
        (weight_optionalMember_le (by decide) h.smallImageText))))))
    (weight_append_le (weight_if_le (weight_object_le (by decide)
      (weight_append_le (weight_optionalMember_le (by decide) h.partyId)
        (weight_if_le
          (weight_numbers_le (by decide) (hint _) (hint _))))))
    (weight_append_le (weight_if_le (weight_object_le (by decide)
      (weight_append_le (weight_optionalMember_le (by decide) h.matchSecret)
      (weight_append_le (weight_optionalMember_le (by decide) h.joinSecret)
        (weight_optionalMember_le (by decide) h.spectateSecret)))))
    (weight_bool_le (by decide) _))))))
  exact Nat.le_trans hall (by decide)

/-- A presence within the limits of the interface is never cut off. -/
theorem length_presence_le (nonce pid : Int32)
    {p : Option DiscordRichPresence} (hp : ∀ q ∈ p, q.WithinLimits) :
    (Json.obj (presenceMembers nonce pid p)).render.length ≤
      MaxMessageSize := by
  have hint : ∀ i : Int32, (intText i.toInt).length ≤ 11 := by
    intro i
    rw [← i32toa_eq]
    exact length_i32toa_le i
  have hpid : weight [(lit "pid", .num pid.toInt)] ≤ 81 := by
    have hlength := hint pid
    have hkey : (lit "pid").length = 3 := by decide
    rw [weight, weight, Json.render, hkey]
    omega
  have hactivity : weight (p.toList.map fun q =>
      (lit "activity", .obj (activityMembers q))) ≤ 8072 := by
    cases p with
    | none => exact Nat.zero_le _
    | some q =>
        have hq := weight_activityMembers_le (hp q rfl)
        exact weight_object_le (by decide) hq
  have hall : weight (presenceMembers nonce pid p) ≤ _ :=
    @weight_append_le [nonceMember nonce] _ _ _
      (weight_string_le (by decide) (hint nonce))
    (@weight_append_le [(lit "cmd", .str (lit "SET_ACTIVITY"))] _ _ _
      (weight_string_le (by decide) (by decide : _ ≤ 12))
    (weight_object_le (by decide)
      (@weight_append_le [(lit "pid", .num pid.toInt)] _ _ _ hpid hactivity)))
  have hrender := length_render_obj_le (presenceMembers nonce pid p)
  rw [MaxMessageSize]
  omega

/-- **The message of a presence** is complete and reads back as its tree. -/
theorem parse_presence {nonce : Int32} (pid : Int32)
    {p : Option DiscordRichPresence} (hnonce : nonce ≠ Int32.minValue)
    (hp : ∀ q ∈ p, q.WithinLimits) :
    ∃ text, jsonWriteRichPresenceObj MaxMessageSize nonce pid p = some text ∧
      Json.parse text = some (.obj (presenceMembers nonce pid p)) := by
  refine ⟨_, jsonWriteRichPresenceObj_eq MaxMessageSize pid hnonce hp, ?_⟩
  rw [List.take_of_length_le (length_presence_le nonce pid hp)]
  exact Json.parse_render _

/-! ## §5  Reading a presence back -/

def stringOf : Option Json → Option (List UInt8)
  | some (.str s) => some s
  | _ => none

def numberOf : Option Json → ℤ
  | some (.num n) => n
  | _ => 0

def numbersOf : Option Json → ℤ × ℤ
  | some (.arr [.num m, .num n]) => (m, n)
  | _ => (0, 0)

/-- The presence an `activity` object stands for. -/
def presenceOf (activity : Json) : DiscordRichPresence :=
  let timestamps := activity.member (lit "timestamps")
  let assets := activity.member (lit "assets")
  let party := activity.member (lit "party")
  let secrets := activity.member (lit "secrets")
  let size := numbersOf (party.bind (Json.member (lit "size")))
  let inner (o : Option Json) (k : List UInt8) :=
    stringOf (o.bind (Json.member k))
  { state := stringOf (activity.member (lit "state"))
    details := stringOf (activity.member (lit "details"))
    startTimestamp := .ofInt
      (numberOf (timestamps.bind (Json.member (lit "start"))))
    endTimestamp := .ofInt
      (numberOf (timestamps.bind (Json.member (lit "end"))))
    largeImageKey := inner assets (lit "large_image")
    largeImageText := inner assets (lit "large_text")
    smallImageKey := inner assets (lit "small_image")
    smallImageText := inner assets (lit "small_text")
    partyId := inner party (lit "id")
    partySize := .ofInt size.1
    partyMax := .ofInt size.2
    matchSecret := inner secrets (lit "match")
    joinSecret := inner secrets (lit "join")
    spectateSecret := inner secrets (lit "spectate")
    instance_ :=
      match activity.member (lit "instance") with
      | some (.bool true) => 1
      | _ => 0 }

/-- What a presence says: an empty string is as good as none, a party size needs
both numbers, and `instance` is a truth value. -/
def DiscordRichPresence.shown (p : DiscordRichPresence) :
    DiscordRichPresence :=
  let visible (s : Option (List UInt8)) := s.filter (· ≠ [])
  let sized := p.partySize ≠ 0 ∧ p.partyMax ≠ 0
  { state := visible p.state
    details := visible p.details
    startTimestamp := p.startTimestamp
    endTimestamp := p.endTimestamp
    largeImageKey := visible p.largeImageKey
    largeImageText := visible p.largeImageText
    smallImageKey := visible p.smallImageKey
    smallImageText := visible p.smallImageText
    partyId := visible p.partyId
    partySize := if sized then p.partySize else 0
    partyMax := if sized then p.partyMax else 0
    matchSecret := visible p.matchSecret
    joinSecret := visible p.joinSecret
    spectateSecret := visible p.spectateSecret
    instance_ := if p.instance_ ≠ 0 then 1 else 0 }

section Inner

variable {c : Prop} [Decidable c] {o : Json} {k : List UInt8}

/-- A string behind an object that is written for the string among others. -/
theorem stringOf_inner {s : Option (List UInt8)}
    (hmember : o.member k = if given s then some (.str (s.getD [])) else none)
    (hc : given s → c) :
    stringOf ((if c then some o else none).bind (Json.member k)) =
      s.filter (· ≠ []) := by
  cases s with
  | none =>
      split
      · rw [Option.bind_some, hmember]
        rfl
      · rfl
  | some s =>
      cases s with
      | nil =>
          split
          · rw [Option.bind_some, hmember]
            rfl
          · rfl
      | cons b s =>
          rw [if_pos (hc rfl), Option.bind_some, hmember]
          rfl

/-- A number behind an object that is written for the number among others. -/
theorem numberOf_inner {n : Int64}
    (hmember : o.member k = if n ≠ 0 then some (.num n.toInt) else none)
    (hc : n ≠ 0 → c) :
    Int64.ofInt (numberOf ((if c then some o else none).bind
      (Json.member k))) = n := by
  by_cases hn : n = 0
  · subst hn
    split
    · rw [Option.bind_some, hmember]
      rfl
    · rfl
  · rw [if_pos (hc hn), Option.bind_some, hmember, if_pos hn]
    exact Int64.ofInt_toInt n

/-- Two numbers behind an object that is written for them among others. -/
theorem numbersOf_inner {q : Prop} [Decidable q] {m n : ℤ}
    (hmember : o.member k = if q then some (.arr [.num m, .num n]) else none)
    (hc : q → c) :
    numbersOf ((if c then some o else none).bind (Json.member k)) =
      if q then (m, n) else (0, 0) := by
  by_cases hq : q
  · rw [if_pos (hc hq), Option.bind_some, hmember, if_pos hq, if_pos hq]
    rfl
  · rw [if_neg hq]
    split
    · rw [Option.bind_some, hmember, if_neg hq]
      rfl
    · rfl

end Inner

theorem stringOf_given (s : Option (List UInt8)) :
    stringOf (if given s then some (.str (s.getD [])) else none) =
      s.filter (· ≠ []) := by
  cases s with
  | none => rfl
  | some s =>
      cases s with
      | nil => rfl
      | cons b s => rfl

theorem member_activity (p : DiscordRichPresence) :
    let activity := Json.obj (activityMembers p)
    activity.member (lit "state") =
        (if given p.state then some (.str (p.state.getD [])) else none) ∧
      activity.member (lit "details") =
        (if given p.details then some (.str (p.details.getD [])) else none) ∧
      activity.member (lit "timestamps") =
        (if p.startTimestamp ≠ 0 ∨ p.endTimestamp ≠ 0 then
          some (.obj (timestampMembers p)) else none) ∧
      activity.member (lit "assets") =
        (if given p.largeImageKey ∨ given p.largeImageText ∨
            given p.smallImageKey ∨ given p.smallImageText then
          some (.obj (assetMembers p)) else none) ∧
      activity.member (lit "party") =
        (if given p.partyId ∨ p.partySize ≠ 0 ∨ p.partyMax ≠ 0 then
          some (.obj (partyMembers p)) else none) ∧
      activity.member (lit "secrets") =
        (if given p.matchSecret ∨ given p.joinSecret ∨
            given p.spectateSecret then
          some (.obj (secretMembers p)) else none) ∧
      activity.member (lit "instance") =
        some (.bool (p.instance_ ≠ 0)) := by
  refine ⟨?_, ?_, ?_, ?_, ?_, ?_, ?_⟩
  all_goals
    simp +decide [activityMembers, optionalMember, member_append, member_if,
      member_single]

theorem member_timestamps (p : DiscordRichPresence) :
    let timestamps := Json.obj (timestampMembers p)
    timestamps.member (lit "start") =
        (if p.startTimestamp ≠ 0 then some (.num p.startTimestamp.toInt)
          else none) ∧
      timestamps.member (lit "end") =
        (if p.endTimestamp ≠ 0 then some (.num p.endTimestamp.toInt)
          else none) := by
  refine ⟨?_, ?_⟩
  all_goals
    simp +decide only [timestampMembers, member_append, member_if, and_true,
      and_false, if_false, Option.or_none, Option.none_or]

theorem member_assets (p : DiscordRichPresence) :
    let assets := Json.obj (assetMembers p)
    assets.member (lit "large_image") =
        (if given p.largeImageKey then some (.str (p.largeImageKey.getD []))
          else none) ∧
      assets.member (lit "large_text") =
        (if given p.largeImageText then some (.str (p.largeImageText.getD []))
          else none) ∧
      assets.member (lit "small_image") =
        (if given p.smallImageKey then some (.str (p.smallImageKey.getD []))
          else none) ∧
      assets.member (lit "small_text") =
        (if given p.smallImageText then some (.str (p.smallImageText.getD []))
          else none) := by
  refine ⟨?_, ?_, ?_, ?_⟩
  all_goals
    simp +decide [assetMembers, optionalMember, member_append, member_if]

theorem member_party (p : DiscordRichPresence) :
    let party := Json.obj (partyMembers p)
    party.member (lit "id") =
        (if given p.partyId then some (.str (p.partyId.getD [])) else none) ∧
      party.member (lit "size") =
        (if p.partySize ≠ 0 ∧ p.partyMax ≠ 0 then
          some (.arr [.num p.partySize.toInt, .num p.partyMax.toInt])
        else none) := by
  refine ⟨?_, ?_⟩
  all_goals
    simp +decide [partyMembers, optionalMember, member_append, member_if]

theorem member_secrets (p : DiscordRichPresence) :
    let secrets := Json.obj (secretMembers p)
    secrets.member (lit "match") =
        (if given p.matchSecret then some (.str (p.matchSecret.getD []))
          else none) ∧
      secrets.member (lit "join") =
        (if given p.joinSecret then some (.str (p.joinSecret.getD []))
          else none) ∧
      secrets.member (lit "spectate") =
        (if given p.spectateSecret then some (.str (p.spectateSecret.getD []))
          else none) := by
  refine ⟨?_, ?_, ?_⟩
  all_goals
    simp +decide [secretMembers, optionalMember, member_append, member_if]

/-- **A presence comes back** from its activity, as far as it says anything. -/
theorem presenceOf_activity (p : DiscordRichPresence) :
    presenceOf (.obj (activityMembers p)) = p.shown := by
  obtain ⟨hstate, hdetails, htimestamps, hassets, hparty, hsecrets, hinstance⟩ :=
    member_activity p
  obtain ⟨hstart, hend⟩ := member_timestamps p
  obtain ⟨hlargeImage, hlargeText, hsmallImage, hsmallText⟩ := member_assets p
  obtain ⟨hid, hsize⟩ := member_party p
  obtain ⟨hmatch, hjoin, hspectate⟩ := member_secrets p
  -- each group is written for any of its members, so none of them is lost
  have hsizes := numbersOf_inner hsize
    (c := given p.partyId ∨ p.partySize ≠ 0 ∨ p.partyMax ≠ 0)
    fun h => Or.inr (Or.inl h.1)
  simp only [presenceOf, hstate, hdetails, htimestamps, hassets, hparty,
    hsecrets, hinstance, stringOf_given, hsizes]
  rw [DiscordRichPresence.shown]
  congr 1
  · exact numberOf_inner hstart Or.inl
  · exact numberOf_inner hend Or.inr
  · exact stringOf_inner hlargeImage Or.inl
  · exact stringOf_inner hlargeText fun h => Or.inr (Or.inl h)
  · exact stringOf_inner hsmallImage fun h => Or.inr (Or.inr (Or.inl h))
  · exact stringOf_inner hsmallText fun h => Or.inr (Or.inr (Or.inr h))
  · exact stringOf_inner hid Or.inl
  · split
    · exact Int32.ofInt_toInt p.partySize
    · rfl
  · split
    · exact Int32.ofInt_toInt p.partyMax
    · rfl
  · exact stringOf_inner hmatch Or.inl
  · exact stringOf_inner hjoin fun h => Or.inr (Or.inl h)
  · exact stringOf_inner hspectate fun h => Or.inr (Or.inr h)
  · by_cases h : p.instance_ = 0
    · simp [h]
    · simp [h]

/-- The presence in a message, for who reads it. -/
def received (text : List UInt8) : Option DiscordRichPresence := do
  let tree ← Json.parse text
  let args ← tree.member (lit "args")
  let activity ← args.member (lit "activity")
  some (presenceOf activity)

/-- **Round trip of a presence** through its message. -/
theorem received_presence {nonce : Int32} (pid : Int32)
    {p : DiscordRichPresence} (hnonce : nonce ≠ Int32.minValue)
    (hp : p.WithinLimits) :
    ∃ text,
      jsonWriteRichPresenceObj MaxMessageSize nonce pid (some p) = some text ∧
      received text = some p.shown := by
  have hlimits : ∀ q ∈ some p, q.WithinLimits := by
    rintro q ⟨⟩
    exact hp
  obtain ⟨text, hwrite, hparse⟩ := parse_presence pid hnonce hlimits
  have hargs : (Json.obj (presenceMembers nonce pid (some p))).member
      (lit "args") = some (.obj [(lit "pid", .num pid.toInt),
        (lit "activity", .obj (activityMembers p))]) := by
    rfl
  have hactivity : (Json.obj [(lit "pid", .num pid.toInt),
      (lit "activity", .obj (activityMembers p))]).member (lit "activity") =
        some (.obj (activityMembers p)) := by
    rfl
  refine ⟨text, hwrite, ?_⟩
  rw [received, hparse]
  simp only [Option.bind_eq_bind, Option.bind_some, hargs, hactivity,
    presenceOf_activity]

theorem message_of_fault {f g : Write} (maxLen : ℕ) (hf : ∀ w, f w = none) :
    message maxLen (f >=> g) = none := by
  rw [message, writeObject, andThen_eq, startObject_new, Option.bind_some,
    andThen_eq, andThen_eq, hf]
  rfl

/-- The smallest nonce cannot be written. -/
theorem jsonWriteRichPresenceObj_minValue (maxLen : ℕ) (pid : Int32)
    (p : Option DiscordRichPresence) :
    jsonWriteRichPresenceObj maxLen Int32.minValue pid p = none := by
  refine message_of_fault maxLen fun w => ?_
  have hnumber : numberToString Int32.minValue = none := by decide
  rw [jsonWriteNonce, andThen_eq, hnumber]
  exact Option.bind_fun_none _

/-! ## §6  Encoding -/

namespace DiscordRichPresence

def strings (p : DiscordRichPresence) : List (Option (List UInt8)) :=
  [p.state, p.details, p.largeImageKey, p.largeImageText, p.smallImageKey,
    p.smallImageText, p.partyId, p.matchSecret, p.joinSecret, p.spectateSecret]

end DiscordRichPresence

section Strings

variable {P : List UInt8 → Prop} {k : List UInt8} (hk : P k)

include hk

theorem memberStrings_optional (hnil : P []) (value : Option (List UInt8)) :
    MemberStrings P (optionalMember k value) ↔ ∀ t ∈ value, P t := by
  cases value with
  | none => simp [optionalMember, given, MemberStrings]
  | some s =>
      cases s with
      | nil => simp [optionalMember, given, MemberStrings, hnil]
      | cons b s =>
          simp [optionalMember, given, MemberStrings, Strings, hk]

/-- An object that is left out has nothing in it. -/
theorem memberStrings_group {c : Prop} [Decidable c]
    {ms : List (List UInt8 × Json)} (hms : ¬ c → MemberStrings P ms) :
    MemberStrings P (if c then [(k, .obj ms)] else []) ↔
      MemberStrings P ms := by
  by_cases hc : c
  · simp [hc, MemberStrings, Strings, hk]
  · simp [hc, MemberStrings, hms hc]

end Strings

theorem optionalMember_of_not {k : List UInt8} {value : Option (List UInt8)}
    (h : ¬ given value) : optionalMember k value = [] :=
  if_neg h

section Valid

open Utf8

theorem valid_optionalMember_iff (k : String) (value : Option (List UInt8)) :
    MemberStrings Valid (optionalMember (lit k) value) ↔
      ∀ t ∈ value, Valid t :=
  memberStrings_optional (valid_lit k) (valid_lit "") value

/-- Numbers and what holds only numbers are ASCII. -/
theorem valid_timestampMembers (p : DiscordRichPresence) :
    MemberStrings Valid (timestampMembers p) := by
  rw [timestampMembers, memberStrings_append]
  constructor
  · split
    · simp [MemberStrings, Strings, valid_lit]
    · trivial
  · split
    · simp [MemberStrings, Strings, valid_lit]
    · trivial

theorem valid_partyMembers_iff (p : DiscordRichPresence) :
    MemberStrings Valid (partyMembers p) ↔ ∀ t ∈ p.partyId, Valid t := by
  have hsize : MemberStrings Valid
      (if p.partySize ≠ 0 ∧ p.partyMax ≠ 0 then
        [(lit "size",
          .arr ([.num p.partySize.toInt] ++ [.num p.partyMax.toInt]))]
      else []) := by
    split
    · simp [MemberStrings, Strings, ElementStrings, valid_lit]
    · trivial
  rw [partyMembers, memberStrings_append, valid_optionalMember_iff]
  exact and_iff_left hsize

theorem valid_activityMembers_iff (p : DiscordRichPresence) :
    MemberStrings Valid (activityMembers p) ↔
      ∀ s ∈ p.strings, ∀ t ∈ s, Valid t := by
  have hassets := @memberStrings_group Valid _ (valid_lit "assets")
    (given p.largeImageKey ∨ given p.largeImageText ∨
      given p.smallImageKey ∨ given p.smallImageText) _ (assetMembers p) (by
      simp only [not_or]
      rintro ⟨h₁, h₂, h₃, h₄⟩
      simp [assetMembers, optionalMember_of_not, h₁, h₂, h₃, h₄,
        MemberStrings])
  have hsecrets := @memberStrings_group Valid _ (valid_lit "secrets")
    (given p.matchSecret ∨ given p.joinSecret ∨ given p.spectateSecret) _
    (secretMembers p) (by
      simp only [not_or]
      rintro ⟨h₁, h₂, h₃⟩
      simp [secretMembers, optionalMember_of_not, h₁, h₂, h₃, MemberStrings])
  have hparty := @memberStrings_group Valid _ (valid_lit "party")
    (given p.partyId ∨ p.partySize ≠ 0 ∨ p.partyMax ≠ 0) _ (partyMembers p) (by
      simp only [not_or, not_not]
      rintro ⟨h₁, h₂, -⟩
      simp [partyMembers, optionalMember_of_not, h₁, h₂, MemberStrings])
  have htimestamps := @memberStrings_group Valid _ (valid_lit "timestamps")
    (p.startTimestamp ≠ 0 ∨ p.endTimestamp ≠ 0) _ (timestampMembers p)
    (fun _ => valid_timestampMembers p)
  have hinstance : MemberStrings Valid
      [(lit "instance", .bool (p.instance_ ≠ 0))] :=
    ⟨valid_lit _, trivial, trivial⟩
  rw [activityMembers]
  simp only [memberStrings_append, hassets, hsecrets, hparty, htimestamps,
    valid_timestampMembers, hinstance, true_and, and_true]
  simp only [assetMembers, secretMembers, memberStrings_append,
    valid_optionalMember_iff, valid_partyMembers_iff, and_assoc,
    DiscordRichPresence.strings, List.forall_mem_cons, List.not_mem_nil,
    false_implies, implies_true, and_true]

/-- **A message is valid UTF-8 exactly when the strings of its presence are.** -/
theorem valid_presence_iff (nonce pid : Int32) (p : DiscordRichPresence) :
    Valid (Json.obj (presenceMembers nonce pid (some p))).render ↔
      ∀ s ∈ p.strings, ∀ t ∈ s, Valid t := by
  have hnonce : Valid (intText nonce.toInt) := valid_intText _
  rw [valid_render_iff, ← valid_activityMembers_iff]
  simp [Strings, MemberStrings, presenceMembers, nonceMember, valid_lit, hnonce]

end Valid

end AWRPC
