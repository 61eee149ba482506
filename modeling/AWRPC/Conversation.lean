import AWRPC.Connection

/-!
# Conversations

What the client says over one pipe, whatever the system answers and whoever is
at the other end: first a handshake, then right behind each ping a pong with the
same payload, and commands only once the client has been greeted with READY. The
rules are those of `Talk.follow`; the log of every pipe keeps to them.
-/

namespace AWRPC

open Bytes JsonGrammar Reader Framing RpcConnection

variable {δ σ : Type} {toDouble : List UInt8 → Option δ}

/-! ## §1  The rules -/

inductive Move where
  | got (f : Frame)
  | sent (f : Frame)
deriving DecidableEq

/-- A frame is taken in two reads, or in one where there is no payload. -/
def Move.transfers : Move → List Transfer
  | .got f =>
      .took f.header :: (if f.payload = [] then [] else [.took f.payload])
  | .sent f => [.wrote f.encode]

inductive Phase where
  | silent | greeting | ready | over
deriving DecidableEq

/-- Where a conversation stands: its phase, the payload of a ping that is not yet
answered, and the text that a message without payload repeats. -/
structure Talk where
  phase : Phase := .silent
  owed : Option (List UInt8) := none
  last : List UInt8 := []
deriving DecidableEq

/-- A text that says READY. -/
def greets (toDouble : List UInt8 → Option δ) (text : List UInt8) : Bool :=
  match parse copying toDouble () text with
  | .ok r => decide (isReady copied r.2 = .ok true)
  | .error _ => false

namespace Talk

def hear (toDouble : List UInt8 → Option δ) (t : Talk) (f : Frame) : Talk :=
  let last := if f.payload = [] then t.last else f.payload
  if f.tag = Opcode.Ping then { t with last := last, owed := some f.payload }
  else if f.tag = Opcode.Pong then { t with last := last }
  else if f.tag = Opcode.Frame then
    { t with
      last := last
      phase :=
        if t.phase = .greeting ∧ greets toDouble last then .ready else t.phase }
  else { t with last := last, phase := .over }

/-- What may be said next. -/
def utter (t : Talk) (f : Frame) : Option Talk :=
  match t.owed with
  | some payload =>
      if f = ⟨Opcode.Pong, payload⟩ then some { t with owed := none } else none
  | none =>
      if t.phase = .silent ∧ f.tag = Opcode.Handshake then
        some { t with phase := .greeting }
      else if t.phase = .ready ∧ f.tag = Opcode.Frame then some t
      else none

def follow (toDouble : List UInt8 → Option δ) (t : Talk) : Move → Option Talk
  | .got f =>
      if t.owed = none ∧ (t.phase = .greeting ∨ t.phase = .ready) then
        some (t.hear toDouble f)
      else none
  | .sent f => t.utter f

def followAll (toDouble : List UInt8 → Option δ) (t : Talk) :
    List Move → Option Talk
  | [] => some t
  | m :: ms => do (← t.follow toDouble m).followAll toDouble ms

theorem followAll_snoc {t u v : Talk} {ms : List Move} {m : Move}
    (h : t.followAll toDouble ms = some u) (hm : u.follow toDouble m = some v) :
    t.followAll toDouble (ms ++ [m]) = some v := by
  induction ms generalizing t with
  | nil =>
      cases h
      rw [List.nil_append, followAll, hm]
      rfl
  | cons m' ms ih =>
      obtain ⟨w, hw, hrest⟩ := Option.bind_eq_some_iff.mp h
      rw [List.cons_append, followAll, hw]
      exact ih hrest

end Talk

/-- What the rules leave open: which application a handshake names and which texts
are commands. -/
structure Rules (δ : Type) where
  toDouble : List UInt8 → Option δ
  applicationId : CStr 64
  Command : List UInt8 → Prop

/-- A handshake names the application, a frame is a command. -/
def Sayable (R : Rules δ) (f : Frame) : Prop :=
  (f.tag = Opcode.Handshake →
    jsonWriteHandshakeObj MaxMessage RpcVersion R.applicationId.val =
      some f.payload) ∧
  (f.tag = Opcode.Frame → R.Command f.payload)

variable {R : Rules δ} {N : CStr 64 → Prop}

/-- The log of a conversation that stands at `t`. -/
def Spells (R : Rules δ) (log : List Transfer) (t : Talk) :
    Prop :=
  ∃ ms : List Move, log = ms.flatMap Move.transfers ∧
    Talk.followAll R.toDouble {} ms = some t ∧
    ∀ f, Move.sent f ∈ ms → Sayable R f

/-- The log of a conversation that broke off: between two moves with no ping left
to answer, behind the header of a frame, or in the middle of a frame that may be
sent. -/
def Ended (R : Rules δ) (log : List Transfer) : Prop :=
  ∃ t front, Spells R front t ∧
    (t.owed = none ∧ log = front ∨
      (∃ header, header.length = 8 ∧ log = front ++ [.took header]) ∨
      ∃ f k, (t.utter f).isSome ∧ Sayable R f ∧
        log = front ++ [.cut (f.encode.take k)])

/-- The log of a pipe that was opened in the name of one of the applications `N`. -/
def EndedFor (N : CStr 64 → Prop) (R : Rules δ) (log : List Transfer) : Prop :=
  ∃ applicationId, N applicationId ∧
    Ended { R with applicationId := applicationId } log

theorem Spells.snoc {log : List Transfer} {t u : Talk} {m : Move}
    (h : Spells R log t) (hm : t.follow R.toDouble m = some u)
    (hsay : ∀ f, m = .sent f → Sayable R f) :
    Spells R (log ++ m.transfers) u := by
  obtain ⟨ms, rfl, hms, hall⟩ := h
  refine ⟨ms ++ [m], ?_, Talk.followAll_snoc hms hm, ?_⟩
  · rw [List.flatMap_append, List.flatMap_singleton]
  · intro f hf
    rcases List.mem_append.mp hf with hf | hf
    · exact hall f hf
    · exact hsay f (List.mem_singleton.mp hf).symm

theorem Sayable.mono {applicationId : CStr 64} {C C' : List UInt8 → Prop}
    (hC : ∀ text, C text → C' text) {f : Frame}
    (h : Sayable ⟨toDouble, applicationId, C⟩ f) :
    Sayable ⟨toDouble, applicationId, C'⟩ f :=
  ⟨h.1, fun htag => hC _ (h.2 htag)⟩

/-- With more commands there are more conversations. -/
theorem Ended.mono {applicationId : CStr 64} {C C' : List UInt8 → Prop}
    (hC : ∀ text, C text → C' text) {log : List Transfer}
    (h : Ended ⟨toDouble, applicationId, C⟩ log) :
    Ended ⟨toDouble, applicationId, C'⟩ log := by
  obtain ⟨t, front, ⟨ms, hfront, hms, hall⟩, hlog⟩ := h
  refine ⟨t, front, ⟨ms, hfront, hms, fun f hf => (hall f hf).mono hC⟩, ?_⟩
  rcases hlog with hlog | hlog | ⟨f, k, hutter, hsay, hlog⟩
  · exact Or.inl hlog
  · exact Or.inr (Or.inl hlog)
  · exact Or.inr (Or.inr ⟨f, k, hutter, hsay.mono hC, hlog⟩)

theorem Spells.ended {log : List Transfer} {t : Talk}
    (h : Spells R log t) (howed : t.owed = none) : Ended R log :=
  ⟨t, log, h, Or.inl ⟨howed, rfl⟩⟩

/-! ## §2  The calls of the pipe -/

namespace BaseConnection

/-- Everything `read` can do. -/
inductive ReadStep (c : BaseConnection) (length : ℕ) :
    Option (List UInt8) → BaseConnection → Prop where
  | shut (hpipe : c.pipe = none) : ReadStep c length none c
  | data {pipe : Pipe} {data received : List UInt8} {answers : Answers}
      (hpipe : c.pipe = some pipe) (hlength : data.length = length)
      (htoCome : length + (received.length +
        (answers.reads.map (·.arrived.length)).sum) = c.toCome) :
      ReadStep c length (some data)
        { c with
          answers := answers
          pipe := some
            { pipe with
              received := received
              log := pipe.log ++ [.took data] } }
  | wait {pipe : Pipe} {received : List UInt8} {answers : Answers}
      (hpipe : c.pipe = some pipe) :
      ReadStep c length none
        { c with
          answers := answers
          pipe := some { pipe with received := received } }
  | broken {pipe : Pipe} {received : List UInt8} {answers : Answers}
      (hpipe : c.pipe = some pipe) :
      ReadStep c length none
        { c with
          answers := answers
          isOpen := false
          pipe := none
          past := c.past ++ [{ pipe with received := received }] }

theorem arrived_sum (reads : List ReadAnswer) :
    (reads.headD {}).arrived.length + (reads.tail.map (·.arrived.length)).sum =
      (reads.map (·.arrived.length)).sum := by
  cases reads with
  | nil => rfl
  | cons a reads => exact List.sum_cons.symm

theorem read_step (c : BaseConnection) (length : ℕ) :
    ReadStep c length (c.read length).1 (c.read length).2 := by
  cases hpipe : c.pipe with
  | none =>
      have hread : c.read length = (none, c) := by rw [read, hpipe]
      rw [hread]
      exact .shut hpipe
  | some pipe =>
      rw [read, hpipe]
      simp only
      split
      · split
        · rename_i hlength
          split
          · refine .data hpipe (List.length_take_of_le hlength) ?_
            have hcome := arrived_sum c.answers.reads
            rw [List.length_append] at hlength
            rw [toCome, hpipe]
            simp only [List.length_drop, List.length_append]
            omega
          · exact .broken hpipe
        · exact .wait hpipe
      · exact .broken hpipe

/-- Everything `write` can do with some bytes. -/
inductive WriteStep (c : BaseConnection) (data : List UInt8) :
    Bool → BaseConnection → Prop where
  | shut (hpipe : c.pipe = none) : WriteStep c data false c
  | complete {pipe : Pipe} {writes : List WriteAnswer}
      (hpipe : c.pipe = some pipe) :
      WriteStep c data true
        { c with
          answers := { c.answers with writes := writes }
          pipe := some { pipe with log := pipe.log ++ [.wrote data] } }
  | short {pipe : Pipe} {writes : List WriteAnswer} (n : ℕ)
      (hpipe : c.pipe = some pipe) :
      WriteStep c data false
        { c with
          answers := { c.answers with writes := writes }
          pipe := some { pipe with log := pipe.log ++ [.cut (data.take n)] } }

theorem write_step (c : BaseConnection) {data : List UInt8} (hdata : data ≠ []) :
    WriteStep c data (c.write data).1 (c.write data).2 := by
  rw [write, if_neg hdata]
  cases hpipe : c.pipe with
  | none => exact .shut hpipe
  | some pipe =>
      simp only
      cases c.answers.writes.headD .complete with
      | complete => exact .complete hpipe
      | short n => exact .short n hpipe

end BaseConnection

/-! ## §3  What is said over the pipe -/

/-- The pipe is open, and its conversation stands at `t`. -/
structure Talking (N : CStr 64 → Prop) (R : Rules δ) (c : BaseConnection)
    (t : Talk) : Prop where
  isOpen : c.isOpen = true
  named : N R.applicationId
  pipe : ∃ pipe, c.pipe = some pipe ∧ Spells R pipe.log t
  past : ∀ pipe ∈ c.past, EndedFor N R pipe.log

/-- The header of a frame has been read. -/
structure Halfway (N : CStr 64 → Prop) (R : Rules δ) (c : BaseConnection)
    (header : List UInt8) (t : Talk) : Prop where
  isOpen : c.isOpen = true
  named : N R.applicationId
  length : header.length = 8
  pipe : ∃ pipe front, c.pipe = some pipe ∧ Spells R front t ∧
    pipe.log = front ++ [.took header]
  past : ∀ pipe ∈ c.past, EndedFor N R pipe.log

/-- Nothing more may be said. -/
structure Broken (N : CStr 64 → Prop) (R : Rules δ) (c : BaseConnection) :
    Prop where
  pipe : ∀ pipe ∈ c.pipe, EndedFor N R pipe.log
  past : ∀ pipe ∈ c.past, EndedFor N R pipe.log

structure Shut (N : CStr 64 → Prop) (R : Rules δ) (c : BaseConnection) :
    Prop where
  isOpen : c.isOpen = false
  pipe : c.pipe = none
  past : ∀ pipe ∈ c.past, EndedFor N R pipe.log

/-- The conversation can go on with a frame from either side. -/
structure Talk.Idle (t : Talk) : Prop where
  owed : t.owed = none
  phase : t.phase = .greeting ∨ t.phase = .ready

section Pipes

variable {c : BaseConnection} {t u : Talk}

theorem Talking.broken (h : Talking N R c t) (howed : t.owed = none) :
    Broken N R c := by
  obtain ⟨pipe, hpipe, hlog⟩ := h.pipe
  refine ⟨?_, h.past⟩
  rw [hpipe]
  rintro p ⟨⟩
  exact ⟨R.applicationId, h.named, hlog.ended howed⟩

theorem Halfway.broken {header : List UInt8} (h : Halfway N R c header t) :
    Broken N R c := by
  obtain ⟨pipe, front, hpipe, hfront, hlog⟩ := h.pipe
  refine ⟨?_, h.past⟩
  rw [hpipe]
  rintro p ⟨⟩
  exact ⟨R.applicationId, h.named, t, front, hfront,
    Or.inr (Or.inl ⟨header, h.length, hlog⟩)⟩

theorem Shut.broken (h : Shut N R c) : Broken N R c := by
  refine ⟨?_, h.past⟩
  rw [h.pipe]
  rintro p ⟨⟩

theorem Broken.close (h : Broken N R c) : Shut N R c.close := by
  refine ⟨rfl, rfl, ?_⟩
  intro p hp
  rcases List.mem_append.mp hp with hp | hp
  · exact h.past p hp
  · exact h.pipe p (Option.mem_toList.mp hp)

/-- The pipe is closed with the log it has. -/
theorem shut_append {answers : Answers} {pipe : Pipe} {received : List UInt8}
    (h : Broken N R c) (hpipe : c.pipe = some pipe) :
    Shut N R
      { c with
        answers := answers
        isOpen := false
        pipe := none
        past := c.past ++ [{ pipe with received := received }] } := by
  refine ⟨rfl, rfl, ?_⟩
  intro p hp
  rcases List.mem_append.mp hp with hp | hp
  · exact h.past p hp
  · rw [List.mem_singleton.mp hp]
    exact h.pipe pipe hpipe

theorem Talking.header (h : Talking N R c t) (ht : t.Idle) :
    match (c.read 8).1 with
    | some header =>
        Halfway N R (c.read 8).2 header t ∧
          (c.read 8).2.toCome + 8 = c.toCome
    | none => Talking N R (c.read 8).2 t ∨ Shut N R (c.read 8).2 := by
  obtain ⟨pipe, hpipe, hlog⟩ := h.pipe
  have hread := c.read_step 8
  generalize c.read 8 = r at hread
  obtain ⟨r, c'⟩ := r
  cases hread with
  | shut hnone =>
      rw [hpipe] at hnone
      cases hnone
  | @data pipe' data received answers hpipe' hlength htoCome =>
      rw [hpipe] at hpipe'
      cases hpipe'
      refine ⟨⟨h.isOpen, h.named, hlength, ⟨_, _, rfl, hlog, rfl⟩, h.past⟩, ?_⟩
      rw [← htoCome, Nat.add_comm]
      rfl
  | @wait pipe' received answers hpipe' =>
      rw [hpipe] at hpipe'
      cases hpipe'
      exact Or.inl ⟨h.isOpen, h.named, ⟨_, rfl, hlog⟩, h.past⟩
  | broken hpipe' => exact Or.inr (shut_append (h.broken ht.owed) hpipe')

theorem Halfway.payload {header : List UInt8} (h : Halfway N R c header t)
    (ht : t.Idle) :
    match (readPayload c (lengthOf header)).1 with
    | some payload =>
        payload.length = lengthOf header ∧
        Talking N R (readPayload c (lengthOf header)).2
          (t.hear R.toDouble ⟨tagOf header, payload⟩) ∧
        (readPayload c (lengthOf header)).2.toCome ≤ c.toCome
    | none => Broken N R (readPayload c (lengthOf header)).2 := by
  obtain ⟨pipe, front, hpipe, hfront, hlog⟩ := h.pipe
  have hfollow : ∀ payload : List UInt8, t.follow R.toDouble
      (.got ⟨tagOf header, payload⟩) =
        some (t.hear R.toDouble ⟨tagOf header, payload⟩) :=
    fun _ => if_pos ⟨ht.owed, ht.phase⟩
  rw [readPayload]
  by_cases hlength : 0 < lengthOf header
  · rw [if_pos hlength]
    have hread := c.read_step (lengthOf header)
    generalize c.read (lengthOf header) = r at hread
    obtain ⟨r, c'⟩ := r
    cases hread with
    | shut hnone =>
        rw [hpipe] at hnone
        cases hnone
    | @data pipe' data received answers hpipe' hdata htoCome =>
        rw [hpipe] at hpipe'
        cases hpipe'
        have hheader := header_eq h.length hdata
        have hne : data ≠ [] := by
          rintro rfl
          exact absurd hdata.symm (Nat.ne_of_gt hlength)
        have hspells := hfront.snoc (hfollow data) fun _ => nofun
        have hmove : Move.transfers (.got ⟨tagOf header, data⟩) =
            [.took header, .took data] := by
          rw [Move.transfers, hheader, if_neg hne]
        rw [hmove, List.append_cons, ← hlog] at hspells
        refine ⟨hdata, ⟨h.isOpen, h.named, ⟨_, rfl, hspells⟩, h.past⟩, ?_⟩
        rw [← htoCome]
        exact Nat.le_add_left _ _
    | @wait pipe' received answers hpipe' =>
        rw [hpipe] at hpipe'
        cases hpipe'
        refine ⟨?_, h.past⟩
        rintro p ⟨⟩
        exact h.broken.pipe pipe hpipe
    | broken hpipe' => exact (shut_append h.broken hpipe').broken
  · rw [if_neg hlength]
    have hzero : lengthOf header = 0 := Nat.eq_zero_of_not_pos hlength
    have hheader := header_eq h.length
      (show ([] : List UInt8).length = _ from hzero.symm)
    have hspells := hfront.snoc (hfollow []) fun _ => nofun
    have hmove : Move.transfers (.got ⟨tagOf header, []⟩) = [.took header] := by
      rw [Move.transfers, hheader, if_pos rfl]
    rw [hmove, ← hlog] at hspells
    exact ⟨hzero.symm, ⟨h.isOpen, h.named, ⟨pipe, hpipe, hspells⟩, h.past⟩,
      Nat.le_refl _⟩

theorem encode_ne_nil (f : Frame) : f.encode ≠ [] := by
  intro h
  have hlength := congrArg List.length h
  rw [Frame.encode, List.length_append, f.length_header] at hlength
  exact absurd hlength (by rw [List.length_nil]; omega)

/-- What is said gets through, or breaks the conversation off. -/
theorem Talking.utter (h : Talking N R c t) {f : Frame}
    (hf : t.utter f = some u) (hsay : Sayable R f) :
    if (c.write f.encode).1 then
      Talking N R (c.write f.encode).2 u ∧
        (c.write f.encode).2.toCome = c.toCome
    else Broken N R (c.write f.encode).2 := by
  obtain ⟨pipe, hpipe, hlog⟩ := h.pipe
  have hwrite := c.write_step (encode_ne_nil f)
  generalize c.write f.encode = r at hwrite
  obtain ⟨ok, c'⟩ := r
  cases hwrite with
  | shut hnone =>
      rw [hpipe] at hnone
      cases hnone
  | @complete pipe' writes hpipe' =>
      rw [hpipe] at hpipe'
      cases hpipe'
      have hspells := hlog.snoc (m := .sent f) hf (by rintro _ ⟨⟩; exact hsay)
      refine ⟨⟨h.isOpen, h.named, ⟨_, rfl, hspells⟩, h.past⟩, ?_⟩
      rw [BaseConnection.toCome, BaseConnection.toCome, hpipe]
  | @short pipe' writes k hpipe' =>
      rw [hpipe] at hpipe'
      cases hpipe'
      refine ⟨?_, h.past⟩
      rintro p ⟨⟩
      refine ⟨R.applicationId, h.named, t, pipe.log, hlog,
        Or.inr (Or.inr ⟨f, k, ?_, hsay, rfl⟩)⟩
      rw [hf]
      rfl

end Pipes

/-! ## §4  The messages -/

/-- The text in `readFrame.message`, where there is one. -/
def Holds (message last : List UInt8) : Prop :=
  message ≠ [] → cString message = cString last

theorem putMessage_holds (message : List UInt8) (payload : List UInt8) :
    Holds (putMessage message payload) payload :=
  fun _ => cutAt_append_cons 0 payload _

theorem isReady_agree {d : JsonDocument δ} {w : Value δ (List UInt8)} {n : ℕ}
    (h : Related (At d.buffer n) d.value w) :
    isReady d.strings d.value = isReady copied w := by
  apply eq_of_agree
  apply (getStrMember_agree (.some h) _ none).bind
  rintro cmd _ rfl
  apply (getStrMember_agree (.some h) _ none).bind
  rintro evt _ rfl
  exact rfl

theorem isReady_empty : isReady copied (.obj [] : Value δ (List UInt8)) =
    .ok false := rfl

/-- A text is accepted as its part in front of the first NUL is. -/
theorem parse_congr {text text' : List UInt8}
    (h : cString text = cString text') {v : Value δ (List UInt8)} :
    parse copying toDouble () text = .ok ((), v) ↔
      parse copying toDouble () text' = .ok ((), v) := by
  rw [parse_ok_iff, parse_ok_iff, h]

/-- **The client is greeted** by the messages that say so. -/
theorem isReady_eq_greets {message last : List UInt8} {d : JsonDocument δ}
    {b : Bool} (hparse : parseMessage toDouble message = .ok d)
    (hholds : Holds message last)
    (hready : isReady d.strings d.value = .ok b) : b = greets toDouble last := by
  rw [parseMessage] at hparse
  split at hparse
  · cases hparse
  rename_i hne
  have hagree := parseInsitu_agree toDouble message
  rw [hparse] at hagree
  cases hcopy : parseCopy toDouble message with
  | error e =>
      rw [hcopy] at hagree
      exact absurd hagree id
  | ok w =>
      rw [hcopy] at hagree
      rw [isReady_agree hagree] at hready
      rw [greets]
      rw [parseCopy] at hcopy
      cases htext : parse copying toDouble () message with
      | ok r =>
          obtain ⟨⟨⟩, v⟩ := r
          rw [htext] at hcopy
          cases hcopy
          rw [(parse_congr (hholds hne)).mp htext]
          simp only [hready]
          cases b with
          | true => rfl
          | false => rfl
      | error e =>
          cases hlast : parse copying toDouble () last with
          | ok r =>
              obtain ⟨⟨⟩, v⟩ := r
              rw [(parse_congr (hholds hne)).mpr hlast] at htext
              cases htext
          | error e' =>
              rw [htext] at hcopy
              cases e with
              | parseError code left =>
                  cases hcopy
                  rw [isReady_empty] at hready
                  cases hready
                  rfl
              | assertion => cases hcopy
              | fuel => cases hcopy

/-! ## §5  `RpcConnection::Read` -/

section Reads

variable {callbacks : Callbacks δ σ} {t : Talk}

/-- What `Read` gives over a connection in a state and a phase: no message, the
conversation gone on with pings and pongs or the pipe closed; or a message, the
text of the frame that came last. -/
def ReadOutcome (N : CStr 64 → Prop) (R : Rules δ) (state : State)
    (phase : Phase) : Option (JsonDocument δ) × RpcConnection σ → Prop
  | (none, c) =>
      c.state = state ∧ (∃ u, Talking N R c.connection u ∧ u.Idle ∧
        u.phase = phase) ∨
      c.state = .Disconnected ∧ Shut N R c.connection
  | (some d, c) =>
      c.state = state ∧ ∃ u, Talking N R c.connection u ∧ u.Idle ∧
        u.phase = (if phase = .greeting ∧ greets R.toDouble u.last then .ready
          else phase) ∧
        ∃ message, parseMessage R.toDouble message = .ok d ∧ Holds message u.last

/-- Only a ping has to be answered. -/
theorem Talk.hear_owed (t : Talk) (toDouble : List UInt8 → Option δ) {f : Frame}
    (hf : f.tag ≠ Opcode.Ping) :
    (t.hear toDouble f).owed = t.owed := by
  rw [Talk.hear, if_neg hf]
  split
  · rfl
  split
  · rfl
  · rfl

theorem Talk.Idle.hear_frame {payload : List UInt8} (h : t.Idle) :
    (t.hear R.toDouble ⟨Opcode.Frame, payload⟩).Idle := by
  have hphase : ∀ (p : Prop) [Decidable p],
      (if p then Phase.ready else t.phase) = .greeting ∨
        (if p then Phase.ready else t.phase) = .ready := by
    intro p _
    split
    · exact Or.inr rfl
    · exact h.phase
  exact ⟨h.owed, hphase _⟩

theorem Talk.Idle.hear_ping {payload : List UInt8} (h : t.Idle) :
    ∃ u, (t.hear R.toDouble ⟨Opcode.Ping, payload⟩).utter
        ⟨Opcode.Pong, payload⟩ = some u ∧ u.Idle ∧ u.phase = t.phase ∧
      u.last = if payload = [] then t.last else payload :=
  ⟨{ t with last := if payload = [] then t.last else payload, owed := none },
    if_pos rfl, ⟨rfl, h.phase⟩, rfl, rfl⟩

theorem parseMessage_ends (message : List UInt8) :
    Ends (fun d => parseMessage R.toDouble message = .ok d)
      (parseMessage R.toDouble message) := by
  have h : Ends (fun _ => True) (parseMessage R.toDouble message) := by
    rw [parseMessage]
    split
    · rintro ⟨⟩
    · exact parseInsitu_ends R.toDouble message
  exact h.of_eq.imp fun _ hd => hd.1

/-- What a round leaves: an end as of `Read`, or a connection for the next one,
with less to come. -/
def RoundOutcome (N : CStr 64 → Prop) (R : Rules δ) (c : RpcConnection σ)
    (phase : Phase) : Round δ σ → Prop
  | .done document c' => ReadOutcome N R c.state phase (document, c')
  | .again message c' =>
      c'.connection.toCome < c.connection.toCome ∧
        (c'.state = c.state ∧ (∃ u, Talking N R c'.connection u ∧
            u.Idle ∧ u.phase = phase ∧ Holds message u.last) ∨
          Shut N R c'.connection)

theorem close_shut (callbacks : Callbacks δ σ) {c : RpcConnection σ}
    (h : Broken N R c.connection) :
    (c.close callbacks).state = .Disconnected ∧
      Shut N R (c.close callbacks).connection :=
  ⟨rfl, h.close⟩

theorem handleFrame_outcome {c c' : RpcConnection σ} {tag : UInt32}
    {payload message : List UInt8} (hstate : c'.state = c.state) (ht : t.Idle)
    (h : Talking N R c'.connection (t.hear R.toDouble ⟨tag, payload⟩))
    (hcome : c'.connection.toCome < c.connection.toCome)
    (hholds : Holds message (if payload = [] then t.last else payload)) :
    Ends (RoundOutcome N R c t.phase)
      (handleFrame callbacks R.toDouble tag payload message c') := by
  rw [handleFrame]
  by_cases hclose : tag = Opcode.Close
  · rw [if_pos hclose]
    apply (parseMessage_ends message).bind
    intro d _
    apply (getIntMember_ends _ _ _ _).bind
    intro code _
    apply (getStrMember_ends _ _ _ _).bind
    intro text _
    have howed := (t.hear_owed R.toDouble (f := ⟨tag, payload⟩)
      (by rw [hclose]; rintro ⟨⟩)).trans ht.owed
    exact Or.inr (close_shut callbacks (c := RpcConnection.setError _ _ _)
      (h.broken howed))
  rw [if_neg hclose]
  by_cases hframe : tag = Opcode.Frame
  · rw [if_pos hframe]
    apply (parseMessage_ends message).bind
    intro d hd
    subst hframe
    exact ⟨hstate, _, h, ht.hear_frame, rfl, message, hd, hholds⟩
  rw [if_neg hframe]
  by_cases hping : tag = Opcode.Ping
  · rw [if_pos hping]
    subst hping
    obtain ⟨u, hu, hidle, hphase, hlast⟩ := ht.hear_ping
    have hsent := h.utter hu ⟨nofun, nofun⟩
    simp only
    split at hsent
    · rename_i hok
      rw [if_pos hok]
      rw [← hlast] at hholds
      exact ⟨by rw [hsent.2]; exact hcome,
        Or.inl ⟨hstate, u, hsent.1, hidle, hphase, hholds⟩⟩
    · rename_i hok
      rw [if_neg hok]
      exact ⟨Nat.lt_of_le_of_lt (Nat.zero_le _) hcome,
        Or.inr (close_shut callbacks hsent).2⟩
  rw [if_neg hping]
  by_cases hpong : tag = Opcode.Pong
  · rw [if_pos hpong]
    subst hpong
    exact ⟨hcome, Or.inl ⟨hstate, _, h, ⟨ht.owed, ht.phase⟩, rfl, hholds⟩⟩
  rw [if_neg hpong]
  have howed := (t.hear_owed R.toDouble (f := ⟨tag, payload⟩)
    hping).trans ht.owed
  exact Or.inr (close_shut callbacks (c := RpcConnection.setError _ _ _)
    (h.broken howed))

theorem readFrame_outcome {message : List UInt8} {c : RpcConnection σ}
    (h : Talking N R c.connection t) (ht : t.Idle)
    (hholds : Holds message t.last) :
    Ends (RoundOutcome N R c t.phase)
      (readFrame callbacks R.toDouble message c) := by
  have hheader := h.header ht
  rw [readFrame]
  cases hread : (c.connection.read 8).1 with
  | none =>
      rw [hread] at hheader
      simp only
      rcases hheader with hheader | hheader
      · rw [if_pos hheader.isOpen]
        exact Or.inl ⟨rfl, t, hheader, ht, rfl⟩
      · rw [if_neg (by rw [hheader.isOpen]; exact Bool.false_ne_true)]
        exact Or.inr (close_shut callbacks (c := RpcConnection.setError _ _ _)
          hheader.broken)
  | some header =>
      rw [hread] at hheader
      obtain ⟨hhalf, hcome⟩ := hheader
      have hpayload := hhalf.payload ht
      simp only
      cases hbytes : (readPayload (c.connection.read 8).2
          (lengthOf header)).1 with
      | none =>
          rw [hbytes] at hpayload
          exact Or.inr (close_shut callbacks (c := RpcConnection.setError _ _ _) hpayload)
      | some payload =>
          rw [hbytes] at hpayload
          obtain ⟨hlength, htalk, hcome'⟩ := hpayload
          simp only
          split
          · rintro ⟨⟩
          · refine handleFrame_outcome rfl ht htalk ?_ ?_
            · exact Nat.lt_of_le_of_lt hcome' (by omega)
            · -- a frame without payload leaves the message as it is
              rw [← hlength]
              by_cases hempty : payload = []
              · subst hempty
                exact hholds
              · rw [if_pos (List.length_pos_iff.mpr hempty), if_neg hempty]
                exact putMessage_holds message payload

/-- Behind a ping that could not be answered nothing is read. -/
theorem readLoop_shut {state : State} {phase : Phase} {fuel : ℕ}
    (message : List UInt8) {c : RpcConnection σ}
    (h : Shut N R c.connection) :
    Ends (ReadOutcome N R state phase)
      (readLoop callbacks R.toDouble (fuel + 1) message c) := by
  have hread : c.connection.read 8 = (none, c.connection) := by
    rw [BaseConnection.read, h.pipe]
  rw [readLoop, readFrame, hread]
  simp only [h.isOpen]
  exact Or.inr (close_shut callbacks (c := RpcConnection.setError _ _ _) h.broken)

theorem readLoop_outcome (fuel : ℕ) :
    ∀ {message : List UInt8} {c : RpcConnection σ} {t : Talk},
      Talking N R c.connection t → t.Idle → Holds message t.last →
      c.connection.toCome < fuel →
        Ends (ReadOutcome N R c.state t.phase)
          (readLoop callbacks R.toDouble fuel message c) := by
  induction fuel with
  | zero =>
      intro message c t h ht hholds hfuel
      exact absurd hfuel (Nat.not_lt_zero _)
  | succ fuel ih =>
      intro message c t h ht hholds hfuel
      rw [readLoop]
      apply (readFrame_outcome h ht hholds).bind
      rintro (⟨document, c'⟩ | ⟨message', c'⟩) hround
      · exact hround
      · obtain ⟨hless, ⟨hstate, u, hu, hidle, hphase, hholds'⟩ | hshut⟩ := hround
        · rw [← hstate, ← hphase]
          exact ih hu hidle hholds' (by omega)
        · obtain ⟨fuel', rfl⟩ : ∃ fuel', fuel = fuel' + 1 :=
            ⟨fuel - 1, by omega⟩
          exact readLoop_shut message' hshut

/-- **`Read` keeps to the conversation** and ends. -/
theorem read_outcome {c : RpcConnection σ}
    (hstate : c.state = .Connected ∨ c.state = .SentHandshake)
    (h : Talking N R c.connection t) (ht : t.Idle) :
    Ends (ReadOutcome N R c.state t.phase) (c.read callbacks R.toDouble) := by
  rw [RpcConnection.read,
    if_neg (by rintro ⟨h₁, h₂⟩; exact hstate.elim h₁ h₂)]
  exact readLoop_outcome _ h ht (fun hne => absurd rfl hne) (Nat.lt_succ_self _)

end Reads

/-! ## §6  The callbacks -/

/-- What it gives, where the program does not fail, satisfies `P`. -/
def Gives {α : Type} (P : α → Prop) : Except Fault α → Prop
  | .ok a => P a
  | .error _ => True

theorem Gives.bind {α β : Type} {P : α → Prop} {Q : β → Prop}
    {x : Except Fault α} {f : α → Except Fault β} (h : Gives P x)
    (hf : ∀ a, P a → Gives Q (f a)) : Gives Q (x >>= f) := by
  cases x with
  | ok a => exact hf a h
  | error e => trivial

theorem Gives.imp {α : Type} {P Q : α → Prop} {x : Except Fault α}
    (h : Gives P x) (hPQ : ∀ a, P a → Q a) : Gives Q x := by
  cases x with
  | ok a => exact hPQ a h
  | error e => trivial

theorem Gives.and {α : Type} {P Q : α → Prop} {x : Except Fault α}
    (h : Gives P x) (hQ : Gives Q x) : Gives (fun a => P a ∧ Q a) x := by
  cases x with
  | ok a => exact ⟨h, hQ⟩
  | error e => trivial

theorem gives_true {α : Type} (x : Except Fault α) :
    Gives (fun _ => True) x := by
  cases x with
  | ok a => trivial
  | error e => trivial

theorem bind_ok {α β : Type} {x : Except Fault α} {f : α → Except Fault β}
    {b : β} (h : x >>= f = .ok b) : ∃ a, x = .ok a ∧ f a = .ok b := by
  cases x with
  | ok a => exact ⟨a, rfl, h⟩
  | error e => cases h

theorem Ends.gives {α : Type} {P : α → Prop} {x : Except Fault α}
    (h : Ends P x) : Gives P x := by
  cases x with
  | ok a => exact h
  | error e => trivial

theorem Ends.and {α : Type} {P Q : α → Prop} {x : Except Fault α}
    (h : Ends P x) (hQ : Gives Q x) : Ends (fun a => P a ∧ Q a) x := by
  cases x with
  | ok a => exact ⟨h, hQ⟩
  | error e => exact h

/-- What the steps of `Read` keep. -/
structure ReadKeep (callbacks : Callbacks δ σ) (K : RpcConnection σ → Prop) :
    Prop where
  close : ∀ c, K c → K (c.close callbacks)
  setError : ∀ c code text, K c → K (c.setError code text)
  read : ∀ c length, K c → K { c with connection := (c.connection.read length).2 }
  pong : ∀ c payload, K c → K { c with
    connection := (c.connection.write (Frame.mk Opcode.Pong payload).encode).2 }

section ReadKeep

variable {callbacks : Callbacks δ σ} {K : RpcConnection σ → Prop}
  {c : RpcConnection σ} (hkeep : ReadKeep callbacks K)

include hkeep

/-- Where a round ends, the connection has `K`. -/
def RoundKeeps (K : RpcConnection σ → Prop) : Round δ σ → Prop
  | .done _ c => K c
  | .again _ c => K c

theorem handleFrame_keeps (h : K c) (tag : UInt32)
    (payload message : List UInt8) :
    Gives (RoundKeeps K)
      (handleFrame callbacks toDouble tag payload message c) := by
  rw [handleFrame]
  split
  · apply (gives_true _).bind
    intro d _
    apply (gives_true _).bind
    intro code _
    apply (gives_true _).bind
    intro text _
    exact hkeep.close _ (hkeep.setError _ _ _ h)
  split
  · apply (gives_true _).bind
    intro d _
    exact h
  split
  · have hpong := hkeep.pong c payload h
    show K (ite _ _ _)
    split
    · exact hpong
    · exact hkeep.close _ hpong
  split
  · exact h
  · exact hkeep.close _ (hkeep.setError _ _ _ h)

theorem readFrame_keeps (h : K c) (message : List UInt8) :
    Gives (RoundKeeps K) (readFrame callbacks toDouble message c) := by
  have hheader := hkeep.read c 8 h
  rw [readFrame]
  simp only
  split
  · split
    · exact hheader
    · exact hkeep.close _ (hkeep.setError _ _ _ hheader)
  · rename_i header _
    have hpayload : K { c with connection :=
        (readPayload (c.connection.read 8).2 (lengthOf header)).2 } := by
      rw [readPayload]
      split
      · exact hkeep.read _ _ hheader
      · exact hheader
    split
    · exact hkeep.close _ (hkeep.setError _ _ _ hpayload)
    · split
      · trivial
      · exact handleFrame_keeps hkeep hpayload _ _ _

theorem readLoop_keeps (fuel : ℕ) :
    ∀ {message : List UInt8} {c : RpcConnection σ}, K c →
      Gives (fun r => K r.2) (readLoop callbacks toDouble fuel message c) := by
  induction fuel with
  | zero =>
      intro message c h
      trivial
  | succ fuel ih =>
      intro message c h
      rw [readLoop]
      apply (readFrame_keeps hkeep h message).bind
      rintro (⟨document, c'⟩ | ⟨message', c'⟩) hround
      · exact hround
      · exact ih hround

theorem read_keeps (h : K c) :
    Gives (fun r => K r.2) (c.read callbacks toDouble) := by
  rw [RpcConnection.read]
  split
  · exact h
  · exact readLoop_keeps hkeep _ h

end ReadKeep

theorem ReadKeep.and {callbacks : Callbacks δ σ} {K K' : RpcConnection σ → Prop}
    (h : ReadKeep callbacks K) (h' : ReadKeep callbacks K') :
    ReadKeep callbacks fun c => K c ∧ K' c :=
  ⟨fun c hc => ⟨h.close c hc.1, h'.close c hc.2⟩,
    fun c code text hc =>
      ⟨h.setError c code text hc.1, h'.setError c code text hc.2⟩,
    fun c length hc => ⟨h.read c length hc.1, h'.read c length hc.2⟩,
    fun c payload hc => ⟨h.pong c payload hc.1, h'.pong c payload hc.2⟩⟩

/-- `onDisconnect` keeps `K` of what it works on. -/
def Callbacks.KeepClosing (callbacks : Callbacks δ σ) (K : σ → Prop) : Prop :=
  ∀ onDisconnect ∈ callbacks.onDisconnect, ∀ code text s, K s →
    K (onDisconnect code text s)

/-- So does `onConnect`, which ends. -/
structure Callbacks.Keep (callbacks : Callbacks δ σ) (K : σ → Prop) : Prop where
  connect : ∀ onConnect ∈ callbacks.onConnect, ∀ d s, K s →
    Ends K (onConnect d s)
  disconnect : callbacks.KeepClosing K

section Keep

variable {callbacks : Callbacks δ σ} {K : σ → Prop} {c : RpcConnection σ}
  (hkeep : callbacks.KeepClosing K)

include hkeep

theorem close_keeps (h : K c.context) : K (c.close callbacks).context := by
  rw [close]
  cases hcallback : callbacks.onDisconnect with
  | none => exact h
  | some onDisconnect =>
      simp only
      split
      · exact hkeep onDisconnect hcallback _ _ _ h
      · exact h

theorem readKeep_context : ReadKeep callbacks fun c => K c.context :=
  ⟨fun _ h => close_keeps hkeep h, fun _ _ _ h => h, fun _ _ h => h,
    fun _ _ h => h⟩

theorem write_keeps (h : K c.context) (data : List UInt8) :
    Gives (fun r => K r.2.context) (c.write callbacks data) := by
  rw [RpcConnection.write]
  split
  · trivial
  · simp only
    split
    · exact h
    · exact close_keeps hkeep (c := { c with connection := _ }) h

theorem sendHandshake_keeps (h : K c.context) :
    Gives (fun c' => K c'.context) (c.sendHandshake callbacks) := by
  rw [sendHandshake]
  split
  · trivial
  · simp only
    split
    · exact h
    · exact close_keeps hkeep (c := { c with connection := _ }) h

omit hkeep

theorem awaitReady_keeps (hkeep : callbacks.Keep K) (h : K c.context) :
    Gives (fun c' => K c'.context) (c.awaitReady callbacks toDouble) := by
  rw [awaitReady]
  apply (read_keeps (readKeep_context hkeep.disconnect) h).bind
  rintro ⟨_ | message, c'⟩ h'
  · exact h'
  apply (gives_true _).bind
  intro ready _
  cases ready with
  | false => exact h'
  | true =>
      simp only [if_true]
      split
      · rename_i onConnect hcallback
        apply (hkeep.connect onConnect hcallback message _ h').gives.bind
        intro context hcontext
        exact hcontext
      · exact h'

theorem open_keeps (hkeep : callbacks.Keep K) (h : K c.context) :
    Gives (fun c' => K c'.context) (c.open_ callbacks toDouble) := by
  rw [RpcConnection.open_]
  split
  · exact h
  apply (gives_true _).bind
  rintro ⟨ok, connection⟩ -
  simp only
  split
  · exact h
  split
  · exact awaitReady_keeps (c := { c with connection := connection }) hkeep h
  · exact sendHandshake_keeps (c := { c with connection := connection })
      hkeep.disconnect h

end Keep

/-! ## §7  The operations -/

/-- In every state the pipe is as the state says, and every conversation, those
that are over as well, has kept to the rules. -/
def Conversing (N : CStr 64 → Prop) (R : Rules δ) (c : RpcConnection σ) : Prop :=
  c.state = .Disconnected ∧ Shut N R c.connection ∨
  c.state = .SentHandshake ∧ (∃ t, Talking N R c.connection t ∧ t.Idle ∧
    t.phase = .greeting) ∨
  c.state = .Connected ∧ ∃ t, Talking N R c.connection t ∧ t.Idle ∧
    t.phase = .ready

section Operations

variable {callbacks : Callbacks δ σ} {c : RpcConnection σ}

theorem Conversing.broken (h : Conversing N R c) :
    Broken N R c.connection := by
  rcases h with ⟨-, h⟩ | ⟨-, t, h, hidle, -⟩ | ⟨-, t, h, hidle, -⟩
  · exact h.broken
  · exact h.broken hidle.owed
  · exact h.broken hidle.owed

theorem close_conversing (callbacks : Callbacks δ σ) (h : Broken N R c.connection) :
    Conversing N R (c.close callbacks) :=
  Or.inl (close_shut callbacks h)

theorem destroy_conversing (h : Conversing N R c) :
    Conversing N R (c.destroy callbacks) :=
  Or.inl ⟨rfl, (close_shut callbacks h.broken).2.broken.close⟩

/-- A message comes over a connection that stays. -/
theorem read_conversing (h : Conversing N R c)
    (hstate : c.state = .Connected) :
    Ends (fun r => Conversing N R r.2 ∧ r.2.state ≠ .SentHandshake ∧
      (r.1.isSome → r.2.state = .Connected)) (c.read callbacks R.toDouble) := by
  rcases h with ⟨hstate', -⟩ | ⟨hstate', -⟩ | ⟨-, t, ht, hidle, hphase⟩
  · rw [hstate] at hstate'
    cases hstate'
  · rw [hstate] at hstate'
    cases hstate'
  apply (read_outcome (Or.inl hstate) ht hidle).imp
  rintro ⟨_ | d, c'⟩ hread
  · rcases hread with ⟨hsame, u, hu⟩ | hshut
    · have hconnected : c'.state = .Connected := hsame.trans hstate
      refine ⟨Or.inr (Or.inr ⟨hconnected, u, hu.1, hu.2.1,
        hu.2.2.trans hphase⟩), ?_, fun _ => hconnected⟩
      rw [hconnected]
      rintro ⟨⟩
    · refine ⟨Or.inl hshut, ?_, nofun⟩
      rw [hshut.1]
      rintro ⟨⟩
  · obtain ⟨hsame, u, hu, hidle', hphase', -⟩ := hread
    have hconnected : c'.state = .Connected := hsame.trans hstate
    refine ⟨Or.inr (Or.inr ⟨hconnected, u, hu, hidle', ?_⟩), ?_,
      fun _ => hconnected⟩
    · rw [hphase', hphase, if_neg (by rintro ⟨⟨⟩, -⟩)]
    · rw [hconnected]
      rintro ⟨⟩

/-- A command is sent over a pipe where the client has been greeted, or over
none. -/
theorem write_conversing (h : Conversing N R c)
    (hstate : c.state ≠ .SentHandshake) {data : List UInt8}
    (hdata : R.Command data) :
    Ends (fun r => Conversing N R r.2 ∧ r.2.state ≠ .SentHandshake)
      (c.write callbacks data) := by
  rw [RpcConnection.write]
  split
  · rintro ⟨⟩
  have hclosed : ∀ c' : RpcConnection σ, Broken N R c'.connection →
      Conversing N R (c'.close callbacks) ∧
        (c'.close callbacks).state ≠ .SentHandshake :=
    fun c' h' => ⟨close_conversing callbacks h', nofun⟩
  rcases h with ⟨hdisc, h⟩ | ⟨hsent, -⟩ | ⟨hconn, t, h, hidle, hphase⟩
  · have hwrite : c.connection.write (Frame.mk Opcode.Frame data).encode =
        (false, c.connection) := by
      rw [BaseConnection.write, if_neg (encode_ne_nil _), h.pipe]
    simp only [hwrite]
    exact hclosed c h.broken
  · exact absurd hsent hstate
  · have hutter : t.utter ⟨Opcode.Frame, data⟩ = some t := by
      have hsilent : t.phase ≠ .silent := by
        rw [hphase]
        rintro ⟨⟩
      rw [Talk.utter, hidle.owed]
      show (if t.phase = .silent ∧ _ then _ else if t.phase = .ready ∧ _ then
        some t else none) = _
      rw [if_neg (fun hboth => hsilent hboth.1), if_pos ⟨hphase, rfl⟩]
    have hsaid := h.utter hutter ⟨nofun, fun _ => hdata⟩
    simp only
    split at hsaid
    · rename_i hok
      rw [if_pos hok]
      exact ⟨Or.inr (Or.inr ⟨hconn, t, hsaid.1, hidle, hphase⟩), hstate⟩
    · rename_i hok
      rw [if_neg hok]
      exact hclosed { c with connection := _ } hsaid

theorem createPipe_ends (creates : List CreateFileAnswer) : ∀ digit : UInt8,
    Ends (fun _ => True) (BaseConnection.createPipe creates digit) := by
  induction creates with
  | nil =>
      intro digit
      rintro ⟨⟩
  | cons answer creates ih =>
      intro digit
      cases answer with
      | opened => trivial
      | failed => trivial
      | notFound =>
          rw [BaseConnection.createPipe]
          split
          · exact ih (digit + 1)
          · trivial
      | busy free =>
          rw [BaseConnection.createPipe]
          split
          · exact ih digit
          · trivial

theorem Shut.open_ {c : BaseConnection} (hnamed : N R.applicationId)
    (h : Shut N R c) :
    Ends (fun r => if r.1 then Talking N R r.2 {} else Shut N R r.2) c.open_ := by
  rw [BaseConnection.open_]
  apply (createPipe_ends c.answers.creates 48).bind
  rintro ⟨_ | digit, creates⟩ -
  · exact ⟨h.isOpen, rfl, h.past⟩
  · exact ⟨rfl, hnamed, ⟨_, rfl, [], rfl, rfl, fun _ => nofun⟩, h.past⟩

theorem sendHandshake_conversing (hid : c.appId = R.applicationId)
    (h : Talking N R c.connection {}) :
    Ends (Conversing N R) (c.sendHandshake callbacks) := by
  rw [sendHandshake]
  cases hwrite : jsonWriteHandshakeObj MaxMessage RpcVersion c.appId.val with
  | none => rintro ⟨⟩
  | some message =>
      have hsaid := h.utter (f := ⟨Opcode.Handshake, message⟩) rfl
        ⟨fun _ => hid ▸ hwrite, nofun⟩
      simp only
      split at hsaid
      · rename_i hok
        rw [if_pos hok]
        exact Or.inr (Or.inl ⟨rfl, _, hsaid.1, ⟨rfl, Or.inl rfl⟩, rfl⟩)
      · rename_i hok
        rw [if_neg hok]
        exact close_conversing callbacks (c := { c with connection := _ }) hsaid

variable {K : σ → Prop}

theorem awaitReady_conversing (hkeep : callbacks.Keep K) (hK : K c.context)
    (hstate : c.state = .SentHandshake) {t : Talk}
    (h : Talking N R c.connection t) (hidle : t.Idle)
    (hphase : t.phase = .greeting) :
    Ends (fun c' => Conversing N R c' ∧ K c'.context)
      (c.awaitReady callbacks R.toDouble) := by
  rw [awaitReady]
  apply ((read_outcome (Or.inr hstate) h hidle).and
    (read_keeps (readKeep_context hkeep.disconnect) hK)).bind
  rintro ⟨_ | d, c'⟩ ⟨hread, hK'⟩
  · rcases hread with ⟨hsame, u, hu, hidle', hphase'⟩ | hshut
    · exact ⟨Or.inr (Or.inl ⟨hsame.trans hstate, u, hu, hidle',
        hphase'.trans hphase⟩), hK'⟩
    · exact ⟨Or.inl hshut, hK'⟩
  · obtain ⟨hsame, u, hu, hidle', hphase', message, hparse, hholds⟩ := hread
    have hready : Ends (fun _ => True) (isReady d.strings d.value) := by
      apply (getStrMember_ends _ _ _ _).bind
      intro cmd _
      apply (getStrMember_ends _ _ _ _).bind
      intro evt _
      trivial
    apply hready.of_eq.bind
    rintro b ⟨hb, -⟩
    have hgreets := isReady_eq_greets hparse hholds hb
    rw [← hgreets] at hphase'
    cases b with
    | false =>
        rw [if_neg (by rintro ⟨-, ⟨⟩⟩)] at hphase'
        exact ⟨Or.inr (Or.inl ⟨hsame.trans hstate, u, hu, hidle',
          hphase'.trans hphase⟩), hK'⟩
    | true =>
        rw [if_pos ⟨hphase, rfl⟩] at hphase'
        simp only [if_true]
        cases hcallback : callbacks.onConnect with
        | none => exact ⟨Or.inr (Or.inr ⟨rfl, u, hu, hidle', hphase'⟩), hK'⟩
        | some onConnect =>
            apply (hkeep.connect onConnect hcallback d _ hK').bind
            intro context hcontext
            exact ⟨Or.inr (Or.inr ⟨rfl, u, hu, hidle', hphase'⟩), hcontext⟩

/-- **`Open` keeps to the conversation**, in the name of the application, and
ends, unless it is still waiting for a pipe. -/
theorem open_conversing (hkeep : callbacks.Keep K) (hK : K c.context)
    (hid : c.appId = R.applicationId) (hnamed : N R.applicationId)
    (h : Conversing N R c) :
    Ends (fun c' => Conversing N R c' ∧ K c'.context)
      (c.open_ callbacks R.toDouble) := by
  rw [RpcConnection.open_]
  rcases h with ⟨hstate, h⟩ | ⟨hstate, t, h, hidle, hphase⟩ | ⟨hstate, h⟩
  · rw [if_neg (by rw [hstate]; rintro ⟨⟩), openPipe, if_pos hstate]
    apply (h.open_ hnamed).bind
    rintro ⟨_ | _, connection⟩ hopen
    · exact ⟨Or.inl ⟨hstate, hopen⟩, hK⟩
    · show Ends _ (if c.state = .SentHandshake then _ else _)
      rw [if_neg (by rw [hstate]; rintro ⟨⟩)]
      exact (sendHandshake_conversing (c := { c with connection := connection })
        hid hopen).and
        (sendHandshake_keeps hkeep.disconnect
          (c := { c with connection := connection }) hK)
  · have hne : c.state ≠ .Disconnected := by
      rw [hstate]
      rintro ⟨⟩
    rw [if_neg (by rw [hstate]; rintro ⟨⟩), openPipe, if_neg hne]
    show Ends _ (if c.state = .SentHandshake then _ else _)
    rw [if_pos hstate]
    exact awaitReady_conversing hkeep hK hstate h hidle hphase
  · rw [if_pos hstate]
    exact ⟨Or.inr (Or.inr ⟨hstate, h⟩), hK⟩

/-! ## §8  The application's id -/

/-- No operation but `create` changes the id. -/
theorem readKeep_appId (callbacks : Callbacks δ σ) (applicationId : CStr 64) :
    ReadKeep callbacks fun c => c.appId = applicationId :=
  ⟨fun _ h => h, fun _ _ _ h => h, fun _ _ h => h, fun _ _ h => h⟩

theorem read_appId (callbacks : Callbacks δ σ) (c : RpcConnection σ) :
    Gives (fun r => r.2.appId = c.appId) (c.read callbacks toDouble) :=
  read_keeps (readKeep_appId callbacks c.appId) rfl

theorem write_appId (callbacks : Callbacks δ σ) (c : RpcConnection σ)
    (data : List UInt8) :
    Gives (fun r => r.2.appId = c.appId) (c.write callbacks data) := by
  rw [RpcConnection.write]
  split
  · trivial
  · simp only
    split
    · rfl
    · rfl

theorem sendHandshake_appId (callbacks : Callbacks δ σ) (c : RpcConnection σ) :
    Gives (fun c' => c'.appId = c.appId) (c.sendHandshake callbacks) := by
  rw [sendHandshake]
  split
  · trivial
  · simp only
    split
    · rfl
    · rfl

theorem awaitReady_appId (callbacks : Callbacks δ σ) (c : RpcConnection σ) :
    Gives (fun c' => c'.appId = c.appId) (c.awaitReady callbacks toDouble) := by
  rw [awaitReady]
  apply (read_appId callbacks c).bind
  rintro ⟨_ | message, c'⟩ h
  · exact h
  apply (gives_true _).bind
  intro ready _
  cases ready with
  | false => exact h
  | true =>
      simp only [if_true]
      split
      · apply (gives_true _).bind
        intro context _
        exact h
      · exact h

theorem open_appId (callbacks : Callbacks δ σ) (c : RpcConnection σ) :
    Gives (fun c' => c'.appId = c.appId) (c.open_ callbacks toDouble) := by
  rw [RpcConnection.open_]
  split
  · rfl
  apply (gives_true _).bind
  rintro ⟨ok, connection⟩ -
  simp only
  split
  · rfl
  split
  · exact awaitReady_appId callbacks { c with connection := connection }
  · exact sendHandshake_appId callbacks { c with connection := connection }

end Operations

end AWRPC
