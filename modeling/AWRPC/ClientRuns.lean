import AWRPC.Client
import AWRPC.Conversation
import AWRPC.Lib.Machine

/-!
# Runs of the client

The I/O thread and the game take turns in any order; between any two accesses of
`Discord_UpdateConnection` the game may make a call. `Client.Orderly` holds in
every run: the connection's conversations keep to the rules of `Talk.follow`, and
what lies ready to be sent is within the terms of the calls of the game.
-/

namespace AWRPC

open Bytes JsonGrammar Reader RpcConnection MsgQueue

variable {δ : Type} {toDouble : List UInt8 → Option δ}

/-! ## §1  The runs -/

inductive ClientEvent where
  | io
  | game (call : Client.GameCall)
  | join

namespace Client

/-- Before the first call. -/
def start (answers : Answers) (clock delays : List ℤ) : Client :=
  { Instance :=
      { connection := { answers := answers }
        context := { clock := clock, delays := delays } } }

/-- The game initializes what is not there, or not any more. -/
def GameCall.allowed (c : Client) : GameCall → Bool
  | .initialize_ _ _ _ => !c.Connection
  | _ => true

/-- `join` is the end of the wait in `Discord_Shutdown`, during which the game
makes no call: the thread has come to its end. -/
def step (toDouble : List UInt8 → Option δ) (c : Client) :
    ClientEvent → Option (Except Fault Client)
  | .io => some (c.threadStep toDouble)
  | .game call =>
      if !c.joining && call.allowed c then some (c.gameStep call) else none
  | .join =>
      if c.joining && c.thread = .ended then some (.ok (c.destroy δ)) else none

end Client

/-- A run goes on as long as the program does not fail. -/
def client (toDouble : List UInt8 → Option δ) (c : Client) :
    Machine Client ClientEvent Unit where
  init := c
  step c e :=
    match c.step toDouble e with
    | some (.ok c') => some (c', ())
    | _ => none

/-- The run over `es` from `c` ends in `c'`. -/
def Client.Runs (toDouble : List UInt8 → Option δ) (c : Client)
    (es : List ClientEvent) (c' : Client) : Prop :=
  ∃ os, (client toDouble c).run c es = some (c', os)

/-! ## §2  What messages and callbacks leave alone -/

/-- Neither what lies ready to be sent has changed, nor the handlers. -/
structure Untouched (s s' : Statics) : Prop where
  presence : s'.QueuedPresence = s.QueuedPresence
  flag : s'.UpdatePresence = s.UpdatePresence
  queue : s'.SendQueue = s.SendQueue
  handlers : s'.Handlers = s.Handlers
  queuedHandlers : s'.QueuedHandlers = s.QueuedHandlers
  pid : s'.Pid = s.Pid

section Untouched

variable {s : Statics}

theorem untouched_refl (s : Statics) : Untouched s s := ⟨rfl, rfl, rfl, rfl, rfl, rfl⟩

theorem copyUser_ends (strings : StringViews (ℕ × ℕ))
    (user : Option (Value δ (ℕ × ℕ))) (userId username : List UInt8)
    (avatar : Option (List UInt8)) (dest : User) :
    Ends (fun _ => True) (copyUser strings user userId username avatar dest) := by
  apply (getStrMember_ends _ _ _ _).bind
  intro discriminator _
  trivial

theorem connectedUserOf_ends (strings : StringViews (ℕ × ℕ))
    (user : Option (Value δ (ℕ × ℕ))) (dest : User) :
    Ends (fun _ => True) (connectedUserOf strings user dest) := by
  apply (getStrMember_ends _ _ _ _).bind
  intro userId _
  apply (getStrMember_ends _ _ _ _).bind
  intro username _
  apply (getStrMember_ends _ _ _ _).bind
  intro avatar _
  split
  · exact copyUser_ends strings user _ _ avatar dest
  · trivial

/-- A new connection registers the handlers and has the presence sent again. -/
theorem untouched_onConnect (readyMessage : JsonDocument δ)
    {Q : Statics → Prop}
    (h : Ends Q (s.updateHandlers (some s.QueuedHandlers))) :
    Ends (fun s' => ∃ s₁, Q s₁ ∧ Untouched s₁.requeuePresence s')
      (s.onConnect readyMessage) := by
  apply h.bind
  intro s₁ h₁
  apply (getObjMember_ends _ _ _).bind
  intro data _
  apply (getObjMember_ends _ _ _).bind
  intro user _
  apply (connectedUserOf_ends _ _ _).bind
  intro connectedUser _
  exact ⟨s₁, h₁, rfl, rfl, rfl, rfl, rfl, rfl⟩

/-- But for the flag nothing changes with it. -/
theorem requeuePresence_eq (s : Statics) :
    s.requeuePresence = { s with
      UpdatePresence := s.UpdatePresence || 0 < s.QueuedPresence.length } := by
  rw [Statics.requeuePresence]
  split
  · rename_i hlength
    rw [decide_eq_true hlength, Bool.or_true]
  · rename_i hlength
    rw [decide_eq_false hlength, Bool.or_false]

theorem untouched_now (s : Statics) : Untouched s s.now.2 :=
  ⟨rfl, rfl, rfl, rfl, rfl, rfl⟩

theorem untouched_updateReconnectTime (s : Statics) :
    Untouched s s.updateReconnectTime :=
  ⟨rfl, rfl, rfl, rfl, rfl, rfl⟩

theorem untouched_onDisconnect (s : Statics) (err : Int32)
    (message : List UInt8) : Untouched s (s.onDisconnect err message) :=
  ⟨rfl, rfl, rfl, rfl, rfl, rfl⟩

theorem untouched_response (s : Statics) (message : JsonDocument δ)
    (evtName : Option (List UInt8)) :
    Ends (Untouched s) (s.response message evtName) := by
  rw [Statics.response]
  split
  · apply (getObjMember_ends _ _ _).bind
    intro data _
    apply (getIntMember_ends _ _ _ _).bind
    intro code _
    apply (getStrMember_ends _ _ _ _).bind
    intro text _
    exact ⟨rfl, rfl, rfl, rfl, rfl, rfl⟩
  · exact untouched_refl s

theorem untouched_joinRequest (s : Statics) (message : JsonDocument δ)
    (data : Option (Value δ (ℕ × ℕ))) :
    Ends (Untouched s) (s.joinRequest message data) := by
  apply (getObjMember_ends _ _ _).bind
  intro user _
  apply (getStrMember_ends _ _ _ _).bind
  intro userId _
  apply (getStrMember_ends _ _ _ _).bind
  intro username _
  apply (getStrMember_ends _ _ _ _).bind
  intro avatar _
  simp only
  split
  · apply (copyUser_ends _ _ _ _ _ _).bind
    intro joinReq _
    exact ⟨rfl, rfl, rfl, rfl, rfl, rfl⟩
  · exact ⟨rfl, rfl, rfl, rfl, rfl, rfl⟩

theorem untouched_dispatch (s : Statics) (message : JsonDocument δ) :
    Ends (Untouched s) (s.dispatch message) := by
  apply (getStrMember_ends _ _ _ _).bind
  intro evtName _
  apply (getStrMember_ends _ _ _ _).bind
  intro nonce _
  split
  · exact untouched_response s message evtName
  cases evtName with
  | none => exact untouched_refl s
  | some evtName =>
      apply (getObjMember_ends _ _ _).bind
      intro data _
      split
      · apply (getStrMember_ends _ _ _ _).bind
        rintro (_ | secret) _
        · exact untouched_refl s
        · exact ⟨rfl, rfl, rfl, rfl, rfl, rfl⟩
      split
      · apply (getStrMember_ends _ _ _ _).bind
        rintro (_ | secret) _
        · exact untouched_refl s
        · exact ⟨rfl, rfl, rfl, rfl, rfl, rfl⟩
      split
      · exact untouched_joinRequest s message data
      · exact untouched_refl s

theorem untouched_drainRequests (k : ℕ) :
    ∀ s : Statics, Untouched s (Statics.drainRequests k s).2 := by
  induction k with
  | zero => exact untouched_refl
  | succ k ih =>
      intro s
      rw [Statics.drainRequests]
      split
      · have hrest := ih { s with
          JoinAskQueue := s.JoinAskQueue.getNextSendMessage.2.commitSend }
        exact ⟨hrest.presence, hrest.flag, hrest.queue, hrest.handlers,
          hrest.queuedHandlers, hrest.pid⟩
      · exact untouched_refl s

theorem untouched_runCallbacks (s : Statics) (isConnected : Bool) :
    Untouched s (s.runCallbacks isConnected).2 := by
  have hrest := untouched_drainRequests s.JoinAskQueue.pendingSends_.toNat
    { s with
      WasJustDisconnected := false
      WasJustConnected := false
      GotErrorMessage := false
      WasJoinGame := false
      WasSpectateGame := false }
  exact ⟨hrest.presence, hrest.flag, hrest.queue, hrest.handlers,
    hrest.queuedHandlers, hrest.pid⟩

end Untouched

/-! ## §3  What the commands are -/

/-- The text of a command with `P`, or nothing: `Discord_Shutdown` may clear the
presence after the I/O thread has seen that there is one. -/
def Written (P : Command → Prop) (text : List UInt8) : Prop :=
  text = [] ∨ ∃ command, P command ∧ command.write MaxMessageSize = some text

/-- What the calls of the game may be about: the applications it names, the process
that it is, and the commands that its calls stand for. -/
structure Terms where
  Named : CStr 64 → Prop
  Pid : Int32 → Prop
  Command : Command → Prop

def Terms.free : Terms := ⟨fun _ => True, fun _ => True, fun _ => True⟩

/-- What `Create` makes of the id of the application. -/
def applicationName (applicationId : List UInt8) : CStr 64 :=
  stringCopy ⟨[], by decide⟩ (some applicationId)

/-- The events that the client subscribes to for some handlers. -/
def DiscordEventHandlers.events (h : DiscordEventHandlers) : List (List UInt8) :=
  (if h.joinGame then [lit "ACTIVITY_JOIN"] else []) ++
    (if h.spectateGame then [lit "ACTIVITY_SPECTATE"] else []) ++
    (if h.joinRequest then [lit "ACTIVITY_JOIN_REQUEST"] else [])

/-- The subscriptions to an event are among the commands with `P`. -/
def Subscribes (P : Command → Prop) (event : List UInt8) : Prop :=
  ∀ nonce, P (.subscribe nonce event) ∧ P (.unsubscribe nonce event)

def Asks (P : Command → Prop) (h : DiscordEventHandlers) : Prop :=
  ∀ event ∈ h.events, Subscribes P event

/-- A call is within the terms. -/
def Client.GameCall.Says (T : Terms) : Client.GameCall → Prop
  | .initialize_ applicationId handlers pid =>
      T.Named (applicationName applicationId) ∧ T.Pid pid ∧
        ∀ h ∈ handlers, Asks T.Command h
  | .updatePresence presence =>
      ∀ nonce pid, T.Pid pid → T.Command (.richPresence nonce pid presence)
  | .respond userId reply => ∀ nonce, T.Command (.joinReply userId reply nonce)
  | .updateHandlers newHandlers => ∀ h ∈ newHandlers, Asks T.Command h
  | _ => True

def ClientEvent.Says (T : Terms) : ClientEvent → Prop
  | .game call => call.Says T
  | _ => True

theorem says_free (e : ClientEvent) : e.Says .free := by
  have hasks : ∀ h, Asks Terms.free.Command h :=
    fun _ _ _ _ => ⟨trivial, trivial⟩
  cases e with
  | io => trivial
  | join => trivial
  | game call =>
      cases call with
      | updatePresence presence => exact fun _ _ _ => trivial
      | respond userId reply => exact fun _ => trivial
      | initialize_ applicationId handlers pid =>
          exact ⟨trivial, trivial, fun h _ => hasks h⟩
      | shutdown => trivial
      | runCallbacks => trivial
      | updateHandlers newHandlers => exact fun h _ => hasks h

theorem asks_none (P : Command → Prop) : Asks P {} := nofun

/-- What lies ready to be sent, and what a connection that opens will send, is
within the terms. -/
structure Supplied (T : Terms) (sender : SendPoint MessageQueueSize)
    (s : Statics) : Prop where
  presence : Written T.Command s.QueuedPresence
  queue : Queued (Written T.Command) s.SendQueue sender
  handlers : Asks T.Command s.Handlers
  queuedHandlers : Asks T.Command s.QueuedHandlers
  pid : T.Pid s.Pid

section Statics

variable {T : Terms} {sender : SendPoint MessageQueueSize} {s s' : Statics}

theorem Supplied.untouched (h : Supplied T sender s) (hsame : Untouched s s') :
    Supplied T sender s' := by
  refine ⟨?_, ?_, ?_, ?_, ?_⟩
  · rw [hsame.presence]
    exact h.presence
  · rw [hsame.queue]
    exact h.queue
  · rw [hsame.handlers]
    exact h.handlers
  · rw [hsame.queuedHandlers]
    exact h.queuedHandlers
  · rw [hsame.pid]
    exact h.pid

theorem messageQueueSize_dvd : MessageQueueSize ∣ 2 ^ 32 := by decide

theorem messageQueueSize_lt : MessageQueueSize < 2 ^ 32 := by decide

theorem Supplied.requeuePresence (h : Supplied T sender s) :
    Supplied T sender s.requeuePresence := by
  rw [requeuePresence_eq]
  exact ⟨h.presence, h.queue, h.handlers, h.queuedHandlers, h.pid⟩

theorem Supplied.enqueue (h : Supplied T sender s)
    {write : Int32 → Option (List UInt8)}
    (hwrite : ∀ nonce text, write nonce = some text → Written T.Command text) :
    Ends (Supplied T sender) (s.enqueue write) := by
  rw [Statics.enqueue, getNextAddMessage]
  cases hfull : s.SendQueue.fallingBehind with
  | true => exact h
  | false =>
      simp only [Bool.false_eq_true, if_false]
      cases htext : write s.Nonce with
      | none => rintro ⟨⟩
      | some message =>
          exact ⟨h.presence, h.queue.add messageQueueSize_dvd messageQueueSize_lt
            hfull (hwrite _ _ htext), h.handlers, h.queuedHandlers, h.pid⟩

/-- An event is registered where the new handlers are for it, and given up where
the old ones were. -/
theorem Supplied.handleEventRegistration (h : Supplied T sender s)
    {old new : Bool} {event : List UInt8}
    (hold : old = true → Subscribes T.Command event)
    (hnew : new = true → Subscribes T.Command event) :
    Ends (Supplied T sender) (s.handleEventRegistration old new event) := by
  rw [Statics.handleEventRegistration]
  split
  · rename_i hguard
    have hsubscribes := hnew (Bool.and_eq_true_iff.mp hguard).2
    exact h.enqueue fun nonce text htext =>
      Or.inr ⟨.subscribe nonce event, (hsubscribes nonce).1, htext⟩
  split
  · rename_i hguard
    have hsubscribes := hold (Bool.and_eq_true_iff.mp hguard).1
    exact h.enqueue fun nonce text htext =>
      Or.inr ⟨.unsubscribe nonce event, (hsubscribes nonce).2, htext⟩
  · exact h

theorem Asks.events {P : Command → Prop} {h : DiscordEventHandlers}
    (hasks : Asks P h) :
    (h.joinGame = true → Subscribes P (lit "ACTIVITY_JOIN")) ∧
      (h.spectateGame = true → Subscribes P (lit "ACTIVITY_SPECTATE")) ∧
      (h.joinRequest = true → Subscribes P (lit "ACTIVITY_JOIN_REQUEST")) := by
  refine ⟨fun hon => ?_, fun hon => ?_, fun hon => ?_⟩
  · exact hasks _ (by simp [DiscordEventHandlers.events, hon])
  · exact hasks _ (by simp [DiscordEventHandlers.events, hon])
  · exact hasks _ (by simp [DiscordEventHandlers.events, hon])

theorem Supplied.updateHandlers (h : Supplied T sender s)
    {newHandlers : Option DiscordEventHandlers}
    (hnew : ∀ new ∈ newHandlers, Asks T.Command new) :
    Ends (Supplied T sender) (s.updateHandlers newHandlers) := by
  cases newHandlers with
  | none =>
      exact ⟨h.presence, h.queue, asks_none _, h.queuedHandlers, h.pid⟩
  | some new =>
      have hasks := hnew new rfl
      obtain ⟨hjoin, hspectate, hrequest⟩ := h.handlers.events
      obtain ⟨hjoin', hspectate', hrequest'⟩ := hasks.events
      apply (h.handleEventRegistration hjoin hjoin').bind
      intro s₁ h₁
      apply (h₁.handleEventRegistration hspectate hspectate').bind
      intro s₂ h₂
      apply (h₂.handleEventRegistration hrequest hrequest').bind
      intro s₃ h₃
      exact ⟨h₃.presence, h₃.queue, hasks, h₃.queuedHandlers, h₃.pid⟩

theorem Supplied.onConnect (h : Supplied T sender s)
    (readyMessage : JsonDocument δ) :
    Ends (Supplied T sender) (s.onConnect readyMessage) := by
  have hnew : ∀ new ∈ some s.QueuedHandlers, Asks T.Command new := by
    rintro new ⟨⟩
    exact h.queuedHandlers
  exact (untouched_onConnect readyMessage (h.updateHandlers hnew)).imp
    fun _ ⟨_, h₁, hsame⟩ => h₁.requeuePresence.untouched hsame

theorem Supplied.updatePresence (h : Supplied T sender s)
    {presence : Option DiscordRichPresence}
    (hsaid : ∀ nonce pid, T.Pid pid →
      T.Command (.richPresence nonce pid presence)) :
    Ends (Supplied T sender) (s.updatePresence presence) := by
  rw [Statics.updatePresence]
  cases htext : jsonWriteRichPresenceObj MaxMessageSize s.Nonce s.Pid presence with
  | none => rintro ⟨⟩
  | some message =>
      exact ⟨Or.inr ⟨_, hsaid s.Nonce s.Pid h.pid, htext⟩, h.queue, h.handlers,
        h.queuedHandlers, h.pid⟩

end Statics

/-! ## §4  What a round leaves alone -/

/-- What a round does to the variables by itself: it looks at the time, and takes
from what lies ready to be sent or puts it back. -/
inductive Restocked (s : Statics) : Statics → Prop where
  | time (clock delays : List ℤ) (backoff : Backoff) (next : ℤ) :
      Restocked s { s with
        clock := clock
        delays := delays
        ReconnectTimeMs := backoff
        NextConnect := next }
  | presence (message : List UInt8) (flag : Bool) :
      Restocked s { s with QueuedPresence := message, UpdatePresence := flag }
  | queue (next pending : UInt32) :
      Restocked s { s with
        SendQueue :=
          { s.SendQueue with nextSend_ := next, pendingSends_ := pending } }

section Round

variable {c : Client}

/-- **What a round keeps**: `K` holds of the connection behind each step, where the
calls of the connection, the messages and the round itself keep it; and no more
than the connection and the place changes. -/
theorem ioStep_keeps {K : RpcConnection Statics → Prop} (hK : K c.Instance)
    (hstock : ∀ s, Restocked c.Instance.context s →
      K { c.Instance with context := s })
    (hopen : c.io = .outside → ∀ s, Restocked c.Instance.context s →
      Gives K (RpcConnection.open_ (c.callbacks δ) toDouble
        { c.Instance with context := s }))
    (hread : c.io = .reads →
      Gives (fun r => K r.2 ∧ ∀ message ∈ r.1,
          Gives (fun s => K { r.2 with context := s })
            (r.2.context.dispatch message))
        (c.Instance.read (c.callbacks δ) toDouble))
    (hwrite : ∀ data, Gives (fun r => K r.2)
      (c.Instance.write (c.callbacks δ) data)) :
    Gives (fun c' => ∃ rpc io, K rpc ∧ c' = { c with Instance := rpc, io := io })
      (c.ioStep toDouble) := by
  cases hio : c.io with
  | outside =>
      rw [Client.ioStep, hio]
      simp only
      rw [Client.enter]
      split
      · exact ⟨c.Instance, c.io, hK, rfl⟩
      split
      · exact ⟨_, _, hK, rfl⟩
      simp only
      split
      · apply (hopen hio _ (.time _ _ _ _)).bind
        intro rpc hrpc
        exact ⟨rpc, c.io, hrpc, rfl⟩
      · exact ⟨_, c.io, hstock _ (.time _ _ _ _), rfl⟩
  | reads =>
      rw [Client.ioStep, hio]
      apply (hread hio).bind
      rintro ⟨_ | message, rpc⟩ ⟨hrpc, hdispatch⟩
      · exact ⟨rpc, _, hrpc, rfl⟩
      · apply (hdispatch message rfl).bind
        intro s hs
        exact ⟨_, _, hs, rfl⟩
  | exchange =>
      have hs := hstock _ (.presence c.Instance.context.QueuedPresence false)
      rw [Client.ioStep, hio]
      simp only
      split
      · exact ⟨_, _, hs, rfl⟩
      · exact ⟨_, _, hs, rfl⟩
  | taken =>
      rw [Client.ioStep, hio]
      exact ⟨_, _, hK, rfl⟩
  | holding message =>
      rw [Client.ioStep, hio]
      apply (hwrite message).bind
      intro r hr
      exact ⟨_, _, hr, rfl⟩
  | failed message =>
      rw [Client.ioStep, hio]
      exact ⟨_, _, hstock _ (.presence message true), rfl⟩
  | sends =>
      rw [Client.ioStep, hio]
      simp only
      split
      · exact ⟨_, _, hstock _ (.queue _ _), rfl⟩
      · exact ⟨_, _, hK, rfl⟩
  | sending i =>
      rw [Client.ioStep, hio]
      apply (hwrite _).bind
      intro r hr
      exact ⟨_, _, hr, rfl⟩
  | sent i =>
      rw [Client.ioStep, hio]
      exact ⟨_, _, hstock _ (.queue _ _), rfl⟩

/-- Everything a step of the thread can do: a step of a round, or one between two
rounds. -/
theorem threadStep_cases {c' : Client} (h : c.threadStep toDouble = .ok c') :
    (c.thread = .updating ∧ ∃ c₁, c.ioStep toDouble = .ok c₁ ∧
      c' = if c₁.io = .outside then { c₁ with thread := .checking } else c₁) ∨
    (c.thread = .checking ∧
      c' = { c with thread := if c.keepRunning then .waiting else .ended }) ∨
    (c.thread = .waiting ∧ c' = { c with thread := .updating }) ∨
    (c.thread = .ended ∧ c' = c) := by
  rw [Client.threadStep] at h
  split at h
  · rename_i hthread
    cases h
    exact Or.inr (Or.inr (Or.inr ⟨hthread, rfl⟩))
  · rename_i hthread
    cases hstep : c.ioStep toDouble with
    | error e =>
        rw [hstep] at h
        cases h
    | ok c₁ =>
        rw [hstep] at h
        cases h
        exact Or.inl ⟨hthread, c₁, rfl, rfl⟩
  · rename_i hthread
    cases h
    exact Or.inr (Or.inl ⟨hthread, rfl⟩)
  · rename_i hthread
    cases h
    exact Or.inr (Or.inr (Or.inl ⟨hthread, rfl⟩))

/-- What a step of a round keeps, a step of the thread keeps, where it does not
matter for it where the thread stands. -/
theorem threadStep_keeps {Q : Client → Prop}
    (hthread : ∀ (c : Client) thread, Q c → Q { c with thread := thread })
    (h : Q c) (hround : Gives Q (c.ioStep toDouble)) :
    Gives Q (c.threadStep toDouble) := by
  cases hstep : c.threadStep toDouble with
  | error e => trivial
  | ok c' =>
      rcases threadStep_cases hstep with
        ⟨-, c₁, hio, rfl⟩ | ⟨-, rfl⟩ | ⟨-, rfl⟩ | ⟨-, rfl⟩
      · rw [hio] at hround
        show Q (ite _ _ _)
        split
        · exact hthread c₁ _ hround
        · exact hround
      · exact hthread c _ h
      · exact hthread c _ h
      · exact h

end Round

/-! ## §5  What every step keeps -/

/-- The message of `SendQueue` that the I/O thread holds. -/
def IoPlace.sender : IoPlace → SendPoint MessageQueueSize
  | .sending i => .reading i
  | .sent i => .reading i
  | _ => .outside

/-- The presence that the I/O thread has copied. -/
def IoPlace.copied? : IoPlace → Option (List UInt8)
  | .holding message => some message
  | .failed message => some message
  | _ => none

/-- The rules of a connection. -/
def rulesOf (toDouble : List UInt8 → Option δ) (T : Terms)
    (rpc : RpcConnection Statics) : Rules δ :=
  ⟨toDouble, rpc.appId, Written T.Command⟩

/-- A connection that is being used has been greeted, or is closed; without one,
and between two rounds, nothing is under way. -/
structure Client.Orderly (toDouble : List UInt8 → Option δ) (T : Terms)
    (c : Client) : Prop where
  conversing : Conversing T.Named (rulesOf toDouble T c.Instance) c.Instance
  greeted : c.io ≠ .outside → c.Instance.state ≠ .SentHandshake
  reading : c.io = .reads → c.Instance.state = .Connected
  supplied : Supplied T c.io.sender c.Instance.context
  copied : ∀ message ∈ c.io.copied?, Written T.Command message
  named : c.Connection = true → T.Named c.Instance.appId
  absent : c.Connection = false →
    c.io = .outside ∧ c.Instance.state = .Disconnected
  round : c.thread ≠ .updating → c.io = .outside

section Steps

variable {T : Terms} {c : Client}

/-- Of the shared variables only what lies ready matters. -/
theorem Client.Orderly.withStatics (h : c.Orderly toDouble T) {s : Statics}
    (hs : Supplied T c.io.sender s) : (c.withStatics s).Orderly toDouble T :=
  { h with supplied := hs }

theorem start_orderly (hpid : T.Pid 0) (answers : Answers)
    (clock delays : List ℤ) :
    (Client.start answers clock delays).Orderly toDouble T where
  conversing := Or.inl ⟨rfl, rfl, rfl, nofun⟩
  greeted := fun hne => absurd rfl hne
  reading := nofun
  supplied := ⟨Or.inl rfl, queued_new _, asks_none _, asks_none _, hpid⟩
  copied := nofun
  named := nofun
  absent := fun _ => ⟨rfl, rfl⟩
  round := fun _ => rfl

theorem callbacks_keep (c : Client) (sender : SendPoint MessageQueueSize) :
    (c.callbacks δ).Keep (Supplied T sender) := by
  rw [Client.callbacks]
  split
  · refine ⟨?_, ?_⟩
    · rintro _ ⟨⟩ d s h
      exact h.onConnect d
    · rintro _ ⟨⟩ code text s h
      exact h.untouched (untouched_onDisconnect s code text)
  · exact ⟨nofun, nofun⟩

/-- The rules are those of the connection that an operation leaves. -/
theorem Conversing.same {rpc rpc' : RpcConnection Statics}
    (h : Conversing T.Named (rulesOf toDouble T rpc) rpc')
    (happId : rpc'.appId = rpc.appId) :
    Conversing T.Named (rulesOf toDouble T rpc') rpc' := by
  rw [rulesOf, happId]
  exact h

theorem connect_orderly (h : c.Orderly toDouble T) (hio : c.io = .outside)
    (hconnection : c.Connection = true) :
    Ends (Client.Orderly toDouble T) (c.connect toDouble) := by
  apply ((open_conversing (callbacks_keep c _) h.supplied rfl
    (h.named hconnection) h.conversing).and (open_appId _ c.Instance)).bind
  rintro rpc ⟨⟨hconversing, hsupplied⟩, happId⟩
  exact
    { conversing := hconversing.same happId
      greeted := fun hne => absurd hio hne
      reading := fun hreads => by
        rw [hio] at hreads
        cases hreads
      supplied := hsupplied
      copied := h.copied
      named := fun hconnection => happId ▸ h.named hconnection
      absent := fun hnone =>
        absurd (hnone.symm.trans hconnection) Bool.false_ne_true
      round := fun _ => hio }

theorem enter_orderly (h : c.Orderly toDouble T) (hio : c.io = .outside)
    (hthread : c.thread = .updating) :
    Ends (Client.Orderly toDouble T) (c.enter toDouble) := by
  rw [Client.enter]
  split
  · exact h
  rename_i hnot
  have hconnection : c.Connection = true := by simpa using hnot
  split
  · rename_i hopen
    have hstate : c.Instance.state = .Connected := of_decide_eq_true hopen
    have hsupplied := h.supplied
    rw [hio] at hsupplied
    exact
      { conversing := h.conversing
        greeted := fun _ => by
          rw [hstate]
          rintro ⟨⟩
        reading := fun _ => hstate
        supplied := hsupplied
        copied := nofun
        named := h.named
        absent := fun hnone =>
          absurd (hnone.symm.trans hconnection) Bool.false_ne_true
        round := fun hne => absurd hthread hne }
  have hclock := h.supplied.untouched (untouched_now c.Instance.context)
  simp only
  split
  · have hreconnect := hclock.untouched (untouched_updateReconnectTime _)
    exact connect_orderly (h.withStatics hreconnect) hio hconnection
  · exact h.withStatics hclock

/-- The thread stands in a round, and the connection is there. -/
theorem Client.Orderly.under_way (h : c.Orderly toDouble T)
    (hio : c.io ≠ .outside) : c.thread = .updating ∧ c.Connection = true := by
  refine ⟨?_, ?_⟩
  · by_contra hne
    exact hio (h.round hne)
  · cases hconnection : c.Connection with
    | true => rfl
    | false => exact absurd (h.absent hconnection).1 hio

/-- The next place in a round, over a connection that an operation leaves. -/
theorem Client.Orderly.move (h : c.Orderly toDouble T) (hio : c.io ≠ .outside)
    {r : RpcConnection Statics} {p : IoPlace}
    (hconversing : Conversing T.Named (rulesOf toDouble T c.Instance) r)
    (happId : r.appId = c.Instance.appId)
    (hgreeted : r.state ≠ .SentHandshake)
    (hreading : p = .reads → r.state = .Connected)
    (hsupplied : Supplied T p.sender r.context)
    (hcopied : ∀ message ∈ p.copied?, Written T.Command message) :
    ({ c with Instance := r, io := p } : Client).Orderly toDouble T := by
  obtain ⟨hthread, hconnection⟩ := h.under_way hio
  exact
    { conversing := hconversing.same happId
      greeted := fun _ => hgreeted
      reading := hreading
      supplied := hsupplied
      copied := hcopied
      named := fun hconnection => happId ▸ h.named hconnection
      absent := fun hnone =>
        absurd (hnone.symm.trans hconnection) Bool.false_ne_true
      round := fun hne => absurd hthread hne }

/-- A message is read, or the reads are over. -/
theorem reads_orderly (h : c.Orderly toDouble T) (hio : c.io = .reads) :
    Ends (Client.Orderly toDouble T) (c.ioStep toDouble) := by
  have hstate := h.reading hio
  have hne : c.io ≠ .outside := by
    rw [hio]
    rintro ⟨⟩
  have hsupplied := h.supplied
  rw [hio] at hsupplied
  rw [Client.ioStep, hio]
  apply (((read_conversing h.conversing hstate).and
    (read_keeps (readKeep_context (callbacks_keep c _).disconnect) hsupplied)).and
      (read_appId _ c.Instance)).bind
  rintro ⟨_ | message, rpc⟩
    ⟨⟨⟨hconversing, hgreeted, hconnected⟩, hsupplied'⟩, happId⟩
  · exact h.move hne hconversing happId hgreeted nofun hsupplied' nofun
  · apply (untouched_dispatch rpc.context message).bind
    intro s hsame
    have hs := hsupplied'.untouched hsame
    exact h.move hne (r := { rpc with context := s }) (p := .reads)
      hconversing happId hgreeted (fun _ => hconnected rfl) hs nofun

/-- A message is written, from a place where the connection has been greeted. -/
theorem write_orderly (h : c.Orderly toDouble T) (hio : c.io ≠ .outside)
    {data : List UInt8} (hdata : Written T.Command data) :
    Ends (fun r => Conversing T.Named (rulesOf toDouble T c.Instance) r.2 ∧
        r.2.appId = c.Instance.appId ∧ r.2.state ≠ .SentHandshake ∧
        Supplied T c.io.sender r.2.context)
      (c.Instance.write (c.callbacks δ) data) := by
  apply (((write_conversing h.conversing (h.greeted hio) hdata).and
    (write_keeps (callbacks_keep c _).disconnect h.supplied data)).and
      (write_appId _ c.Instance data)).imp
  rintro ⟨ok, rpc⟩ ⟨⟨⟨hconversing, hgreeted⟩, hsupplied⟩, happId⟩
  exact ⟨hconversing, happId, hgreeted, hsupplied⟩

/-- **One step of a round.** -/
theorem ioStep_orderly (h : c.Orderly toDouble T)
    (hthread : c.thread = .updating) :
    Ends (Client.Orderly toDouble T) (c.ioStep toDouble) := by
  by_cases hout : c.io = .outside
  · rw [Client.ioStep, hout]
    exact enter_orderly h hout hthread
  have hgreeted := h.greeted hout
  have hsupplied := h.supplied
  cases hio : c.io with
  | outside => exact absurd hio hout
  | reads => exact reads_orderly h hio
  | exchange =>
      rw [hio] at hsupplied
      have hmove : ∀ place : IoPlace, place.sender = .outside →
          place ≠ .reads → place.copied? = none →
            Client.Orderly toDouble T { c.withStatics
              { c.Instance.context with UpdatePresence := false } with
                io := place } := by
        intro place hsender hreads hnone
        refine h.move hout (r := { c.Instance with context := _ })
          h.conversing rfl hgreeted (fun he => absurd he hreads) ?_ ?_
        · rw [hsender]
          exact { hsupplied with }
        · rw [hnone]
          nofun
      rw [Client.ioStep, hio]
      simp only
      split
      · exact hmove .taken rfl (by rintro ⟨⟩) rfl
      · exact hmove .sends rfl (by rintro ⟨⟩) rfl
  | taken =>
      rw [hio] at hsupplied
      rw [Client.ioStep, hio]
      refine h.move hout (r := c.Instance) h.conversing rfl hgreeted nofun
        hsupplied ?_
      rintro message ⟨⟩
      exact hsupplied.presence
  | holding message =>
      have hcopied := h.copied message (by rw [hio]; rfl)
      have hwrite := write_orderly h hout hcopied
      rw [hio] at hwrite
      rw [Client.ioStep, hio]
      apply hwrite.bind
      rintro ⟨ok, rpc⟩ ⟨hconversing, happId, hgreeted', hsupplied'⟩
      cases ok with
      | true =>
          exact h.move hout hconversing happId hgreeted' nofun hsupplied' nofun
      | false =>
          refine h.move hout hconversing happId hgreeted' nofun hsupplied' ?_
          rintro _ ⟨⟩
          exact hcopied
  | failed message =>
      have hcopied := h.copied message (by rw [hio]; rfl)
      rw [hio] at hsupplied
      rw [Client.ioStep, hio]
      exact h.move hout (r := { c.Instance with context := _ }) h.conversing
        rfl hgreeted nofun { hsupplied with presence := hcopied } nofun
  | sends =>
      rw [hio] at hsupplied
      rw [Client.ioStep, hio]
      simp only
      split
      · rename_i hpending
        exact h.move hout (r := { c.Instance with context := _ })
          h.conversing rfl hgreeted nofun
          { hsupplied with
            queue := hsupplied.queue.take messageQueueSize_dvd
              messageQueueSize_lt hpending } nofun
      · exact h.move hout (r := c.Instance) h.conversing rfl hgreeted nofun
          hsupplied nofun
  | sending i =>
      have hqueue := h.supplied.queue
      rw [hio] at hqueue
      have hwrite := write_orderly h hout hqueue.read
      rw [hio] at hwrite
      rw [Client.ioStep, hio]
      apply hwrite.bind
      rintro ⟨ok, rpc⟩ ⟨hconversing, happId, hgreeted', hsupplied'⟩
      exact h.move hout hconversing happId hgreeted' nofun hsupplied' nofun
  | sent i =>
      rw [hio] at hsupplied
      rw [Client.ioStep, hio]
      exact h.move hout (r := { c.Instance with context := _ }) h.conversing
        rfl hgreeted nofun
        { hsupplied with
          queue := hsupplied.queue.send messageQueueSize_dvd
            messageQueueSize_lt } nofun

/-- Between two rounds only the place of the thread changes. -/
theorem Client.Orderly.between (h : c.Orderly toDouble T)
    (hio : c.io = .outside) (thread : ThreadPlace) :
    ({ c with thread := thread } : Client).Orderly toDouble T :=
  { h with round := fun _ => hio }

/-- **One step of the I/O thread.** -/
theorem threadStep_orderly (h : c.Orderly toDouble T) :
    Ends (Client.Orderly toDouble T) (c.threadStep toDouble) := by
  rw [Client.threadStep]
  split
  · exact h
  · rename_i hthread
    apply (ioStep_orderly h hthread).bind
    intro c₁ h₁
    show Client.Orderly toDouble T (ite _ _ _)
    split
    · rename_i hio
      exact h₁.between hio _
    · exact h₁
  · rename_i hthread
    exact h.between (h.round (by rw [hthread]; rintro ⟨⟩)) _
  · rename_i hthread
    exact h.between (h.round (by rw [hthread]; rintro ⟨⟩)) _

/-- Without a connection another application may be named. -/
theorem initialize_orderly (h : c.Orderly toDouble T)
    {applicationId : List UInt8} {handlers : Option DiscordEventHandlers}
    {pid : Int32}
    (hsaid : (Client.GameCall.initialize_ applicationId handlers pid).Says T)
    (habsent : c.Connection = false) :
    (c.initialize_ applicationId handlers pid).Orderly toDouble T := by
  obtain ⟨hnamed, hpid, hasks⟩ := hsaid
  obtain ⟨hio, hstate⟩ := h.absent habsent
  have hqueued : Asks T.Command (handlers.getD {}) := by
    cases handlers with
    | none => exact asks_none _
    | some new => exact hasks new rfl
  have hshut : Shut T.Named (rulesOf toDouble T c.Instance)
      c.Instance.connection := by
    rcases h.conversing with ⟨-, hshut⟩ | ⟨hsent, -⟩ | ⟨hconn, -⟩
    · exact hshut
    · rw [hstate] at hsent
      cases hsent
    · rw [hstate] at hconn
      cases hconn
  rw [Client.initialize_]
  simp only
  rw [if_neg (by
    show ¬ c.Connection = true
    rw [habsent]
    exact Bool.false_ne_true)]
  exact
    { conversing := Or.inl ⟨hstate, hshut.isOpen, hshut.pipe, hshut.past⟩
      greeted := h.greeted
      reading := h.reading
      supplied :=
        ⟨h.supplied.presence, h.supplied.queue, asks_none _, hqueued, hpid⟩
      copied := h.copied
      named := fun _ => hnamed
      absent := nofun
      round := fun hne => absurd rfl hne }

/-- **One call of the game.** -/
theorem gameStep_orderly (h : c.Orderly toDouble T) {call : Client.GameCall}
    (hsaid : call.Says T) (hallowed : call.allowed c = true) :
    Ends (Client.Orderly toDouble T) (c.gameStep call) := by
  cases call with
  | initialize_ applicationId handlers pid =>
      exact initialize_orderly h hsaid (by
        simpa [Client.GameCall.allowed] using hallowed)
  | shutdown =>
      rw [Client.gameStep, Client.shutdown]
      split
      · exact h
      · exact
          { h with
            supplied :=
              ⟨Or.inl rfl, h.supplied.queue, asks_none _,
                h.supplied.queuedHandlers, h.supplied.pid⟩ }
  | updatePresence presence =>
      rw [Client.gameStep]
      apply (h.supplied.updatePresence hsaid).bind
      intro s hs
      exact h.withStatics hs
  | respond userId reply =>
      rw [Client.gameStep]
      split
      · exact h
      · apply (h.supplied.enqueue fun nonce text htext =>
          Or.inr ⟨_, hsaid nonce, htext⟩).bind
        intro s hs
        exact h.withStatics hs
  | runCallbacks =>
      rw [Client.gameStep]
      split
      · exact h
      · have hs := h.supplied.untouched
          (untouched_runCallbacks c.Instance.context c.Instance.isOpen)
        exact { h with supplied := hs }
  | updateHandlers newHandlers =>
      rw [Client.gameStep]
      apply (h.supplied.updateHandlers hsaid).bind
      intro s hs
      exact h.withStatics hs

theorem destroy_orderly (h : c.Orderly toDouble T) (hio : c.io = .outside) :
    Client.Orderly toDouble T (c.destroy δ) where
  conversing := destroy_conversing h.conversing
  greeted := fun hne => absurd hio hne
  reading := fun hreads => by
    rw [show c.io = .reads from hreads] at hio
    cases hio
  supplied := close_keeps (callbacks_keep c _).disconnect h.supplied
  copied := h.copied
  named := nofun
  absent := fun _ => ⟨hio, rfl⟩
  round := fun _ => hio

theorem step_orderly (h : c.Orderly toDouble T) {e : ClientEvent}
    (hsaid : e.Says T) : ∀ r ∈ c.step toDouble e,
      Ends (Client.Orderly toDouble T) r := by
  intro r hr
  cases e with
  | io =>
      cases hr
      exact threadStep_orderly h
  | game call =>
      rw [Client.step] at hr
      split at hr
      · rename_i hguard
        cases hr
        exact gameStep_orderly h hsaid (Bool.and_eq_true_iff.mp hguard).2
      · cases hr
  | join =>
      rw [Client.step] at hr
      split at hr
      · rename_i hjoined
        cases hr
        have hended : c.thread = .ended :=
          of_decide_eq_true (Bool.and_eq_true_iff.mp hjoined).2
        exact destroy_orderly h (h.round (by rw [hended]; rintro ⟨⟩))
      · cases hr

theorem step_eq {e : ClientEvent} {r : Client × Unit}
    (h : (client toDouble c).step c e = some r) :
    c.step toDouble e = some (.ok r.1) := by
  rw [client] at h
  simp only at h
  split at h
  · rename_i hstep
    cases h
    exact hstep
  · cases h

end Steps

end AWRPC
