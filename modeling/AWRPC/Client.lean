import AWRPC.Commands
import AWRPC.Connection
import AWRPC.MsgQueue

/-!
# The client

`discord/src/discord_rpc.cpp` and `discord/src/backoff.h`: the variables that the
I/O thread and the game share, the callbacks of the connection, what becomes of a
message, the loop of the I/O thread, and the functions of the interface. The time,
the random numbers and what the system does are answers taken from lists; a message
that is sent is the list of its bytes.
-/

namespace AWRPC

open Bytes RpcConnection

/-! ## §1  `backoff.h` -/

structure Backoff where
  minAmount : ℤ
  maxAmount : ℤ
  current : ℤ
  fails : Int32 := 0
deriving DecidableEq

namespace Backoff

def new (min max : ℤ) : Backoff := { minAmount := min, maxAmount := max, current := min }

def reset (b : Backoff) : Backoff := { b with fails := 0, current := b.minAmount }

/-- `delay` is the product with the random number. -/
def nextDelay (b : Backoff) (delay : ℤ) : ℤ × Backoff :=
  let b := { b with fails := b.fails + 1, current := min (b.current + delay) b.maxAmount }
  (b.current, b)

end Backoff

/-! ## §2  The variables -/

def MessageQueueSize : ℕ := 8

def JoinQueueSize : ℕ := 8

instance : NeZero MessageQueueSize := ⟨by decide⟩

instance : NeZero JoinQueueSize := ⟨by decide⟩

structure User where
  userId : CStr 32 := ⟨[], by decide⟩
  username : CStr 344 := ⟨[], by decide⟩
  discriminator : CStr 8 := ⟨[], by decide⟩
  avatar : CStr 128 := ⟨[], by decide⟩
deriving DecidableEq

/-- Which of the function pointers are not null. -/
structure DiscordEventHandlers where
  ready : Bool := false
  disconnected : Bool := false
  errored : Bool := false
  joinGame : Bool := false
  spectateGame : Bool := false
  joinRequest : Bool := false
deriving DecidableEq

/-- The calls of the handlers. -/
inductive HandlerCall where
  | ready (request : User)
  | disconnected (errorCode : Int32) (message : List UInt8)
  | errored (errorCode : Int32) (message : List UInt8)
  | joinGame (joinSecret : List UInt8)
  | spectateGame (spectateSecret : List UInt8)
  | joinRequest (request : User)
deriving DecidableEq

structure Statics where
  QueuedHandlers : DiscordEventHandlers := {}
  Handlers : DiscordEventHandlers := {}
  WasJustConnected : Bool := false
  WasJustDisconnected : Bool := false
  GotErrorMessage : Bool := false
  WasJoinGame : Bool := false
  WasSpectateGame : Bool := false
  UpdatePresence : Bool := false
  JoinGameSecret : CStr 256 := ⟨[], by decide⟩
  SpectateGameSecret : CStr 256 := ⟨[], by decide⟩
  LastErrorCode : Int32 := 0
  LastErrorMessage : CStr 256 := ⟨[], by decide⟩
  LastDisconnectErrorCode : Int32 := 0
  LastDisconnectErrorMessage : CStr 256 := ⟨[], by decide⟩
  QueuedPresence : List UInt8 := []
  SendQueue : MsgQueue (List UInt8) MessageQueueSize := { queue_ := fun _ => [] }
  JoinAskQueue : MsgQueue User JoinQueueSize := { queue_ := fun _ => {} }
  connectedUser : User := {}
  ReconnectTimeMs : Backoff := .new 500 (60 * 1000)
  NextConnect : ℤ := 0
  Pid : Int32 := 0
  Nonce : Int32 := 1
  clock : List ℤ := []
  delays : List ℤ := []

namespace Statics

/-- `system_clock::now()` -/
def now (s : Statics) : ℤ × Statics :=
  (s.clock.headD 0, { s with clock := s.clock.tail })

def updateReconnectTime (s : Statics) : Statics :=
  let r := s.now
  let s := r.2
  let delay := s.ReconnectTimeMs.nextDelay (s.delays.headD 0)
  { s with
    delays := s.delays.tail
    ReconnectTimeMs := delay.2
    NextConnect := r.1 + delay.1 }

/-! ## §3  Commands -/

/-- A command is put into `SendQueue`, with the next nonce, where there is room;
`none` is a command that cannot be written. The accesses to the queue are one step
here: no other thread adds a command between them. The handlers are updated under
a mutex, but `Discord_Respond` takes none, so that of the source this says nothing
where the game replies while `onConnect` runs. -/
def enqueue (s : Statics) (write : Int32 → Option (List UInt8)) :
    Except Fault Statics :=
  let r := s.SendQueue.getNextAddMessage
  match r.1 with
  | none => .ok s
  | some i =>
      match write s.Nonce with
      | none => .error .assertion
      | some message =>
          .ok
            { s with
              SendQueue := (r.2.put i message).commitAdd
              Nonce := s.Nonce + 1 }

def registerForEvent (s : Statics) (evtName : List UInt8) :
    Except Fault Statics :=
  s.enqueue fun nonce => jsonWriteSubscribeCommand MaxMessageSize nonce evtName

def deregisterForEvent (s : Statics) (evtName : List UInt8) :
    Except Fault Statics :=
  s.enqueue fun nonce => jsonWriteUnsubscribeCommand MaxMessageSize nonce evtName

/-- `HANDLE_EVENT_REGISTRATION` -/
def handleEventRegistration (s : Statics) (old new : Bool)
    (event : List UInt8) : Except Fault Statics :=
  if !old && new then s.registerForEvent event
  else if old && !new then s.deregisterForEvent event
  else .ok s

def updateHandlers (s : Statics) (newHandlers : Option DiscordEventHandlers) :
    Except Fault Statics :=
  match newHandlers with
  | some new => do
      let old := s.Handlers
      let s ← s.handleEventRegistration old.joinGame new.joinGame
        (lit "ACTIVITY_JOIN")
      let s ← s.handleEventRegistration old.spectateGame new.spectateGame
        (lit "ACTIVITY_SPECTATE")
      let s ← s.handleEventRegistration old.joinRequest new.joinRequest
        (lit "ACTIVITY_JOIN_REQUEST")
      .ok { s with Handlers := new }
  | none => .ok { s with Handlers := {} }

def updatePresence (s : Statics) (presence : Option DiscordRichPresence) :
    Except Fault Statics :=
  match jsonWriteRichPresenceObj MaxMessageSize s.Nonce s.Pid presence with
  | none => .error .assertion
  | some message =>
      .ok
        { s with
          QueuedPresence := message
          Nonce := s.Nonce + 1
          UpdatePresence := true }

end Statics

/-! ## §4  Messages -/

section Messages

variable {δ : Type}

/-- The user in a message is copied out, where an id and a name are there; what
has no discriminator keeps the one that `dest` had. -/
def copyUser (strings : StringViews (ℕ × ℕ))
    (user : Option (Value δ (ℕ × ℕ)))
    (userId username : List UInt8) (avatar : Option (List UInt8)) (dest : User) :
    Except Fault User := do
  let discriminator ← getStrMember strings user (lit "discriminator") none
  .ok
    { userId := stringCopy dest.userId (some userId)
      username := stringCopy dest.username (some username)
      discriminator := stringCopy dest.discriminator discriminator
      avatar := stringCopy dest.avatar (some (avatar.getD [])) }

/-- The user that READY names takes the place of `dest`, where it has an id and a
name. -/
def connectedUserOf (strings : StringViews (ℕ × ℕ))
    (user : Option (Value δ (ℕ × ℕ))) (dest : User) : Except Fault User := do
  let userId ← getStrMember strings user (lit "id") none
  let username ← getStrMember strings user (lit "username") none
  let avatar ← getStrMember strings user (lit "avatar") none
  match userId, username with
  | some userId, some username =>
      copyUser strings user userId username avatar dest
  | _, _ => .ok dest

namespace Statics

/-- Over a new connection the presence is sent again. -/
def requeuePresence (s : Statics) : Statics :=
  if 0 < s.QueuedPresence.length then { s with UpdatePresence := true } else s

/-- `Connection->onConnect` -/
def onConnect (readyMessage : JsonDocument δ) (s : Statics) :
    Except Fault Statics := do
  let s ← s.updateHandlers (some s.QueuedHandlers)
  let s := s.requeuePresence
  let strings := readyMessage.strings
  let data ← getObjMember strings (some readyMessage.value) (lit "data")
  let user ← getObjMember strings data (lit "user")
  let connectedUser ← connectedUserOf strings user s.connectedUser
  .ok
    { s with
      connectedUser := connectedUser
      WasJustConnected := true
      ReconnectTimeMs := s.ReconnectTimeMs.reset }

/-- `Connection->onDisconnect` -/
def onDisconnect (err : Int32) (message : List UInt8) (s : Statics) : Statics :=
  updateReconnectTime
    { s with
      LastDisconnectErrorCode := err
      LastDisconnectErrorMessage :=
        stringCopy s.LastDisconnectErrorMessage (some message)
      WasJustDisconnected := true }

/-- A response; only errors are told the game. -/
def response (s : Statics) (message : JsonDocument δ)
    (evtName : Option (List UInt8)) : Except Fault Statics :=
  let strings := message.strings
  if evtName = some (lit "ERROR") then do
    let data ← getObjMember strings (some message.value) (lit "data")
    let code ← getIntMember strings data (lit "code") 0
    let text ← getStrMember strings data (lit "message") (some [])
    .ok
      { s with
        LastErrorCode := code
        LastErrorMessage := stringCopy s.LastErrorMessage text
        GotErrorMessage := true }
  else .ok s

/-- A request to join. The place in the queue is taken before it is known whether
the request is complete. -/
def joinRequest (s : Statics) (message : JsonDocument δ)
    (data : Option (Value δ (ℕ × ℕ))) : Except Fault Statics := do
  let strings := message.strings
  let user ← getObjMember strings data (lit "user")
  let userId ← getStrMember strings user (lit "id") none
  let username ← getStrMember strings user (lit "username") none
  let avatar ← getStrMember strings user (lit "avatar") none
  let r := s.JoinAskQueue.getNextAddMessage
  let s := { s with JoinAskQueue := r.2 }
  match userId, username, r.1 with
  | some userId, some username, some i => do
      let joinReq ← copyUser strings user userId username avatar
        (s.JoinAskQueue.queue_ i)
      .ok { s with JoinAskQueue := (s.JoinAskQueue.put i joinReq).commitAdd }
  | _, _, _ => .ok s

/-- What the loop of reads does with a message. -/
def dispatch (s : Statics) (message : JsonDocument δ) : Except Fault Statics := do
  let strings := message.strings
  let evtName ← getStrMember strings (some message.value) (lit "evt") none
  let nonce ← getStrMember strings (some message.value) (lit "nonce") none
  if nonce.isSome then s.response message evtName
  else
    match evtName with
    | none => .ok s
    | some evtName => do
        let data ← getObjMember strings (some message.value) (lit "data")
        if evtName = lit "ACTIVITY_JOIN" then do
          match ← getStrMember strings data (lit "secret") none with
          | some secret =>
              .ok
                { s with
                  JoinGameSecret := stringCopy s.JoinGameSecret (some secret)
                  WasJoinGame := true }
          | none => .ok s
        else if evtName = lit "ACTIVITY_SPECTATE" then do
          match ← getStrMember strings data (lit "secret") none with
          | some secret =>
              .ok
                { s with
                  SpectateGameSecret :=
                    stringCopy s.SpectateGameSecret (some secret)
                  WasSpectateGame := true }
          | none => .ok s
        else if evtName = lit "ACTIVITY_JOIN_REQUEST" then
          s.joinRequest message data
        else .ok s

end Statics

end Messages

/-! ## §5  `Discord_RunCallbacks` -/

namespace Statics

/-- The loop over the requests to join, `k` of which are pending. -/
def drainRequests : ℕ → Statics → List HandlerCall × Statics
  | 0, s => ([], s)
  | k + 1, s =>
      if s.JoinAskQueue.havePendingSends then
        let r := s.JoinAskQueue.getNextSendMessage
        let req := s.JoinAskQueue.queue_ r.1
        let rest := drainRequests k { s with JoinAskQueue := r.2.commitSend }
        ((if s.Handlers.joinRequest then [.joinRequest req] else []) ++ rest.1,
          rest.2)
      else ([], s)

def runCallbacks (s : Statics) (isConnected : Bool) :
    List HandlerCall × Statics :=
  let wasDisconnected := s.WasJustDisconnected
  let disconnected :=
    if wasDisconnected && s.Handlers.disconnected then
      [HandlerCall.disconnected s.LastDisconnectErrorCode
        s.LastDisconnectErrorMessage.val]
    else []
  let calls :=
    (if isConnected then disconnected else []) ++
    (if s.WasJustConnected && s.Handlers.ready then [.ready s.connectedUser]
      else []) ++
    (if s.GotErrorMessage && s.Handlers.errored then
      [.errored s.LastErrorCode s.LastErrorMessage.val] else []) ++
    (if s.WasJoinGame && s.Handlers.joinGame then
      [.joinGame s.JoinGameSecret.val] else []) ++
    (if s.WasSpectateGame && s.Handlers.spectateGame then
      [.spectateGame s.SpectateGameSecret.val] else [])
  let s :=
    { s with
      WasJustDisconnected := false
      WasJustConnected := false
      GotErrorMessage := false
      WasJoinGame := false
      WasSpectateGame := false }
  let r := drainRequests s.JoinAskQueue.pendingSends_.toNat s
  (calls ++ r.1 ++ (if isConnected then [] else disconnected), r.2)

end Statics

/-! ## §6  The client -/

/-- Where the I/O thread stands in `Discord_UpdateConnection`. -/
inductive IoPlace where
  | outside | reads | exchange | taken
  | holding (message : List UInt8)
  | failed (message : List UInt8)
  | sends
  | sending (i : Fin MessageQueueSize)
  | sent (i : Fin MessageQueueSize)
deriving DecidableEq

/-- Where the thread of `IoThreadHolder` stands: in `Discord_UpdateConnection`,
before it looks at `keepRunning`, or in the wait before the next round, which ends
after half a second if nobody notifies it. -/
inductive ThreadPlace where
  | ended | updating | checking | waiting
deriving DecidableEq

/-- `Instance` is there before `Connection` points to it and after it does;
`joining` is `Discord_Shutdown` waiting for the thread. -/
structure Client where
  Connection : Bool := false
  Instance : RpcConnection Statics := { context := {} }
  hooked : Bool := false
  keepRunning : Bool := false
  thread : ThreadPlace := .ended
  joining : Bool := false
  io : IoPlace := .outside
  calls : List HandlerCall := []

namespace Client

variable {δ : Type}

def callbacks (δ : Type) (c : Client) : Callbacks δ Statics :=
  if c.hooked then ⟨some Statics.onConnect, some Statics.onDisconnect⟩
  else ⟨none, none⟩

def withStatics (c : Client) (s : Statics) : Client :=
  { c with Instance := { c.Instance with context := s } }

/-- `Connection->Open()` -/
def connect (toDouble : List UInt8 → Option δ) (c : Client) :
    Except Fault Client := do
  let rpc ← c.Instance.open_ (c.callbacks δ) toDouble
  .ok { c with Instance := rpc }

/-- The start of `Discord_UpdateConnection`. -/
def enter (toDouble : List UInt8 → Option δ) (c : Client) :
    Except Fault Client :=
  if !c.Connection then .ok c
  else if c.Instance.isOpen then .ok { c with io := .reads }
  else
    let r := c.Instance.context.now
    let c := c.withStatics r.2
    if r.1 ≥ r.2.NextConnect then
      connect toDouble (c.withStatics c.Instance.context.updateReconnectTime)
    else .ok c

/-- `Discord_UpdateConnection`, one access to the shared variables or one call of
the connection at a time. -/
def ioStep (toDouble : List UInt8 → Option δ) (c : Client) :
    Except Fault Client :=
  let s := c.Instance.context
  match c.io with
  | .outside => c.enter toDouble
  | .reads => do
      let r ← c.Instance.read (c.callbacks δ) toDouble
      match r.1 with
      | none => .ok { c with Instance := r.2, io := .exchange }
      | some message =>
          let s ← r.2.context.dispatch message
          .ok (withStatics { c with Instance := r.2 } s)
  | .exchange =>
      let c := c.withStatics { s with UpdatePresence := false }
      if s.UpdatePresence && s.QueuedPresence.length ≠ 0 then
        .ok { c with io := .taken }
      else .ok { c with io := .sends }
  | .taken => .ok { c with io := .holding s.QueuedPresence }
  | .holding message => do
      let r ← c.Instance.write (c.callbacks δ) message
      .ok
        { c with
          Instance := r.2
          io := if r.1 then .sends else .failed message }
  | .failed message =>
      .ok
        { c.withStatics
            { s with QueuedPresence := message, UpdatePresence := true } with
          io := .sends }
  | .sends =>
      if s.SendQueue.havePendingSends then
        let r := s.SendQueue.getNextSendMessage
        .ok { c.withStatics { s with SendQueue := r.2 } with io := .sending r.1 }
      else .ok { c with io := .outside }
  | .sending i => do
      let r ← c.Instance.write (c.callbacks δ) (s.SendQueue.queue_ i)
      .ok { c with Instance := r.2, io := .sent i }
  | .sent _ =>
      .ok
        { c.withStatics { s with SendQueue := s.SendQueue.commitSend } with
          io := .sends }

/-- The loop of `IoThreadHolder::Start`. -/
def threadStep (toDouble : List UInt8 → Option δ) (c : Client) :
    Except Fault Client :=
  match c.thread with
  | .ended => .ok c
  | .updating => do
      let c ← c.ioStep toDouble
      .ok (if c.io = .outside then { c with thread := .checking } else c)
  | .checking =>
      .ok { c with thread := if c.keepRunning then .waiting else .ended }
  | .waiting => .ok { c with thread := .updating }

/-- The calls of the game. -/
inductive GameCall where
  | initialize_ (applicationId : List UInt8)
      (handlers : Option DiscordEventHandlers) (pid : Int32)
  | shutdown
  | updatePresence (presence : Option DiscordRichPresence)
  | respond (userId : List UInt8) (reply : Int32)
  | runCallbacks
  | updateHandlers (newHandlers : Option DiscordEventHandlers)

/-- `Discord_Initialize`; the thread begins with a round. -/
def initialize_ (c : Client) (applicationId : List UInt8)
    (handlers : Option DiscordEventHandlers) (pid : Int32) : Client :=
  let c := c.withStatics
    { c.Instance.context with
      Pid := pid
      QueuedHandlers := handlers.getD {}
      Handlers := {} }
  if c.Connection then c
  else
    { c with
      Connection := true
      Instance := c.Instance.create applicationId
      hooked := true
      keepRunning := true
      thread := .updating }

/-- `Discord_Shutdown`, up to the wait for the thread. -/
def shutdown (c : Client) : Client :=
  if !c.Connection then c
  else
    { c.withStatics
        { c.Instance.context with
          Handlers := {}
          QueuedPresence := []
          UpdatePresence := false } with
      hooked := false
      keepRunning := false
      joining := true }

/-- The rest of `Discord_Shutdown`. -/
def destroy (δ : Type) (c : Client) : Client :=
  { c with
    Connection := false
    Instance := c.Instance.destroy (c.callbacks δ)
    joining := false }

/-- Each call is one step. From its write of `QueuedPresence` to its store of the
flag `Discord_UpdatePresence` holds the mutex without which the I/O thread copies
nothing; where that thread takes the flag down in between, it is up at the end of
the call as if it had been taken down before. (`Link` has the two accesses apart.)
`Discord_RunCallbacks` holds no mutex from its first access to its last: these are
apart in `Signals`. -/
def gameStep (c : Client) : GameCall → Except Fault Client
  | .initialize_ applicationId handlers pid =>
      .ok (c.initialize_ applicationId handlers pid)
  | .shutdown => .ok c.shutdown
  | .updatePresence presence => do
      .ok (c.withStatics (← c.Instance.context.updatePresence presence))
  | .respond userId reply =>
      if !c.Connection || !c.Instance.isOpen then .ok c
      else do
        .ok (c.withStatics (← c.Instance.context.enqueue fun nonce =>
          jsonWriteJoinReply MaxMessageSize userId reply nonce))
  | .runCallbacks =>
      if !c.Connection then .ok c
      else
        let r := c.Instance.context.runCallbacks c.Instance.isOpen
        .ok { c.withStatics r.2 with calls := c.calls ++ r.1 }
  | .updateHandlers newHandlers => do
      .ok (c.withStatics (← c.Instance.context.updateHandlers newHandlers))

end Client

end AWRPC
