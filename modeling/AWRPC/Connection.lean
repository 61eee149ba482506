import AWRPC.Lib.Framing
import AWRPC.Document
import AWRPC.Serialization
import Mathlib.Algebra.GroupWithZero.Nat

/-!
# The connection

`discord/src/connection_win.cpp` and `discord/src/rpc_connection.cpp`: the pipe
to Discord and the frames that go over it. Whatever the system decides is an
answer taken from a list; behind the end of a list nothing more arrives or fails,
and a pipe that is asked for is not yet there. A pipe remembers what went through
it, for the statements only.
-/

namespace AWRPC

open Bytes Framing

/-! ## §1  `connection_win.cpp` -/

/-- `CreateFileW`, and `WaitNamedPipeW` where the pipe is busy. -/
inductive CreateFileAnswer where
  | opened
  | notFound
  | busy (free : Bool)
  | failed
deriving DecidableEq

/-- One `BaseConnection::Read`: what has arrived since the last one, and whether
`PeekNamedPipe` and `ReadFile` succeed. -/
structure ReadAnswer where
  arrived : List UInt8 := []
  peeked : Bool := true
  transferred : Bool := true
deriving DecidableEq

/-- `WriteFile`; where it falls short, after `bytesWritten` bytes. -/
inductive WriteAnswer where
  | complete
  | short (bytesWritten : ℕ)
deriving DecidableEq

structure Answers where
  creates : List CreateFileAnswer := []
  reads : List ReadAnswer := []
  writes : List WriteAnswer := []
deriving DecidableEq

/-- What went through a pipe in one call. -/
inductive Transfer where
  | took (bytes : List UInt8)
  | wrote (bytes : List UInt8)
  | cut (bytes : List UInt8)
deriving DecidableEq

structure Pipe where
  digit : UInt8
  received : List UInt8 := []
  log : List Transfer := []
deriving DecidableEq

/-- `INVALID_HANDLE_VALUE` is `none`; `past` holds the pipes that were closed. -/
structure BaseConnection where
  isOpen : Bool := false
  pipe : Option Pipe := none
  answers : Answers := {}
  past : List Pipe := []
deriving DecidableEq

namespace BaseConnection

/-- The loop of `Open`, at a digit of the pipe's name, one answer for each try. A
pipe that was busy and has become free is asked for again, however often that is;
where the answers end, `Open` has not returned. -/
def createPipe : List CreateFileAnswer → UInt8 →
    Except Fault (Option UInt8 × List CreateFileAnswer)
  | [], _ => .error .busy
  | .opened :: creates, digit => .ok (some digit, creates)
  | .notFound :: creates, digit =>
      if digit < 57 then createPipe creates (digit + 1) else .ok (none, creates)
  | .busy free :: creates, digit =>
      if free then createPipe creates digit else .ok (none, creates)
  | .failed :: creates, _ => .ok (none, creates)

def open_ (c : BaseConnection) : Except Fault (Bool × BaseConnection) := do
  let r ← createPipe c.answers.creates 48
  let c := { c with answers := { c.answers with creates := r.2 } }
  match r.1 with
  | some digit =>
      .ok (true, { c with isOpen := true, pipe := some ⟨digit, [], []⟩ })
  | none => .ok (false, { c with pipe := none })

def close (c : BaseConnection) : BaseConnection :=
  { c with isOpen := false, pipe := none, past := c.past ++ c.pipe.toList }

def write (c : BaseConnection) (data : List UInt8) : Bool × BaseConnection :=
  if data = [] then (true, c)
  else
    match c.pipe with
    | none => (false, c)
    | some pipe =>
        let answer := c.answers.writes.headD .complete
        let c :=
          { c with answers := { c.answers with writes := c.answers.writes.tail } }
        match answer with
        | .complete =>
            (true, { c with
              pipe := some { pipe with log := pipe.log ++ [.wrote data] } })
        | .short n =>
            (false, { c with
              pipe := some { pipe with log := pipe.log ++ [.cut (data.take n)] } })

/-- `length` bytes, where there are so many. -/
def read (c : BaseConnection) (length : ℕ) :
    Option (List UInt8) × BaseConnection :=
  match c.pipe with
  | none => (none, c)
  | some pipe =>
      let answer := c.answers.reads.headD {}
      let c := { c with answers := { c.answers with reads := c.answers.reads.tail } }
      let pipe := { pipe with received := pipe.received ++ answer.arrived }
      let c := { c with pipe := some pipe }
      if answer.peeked then
        if length ≤ pipe.received.length then
          if answer.transferred then
            let data := pipe.received.take length
            (some data, { c with
              pipe := some
                { pipe with
                  received := pipe.received.drop length
                  log := pipe.log ++ [.took data] } })
          else (none, c.close)
        else (none, c)
      else (none, c.close)

/-- The bytes that can still be read. -/
def toCome (c : BaseConnection) : ℕ :=
  match c.pipe with
  | none => 0
  | some pipe =>
      pipe.received.length + (c.answers.reads.map (·.arrived.length)).sum

end BaseConnection

/-! ## §2  `rpc_connection.h` -/

namespace RpcConnection

def MaxRpcFrameSize : ℕ := 64 * 1024

/-- `sizeof(MessageFrame::message)` -/
def MaxMessage : ℕ := MaxRpcFrameSize - 8

namespace ErrorCode

abbrev PipeClosed : Int32 := 1
abbrev ReadCorrupt : Int32 := 2

end ErrorCode

namespace Opcode

abbrev Handshake : UInt32 := 0
abbrev Frame : UInt32 := 1
abbrev Close : UInt32 := 2
abbrev Ping : UInt32 := 3
abbrev Pong : UInt32 := 4

end Opcode

inductive State where
  | Disconnected | SentHandshake | AwaitingResponse | Connected
deriving DecidableEq

end RpcConnection

open RpcConnection

/-- `context` is what the callbacks work on. -/
structure RpcConnection (σ : Type) where
  connection : BaseConnection := {}
  state : State := .Disconnected
  appId : CStr 64 := ⟨[], by decide⟩
  lastErrorCode : Int32 := 0
  lastErrorMessage : CStr 256 := ⟨[], by decide⟩
  context : σ

/-- `onConnect` and `onDisconnect`, where they are not null. -/
structure Callbacks (δ σ : Type) where
  onConnect : Option (JsonDocument δ → σ → Except Fault σ)
  onDisconnect : Option (Int32 → List UInt8 → σ → σ)

/-! ## §3  `rpc_connection.cpp` -/

namespace RpcConnection

variable {δ σ : Type}

def RpcVersion : Int32 := 1

def create (applicationId : List UInt8) (c : RpcConnection σ) : RpcConnection σ :=
  { c with appId := stringCopy c.appId (some applicationId) }

def isOpen (c : RpcConnection σ) : Bool := c.state = .Connected

def setError (c : RpcConnection σ) (code : Int32) (message : List UInt8) :
    RpcConnection σ :=
  { c with
    lastErrorCode := code
    lastErrorMessage := stringCopy c.lastErrorMessage (some message) }

variable (callbacks : Callbacks δ σ) (toDouble : List UInt8 → Option δ)

def close (c : RpcConnection σ) : RpcConnection σ :=
  let context :=
    match callbacks.onDisconnect with
    | some onDisconnect =>
        if c.state = .Connected ∨ c.state = .SentHandshake then
          onDisconnect c.lastErrorCode c.lastErrorMessage.val c.context
        else c.context
    | none => c.context
  { c with
    context := context
    connection := c.connection.close
    state := .Disconnected }

def destroy (c : RpcConnection σ) : RpcConnection σ :=
  let c := c.close callbacks
  { c with connection := c.connection.close }

def write (c : RpcConnection σ) (data : List UInt8) :
    Except Fault (Bool × RpcConnection σ) :=
  if MaxMessage < data.length then .error .overrun
  else
    let r := c.connection.write (Frame.mk Opcode.Frame data).encode
    let c := { c with connection := r.2 }
    if r.1 then .ok (true, c) else .ok (false, c.close callbacks)

/-- `readFrame.message` with a payload put in and ended by a NUL. -/
def putMessage (message payload : List UInt8) : List UInt8 :=
  payload ++ 0 :: message.drop (payload.length + 1)

/-- The message in `readFrame`; before anything is put there it is no text. -/
def parseMessage (message : List UInt8) : Except Fault (JsonDocument δ) :=
  if message = [] then .error .indeterminate
  else JsonDocument.parseInsitu toDouble message

/-- The payload behind a header: `none` where there is too little. -/
def readPayload (c : BaseConnection) (length : ℕ) :
    Option (List UInt8) × BaseConnection :=
  if 0 < length then c.read length else (some [], c)

/-- How a round of the loop in `Read` ends: with `return`, or with the next
round; `message` is what `readFrame.message` holds then. -/
inductive Round (δ σ : Type) where
  | done (document : Option (JsonDocument δ)) (c : RpcConnection σ)
  | again (message : List UInt8) (c : RpcConnection σ)

/-- The switch over the opcode. -/
def handleFrame (opcode : UInt32) (payload message : List UInt8)
    (c : RpcConnection σ) : Except Fault (Round δ σ) :=
  if opcode = Opcode.Close then do
    let document ← parseMessage toDouble message
    let code ← getIntMember document.strings (some document.value) (lit "code") 0
    let text ← getStrMember document.strings (some document.value)
      (lit "message") (some [])
    .ok (.done none ((c.setError code (text.getD [])).close callbacks))
  else if opcode = Opcode.Frame then do
    let document ← parseMessage toDouble message
    .ok (.done (some document) c)
  else if opcode = Opcode.Ping then
    let r := c.connection.write (Frame.mk Opcode.Pong payload).encode
    let c := { c with connection := r.2 }
    .ok (.again message (if r.1 then c else c.close callbacks))
  else if opcode = Opcode.Pong then .ok (.again message c)
  else
    .ok (.done none
      ((c.setError ErrorCode.ReadCorrupt (lit "Bad ipc frame")).close callbacks))

/-- A round of the loop. -/
def readFrame (message : List UInt8) (c : RpcConnection σ) :
    Except Fault (Round δ σ) :=
  let r := c.connection.read 8
  let c := { c with connection := r.2 }
  match r.1 with
  | none =>
      if c.connection.isOpen then .ok (.done none c)
      else
        .ok (.done none
          ((c.setError ErrorCode.PipeClosed (lit "Pipe closed")).close callbacks))
  | some header =>
      let length := lengthOf header
      let r := readPayload c.connection length
      let c := { c with connection := r.2 }
      match r.1 with
      | none =>
          .ok (.done none
            ((c.setError ErrorCode.ReadCorrupt
              (lit "Partial data in frame")).close callbacks))
      | some payload =>
          if MaxMessage ≤ length then .error .overrun
          else
            handleFrame callbacks toDouble (tagOf header) payload
              (if 0 < length then putMessage message payload else message) c

def readLoop : ℕ → List UInt8 → RpcConnection σ →
    Except Fault (Option (JsonDocument δ) × RpcConnection σ)
  | 0, _, _ => .error .fuel
  | fuel + 1, message, c => do
      match ← readFrame callbacks toDouble message c with
      | .done document c => .ok (document, c)
      | .again message c => readLoop fuel message c

/-- The strings of a message that is returned lie in `readFrame`, a variable of
`Read` that is gone by then. They are taken to be still as they were when they are
looked at, as the stack happens to have them. -/
def read (c : RpcConnection σ) :
    Except Fault (Option (JsonDocument δ) × RpcConnection σ) :=
  if c.state ≠ .Connected ∧ c.state ≠ .SentHandshake then .ok (none, c)
  else readLoop callbacks toDouble (c.connection.toCome + 1) [] c

/-- What `Open` looks for in a message. -/
def isReady {τ : Type} (strings : StringViews τ) (message : Value δ τ) :
    Except Fault Bool := do
  let cmd ← getStrMember strings (some message) (lit "cmd") none
  let evt ← getStrMember strings (some message) (lit "evt") none
  return cmd = some (lit "DISPATCH") && evt = some (lit "READY")

/-- `Open` while the handshake is not answered. -/
def awaitReady (c : RpcConnection σ) : Except Fault (RpcConnection σ) := do
  let r ← c.read callbacks toDouble
  let c := r.2
  match r.1 with
  | none => .ok c
  | some message =>
      if ← isReady message.strings message.value then
        let c := { c with state := .Connected }
        match callbacks.onConnect with
        | some onConnect =>
            let context ← onConnect message c.context
            .ok { c with context := context }
        | none => .ok c
      else .ok c

/-- `Open` over a new pipe. -/
def sendHandshake (c : RpcConnection σ) : Except Fault (RpcConnection σ) :=
  match jsonWriteHandshakeObj MaxMessage RpcVersion c.appId.val with
  | none => .error .assertion
  | some message =>
      let r := c.connection.write (Frame.mk Opcode.Handshake message).encode
      let c := { c with connection := r.2 }
      if r.1 then .ok { c with state := .SentHandshake }
      else .ok (c.close callbacks)

/-- What `Open` has for a pipe: a new one where the connection is closed. -/
def openPipe (c : RpcConnection σ) : Except Fault (Bool × BaseConnection) :=
  if c.state = .Disconnected then c.connection.open_ else .ok (true, c.connection)

def open_ (c : RpcConnection σ) : Except Fault (RpcConnection σ) :=
  if c.state = .Connected then .ok c
  else do
    let r ← c.openPipe
    let c := { c with connection := r.2 }
    if !r.1 then .ok c
    else if c.state = .SentHandshake then c.awaitReady callbacks toDouble
    else c.sendHandshake callbacks

end RpcConnection

end AWRPC
