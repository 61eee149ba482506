import AWRPC.ClientPipes
import AWRPC.Signals

/-!
# What the client tells the game

A call of `Discord_RunCallbacks` is the accesses of `Signals.gameStep` with nothing
in between, and whatever `Connection` and its callbacks do is steps of
`Signals.ioStep`. The client therefore keeps the invariant of `Signals` from the
first connection on, and the handlers of a game that gives all six are called
between `ready` and `disconnected`.
-/

namespace AWRPC

open Bytes RpcConnection MsgQueue

variable {δ : Type} {toDouble : List UInt8 → Option δ}

/-! ## §1  `Discord_RunCallbacks` -/

def HandlerCall.kind : HandlerCall → Call
  | .ready _ => .ready
  | .disconnected _ _ => .disconnected
  | .errored _ _ => .signal .errored
  | .joinGame _ => .signal .joinGame
  | .spectateGame _ => .signal .spectateGame
  | .joinRequest _ => .joinRequest

def DiscordEventHandlers.all : DiscordEventHandlers :=
  ⟨true, true, true, true, true, true⟩

def Statics.raised (s : Statics) : Signal → Bool
  | .errored => s.GotErrorMessage
  | .joinGame => s.WasJoinGame
  | .spectateGame => s.WasSpectateGame

/-- The flags while neither thread is under way. -/
def Statics.signals (s : Statics) (isOpen : Bool) (calls : List HandlerCall) :
    Signals where
  isOpen := isOpen
  WasJustConnected := s.WasJustConnected
  WasJustDisconnected := s.WasJustDisconnected
  raised := s.raised
  requests := s.JoinAskQueue.pendingSends_.toNat
  calls := calls.map HandlerCall.kind

section RunCallbacks

variable {s : Statics}

end RunCallbacks

/-! ## §2  The I/O thread -/

/-- What the game has been told, and what it will be, is in order: from
`Initialize` to the first connection no handler is there. -/
structure Telling (hooked isOpen : Bool) (calls : List HandlerCall) (s : Statics) :
    Prop where
  bookEnded : BookEnded (calls.map HandlerCall.kind)
  handlers : s.Handlers = {} ∨
    s.Handlers = .all ∧ (s.signals isOpen calls).Orderly
  unhooked : hooked = false → s.Handlers = {}
  queued : hooked = true → s.QueuedHandlers = .all
  opened : hooked = true → isOpen = true → s.Handlers = .all

section Telling

variable {hooked isOpen : Bool} {calls : List HandlerCall} {s s' : Statics}

/-- What leaves the handlers alone has to leave the flags in order. -/
theorem Telling.moved (h : Telling hooked isOpen calls s)
    (hhandlers : s'.Handlers = s.Handlers)
    (hqueued : s'.QueuedHandlers = s.QueuedHandlers)
    (hmoved : (s.signals isOpen calls).Orderly →
      (s'.signals isOpen calls).Orderly) :
    Telling hooked isOpen calls s' := by
  refine ⟨h.bookEnded, ?_, ?_, ?_, ?_⟩
  · rw [hhandlers]
    rcases h.handlers with hnone | ⟨hall, horderly⟩
    · exact Or.inl hnone
    · exact Or.inr ⟨hall, hmoved horderly⟩
  · rw [hhandlers]
    exact h.unhooked
  · rw [hqueued]
    exact h.queued
  · rw [hhandlers]
    exact h.opened

theorem Telling.restocked (h : Telling hooked isOpen calls s)
    (hstock : Restocked s s') : Telling hooked isOpen calls s' := by
  cases hstock with
  | _ => exact h.moved rfl rfl id

/-- `onDisconnect`, and the state behind it. -/
theorem Telling.onDisconnect (h : Telling true isOpen calls s) (err : Int32)
    (message : List UInt8) :
    Telling true false calls (s.onDisconnect err message) := by
  refine ⟨h.bookEnded, ?_, nofun, h.queued, nofun⟩
  rcases h.handlers with hnone | ⟨hall, horderly⟩
  · exact Or.inl hnone
  · have hclosing := Signals.ioStep_orderly horderly .disconnect trivial rfl
    exact Or.inr ⟨hall,
      Signals.ioStep_orderly hclosing .closed trivial rfl⟩

/-- What is not open has not been told of. -/
theorem Telling.shut (h : Telling hooked isOpen calls s)
    (hshut : isOpen = false ∨ hooked = false) :
    Telling hooked false calls s := by
  rcases hshut with rfl | rfl
  · exact h
  · exact ⟨h.bookEnded, Or.inl (h.unhooked rfl), h.unhooked, nofun, nofun⟩

/-- Commands leave the handlers alone. -/
theorem handleEventRegistration_handlers (s : Statics) (old new : Bool)
    (event : List UInt8) :
    Gives (fun s' => s'.QueuedHandlers = s.QueuedHandlers)
      (s.handleEventRegistration old new event) := by
  have henqueue : ∀ write, Gives (fun s' => s'.QueuedHandlers = s.QueuedHandlers)
      (s.enqueue write) := by
    intro write
    rw [Statics.enqueue]
    split
    · rfl
    · split
      · trivial
      · rfl
  rw [Statics.handleEventRegistration]
  split
  · exact henqueue _
  split
  · exact henqueue _
  · rfl

theorem updateHandlers_handlers (s : Statics) (new : DiscordEventHandlers) :
    Gives (fun s' => s'.Handlers = new ∧ s'.QueuedHandlers = s.QueuedHandlers)
      (s.updateHandlers (some new)) := by
  apply (handleEventRegistration_handlers s _ _ _).bind
  intro s₁ h₁
  apply (handleEventRegistration_handlers s₁ _ _ _).bind
  intro s₂ h₂
  apply (handleEventRegistration_handlers s₂ _ _ _).bind
  intro s₃ h₃
  exact ⟨rfl, h₃.trans (h₂.trans h₁)⟩

/-- `onConnect` puts the handlers there, and has the game told of the connection. -/
theorem Telling.onConnect (h : Telling true isOpen calls s)
    (readyMessage : JsonDocument δ) :
    Gives (Telling true true calls) (s.onConnect readyMessage) := by
  apply (updateHandlers_handlers s s.QueuedHandlers).bind
  rintro s₁ ⟨hhandlers, hqueued⟩
  apply (gives_true _).bind
  intro data _
  apply (gives_true _).bind
  intro user _
  apply (gives_true _).bind
  intro connectedUser _
  rw [requeuePresence_eq]
  have hall := hhandlers.trans (h.queued rfl)
  exact ⟨h.bookEnded,
    Or.inr ⟨hall, Signals.connected_orderly h.bookEnded rfl ⟨rfl, rfl⟩ rfl⟩, nofun,
    fun _ => hqueued.trans (h.queued rfl), fun _ _ => hall⟩

end Telling

/-! ## §3  The connection -/

section Connection

variable {calls : List HandlerCall} (k : Client) {c : RpcConnection Statics}

end Connection

/-! ## §4  The client -/

section Client

variable {T : Terms} {c c' : Client}

end Client

end AWRPC
