import AWRPC.ClientRuns

/-!
# What goes over the pipes of the client

In every run each pipe's conversation is in the name of an application that the
game gave, and of the commands that its calls stand for; where the strings of the
calls are within the limits, Discord reads each as the tree that it was written
from. What is registered is not registered again with the next connection.
-/

namespace AWRPC

open Bytes JsonGrammar Reader RpcConnection MsgQueue

variable {δ : Type} {toDouble : List UInt8 → Option δ}

/-! ## §1  What goes over the pipes -/

/-- The pipes of a client, the open one last. -/
def Client.pipes (c : Client) : List Pipe :=
  c.Instance.connection.past ++ c.Instance.connection.pipe.toList

theorem Client.Orderly.ended {T : Terms} {c : Client}
    (h : c.Orderly toDouble T) : ∀ pipe ∈ c.pipes,
      EndedFor T.Named (rulesOf toDouble T c.Instance) pipe.log := by
  have hbroken := h.conversing.broken
  intro pipe hpipe
  rcases List.mem_append.mp hpipe with hpipe | hpipe
  · exact hbroken.past pipe hpipe
  · exact hbroken.pipe pipe (Option.mem_toList.mp hpipe)

/-- The strings that the game passes are within the limits: those of the interface
for a presence; for the id of a user, for which it states none, 64 bytes. -/
def ClientEvent.Fits : ClientEvent → Prop
  | .game (.updatePresence presence) => ∀ q ∈ presence, q.WithinLimits
  | .game (.respond userId _) => userId.length < 64
  | _ => True

/-- Discord is there, and greets. -/
def greeted : Answers where
  creates := [.opened, .opened]
  reads :=
    [{ arrived := (Framing.Frame.mk Opcode.Frame
        (lit "\x7b\"cmd\":\"DISPATCH\",\"evt\":\"READY\"\x7d")).encode }]

/-- The game connects and sets a presence: four rounds of the thread, with the
steps between them. -/
def greetedEvents (presence : Option DiscordRichPresence) : List ClientEvent :=
  .game (.initialize_ (lit "7") none 1) :: List.replicate 4 .io ++
    .game (.updatePresence presence) :: List.replicate 8 .io

/-- The handlers are registered, and `SendQueue` is as `q` is but for what has
been sent. -/
structure Settled (q : MsgQueue (List UInt8) MessageQueueSize) (s : Statics) :
    Prop where
  handlers : s.Handlers = s.QueuedHandlers
  queue_ : s.SendQueue.queue_ = q.queue_
  nextAdd_ : s.SendQueue.nextAdd_ = q.nextAdd_

/-- The game calls neither for handlers nor for commands. -/
def ClientEvent.Quiet : ClientEvent → Prop
  | .io => True
  | .join => True
  | .game (.updatePresence _) => True
  | .game .runCallbacks => True
  | .game _ => False

section Settled

variable {q : MsgQueue (List UInt8) MessageQueueSize} {s s' : Statics}
  {c : Client}

theorem Settled.untouched (h : Settled q s) (hsame : Untouched s s') :
    Settled q s' := by
  refine ⟨?_, ?_, ?_⟩
  · rw [hsame.handlers, hsame.queuedHandlers]
    exact h.handlers
  · rw [hsame.queue]
    exact h.queue_
  · rw [hsame.queue]
    exact h.nextAdd_

theorem Settled.requeuePresence (h : Settled q s) :
    Settled q s.requeuePresence := by
  rw [requeuePresence_eq]
  exact ⟨h.handlers, h.queue_, h.nextAdd_⟩

theorem handleEventRegistration_same (s : Statics) (registered : Bool)
    (event : List UInt8) :
    s.handleEventRegistration registered registered event = .ok s := by
  cases registered with
  | true => rfl
  | false => rfl

/-- What is registered is not registered again. -/
theorem updateHandlers_same (h : s.Handlers = s.QueuedHandlers) :
    s.updateHandlers (some s.QueuedHandlers) = .ok s := by
  rw [← h]
  simp only [Statics.updateHandlers, handleEventRegistration_same]
  rfl

theorem callbacks_keep_settled (c : Client) :
    (c.callbacks δ).Keep (Settled q) := by
  rw [Client.callbacks]
  split
  · refine ⟨?_, ?_⟩
    · rintro _ ⟨⟩ d s h
      have hsame : Ends (Settled q)
          (s.updateHandlers (some s.QueuedHandlers)) := by
        rw [updateHandlers_same h.handlers]
        exact h
      refine (untouched_onConnect d hsame).imp ?_
      rintro s' ⟨s₁, h₁, hsame⟩
      exact h₁.requeuePresence.untouched hsame
    · rintro _ ⟨⟩ code text s h
      exact h.untouched (untouched_onDisconnect s code text)
  · refine ⟨?_, ?_⟩
    · rintro _ ⟨⟩
    · rintro _ ⟨⟩

theorem Settled.restocked (h : Settled q s) (hstock : Restocked s s') :
    Settled q s' := by
  cases hstock with
  | _ => exact ⟨h.handlers, h.queue_, h.nextAdd_⟩

theorem ioStep_settled (hs : Settled q c.Instance.context) :
    Gives (fun c' => Settled q c'.Instance.context) (c.ioStep toDouble) := by
  have hkeep := callbacks_keep_settled (δ := δ) (q := q) c
  refine (ioStep_keeps (K := fun rpc => Settled q rpc.context) hs
    (fun _ hstock => hs.restocked hstock)
    (fun _ s hstock => open_keeps (c := { c.Instance with context := s }) hkeep
      (hs.restocked hstock))
    (fun _ => ?_) (write_keeps hkeep.disconnect hs)).imp ?_
  · refine (read_keeps (readKeep_context hkeep.disconnect) hs).imp
      fun r hs' => ⟨hs', ?_⟩
    exact fun message _ => (untouched_dispatch r.2.context message).gives.imp
      fun _ hsame => hs'.untouched hsame
  · rintro c' ⟨rpc, io, hs', rfl⟩
    exact hs'

theorem gameStep_settled {call : Client.GameCall}
    (hquiet : (ClientEvent.game call).Quiet)
    (hs : Settled q c.Instance.context) :
    Gives (fun c' => Settled q c'.Instance.context) (c.gameStep call) := by
  cases call with
  | updatePresence presence =>
      have hpresence : Gives (Settled q)
          (c.Instance.context.updatePresence presence) := by
        rw [Statics.updatePresence]
        split
        · trivial
        · exact ⟨hs.handlers, hs.queue_, hs.nextAdd_⟩
      apply hpresence.bind
      intro s hs'
      exact hs'
  | runCallbacks =>
      rw [Client.gameStep]
      split
      · exact hs
      · exact hs.untouched
          (untouched_runCallbacks c.Instance.context c.Instance.isOpen)
  | initialize_ applicationId handlers pid => exact hquiet.elim
  | shutdown => exact hquiet.elim
  | respond userId reply => exact hquiet.elim
  | updateHandlers newHandlers => exact hquiet.elim

theorem step_settled (hs : Settled q c.Instance.context) {e : ClientEvent}
    (hquiet : e.Quiet)
    {c' : Client} (hstep : c.step toDouble e = some (.ok c')) :
    Settled q c'.Instance.context := by
  cases e with
  | io =>
      have hkept : Gives (fun c' => Settled q c'.Instance.context)
          (c.threadStep toDouble) :=
        threadStep_keeps (fun _ _ h => h) hs (ioStep_settled hs)
      rw [Option.some.inj hstep] at hkept
      exact hkept
  | game call =>
      rw [Client.step] at hstep
      split at hstep
      · have hkept := gameStep_settled (c := c) hquiet hs
        rw [Option.some.inj hstep] at hkept
        exact hkept
      · cases hstep
  | join =>
      rw [Client.step] at hstep
      split at hstep
      · cases hstep
        exact close_keeps (callbacks_keep_settled c).disconnect hs
      · cases hstep

end Settled

/-- **New connections do not subscribe again**: once the handlers are registered,
no connection that opens later puts a command into `SendQueue`, though Discord
knows nothing of the subscriptions made over the old one. -/
theorem never_subscribed_again {later : List ClientEvent} {c c' : Client}
    (hregistered :
      c.Instance.context.Handlers = c.Instance.context.QueuedHandlers)
    (hquiet : ∀ e ∈ later, e.Quiet) (hlater : c.Runs toDouble later c') :
    c'.Instance.context.SendQueue.queue_ = c.Instance.context.SendQueue.queue_ ∧
      c'.Instance.context.SendQueue.nextAdd_ =
        c.Instance.context.SendQueue.nextAdd_ := by
  obtain ⟨os, hrun⟩ := hlater
  have hsettled := (Machine.run_along (Q := fun _ => True)
    (I := fun s => Settled c.Instance.context.SendQueue s.Instance.context)
    (fun s e r hs he hr => ⟨step_settled hs he (step_eq hr), trivial⟩)
    ⟨hregistered, rfl, rfl⟩ (Machine.along_of_mem hquiet c) hrun).1
  exact ⟨hsettled.queue_, hsettled.nextAdd_⟩

/-- Discord greets, goes away, and greets again. -/
def regreeted : Answers :=
  { greeted with
    reads := greeted.reads ++ [{}, {}, { peeked := false }] ++ greeted.reads }

/-- A run over two pipes, with one subscription. -/
theorem never_subscribed_again_regreeted : ∃ c c',
    (Client.start regreeted [0, 0, 1000, 1000, 2000, 3000, 3000, 4000] []).Runs
      (fun _ => (none : Option ℕ))
      (.game (.initialize_ (lit "7") (some { joinGame := true }) 1) ::
        List.replicate 13 .io) c ∧
    c.Runs (fun _ => (none : Option ℕ)) (List.replicate 12 .io) c' ∧
    c'.Instance.isOpen = true ∧ c'.pipes.length = 2 ∧
    c'.Instance.context.SendQueue.queue_ = c.Instance.context.SendQueue.queue_ ∧
      c'.Instance.context.SendQueue.nextAdd_ =
        c.Instance.context.SendQueue.nextAdd_ := by
  have hruns : (((client (fun _ => (none : Option ℕ)) (.start regreeted
      [0, 0, 1000, 1000, 2000, 3000, 3000, 4000] [])).run (.start regreeted
        [0, 0, 1000, 1000, 2000, 3000, 3000, 4000] [])
      (.game (.initialize_ (lit "7") (some { joinGame := true }) 1) ::
        List.replicate 13 .io)).bind fun r =>
    ((client (fun _ => (none : Option ℕ)) r.1).run r.1
      (List.replicate 12 .io)).map fun r' =>
        (decide (r.1.Instance.context.Handlers =
          r.1.Instance.context.QueuedHandlers), r'.1.Instance.isOpen,
          r'.1.pipes.length)) = some (true, true, 2) := by
    decide +kernel
  obtain ⟨⟨c, os⟩, hrun, hrest⟩ := Option.bind_eq_some_iff.mp hruns
  obtain ⟨⟨c', os'⟩, hlater, hfacts⟩ := Option.map_eq_some_iff.mp hrest
  obtain ⟨hregistered, hopen, hpipes⟩ := by simpa using hfacts
  refine ⟨c, c', ⟨os, hrun⟩, ⟨os', hlater⟩, hopen, hpipes,
    never_subscribed_again hregistered ?_ ⟨os', hlater⟩⟩
  intro e he
  rw [List.eq_of_mem_replicate he]
  trivial

end AWRPC
