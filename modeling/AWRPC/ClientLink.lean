import AWRPC.ClientPipes
import AWRPC.Delivery
import AWRPC.PresenceLink

/-!
# The client as a link

A game that initializes the client once and then only sets presences sees of it
what `link` says: one queued presence, a flag, a connection that comes and goes,
and the presence that Discord holds. Here this is the last command that has gone
whole over the open pipe. Every run of such a client is a run of the link, with
the handshakes, pings and messages left out; so no update is lost on the way to
the pipe but by the failed send that overtakes it.
-/

namespace AWRPC

open Bytes Framing JsonGrammar Reader RpcConnection MsgQueue CGameMemory
  ChangeDetector

variable {δ σ : Type} {toDouble : List UInt8 → Option δ}

/-! ## §1  What Discord holds -/

/-- The command that went whole over a pipe. -/
def Transfer.command? : Transfer → Option (List UInt8)
  | .wrote bytes =>
      if tagOf bytes = Opcode.Frame then some (bytes.drop 8) else none
  | .took _ => none
  | .cut _ => none

def lastCommand (log : List Transfer) : Option (List UInt8) :=
  (log.filterMap Transfer.command?).getLast?

/-- The last command that Discord got over the open pipe. -/
def BaseConnection.said (c : BaseConnection) : Option (List UInt8) :=
  c.pipe.bind fun pipe => lastCommand pipe.log

theorem lastCommand_snoc (log : List Transfer) (t : Transfer) :
    lastCommand (log ++ [t]) = t.command?.or (lastCommand log) := by
  rw [lastCommand, List.filterMap_append, List.getLast?_append]
  cases h : t.command? with
  | none => simp [h, lastCommand]
  | some text => simp [h]

theorem command?_encode (f : Frame) :
    Transfer.command? (.wrote f.encode) =
      if f.tag = Opcode.Frame then some f.payload else none := by
  rw [Transfer.command?, tagOf_encode, encode_drop]

/-- `x` is what Discord got, or the pipe is closed. -/
def Holding (x : Option (List UInt8)) (c : BaseConnection) : Prop :=
  c.said = x ∨ c.pipe = none

section Holding

variable {x : Option (List UInt8)} {c : BaseConnection}

theorem Holding.none_said (h : Holding none c) : c.said = none := by
  rcases h with h | h
  · exact h
  · rw [BaseConnection.said, h]
    rfl

theorem Holding.read (h : Holding x c) (length : ℕ) :
    Holding x (c.read length).2 := by
  have hread := c.read_step length
  generalize c.read length = r at hread
  obtain ⟨data, c'⟩ := r
  cases hread with
  | shut hpipe => exact h
  | @data pipe data received answers hpipe =>
      rcases h with h | h
      · refine Or.inl ?_
        rw [BaseConnection.said, hpipe] at h
        rw [BaseConnection.said]
        exact (lastCommand_snoc pipe.log (.took data)).trans h
      · rw [hpipe] at h
        cases h
  | @wait pipe received answers hpipe =>
      rcases h with h | h
      · refine Or.inl ?_
        rw [BaseConnection.said, hpipe] at h
        exact h
      · rw [hpipe] at h
        cases h
  | broken hpipe => exact Or.inr rfl

/-- What is not a command changes nothing. -/
theorem Holding.write (h : Holding x c) {f : Frame}
    (hf : f.tag ≠ Opcode.Frame) : Holding x (c.write f.encode).2 := by
  have hwrite := c.write_step (encode_ne_nil f)
  generalize c.write f.encode = r at hwrite
  obtain ⟨ok, c'⟩ := r
  cases hwrite with
  | shut hpipe => exact h
  | @complete pipe writes hpipe =>
      rcases h with h | h
      · refine Or.inl ?_
        rw [BaseConnection.said, hpipe] at h
        have hlast := lastCommand_snoc pipe.log (.wrote f.encode)
        rw [command?_encode, if_neg hf] at hlast
        exact hlast.trans h
      · rw [hpipe] at h
        cases h
  | @short pipe writes n hpipe =>
      rcases h with h | h
      · refine Or.inl ?_
        rw [BaseConnection.said, hpipe] at h
        exact (lastCommand_snoc pipe.log (.cut (f.encode.take n))).trans h
      · rw [hpipe] at h
        cases h

/-- Over a connection that is open the pipe is open too. -/
theorem Holding.said {R : Rules δ} {N : CStr 64 → Prop} {c : RpcConnection σ}
    (h : Holding x c.connection) (hc : Conversing N R c)
    (hstate : c.state = .Connected) : c.connection.said = x := by
  rcases h with h | h
  · exact h
  rcases hc with ⟨hstate', -⟩ | ⟨hstate', -⟩ | ⟨-, t, ht, -⟩
  · rw [hstate] at hstate'
    cases hstate'
  · rw [hstate] at hstate'
    cases hstate'
  · obtain ⟨pipe, hpipe, -⟩ := ht.pipe
    rw [hpipe] at h
    cases h

theorem said_of_closed {R : Rules δ} {N : CStr 64 → Prop}
    {c : RpcConnection σ} (hc : Conversing N R c) (hclosed : c.state ≠ .Connected)
    (hgreeted : c.state ≠ .SentHandshake) : c.connection.said = none := by
  rcases hc with ⟨-, hshut⟩ | ⟨hstate, -⟩ | ⟨hstate, -⟩
  · rw [BaseConnection.said, hshut.pipe]
    rfl
  · exact absurd hstate hgreeted
  · exact absurd hstate hclosed

theorem readKeep_holding (callbacks : Callbacks δ σ) :
    ReadKeep callbacks fun c => Holding x c.connection :=
  ⟨fun _ _ => Or.inr rfl, fun _ _ _ h => h, fun _ length h => h.read length,
    fun _ _ h => h.write (by rintro ⟨⟩)⟩

end Holding

/-! ## §2  What `Open` and `Write` do to a connection -/

section Calls

variable {callbacks : Callbacks δ σ} {c : RpcConnection σ}

theorem readKeep_closed (callbacks : Callbacks δ σ) :
    ReadKeep callbacks fun c => c.state ≠ .Connected :=
  ⟨fun _ _ => nofun, fun _ _ _ h => h, fun _ _ h => h, fun _ _ h => h⟩

/-- A connection over which no command has gone. -/
structure Fresh (K : σ → Prop) (c : RpcConnection σ) : Prop where
  closed : c.state ≠ .Connected
  said : c.connection.said = none
  context : K c.context

/-- `Open` makes a connection that has no command behind it. -/
def Opened (K K' : σ → Prop) (c : RpcConnection σ) : Prop :=
  Fresh K c ∨ c.state = .Connected ∧ c.connection.said = none ∧ K' c.context

variable {K K' : σ → Prop}

theorem Fresh.read (hkeep : callbacks.KeepClosing K) (h : Fresh K c) :
    Gives (fun r => Fresh K r.2) (c.read callbacks toDouble) := by
  have hread : Gives (fun r => r.2.state ≠ .Connected ∧
      Holding none r.2.connection ∧ K r.2.context) (c.read callbacks toDouble) :=
    read_keeps ((readKeep_closed callbacks).and
      ((readKeep_holding callbacks).and (readKeep_context hkeep)))
      ⟨h.closed, Or.inl h.said, h.context⟩
  exact hread.imp fun _ ⟨hclosed, hholding, hK⟩ =>
    ⟨hclosed, hholding.none_said, hK⟩

theorem Fresh.awaitReady (hkeep : callbacks.KeepClosing K)
    {onConnect : JsonDocument δ → σ → Except Fault σ}
    (hcallback : callbacks.onConnect = some onConnect)
    (hconnect : ∀ d s, K s → Gives K' (onConnect d s)) (h : Fresh K c) :
    Gives (Opened K K') (c.awaitReady callbacks toDouble) := by
  apply (h.read hkeep).bind
  rintro ⟨_ | d, c'⟩ hread
  · exact Or.inl hread
  apply (gives_true _).bind
  intro ready _
  split
  · rw [hcallback]
    apply (hconnect d _ hread.context).bind
    intro context hcontext
    exact Or.inr ⟨rfl, hread.said, hcontext⟩
  · exact Or.inl hread

theorem Fresh.sendHandshake (hkeep : callbacks.KeepClosing K) (h : Fresh K c) :
    Gives (Opened K K') (c.sendHandshake callbacks) := by
  rw [RpcConnection.sendHandshake]
  split
  · trivial
  · rename_i message _
    have hsaid : Holding none (c.connection.write
        (Frame.mk Opcode.Handshake message).encode).2 :=
      Holding.write (Or.inl h.said) (by rintro ⟨⟩)
    simp only
    split
    · exact Or.inl ⟨by rintro ⟨⟩, hsaid.none_said, h.context⟩
    · exact Or.inl ⟨by rintro ⟨⟩, rfl,
        close_keeps hkeep (c := { c with connection := _ }) h.context⟩

theorem Fresh.open_ (hkeep : callbacks.KeepClosing K)
    {onConnect : JsonDocument δ → σ → Except Fault σ}
    (hcallback : callbacks.onConnect = some onConnect)
    (hconnect : ∀ d s, K s → Gives K' (onConnect d s)) (h : Fresh K c) :
    Gives (Opened K K') (c.open_ callbacks toDouble) := by
  have hsaid : Gives (fun r => r.2.said = none) c.openPipe := by
    rw [RpcConnection.openPipe]
    split
    · apply (gives_true _).bind
      rintro ⟨_ | digit, creates⟩ -
      · rfl
      · rfl
    · exact h.said
  rw [RpcConnection.open_, if_neg h.closed]
  apply hsaid.bind
  rintro ⟨ok, connection⟩ hsaid
  have hfresh : Fresh K { c with connection := connection } :=
    ⟨h.closed, hsaid, h.context⟩
  simp only
  split
  · exact Or.inl hfresh
  split
  · exact hfresh.awaitReady hkeep hcallback hconnect
  · exact hfresh.sendHandshake hkeep

/-- A command goes whole over a greeted connection, or the connection is closed. -/
theorem write_said {R : Rules δ} {N : CStr 64 → Prop}
    (hkeep : callbacks.KeepClosing K) (h : Conversing N R c)
    (hstate : c.state ≠ .SentHandshake) (hK : K c.context)
    (data : List UInt8) :
    Gives (fun r =>
        if r.1 then c.state = .Connected ∧ r.2.state = .Connected ∧
          r.2.connection.said = some data ∧ r.2.context = c.context
        else Fresh K r.2) (c.write callbacks data) := by
  rw [RpcConnection.write]
  split
  · trivial
  have hwrite := c.connection.write_step (encode_ne_nil ⟨Opcode.Frame, data⟩)
  generalize c.connection.write (Frame.mk Opcode.Frame data).encode = r at hwrite
  obtain ⟨ok, connection⟩ := r
  have hclosed : Fresh K (close callbacks { c with connection := connection }) :=
    ⟨by rintro ⟨⟩, rfl,
      close_keeps hkeep (c := { c with connection := connection }) hK⟩
  cases hwrite with
  | shut hpipe => exact hclosed
  | @complete pipe writes hpipe =>
      have hconnected : c.state = .Connected := by
        rcases h with ⟨-, hshut⟩ | ⟨hsent, -⟩ | ⟨hconnected, -⟩
        · rw [hshut.pipe] at hpipe
          cases hpipe
        · exact absurd hsent hstate
        · exact hconnected
      have hlast := lastCommand_snoc pipe.log
        (.wrote (Frame.mk Opcode.Frame data).encode)
      rw [command?_encode, if_pos rfl] at hlast
      exact ⟨hconnected, hconnected, hlast, rfl⟩
  | short n hpipe => exact hclosed

end Calls

/-! ## §3  The link of a client -/

def IoPlace.point : IoPlace → IoPoint (List UInt8)
  | .reads => .reading
  | .exchange => .exchange
  | .taken => .taken
  | .holding m => .holding m
  | .failed m => .failed m
  | _ => .outside

/-- A queued presence of length 0 is none. -/
def queued? (text : List UInt8) : Option (List UInt8) :=
  if text = [] then none else some text

/-- What `link` keeps of a client. -/
def Client.link (c : Client) (latest : Option (List UInt8)) :
    Link (List UInt8) where
  QueuedPresence := queued? c.Instance.context.QueuedPresence
  UpdatePresence := c.Instance.context.UpdatePresence
  isOpen := c.Instance.isOpen
  caller := .outside
  io := c.io.point
  shown := c.Instance.connection.said
  latest := latest

/-- There are no handlers, and no commands but the presence. -/
structure Bare (presence : List UInt8) (flag : Bool) (s : Statics) : Prop where
  presence : s.QueuedPresence = presence
  flag : s.UpdatePresence = flag
  handlers : s.Handlers = {}
  queuedHandlers : s.QueuedHandlers = {}
  pending : s.SendQueue.pendingSends_ = 0

/-- The presence in hand is one, and no other command is. -/
def IoPlace.Bare (presence : List UInt8) : IoPlace → Prop
  | .taken => presence ≠ []
  | .holding m => m ≠ []
  | .failed m => m ≠ []
  | .sending _ => False
  | .sent _ => False
  | _ => True

/-- A client on which only presences have been set. -/
structure Client.Plain (c : Client) : Prop where
  bare : Bare c.Instance.context.QueuedPresence c.Instance.context.UpdatePresence
    c.Instance.context
  place : c.io.Bare c.Instance.context.QueuedPresence
  joining : c.joining = false
  absent : c.Connection = false → c.Instance.state ≠ .Connected
  hooked : c.Connection = true → c.hooked = true
  unsaid : c.Instance.state ≠ .Connected → c.Instance.connection.said = none

section Bare

variable {p : List UInt8} {u : Bool} {s s' : Statics}

theorem Bare.untouched (h : Bare p u s) (hsame : Untouched s s') :
    Bare p u s' :=
  ⟨hsame.presence.trans h.presence, hsame.flag.trans h.flag,
    hsame.handlers.trans h.handlers, hsame.queuedHandlers.trans h.queuedHandlers,
    by rw [hsame.queue]; exact h.pending⟩

theorem Bare.self (h : Bare p u s) :
    Bare s.QueuedPresence s.UpdatePresence s :=
  ⟨rfl, rfl, h.handlers, h.queuedHandlers, h.pending⟩

theorem Bare.requeuePresence (h : Bare p u s) :
    Bare p (u || (queued? p).isSome) s.requeuePresence := by
  rw [requeuePresence_eq]
  refine ⟨h.presence, ?_, h.handlers, h.queuedHandlers, h.pending⟩
  show (s.UpdatePresence || decide (0 < s.QueuedPresence.length)) = _
  rw [h.flag, h.presence, queued?]
  cases p with
  | nil => rfl
  | cons a p => rfl

theorem Bare.onConnect (h : Bare p u s) (d : JsonDocument δ) :
    Gives (Bare p (u || (queued? p).isSome)) (s.onConnect d) := by
  have hsame : Ends (Bare p u) (s.updateHandlers (some s.QueuedHandlers)) := by
    rw [updateHandlers_same (h.handlers.trans h.queuedHandlers.symm)]
    exact h
  refine ((untouched_onConnect d hsame).imp ?_).gives
  rintro s' ⟨s₁, h₁, hsame⟩
  exact h₁.requeuePresence.untouched hsame

theorem keepClosing_bare (c : Client) :
    (c.callbacks δ).KeepClosing (Bare p u) := by
  rw [Client.callbacks]
  split
  · rintro _ ⟨⟩ code text s h
    exact h.untouched (untouched_onDisconnect s code text)
  · rintro _ ⟨⟩

end Bare

/-! ## §4  Steps of the link -/

/-- No update overtakes a failed send. -/
def Client.NotOvertaken (c : Client) : ClientEvent → Prop
  | .io => ∀ m, c.io = .failed m → c.Instance.context.QueuedPresence = m
  | _ => True

/-- A step, and the steps of the link that match it. -/
structure Matches (c c' : Client) (e : ClientEvent) (texts : List (List UInt8)) :
    Prop where
  plain : c'.Plain
  steps : ∀ latest, ∃ evs os,
    (AWRPC.link _).run (c.link latest) evs =
      some (c'.link (texts.getLast?.or latest), os) ∧
    updates evs = texts ∧
    (c.NotOvertaken e →
      (AWRPC.link _).Along AWRPC.NotOvertaken (c.link latest) evs)

section Steps

variable {c c' : Client} {e : ClientEvent} {T : Terms}

theorem matches_none (h : c'.Plain) (hsame : ∀ latest, c'.link latest = c.link latest) :
    Matches c c' e [] := by
  refine ⟨h, fun latest => ⟨[], [], ?_, rfl, fun _ => trivial⟩⟩
  rw [← hsame]
  rfl

theorem matches_io (hc : c.Plain) (h : c'.Plain) (ok : Bool)
    (hstep : ∀ latest, (c.link latest).ioStep ok = some (c'.link latest)) :
    Matches c c' .io [] := by
  refine ⟨h, fun latest => ⟨[.io ok], [()], ?_, rfl, ?_⟩⟩
  · show ((((c.link latest).ioStep ok).map _).bind _) = _
    rw [hstep]
    rfl
  · intro hcalm
    refine ⟨?_, fun _ _ => trivial⟩
    intro m hm
    have hplace := hc.place
    cases hio : c.io with
    | failed m' =>
        have hm' : IoPoint.failed m' = .failed m := by
          rw [← hm, Client.link, hio]
          rfl
        cases hm'
        rw [hio] at hplace
        show queued? _ = _
        rw [hcalm m hio, queued?, if_neg hplace]
    | _ =>
        have hm' : c.io.point = .failed m := hm
        rw [hio] at hm'
        cases hm'

theorem link_eq {c c' : Client}
    (hpresence : c'.Instance.context.QueuedPresence =
      c.Instance.context.QueuedPresence)
    (hflag : c'.Instance.context.UpdatePresence =
      c.Instance.context.UpdatePresence)
    (hopen : c'.Instance.isOpen = c.Instance.isOpen)
    (hio : c'.io.point = c.io.point)
    (hsaid : c'.Instance.connection.said = c.Instance.connection.said)
    (latest : Option (List UInt8)) : c'.link latest = c.link latest := by
  rw [Client.link, Client.link, hpresence, hflag, hopen, hio, hsaid]

/-- A client with other variables, which are the same for the link. -/
theorem Client.Plain.withStatics {s : Statics} (h : c.Plain)
    (hs : Bare c.Instance.context.QueuedPresence c.Instance.context.UpdatePresence
      s) : (c.withStatics s).Plain := by
  refine ⟨hs.self, ?_, h.joining, h.absent, h.hooked, h.unsaid⟩
  show c.io.Bare s.QueuedPresence
  rw [hs.presence]
  exact h.place

theorem Matches.before {s : Statics} {texts : List (List UInt8)}
    (hs : Bare c.Instance.context.QueuedPresence c.Instance.context.UpdatePresence
      s) (h : Matches (c.withStatics s) c' e texts) : Matches c c' e texts := by
  have hlink : ∀ latest, (c.withStatics s).link latest = c.link latest :=
    link_eq hs.presence hs.flag rfl rfl rfl
  refine ⟨h.plain, fun latest => ?_⟩
  obtain ⟨evs, os, hrun, htexts, hcalm⟩ := h.steps latest
  rw [hlink] at hrun hcalm
  refine ⟨evs, os, hrun, htexts, fun hnot => hcalm ?_⟩
  cases e with
  | io => exact fun m hm => hs.presence.trans (hnot m hm)
  | game call => trivial
  | join => trivial

theorem isOpen_false {c : RpcConnection Statics} (h : c.state ≠ .Connected) :
    c.isOpen = false :=
  decide_eq_false h

theorem isOpen_true {c : RpcConnection Statics} (h : c.state = .Connected) :
    c.isOpen = true :=
  decide_eq_true h

theorem connect_matches (h : c.Plain) (hio : c.io = .outside)
    (hconnection : c.Connection = true) (hstate : c.Instance.state ≠ .Connected) :
    Gives (fun c' => Matches c c' .io []) (c.connect toDouble) := by
  have hcallback : (c.callbacks δ).onConnect = some Statics.onConnect := by
    rw [Client.callbacks, h.hooked hconnection]
    rfl
  have hfresh : Fresh (Bare _ _) c.Instance :=
    ⟨hstate, h.unsaid hstate, h.bare⟩
  apply (hfresh.open_ (keepClosing_bare c) hcallback
    fun d s hs => hs.onConnect d).bind
  have hplace : ∀ presence, c.io.Bare presence := by
    rw [hio]
    exact fun _ => trivial
  rintro rpc (hfresh' | ⟨hconnected, hsaid, hbare⟩)
  · refine matches_none ⟨hfresh'.context.self, hplace _, h.joining,
      fun _ => hfresh'.closed, h.hooked, fun _ => hfresh'.said⟩ ?_
    refine link_eq hfresh'.context.presence hfresh'.context.flag ?_ rfl ?_
    · exact (isOpen_false hfresh'.closed).trans (isOpen_false hstate).symm
    · exact hfresh'.said.trans (h.unsaid hstate).symm
  · refine matches_io h ⟨hbare.self, hplace _, h.joining, ?_, h.hooked,
      fun hne => absurd hconnected hne⟩ true ?_
    · intro habsent
      rw [show c.Connection = false from habsent] at hconnection
      cases hconnection
    · intro latest
      have hpoint : c.io.point = .outside := by
        rw [hio]
        rfl
      rw [Link.ioStep, Client.link, Client.link, hpoint, isOpen_false hstate,
        h.unsaid hstate]
      simp only [hbare.presence, hbare.flag, isOpen_true hconnected, hsaid,
        Bool.false_eq_true, if_false, if_true]

theorem enter_matches (h : c.Plain) (hio : c.io = .outside) :
    Gives (fun c' => Matches c c' .io []) (c.enter toDouble) := by
  have hpoint : c.io.point = .outside := by
    rw [hio]
    rfl
  rw [Client.enter]
  cases hconnection : c.Connection with
  | false => exact matches_none h fun _ => rfl
  | true =>
      rw [if_neg (by rintro ⟨⟩)]
      split
      · rename_i hopen
        refine matches_io h ⟨h.bare, trivial, h.joining, by rintro ⟨⟩,
          fun _ => h.hooked hconnection, h.unsaid⟩ true ?_
        intro latest
        rw [Link.ioStep, Client.link, Client.link, hpoint]
        simp only [hopen, if_true]
        rfl
      · rename_i hclosed
        have hstate : c.Instance.state ≠ .Connected := fun hstate =>
          hclosed (isOpen_true hstate)
        have hclock := h.bare.untouched (untouched_now _)
        simp only
        split
        · have hreconnect := hclock.untouched (untouched_updateReconnectTime _)
          exact (connect_matches (h.withStatics hreconnect) hio hconnection
            hstate).imp fun _ hmatches => hmatches.before hreconnect
        · exact matches_none (h.withStatics hclock) (link_eq hclock.presence
            hclock.flag rfl rfl rfl)

theorem reads_matches (ho : c.Orderly toDouble T) (h : c.Plain)
    (hio : c.io = .reads) :
    Gives (fun c' => Matches c c' .io []) (c.ioStep toDouble) := by
  have hstate := ho.reading hio
  have habsent : c.Connection = false → False := fun habsent =>
    h.absent habsent hstate
  have hpoint : c.io.point = .reading := by
    rw [hio]
    rfl
  have hopen := isOpen_true hstate
  have hkeep := (readKeep_holding (x := c.Instance.connection.said)
    (c.callbacks δ)).and (readKeep_context (keepClosing_bare
      (p := c.Instance.context.QueuedPresence)
      (u := c.Instance.context.UpdatePresence) c))
  rw [Client.ioStep, hio]
  apply ((read_conversing ho.conversing hstate).and
    (read_keeps hkeep ⟨Or.inl rfl, h.bare⟩)).gives.bind
  rintro ⟨_ | message, rpc⟩ ⟨⟨hconversing, hgreeted, hconnected⟩, hholding, hbare⟩
  all_goals replace hbare : Bare _ _ rpc.context := hbare
  · by_cases hstill : rpc.state = .Connected
    · have hsaid := hholding.said hconversing hstill
      refine matches_io h ⟨hbare.self, trivial, h.joining,
        fun hc => (habsent hc).elim, h.hooked, fun hne => absurd hstill hne⟩
        true ?_
      intro latest
      rw [Link.ioStep, Client.link, Client.link, hpoint]
      simp only [hbare.presence, hbare.flag, isOpen_true hstill, hopen, hsaid,
        if_true]
      rfl
    · have hsaid := said_of_closed hconversing hstill hgreeted
      refine matches_io h ⟨hbare.self, trivial, h.joining, fun _ => hstill,
        h.hooked, fun _ => hsaid⟩ false ?_
      intro latest
      rw [Link.ioStep, Client.link, Client.link, hpoint]
      simp only [hbare.presence, hbare.flag, isOpen_false hstill, hsaid,
        Bool.false_eq_true, if_false]
      rfl
  · have hstill : rpc.state = .Connected := hconnected rfl
    have hsaid := hholding.said hconversing hstill
    apply (untouched_dispatch rpc.context message).gives.bind
    intro s hsame
    have hbare' := hbare.untouched hsame
    refine matches_none ⟨hbare'.self, trivial, h.joining,
      fun hc => (habsent hc).elim, h.hooked, fun hne => absurd hstill hne⟩ ?_
    exact link_eq hbare'.presence hbare'.flag
      ((isOpen_true hstill).trans hopen.symm) hpoint.symm hsaid

theorem ioStep_matches (ho : c.Orderly toDouble T) (h : c.Plain) :
    Gives (fun c' => Matches c c' .io []) (c.ioStep toDouble) := by
  cases hio : c.io with
  | outside =>
      rw [Client.ioStep, hio]
      exact enter_matches h hio
  | reads => exact reads_matches ho h hio
  | exchange =>
      have hpoint : c.io.point = .exchange := by
        rw [hio]
        rfl
      have hqueued : (queued? c.Instance.context.QueuedPresence).isSome =
          decide (c.Instance.context.QueuedPresence.length ≠ 0) := by
        rw [queued?]
        cases c.Instance.context.QueuedPresence with
        | nil => rfl
        | cons a p => rfl
      have hbare : Bare c.Instance.context.QueuedPresence false
          { c.Instance.context with UpdatePresence := false } :=
        ⟨rfl, rfl, h.bare.handlers, h.bare.queuedHandlers, h.bare.pending⟩
      rw [Client.ioStep, hio]
      simp only
      split
      · rename_i hguard
        have hplace : c.Instance.context.QueuedPresence ≠ [] := by
          rintro hnil
          simp [hnil] at hguard
        refine matches_io h ⟨hbare.self, hplace, h.joining, h.absent, h.hooked,
          h.unsaid⟩ true ?_
        intro latest
        rw [Link.ioStep, Client.link, Client.link, hpoint]
        simp only [hqueued]
        rw [if_pos hguard]
        rfl
      · rename_i hguard
        refine matches_io h ⟨hbare.self, trivial, h.joining, h.absent, h.hooked,
          h.unsaid⟩ true ?_
        intro latest
        rw [Link.ioStep, Client.link, Client.link, hpoint]
        simp only [hqueued]
        rw [if_neg hguard]
        rfl
  | taken =>
      have hpoint : c.io.point = .taken := by
        rw [hio]
        rfl
      have hplace := h.place
      rw [hio] at hplace
      rw [Client.ioStep, hio]
      refine matches_io h ⟨h.bare, hplace, h.joining, h.absent, h.hooked,
        h.unsaid⟩ true ?_
      intro latest
      have hqueued : queued? c.Instance.context.QueuedPresence =
          some c.Instance.context.QueuedPresence := if_neg hplace
      rw [Link.ioStep, Client.link, Client.link, hpoint]
      simp only [hqueued]
      rfl
  | holding message =>
      have hpoint : c.io.point = .holding message := by
        rw [hio]
        rfl
      have hplace := h.place
      rw [hio] at hplace
      rw [Client.ioStep, hio]
      apply (write_said (keepClosing_bare c) ho.conversing
        (ho.greeted (by rw [hio]; rintro ⟨⟩)) h.bare message).bind
      rintro ⟨ok, rpc⟩ hwrite
      cases ok with
      | true =>
          obtain ⟨hstate, hstate', hsaid, hcontext⟩ := hwrite
          replace hcontext : rpc.context = c.Instance.context := hcontext
          have hbare := h.bare
          rw [← hcontext] at hbare
          refine matches_io h ⟨hbare.self, trivial, h.joining,
            fun hc => absurd hstate (h.absent hc), h.hooked,
            fun hne => absurd hstate' hne⟩ true ?_
          intro latest
          rw [Link.ioStep, Client.link, Client.link, hpoint]
          simp only [isOpen_true hstate, isOpen_true hstate', hsaid, hcontext,
            Bool.and_self, if_true]
          rfl
      | false =>
          have hfresh : Fresh _ rpc := hwrite
          refine matches_io h ⟨hfresh.context.self, hplace, h.joining,
            fun _ => hfresh.closed, h.hooked, fun _ => hfresh.said⟩ false ?_
          intro latest
          rw [Link.ioStep, Client.link, Client.link, hpoint]
          simp only [isOpen_false hfresh.closed, hfresh.said,
            hfresh.context.presence, hfresh.context.flag, Bool.false_and,
            Bool.false_eq_true, if_false]
          rfl
  | failed message =>
      have hpoint : c.io.point = .failed message := by
        rw [hio]
        rfl
      have hplace := h.place
      rw [hio] at hplace
      rw [Client.ioStep, hio]
      refine matches_io h ⟨⟨rfl, rfl, h.bare.handlers, h.bare.queuedHandlers,
        h.bare.pending⟩, trivial, h.joining, h.absent, h.hooked, h.unsaid⟩ true ?_
      intro latest
      have hqueued : queued? message = some message := if_neg hplace
      rw [Link.ioStep, Client.link, Client.link, hpoint]
      show _ = some (Link.mk (queued? message) _ _ _ _ _ _)
      rw [hqueued]
      rfl
  | sends =>
      have hpoint : c.io.point = .outside := by
        rw [hio]
        rfl
      have hnone : c.Instance.context.SendQueue.havePendingSends = false := by
        rw [havePendingSends, h.bare.pending]
        rfl
      rw [Client.ioStep, hio]
      simp only [hnone, Bool.false_eq_true, if_false]
      exact matches_none ⟨h.bare, trivial, h.joining, h.absent, h.hooked,
        h.unsaid⟩ (link_eq rfl rfl rfl hpoint.symm rfl)
  | sending i =>
      have hplace := h.place
      rw [hio] at hplace
      exact hplace.elim
  | sent i =>
      have hplace := h.place
      rw [hio] at hplace
      exact hplace.elim

end Steps

/-! ## §5  Calls of the game -/

/-- The game initializes the client without handlers, sets presences, and lets
the callbacks run. -/
def ClientEvent.Plain : ClientEvent → Prop
  | .io => True
  | .game (.initialize_ _ handlers _) => handlers.getD {} = {}
  | .game (.updatePresence presence) => ∀ q ∈ presence, q.WithinLimits
  | .game .runCallbacks => True
  | _ => False

def ClientEvent.presences : ClientEvent → List (Option DiscordRichPresence)
  | .game (.updatePresence presence) => [presence]
  | _ => []

/-- `text` is a message of `presence`. -/
def IsMessage (presence : Option DiscordRichPresence) (text : List UInt8) : Prop :=
  ∃ nonce pid, jsonWriteRichPresenceObj MaxMessageSize nonce pid presence =
    some text

section Game

variable {c c' : Client} {e : ClientEvent} {T : Terms}

theorem message_ne_nil {presence : Option DiscordRichPresence}
    (hfits : ∀ q ∈ presence, q.WithinLimits) {nonce pid : Int32}
    {text : List UInt8}
    (hwrite : jsonWriteRichPresenceObj MaxMessageSize nonce pid presence =
      some text) : text ≠ [] := by
  have hlimits := Command.withinLimits_of_write
    (c := .richPresence nonce pid presence) hfits hwrite
  have heq : _ = some text := (Command.write_eq hlimits MaxMessageSize).symm.trans
    hwrite
  cases heq
  rintro hnil
  cases hnil

theorem IoPlace.Bare.of_ne {p : List UInt8} {io : IoPlace} (h : io.Bare p)
    {text : List UInt8} (htext : text ≠ []) : io.Bare text := by
  cases io with
  | taken => exact htext
  | _ => exact h

theorem updatePresence_matches (h : c.Plain)
    {presence : Option DiscordRichPresence}
    (hfits : ∀ q ∈ presence, q.WithinLimits) :
    Gives (fun c' => ∃ texts,
        Matches c c' (.game (.updatePresence presence)) texts ∧
        List.Forall₂ IsMessage [presence] texts)
      (c.gameStep (.updatePresence presence)) := by
  rw [Client.gameStep, Statics.updatePresence]
  cases hwrite : jsonWriteRichPresenceObj MaxMessageSize
      c.Instance.context.Nonce c.Instance.context.Pid presence with
  | none => trivial
  | some text =>
      have hne := message_ne_nil hfits hwrite
      have hqueued : queued? text = some text := if_neg hne
      refine ⟨[text], ⟨⟨⟨rfl, rfl, h.bare.handlers, h.bare.queuedHandlers,
        h.bare.pending⟩, h.place.of_ne hne, h.joining, h.absent, h.hooked,
        h.unsaid⟩, fun latest => ⟨[.update text, .publish], [(), ()], ?_, rfl,
          fun _ => ⟨trivial, fun _ _ => ⟨trivial, fun _ _ => trivial⟩⟩⟩⟩,
        .cons ⟨_, _, hwrite⟩ .nil⟩
      show _ = some (Link.mk (queued? text) _ _ _ _ _ _, _)
      rw [hqueued]
      rfl

theorem gameStep_matches (h : c.Plain) {call : Client.GameCall}
    (hcall : (ClientEvent.game call).Plain) (hallowed : call.allowed c = true) :
    Gives (fun c' => ∃ texts, Matches c c' (.game call) texts ∧
      List.Forall₂ IsMessage (ClientEvent.game call).presences texts)
      (c.gameStep call) := by
  cases call with
  | initialize_ applicationId handlers pid =>
      have habsent : c.Connection = false := by
        rw [Client.GameCall.allowed] at hallowed
        simpa using hallowed
      have hhandlers : handlers.getD {} = {} := hcall
      rw [Client.gameStep, Client.initialize_]
      simp only
      rw [if_neg (by
        show ¬ c.Connection = true
        rw [habsent]
        exact Bool.false_ne_true)]
      exact ⟨[], matches_none ⟨⟨rfl, rfl, rfl, hhandlers, h.bare.pending⟩, h.place,
        h.joining, by rintro ⟨⟩, fun _ => rfl, h.unsaid⟩ fun _ => rfl, .nil⟩
  | updatePresence presence => exact updatePresence_matches h hcall
  | runCallbacks =>
      have hbare := h.bare.untouched
        (untouched_runCallbacks c.Instance.context c.Instance.isOpen)
      rw [Client.gameStep]
      split
      · exact ⟨[], matches_none h fun _ => rfl, .nil⟩
      · have hplain := h.withStatics hbare
        exact ⟨[], matches_none ⟨hplain.bare, hplain.place, hplain.joining,
          hplain.absent, hplain.hooked, hplain.unsaid⟩
          (link_eq hbare.presence hbare.flag rfl rfl rfl), .nil⟩
  | shutdown => exact hcall.elim
  | respond userId reply => exact hcall.elim
  | updateHandlers newHandlers => exact hcall.elim

theorem Client.Plain.withThread (h : c.Plain) (thread : ThreadPlace) :
    Client.Plain { c with thread := thread } :=
  ⟨h.bare, h.place, h.joining, h.absent, h.hooked, h.unsaid⟩

theorem threadStep_matches (ho : c.Orderly toDouble T) (h : c.Plain) :
    Gives (fun c' => Matches c c' .io []) (c.threadStep toDouble) :=
  threadStep_keeps
    (fun _ thread hc => ⟨hc.plain.withThread thread, hc.steps⟩)
    (matches_none h fun _ => rfl) (ioStep_matches ho h)

theorem step_matches (ho : c.Orderly toDouble T) (h : c.Plain) (he : e.Plain)
    (hstep : c.step toDouble e = some (.ok c')) :
    ∃ texts, Matches c c' e texts ∧ List.Forall₂ IsMessage e.presences texts := by
  cases e with
  | io =>
      have hmatches := threadStep_matches ho h
      rw [Option.some.inj hstep] at hmatches
      exact ⟨[], hmatches, .nil⟩
  | game call =>
      rw [Client.step] at hstep
      split at hstep
      · rename_i hguard
        have hmatches := gameStep_matches h he (Bool.and_eq_true_iff.mp hguard).2
        rw [Option.some.inj hstep] at hmatches
        exact hmatches
      · cases hstep
  | join => exact he.elim

end Game

/-! ## §6  Runs of the link -/

/-- The link of a client. -/
structure Linked (toDouble : List UInt8 → Option δ) (c : Client)
    (s : Link (List UInt8)) : Prop where
  orderly : c.Orderly toDouble .free
  plain : c.Plain
  link : s = c.link s.latest

theorem linked_start (answers : Answers) (clock delays : List ℤ) :
    Linked toDouble (.start answers clock delays) (link (List UInt8)).init :=
  ⟨start_orderly trivial answers clock delays,
    ⟨⟨rfl, rfl, rfl, rfl, rfl⟩, trivial, rfl, fun _ => nofun, nofun,
      fun _ => rfl⟩, rfl⟩

theorem messages_flatten {es : List ClientEvent}
    {evss : List (List (LinkEvent (List UInt8)))}
    (h : List.Forall₂ (fun e evs => List.Forall₂ IsMessage e.presences
      (updates evs)) es evss) :
    List.Forall₂ IsMessage (es.flatMap ClientEvent.presences)
      (updates evss.flatten) := by
  induction h with
  | nil => exact .nil
  | @cons e evs es evss he hes ih =>
      have hsplit : updates (evs ++ evss.flatten) =
          updates evs ++ updates evss.flatten := List.filterMap_append
      rw [List.flatMap_cons, List.flatten_cons, hsplit]
      exact List.rel_append he ih

/-- The run of the link that matches a run of the client. -/
theorem linked_run {answers : Answers} {clock delays : List ℤ}
    {es : List ClientEvent} {c : Client} (hplain : ∀ e ∈ es, e.Plain)
    (h : (Client.start answers clock delays).Runs toDouble es c) :
    ∃ evs s os, (link (List UInt8)).run (link _).init evs = some (s, os) ∧
      s = c.link s.latest ∧
      List.Forall₂ IsMessage (es.flatMap ClientEvent.presences) (updates evs) ∧
      ((client toDouble (.start answers clock delays)).Along Client.NotOvertaken
        (.start answers clock delays) es →
        (link _).Along NotOvertaken (link _).init evs) := by
  obtain ⟨os, hrun⟩ := h
  have hrefines := Machine.run_refines (R := Linked toDouble)
    (A := link (List UInt8)) (E := ClientEvent.Plain)
    (S := fun e evs => List.Forall₂ IsMessage e.presences (updates evs))
    (P := Client.NotOvertaken) (Q := NotOvertaken) ?_
    (linked_start answers clock delays) hplain hrun
  · obtain ⟨evss, s, os', hlink, hs, hmessages, hcalm⟩ := hrefines
    exact ⟨evss.flatten, s, os', hlink, hs.link, messages_flatten hmessages, hcalm⟩
  · intro c e r s hs he hr
    have hstep := step_eq hr
    obtain ⟨texts, hmatches, hmessages⟩ :=
      step_matches hs.orderly hs.plain he hstep
    obtain ⟨evs, os, hlink, htexts, hcalm⟩ := hmatches.steps s.latest
    have horderly := step_orderly hs.orderly (says_free e) _ hstep
    rw [← hs.link] at hlink hcalm
    rw [← htexts] at hmessages
    exact ⟨evs, _, os, hlink, ⟨horderly, hmatches.plain, rfl⟩, hmessages, hcalm⟩

/-! ## §7  What is on the pipe at rest -/

/-- Nothing is under way and nothing is left to send. -/
structure Client.AtRest (c : Client) : Prop where
  isOpen : c.Instance.isOpen = true
  flag : c.Instance.context.UpdatePresence = false
  io : c.io = .outside

theorem Client.AtRest.link {c : Client} (h : c.AtRest)
    (latest : Option (List UInt8)) : (c.link latest).AtRest := by
  refine ⟨h.isOpen, h.flag, rfl, ?_⟩
  show c.io.point = .outside
  rw [h.io]
  rfl

theorem getLast?_forall₂ {α β : Type} {S : α → β → Prop} {l : List α}
    {l' : List β} (h : List.Forall₂ S l l') {a : α} (ha : l.getLast? = some a) :
    ∃ b, l'.getLast? = some b ∧ S a b := by
  have hreverse := List.rel_reverse h
  rw [List.getLast?_eq_head?_reverse] at ha ⊢
  generalize l.reverse = r at hreverse ha
  generalize l'.reverse = r' at hreverse
  cases hreverse with
  | nil => cases ha
  | @cons x y xs ys hxy hrest =>
      cases ha
      exact ⟨y, rfl, hxy⟩

section AtRest

variable {answers : Answers} {clock delays : List ℤ} {es : List ClientEvent}
  {c : Client}

/-- **At rest Discord has the queued presence**, whatever the threads, the system
and Discord did until the game calls `Discord_Shutdown`: over the open pipe it was
the last command to go whole. -/
theorem queued_on_pipe (hplain : ∀ e ∈ es, e.Plain)
    (h : (Client.start answers clock delays).Runs toDouble es c)
    (hrest : c.AtRest) :
    c.Instance.connection.said = queued? c.Instance.context.QueuedPresence := by
  obtain ⟨evs, s, os, hlink, hs, -, -⟩ := linked_run hplain h
  have hshown := shown_at_rest hlink (hs ▸ hrest.link s.latest)
  rw [hs] at hshown
  exact hshown

/-- A player in the hangar. -/
def hangarMemory : ℕ → LoopInput := fun _ =>
  .ofResults attached (holding (lit "gar_base")) (holding (lit "Player")) 110

def playerPresence : Option DiscordRichPresence :=
  some (Discord.update (callAt .EEng attached hangarMemory 0))

theorem plain_greetedEvents {presence : Option DiscordRichPresence}
    (h : ∀ q ∈ presence, q.WithinLimits) :
    ∀ e ∈ greetedEvents presence, e.Plain := by
  have hio : ∀ n, ∀ e ∈ List.replicate n ClientEvent.io, e.Plain := by
    intro n e he
    rw [List.eq_of_mem_replicate he]
    trivial
  rw [greetedEvents]
  simp only [List.forall_mem_cons, List.forall_mem_append]
  exact ⟨⟨rfl, hio 4⟩, h, hio 8⟩

theorem plain_greeted : ∀ e ∈ greetedEvents playerPresence, e.Plain := by
  have hmem : callAt .EEng attached hangarMemory 0 ∈
      callsAt .EEng attached hangarMemory 0 :=
    (mem_callsAt_iff .EEng attached hangarMemory).mpr ⟨trivial, rfl⟩
  obtain ⟨level, nickname, timestamp, hcall, hnickname⟩ := call_reference hmem
  refine plain_greetedEvents fun q hq => ?_
  rw [← Option.some.inj hq, hcall]
  exact referenceCall_withinLimits .EEng level timestamp hnickname

/-- No send fails in the run, so that no update overtakes one; it ends at rest. -/
theorem greeted_rests : ∃ c,
    (Client.start greeted [0, 0, 1000] []).Runs (fun _ => (none : Option ℕ))
      (greetedEvents playerPresence) c ∧ c.AtRest ∧
    (client (fun _ => (none : Option ℕ)) (.start greeted [0, 0, 1000] [])).Along
      Client.NotOvertaken (.start greeted [0, 0, 1000] [])
      (greetedEvents playerPresence) := by
  have hruns : ((client (fun _ => (none : Option ℕ))
      (.start greeted [0, 0, 1000] [])).run (.start greeted [0, 0, 1000] [])
        (greetedEvents playerPresence)).map (fun r =>
          (r.1.Instance.isOpen, r.1.Instance.context.UpdatePresence, r.1.io)) =
      some (true, false, .outside) ∧
      (client (fun _ => (none : Option ℕ))
        (.start greeted [0, 0, 1000] [])).alongB (fun c _ => match c.io with
          | .failed _ => false
          | _ => true) (.start greeted [0, 0, 1000] [])
        (greetedEvents playerPresence) = true := by
    decide +kernel
  obtain ⟨⟨c, os⟩, hrun, hrest⟩ := Option.map_eq_some_iff.mp hruns.1
  obtain ⟨hopen, hrest⟩ := Prod.mk.inj hrest
  obtain ⟨hflag, hio⟩ := Prod.mk.inj hrest
  refine ⟨c, ⟨os, hrun⟩, ⟨hopen, hflag, hio⟩,
    Machine.along_of_alongB ?_ hruns.2⟩
  intro c e h
  cases e with
  | io =>
      intro m hm
      rw [hm] at h
      cases h
  | game call => trivial
  | join => trivial

theorem queued_on_pipe_greeted : ∃ c,
    (Client.start greeted [0, 0, 1000] []).Runs (fun _ => (none : Option ℕ))
      (greetedEvents playerPresence) c ∧ c.AtRest ∧
    c.Instance.connection.said = queued? c.Instance.context.QueuedPresence := by
  obtain ⟨c, hrun, hrest, -⟩ := greeted_rests
  exact ⟨c, hrun, hrest, queued_on_pipe plain_greeted hrun hrest⟩

theorem latest_on_pipe (hplain : ∀ e ∈ es, e.Plain)
    (h : (Client.start answers clock delays).Runs toDouble es c)
    (hcalm : (client toDouble (.start answers clock delays)).Along
      Client.NotOvertaken (.start answers clock delays) es)
    (hrest : c.AtRest) :
    ∃ texts, List.Forall₂ IsMessage (es.flatMap ClientEvent.presences) texts ∧
      c.Instance.connection.said = texts.getLast? := by
  obtain ⟨evs, s, os, hlink, hs, hmessages, hnot⟩ := linked_run hplain h
  refine ⟨updates evs, hmessages, ?_⟩
  have hlatest := latest_at_rest hlink (hnot hcalm) (hs ▸ hrest.link s.latest)
  rw [latest_run hlink, hs] at hlatest
  exact hlatest.trans (Option.or_none)

/-- **No update is lost** where none overtakes a failed send: until the game calls
`Discord_Shutdown`, at rest the last presence that it set is the last command that
went over the open pipe. -/
theorem no_update_lost (hplain : ∀ e ∈ es, e.Plain)
    (h : (Client.start answers clock delays).Runs toDouble es c)
    (hcalm : (client toDouble (.start answers clock delays)).Along
      Client.NotOvertaken (.start answers clock delays) es)
    (hrest : c.AtRest) {presence : Option DiscordRichPresence}
    (hlast : (es.flatMap ClientEvent.presences).getLast? = some presence) :
    ∃ text, c.Instance.connection.said = some text ∧ IsMessage presence text := by
  obtain ⟨texts, hmessages, hsaid⟩ := latest_on_pipe hplain h hcalm hrest
  obtain ⟨text, htext, hmessage⟩ := getLast?_forall₂ hmessages hlast
  exact ⟨text, hsaid.trans htext, hmessage⟩

theorem no_update_lost_greeted : ∃ c,
    (Client.start greeted [0, 0, 1000] []).Runs (fun _ => (none : Option ℕ))
      (greetedEvents playerPresence) c ∧ c.AtRest ∧
    ∃ text, c.Instance.connection.said = some text ∧
      IsMessage playerPresence text := by
  obtain ⟨c, hrun, hrest, hcalm⟩ := greeted_rests
  exact ⟨c, hrun, hrest,
    no_update_lost plain_greeted hrun hcalm hrest rfl⟩

section Delivered

variable {lang : Localization} {setup : Setup} {env : ℕ → LoopInput} {n : ℕ}

/-- What is on the pipe when the client is at rest after the first `n + 1`
iterations of the loop is a message of the call in force. -/
theorem callMessage_on_pipe (hplain : ∀ e ∈ es, e.Plain)
    (h : (Client.start answers clock delays).Runs toDouble es c)
    (hcalm : (client toDouble (.start answers clock delays)).Along
      Client.NotOvertaken (.start answers clock delays) es)
    (hrest : c.AtRest)
    (hcalls : es.flatMap ClientEvent.presences =
      ((List.range (n + 1)).flatMap (callsAt lang setup env)).map
        fun call => some (Discord.update call)) :
    ∃ text, c.Instance.connection.said = some text ∧
      ∃ nonce pid, callMessage pid nonce (callAt lang setup env
        (spanStart (levelAt setup env) n)) = some text := by
  obtain ⟨texts, hmessages, hsaid⟩ := latest_on_pipe hplain h hcalm hrest
  have hlast := (latest_call lang setup env n).getLast?
  have hpresence : (es.flatMap ClientEvent.presences).getLast? = some (some
      (Discord.update (callAt lang setup env
        (spanStart (levelAt setup env) n)))) := by
    rw [hcalls, List.getLast?_map, hlast]
    rfl
  obtain ⟨text, htext, nonce, pid, hwrite⟩ :=
    getLast?_forall₂ hmessages hpresence
  exact ⟨text, hsaid.trans htext, nonce, pid, hwrite⟩

theorem callAt_spanStart_mem : callAt lang setup env
      (spanStart (levelAt setup env) n) ∈
    callsAt lang setup env (spanStart (levelAt setup env) n) :=
  (mem_callsAt_iff lang setup env).mpr ⟨starts_spanStart _ n, rfl⟩

end Delivered

/-- **From game memory to the pipe.** When the client is at rest after the first
`n + 1` iterations of the loop, with no update overtaking a failed send, the last
command on the open pipe gives the call in force back. This is until the game
calls `Discord_Shutdown`. -/
theorem call_on_pipe (lang : Localization) (setup : Setup) (env : ℕ → LoopInput)
    (n : ℕ) (hplain : ∀ e ∈ es, e.Plain)
    (h : (Client.start answers clock delays).Runs toDouble es c)
    (hcalm : (client toDouble (.start answers clock delays)).Along
      Client.NotOvertaken (.start answers clock delays) es)
    (hrest : c.AtRest)
    (hcalls : es.flatMap ClientEvent.presences =
      ((List.range (n + 1)).flatMap (callsAt lang setup env)).map
        fun call => some (Discord.update call)) :
    ∃ text, c.Instance.connection.said = some text ∧
      received text = some (Discord.update
        (callAt lang setup env (spanStart (levelAt setup env) n))) := by
  obtain ⟨text, hsaid, nonce, pid, hcall⟩ :=
    callMessage_on_pipe hplain h hcalm hrest hcalls
  obtain ⟨text', htext, hread⟩ :=
    received_call callAt_spanStart_mem pid (nonce_ne_of_callMessage hcall)
  rw [hcall] at htext
  cases htext
  exact ⟨text, hsaid, hread⟩

/-- The calls of the first iteration of `hangarMemory` are those the game makes in
the run of `greetedEvents`. -/
theorem presences_greeted :
    (greetedEvents playerPresence).flatMap ClientEvent.presences =
      ((List.range (0 + 1)).flatMap (callsAt .EEng attached hangarMemory)).map
        fun call => some (Discord.update call) := by
  have hcalls : callsAt .EEng attached hangarMemory 0 =
      [callAt .EEng attached hangarMemory 0] := by
    rw [callsAt_eq, if_pos (show Starts (levelAt attached hangarMemory) 0 from
      trivial)]
  show [playerPresence] = _
  rw [show List.range (0 + 1) = [0] from rfl, List.flatMap_singleton, hcalls]
  rfl

theorem call_on_pipe_greeted : ∃ c,
    (Client.start greeted [0, 0, 1000] []).Runs (fun _ => (none : Option ℕ))
      (greetedEvents playerPresence) c ∧ c.AtRest ∧
    ∃ text, c.Instance.connection.said = some text ∧
      received text = some (Discord.update (callAt .EEng attached hangarMemory
        (spanStart (levelAt attached hangarMemory) 0))) := by
  obtain ⟨c, hrun, hrest, hcalm⟩ := greeted_rests
  exact ⟨c, hrun, hrest, call_on_pipe .EEng attached hangarMemory 0 plain_greeted
    hrun hcalm hrest presences_greeted⟩

/-- **What Discord gets is a text** exactly when the build is the English one and
the call in force is of a map, or of a nickname that the cut to 20 bytes leaves
whole: the JSON around the texts adds nothing that is not. `u` is the nickname
that the game had stored when the call in force was made. -/
theorem valid_on_pipe_iff (lang : Localization) (setup : Setup)
    (env : ℕ → LoopInput) (n : ℕ) (hplain : ∀ e ∈ es, e.Plain)
    (h : (Client.start answers clock delays).Runs toDouble es c)
    (hcalm : (client toDouble (.start answers clock delays)).Along
      Client.NotOvertaken (.start answers clock delays) es)
    (hrest : c.AtRest)
    (hcalls : es.flatMap ClientEvent.presences =
      ((List.range (n + 1)).flatMap (callsAt lang setup env)).map
        fun call => some (Discord.update call))
    {u : List UInt8} (hread : StoredNicknameRead setup env
      (spanStart (levelAt setup env) n) u) :
    ∃ text, c.Instance.connection.said = some text ∧
      (Utf8.Valid text ↔ lang = .EEng ∧
        (MapKey (nameAt setup env (spanStart (levelAt setup env) n)) ∨
          ∀ b ∈ u[20]?, b.IsUTF8FirstByte)) := by
  obtain ⟨text, hsaid, nonce, pid, hcall⟩ :=
    callMessage_on_pipe hplain h hcalm hrest hcalls
  refine ⟨text, hsaid, ?_⟩
  rw [valid_callMessage_iff callAt_spanStart_mem hcall]
  exact validTexts_callAt_iff lang hread

theorem valid_on_pipe_iff_greeted : ∃ c,
    (Client.start greeted [0, 0, 1000] []).Runs (fun _ => (none : Option ℕ))
      (greetedEvents playerPresence) c ∧ c.AtRest ∧
    ∃ text, c.Instance.connection.said = some text ∧ Utf8.Valid text := by
  obtain ⟨c, hrun, hrest, hcalm⟩ := greeted_rests
  have hread : StoredNicknameRead attached hangarMemory
      (spanStart (levelAt attached hangarMemory) 0) (lit "Player") :=
    ⟨0, le_rfl, ⟨_, ⟨Utf8.valid_lit _, by decide +kernel, by decide +kernel,
        by decide +kernel⟩, nicknameResult_ofResults attached _
          (fun _ => holding (lit "Player")) _ 0⟩,
      fun k hk hk0 => absurd hk (not_lt.mpr hk0)⟩
  have hwhole : ∀ b ∈ (lit "Player")[20]?, b.IsUTF8FirstByte := by
    rw [List.getElem?_eq_none (show (lit "Player").length ≤ 20 by decide +kernel)]
    rintro b ⟨⟩
  obtain ⟨text, hsaid, hvalid⟩ := valid_on_pipe_iff .EEng attached hangarMemory 0
    plain_greeted hrun hcalm hrest presences_greeted hread
  exact ⟨c, hrun, hrest, text, hsaid, hvalid.mpr ⟨rfl, Or.inr hwhole⟩⟩

end AtRest

end AWRPC
