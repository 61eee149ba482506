import AWRPC.Client
import AWRPC.Lib.Machine

/-!
# Signals to the game

`Discord_RunCallbacks` on the game's thread and the callbacks of the connection on
the I/O thread, at the accesses to the flags that they share. The comment over
`Discord_RunCallbacks` wants all other signals to be book-ended by calls to ready
and disconnect. They are, and the game is right about the connection whenever no
signal is left, in every run in which no connection is made during a call and
`IsOpen` is not asked while one is half made or half closed.
-/

namespace AWRPC

/-! ## §1  The two threads -/

/-- What the I/O thread tells of while the connection is open. -/
inductive Signal where
  | errored | joinGame | spectateGame
deriving DecidableEq

/-- Which of the handlers is called. -/
inductive Call where
  | ready | disconnected
  | signal (k : Signal)
  | joinRequest
deriving DecidableEq

/-- Where the I/O thread stands: in `Open` between the state and `onConnect`, in
`Close` between `onDisconnect` and the state, or in neither. -/
inductive HookPlace where
  | idle | connecting | closing
deriving DecidableEq

/-- Where `Discord_RunCallbacks` stands, with its variables `wasDisconnected` and
`isConnected` and the flags that it has not yet exchanged. -/
inductive CallPlace where
  | outside
  | exchanged (wasDisconnected : Bool)
  | asked (wasDisconnected isConnected : Bool)
  | taking (wasDisconnected isConnected : Bool) (left : List Signal)
deriving DecidableEq

/-- The flags, the requests to join that wait, and the handlers called so far. -/
structure Signals where
  isOpen : Bool := false
  WasJustConnected : Bool := false
  WasJustDisconnected : Bool := false
  raised : Signal → Bool := fun _ => false
  requests : ℕ := 0
  io : HookPlace := .idle
  game : CallPlace := .outside
  calls : List Call := []

inductive HookMove where
  | connect | connected | disconnect | closed
  | raise (k : Signal)
  | request

inductive SignalEvent where
  | io (move : HookMove)
  | game

namespace Signals

/-- A handshake that is refused disconnects as well. -/
def ioStep (s : Signals) : HookMove → Option Signals
  | .connect =>
      if s.io = .idle ∧ s.isOpen = false then
        some { s with isOpen := true, io := .connecting }
      else none
  | .connected =>
      if s.io = .connecting then
        some { s with WasJustConnected := true, io := .idle }
      else none
  | .disconnect =>
      if s.io = .idle then
        some { s with WasJustDisconnected := true, io := .closing }
      else none
  | .closed =>
      if s.io = .closing then some { s with isOpen := false, io := .idle }
      else none
  | .raise k =>
      if s.io = .idle ∧ s.isOpen = true then
        some { s with raised := Function.update s.raised k true }
      else none
  | .request =>
      if s.io = .idle ∧ s.isOpen = true then
        some { s with requests := s.requests + 1 }
      else none

/-- `Discord_RunCallbacks`, up to its next access; every handler is there. -/
def gameStep (s : Signals) : Signals :=
  match s.game with
  | .outside =>
      { s with
        WasJustDisconnected := false
        game := .exchanged s.WasJustDisconnected }
  | .exchanged wasDisconnected =>
      { s with
        game := .asked wasDisconnected s.isOpen
        calls := s.calls ++
          if s.isOpen && wasDisconnected then [.disconnected] else [] }
  | .asked wasDisconnected isConnected =>
      { s with
        WasJustConnected := false
        game := .taking wasDisconnected isConnected
          [.errored, .joinGame, .spectateGame]
        calls := s.calls ++ if s.WasJustConnected then [.ready] else [] }
  | .taking wasDisconnected isConnected (k :: left) =>
      { s with
        raised := Function.update s.raised k false
        game := .taking wasDisconnected isConnected left
        calls := s.calls ++ if s.raised k then [.signal k] else [] }
  | .taking wasDisconnected isConnected [] =>
      if 0 < s.requests then
        { s with requests := s.requests - 1, calls := s.calls ++ [.joinRequest] }
      else
        { s with
          game := .outside
          calls := s.calls ++
            if !isConnected && wasDisconnected then [.disconnected] else [] }

end Signals

def signals : Machine Signals SignalEvent Unit where
  init := {}
  step s
    | .io move => (s.ioStep move).map fun s' => (s', ())
    | .game => some (s.gameStep, ())

/-! ## §2  What the game believes -/

/-- What a call says about the connection. -/
def Call.told : Call → Option Bool
  | .ready => some true
  | .disconnected => some false
  | _ => none

/-- What the last call that said something said. -/
def believes (calls : List Call) : Bool :=
  (calls.filterMap Call.told).getLast?.getD false

/-- All other calls come while the game believes that it is connected. -/
def BookEnded (calls : List Call) : Prop :=
  ∀ front c rest, calls = front ++ c :: rest → c.told = none →
    believes front = true

theorem believes_snoc (calls : List Call) (c : Call) :
    believes (calls ++ [c]) = c.told.getD (believes calls) := by
  rw [believes, List.filterMap_append, List.getLast?_append]
  cases h : c.told with
  | none => simp [h, believes]
  | some b => simp [h]

theorem bookEnded_nil : BookEnded [] := by
  intro front c rest h
  exact absurd h (by simp)

theorem BookEnded.snoc {calls : List Call} {c : Call} (h : BookEnded calls)
    (hc : c.told = none → believes calls = true) : BookEnded (calls ++ [c]) := by
  intro front c' rest heq hc'
  rcases List.eq_nil_or_concat rest with rfl | ⟨rest, last, rfl⟩
  · obtain ⟨rfl, hlast⟩ := List.append_inj' heq rfl
    cases hlast
    exact hc hc'
  · rw [List.concat_eq_append, ← List.cons_append, ← List.append_assoc] at heq
    obtain ⟨hfront, -⟩ := List.append_inj' heq rfl
    exact h front c' rest hfront hc'

theorem believes_snocIf (calls : List Call) (c : Call) (b : Bool) :
    believes (calls ++ if b then [c] else []) =
      if b then c.told.getD (believes calls) else believes calls := by
  cases b with
  | true => exact believes_snoc calls c
  | false => exact congrArg believes (List.append_nil calls)

theorem BookEnded.snocIf {calls : List Call} {c : Call} {b : Bool}
    (h : BookEnded calls)
    (hc : b = true → c.told = none → believes calls = true) :
    BookEnded (calls ++ if b then [c] else []) := by
  cases b with
  | true => exact h.snoc (hc rfl)
  | false => rwa [if_neg Bool.false_ne_true, List.append_nil]

/-! ## §3  The invariant -/

/-- The call to `disconnected` that `Discord_RunCallbacks` still has to make. -/
def CallPlace.owes : CallPlace → Bool
  | .outside => false
  | .exchanged wasDisconnected => wasDisconnected
  | .asked wasDisconnected isConnected => !isConnected && wasDisconnected
  | .taking wasDisconnected isConnected _ => !isConnected && wasDisconnected

/-- `IsOpen` has been asked, and what the answer was. -/
def CallPlace.answer? : CallPlace → Option Bool
  | .outside => none
  | .exchanged _ => none
  | .asked _ isConnected => some isConnected
  | .taking _ isConnected _ => some isConnected

namespace Signals

/-- No connection is made during a call, and `IsOpen` is not asked while one is
half made or half closed. -/
def Calm (s : Signals) : SignalEvent → Prop
  | .io .connected => s.game = .outside
  | .io _ => True
  | .game => ∀ wasDisconnected, s.game = .exchanged wasDisconnected →
      s.io = .idle

/-- Some flag is up, or some request waits. -/
def Pending (s : Signals) : Prop :=
  0 < s.requests ∨ ∃ k, s.raised k = true

/-- The connection is made, and the game will be told or has been. -/
def Stands (s : Signals) : Prop :=
  s.io = .idle ∧ s.isOpen = true

/-- Either the game has been told how things stand, or a flag is up that will tell
it. -/
structure Orderly (s : Signals) : Prop where
  bookEnded : BookEnded s.calls
  opening : s.io = .connecting → s.isOpen = true
  stands : s.Stands → s.WasJustConnected = true ∨
    believes s.calls = true ∧ s.WasJustDisconnected = false ∧
      s.game.owes = false
  fallen : ¬ s.Stands → s.WasJustDisconnected = true ∨ s.game.owes = true ∨
    s.io ≠ .closing ∧ believes s.calls = false ∧ s.WasJustConnected = false
  lasting : s.io = .closing → s.game.answer? ≠ none →
    s.WasJustDisconnected = true
  kept : s.game ≠ .outside → s.Stands → s.WasJustDisconnected = false
  down : s.game.answer? = some false → ¬ s.Stands
  taken : ∀ wasDisconnected isConnected left,
    s.game = .taking wasDisconnected isConnected left →
      s.WasJustConnected = false
  told : s.Pending → believes s.calls = true ∨ s.WasJustConnected = true
  left : ∀ wasDisconnected left,
    s.game = .taking wasDisconnected false left →
      ∀ k, s.raised k = true → k ∈ left

theorem orderly_init : signals.init.Orderly := by
  refine ⟨bookEnded_nil, nofun, ?_,
    fun _ => Or.inr (Or.inr ⟨nofun, rfl, rfl⟩), nofun,
    fun hne => absurd rfl hne, nofun, fun _ _ _ => nofun, ?_, fun _ _ => nofun⟩
  · rintro ⟨-, h⟩
    cases h
  · rintro (h | ⟨k, h⟩)
    · cases h
    · cases h

section Steps

variable {s s' : Signals}

/-- While the connection stands, whatever is raised will be told. -/
theorem Orderly.told_of_stands (h : s.Orderly) (hstands : s.Stands) :
    believes s.calls = true ∨ s.WasJustConnected = true := by
  rcases h.stands hstands with hc | ⟨hb, -⟩
  · exact Or.inr hc
  · exact Or.inl hb

/-- A connection that is told of next sets everything right. -/
theorem connected_orderly (hbook : BookEnded s.calls)
    (hc : s.WasJustConnected = true) (hstands : s.Stands)
    (hgame : s.game = .outside) : s.Orderly := by
  refine ⟨hbook, fun _ => hstands.2, fun _ => Or.inl hc,
    fun hnot => absurd hstands hnot, ?_, fun hne => absurd hgame hne, ?_, ?_,
    fun _ => Or.inr hc, ?_⟩
  · intro hclosing
    cases hstands.1.symm.trans hclosing
  · rw [hgame]
    rintro ⟨⟩
  · rw [hgame]
    rintro w i left ⟨⟩
  · rw [hgame]
    rintro w left ⟨⟩

theorem ioStep_orderly (h : s.Orderly) (move : HookMove)
    (hcalm : s.Calm (.io move)) (hstep : s.ioStep move = some s') :
    s'.Orderly := by
  cases move with
  | connect =>
      obtain ⟨⟨hio, hopen⟩, hsome⟩ := Option.ite_none_right_eq_some.mp hstep
      cases hsome
      have hnot : ¬ s.Stands := by
        rintro ⟨-, hopen'⟩
        exact Bool.false_ne_true (hopen.symm.trans hopen')
      have hhalf : ∀ t : Signals, t.io = .connecting → ¬ t.Stands := by
        rintro t ht ⟨ht', -⟩
        cases ht.symm.trans ht'
      refine ⟨h.bookEnded, fun _ => rfl, fun hs => absurd hs (hhalf _ rfl), ?_,
        nofun, fun _ hs => absurd hs (hhalf _ rfl), fun _ => hhalf _ rfl, h.taken,
        h.told, h.left⟩
      intro _
      rcases h.fallen hnot with hd | ho | ⟨-, hb, hc⟩
      · exact Or.inl hd
      · exact Or.inr (Or.inl ho)
      · exact Or.inr (Or.inr ⟨nofun, hb, hc⟩)
  | connected =>
      obtain ⟨hio, hsome⟩ := Option.ite_none_right_eq_some.mp hstep
      cases hsome
      exact connected_orderly h.bookEnded rfl ⟨rfl, h.opening hio⟩ hcalm
  | disconnect =>
      obtain ⟨hio, hsome⟩ := Option.ite_none_right_eq_some.mp hstep
      cases hsome
      have hhalf : ∀ t : Signals, t.io = .closing → ¬ t.Stands := by
        rintro t ht ⟨ht', -⟩
        cases ht.symm.trans ht'
      exact ⟨h.bookEnded, nofun, fun hs => absurd hs (hhalf _ rfl),
        fun _ => Or.inl rfl, fun _ _ => rfl,
        fun _ hs => absurd hs (hhalf _ rfl), fun _ => hhalf _ rfl, h.taken,
        h.told, h.left⟩
  | closed =>
      obtain ⟨hio, hsome⟩ := Option.ite_none_right_eq_some.mp hstep
      cases hsome
      have hnot : ¬ s.Stands := by
        rintro ⟨hio', -⟩
        cases hio.symm.trans hio'
      have hdown : ∀ t : Signals, t.isOpen = false → ¬ t.Stands := by
        rintro t ht ⟨-, ht'⟩
        cases ht.symm.trans ht'
      refine ⟨h.bookEnded, nofun, fun hs => absurd hs (hdown _ rfl), ?_, nofun,
        fun _ hs => absurd hs (hdown _ rfl), fun _ => hdown _ rfl, h.taken,
        h.told, h.left⟩
      intro _
      rcases h.fallen hnot with hd | ho | ⟨hne, -⟩
      · exact Or.inl hd
      · exact Or.inr (Or.inl ho)
      · exact absurd hio hne
  | raise k =>
      obtain ⟨hstands, hsome⟩ := Option.ite_none_right_eq_some.mp hstep
      cases hsome
      refine ⟨h.bookEnded, h.opening, h.stands, h.fallen, h.lasting, h.kept,
        h.down, h.taken, fun _ => h.told_of_stands hstands, ?_⟩
      intro w left htaking
      exact absurd hstands (h.down (by rw [htaking]; rfl))
  | request =>
      obtain ⟨hstands, hsome⟩ := Option.ite_none_right_eq_some.mp hstep
      cases hsome
      exact ⟨h.bookEnded, h.opening, h.stands, h.fallen, h.lasting, h.kept,
        h.down, h.taken, fun _ => h.told_of_stands hstands, h.left⟩

/-- What was to be told of a disconnection is owed after the exchange. -/
theorem exchange_orderly (h : s.Orderly) (hgame : s.game = .outside) :
    Orderly
      { s with
        WasJustDisconnected := false
        game := .exchanged s.WasJustDisconnected } := by
  have hstands := h.stands
  have hfallen := h.fallen
  rw [hgame] at hstands hfallen
  refine ⟨h.bookEnded, h.opening, ?_, ?_, fun _ hne => absurd rfl hne,
    fun _ _ => rfl, nofun, fun _ _ _ => nofun, h.told, fun _ _ => nofun⟩
  · intro hs
    rcases hstands hs with hc | ⟨hb, hd, -⟩
    · exact Or.inl hc
    · exact Or.inr ⟨hb, rfl, hd⟩
  · intro hnot
    rcases hfallen hnot with hd | ho | hthird
    · exact Or.inr (Or.inl hd)
    · cases ho
    · exact Or.inr (Or.inr hthird)

/-- A connection that is there is asked after, and the call owed is made. -/
theorem ask_open_orderly (h : s.Orderly) {w : Bool}
    (hgame : s.game = .exchanged w) (hs : s.Stands) :
    Orderly
      { s with
        game := .asked w true
        calls := s.calls ++ if w then [.disconnected] else [] } := by
  have hstands := h.stands hs
  rw [hgame] at hstands
  have hd : s.WasJustDisconnected = false :=
    h.kept (by rw [hgame]; rintro ⟨⟩) hs
  cases w with
  | true =>
      -- the old connection is over, the new one is still to be told of
      have hc : s.WasJustConnected = true := by
        rcases hstands with hc | ⟨-, -, ho⟩
        · exact hc
        · cases ho
      refine ⟨h.bookEnded.snoc nofun, h.opening, fun _ => Or.inl hc,
        fun hnot => absurd hs hnot, ?_, fun _ _ => hd, nofun, fun _ _ _ => nofun,
        fun _ => Or.inr hc, fun _ _ => nofun⟩
      intro hclosing
      cases hs.1.symm.trans hclosing
  | false =>
      rw [if_neg Bool.false_ne_true, List.append_nil]
      refine ⟨h.bookEnded, h.opening, fun _ => hstands,
        fun hnot => absurd hs hnot, ?_, fun _ _ => hd, nofun, fun _ _ _ => nofun,
        h.told, fun _ _ => nofun⟩
      intro hclosing
      cases hs.1.symm.trans hclosing

theorem ask_closed_orderly (h : s.Orderly) {w : Bool}
    (hgame : s.game = .exchanged w) (hio : s.io = .idle)
    (hopen : s.isOpen = false) :
    Orderly { s with game := .asked w false } := by
  have hnot : ¬ s.Stands := by
    rintro ⟨-, hopen'⟩
    exact Bool.false_ne_true (hopen.symm.trans hopen')
  have hfallen := h.fallen hnot
  rw [hgame] at hfallen
  refine ⟨h.bookEnded, h.opening, fun hs => absurd hs hnot, fun _ => hfallen, ?_,
    fun _ hs => absurd hs hnot, fun _ => hnot, fun _ _ _ => nofun, h.told,
    fun _ _ => nofun⟩
  intro hclosing
  cases hio.symm.trans hclosing

/-- Behind the call to `ready` the game is right about a connection. -/
theorem takeReady_orderly (h : s.Orderly) {w i : Bool}
    (hgame : s.game = .asked w i) :
    Orderly
      { s with
        WasJustConnected := false
        game := .taking w i [.errored, .joinGame, .spectateGame]
        calls := s.calls ++ if s.WasJustConnected then [.ready] else [] } := by
  have hbelieves : believes
      (s.calls ++ if s.WasJustConnected then [.ready] else []) =
        (s.WasJustConnected || believes s.calls) := by
    rw [believes_snocIf]
    cases s.WasJustConnected with
    | true => rfl
    | false => rfl
  have hanswer : s.game.answer? = some i := by rw [hgame]; rfl
  have hne : s.game ≠ .outside := by
    rw [hgame]
    rintro ⟨⟩
  refine ⟨h.bookEnded.snocIf fun _ => nofun, h.opening, ?_, ?_, ?_,
    fun _ => h.kept hne, ?_, fun _ _ _ _ => rfl, ?_, ?_⟩
  · intro hs
    have hi : i = true := by
      cases i with
      | true => rfl
      | false => exact absurd hs (h.down hanswer)
    refine Or.inr ⟨?_, h.kept hne hs, ?_⟩
    · rw [hbelieves]
      rcases h.told_of_stands hs with hb | hc
      · rw [hb, Bool.or_true]
      · rw [hc, Bool.true_or]
    · rw [CallPlace.owes, hi]
      rfl
  · intro hnot
    have hfallen := h.fallen hnot
    rw [hgame] at hfallen
    rcases hfallen with hd | ho | ⟨hio, hb, hc⟩
    · exact Or.inl hd
    · exact Or.inr (Or.inl ho)
    · refine Or.inr (Or.inr ⟨hio, ?_, rfl⟩)
      rw [hbelieves, hb, hc]
      rfl
  · intro hclosing _
    exact h.lasting hclosing (by rw [hanswer]; rintro ⟨⟩)
  · intro hi
    exact h.down (hanswer.trans hi)
  · intro hpending
    refine Or.inl ?_
    rw [hbelieves]
    rcases h.told hpending with hb | hc
    · rw [hb, Bool.or_true]
    · rw [hc, Bool.true_or]
  · rintro w' left ⟨⟩ k _
    cases k with
    | errored => exact List.mem_cons_self
    | joinGame => exact List.mem_cons_of_mem _ List.mem_cons_self
    | spectateGame =>
        exact List.mem_cons_of_mem _ (List.mem_cons_of_mem _ List.mem_cons_self)

/-- Whatever is raised, the game believes that it is connected when it gets there. -/
theorem Orderly.believes_of_pending (h : s.Orderly) {w i : Bool}
    {left : List Signal} (hgame : s.game = .taking w i left) (hp : s.Pending) :
    believes s.calls = true := by
  rcases h.told hp with hb | hc
  · exact hb
  · exact absurd ((h.taken w i left hgame).symm.trans hc) Bool.false_ne_true

/-- A call between the book-ends leaves the game believing what it did. -/
theorem takeSignal_orderly (h : s.Orderly) {w i : Bool} {k : Signal}
    {left : List Signal} (hgame : s.game = .taking w i (k :: left)) :
    Orderly
      { s with
        raised := Function.update s.raised k false
        game := .taking w i left
        calls := s.calls ++ if s.raised k then [.signal k] else [] } := by
  have hbelieves :
      believes (s.calls ++ if s.raised k then [.signal k] else []) =
        believes s.calls := by
    rw [believes_snocIf]
    cases s.raised k with
    | true => rfl
    | false => rfl
  have hraised : ∀ k', Function.update s.raised k false k' = true →
      k' ≠ k ∧ s.raised k' = true := by
    intro k' hk'
    by_cases heq : k' = k
    · rw [heq, Function.update_self] at hk'
      cases hk'
    · rw [Function.update_of_ne heq] at hk'
      exact ⟨heq, hk'⟩
  have howes : s.game.owes = (!i && w) := by rw [hgame]; rfl
  have hanswer : s.game.answer? = some i := by rw [hgame]; rfl
  have hne : s.game ≠ .outside := by
    rw [hgame]
    rintro ⟨⟩
  refine ⟨?_, h.opening, ?_, ?_, ?_, fun _ => h.kept hne, ?_, ?_, ?_, ?_⟩
  · exact h.bookEnded.snocIf fun hk _ =>
      h.believes_of_pending hgame (Or.inr ⟨k, hk⟩)
  · intro hs
    have hstands := h.stands hs
    rw [howes, ← hbelieves] at hstands
    exact hstands
  · intro hnot
    have hfallen := h.fallen hnot
    rw [howes, ← hbelieves] at hfallen
    exact hfallen
  · intro hclosing _
    exact h.lasting hclosing (by rw [hanswer]; rintro ⟨⟩)
  · intro hi
    exact h.down (hanswer.trans hi)
  · rintro w' i' left' ⟨⟩
    exact h.taken w i _ hgame
  · intro hpending
    refine Or.inl (hbelieves.trans (h.believes_of_pending hgame ?_))
    rcases hpending with hreq | ⟨k', hk'⟩
    · exact Or.inl hreq
    · exact Or.inr ⟨k', (hraised k' hk').2⟩
  · rintro w' left' ⟨⟩ k' hk'
    obtain ⟨hkne, hup⟩ := hraised k' hk'
    rcases List.mem_cons.mp (h.left w _ hgame k' hup) with heq | hmem
    · exact absurd heq hkne
    · exact hmem

theorem takeRequest_orderly (h : s.Orderly) {w i : Bool}
    (hgame : s.game = .taking w i []) (hreq : 0 < s.requests) :
    Orderly
      { s with
        requests := s.requests - 1
        calls := s.calls ++ [.joinRequest] } := by
  have hbelieves : believes (s.calls ++ [.joinRequest]) = believes s.calls :=
    believes_snoc s.calls .joinRequest
  have hb : believes s.calls = true :=
    h.believes_of_pending hgame (Or.inl hreq)
  refine ⟨h.bookEnded.snoc fun _ => hb, h.opening, ?_, ?_, h.lasting, h.kept,
    h.down, h.taken, fun _ => Or.inl (hbelieves.trans hb), h.left⟩
  · intro hs
    rw [hbelieves]
    exact h.stands hs
  · intro hnot
    rw [hbelieves]
    exact h.fallen hnot

/-- The call that is still owed comes last. -/
theorem leave_orderly (h : s.Orderly) {w i : Bool}
    (hgame : s.game = .taking w i []) (hreq : s.requests = 0) :
    Orderly
      { s with
        game := .outside
        calls := s.calls ++ if !i && w then [.disconnected] else [] } := by
  have howes : s.game.owes = (!i && w) := by rw [hgame]; rfl
  have hanswer : s.game.answer? = some i := by rw [hgame]; rfl
  cases howe : !i && w with
  | true =>
      obtain ⟨hi, -⟩ := Bool.and_eq_true_iff.mp howe
      rw [Bool.not_eq_true'] at hi
      have hnot : ¬ s.Stands := h.down (by rw [hanswer, hi])
      have hbelieves : believes (s.calls ++ [.disconnected]) = false :=
        believes_snoc s.calls .disconnected
      refine ⟨h.bookEnded.snoc nofun, h.opening, fun hs => absurd hs hnot, ?_,
        fun _ hne => absurd rfl hne, fun hne => absurd rfl hne, nofun,
        fun _ _ _ => nofun, ?_, fun _ _ => nofun⟩
      · intro _
        by_cases hclosing : s.io = .closing
        · refine Or.inl (h.lasting hclosing ?_)
          rw [hanswer]
          rintro ⟨⟩
        · exact Or.inr (Or.inr ⟨hclosing, hbelieves, h.taken w i [] hgame⟩)
      · rintro (hlt | ⟨k, hk⟩)
        · exact absurd hreq (Nat.ne_of_gt hlt)
        · -- nothing was raised while no connection stood
          rw [hi] at hgame
          exact absurd (h.left w [] hgame k hk) List.not_mem_nil
  | false =>
      have hstands := h.stands
      have hfallen := h.fallen
      have htold := h.told
      rw [howes, howe] at hstands hfallen
      rw [if_neg Bool.false_ne_true, List.append_nil]
      exact ⟨h.bookEnded, h.opening, hstands, hfallen,
        fun _ hne => absurd rfl hne, fun hne => absurd rfl hne, nofun,
        fun _ _ _ => nofun, htold, fun _ _ => nofun⟩

/-- **One access of `Discord_RunCallbacks`.** -/
theorem gameStep_orderly (h : s.Orderly) (hcalm : s.Calm .game) :
    s.gameStep.Orderly := by
  cases hgame : s.game with
  | outside =>
      rw [gameStep, hgame]
      exact exchange_orderly h hgame
  | exchanged w =>
      have hio := hcalm w hgame
      rcases Bool.eq_false_or_eq_true s.isOpen with hopen | hopen
      · have hstep : s.gameStep =
            { s with
              game := .asked w true
              calls := s.calls ++ if w then [.disconnected] else [] } := by
          simp only [gameStep, hgame, hopen, Bool.true_and]
        rw [hstep]
        exact ask_open_orderly h hgame ⟨hio, hopen⟩
      · have hstep : s.gameStep = { s with game := .asked w false } := by
          simp only [gameStep, hgame, hopen, Bool.false_and,
            if_neg Bool.false_ne_true, List.append_nil]
        rw [hstep]
        exact ask_closed_orderly h hgame hio hopen
  | asked w i =>
      rw [gameStep, hgame]
      exact takeReady_orderly h hgame
  | taking w i left =>
      cases left with
      | cons k left =>
          rw [gameStep, hgame]
          exact takeSignal_orderly h hgame
      | nil =>
          by_cases hreq : 0 < s.requests
          · have hstep : s.gameStep =
                { s with
                  requests := s.requests - 1
                  calls := s.calls ++ [.joinRequest] } := by
              simp only [gameStep, hgame, if_pos hreq]
            rw [hstep]
            exact takeRequest_orderly h hgame hreq
          · have hstep : s.gameStep =
                { s with
                  game := .outside
                  calls := s.calls ++
                    if !i && w then [.disconnected] else [] } := by
              simp only [gameStep, hgame, if_neg hreq]
            rw [hstep]
            exact leave_orderly h hgame (Nat.eq_zero_of_not_pos hreq)

end Steps

instance (s : Signals) : (e : SignalEvent) → Decidable (s.Calm e)
  | .io .connect => .isTrue trivial
  | .io .connected => inferInstanceAs (Decidable (s.game = .outside))
  | .io .disconnect => .isTrue trivial
  | .io .closed => .isTrue trivial
  | .io (.raise _) => .isTrue trivial
  | .io .request => .isTrue trivial
  | .game =>
      inferInstanceAs (Decidable (∀ wasDisconnected,
        s.game = .exchanged wasDisconnected → s.io = .idle))

/-- Where neither flag is up and no thread is under way, the game knows. -/
theorem Orderly.right {s : Signals} (h : s.Orderly) (hgame : s.game = .outside)
    (hio : s.io = .idle) (hconnected : s.WasJustConnected = false)
    (hdisconnected : s.WasJustDisconnected = false) :
    believes s.calls = s.isOpen := by
  by_cases hopen : s.isOpen = true
  · rcases h.stands ⟨hio, hopen⟩ with hc | ⟨hb, -⟩
    · exact absurd (hconnected.symm.trans hc) Bool.false_ne_true
    · rw [hb, hopen]
  · rcases h.fallen fun hs => hopen hs.2 with hd | ho | ⟨-, hb, -⟩
    · exact absurd (hdisconnected.symm.trans hd) Bool.false_ne_true
    · rw [hgame] at ho
      cases ho
    · rw [hb, Bool.eq_false_iff.mpr hopen]

theorem step_orderly {s : Signals} {e : SignalEvent} {r : Signals × Unit}
    (h : s.Orderly) (hcalm : s.Calm e) (hstep : signals.step s e = some r) :
    r.1.Orderly := by
  cases e with
  | io move =>
      obtain ⟨s', hs', rfl⟩ := Option.map_eq_some_iff.mp hstep
      exact ioStep_orderly h move hcalm hs'
  | game =>
      cases hstep
      exact gameStep_orderly h hcalm

end Signals

/-! ## §4  Whole runs -/

/-- **The signals are book-ended.** In any interleaving of the two threads in which
no connection is made during a call of `Discord_RunCallbacks`, and `IsOpen` is not
asked while one is half made or half closed, every other handler is called between
a call of `ready` and the next of `disconnected`. -/
theorem signals_bookended {es : List SignalEvent} {s : Signals} {os : List Unit}
    (hcalm : signals.Along Signals.Calm signals.init es)
    (h : signals.run signals.init es = some (s, os)) :
    BookEnded s.calls ∧
      (s.game = .outside → s.io = .idle → s.WasJustConnected = false →
        s.WasJustDisconnected = false → believes s.calls = s.isOpen) := by
  obtain ⟨horderly, -⟩ := Machine.run_along (Q := fun _ => True)
    (fun s e r hs hc hr => ⟨Signals.step_orderly hs hc hr, trivial⟩)
    Signals.orderly_init hcalm h
  exact ⟨horderly.bookEnded, horderly.right⟩

/-- A connection that is made, used, and lost while the game is being told. -/
def lostWhileTold : List SignalEvent :=
  [.io .connect, .io .connected, .io (.raise .joinGame), .game, .game,
    .io .disconnect, .game, .game, .io .closed, .game, .game, .game,
    .game, .game, .game, .game, .game, .game, .game]

theorem signals_bookended_lostWhileTold :
    ∃ s os, signals.run signals.init lostWhileTold = some (s, os) ∧
      s.calls = [.ready, .signal .joinGame, .disconnected] ∧
      BookEnded s.calls ∧ believes s.calls = s.isOpen := by
  refine ⟨_, _, rfl, rfl, ?_⟩
  have h := signals_bookended
    (Machine.along_of_alongB (p := fun s e => decide (s.Calm e))
      (fun s e => of_decide_eq_true)
      (show signals.alongB (fun s e => decide (s.Calm e)) signals.init
        lostWhileTold = true from rfl)) rfl
  exact ⟨h.1, h.2 rfl rfl rfl rfl⟩

-- a connection that is made during a call is told of after its signals
example :
    (signals.run signals.init
      [.game, .game, .game, .io .connect, .io .connected,
        .io (.raise .joinGame), .game, .game]).map (·.1.calls) =
      some [.signal .joinGame] := rfl

-- one that is half closed is over before its signals are told of
example :
    (signals.run signals.init
      [.io .connect, .io .connected, .io (.raise .joinGame), .io .disconnect,
        .game, .game, .game, .game, .game]).map (·.1.calls) =
      some [.disconnected, .ready, .signal .joinGame] := rfl

end AWRPC
