import AWRPC.Lib.Machine

/-!
# The presence on its way to Discord

`discord_rpc.cpp`: `Discord_UpdatePresence`, on the thread of the loop, and
`Discord_UpdateConnection`, on the I/O thread, share one queued presence, a flag
and the mutex of the queue. The steps below are the accesses to these, in any
interleaving, with a connection that opens, fails and closes at any point. When
the link has come to rest Discord shows the queued presence; this is the latest
one unless a failed send has put an older one back in the queue.

The I/O thread's queue of other commands stays empty, since the program
registers no event handlers; the times between attempts to connect do not
matter here.
-/

namespace AWRPC

/-! ## §1  The two threads -/

/-- Where `Discord_UpdatePresence` stands; at `written` it holds the mutex. -/
inductive CallerPoint where
  | outside | written
deriving DecidableEq

/-- Where `Discord_UpdateConnection` stands: in between two calls, before its
reads, before the exchange of the flag, before the copy of the queued presence,
before the write of its copy, or before the copy is put back. -/
inductive IoPoint (μ : Type) where
  | outside | reading | exchange | taken
  | holding (m : μ)
  | failed (m : μ)
deriving DecidableEq

/-- The shared variables, the two threads, what Discord shows for this
connection, and the argument of the latest update. A queued presence of length
0 is `none`. -/
structure Link (μ : Type) where
  QueuedPresence : Option μ
  UpdatePresence : Bool
  isOpen : Bool
  caller : CallerPoint
  io : IoPoint μ
  shown : Option μ
  latest : Option μ
deriving DecidableEq

/-- `ok` says whether the call of the pipe that the step makes succeeds. -/
inductive LinkEvent (μ : Type) where
  | update (m : μ)
  | publish
  | io (ok : Bool)

variable {μ : Type}

namespace Link

/-- A step of the I/O thread. A connection that opens has its flag set for the
presence in the queue; one that closes shows nothing. -/
def ioStep (s : Link μ) (ok : Bool) : Option (Link μ) :=
  match s.io with
  | .outside =>
      if s.isOpen then some { s with io := .reading }
      else if ok then
        some
          { s with
            isOpen := true
            UpdatePresence := s.UpdatePresence || s.QueuedPresence.isSome }
      else some s
  | .reading =>
      if ok then some { s with io := .exchange }
      else some { s with isOpen := false, shown := none, io := .exchange }
  | .exchange =>
      if s.UpdatePresence && s.QueuedPresence.isSome then
        some { s with UpdatePresence := false, io := .taken }
      else some { s with UpdatePresence := false, io := .outside }
  | .taken =>
      match s.caller, s.QueuedPresence with
      | .outside, some m => some { s with io := .holding m }
      | _, _ => none
  | .holding m =>
      if ok && s.isOpen then some { s with shown := some m, io := .outside }
      else some { s with isOpen := false, shown := none, io := .failed m }
  | .failed m =>
      match s.caller with
      | .outside =>
          some
            { s with
              QueuedPresence := some m
              UpdatePresence := true
              io := .outside }
      | .written => none

def step (s : Link μ) : LinkEvent μ → Option (Link μ)
  | .update m =>
      match s.caller with
      | .outside =>
          some
            { s with
              QueuedPresence := some m
              caller := .written
              latest := some m }
      | .written => none
  | .publish =>
      match s.caller with
      | .outside => none
      | .written => some { s with UpdatePresence := true, caller := .outside }
  | .io ok => s.ioStep ok

/-- Nothing is under way and nothing is left to send. -/
structure AtRest (s : Link μ) : Prop where
  isOpen : s.isOpen = true
  flag : s.UpdatePresence = false
  caller : s.caller = .outside
  io : s.io = .outside

end Link

def link (μ : Type) : Machine (Link μ) (LinkEvent μ) Unit where
  init := ⟨none, false, false, .outside, .outside, none, none⟩
  step := fun s e => (s.step e).map fun s' => (s', ())

/-- Everything a step can do, by name. -/
inductive Moves (s : Link μ) : LinkEvent μ → Link μ → Prop where
  | update (m : μ) (hcaller : s.caller = .outside) :
      Moves s (.update m)
        { s with QueuedPresence := some m, caller := .written, latest := some m }
  | publish (hcaller : s.caller = .written) :
      Moves s .publish { s with UpdatePresence := true, caller := .outside }
  | enter {ok : Bool} (hio : s.io = .outside) :
      Moves s (.io ok) { s with io := .reading }
  | connect {ok : Bool} (hio : s.io = .outside) (hclosed : s.isOpen = false) :
      Moves s (.io ok)
        { s with
          isOpen := true
          UpdatePresence := s.UpdatePresence || s.QueuedPresence.isSome }
  | wait {ok : Bool} : Moves s (.io ok) s
  | read {ok : Bool} (hio : s.io = .reading) :
      Moves s (.io ok) { s with io := .exchange }
  | close {ok : Bool} (hio : s.io = .reading) :
      Moves s (.io ok)
        { s with isOpen := false, shown := none, io := .exchange }
  | take {ok : Bool} (m : μ) (hio : s.io = .exchange)
      (hqueued : s.QueuedPresence = some m) :
      Moves s (.io ok) { s with UpdatePresence := false, io := .taken }
  | skip {ok : Bool} (hio : s.io = .exchange)
      (hnone : s.UpdatePresence = true → s.QueuedPresence = none) :
      Moves s (.io ok) { s with UpdatePresence := false, io := .outside }
  | copy {ok : Bool} (m : μ) (hqueued : s.QueuedPresence = some m) :
      Moves s (.io ok) { s with io := .holding m }
  | send {ok : Bool} (m : μ) (hio : s.io = .holding m)
      (hopen : s.isOpen = true) :
      Moves s (.io ok) { s with shown := some m, io := .outside }
  | fail {ok : Bool} (m : μ) :
      Moves s (.io ok)
        { s with isOpen := false, shown := none, io := .failed m }
  | requeue {ok : Bool} (m : μ) (hio : s.io = .failed m) :
      Moves s (.io ok)
        { s with
          QueuedPresence := some m
          UpdatePresence := true
          io := .outside }

theorem moves_of_step {s s' : Link μ} {e : LinkEvent μ}
    (hstep : s.step e = some s') : Moves s e s' := by
  cases e with
  | update m =>
      rw [Link.step] at hstep
      split at hstep
      · rename_i hcaller
        cases hstep
        exact .update m hcaller
      · cases hstep
  | publish =>
      rw [Link.step] at hstep
      split at hstep
      · cases hstep
      · rename_i hcaller
        cases hstep
        exact .publish hcaller
  | io ok =>
      rw [Link.step, Link.ioStep] at hstep
      split at hstep
      · rename_i hio
        split at hstep
        · cases hstep
          exact .enter hio
        · rename_i hopen
          split at hstep
          · cases hstep
            exact .connect hio (Bool.eq_false_iff.mpr hopen)
          · cases hstep
            exact .wait
      · rename_i hio
        split at hstep
        · cases hstep
          exact .read hio
        · cases hstep
          exact .close hio
      · rename_i hio
        split at hstep
        · rename_i hguard
          rw [Bool.and_eq_true] at hguard
          obtain ⟨m, hqueued⟩ := Option.isSome_iff_exists.mp hguard.2
          cases hstep
          exact .take m hio hqueued
        · rename_i hguard
          cases hstep
          refine .skip hio fun hflag => ?_
          cases hqueued : s.QueuedPresence with
          | none => rfl
          | some q => simp [hflag, hqueued] at hguard
      · split at hstep
        · rename_i hqueued
          cases hstep
          exact .copy _ hqueued
        · cases hstep
      · rename_i m hio
        split at hstep
        · rename_i hguard
          cases hstep
          rw [Bool.and_eq_true] at hguard
          exact .send m hio hguard.2
        · cases hstep
          exact .fail m
      · rename_i m hio
        split at hstep
        · cases hstep
          exact .requeue m hio
        · cases hstep

/-! ## §2  What is shown at rest -/

/-- The I/O thread has nothing in hand. -/
def IoPoint.Waiting (p : IoPoint μ) : Prop :=
  p = .outside ∨ p = .reading ∨ p = .exchange

/-- With the flag down and nothing in hand the queued presence is shown; a copy
in hand is the queued presence, or the flag is up or about to be. -/
structure Coherent (s : Link μ) : Prop where
  took : s.io = .taken → ∃ q, s.QueuedPresence = some q
  clean : s.isOpen = true → s.UpdatePresence = false → s.caller = .outside →
    s.io.Waiting → s.shown = s.QueuedPresence
  held : ∀ m, s.io = .holding m → ∃ q, s.QueuedPresence = some q ∧
    (q = m ∨ s.UpdatePresence = true ∨ s.caller = .written)
  closed : s.isOpen = false → s.shown = none
  empty : s.QueuedPresence = none → s.shown = none

theorem coherent_init : Coherent (link μ).init where
  took := nofun
  clean := fun _ _ _ _ => rfl
  held := fun _ => nofun
  closed := fun _ => rfl
  empty := fun _ => rfl

theorem coherent_step {s s' : Link μ} {e : LinkEvent μ} (h : Coherent s)
    (hmove : Moves s e s') : Coherent s' := by
  cases hmove with
  | update m hcaller =>
      exact
        { took := fun _ => ⟨m, rfl⟩
          clean := nofun
          held := fun _ _ => ⟨m, rfl, Or.inr (Or.inr rfl)⟩
          closed := h.closed
          empty := nofun }
  | publish hcaller =>
      refine ⟨h.took, nofun, ?_, h.closed, h.empty⟩
      intro m hm
      obtain ⟨q, hq, -⟩ := h.held m hm
      exact ⟨q, hq, Or.inr (Or.inl rfl)⟩
  | enter hio =>
      exact
        { took := nofun
          clean := fun ho hf hc _ => h.clean ho hf hc (Or.inl hio)
          held := fun _ => nofun
          closed := h.closed
          empty := h.empty }
  | connect hio hclosed =>
      refine ⟨h.took, ?_, ?_, nofun, h.empty⟩
      · intro _ hflag _ _
        -- `onConnect` raises the flag unless the queue is empty
        have hqueued : s.QueuedPresence = none := by
          rw [Bool.or_eq_false_iff] at hflag
          simpa using hflag.2
        rw [h.closed hclosed, hqueued]
      · intro m hm
        rw [hio] at hm
        cases hm
  | wait => exact h
  | read hio =>
      exact
        { took := nofun
          clean := fun ho hf hc _ => h.clean ho hf hc (Or.inr (Or.inl hio))
          held := fun _ => nofun
          closed := h.closed
          empty := h.empty }
  | close hio =>
      exact ⟨nofun, nofun, fun _ => nofun, fun _ => rfl, fun _ => rfl⟩
  | take m hio hqueued =>
      refine ⟨fun _ => ⟨m, hqueued⟩, ?_, fun _ => nofun, h.closed, h.empty⟩
      rintro _ _ _ (hw | hw | hw)
      all_goals cases hw
  | skip hio hnone =>
      refine ⟨nofun, ?_, fun _ => nofun, h.closed, h.empty⟩
      intro hopen _ hcaller _
      cases hflag : s.UpdatePresence with
      | false => exact h.clean hopen hflag hcaller (Or.inr (Or.inr hio))
      | true =>
          -- the flag was up over an empty queue
          have hqueued := hnone hflag
          exact (h.empty hqueued).trans hqueued.symm
  | copy m hqueued =>
      refine ⟨nofun, ?_, ?_, h.closed, h.empty⟩
      · rintro _ _ _ (hw | hw | hw)
        all_goals cases hw
      · rintro _ ⟨⟩
        exact ⟨m, hqueued, Or.inl rfl⟩
  | send m hio hopen =>
      obtain ⟨q, hq, hcase⟩ := h.held m hio
      refine ⟨nofun, ?_, fun _ => nofun, ?_, ?_⟩
      · intro _ hflag hcaller _
        -- a newer presence would have the flag up, or about to be raised
        rcases hcase with rfl | hup | hwritten
        · exact hq.symm
        · exact absurd (hflag.symm.trans hup) (by decide)
        · exact absurd (hcaller.symm.trans hwritten) (by decide)
      · intro hclosed
        exact absurd (hopen.symm.trans hclosed) (by decide)
      · intro hnone
        rw [hq] at hnone
        cases hnone
  | fail m =>
      exact ⟨nofun, nofun, fun _ => nofun, fun _ => rfl, fun _ => rfl⟩
  | requeue m hio =>
      exact ⟨nofun, nofun, fun _ => nofun, h.closed, nofun⟩

theorem coherent_run {evs : List (LinkEvent μ)} {s : Link μ} {os : List Unit}
    (hrun : (link μ).run (link μ).init evs = some (s, os)) : Coherent s := by
  have hkeeps := Machine.run_keeps (I := Coherent) (Q := fun _ => True)
    (fun s e r hs hr => by
      obtain ⟨s', hs', rfl⟩ := Option.map_eq_some_iff.mp hr
      exact ⟨coherent_step hs (moves_of_step hs'), trivial⟩) coherent_init hrun
  exact hkeeps.1

/-- **At rest Discord shows the queued presence**, after any interleaving. -/
theorem shown_at_rest {evs : List (LinkEvent μ)} {s : Link μ} {os : List Unit}
    (hrun : (link μ).run (link μ).init evs = some (s, os)) (h : s.AtRest) :
    s.shown = s.QueuedPresence :=
  (coherent_run hrun).clean h.isOpen h.flag h.caller (Or.inl h.io)

/-- The link comes to rest with no further update, if the pipe works. -/
def Drains (s : Link μ) : Prop :=
  ∃ evs s' os, (∀ e ∈ evs, e = .publish ∨ e = .io true) ∧
    (link μ).run s evs = some (s', os) ∧ s'.AtRest

theorem Drains.of_step {s s' : Link μ} {e : LinkEvent μ}
    (he : e = .publish ∨ e = .io true) (hstep : s.step e = some s')
    (h : Drains s') : Drains s := by
  obtain ⟨evs, t, os, hevs, hrun, hrest⟩ := h
  refine ⟨e :: evs, t, () :: os, ?_, ?_, hrest⟩
  · intro e' he'
    rcases List.mem_cons.mp he' with rfl | he'
    · exact he
    · exact hevs e' he'
  · have hlink : (link μ).step s e = some (s', ()) := by
      show (s.step e).map _ = _
      rw [hstep]
      rfl
    simp [Machine.run, hlink, hrun]

section Draining

variable (queued : Option μ) (flag opened : Bool) (shown latest : Option μ)

/-- A pass over an open connection sends what there is to send. -/
theorem drains_open : Drains
    ⟨queued, flag, true, .outside, .outside, shown, latest⟩ := by
  apply Drains.of_step (Or.inr rfl) rfl
  apply Drains.of_step (Or.inr rfl) rfl
  cases flag with
  | false =>
      refine Drains.of_step (Or.inr rfl) rfl ?_
      exact ⟨[], _, [], nofun, rfl, ⟨rfl, rfl, rfl, rfl⟩⟩
  | true =>
      cases queued with
      | none =>
          refine Drains.of_step (Or.inr rfl) rfl ?_
          exact ⟨[], _, [], nofun, rfl, ⟨rfl, rfl, rfl, rfl⟩⟩
      | some q =>
          apply Drains.of_step (Or.inr rfl) rfl
          apply Drains.of_step (Or.inr rfl) rfl
          refine Drains.of_step (Or.inr rfl) rfl ?_
          exact ⟨[], _, [], nofun, rfl, ⟨rfl, rfl, rfl, rfl⟩⟩

theorem drains_outside : Drains
    ⟨queued, flag, opened, .outside, .outside, shown, latest⟩ := by
  cases opened with
  | true => exact drains_open queued flag shown latest
  | false =>
      apply Drains.of_step (Or.inr rfl) rfl
      exact drains_open queued _ shown latest

theorem drains_holding (m : μ) : Drains
    ⟨queued, flag, opened, .outside, .holding m, shown, latest⟩ := by
  cases opened with
  | true =>
      apply Drains.of_step (Or.inr rfl) rfl
      exact drains_outside queued flag true (some m) latest
  | false =>
      -- the write fails on a closed connection and the copy is put back
      apply Drains.of_step (Or.inr rfl) rfl
      apply Drains.of_step (Or.inr rfl) rfl
      exact drains_outside (some m) true false none latest

theorem drains_exchange : Drains
    ⟨queued, flag, opened, .outside, .exchange, shown, latest⟩ := by
  cases flag with
  | false =>
      apply Drains.of_step (Or.inr rfl) rfl
      exact drains_outside queued false opened shown latest
  | true =>
      cases queued with
      | none =>
          apply Drains.of_step (Or.inr rfl) rfl
          exact drains_outside none false opened shown latest
      | some q =>
          apply Drains.of_step (Or.inr rfl) rfl
          apply Drains.of_step (Or.inr rfl) rfl
          exact drains_holding (some q) false opened shown latest q

end Draining

theorem drains_of_coherent {s : Link μ} (h : Coherent s)
    (hcaller : s.caller = .outside) : Drains s := by
  obtain ⟨queued, flag, opened, caller, io, shown, latest⟩ := s
  cases hcaller
  cases io with
  | outside => exact drains_outside queued flag opened shown latest
  | reading =>
      apply Drains.of_step (Or.inr rfl) rfl
      exact drains_exchange queued flag opened shown latest
  | exchange => exact drains_exchange queued flag opened shown latest
  | taken =>
      obtain ⟨q, hq⟩ := h.took rfl
      cases hq
      apply Drains.of_step (Or.inr rfl) rfl
      exact drains_holding (some q) flag opened shown latest q
  | holding m => exact drains_holding queued flag opened shown latest m
  | failed m =>
      apply Drains.of_step (Or.inr rfl) rfl
      exact drains_outside (some m) true opened shown latest

/-- What there is to show: the queued presence, or the one that a write which
has failed, or is about to, puts back over it. -/
def Link.toShow (s : Link μ) : Option μ :=
  match s.io with
  | .holding m => if s.isOpen then s.QueuedPresence else some m
  | .failed m => some m
  | _ => s.QueuedPresence

theorem toShow_publish {s s' : Link μ} (hstep : s.step .publish = some s') :
    s'.toShow = s.toShow := by
  rw [Link.step] at hstep
  split at hstep
  · cases hstep
  · cases hstep
    rfl

/-- A pipe that works shows what there is to show, and nothing else. -/
theorem toShow_io {s s' : Link μ} (hstep : s.step (.io true) = some s') :
    s'.toShow = s.toShow := by
  rw [Link.step, Link.ioStep] at hstep
  split at hstep
  · rename_i hio
    split at hstep
    · cases hstep
      simp [Link.toShow, hio]
    · cases hstep
      simp [Link.toShow, hio]
  · rename_i hio
    cases hstep
    simp [Link.toShow, hio]
  · rename_i hio
    split at hstep
    · cases hstep
      simp [Link.toShow, hio]
    · cases hstep
      simp [Link.toShow, hio]
  · rename_i hio
    split at hstep
    · rename_i m _ hqueued
      cases hstep
      simp [Link.toShow, hio, hqueued]
    · cases hstep
  · rename_i m hio
    split at hstep
    · rename_i hopen
      cases hstep
      simp [Link.toShow, hio, show s.isOpen = true by simpa using hopen]
    · rename_i hopen
      cases hstep
      simp [Link.toShow, hio, show s.isOpen = false by simpa using hopen]
  · rename_i m hio
    split at hstep
    · cases hstep
      simp [Link.toShow, hio]
    · cases hstep

theorem toShow_run {evs : List (LinkEvent μ)} {s s' : Link μ} {os : List Unit}
    (hevs : ∀ e ∈ evs, e = .publish ∨ e = .io true)
    (hrun : (link μ).run s evs = some (s', os)) : s'.toShow = s.toShow := by
  induction evs generalizing s os with
  | nil =>
      cases hrun
      rfl
  | cons e evs ih =>
      obtain ⟨r, hr, hrest⟩ := Option.bind_eq_some_iff.mp hrun
      obtain ⟨q, hq, heq⟩ := Option.bind_eq_some_iff.mp hrest
      obtain ⟨s₁, hs₁, rfl⟩ := Option.map_eq_some_iff.mp hr
      cases heq
      rw [ih (fun e' he' => hevs e' (List.mem_cons_of_mem e he')) hq]
      rcases hevs e List.mem_cons_self with rfl | rfl
      · exact toShow_publish hs₁
      · exact toShow_io hs₁

/-- The queue is never emptied: after an update there is something to show. -/
theorem queued_of_latest {evs : List (LinkEvent μ)} {s : Link μ}
    {os : List Unit}
    (hrun : (link μ).run (link μ).init evs = some (s, os))
    (hlatest : s.latest.isSome) : s.toShow.isSome := by
  have hkeeps := Machine.run_keeps
    (I := fun s => s.latest.isSome → s.QueuedPresence.isSome)
    (Q := fun _ => True) (fun s e r hs hr => by
      obtain ⟨s', hs', rfl⟩ := Option.map_eq_some_iff.mp hr
      refine ⟨?_, trivial⟩
      cases moves_of_step hs' with
      | update m hcaller => exact fun _ => rfl
      | requeue m hio => exact fun _ => rfl
      | _ => exact hs) (fun h => h) hrun
  have hqueued := hkeeps.1 hlatest
  rw [Link.toShow]
  split
  · split
    · exact hqueued
    · rfl
  · rfl
  · exact hqueued

theorem drains_of_published {evs : List (LinkEvent μ)} {s : Link μ}
    {os : List Unit}
    (hrun : (link μ).run (link μ).init evs = some (s, os)) : Drains s := by
  have hcoherent := coherent_run hrun
  cases hcaller : s.caller with
  | outside => exact drains_of_coherent hcoherent hcaller
  | written =>
      have hpublish : s.step .publish =
          some { s with UpdatePresence := true, caller := .outside } := by
        rw [Link.step, hcaller]
      apply Drains.of_step (Or.inl rfl) hpublish
      exact drains_of_coherent (coherent_step hcoherent (.publish hcaller)) rfl

/-- **No presence is left stuck.** From every state of every run the link can
come to rest without a further update, and then Discord shows what there was to
show: some presence, once one was set. -/
theorem drains_of_run {evs : List (LinkEvent μ)} {s : Link μ}
    {os : List Unit}
    (hrun : (link μ).run (link μ).init evs = some (s, os)) :
    (∃ evs' s' os', (∀ e ∈ evs', e = .publish ∨ e = .io true) ∧
      (link μ).run s evs' = some (s', os') ∧ s'.AtRest ∧
      s'.shown = s'.QueuedPresence ∧ s'.shown = s.toShow) ∧
    (s.latest.isSome → s.toShow.isSome) := by
  refine ⟨?_, queued_of_latest hrun⟩
  obtain ⟨evs', s', os', hevs, hrun', hrest⟩ := drains_of_published hrun
  have hshown := shown_at_rest (Machine.run_append hrun hrun') hrest
  refine ⟨evs', s', os', hevs, hrun', hrest, hshown, ?_⟩
  rw [hshown, ← toShow_run hevs hrun']
  -- the I/O thread of a link at rest has nothing in hand
  simp [Link.toShow, hrest.io]

/-- The write of a presence has failed while a later one was set: the link comes
to rest showing the one that is put back. -/
theorem drains_of_run_queued :
    let s : Link ℕ := ⟨some 8, true, false, .outside, .failed 7, none, some 8⟩
    ∃ evs s' os, (link ℕ).run s evs = some (s', os) ∧ s'.AtRest ∧
      s'.shown = some 7 := by
  intro s
  have hrun : (link ℕ).run (link ℕ).init
      [.update 7, .publish, .io true, .io true, .io true, .io true, .io true,
        .io false, .update 8, .publish] = some (s, List.replicate 10 ()) := rfl
  obtain ⟨⟨evs, s', os, -, hrun', hrest, -, hshown⟩, -⟩ := drains_of_run hrun
  exact ⟨evs, s', os, hrun', hrest, hshown⟩

/-! ## §3  Overtaken updates -/

/-- The presence that a failed send puts back is still the queued one: no
update was made in between. -/
def NotOvertaken (s : Link μ) : LinkEvent μ → Prop
  | .io _ => ∀ m, s.io = .failed m → s.QueuedPresence = some m
  | _ => True

theorem queued_latest_step {s s' : Link μ} {e : LinkEvent μ}
    (h : s.QueuedPresence = s.latest) (hcalm : NotOvertaken s e)
    (hmove : Moves s e s') : s'.QueuedPresence = s'.latest := by
  cases hmove with
  | update m hcaller => rfl
  | requeue m hio => exact (hcalm m hio).symm.trans h
  | _ => exact h

/-- **No lost update.** Where no update overtakes a failed send, Discord shows
the latest presence whenever the link is at rest. -/
theorem latest_at_rest {evs : List (LinkEvent μ)} {s : Link μ}
    {os : List Unit}
    (hrun : (link μ).run (link μ).init evs = some (s, os))
    (hcalm : (link μ).Along NotOvertaken (link μ).init evs) (h : s.AtRest) :
    s.shown = s.latest := by
  have hlatest := Machine.run_along (I := fun s => s.QueuedPresence = s.latest)
    (P := NotOvertaken) (Q := fun _ => True)
    (fun s e r hs he hr => by
      obtain ⟨s', hs', rfl⟩ := Option.map_eq_some_iff.mp hr
      exact ⟨queued_latest_step hs he (moves_of_step hs'), trivial⟩)
    rfl hcalm hrun
  rw [shown_at_rest hrun h]
  exact hlatest.1

/-- An update made while a send is failing is lost: the older presence goes back
in the queue over it, and is what Discord shows when the link is at rest. -/
theorem update_overtaken :
    let before := [LinkEvent.io true, .update false, .publish, .io true,
      .io true, .io true, .io true]
    let between := [LinkEvent.io false, .update true, .publish, .io true]
    let after := List.replicate 6 (LinkEvent.io true)
    (link Bool).run (link Bool).init (before ++ between ++ after) =
      some (⟨some false, false, true, .outside, .outside, some false, some true⟩,
        List.replicate 17 ()) := by
  decide +kernel

/-! ## §4  The updates of a run -/

/-- The presences handed to `Discord_UpdatePresence`, in order. -/
def updates (evs : List (LinkEvent μ)) : List μ :=
  evs.filterMap fun
    | .update m => some m
    | _ => none

theorem latest_run {evs : List (LinkEvent μ)} {s s' : Link μ}
    {os : List Unit} (hrun : (link μ).run s evs = some (s', os)) :
    s'.latest = (updates evs).getLast?.or s.latest := by
  refine Machine.run_last_write (f := Link.latest) ?_ hrun
  intro s e r hr
  obtain ⟨s₁, hs₁, rfl⟩ := Option.map_eq_some_iff.mp hr
  cases moves_of_step hs₁ with
  | _ => rfl

end AWRPC
