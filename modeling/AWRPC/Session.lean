import AWRPC.Attachment
import AWRPC.Simulation

/-!
# The loop in the system

The iterations of the loop inside the system of processes: they read through
the handle that the constructor took, and a read through a handle that is not
open on a running process fails. Once the attached game has exited the presence
is frozen, while the guard lets the loop run on for any process of the name.
-/

namespace AWRPC

open Bytes CGameMemory Discord

/-! ## §1  Sessions -/

/-- The handle is open on a process that runs. -/
def World.Live (w : World) (handle : HANDLE) : Prop :=
  ∃ p ∈ w.running, handle = some p.th32ProcessID

instance (w : World) (handle : HANDLE) : Decidable (w.Live handle) :=
  inferInstanceAs (Decidable (∃ p ∈ w.running, handle = some p.th32ProcessID))

/-- What `ReadProcessMemory` answers. An assumption on Windows: a read through a
handle that is null, or open on a process that has exited, fails and stores
nothing. -/
def World.readThrough (w : World) (rpm : ReadProcessMemory) :
    ReadProcessMemory :=
  fun handle address n => if w.Live handle then rpm handle address n else failing n

structure Session where
  world : World
  loop : LoopState

/-- A step of the system; the body of the loop is an iteration. The clock is
read once more when the loop is entered. -/
def Session.step (t : Tcsicmp) (own : OwnProcess) (lang : Localization)
    (debug : Bool) (s : Session) (e : Event × LoopInput) :
    Option (Session × List UpdateCall) := do
  let g := s.world.GameMemory
  let w ← s.world.step t own e.1
  match e.1, s.world.point with
  | .program _, .waitForEnter =>
      some (⟨w, start ⟨debug, g, e.2.time⟩⟩, [])
  | .program _, .loopBody => do
      let r ← iteration lang ⟨debug, g, s.loop.timestamp⟩ s.loop
        ⟨s.world.readThrough e.2.readProcessMemory, e.2.time⟩
      some (⟨w, r.1⟩, r.2)
  | _, _ => some (⟨w, s.loop⟩, [])

def session (t : Tcsicmp) (own : OwnProcess) (lang : Localization)
    (debug : Bool) : Machine Session (Event × LoopInput) (List UpdateCall) where
  init := ⟨(system t own).init, start ⟨debug, ⟨none, 0, 0⟩, 0⟩⟩
  step := Session.step t own lang debug

/-! ## §2  What holds in every session -/

/-- The handle is one that was open, and once a call was made the remembered
string is the one in `buffer`. -/
structure Sound (s : Session) : Prop where
  consistent : Consistent s.world
  handle : ∀ pid, s.world.GameMemory.m_hGameHabndle = some pid →
    pid ∈ s.world.started
  inBounds : InBounds s.loop
  settled : s.loop.bNeedToBeUpdated = false →
    s.loop.buffer_for_old.str = s.loop.buffer.str

variable {t : Tcsicmp} {own : OwnProcess} {lang : Localization}
  {debug : Bool}

theorem started_grows {w w' : World} {ev : Event}
    (hstep : w.step t own ev = some w') {pid : UInt32} (h : pid ∈ w.started) :
    pid ∈ w'.started := by
  rcases World.step_cases hstep with
    ⟨i, p, -, -, -, -, rfl⟩ | ⟨pid', -, rfl⟩ | ⟨ok, -, hprogram⟩
  · exact List.mem_cons_of_mem _ h
  · exact h
  · rw [(program_frame hprogram).2.1]
    exact h

/-- The handle changes in `GetGameHandle` alone, to one open on a running
process or to null. -/
theorem handle_step {w w' : World} {ev : Event}
    (hstep : w.step t own ev = some w') :
    w'.GameMemory.m_hGameHabndle = w.GameMemory.m_hGameHabndle ∨
      (w.point = .getGameHandle ∧
        (w'.GameMemory.m_hGameHabndle = none ∨
          w.Live w'.GameMemory.m_hGameHabndle)) := by
  rcases World.step_cases hstep with
    ⟨i, p, -, -, -, -, rfl⟩ | ⟨pid, -, rfl⟩ | ⟨ok, -, hprogram⟩
  · exact Or.inl rfl
  · exact Or.inl rfl
  · unfold World.program at hprogram
    dsimp only at hprogram
    split at hprogram
    · cases hprogram
      split
      all_goals exact Or.inl rfl
    · cases hprogram
      exact Or.inl rfl
    · obtain ⟨base, -, rfl⟩ := Option.map_eq_some_iff.mp hprogram
      exact Or.inl rfl
    · rename_i hpoint
      cases hprogram
      refine Or.inr ⟨hpoint, ?_⟩
      show World.openProcess _ _ _ = none ∨ w.Live (World.openProcess _ _ _)
      rw [World.openProcess]
      split
      · rename_i hopen
        obtain ⟨-, p, hp, hid⟩ := hopen
        exact Or.inr ⟨p, hp, congrArg some hid.symm⟩
      · exact Or.inl rfl
    all_goals
      cases hprogram
      exact Or.inl rfl

theorem Sound.handle_step {s : Session} {ev : Event} {w' : World}
    (h : Sound s) (hstep : s.world.step t own ev = some w') :
    ∀ pid, w'.GameMemory.m_hGameHabndle = some pid → pid ∈ w'.started := by
  intro pid hpid
  apply started_grows hstep
  rcases AWRPC.handle_step hstep with hsame | ⟨-, hnone | ⟨p, hp, hlive⟩⟩
  · rw [hsame] at hpid
    exact h.handle pid hpid
  · rw [hnone] at hpid
    cases hpid
  · rw [hlive] at hpid
    cases hpid
    exact h.consistent.ids p hp

/-- The three kinds of steps of a session. -/
theorem session_step_cases {s : Session} {e : Event × LoopInput}
    {r : Session × List UpdateCall}
    (hstep : (session t own lang debug).step s e = some r) :
    s.world.step t own e.1 = some r.1.world ∧
    ((s.world.point = .waitForEnter ∧ r.2 = [] ∧
        r.1.loop = start ⟨debug, s.world.GameMemory, e.2.time⟩) ∨
      (s.world.point = .loopBody ∧
        iteration lang ⟨debug, s.world.GameMemory, s.loop.timestamp⟩ s.loop
          ⟨s.world.readThrough e.2.readProcessMemory, e.2.time⟩ =
            some (r.1.loop, r.2)) ∨
      (r.2 = [] ∧ r.1.loop = s.loop)) := by
  obtain ⟨w, hw, hrest⟩ := Option.bind_eq_some_iff.mp hstep
  split at hrest
  · rename_i hpoint
    cases hrest
    exact ⟨hw, Or.inl ⟨hpoint, rfl, rfl⟩⟩
  · rename_i hpoint
    obtain ⟨q, hq, heq⟩ := Option.bind_eq_some_iff.mp hrest
    cases heq
    exact ⟨hw, Or.inr (Or.inl ⟨hpoint, hq⟩)⟩
  · cases hrest
    exact ⟨hw, Or.inr (Or.inr ⟨rfl, rfl⟩)⟩

theorem sound_init : Sound (session t own lang debug).init where
  consistent := @consistent_init t own
  handle := fun _ h => by cases h
  inBounds := start_inBounds _
  settled := fun h => by cases h

theorem sound_step {s : Session} {e : Event × LoopInput}
    {r : Session × List UpdateCall} (h : Sound s)
    (hstep : (session t own lang debug).step s e = some r) : Sound r.1 := by
  obtain ⟨hw, hcases⟩ := session_step_cases hstep
  refine ⟨consistent_step h.consistent hw, h.handle_step hw, ?_, ?_⟩
  · rcases hcases with ⟨-, -, hloop⟩ | ⟨-, hit⟩ | ⟨-, hloop⟩
    · rw [hloop]
      exact start_inBounds _
    · obtain ⟨q, hq, hspec⟩ := iteration_spec lang _ _ h.inBounds
      rw [hit] at hq
      cases hq
      exact hspec.inBounds
    · rw [hloop]
      exact h.inBounds
  · rcases hcases with ⟨-, -, hloop⟩ | ⟨-, hit⟩ | ⟨-, hloop⟩
    · rw [hloop]
      intro hneed
      cases hneed
    · obtain ⟨q, hq, hspec⟩ := iteration_spec lang _ _ h.inBounds
      rw [hit] at hq
      cases hq
      intro _
      rw [hspec.old_str, hspec.buffer]
    · rw [hloop]
      exact h.settled

theorem session_sound {es : List (Event × LoopInput)} {s : Session}
    {os : List (List UpdateCall)}
    (h : (session t own lang debug).run (session t own lang debug).init es =
      some (s, os)) : Sound s := by
  have hkeeps := Machine.run_keeps (I := Sound) (Q := fun _ => True)
    (fun s e r hs hr => ⟨sound_step hs hr, trivial⟩) sound_init h
  exact hkeeps.1

/-! ## §3  The frozen presence -/

/-- The loop is entered, a call was made, and the handle is not open on a
running process. -/
structure Frozen (s : Session) : Prop where
  sound : Sound s
  entered : s.world.point = .loopGuard ∨ s.world.point = .loopBody ∨
    s.world.point = .done
  sent : s.loop.bNeedToBeUpdated = false
  dead : ¬ s.world.Live s.world.GameMemory.m_hGameHabndle

/-- Process ids are not given out twice, so a dead handle stays dead. -/
theorem dead_step {s : Session} {ev : Event} {w' : World} (h : Frozen s)
    (hstep : s.world.step t own ev = some w') :
    w'.GameMemory.m_hGameHabndle = s.world.GameMemory.m_hGameHabndle ∧
      ¬ w'.Live w'.GameMemory.m_hGameHabndle := by
  have hhandle : w'.GameMemory.m_hGameHabndle =
      s.world.GameMemory.m_hGameHabndle := by
    rcases handle_step hstep with hsame | ⟨hpoint, -⟩
    · exact hsame
    · rcases h.entered with h0 | h0 | h0
      all_goals
        rw [h0] at hpoint
        cases hpoint
  refine ⟨hhandle, ?_⟩
  rw [hhandle]
  rintro ⟨q, hq, hid⟩
  apply h.dead
  rcases World.step_cases hstep with
    ⟨i, p, -, -, hfresh, -, rfl⟩ | ⟨pid, -, rfl⟩ | ⟨ok, -, hprogram⟩
  · rcases mem_insert_iff.mp hq with rfl | hq
    · -- a new process cannot have the id the handle was opened with
      exact absurd (h.sound.handle _ hid) hfresh
    · exact ⟨q, hq, hid⟩
  · exact ⟨q, List.mem_of_mem_filter hq, hid⟩
  · rw [(program_frame hprogram).1] at hq
    exact ⟨q, hq, hid⟩

theorem entered_step {w w' : World} {ev : Event}
    (h : w.point = .loopGuard ∨ w.point = .loopBody ∨ w.point = .done)
    (hstep : w.step t own ev = some w') :
    w'.point = .loopGuard ∨ w'.point = .loopBody ∨ w'.point = .done := by
  rcases World.step_cases hstep with
    ⟨i, p, -, -, -, -, rfl⟩ | ⟨pid, -, rfl⟩ | ⟨ok, -, hprogram⟩
  · exact h
  · exact h
  · unfold World.program at hprogram
    rcases h with h | h | h
    · rw [h] at hprogram
      cases hprogram
      dsimp only
      split
      · exact Or.inr (Or.inl rfl)
      · exact Or.inr (Or.inr rfl)
    · rw [h] at hprogram
      cases hprogram
      exact Or.inl rfl
    · rw [h] at hprogram
      cases hprogram
      exact Or.inr (Or.inr h)

/-- Reads through a dead handle leave the buffers as they are. -/
theorem readBoth_dead {w : World} {c : Setup}
    (h : ¬ w.Live c.GameMemory.m_hGameHabndle) (rpm : ReadProcessMemory)
    (time : Int64) (s : LoopState) :
    readBoth c ⟨w.readThrough rpm, time⟩ s = s := by
  have hread : ∀ offset, c.GameMemory.readAt (w.readThrough rpm) offset =
      failing 20 := fun offset => if_neg h
  have hmap : readMap c ⟨w.readThrough rpm, time⟩ s = s := by
    rw [readMap, getCurrentMap, hread]
    rfl
  have hnick : readNickname c ⟨w.readThrough rpm, time⟩ s = s := by
    rw [readNickname, getPlayerNickname, hread]
    rfl
  rw [readBoth, hmap, hnick]

theorem frozen_step {s : Session} {e : Event × LoopInput}
    {r : Session × List UpdateCall} (h : Frozen s)
    (hstep : (session t own lang debug).step s e = some r) :
    Frozen r.1 ∧ r.2 = [] := by
  obtain ⟨hw, hcases⟩ := session_step_cases hstep
  have hsound := sound_step h.sound hstep
  have hentered := entered_step h.entered hw
  have hdead := (dead_step h hw).2
  rcases hcases with ⟨hpoint, -, -⟩ | ⟨-, hit⟩ | ⟨hnil, hloop⟩
  · -- the loop is not entered twice
    rcases h.entered with h0 | h0 | h0
    all_goals
      rw [h0] at hpoint
      cases hpoint
  · obtain ⟨q, hq, hspec⟩ := iteration_spec lang _ _ h.sound.inBounds
    rw [hit] at hq
    cases hq
    refine ⟨⟨hsound, hentered, hspec.sent, hdead⟩, hspec.calls_not_due ?_⟩
    -- the string read is the one that was read last
    have hread := readBoth_dead
      (c := ⟨debug, s.world.GameMemory, s.loop.timestamp⟩) h.dead
      e.2.readProcessMemory e.2.time s.loop
    rintro (hneed | hne)
    · rw [h.sent] at hneed
      cases hneed
    · rw [hread] at hne
      exact hne (h.sound.settled h.sent).symm
  · refine ⟨⟨hsound, hentered, ?_, hdead⟩, hnil⟩
    rw [hloop]
    exact h.sent

/-- **A dead handle freezes the presence.** Take any run up to a state in the
loop after the first call, in which the handle is not open on a running
process: because the attached game exited, or because it was never opened.
However the run goes on, with whatever games starting and whatever checks
passing, no further call is made. -/
theorem presence_frozen {es : List (Event × LoopInput)} {s : Session}
    {os : List (List UpdateCall)}
    (hrun : (session t own lang debug).run (session t own lang debug).init es =
      some (s, os))
    (hentered : s.world.point = .loopGuard ∨ s.world.point = .loopBody ∨
      s.world.point = .done)
    (hsent : s.loop.bNeedToBeUpdated = false)
    (hdead : ¬ s.world.Live s.world.GameMemory.m_hGameHabndle)
    {es' : List (Event × LoopInput)} {s' : Session}
    {os' : List (List UpdateCall)}
    (hrun' : (session t own lang debug).run s es' = some (s', os')) :
    Frozen s' ∧ ∀ calls ∈ os', calls = [] :=
  Machine.run_keeps (fun _ _ _ => frozen_step)
    ⟨session_sound hrun, hentered, hsent, hdead⟩ hrun'

/-- Events while reads find `level` in the memory of the game. -/
def showing (level : List UInt8) (evs : List Event) :
    List (Event × LoopInput) :=
  evs.map fun ev => (ev, ⟨fun _ _ => .ofMemory fun i => level.getD i 0, 110⟩)

/-- The game exits behind the first call. -/
def exited : List (Event × LoopInput) :=
  showing (lit "gar_base")
    ([.start 0 (game 4)] ++ List.replicate 7 (.program true) ++ [.exit 4])

/-- Another one starts, on another map. -/
def restarted : List (Event × LoopInput) :=
  showing (lit "cus_alabino_polygon")
    (.start 0 (game 8) :: List.replicate 3 (.program true))

theorem presence_frozen_exited :
    let M := session asciiTcsicmp noOwn .EEng false
    ∃ s os s' os', M.run M.init exited = some (s, os) ∧ os.flatten ≠ [] ∧
      M.run s restarted = some (s', os') ∧ s'.world.running = [game 8] ∧
      s'.world.point = .loopBody ∧ ∀ calls ∈ os', calls = [] := by
  intro M
  have hruns : ((M.run M.init exited).bind fun r =>
      (M.run r.1 restarted).map fun r' =>
        ((r.1.world, r.1.loop.bNeedToBeUpdated, r.2.flatten.length),
          r'.1.world)) =
      some ((⟨[], [4], .loopGuard, ⟨some 4, 0x140000000, 4⟩⟩, false, 1),
        ⟨[game 8], [8, 4], .loopBody, ⟨some 4, 0x140000000, 4⟩⟩) := by
    decide +kernel
  obtain ⟨⟨s, os⟩, hrun, hrest⟩ := Option.bind_eq_some_iff.mp hruns
  obtain ⟨⟨s', os'⟩, hrun', heq⟩ := Option.map_eq_some_iff.mp hrest
  simp only [Prod.mk.injEq] at heq
  obtain ⟨⟨hworld, hsent, hcalls⟩, hworld'⟩ := heq
  have hdead : ¬ s.world.Live s.world.GameMemory.m_hGameHabndle := by
    rw [hworld]
    decide
  have hfrozen := presence_frozen hrun
    (Or.inl (congrArg World.point hworld)) hsent hdead hrun'
  refine ⟨s, os, s', os', hrun, ?_, hrun', congrArg World.running hworld',
    congrArg World.point hworld', hfrozen.2⟩
  intro hnil
  rw [hnil] at hcalls
  cases hcalls

end AWRPC
