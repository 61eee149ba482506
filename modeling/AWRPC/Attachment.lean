import AWRPC.System

/-!
# The attachment to the game

The constructor looks the game up once and the guard of the loop asks for a
process of the name only. Which runs read from the running game, and how an
attachment comes to be void or stale while the loop runs on.
-/

namespace AWRPC

open Bytes CGameMemory

variable {t : Tcsicmp} {own : OwnProcess} {w : World}

/-! ## §1  Staying on track -/

/-- The three fields belong to the process: its id, the base of one of its
modules, and a handle open on it. -/
def BelongsTo (g : CGameMemory) (p : Process) : Prop :=
  g.m_dwGamePID = p.th32ProcessID ∧
    (∃ m ∈ p.modules, g.m_ptrGameBaseAddress = m.modBaseAddr) ∧
    g.m_hGameHabndle = some p.th32ProcessID

/-- The three fields belong to one running process of the name. -/
def Attached (t : Tcsicmp) (w : World) : Prop :=
  ∃ p ∈ w.running, t.cmp p.szExeFile gameExe = 0 ∧ BelongsTo w.GameMemory p

/-- What the lookups made before a point have to have found. -/
def Found : Point → CGameMemory → Process → Prop
  | .getBaseAddr, g, p => g.m_dwGamePID = p.th32ProcessID
  | .getGameHandle, g, p => g.m_dwGamePID = p.th32ProcessID ∧
      ∃ m ∈ p.modules, g.m_ptrGameBaseAddress = m.modBaseAddr
  | _, g, p => BelongsTo g p

/-- No lookup has been made yet. -/
def Point.Early (p : Point) : Prop := p = .waitForGame ∨ p = .getPID

/-- The lookups made so far found one process of the name, which still runs. -/
def OnTrack (t : Tcsicmp) (w : World) : Prop :=
  w.point.Early ∨
    ∃ p ∈ w.running, t.cmp p.szExeFile gameExe = 0 ∧
      Found w.point w.GameMemory p

/-- The condition on a step that keeps the program on track: a lookup succeeds
on a process that runs, and the process found does not exit. -/
def Keeps (t : Tcsicmp) (w : World) : Event → Prop
  | .start _ _ => True
  | .exit pid => w.point.Early ∨ pid ≠ w.GameMemory.m_dwGamePID
  | .program ok =>
      match w.point with
      | .getPID => ok = true ∧ ∃ p ∈ w.running, t.cmp p.szExeFile gameExe = 0
      | .getBaseAddr => ok = true ∧ ∃ p ∈ w.running,
          p.th32ProcessID = w.GameMemory.m_dwGamePID ∧
            ∃ m ∈ p.modules, m.szModule ≠ gameExe
      | .getGameHandle => ok = true ∧ ∃ p ∈ w.running,
          p.th32ProcessID = w.GameMemory.m_dwGamePID
      | _ => True

/-- All lookups have been made. -/
def Point.Late (p : Point) : Prop :=
  p = .waitForEnter ∨ p = .loopGuard ∨ p = .loopBody ∨ p = .done

theorem onTrack_iff_attached (h : w.point.Late) :
    OnTrack t w ↔ Attached t w := by
  obtain ⟨running, started, point, g⟩ := w
  have hfound : ∀ p, Found point g p ↔ BelongsTo g p := by
    intro p
    rcases h with rfl | rfl | rfl | rfl
    all_goals exact Iff.rfl
  have hnot : ¬ point.Early := by
    rintro (rfl | rfl)
    all_goals exact absurd h (by simp [Point.Late])
  constructor
  · rintro (hearly | ⟨p, hp, hname, hp'⟩)
    · exact absurd hearly hnot
    · exact ⟨p, hp, hname, (hfound p).mp hp'⟩
  · rintro ⟨p, hp, hname, hp'⟩
    exact Or.inr ⟨p, hp, hname, (hfound p).mpr hp'⟩

/-- After the constructor no step of the program changes the attachment. -/
theorem program_late {ok : Bool} {w' : World} (h : w.point.Late)
    (hstep : w.program t own ok = some w') :
    w'.point.Late ∧ (Attached t w' ↔ Attached t w) ∧
      Keeps t w (.program ok) := by
  obtain ⟨running, started, point, g⟩ := w
  rcases h with rfl | rfl | rfl | rfl
  all_goals cases hstep
  · exact ⟨Or.inr (Or.inl rfl), Iff.rfl, trivial⟩
  · refine ⟨?_, Iff.rfl, trivial⟩
    dsimp only
    split
    · exact Or.inr (Or.inr (Or.inl rfl))
    · exact Or.inr (Or.inr (Or.inr rfl))
  · exact ⟨Or.inr (Or.inl rfl), Iff.rfl, trivial⟩
  · exact ⟨Or.inr (Or.inr (Or.inr rfl)), Iff.rfl, trivial⟩

theorem Found.pid {x : Point} {g : CGameMemory} {p : Process}
    (h : Found x g p) : g.m_dwGamePID = p.th32ProcessID := by
  cases x with
  | getBaseAddr => exact h
  | getGameHandle => exact h.1
  | _ => exact h.1

/-- A process that starts is not the one that was found. -/
theorem onTrack_start_iff (h : Consistent w) {i : ℕ} {p : Process}
    (hzero : p.th32ProcessID ≠ 0) (hfresh : p.th32ProcessID ∉ w.started) :
    OnTrack t
        { w with
          running := w.running.take i ++ p :: w.running.drop i
          started := p.th32ProcessID :: w.started } ↔
      OnTrack t w := by
  apply or_congr Iff.rfl
  constructor
  · rintro ⟨q, hq, hname, hfound⟩
    rcases mem_insert_iff.mp hq with rfl | hq
    · -- the id found was given out before, the new one was not
      have hpid := hfound.pid
      rcases h.found with h0 | h0
      · exact absurd (hpid.symm.trans h0) hzero
      · exact absurd (hpid ▸ h0) hfresh
    · exact ⟨q, hq, hname, hfound⟩
  · rintro ⟨q, hq, hname, hfound⟩
    exact ⟨q, mem_insert_iff.mpr (Or.inr hq), hname, hfound⟩

/-- An exit leaves the track exactly by taking the process that was found. -/
theorem onTrack_exit_iff {pid : UInt32} :
    OnTrack t { w with running := w.running.filter (·.th32ProcessID ≠ pid) } ↔
      OnTrack t w ∧ Keeps t w (.exit pid) := by
  constructor
  · rintro (hearly | ⟨q, hq, hname, hfound⟩)
    · exact ⟨Or.inl hearly, Or.inl hearly⟩
    · obtain ⟨hmem, hne⟩ := List.mem_filter.mp hq
      refine ⟨Or.inr ⟨q, hmem, hname, hfound⟩, Or.inr ?_⟩
      intro he
      have hpid : q.th32ProcessID = pid := hfound.pid.symm.trans he.symm
      exact absurd hne (by simp [hpid])
  · rintro ⟨hearly | ⟨q, hq, hname, hfound⟩, hkeeps⟩
    · exact Or.inl hearly
    · rcases hkeeps with hearly | hne
      · exact Or.inl hearly
      · refine Or.inr ⟨q, List.mem_filter.mpr ⟨hq, ?_⟩, hname, hfound⟩
        have hq' : q.th32ProcessID ≠ pid := fun he =>
          hne (he ▸ hfound.pid).symm
        simpa using hq'

/-- A program step stays on the track exactly when its lookup succeeds on the
process found so far. -/
theorem onTrack_program_iff (h : Consistent w) {ok : Bool} {w' : World}
    (hstep : w.program t own ok = some w') :
    OnTrack t w' ↔ OnTrack t w ∧ Keeps t w (.program ok) := by
  by_cases hlate : w.point.Late
  · obtain ⟨hlate', hattached, hkeeps⟩ := program_late hlate hstep
    rw [onTrack_iff_attached hlate', hattached, onTrack_iff_attached hlate]
    exact ⟨fun ha => ⟨ha, hkeeps⟩, fun ha => ha.1⟩
  obtain ⟨running, started, point, g⟩ := w
  -- the points up to the last lookup
  cases point with
  | waitForGame =>
      cases hstep
      have hearly : ∀ b : Bool, (if b then World.mk running started .getPID g
          else ⟨running, started, .waitForGame, g⟩).point.Early := by
        rintro (_ | _)
        · exact Or.inl rfl
        · exact Or.inr rfl
      exact ⟨fun _ => ⟨Or.inl (Or.inl rfl), trivial⟩,
        fun _ => Or.inl (hearly _)⟩
  | getPID =>
      cases hstep
      have hstart : OnTrack t ⟨running, started, .getPID, g⟩ :=
        Or.inl (Or.inr rfl)
      have hcases := getPID_cases t ⟨running, started, .getPID, g⟩ ok
      constructor
      · rintro ((h0 | h0) | ⟨p, hp, hname, hfound⟩)
        · cases h0
        · cases h0
        · refine ⟨hstart, ?_⟩
          rcases hcases with ⟨-, -, hok, -, -⟩ | ⟨hzero, -⟩
          · exact ⟨hok, p, hp, hname⟩
          · have hpid : p.th32ProcessID = 0 := hfound.symm.trans hzero
            exact absurd (hpid ▸ h.ids p hp) h.nonzero
      · rintro ⟨-, hkeeps⟩
        rcases hcases with ⟨p, hp, -, hname, hid⟩ | ⟨-, hnone⟩
        · exact Or.inr ⟨p, hp, hname, hid⟩
        · exact absurd hkeeps hnone
  | getBaseAddr =>
      obtain ⟨base, hgot, rfl⟩ := Option.map_eq_some_iff.mp hstep
      change getBaseAddr own.text (World.moduleSnapshot _ own ok
        g.m_dwGamePID) gameExe = some base at hgot
      constructor
      · rintro ((h0 | h0) | ⟨p, hp, hname, hpid, hbase⟩)
        · cases h0
        · cases h0
        · have hid : g.m_dwGamePID = p.th32ProcessID := hpid
          refine ⟨Or.inr ⟨p, hp, hname, hid⟩, ?_⟩
          rw [hid] at hgot
          obtain ⟨hok, hother⟩ :=
            (h.getBaseAddr_mem_iff own hp ok hgot).mp hbase
          exact ⟨hok, p, hp, hid.symm, hother⟩
      · rintro ⟨(h0 | h0) | ⟨p, hp, hname, hid⟩, hok, q, hq, hqid, hother⟩
        · cases h0
        · cases h0
        · -- the process asked for its modules is the one found
          have heq : q = p :=
            List.inj_on_of_nodup_map h.unique hq hp (hqid.trans hid)
          subst heq
          rw [← hqid] at hgot
          have hbase :=
            (h.getBaseAddr_mem_iff own hq ok hgot).mpr ⟨hok, hother⟩
          exact Or.inr ⟨q, hq, hname, hid, hbase⟩
  | getGameHandle =>
      cases hstep
      constructor
      · rintro ((h0 | h0) | ⟨p, hp, hname, hid, hbase, hhandle⟩)
        · cases h0
        · cases h0
        · refine ⟨Or.inr ⟨p, hp, hname, hid, hbase⟩, ?_⟩
          change World.openProcess _ ok g.m_dwGamePID = _ at hhandle
          rw [World.openProcess] at hhandle
          split at hhandle
          · rename_i hguard
            exact hguard
          · cases hhandle
      · rintro ⟨(h0 | h0) | ⟨p, hp, hname, hid, hbase⟩, hkeeps⟩
        · cases h0
        · cases h0
        · refine Or.inr ⟨p, hp, hname, hid, hbase, ?_⟩
          have hopen : World.openProcess ⟨running, started, .getGameHandle, g⟩
              ok g.m_dwGamePID = some g.m_dwGamePID := if_pos hkeeps
          exact hopen.trans (congrArg some hid)
  | _ => exact absurd hlate (by simp [Point.Late])

theorem onTrack_step_iff (h : Consistent w) {ev : Event} {w' : World}
    (hstep : w.step t own ev = some w') :
    OnTrack t w' ↔ OnTrack t w ∧ Keeps t w ev := by
  rcases World.step_cases hstep with
    ⟨i, p, rfl, hzero, hfresh, -, rfl⟩ | ⟨pid, rfl, rfl⟩ | ⟨ok, rfl, hprogram⟩
  · rw [onTrack_start_iff h hzero hfresh]
    exact ⟨fun ht => ⟨ht, trivial⟩, fun ht => ht.1⟩
  · exact onTrack_exit_iff
  · exact onTrack_program_iff h hprogram

/-- **A run is on track exactly when each of its steps keeps it there.** -/
theorem onTrack_run_iff {evs : List Event} {os : List Unit}
    (h : (system t own).run (system t own).init evs = some (w, os)) :
    OnTrack t w ↔
      (system t own).Along (Keeps t) (system t own).init evs := by
  have hrun := Machine.run_iff_along (I := Consistent) (G := OnTrack t)
    (P := Keeps t) (fun s ev r hs hr => ?_) (fun s ev r hs hr => ?_)
    consistent_init h
  · rw [hrun]
    exact ⟨fun hg => hg.2, fun hg => ⟨Or.inl (Or.inl rfl), hg⟩⟩
  · obtain ⟨w', hw', rfl⟩ := Option.map_eq_some_iff.mp hr
    exact consistent_step hs hw'
  · obtain ⟨w', hw', rfl⟩ := Option.map_eq_some_iff.mp hr
    exact onTrack_step_iff hs hw'

/-! ## §2  The guard of the loop -/

/-- The run makes a check of the loop's guard that passes, in state `w` and
after the events `pre`. -/
structure PassingGuard (t : Tcsicmp) (own : OwnProcess)
    (evs pre : List Event) (w : World) : Prop where
  point : w.point = .loopGuard
  reached : ∃ os, (system t own).run (system t own).init pre = some (w, os)
  passes : ∃ ok rest, evs = pre ++ .program ok :: rest ∧
    w.gameSeen t ok = true

/-- Every iteration of the loop that the guard lets through finds the three
fields belonging to one running game. -/
def ReadsRunningGame (t : Tcsicmp) (own : OwnProcess)
    (evs : List Event) : Prop :=
  ∀ pre w, PassingGuard t own evs pre w → Attached t w

/-- **The loop reads from the running game exactly** in the runs in which, up to
each passing check, every lookup of the constructor succeeded on the process
that `GetPID` found, and that process did not exit. The guard adds nothing: it
passes for any process of the name. -/
theorem readsRunningGame_iff (t : Tcsicmp) (own : OwnProcess)
    (evs : List Event) :
    ReadsRunningGame t own evs ↔
      ∀ pre w, PassingGuard t own evs pre w →
        (system t own).Along (Keeps t) (system t own).init pre := by
  have hexact : ∀ pre w, PassingGuard t own evs pre w →
      (Attached t w ↔
        (system t own).Along (Keeps t) (system t own).init pre) := by
    intro pre w hpass
    obtain ⟨os, hrun⟩ := hpass.reached
    rw [← onTrack_run_iff hrun, onTrack_iff_attached]
    exact Or.inr (Or.inl hpass.point)
  constructor
  · intro h pre w hpass
    exact (hexact pre w hpass).mp (h pre w hpass)
  · intro h pre w hpass
    exact (hexact pre w hpass).mpr (h pre w hpass)

/-- The game as the system starts it. -/
def game (pid : UInt32) : Process :=
  ⟨pid, lit "ArmoredWarfare.exe", [⟨lit "ArmoredWarfare.exe", 0x140000000⟩]⟩

/-- A program without modules, at none of whose addresses a C string can be
read. -/
def noOwn : OwnProcess := ⟨[], fun _ => none⟩

/-- The program attaches to the game with id 4; that game exits and another one
starts, and the loop goes on with the handle of the first. In the second run
`OpenProcess` is refused, and the loop runs on a null handle. -/
theorem readsRunningGame_not :
    let wait := [.start 0 (game 4), .program true]
    let attach := [.program true, .program true, .program true, .program true]
    let refused := [.program true, .program true, .program false, .program true]
    let restart := [.exit 4, .start 0 (game 8)]
    ¬ ReadsRunningGame asciiTcsicmp noOwn
        (wait ++ attach ++ restart ++ [.program true]) ∧
      ¬ ReadsRunningGame asciiTcsicmp noOwn
        (wait ++ refused ++ [.program true]) := by
  intro wait attach refused restart
  constructor
  · intro h
    have hpass : PassingGuard asciiTcsicmp noOwn
        (wait ++ attach ++ restart ++ [.program true])
        (wait ++ attach ++ restart)
        ⟨[game 8], [8, 4], .loopGuard, ⟨some 4, 0x140000000, 4⟩⟩ :=
      ⟨rfl, ⟨List.replicate 8 (), by decide +kernel⟩, true, [], rfl,
        by decide +kernel⟩
    obtain ⟨p, hp, -, hpid, -, -⟩ := h _ _ hpass
    rw [List.mem_singleton.mp hp] at hpid
    exact absurd hpid (by decide)
  · intro h
    have hpass : PassingGuard asciiTcsicmp noOwn
        (wait ++ refused ++ [.program true]) (wait ++ refused)
        ⟨[game 4], [4], .loopGuard, ⟨none, 0x140000000, 4⟩⟩ :=
      ⟨rfl, ⟨List.replicate 6 (), by decide +kernel⟩, true, [], rfl,
        by decide +kernel⟩
    obtain ⟨p, hp, -, -, -, hhandle⟩ := h _ _ hpass
    cases hhandle

end AWRPC
