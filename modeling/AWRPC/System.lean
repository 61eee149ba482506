import Mathlib.Data.List.Nodup
import AWRPC.ImageLookup
import AWRPC.Lib.Machine

/-!
# The program among the processes

`wait_for_game_to_launch`, the three lookups of the `CGameMemory` constructor,
the wait for Enter and the guard of the loop, as steps of a system in which
processes start and exit between any two of them.
-/

namespace AWRPC

open Bytes CGameMemory

/-! ## §1  Processes and program points -/

structure Process where
  th32ProcessID : UInt32
  szExeFile : List UInt8
  modules : List ModuleEntry
deriving DecidableEq

/-- The program's own process: its modules, and the C string at an address of
its memory, `none` where it cannot be read. -/
structure OwnProcess where
  modules : List ModuleEntry
  text : UInt64 → Option (List UInt8)

/-- Where the program stands: before the named call. -/
inductive Point where
  | waitForGame | getPID | getBaseAddr | getGameHandle
  | waitForEnter | loopGuard | loopBody | done
deriving DecidableEq

/-- The running processes in snapshot order, every process id given out so far,
and the program. -/
structure World where
  running : List Process
  started : List UInt32
  point : Point
  GameMemory : CGameMemory
deriving DecidableEq

/-- A process starts, a process exits, or the program makes its next step, in
which the system call it makes succeeds or fails. -/
inductive Event where
  | start (position : ℕ) (p : Process)
  | exit (pid : UInt32)
  | program (ok : Bool)

def gameExe : List UInt8 := lit "armoredwarfare.exe"

namespace World

def processSnapshot (w : World) (ok : Bool) : Option (List ProcessEntry) :=
  if ok then some (w.running.map fun p => ⟨p.szExeFile, p.th32ProcessID⟩)
  else none

/-- The process id 0 asks for the modules of the caller. -/
def moduleSnapshot (w : World) (own : OwnProcess) (ok : Bool)
    (procID : UInt32) : Option (List ModuleEntry) :=
  if ok then
    if procID = 0 then some own.modules
    else (w.running.find? (·.th32ProcessID == procID)).map (·.modules)
  else none

def openProcess (w : World) (ok : Bool) (procID : UInt32) : HANDLE :=
  if ok = true ∧ ∃ p ∈ w.running, p.th32ProcessID = procID then some procID
  else none

/-- The check of `wait_for_game_to_launch` and of the loop. -/
def gameSeen (t : Tcsicmp) (w : World) (ok : Bool) : Bool :=
  isGameRunning t (w.processSnapshot ok) gameExe

/-- The next step of the program, none where it crashes. The constructor goes on
whatever its lookups return. -/
def program (t : Tcsicmp) (own : OwnProcess) (w : World) (ok : Bool) :
    Option World :=
  let g := w.GameMemory
  match w.point with
  | .waitForGame =>
      some (if w.gameSeen t ok then { w with point := .getPID } else w)
  | .getPID =>
      some
        { w with
          point := .getBaseAddr
          GameMemory :=
            { g with m_dwGamePID := getPID t (w.processSnapshot ok) gameExe } }
  | .getBaseAddr =>
      (getBaseAddr own.text (w.moduleSnapshot own ok g.m_dwGamePID)
        gameExe).map fun base =>
          { w with
            point := .getGameHandle
            GameMemory := { g with m_ptrGameBaseAddress := base } }
  | .getGameHandle =>
      some
        { w with
          point := .waitForEnter
          GameMemory :=
            { g with
              m_hGameHabndle :=
                (getGameHandle (w.openProcess ok g.m_dwGamePID)).1 } }
  | .waitForEnter => some { w with point := .loopGuard }
  | .loopGuard =>
      some { w with point := if w.gameSeen t ok then .loopBody else .done }
  | .loopBody => some { w with point := .loopGuard }
  | .done => some w

/-- Process ids are nonzero and never given out twice; module bases are
nonzero. -/
def step (t : Tcsicmp) (own : OwnProcess) (w : World) :
    Event → Option World
  | .start position p =>
      if p.th32ProcessID ≠ 0 ∧ p.th32ProcessID ∉ w.started ∧
          ∀ m ∈ p.modules, m.modBaseAddr ≠ 0 then
        some
          { w with
            running := w.running.take position ++ p :: w.running.drop position
            started := p.th32ProcessID :: w.started }
      else none
  | .exit pid =>
      if ∃ p ∈ w.running, p.th32ProcessID = pid then
        some { w with running := w.running.filter (·.th32ProcessID ≠ pid) }
      else none
  | .program ok => w.program t own ok

end World

/-- The program and the processes around it, from the launch of the program. -/
def system (t : Tcsicmp) (own : OwnProcess) : Machine World Event Unit where
  init := ⟨[], [], .waitForGame, ⟨none, 0, 0⟩⟩
  step := fun w ev => (w.step t own ev).map fun w' => (w', ())

/-! ## §2  What holds in every state -/

structure Consistent (w : World) : Prop where
  ids : ∀ p ∈ w.running, p.th32ProcessID ∈ w.started
  nonzero : (0 : UInt32) ∉ w.started
  unique : (w.running.map (·.th32ProcessID)).Nodup
  bases : ∀ p ∈ w.running, ∀ m ∈ p.modules, m.modBaseAddr ≠ 0
  found : w.GameMemory.m_dwGamePID = 0 ∨ w.GameMemory.m_dwGamePID ∈ w.started

variable {t : Tcsicmp} {own : OwnProcess} {w : World}

theorem mem_insert_iff {l : List Process} {i : ℕ} {p q : Process} :
    q ∈ l.take i ++ p :: l.drop i ↔ q = p ∨ q ∈ l := by
  have hl : q ∈ l ↔ q ∈ l.take i ∨ q ∈ l.drop i := by
    rw [← List.mem_append, List.take_append_drop]
  rw [List.mem_append, List.mem_cons, hl]
  constructor
  · rintro (h | h | h)
    · exact Or.inr (Or.inl h)
    · exact Or.inl h
    · exact Or.inr (Or.inr h)
  · rintro (h | h | h)
    · exact Or.inr (Or.inl h)
    · exact Or.inl h
    · exact Or.inr (Or.inr h)

/-- What `GetPID` finds is a running process of the name, or nothing. -/
theorem getPID_cases (t : Tcsicmp) (w : World) (ok : Bool) :
    (∃ p ∈ w.running, ok = true ∧ t.cmp p.szExeFile gameExe = 0 ∧
      getPID t (w.processSnapshot ok) gameExe = p.th32ProcessID) ∨
    (getPID t (w.processSnapshot ok) gameExe = 0 ∧
      ¬ (ok = true ∧ ∃ p ∈ w.running, t.cmp p.szExeFile gameExe = 0)) := by
  cases hfirst : firstProcess t (w.processSnapshot ok) gameExe with
  | some e =>
      left
      have hmem := firstProcess_mem t hfirst
      have htest := List.find?_some hfirst
      cases ok with
      | false => exact absurd hmem (by simp [World.processSnapshot])
      | true =>
          obtain ⟨p, hp, rfl⟩ := List.mem_map.mp hmem
          exact ⟨p, hp, rfl, by simpa using htest, getPID_of_first t hfirst⟩
  | none =>
      right
      refine ⟨getPID_of_none t hfirst, ?_⟩
      rintro ⟨rfl, p, hp, hname⟩
      rw [firstProcess, List.find?_eq_none] at hfirst
      have hmem : (⟨p.szExeFile, p.th32ProcessID⟩ : ProcessEntry) ∈
          (w.processSnapshot true).getD [] := List.mem_map.mpr ⟨p, hp, rfl⟩
      exact hfirst _ hmem (by simpa using hname)

theorem Consistent.find_running (h : Consistent w) {p : Process}
    (hp : p ∈ w.running) :
    w.running.find? (·.th32ProcessID == p.th32ProcessID) = some p := by
  cases hfind : w.running.find? (·.th32ProcessID == p.th32ProcessID) with
  | none =>
      rw [List.find?_eq_none] at hfind
      exact absurd (hfind p hp) (by simp)
  | some q =>
      have hq := List.mem_of_find?_eq_some hfind
      have hid : q.th32ProcessID = p.th32ProcessID := by
        simpa using List.find?_some hfind
      rw [List.inj_on_of_nodup_map h.unique hq hp hid]

/-- The base address of a running process is found, as one of its modules,
exactly when the snapshot succeeds and has a module of another name. -/
theorem Consistent.getBaseAddr_mem_iff (h : Consistent w)
    (own : OwnProcess) {p : Process} (hp : p ∈ w.running) (ok : Bool)
    {base : UInt64}
    (hgot : getBaseAddr own.text (w.moduleSnapshot own ok p.th32ProcessID)
      gameExe = some base) :
    (∃ m ∈ p.modules, base = m.modBaseAddr) ↔
      ok = true ∧ ∃ m ∈ p.modules, m.szModule ≠ gameExe := by
  have hne : p.th32ProcessID ≠ 0 := fun he => h.nonzero (he ▸ h.ids p hp)
  cases ok with
  | false =>
      cases hgot
      constructor
      · rintro ⟨m, hm, hbase⟩
        exact absurd hbase.symm (h.bases p hp m hm)
      · rintro ⟨hok, -⟩
        exact absurd hok (by decide)
  | true =>
      -- a process id of 0 would have listed the program's own modules
      have hsnap : w.moduleSnapshot own true p.th32ProcessID =
          some p.modules := by
        rw [World.moduleSnapshot, if_pos rfl, if_neg hne, h.find_running hp]
        rfl
      rw [hsnap] at hgot
      cases hother : firstOtherModule (some p.modules) gameExe with
      | none =>
          rw [getBaseAddr_of_none _ hother] at hgot
          cases hgot
          rw [firstOtherModule, List.find?_eq_none] at hother
          constructor
          · rintro ⟨m, hm, hbase⟩
            exact absurd hbase.symm (h.bases p hp m hm)
          · rintro ⟨-, m, hm, hname⟩
            exact absurd (bne_iff_ne.mpr hname) (hother m hm)
      | some d =>
          have hd : d ∈ p.modules := List.mem_of_find?_eq_some hother
          have hname : d.szModule ≠ gameExe := by
            have htest := List.find?_some hother
            simpa using htest
          rw [getBaseAddr_of_other _ hother] at hgot
          have hbase : d.modBaseAddr = base := by
            split at hgot
            · exact Option.some.inj hgot
            · cases hgot
          constructor
          · intro _
            exact ⟨rfl, d, hd, hname⟩
          · intro _
            exact ⟨d, hd, hbase.symm⟩

/-- Everything an event can do. -/
theorem World.step_cases {ev : Event} {w' : World}
    (hstep : w.step t own ev = some w') :
    (∃ i p, ev = .start i p ∧ p.th32ProcessID ≠ 0 ∧
      p.th32ProcessID ∉ w.started ∧ (∀ m ∈ p.modules, m.modBaseAddr ≠ 0) ∧
      w' =
        { w with
          running := w.running.take i ++ p :: w.running.drop i
          started := p.th32ProcessID :: w.started }) ∨
    (∃ pid, ev = .exit pid ∧
      w' = { w with running := w.running.filter (·.th32ProcessID ≠ pid) }) ∨
    (∃ ok, ev = .program ok ∧ w.program t own ok = some w') := by
  cases ev with
  | start i p =>
      rw [World.step] at hstep
      split at hstep
      · rename_i hguard
        obtain ⟨hzero, hfresh, hbases⟩ := hguard
        cases hstep
        exact Or.inl ⟨i, p, rfl, hzero, hfresh, hbases, rfl⟩
      · cases hstep
  | exit pid =>
      rw [World.step] at hstep
      split at hstep
      · cases hstep
        exact Or.inr (Or.inl ⟨pid, rfl, rfl⟩)
      · cases hstep
  | program ok => exact Or.inr (Or.inr ⟨ok, rfl, hstep⟩)

theorem consistent_init : Consistent (system t own).init where
  ids := fun _ h => absurd h List.not_mem_nil
  nonzero := List.not_mem_nil
  unique := List.nodup_nil
  bases := fun _ h => absurd h List.not_mem_nil
  found := Or.inl rfl

/-- A program step starts and ends no process, and finds an id that was given
out. -/
theorem program_frame {ok : Bool} {w' : World}
    (hstep : w.program t own ok = some w') :
    w'.running = w.running ∧ w'.started = w.started ∧
      (w'.GameMemory.m_dwGamePID = w.GameMemory.m_dwGamePID ∨
        (w.point = .getPID ∧ w'.GameMemory.m_dwGamePID =
          getPID t (w.processSnapshot ok) gameExe)) := by
  unfold World.program at hstep
  dsimp only at hstep
  split at hstep
  · cases hstep
    split
    · exact ⟨rfl, rfl, Or.inl rfl⟩
    · exact ⟨rfl, rfl, Or.inl rfl⟩
  · rename_i hpoint
    cases hstep
    exact ⟨rfl, rfl, Or.inr ⟨hpoint, rfl⟩⟩
  · obtain ⟨base, -, rfl⟩ := Option.map_eq_some_iff.mp hstep
    exact ⟨rfl, rfl, Or.inl rfl⟩
  all_goals
    cases hstep
    exact ⟨rfl, rfl, Or.inl rfl⟩

theorem consistent_step {ev : Event} {w' : World} (h : Consistent w)
    (hstep : w.step t own ev = some w') : Consistent w' := by
  rcases World.step_cases hstep with
    ⟨i, p, -, hzero, hfresh, hbases, rfl⟩ | ⟨pid, -, rfl⟩ | ⟨ok, -, hprogram⟩
  · refine ⟨?_, ?_, ?_, ?_, ?_⟩
    · intro q hq
      rcases mem_insert_iff.mp hq with rfl | hq
      · exact List.mem_cons_self
      · exact List.mem_cons_of_mem _ (h.ids q hq)
    · intro hmem
      rcases List.mem_cons.mp hmem with h0 | h0
      · exact hzero h0.symm
      · exact h.nonzero h0
    · -- the snapshot may list a new process anywhere
      have hperm : (w.running.take i ++ p :: w.running.drop i).Perm
          (p :: w.running) := by
        have hmid := @List.perm_middle _ p (w.running.take i)
          (w.running.drop i)
        rwa [List.take_append_drop] at hmid
      apply (hperm.map _).nodup_iff.mpr
      rw [List.map_cons, List.nodup_cons]
      refine ⟨?_, h.unique⟩
      intro hmem
      obtain ⟨q, hq, hid⟩ := List.mem_map.mp hmem
      exact hfresh (hid ▸ h.ids q hq)
    · intro q hq
      rcases mem_insert_iff.mp hq with rfl | hq
      · exact hbases
      · exact h.bases q hq
    · rcases h.found with h0 | h0
      · exact Or.inl h0
      · exact Or.inr (List.mem_cons_of_mem _ h0)
  · refine ⟨?_, h.nonzero, ?_, ?_, h.found⟩
    · intro q hq
      exact h.ids q (List.mem_of_mem_filter hq)
    · exact h.unique.sublist (List.filter_sublist.map _)
    · intro q hq
      exact h.bases q (List.mem_of_mem_filter hq)
  · obtain ⟨hrun, hstart, hpid⟩ := program_frame hprogram
    refine ⟨?_, ?_, ?_, ?_, ?_⟩
    · rw [hrun, hstart]
      exact h.ids
    · rw [hstart]
      exact h.nonzero
    · rw [hrun]
      exact h.unique
    · rw [hrun]
      exact h.bases
    · rw [hstart]
      rcases hpid with hpid | ⟨-, hpid⟩
      · rw [hpid]
        exact h.found
      · rw [hpid]
        rcases getPID_cases t w ok with ⟨p, hp, -, -, hid⟩ | ⟨hzero, -⟩
        · rw [hid]
          exact Or.inr (h.ids p hp)
        · exact Or.inl hzero

end AWRPC
