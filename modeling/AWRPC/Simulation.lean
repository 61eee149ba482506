import AWRPC.Bounds
import AWRPC.Lib.ChangeDetector

/-!
# The loop as a change detector

The loop simulates a change detector whose key is the whole string read, whose
payload is the nickname and whose report is the reference presence. This gives
every run a closed form in terms of its inputs: what the two buffers hold
(`levelAt`, `nicknameAt`), in which iterations a call is made, with which
arguments, and what `timestamp` holds.
-/

namespace AWRPC

open Bytes CharArray CGameMemory Discord ChangeDetector

/-! ## §1  What the inputs determine -/

section Inputs

variable (c : Setup) (env : ℕ → LoopInput)

/-- The map read of iteration `n`. -/
def mapResult (n : ℕ) : ReadResult 20 :=
  c.GameMemory.readAt (env n).readProcessMemory m_MAP_NAME_MEMORY_ADDRESS

def nicknameResult (n : ℕ) : ReadResult 20 :=
  c.GameMemory.readAt (env n).readProcessMemory m_NICKNAME_MEMORY_ADDRESS

/-- `GetCurrentMap` returns true in iteration `n`. -/
def mapRead (n : ℕ) : Bool := (mapResult c env n).succeeded

def nicknameRead (n : ℕ) : Bool := (nicknameResult c env n).succeeded

/-- The map buffer before iteration `n`, by its reads alone. -/
def mapBuffer : ℕ → CharArray 150
  | 0 => (start c).buffer
  | n + 1 => (readInto (mapResult c env n) (mapBuffer n)).2

def nicknameBuffer : ℕ → CharArray 150
  | 0 => (start c).nickname_buffer
  | n + 1 => (readInto (nicknameResult c env n) (nicknameBuffer n)).2

/-- The whole string in `buffer` after the read of iteration `n`. -/
def levelAt (n : ℕ) : List UInt8 := (mapBuffer c env (n + 1)).str

/-- The part of it before the first slash. -/
def nameAt (n : ℕ) : List UInt8 := cutAt slash (levelAt c env n)

def nicknameAt (n : ℕ) : List UInt8 := (nicknameBuffer c env (n + 1)).str

def clockAt (n : ℕ) : Int64 := (env n).time

/-- `timestamp` before iteration `n`: the clock value of the last change of the
whole string, at first the start-up value. -/
def timestampAt (n : ℕ) : Int64 :=
  stampAt (lit "Nothing") c.timestamp (levelAt c env) (clockAt env) n

end Inputs

variable (lang : Localization) (c : Setup) (env : ℕ → LoopInput)

theorem buffers_eq (n : ℕ) :
    (stateAt lang c env n).buffer = mapBuffer c env n ∧
      (stateAt lang c env n).nickname_buffer = nicknameBuffer c env n := by
  induction n with
  | zero => exact ⟨rfl, rfl⟩
  | succ n ih =>
      have hspec := step_spec lang c env n
      constructor
      · rw [hspec.buffer, mapBuffer, ← ih.1]
        rfl
      · rw [hspec.nickname, nicknameBuffer, ← ih.2]
        rfl

theorem buffer_str (n : ℕ) :
    (stateAt lang c env (n + 1)).buffer.str = levelAt c env n := by
  rw [(buffers_eq lang c env (n + 1)).1, levelAt]

theorem nickname_str (n : ℕ) :
    (stateAt lang c env (n + 1)).nickname_buffer.str = nicknameAt c env n := by
  rw [(buffers_eq lang c env (n + 1)).2, nicknameAt]

/-- The level name a state shows: the string in `buffer` up to the first
slash. -/
def LoopState.name (s : LoopState) : List UInt8 := cutAt slash s.buffer.str

theorem name_eq (n : ℕ) :
    (stateAt lang c env (n + 1)).name = nameAt c env n := by
  rw [LoopState.name, buffer_str, nameAt]

/-! ## §2  The simulation -/

/-- What the detector sees of an iteration. -/
def sample (s : LoopState) (i : LoopInput) :
    Sample (List UInt8) (List UInt8) Int64 :=
  ⟨(readBoth c i s).buffer.str, (readBoth c i s).nickname_buffer.str, i.time⟩

/-- The state of the loop as a state of the detector. -/
structure Simulates (s : LoopState) (a : State (List UInt8) Int64) : Prop where
  last : s.buffer_for_old.str = a.last
  stamp : s.timestamp = a.stamp
  pending : s.bNeedToBeUpdated = a.pending

/-- The calls that a report stands for. -/
def reportCalls (r : Report (List UInt8) (List UInt8) Int64) : List UpdateCall :=
  (r.map fun x => referenceCall lang (cutAt slash x.key) x.payload x.clock).toList

theorem start_simulates : Simulates (start c)
    (detector (ν := List UInt8) (lit "Nothing") c.timestamp).init where
  last := ofLiteral_str (by decide) (by decide)
  stamp := rfl
  pending := rfl

theorem iteration_simulates {s : LoopState} {i : LoopInput}
    {a : State (List UInt8) Int64} {r : LoopState × List UpdateCall}
    {q : State (List UInt8) Int64 × Report (List UInt8) (List UInt8) Int64}
    (hspec : IterationSpec lang c s i r) (hsim : Simulates s a)
    (hq : (detector (lit "Nothing") c.timestamp).step a (sample c s i) =
      some q) :
    Simulates r.1 q.1 ∧ r.2 = reportCalls lang q.2 := by
  obtain ⟨hlast, hstamp, hpending⟩ := hsim
  have hdue : Due c i s ↔ a.pending = true ∨ (sample c s i).key ≠ a.last := by
    rw [Due, hlast, hpending]
    rfl
  have htime : newTimestamp c i s =
      if (sample c s i).key = a.last then a.stamp else i.time := by
    rw [newTimestamp, hlast, hstamp]
    rfl
  unfold detector at hq
  dsimp only at hq
  by_cases hkey : (sample c s i).key = a.last
  · rw [if_pos hkey] at hq htime
    cases hp : a.pending with
    | true =>
        -- the first sample repeats the initial string
        rw [hp] at hq
        cases hq
        refine ⟨⟨?_, ?_, hspec.sent⟩, ?_⟩
        · exact hspec.old_str.trans hkey
        · exact hspec.timestamp.trans htime
        · rw [hspec.calls_due (hdue.mpr (Or.inl hp)), dueCall, htime]
          rfl
    | false =>
        rw [hp] at hq
        cases hq
        refine ⟨⟨?_, ?_, ?_⟩, ?_⟩
        · exact hspec.old_str.trans hkey
        · exact hspec.timestamp.trans htime
        · exact hspec.sent.trans hp.symm
        · have hnot : ¬ Due c i s := by
            rw [hdue, hp]
            rintro (h | h)
            · exact absurd h (by decide)
            · exact h hkey
          rw [hspec.calls_not_due hnot]
          rfl
  · rw [if_neg hkey] at hq htime
    cases hq
    refine ⟨⟨hspec.old_str, hspec.timestamp.trans htime, hspec.sent⟩, ?_⟩
    rw [hspec.calls_due (hdue.mpr (Or.inr hkey)), dueCall, htime]
    rfl

/-- The stream the detector sees in a run of the loop. -/
def samples (n : ℕ) : Sample (List UInt8) (List UInt8) Int64 :=
  ⟨levelAt c env n, nicknameAt c env n, clockAt env n⟩

theorem sample_stateAt (n : ℕ) :
    sample c (stateAt lang c env n) (env n) = samples c env n := by
  have hspec := step_spec lang c env n
  rw [sample, ← hspec.buffer, ← hspec.nickname, buffer_str, nickname_str]
  rfl

/-- **The loop refines the change detector** on every run. -/
theorem mainLoop_simulates (n : ℕ) :
    let A := detectorSafe (ν := List UInt8) (lit "Nothing") c.timestamp
    Simulates (stateAt lang c env n) (A.stateAt (samples c env) n).val ∧
      callsAt lang c env n = reportCalls lang (A.outAt (samples c env) n) := by
  intro A
  have hsim := (mainLoopSafe lang c).simulation A (sample c) Simulates
    (fun calls r => calls = reportCalls lang r) (start_simulates c)
    (fun s a i r q hinv hR hr hq => by
      obtain ⟨r', hr', hspec⟩ := iteration_spec lang c i hinv
      have heq : r' = r := Option.some.inj (hr'.symm.trans hr)
      exact iteration_simulates lang c (heq ▸ hspec) hR hq) env n
  have henv : (fun k => sample c ((mainLoopSafe lang c).stateAt env k).val
      (env k)) = samples c env := funext fun k => sample_stateAt lang c env k
  rw [henv] at hsim
  exact hsim

/-! ## §3  The closed form of a run -/

/-- The call of iteration `n`, if it makes one. -/
def callAt (n : ℕ) : UpdateCall :=
  referenceCall lang (nameAt c env n) (nicknameAt c env n)
    (timestampAt c env (n + 1))

/-- **Calls.** One exactly where a span of equal strings begins. -/
theorem callsAt_eq (n : ℕ) :
    callsAt lang c env n =
      if Starts (levelAt c env) n then [callAt lang c env n] else [] := by
  rw [(mainLoop_simulates lang c env n).2, detector_outAt]
  by_cases h : Starts (levelAt c env) n
  · rw [if_pos h, if_pos (show Starts (fun i => (samples c env i).key) n from h)]
    rfl
  · rw [if_neg h, if_neg (show ¬ Starts (fun i => (samples c env i).key) n from h)]
    rfl

theorem timestamp_eq (n : ℕ) :
    (stateAt lang c env n).timestamp = timestampAt c env n := by
  rw [(mainLoop_simulates lang c env n).1.stamp, detector_stateAt]
  rfl

/-- The remembered string before iteration `n`. -/
theorem old_str_eq (n : ℕ) :
    (stateAt lang c env n).buffer_for_old.str =
      prepend (lit "Nothing") (levelAt c env) n := by
  rw [(mainLoop_simulates lang c env n).1.last, detector_stateAt]
  rfl

theorem due_iff (n : ℕ) :
    Due c (env n) (stateAt lang c env n) ↔ Starts (levelAt c env) n := by
  have hpending := (mainLoop_simulates lang c env n).1.pending
  rw [detector_stateAt] at hpending
  have hbuffer := (step_spec lang c env n).buffer
  rw [Due, hpending, ← hbuffer, buffer_str, old_str_eq]
  cases n with
  | zero => exact ⟨fun _ => trivial, fun _ => Or.inl rfl⟩
  | succ n =>
      constructor
      · rintro (h | h)
        · exact absurd h (by simp)
        · exact h
      · exact Or.inr

theorem mem_callsAt_iff {n : ℕ} {call : UpdateCall} :
    call ∈ callsAt lang c env n ↔
      Starts (levelAt c env) n ∧ call = callAt lang c env n := by
  rw [callsAt_eq]
  split
  · rename_i h
    rw [List.mem_singleton]
    exact ⟨fun he => ⟨h, he⟩, fun he => he.2⟩
  · rename_i h
    exact ⟨fun hm => absurd hm List.not_mem_nil, fun he => absurd he.1 h⟩

theorem callsAt_eq_nil_iff {n : ℕ} :
    callsAt lang c env n = [] ↔ ¬ Starts (levelAt c env) n := by
  rw [callsAt_eq]
  split
  · rename_i h
    exact ⟨fun hnil => absurd hnil (List.cons_ne_nil _ _),
      fun hnot => absurd h hnot⟩
  · rename_i h
    exact ⟨fun _ => h, fun _ => rfl⟩

/-- **The call in force** after iteration `n` is the one made where the span of
`n` began. -/
theorem latest_call (n : ℕ) :
    Latest (callsAt lang c env) n (spanStart (levelAt c env) n)
      (callAt lang c env (spanStart (levelAt c env) n)) :=
  latest_spanStart (callsAt_eq lang c env) n

/-- Name and timestamp of the call in force are those of the state now; only
the nickname is the one of the iteration that made the call. -/
theorem callAt_spanStart (n : ℕ) :
    callAt lang c env (spanStart (levelAt c env) n) =
      referenceCall lang (nameAt c env n)
        (nicknameAt c env (spanStart (levelAt c env) n))
        (timestampAt c env (n + 1)) := by
  have hlevel := eq_spanStart (levelAt c env) n
  have hstamp := stampAt_spanStart (lit "Nothing") c.timestamp (levelAt c env)
    (clockAt env) n
  rw [callAt, nameAt, hlevel, timestampAt, hstamp]
  rfl

/-! ## §4  Runs given by their reads -/

/-- An iteration in which the reads of the map and of the nickname return the
given results. -/
def LoopInput.ofResults (c : Setup) (map nickname : (n : ℕ) → ReadResult n)
    (time : Int64) : LoopInput where
  readProcessMemory := fun _ address n =>
    if address = c.GameMemory.m_ptrGameBaseAddress + m_MAP_NAME_MEMORY_ADDRESS
    then map n else nickname n
  time := time

/-- The successful read of memory that holds a string with zeros behind it. -/
def holding (s : List UInt8) (n : ℕ) : ReadResult n :=
  .ofMemory (fun k => s.getD k 0) n

/-- A read that fails and stores nothing. -/
def failing (n : ℕ) : ReadResult n := ⟨false, [], 0, Nat.zero_le _, by simp⟩

/-- A release build attached to a process. -/
def attached : Setup := ⟨false, ⟨some 4, 0x140000000, 4⟩, 100⟩

theorem mapResult_ofResults (c : Setup)
    (map nickname : ℕ → (n : ℕ) → ReadResult n) (time : ℕ → Int64) (n : ℕ) :
    mapResult c (fun k => .ofResults c (map k) (nickname k) (time k)) n =
      map n 20 := by
  simp only [mapResult, readAt, LoopInput.ofResults, if_true]

theorem nicknameResult_ofResults (c : Setup)
    (map nickname : ℕ → (n : ℕ) → ReadResult n) (time : ℕ → Int64) (n : ℕ) :
    nicknameResult c (fun k => .ofResults c (map k) (nickname k) (time k)) n =
      nickname n 20 := by
  have hoffset : m_NICKNAME_MEMORY_ADDRESS ≠ m_MAP_NAME_MEMORY_ADDRESS := by
    decide +kernel
  simp only [nicknameResult, readAt, LoopInput.ofResults, UInt64.add_right_inj,
    hoffset, if_false]

end AWRPC
