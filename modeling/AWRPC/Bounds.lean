import AWRPC.Presence

/-!
# What one iteration does, and that it stays inside the arrays

Each phase gets one specification, on states that satisfy the loop invariant
`InBounds`; `iteration_spec` puts them together and is the only fact about the
code of the iteration that later modules use. The invariant makes the loop a
machine without faults (`mainLoopSafe`), so that runs have a state and a list of
`Update` calls at every index.
-/

namespace AWRPC

open Bytes CGameMemory Discord CharArray

/-! ## §1  The invariant -/

/-- Reads touch the first 20 bytes of a buffer only, so the bytes behind them
are still the zeros of the initialization; the copy in `buffer_for_old` ends
where its source ended. -/
structure InBounds (s : LoopState) : Prop where
  buffer : s.buffer.ZeroFrom 20
  nickname : s.nickname_buffer.ZeroFrom 20
  old : s.buffer_for_old.NulWithin 20
  table : StdMap.Grown levelLocalization s.levelLocalization

theorem start_inBounds (c : Setup) : InBounds (start c) where
  buffer := ofLiteral_zeroFrom (by decide) (by decide)
  nickname := ofLiteral_zeroFrom (by decide) (by decide)
  old := ZeroFrom.nulWithin (ofLiteral_zeroFrom (by decide) (by decide))
    (by decide)
  table := StdMap.Grown.refl _

theorem readInto_zeroFrom (r : ReadResult 20) {b : CharArray 150}
    (h : b.ZeroFrom 20) : (readInto r b).2.ZeroFrom 20 :=
  h.overwrite (Nat.le_trans r.written_le (by decide)) r.written_le

theorem readMap_inBounds (c : Setup) (i : LoopInput) {s : LoopState}
    (h : InBounds s) : InBounds (readMap c i s) :=
  ⟨readInto_zeroFrom _ h.buffer, h.nickname, h.old, h.table⟩

theorem readNickname_inBounds (c : Setup) (i : LoopInput) {s : LoopState}
    (h : InBounds s) : InBounds (readNickname c i s) :=
  ⟨h.buffer, readInto_zeroFrom _ h.nickname, h.old, h.table⟩

theorem InBounds.buffer_nul {s : LoopState} (h : InBounds s) :
    s.buffer.NulWithin 20 := h.buffer.nulWithin (by decide)

theorem InBounds.nickname_nul {s : LoopState} (h : InBounds s) :
    s.nickname_buffer.NulWithin 20 := h.nickname.nulWithin (by decide)

/-! ## §2  The phases -/

theorem compareLevels_same (c : Setup) (time : Int64) {s : LoopState}
    (h : InBounds s) (heq : s.buffer.str = s.buffer_for_old.str) :
    compareLevels c time s = some { s with level := s.buffer.str } := by
  rw [compareLevels, h.buffer_nul.cString?, h.old.cString?]
  exact if_neg (not_not.mpr heq)

theorem compareLevels_differ (c : Setup) (time : Int64) {s : LoopState}
    (h : InBounds s) (hne : s.buffer.str ≠ s.buffer_for_old.str) :
    ∃ copy : CharArray 150, copy.NulWithin 20 ∧ copy.str = s.buffer.str ∧
      compareLevels c time s = some
        { s with
          level := s.buffer.str
          buffer_for_old := copy
          timestamp := time
          bNeedToBeUpdated := true } := by
  obtain ⟨copy, hcopy, hstr, hnul⟩ :=
    strcpy_s_spec (pad c.debug) s.buffer_for_old h.buffer_nul (by decide)
  refine ⟨copy, hnul, hstr, ?_⟩
  rw [compareLevels, h.buffer_nul.cString?, h.old.cString?]
  show (if s.buffer.str ≠ s.buffer_for_old.str then _ else _) = _
  rw [if_pos hne, hcopy]
  rfl

theorem hangarCall_spec (lang : Localization) {s : LoopState}
    (h : s.nickname_buffer.NulWithin 20) :
    hangarCall lang s =
      some (hangarPresence lang s.nickname_buffer.str s.timestamp) := by
  cases lang with
  | EEng =>
      rw [hangarCall, h.cString?]
      rfl
  | ERu => rfl

/-- A due update makes the call of the stateless reference: the grown table
answers as the original one. -/
theorem updateBlock_due (lang : Localization) {s : LoopState}
    (h : InBounds s) (hdue : s.bNeedToBeUpdated = true) :
    updateBlock lang s = some
      ({ s with
          level := cutAt slash s.level
          levelLocalization :=
            (s.levelLocalization.subscript (cutAt slash s.level)).2
          bNeedToBeUpdated := false },
        [referenceCall lang (cutAt slash s.level) s.nickname_buffer.str
          s.timestamp]) := by
  rw [updateBlock, if_pos hdue]
  dsimp only
  rw [substr_find, StdMap.subscript_fst, h.table.valueAt]
  by_cases hmap : MapKey (cutAt slash s.level)
  · rw [if_neg ((mapKey_iff _).mp hmap), referenceCall_of_mapKey hmap]
    rfl
  · have htype := not_not.mp fun hne => hmap ((mapKey_iff _).mpr hne)
    rw [if_pos htype, hangarCall_spec lang, referenceCall_of_not_mapKey hmap]
    · rfl
    · exact h.nickname_nul

theorem debugPrint_inBounds (c : Setup) {s : LoopState} (h : InBounds s) :
    InBounds (debugPrint c s) := by
  unfold debugPrint
  split
  · exact ⟨h.buffer, h.nickname, h.old, h.table.subscript _⟩
  · exact h

/-! ## §3  The iteration -/

/-- The update is due: nothing was sent yet, or the string read differs. -/
def Due (c : Setup) (i : LoopInput) (s : LoopState) : Prop :=
  s.bNeedToBeUpdated = true ∨
    (readBoth c i s).buffer.str ≠ s.buffer_for_old.str

/-- The timestamp an iteration leaves. -/
def newTimestamp (c : Setup) (i : LoopInput) (s : LoopState) : Int64 :=
  if (readBoth c i s).buffer.str = s.buffer_for_old.str then s.timestamp
  else i.time

/-- The call an iteration makes when the update is due. -/
def dueCall (lang : Localization) (c : Setup) (i : LoopInput)
    (s : LoopState) : UpdateCall :=
  referenceCall lang (cutAt slash (readBoth c i s).buffer.str)
    (readBoth c i s).nickname_buffer.str (newTimestamp c i s)

/-- Everything an iteration from `s` on input `i` does. -/
structure IterationSpec (lang : Localization) (c : Setup) (s : LoopState)
    (i : LoopInput) (r : LoopState × List UpdateCall) : Prop where
  inBounds : InBounds r.1
  buffer : r.1.buffer = (readBoth c i s).buffer
  nickname : r.1.nickname_buffer = (readBoth c i s).nickname_buffer
  old_str : r.1.buffer_for_old.str = (readBoth c i s).buffer.str
  old_kept : (readBoth c i s).buffer.str = s.buffer_for_old.str →
    r.1.buffer_for_old = s.buffer_for_old
  timestamp : r.1.timestamp = newTimestamp c i s
  sent : r.1.bNeedToBeUpdated = false
  level_due : Due c i s → r.1.level = cutAt slash (readBoth c i s).buffer.str
  calls_due : Due c i s → r.2 = [dueCall lang c i s]
  calls_not_due : ¬ Due c i s → r.2 = []
  table_due : Due c i s → r.1.levelLocalization =
    (s.levelLocalization.subscript
      (cutAt slash (readBoth c i s).buffer.str)).2
  table_not_due : ¬ Due c i s → r.1.levelLocalization =
    if c.debug then
      (s.levelLocalization.subscript (readBoth c i s).buffer.str).2
    else s.levelLocalization

@[simp] theorem debugPrint_buffer (c : Setup) (s : LoopState) :
    (debugPrint c s).buffer = s.buffer := by
  unfold debugPrint; split <;> rfl

@[simp] theorem debugPrint_nickname_buffer (c : Setup) (s : LoopState) :
    (debugPrint c s).nickname_buffer = s.nickname_buffer := by
  unfold debugPrint; split <;> rfl

@[simp] theorem debugPrint_buffer_for_old (c : Setup) (s : LoopState) :
    (debugPrint c s).buffer_for_old = s.buffer_for_old := by
  unfold debugPrint; split <;> rfl

@[simp] theorem debugPrint_level (c : Setup) (s : LoopState) :
    (debugPrint c s).level = s.level := by
  unfold debugPrint; split <;> rfl

@[simp] theorem debugPrint_timestamp (c : Setup) (s : LoopState) :
    (debugPrint c s).timestamp = s.timestamp := by
  unfold debugPrint; split <;> rfl

@[simp] theorem debugPrint_bNeedToBeUpdated (c : Setup) (s : LoopState) :
    (debugPrint c s).bNeedToBeUpdated = s.bNeedToBeUpdated := by
  unfold debugPrint; split <;> rfl

theorem debugPrint_table (c : Setup) (s : LoopState) :
    (debugPrint c s).levelLocalization =
      if c.debug then (s.levelLocalization.subscript s.level).2
      else s.levelLocalization := by
  unfold debugPrint; split <;> rfl

/-- The console output finds the entry the update has just looked up. -/
theorem debugPrint_table_looked (c : Setup) {s : LoopState}
    {m : LeveLocalizations}
    (h : s.levelLocalization = (m.subscript s.level).2) :
    (debugPrint c s).levelLocalization = s.levelLocalization := by
  rw [debugPrint_table, h, StdMap.subscript_idem]
  split <;> rfl

theorem iteration_of_phases {lang : Localization} {c : Setup}
    {s t : LoopState} {i : LoopInput} {r : LoopState × List UpdateCall}
    (hcompare : compareLevels c i.time (readBoth c i s) = some t)
    (hupdate : updateBlock lang t = some r) :
    iteration lang c s i = some (debugPrint c r.1, r.2) := by
  rw [iteration, hcompare]
  show (updateBlock lang t >>= _) = _
  rw [hupdate]
  rfl

theorem iteration_spec (lang : Localization) (c : Setup) {s : LoopState}
    (i : LoopInput) (h : InBounds s) :
    ∃ r, iteration lang c s i = some r ∧ IterationSpec lang c s i r := by
  have h₁ : InBounds (readBoth c i s) :=
    readNickname_inBounds c i (readMap_inBounds c i h)
  by_cases heq : (readBoth c i s).buffer.str = s.buffer_for_old.str
  · have hcompare := compareLevels_same c i.time h₁ heq
    have htime : newTimestamp c i s = s.timestamp := if_pos heq
    by_cases hneed : s.bNeedToBeUpdated = true
    · -- the first iteration, with the string the buffers were filled with
      have hupdate := updateBlock_due lang
        (s := { readBoth c i s with level := (readBoth c i s).buffer.str })
        ⟨h₁.buffer, h₁.nickname, h₁.old, h₁.table⟩ hneed
      refine ⟨_, iteration_of_phases hcompare hupdate, ?_⟩
      exact
        { inBounds := debugPrint_inBounds c
            ⟨h₁.buffer, h₁.nickname, h₁.old, h₁.table.subscript _⟩
          buffer := debugPrint_buffer c _
          nickname := debugPrint_nickname_buffer c _
          old_str := by rw [debugPrint_buffer_for_old]; exact heq.symm
          old_kept := fun _ => debugPrint_buffer_for_old c _
          timestamp := by rw [debugPrint_timestamp, htime]; rfl
          sent := debugPrint_bNeedToBeUpdated c _
          level_due := fun _ => debugPrint_level c _
          calls_due := fun _ => by rw [dueCall, htime]; rfl
          calls_not_due := fun hdue => absurd (Or.inl hneed) hdue
          table_due := fun _ => debugPrint_table_looked c rfl
          table_not_due := fun hdue => absurd (Or.inl hneed) hdue }
    · -- nothing new was read
      have hdue : ¬ Due c i s := by
        rintro (hd | hd)
        · exact hneed hd
        · exact hd heq
      have hupdate : updateBlock lang
          { readBoth c i s with level := (readBoth c i s).buffer.str } =
          some (_, []) := if_neg hneed
      refine ⟨_, iteration_of_phases hcompare hupdate, ?_⟩
      exact
        { inBounds := debugPrint_inBounds c
            ⟨h₁.buffer, h₁.nickname, h₁.old, h₁.table⟩
          buffer := debugPrint_buffer c _
          nickname := debugPrint_nickname_buffer c _
          old_str := by rw [debugPrint_buffer_for_old]; exact heq.symm
          old_kept := fun _ => debugPrint_buffer_for_old c _
          timestamp := by rw [debugPrint_timestamp, htime]; rfl
          sent := by
            rw [debugPrint_bNeedToBeUpdated]
            exact Bool.eq_false_iff.mpr hneed
          level_due := fun hd => absurd hd hdue
          calls_due := fun hd => absurd hd hdue
          calls_not_due := fun _ => rfl
          table_due := fun hd => absurd hd hdue
          table_not_due := fun _ => debugPrint_table c _ }
  · -- a new string: the timestamp and the remembered level follow it
    have hdue : Due c i s := Or.inr heq
    have htime : newTimestamp c i s = i.time := if_neg heq
    obtain ⟨copy, hnul, hstr, hcompare⟩ :=
      compareLevels_differ c i.time h₁ heq
    have hupdate := updateBlock_due lang
      (s :=
        { readBoth c i s with
          level := (readBoth c i s).buffer.str
          buffer_for_old := copy
          timestamp := i.time
          bNeedToBeUpdated := true })
      ⟨h₁.buffer, h₁.nickname, hnul, h₁.table⟩ rfl
    refine ⟨_, iteration_of_phases hcompare hupdate, ?_⟩
    exact
      { inBounds := debugPrint_inBounds c
          ⟨h₁.buffer, h₁.nickname, hnul, h₁.table.subscript _⟩
        buffer := debugPrint_buffer c _
        nickname := debugPrint_nickname_buffer c _
        old_str := by rw [debugPrint_buffer_for_old]; exact hstr
        old_kept := fun hd => absurd hd heq
        timestamp := by rw [debugPrint_timestamp, htime]
        sent := debugPrint_bNeedToBeUpdated c _
        level_due := fun _ => debugPrint_level c _
        calls_due := fun _ => by rw [dueCall, htime]
        calls_not_due := fun hd => absurd hdue hd
        table_due := fun _ => debugPrint_table_looked c rfl
        table_not_due := fun hd => absurd hdue hd }

/-! ## §4  Runs -/

/-- The loop never faults from a state in bounds. -/
def mainLoopSafe (lang : Localization) (c : Setup) :
    (mainLoop lang c).Safe where
  Inv := InBounds
  init := start_inBounds c
  next := fun _ i h => by
    obtain ⟨r, hr, hspec⟩ := iteration_spec lang c i h
    exact ⟨r, hr, hspec.inBounds⟩

/-- The state before iteration `n` of the run on `env`. -/
def stateAt (lang : Localization) (c : Setup) (env : ℕ → LoopInput) (n : ℕ) :
    LoopState := ((mainLoopSafe lang c).stateAt env n).val

/-- The `Update` calls of iteration `n`, in order. -/
def callsAt (lang : Localization) (c : Setup) (env : ℕ → LoopInput) (n : ℕ) :
    List UpdateCall := (mainLoopSafe lang c).outAt env n

/-- The states and calls of a stream are those of the runs over its finite
beginnings. -/
theorem run_stateAt (lang : Localization) (c : Setup) (env : ℕ → LoopInput)
    (n : ℕ) :
    (mainLoop lang c).run (start c) ((List.range n).map env) =
      some (stateAt lang c env n, (List.range n).map (callsAt lang c env)) :=
  (mainLoopSafe lang c).run_range env n

theorem stateAt_inBounds (lang : Localization) (c : Setup)
    (env : ℕ → LoopInput) (n : ℕ) : InBounds (stateAt lang c env n) :=
  ((mainLoopSafe lang c).stateAt env n).inv

theorem step_spec (lang : Localization) (c : Setup) (env : ℕ → LoopInput)
    (n : ℕ) :
    IterationSpec lang c (stateAt lang c env n) (env n)
      (stateAt lang c env (n + 1), callsAt lang c env n) := by
  obtain ⟨r, hr, hspec⟩ :=
    iteration_spec lang c (env n) (stateAt_inBounds lang c env n)
  have hstep := (mainLoopSafe lang c).step_stateAt env n
  have heq : r = (stateAt lang c env (n + 1), callsAt lang c env n) :=
    Option.some.inj (hr.symm.trans hstep)
  exact heq ▸ hspec

/-- Every call of a run is the reference call of some level and nickname, the
nickname being at most 20 bytes long. -/
theorem call_reference {lang : Localization} {c : Setup}
    {env : ℕ → LoopInput} {n : ℕ} {call : UpdateCall}
    (h : call ∈ callsAt lang c env n) :
    ∃ level nickname timestamp,
      call = referenceCall lang level nickname timestamp ∧
        nickname.length ≤ 20 := by
  have hspec := step_spec lang c env n
  by_cases hdue : Due c (env n) (stateAt lang c env n)
  · rw [show callsAt lang c env n = _ from hspec.calls_due hdue] at h
    refine ⟨_, _, _, List.mem_singleton.mp h, ?_⟩
    rw [← hspec.nickname]
    exact hspec.inBounds.nickname_nul.str_length_le
  · rw [show callsAt lang c env n = _ from hspec.calls_not_due hdue] at h
    exact absurd h List.not_mem_nil

/-- Both read buffers hold a NUL at some index up to 20 and only zeros from
index 20 on, and the remembered level holds a NUL at some index up to 20. -/
def Terminated (s : LoopState) : Prop :=
  (s.buffer.NulWithin 20 ∧ s.buffer.ZeroFrom 20) ∧
    (s.nickname_buffer.NulWithin 20 ∧ s.nickname_buffer.ZeroFrom 20) ∧
    s.buffer_for_old.NulWithin 20

theorem InBounds.terminated {s : LoopState} (h : InBounds s) : Terminated s :=
  ⟨⟨h.buffer_nul, h.buffer⟩, ⟨h.nickname_nul, h.nickname⟩, h.old⟩

/-- **No memory contents lead out of the arrays or to an inadmissible
presence.** No run faults; the buffers stay terminated after the first read,
after the second and at the end of every iteration; and every presence handed
to `Discord_UpdatePresence` keeps to the limits, with an image key that is the
logo or a map key of the original table. -/
theorem memory_safety (lang : Localization) (c : Setup) :
    (∀ ins : List LoopInput, ∃ r, (mainLoop lang c).run (start c) ins = some r) ∧
    ∀ (env : ℕ → LoopInput) (n : ℕ),
      Terminated (readMap c (env n) (stateAt lang c env n)) ∧
      Terminated (readBoth c (env n) (stateAt lang c env n)) ∧
      Terminated (stateAt lang c env (n + 1)) ∧
      ∀ call ∈ callsAt lang c env n,
        (update call).WithinLimits ∧
        ∃ key, (update call).largeImageKey = some key ∧
          (key = lit "small_logo_black" ∨ MapKey key) := by
  constructor
  · intro ins
    obtain ⟨r, hr, -⟩ := (mainLoopSafe lang c).run_isSome ins
    exact ⟨r, hr⟩
  · intro env n
    have h := stateAt_inBounds lang c env n
    have hmap := readMap_inBounds c (env n) h
    refine ⟨hmap.terminated, (readNickname_inBounds c (env n) hmap).terminated,
      (stateAt_inBounds lang c env (n + 1)).terminated, ?_⟩
    intro call hcall
    obtain ⟨level, nickname, timestamp, rfl, hnick⟩ := call_reference hcall
    exact ⟨referenceCall_withinLimits lang level timestamp hnick,
      _, rfl, referenceCall_mapName lang level nickname timestamp⟩

end AWRPC
