import AWRPC.Simulation

/-!
# What the calls of a run show

Laws of the `Update` calls over whole runs, for the language `main` sets. A law
that not every run keeps is a property of a run and a number of iterations, and
its theorem says exactly which reads keep it.
-/

namespace AWRPC

open Bytes CGameMemory Discord ChangeDetector

variable (c : Setup) (env : ℕ → LoopInput)

/-! ## §1  The call in force is the one of the level -/

theorem callsAt_length_le (lang : Localization) (n : ℕ) :
    (callsAt lang c env n).length ≤ 1 := by
  rw [callsAt_eq]
  split
  · exact Nat.le_refl 1
  · exact Nat.zero_le 1

/-- **No lost and no stale level.** After every iteration some call is in force,
and it is the one that the original table gives for the level name now in
`buffer`, whatever was read before and however far the table has grown. Only
the nickname is that of the iteration `j` that made the call. -/
theorem call_in_force (n : ℕ) :
    (callsAt .EEng c env n).length ≤ 1 ∧
    ∃ j call, Latest (callsAt .EEng c env) n j call ∧
      let s := stateAt .EEng c env (n + 1)
      let nickname := (stateAt .EEng c env (j + 1)).nickname_buffer.str
      (∀ e, levelLocalization.lookup s.name = some e →
        e.m_mapType ≠ .EHangar →
        call =
          { state := lit "Map: " ++ e.m_eng
            details := lit "Playing"
            mapName := s.name
            startTimeStamp := s.timestamp
            maptype := e.m_mapType }) ∧
      (∀ e, levelLocalization.lookup s.name = some e →
        e.m_mapType = .EHangar →
        call =
          { state := nickname ++ lit " is sitting in hangar"
            details := lit "Running game version " ++ supportedGameVersion
            mapName := lit "small_logo_black"
            startTimeStamp := s.timestamp
            maptype := .EHangar }) ∧
      (levelLocalization.lookup s.name = none →
        call =
          { state := nickname ++ lit " is sitting in hangar"
            details := lit "Running game version " ++ supportedGameVersion
            mapName := lit "small_logo_black"
            startTimeStamp := s.timestamp
            maptype := .EHangar }) := by
  refine ⟨callsAt_length_le c env .EEng n, _, _, latest_call .EEng c env n, ?_⟩
  dsimp only
  rw [callAt_spanStart, name_eq, timestamp_eq, nickname_str]
  refine ⟨?_, ?_, ?_⟩
  · intro e he htype
    rw [referenceCall_of_mapKey ⟨e, he, htype⟩, StdMap.valueAt_of_lookup he]
    rfl
  · intro e he htype
    have hangar : HangarKey (nameAt c env n) := ⟨e, he, htype⟩
    rw [referenceCall_of_not_mapKey hangar.not_mapKey]
    rfl
  · intro hnone
    have hnot : ¬ MapKey (nameAt c env n) := by
      rintro ⟨e, he, -⟩
      rw [hnone] at he
      exact absurd he (by simp)
    rw [referenceCall_of_not_mapKey hnot]
    rfl

/-! ## §2  Failed reads -/

/-- The state text is made of a nickname. -/
def CarriesNickname (call : UpdateCall) : Prop :=
  lit " is sitting in hangar" <:+ call.state

theorem levelEntries_state : ∀ p ∈ levelEntries,
    ¬ lit " is sitting in hangar" <:+ lit "Map: " ++ p.2.m_eng := by
  decide +kernel

theorem carriesNickname_referenceCall_iff {level nickname : List UInt8}
    {timestamp : Int64} :
    CarriesNickname (referenceCall .EEng level nickname timestamp) ↔
      ¬ MapKey level := by
  constructor
  · rintro hsuffix hmap
    rw [referenceCall_of_mapKey hmap] at hsuffix
    obtain ⟨e, he, -⟩ := hmap
    rw [StdMap.valueAt_of_lookup he] at hsuffix
    exact levelEntries_state _ (StdMap.mem_of_lookup_ofList he) hsuffix
  · intro h
    rw [referenceCall_of_not_mapKey h]
    exact List.suffix_append _ _

/-- A failed map read makes no call and keeps the remembered level and the
timestamp, and no call carries a nickname before the first successful read of
one. -/
def FailedReadsContained (N : ℕ) : Prop :=
  ∀ n < N,
    let s := stateAt .EEng c env n
    let s' := stateAt .EEng c env (n + 1)
    ((c.GameMemory.getCurrentMap (env n).readProcessMemory s.buffer).1 = false →
      callsAt .EEng c env n = [] ∧ s'.buffer_for_old = s.buffer_for_old ∧
        s'.timestamp = s.timestamp) ∧
    ∀ call ∈ callsAt .EEng c env n, CarriesNickname call →
      ∃ m ≤ n,
        (c.GameMemory.getPlayerNickname (env m).readProcessMemory
          (stateAt .EEng c env m).nickname_buffer).1 = true

/-- An iteration that reads the string of the one before leaves everything the
presence depends on alone. -/
theorem quiet_of_not_starts {n : ℕ} (h : ¬ Starts (levelAt c env) n) :
    callsAt .EEng c env n = [] ∧
      (stateAt .EEng c env (n + 1)).buffer_for_old =
        (stateAt .EEng c env n).buffer_for_old ∧
      (stateAt .EEng c env (n + 1)).timestamp =
        (stateAt .EEng c env n).timestamp := by
  have hspec := step_spec .EEng c env n
  have hdue : ¬ Due c (env n) (stateAt .EEng c env n) := by
    rw [due_iff]
    exact h
  have hsame : (readBoth c (env n) (stateAt .EEng c env n)).buffer.str =
      (stateAt .EEng c env n).buffer_for_old.str :=
    not_not.mp fun hne => hdue (Or.inr hne)
  refine ⟨hspec.calls_not_due hdue, hspec.old_kept hsame, ?_⟩
  rw [hspec.timestamp]
  exact if_pos hsame

/-- **Failed reads are contained exactly** when each failed map read leaves the
string in `buffer` as the last iteration left it (so it is not the first read),
and a span of a level that is no map begins only with a nickname read. -/
theorem failedReadsContained_iff (N : ℕ) :
    FailedReadsContained c env N ↔
      ∀ n < N,
        (mapRead c env n = false → ¬ Starts (levelAt c env) n) ∧
        (Starts (levelAt c env) n → MapKey (nameAt c env n) ∨
          ∃ m ≤ n, nicknameRead c env m = true) := by
  constructor
  · intro h n hn
    obtain ⟨hmap, hnick⟩ := h n hn
    constructor
    · intro hfail
      obtain ⟨hcalls, -, -⟩ := hmap hfail
      exact (callsAt_eq_nil_iff .EEng c env).mp hcalls
    · intro hstarts
      by_cases hkey : MapKey (nameAt c env n)
      · exact Or.inl hkey
      · have hcall : callAt .EEng c env n ∈ callsAt .EEng c env n :=
          (mem_callsAt_iff .EEng c env).mpr ⟨hstarts, rfl⟩
        exact Or.inr (hnick _ hcall (carriesNickname_referenceCall_iff.mpr hkey))
  · intro h n hn
    obtain ⟨hmap, hnick⟩ := h n hn
    constructor
    · intro hfail
      exact quiet_of_not_starts c env (hmap hfail)
    · intro call hcall hcarries
      obtain ⟨hstarts, rfl⟩ := (mem_callsAt_iff .EEng c env).mp hcall
      have hkey := carriesNickname_referenceCall_iff.mp hcarries
      exact (hnick hstarts).resolve_left hkey

/-- Nothing can be read in the first iteration, and the placeholder nickname is
shown. -/
theorem failedReadsContained_not :
    let env := fun _ => LoopInput.ofResults attached failing failing 110
    ¬ FailedReadsContained attached env 1 ∧
      callsAt .EEng attached env 0 =
        [{ state := lit "NicknamePlaceholder is sitting in hangar"
           details := lit "Running game version 0.35.7919/49159dd42a1"
           mapName := lit "small_logo_black"
           startTimeStamp := 100 }] := by
  intro env
  have hcalls : callsAt .EEng attached env 0 =
      [callAt .EEng attached env 0] := by
    rw [callsAt_eq]
    exact if_pos trivial
  have hcall : callAt .EEng attached env 0 =
      { state := lit "NicknamePlaceholder is sitting in hangar"
        details := lit "Running game version 0.35.7919/49159dd42a1"
        mapName := lit "small_logo_black"
        startTimeStamp := 100 } := by decide +kernel
  constructor
  · intro h
    obtain ⟨hmap, -⟩ := h 0 (by decide)
    obtain ⟨hnil, -, -⟩ := hmap (by decide +kernel)
    rw [hcalls] at hnil
    exact absurd hnil (List.cons_ne_nil _ _)
  · rw [hcalls, hcall]

/-! ## §3  Refreshes and the elapsed-time clock -/

/-- Equal level names in consecutive iterations keep the timestamp, and with
equal nicknames make no call; every timestamp sent is the clock value at which
the span of the name began, or the start-up value in the span the run begins
in. -/
def RefreshedByMapChange (N : ℕ) : Prop :=
  (∀ n, n + 1 < N →
    let s := stateAt .EEng c env (n + 1)
    let s' := stateAt .EEng c env (n + 2)
    s'.name = s.name →
      s'.timestamp = s.timestamp ∧
      (s'.nickname_buffer.str = s.nickname_buffer.str →
        callsAt .EEng c env (n + 1) = [])) ∧
  ∀ n < N, ∀ call ∈ callsAt .EEng c env n,
    let first := spanStart (fun k => (stateAt .EEng c env (k + 1)).name) n
    call.startTimeStamp = (env first).time ∨
      (first = 0 ∧ call.startTimeStamp = c.timestamp)

theorem timestampAt_succ (n : ℕ) :
    timestampAt c env (n + 1) =
      if levelAt c env n = prepend (lit "Nothing") (levelAt c env) n then
        timestampAt c env n
      else clockAt env n :=
  stampAt_succ _ _ _ _ n

/-- Where the timestamp lasts as long as the name, it is the clock value of the
first iteration of the name's span. -/
theorem timestampAt_of_kept {n : ℕ}
    (h : ∀ m < n, nameAt c env (m + 1) = nameAt c env m →
      timestampAt c env (m + 2) = timestampAt c env (m + 1)) :
    let first := spanStart (nameAt c env) n
    timestampAt c env (n + 1) = clockAt env first ∨
      (first = 0 ∧ timestampAt c env (n + 1) = c.timestamp) := by
  intro first
  have hkept : timestampAt c env (n + 1) = timestampAt c env (first + 1) :=
    kept_spanStart (v := fun m => timestampAt c env (m + 1)) h
  have hstarts : Starts (nameAt c env) first := starts_spanStart _ n
  rw [hkept, timestampAt_succ]
  cases hfirst : first with
  | zero =>
      split
      · exact Or.inr ⟨rfl, rfl⟩
      · exact Or.inl rfl
  | succ k =>
      rw [hfirst] at hstarts
      -- a new name is a new string
      have hne : levelAt c env (k + 1) ≠ levelAt c env k := fun he =>
        hstarts (congrArg (cutAt slash) he)
      exact Or.inl (if_neg hne)

/-- One pair of iterations with equal names. -/
theorem refresh_pair_iff (n : ℕ) :
    (timestampAt c env (n + 2) = timestampAt c env (n + 1) ∧
      (nicknameAt c env (n + 1) = nicknameAt c env n →
        callsAt .EEng c env (n + 1) = [])) ↔
      levelAt c env (n + 1) = levelAt c env n ∨
        (clockAt env (n + 1) = timestampAt c env (n + 1) ∧
          nicknameAt c env (n + 1) ≠ nicknameAt c env n) := by
  have hcalls : callsAt .EEng c env (n + 1) = [] ↔
      ¬ levelAt c env (n + 1) ≠ levelAt c env n := callsAt_eq_nil_iff .EEng c env
  have htime : timestampAt c env (n + 2) =
      if levelAt c env (n + 1) = levelAt c env n then timestampAt c env (n + 1)
      else clockAt env (n + 1) := timestampAt_succ c env (n + 1)
  rw [hcalls, htime]
  by_cases hlevel : levelAt c env (n + 1) = levelAt c env n
  · rw [if_pos hlevel]
    exact ⟨fun _ => Or.inl hlevel, fun _ => ⟨rfl, fun _ hne => hne hlevel⟩⟩
  · rw [if_neg hlevel]
    constructor
    · rintro ⟨hclock, hnick⟩
      exact Or.inr ⟨hclock, fun he => hnick he hlevel⟩
    · rintro (he | ⟨hclock, hnick⟩)
      · exact absurd he hlevel
      · exact ⟨hclock, fun he => absurd he hnick⟩

/-- **Refreshes follow the map exactly** when no two consecutive reads show one
name in different strings: what stands behind the slash must not change. Such a
pair goes unnoticed only if the clock still shows the timestamp and the nickname
changes as well. -/
theorem refreshedByMapChange_iff (N : ℕ) :
    RefreshedByMapChange c env N ↔
      ∀ n, n + 1 < N → nameAt c env (n + 1) = nameAt c env n →
        levelAt c env (n + 1) = levelAt c env n ∨
          (clockAt env (n + 1) = timestampAt c env (n + 1) ∧
            nicknameAt c env (n + 1) ≠ nicknameAt c env n) := by
  unfold RefreshedByMapChange
  simp only [name_eq, timestamp_eq, nickname_str]
  constructor
  · rintro ⟨hpairs, -⟩ n hn hsame
    exact (refresh_pair_iff c env n).mp (hpairs n hn hsame)
  · intro h
    have hpairs := fun n hn hsame =>
      (refresh_pair_iff c env n).mpr (h n hn hsame)
    refine ⟨hpairs, ?_⟩
    intro n hn call hcall
    obtain ⟨-, rfl⟩ := (mem_callsAt_iff .EEng c env).mp hcall
    rw [callAt, referenceCall_startTimeStamp]
    -- the pairs before iteration `n` carry the timestamp through the span
    refine timestampAt_of_kept c env ?_
    intro m hm hsame
    exact (hpairs m (by omega) hsame).1

/-- The game changes what stands behind the slash, all reads succeeding. -/
theorem refreshedByMapChange_not :
    let env := fun k => LoopInput.ofResults attached
      (holding (if k = 0 then lit "glo08_china/a" else lit "glo08_china/b"))
      (holding (lit "Ann")) (if k = 0 then 110 else 120)
    (∀ n < 2, mapRead attached env n = true ∧
      nicknameRead attached env n = true) ∧
    ¬ RefreshedByMapChange attached env 2 := by
  intro env
  refine ⟨by decide +kernel, ?_⟩
  rintro ⟨hpairs, -⟩
  have hpair := hpairs 0 (by decide)
  simp only [name_eq, timestamp_eq] at hpair
  obtain ⟨htime, -⟩ := hpair (by decide +kernel)
  exact absurd htime (by decide +kernel)

/-! ## §4  The hangar status -/

/-- The hangar call is made for hangars of the table only. -/
def HangarOnlyInHangar (N : ℕ) : Prop :=
  ∀ n < N, ∀ call ∈ callsAt .EEng c env n, IsHangarCall call →
    HangarKey (stateAt .EEng c env (n + 1)).name

/-- **The hangar status is right exactly** when every iteration that sees a new
string sees a name that the table knows: the default entry is a hangar. -/
theorem hangarOnlyInHangar_iff (N : ℕ) :
    HangarOnlyInHangar c env N ↔
      ∀ n < N, Starts (levelAt c env) n → Known (nameAt c env n) := by
  unfold HangarOnlyInHangar
  simp only [name_eq, known_iff]
  constructor
  · intro h n hn hstarts
    by_cases hmap : MapKey (nameAt c env n)
    · exact Or.inl hmap
    · have hcall : callAt .EEng c env n ∈ callsAt .EEng c env n :=
        (mem_callsAt_iff .EEng c env).mpr ⟨hstarts, rfl⟩
      exact Or.inr (h n hn _ hcall (isHangarCall_referenceCall_iff.mpr hmap))
  · intro h n hn call hcall hangar
    obtain ⟨hstarts, rfl⟩ := (mem_callsAt_iff .EEng c env).mp hcall
    have hmap := isHangarCall_referenceCall_iff.mp hangar
    exact (h n hn hstarts).resolve_left hmap

/-- A PvE map, which the table does not list, is shown as the hangar. -/
theorem hangarOnlyInHangar_not :
    let env := fun _ => LoopInput.ofResults attached
      (holding (lit "pve_kaliningrad/x")) (holding (lit "Ann")) 110
    ¬ HangarOnlyInHangar attached env 1 ∧
      callsAt .EEng attached env 0 =
        [{ state := lit "Ann is sitting in hangar"
           details := lit "Running game version 0.35.7919/49159dd42a1"
           mapName := lit "small_logo_black"
           startTimeStamp := 110 }] := by
  intro env
  have hcalls : callsAt .EEng attached env 0 =
      [callAt .EEng attached env 0] := by
    rw [callsAt_eq]
    exact if_pos trivial
  have hcall : callAt .EEng attached env 0 =
      { state := lit "Ann is sitting in hangar"
        details := lit "Running game version 0.35.7919/49159dd42a1"
        mapName := lit "small_logo_black"
        startTimeStamp := 110 } := by decide +kernel
  rw [hcalls, hcall]
  refine ⟨?_, rfl⟩
  intro h
  have hangar := h 0 (by decide) (callAt .EEng attached env 0)
    (by rw [hcalls]; exact List.mem_singleton_self _)
    (isHangarCall_referenceCall_iff.mpr (by decide +kernel))
  rw [name_eq] at hangar
  have hknown := (known_iff _).mpr (Or.inr hangar)
  exact absurd hknown (by decide +kernel)

/-! ## §5  The nickname -/

/-- In a hangar of the table, after both reads succeeded, the call in force
shows the nickname now in `nickname_buffer`. -/
def NicknameFresh (N : ℕ) : Prop :=
  ∀ n < N, mapRead c env n = true → nicknameRead c env n = true →
    let s := stateAt .EEng c env (n + 1)
    HangarKey s.name →
      ∃ j call, Latest (callsAt .EEng c env) n j call ∧
        call.state = s.nickname_buffer.str ++ lit " is sitting in hangar"

theorem hangar_call_state {n : ℕ} (h : HangarKey (nameAt c env n)) :
    (callAt .EEng c env (spanStart (levelAt c env) n)).state =
      nicknameAt c env (spanStart (levelAt c env) n) ++
        lit " is sitting in hangar" := by
  rw [callAt_spanStart, referenceCall_of_not_mapKey h.not_mapKey]
  rfl

/-- **The nickname shown is the current one exactly** when it is the one read
in the first iteration of the current span of equal level strings: a nickname
that changes later is not shown before the level string changes. -/
theorem nicknameFresh_iff (N : ℕ) :
    NicknameFresh c env N ↔
      ∀ n < N, mapRead c env n = true → nicknameRead c env n = true →
        HangarKey (nameAt c env n) →
          nicknameAt c env n = nicknameAt c env (spanStart (levelAt c env) n) := by
  unfold NicknameFresh
  simp only [name_eq, nickname_str]
  constructor
  · intro h n hn hmap hnick hangar
    obtain ⟨j, call, hlatest, hstate⟩ := h n hn hmap hnick hangar
    -- there is one latest call, that of the first iteration of the span
    obtain ⟨-, rfl⟩ := hlatest.unique (latest_call .EEng c env n)
    rw [hangar_call_state c env hangar] at hstate
    exact (List.append_cancel_right hstate).symm
  · intro h n hn hmap hnick hangar
    refine ⟨_, _, latest_call .EEng c env n, ?_⟩
    rw [hangar_call_state c env hangar, h n hn hmap hnick hangar]

/-- The first hangar presence is sent before the nickname can be read. -/
theorem nicknameFresh_not :
    let env := fun k => LoopInput.ofResults attached (holding (lit "gar_base"))
      (if k = 0 then failing else holding (lit "Ann")) 110
    ¬ NicknameFresh attached env 2 ∧
      (callAt .EEng attached env 0).state =
        lit "NicknamePlaceholder is sitting in hangar" := by
  intro env
  refine ⟨?_, by decide +kernel⟩
  intro h
  have hangar : HangarKey (nameAt attached env 1) :=
    ⟨mapLocalization "Hangar" "Ангар" .EHangar, by decide +kernel, rfl⟩
  obtain ⟨j, call, hlatest, hstate⟩ := h 1 (by decide) (by decide +kernel)
    (by decide +kernel) (by rw [name_eq]; exact hangar)
  obtain ⟨-, rfl⟩ := hlatest.unique (latest_call .EEng attached env 1)
  rw [nickname_str] at hstate
  exact absurd hstate (by decide +kernel)

end AWRPC
