import AWRPC.Simulation
import AWRPC.Lib.Utf8

/-!
# Names and texts decoded from game memory

Both readers take 20 bytes. What a level name and a nickname of any length come
to on the way from game memory to the presence: the name through the two cuts
and the table lookup, the nickname into a text that the JSON writer takes for
UTF-8.
-/

namespace AWRPC

open Bytes CharArray CGameMemory Discord ChangeDetector
open Utf8 (Valid valid_lit)

/-! ## §1  The strings after a successful read -/

variable (c : Setup) (env : ℕ → LoopInput)

theorem mapBuffer_zeroFrom (n : ℕ) : (mapBuffer c env n).ZeroFrom 20 := by
  rw [← (buffers_eq .EEng c env n).1]
  exact (stateAt_inBounds .EEng c env n).buffer

theorem nicknameBuffer_zeroFrom (n : ℕ) :
    (nicknameBuffer c env n).ZeroFrom 20 := by
  rw [← (buffers_eq .EEng c env n).2]
  exact (stateAt_inBounds .EEng c env n).nickname

variable {c env}

/-- Nothing that `buffer` held before a successful read is in its string. -/
theorem levelAt_of_mapRead {n : ℕ} (h : mapRead c env n = true) :
    levelAt c env n = cString (mapResult c env n).written :=
  overwrite_str (mapBuffer_zeroFrom c env n) (by decide)
    (ReadResult.length_of_succeeded h)

theorem nicknameAt_of_nicknameRead {n : ℕ} (h : nicknameRead c env n = true) :
    nicknameAt c env n = cString (nicknameResult c env n).written :=
  overwrite_str (nicknameBuffer_zeroFrom c env n) (by decide)
    (ReadResult.length_of_succeeded h)

theorem levelAt_of_read {n : ℕ} {mem : ℕ → UInt8}
    (h : mapResult c env n = .ofMemory mem 20) :
    levelAt c env n = cString (window mem 20) := by
  have hread : mapRead c env n = true := by
    rw [mapRead, h]
    rfl
  rw [levelAt_of_mapRead hread, h]
  rfl

theorem nicknameAt_of_read {n : ℕ} {mem : ℕ → UInt8}
    (h : nicknameResult c env n = .ofMemory mem 20) :
    nicknameAt c env n = cString (window mem 20) := by
  have hread : nicknameRead c env n = true := by
    rw [nicknameRead, h]
    rfl
  rw [nicknameAt_of_nicknameRead hread, h]
  rfl

/-! ## §2  Level names -/

/-- Memory that starts with a name, ended by NUL or a slash. -/
structure HoldsName (mem : ℕ → UInt8) (k : List UInt8) : Prop where
  bytes : window mem k.length = k
  ended : mem k.length = 0 ∨ mem k.length = slash

/-- The call the program computes from an entry under a name, with the nickname
and the timestamp of the state. -/
def entryCall (lang : Localization) (k : List UInt8) (e : MapLocalization)
    (s : LoopState) : Option UpdateCall :=
  if e.m_mapType = .EHangar then hangarCall lang s
  else some (mapCall lang e k s.timestamp)

/-- Iteration `n` sees the name `k`, looks the entry `e` up under it and inserts
nothing. If its update is due, it ends with `k` for its level and makes the call
computed from `e`. -/
structure Recognised (lang : Localization) (c : Setup) (env : ℕ → LoopInput)
    (n : ℕ) (k : List UInt8) (e : MapLocalization) : Prop where
  name : (stateAt lang c env (n + 1)).name = k
  entry : ((stateAt lang c env n).levelLocalization.subscript
    (stateAt lang c env (n + 1)).name).1 = e
  table : (stateAt lang c env (n + 1)).levelLocalization =
    (stateAt lang c env n).levelLocalization
  level : Due c (env n) (stateAt lang c env n) →
    (stateAt lang c env (n + 1)).level = k
  calls : Due c (env n) (stateAt lang c env n) →
    ∃ call, entryCall lang k e (stateAt lang c env (n + 1)) = some call ∧
      callsAt lang c env n = [call]

variable {lang : Localization} {n : ℕ} {k : List UInt8} {e : MapLocalization}

theorem nameAt_eq_key_iff (hk : levelLocalization.lookup k = some e)
    {mem : ℕ → UInt8} (hmem : HoldsName mem k)
    (hread : mapResult c env n = .ofMemory mem 20) :
    nameAt c env n = k ↔ k.length ≤ 20 := by
  obtain ⟨hnul, hslash, -, -⟩ := key_of_lookup hk
  rw [nameAt, levelAt_of_read hread]
  exact cut_window_eq_iff hmem.bytes hnul hslash hmem.ended 20

/-- The table of every state answers an original key with its own entry. -/
theorem lookup_stateAt (hk : levelLocalization.lookup k = some e) (n : ℕ) :
    (stateAt lang c env n).levelLocalization.lookup k = some e :=
  (stateAt_inBounds lang c env n).table.retains k e hk

/-- A due update leaves the name it cut out in `level`. -/
theorem level_of_due (hdue : Due c (env n) (stateAt lang c env n)) :
    (stateAt lang c env (n + 1)).level = nameAt c env n := by
  have hspec := step_spec lang c env n
  have hlevel := hspec.level_due hdue
  rw [← hspec.buffer, buffer_str] at hlevel
  exact hlevel

theorem entryCall_eq (lang : Localization) (k : List UInt8)
    (e : MapLocalization) {s : LoopState} (h : InBounds s) :
    entryCall lang k e s = some
      (if e.m_mapType = .EHangar then
        hangarPresence lang s.nickname_buffer.str s.timestamp
      else mapCall lang e k s.timestamp) := by
  rw [entryCall, hangarCall_spec lang h.nickname_nul]
  split
  · rfl
  · rfl

/-- A due update under an original key makes the call computed from its
entry. -/
theorem calls_of_due (hk : levelLocalization.lookup k = some e)
    (hname : nameAt c env n = k)
    (hdue : Due c (env n) (stateAt lang c env n)) :
    ∃ call, entryCall lang k e (stateAt lang c env (n + 1)) = some call ∧
      callsAt lang c env n = [call] := by
  have hspec := step_spec lang c env n
  refine ⟨_, entryCall_eq lang k e hspec.inBounds, ?_⟩
  have hcalls := hspec.calls_due hdue
  rw [dueCall, ← hspec.buffer, ← hspec.nickname, ← hspec.timestamp, buffer_str,
    ← nameAt, hname, referenceCall, StdMap.valueAt_of_lookup hk] at hcalls
  exact hcalls

/-- What an iteration that sees an original key does to the table: only the
console output of a `_DEBUG` build, which looks the uncut string up, can insert
anything. -/
theorem table_kept_iff (hk : levelLocalization.lookup k = some e)
    (hname : nameAt c env n = k) :
    (stateAt lang c env (n + 1)).levelLocalization =
        (stateAt lang c env n).levelLocalization ↔
      (c.debug = true → Starts (levelAt c env) n ∨
        levelAt c env n ∈ (stateAt lang c env n).levelLocalization) := by
  have hspec := step_spec lang c env n
  have hbuffer := hspec.buffer
  by_cases hstarts : Starts (levelAt c env) n
  · -- the update looks the name up, and the console output the same name
    have hdue := (due_iff lang c env n).mpr hstarts
    have htable := hspec.table_due hdue
    rw [← hbuffer, buffer_str] at htable
    have hkept : (stateAt lang c env (n + 1)).levelLocalization =
        (stateAt lang c env n).levelLocalization := by
      rw [htable, ← nameAt, hname, StdMap.subscript_of_lookup (lookup_stateAt hk n)]
    exact ⟨fun _ _ => Or.inl hstarts, fun _ => hkept⟩
  · -- without an update only the console output looks anything up
    have hdue := mt (due_iff lang c env n).mp hstarts
    have htable := hspec.table_not_due hdue
    rw [← hbuffer, buffer_str] at htable
    rw [htable]
    cases c.debug with
    | false => exact ⟨fun _ h => absurd h (by decide), fun _ => rfl⟩
    | true =>
        rw [if_pos rfl, StdMap.subscript_snd_eq_iff]
        constructor
        · intro hmem _
          exact Or.inr hmem
        · intro h
          exact (h rfl).resolve_left hstarts

/-- **A key of the table is recognised from memory exactly when it has at most
20 bytes**, the length of the read: its entry is looked up and the call of a due
update is computed from it. That nothing at all is inserted needs, in a `_DEBUG`
build, that the iteration sends an update or has the uncut string in the table
already. -/
theorem recognised_iff (hk : levelLocalization.lookup k = some e)
    {mem : ℕ → UInt8} (hmem : HoldsName mem k)
    (hread : mapResult c env n = .ofMemory mem 20) :
    Recognised lang c env n k e ↔
      k.length ≤ 20 ∧
      (c.debug = true → Starts (levelAt c env) n ∨
        levelAt c env n ∈ (stateAt lang c env n).levelLocalization) := by
  have hname := nameAt_eq_key_iff hk hmem hread
  constructor
  · intro h
    have hn := h.name
    rw [name_eq] at hn
    exact ⟨hname.mp hn, (table_kept_iff hk hn).mp h.table⟩
  · rintro ⟨hlen, hdebug⟩
    have hn := hname.mpr hlen
    exact
      { name := by rw [name_eq, hn]
        entry := by
          rw [name_eq, hn, StdMap.subscript_of_lookup (lookup_stateAt hk n)]
        table := (table_kept_iff hk hn).mpr hdebug
        level := fun hdue => by rw [level_of_due hdue, hn]
        calls := calls_of_due hk hn }

/-- A name of exactly 20 bytes with a path behind the slash. -/
theorem recognised_desertcrossing :
    Recognised .EEng attached
      (fun _ => .ofResults attached (holding (lit "pvp13_desertcrossing/level"))
        (holding (lit "Ann")) 110)
      0 (lit "pvp13_desertcrossing")
      (mapLocalization "Desert Crossing" "Суэцкий канал" .EGlops) :=
  (recognised_iff (by decide +kernel)
    ⟨by decide +kernel, Or.inr (by decide +kernel)⟩
    (mapResult_ofResults attached (fun _ => holding _) _ _ 0)).mpr
    ⟨by decide +kernel, by decide⟩

/-- The spring festival hangar has 25 bytes; 20 of them are the level, and an
entry is inserted for these. -/
theorem recognised_not_springFestival :
    let k := lit "gar_china_spring_festival"
    let e := mapLocalization "Hangar" "Ангар" .EHangar
    let env := fun _ => LoopInput.ofResults attached (holding k)
      (holding (lit "Ann")) 110
    levelLocalization.lookup k = some e ∧
      HoldsName (fun i => k.getD i 0) k ∧
      mapResult attached env 0 = .ofMemory (fun i => k.getD i 0) 20 ∧
      mapRead attached env 0 = true ∧
      (stateAt .EEng attached env 1).level = lit "gar_china_spring_fes" ∧
      ¬ Recognised .EEng attached env 0 k e := by
  intro k e env
  have hread : mapResult attached env 0 = holding k 20 :=
    mapResult_ofResults attached (fun _ => holding k) _ _ 0
  have hdue : Due attached (env 0) (stateAt .EEng attached env 0) :=
    Or.inl rfl
  have hlevel : (stateAt .EEng attached env 1).level =
      lit "gar_china_spring_fes" := by
    rw [level_of_due hdue]
    decide +kernel
  refine ⟨by decide +kernel, ⟨by decide +kernel, Or.inl (by decide +kernel)⟩,
    hread, by rw [mapRead, hread]; rfl, hlevel, ?_⟩
  intro h
  have hk := h.level hdue
  rw [hlevel] at hk
  exact absurd hk (by decide +kernel)

/-! ## §3  Texts handed to Discord -/

/-- The texts that `Update` sets are valid UTF-8. -/
structure ValidTexts (p : DiscordRichPresence) : Prop where
  state : ∀ t ∈ p.state, Valid t
  details : ∀ t ∈ p.details, Valid t
  largeImageKey : ∀ t ∈ p.largeImageKey, Valid t
  largeImageText : ∀ t ∈ p.largeImageText, Valid t
  smallImageKey : ∀ t ∈ p.smallImageKey, Valid t

theorem validTexts_update_iff (call : UpdateCall) :
    ValidTexts (update call) ↔
      Valid call.state ∧ Valid call.details ∧ Valid call.mapName := by
  constructor
  · intro h
    exact ⟨h.state _ rfl, h.details _ rfl, h.largeImageKey _ rfl⟩
  · rintro ⟨hstate, hdetails, himage⟩
    have hcover : Valid (gameModeEnumToCharCoverName call.maptype) := by
      cases call.maptype <;> exact valid_lit _
    constructor
    · rintro _ ⟨⟩
      exact hstate
    · rintro _ ⟨⟩
      exact hdetails
    · rintro _ ⟨⟩
      exact himage
    · rintro _ ⟨⟩
      exact valid_lit _
    · rintro _ ⟨⟩
      exact hcover

theorem levelEntries_valid : ∀ p ∈ levelEntries,
    Valid p.1 ∧ Valid (lit "Map: " ++ p.2.m_eng) := by decide +kernel

/-- The English calls: a map call is valid, a hangar call as far as the
nickname is. -/
theorem validTexts_english_iff {level nickname : List UInt8}
    {timestamp : Int64} :
    ValidTexts (update (referenceCall .EEng level nickname timestamp)) ↔
      MapKey level ∨ Valid nickname := by
  rw [validTexts_update_iff]
  by_cases hmap : MapKey level
  · refine ⟨fun _ => Or.inl hmap, fun _ => ?_⟩
    rw [referenceCall_of_mapKey hmap]
    obtain ⟨e, he, -⟩ := hmap
    rw [StdMap.valueAt_of_lookup he]
    obtain ⟨hlevel, hstate⟩ :=
      levelEntries_valid _ (StdMap.mem_of_lookup_ofList he)
    exact ⟨hstate, valid_lit _, hlevel⟩
  · have hstate : Valid (nickname ++ lit " is sitting in hangar") ↔
        Valid nickname :=
      Utf8.valid_append_iff (valid_lit _) (by decide)
    rw [referenceCall_of_not_mapKey hmap]
    constructor
    · rintro ⟨h, -, -⟩
      exact Or.inr (hstate.mp h)
    · intro h
      have hnick := h.resolve_left hmap
      refine ⟨hstate.mpr hnick, ?_, valid_lit _⟩
      exact (valid_lit _).append (valid_lit _)

/-- No Russian call is valid: the literals are Windows-1251. -/
theorem not_validTexts_russian (level nickname : List UInt8)
    (timestamp : Int64) :
    ¬ ValidTexts (update (referenceCall .ERu level nickname timestamp)) := by
  rw [validTexts_update_iff]
  rintro ⟨hstate, -, -⟩
  by_cases hmap : MapKey level
  · rw [referenceCall_of_mapKey hmap] at hstate
    -- two lead bytes in a row
    have hlit : cp1251 "Карта: " = 0xCA :: 0xE0 :: cp1251 "рта: " := by
      decide +kernel
    have hbytes : Valid (0xCA :: 0xE0 ::
        (cp1251 "рта: " ++ (levelLocalization.valueAt level).m_rus)) := by
      have h : Valid (cp1251 "Карта: " ++
        (levelLocalization.valueAt level).m_rus) := hstate
      rwa [hlit] at h
    exact Utf8.not_valid_cons_cons (by decide +kernel) (by decide +kernel) hbytes
  · rw [referenceCall_of_not_mapKey hmap] at hstate
    -- a lead byte in front of a space
    have hlit : cp1251 "В ангаре" = 0xC2 :: 0x20 :: cp1251 "ангаре" := by
      decide +kernel
    have hbytes : Valid (0xC2 :: 0x20 :: cp1251 "ангаре") := by
      have h : Valid (cp1251 "В ангаре") := hstate
      rwa [hlit] at h
    exact Utf8.not_valid_cons_cons (by decide +kernel) (by decide +kernel) hbytes

/-- The game stores the nickname `u` as a NUL-terminated UTF-8 string. -/
structure StoresNickname (mem : ℕ → UInt8) (u : List UInt8) : Prop where
  valid : Valid u
  noNul : (0 : UInt8) ∉ u
  bytes : window mem u.length = u
  terminated : mem u.length = 0

/-- The nickname shown in iteration `n` was read: by a successful read of the
stored nickname `u`, in this iteration or in an earlier one after which the
reads of the nickname stored nothing. -/
def StoredNicknameRead (c : Setup) (env : ℕ → LoopInput) (n : ℕ) (u : List UInt8) :
    Prop :=
  ∃ m ≤ n, (∃ mem, StoresNickname mem u ∧
      nicknameResult c env m = .ofMemory mem 20) ∧
    ∀ k, m < k → k ≤ n → (nicknameResult c env k).written = []

theorem nicknameAt_of_nothingStored {m : ℕ} (hmn : m ≤ n)
    (h : ∀ k, m < k → k ≤ n → (nicknameResult c env k).written = []) :
    nicknameAt c env n = nicknameAt c env m := by
  induction n, hmn using Nat.le_induction with
  | base => rfl
  | succ n hmn ih =>
      have hbuffer : nicknameBuffer c env (n + 2) =
          nicknameBuffer c env (n + 1) := by
        rw [nicknameBuffer, readInto]
        exact overwrite_nil _ (h (n + 1) (by omega) le_rfl)
          (Nat.le_trans (ReadResult.written_le _) (by decide))
      rw [nicknameAt, hbuffer]
      exact ih fun k hk hkn => h k hk (by omega)

/-- The nickname shown is the stored one cut to 20 bytes, which is a text when
the 21st byte, if there is one, starts a character. -/
theorem valid_nicknameAt_iff {u : List UInt8} (h : StoredNicknameRead c env n u) :
    Valid (nicknameAt c env n) ↔ ∀ b ∈ u[20]?, b.IsUTF8FirstByte := by
  obtain ⟨m, hmn, ⟨mem, hmem, hread⟩, hlater⟩ := h
  rw [nicknameAt_of_nothingStored hmn hlater, nicknameAt_of_read hread,
    cString_window hmem.bytes hmem.noNul hmem.terminated]
  exact Utf8.valid_take_iff_getElem? hmem.valid 20

/-- The texts of the call of iteration `n`, from what the game stores. -/
theorem validTexts_callAt_iff (lang : Localization) {u : List UInt8}
    (h : StoredNicknameRead c env n u) :
    ValidTexts (update (callAt lang c env n)) ↔
      lang = .EEng ∧
        (MapKey (nameAt c env n) ∨ ∀ b ∈ u[20]?, b.IsUTF8FirstByte) := by
  rw [← valid_nicknameAt_iff h]
  cases lang with
  | EEng =>
      rw [callAt, validTexts_english_iff]
      exact ⟨fun h => ⟨rfl, h⟩, fun h => h.2⟩
  | ERu =>
      constructor
      · intro h
        exact absurd h (not_validTexts_russian _ _ _)
      · rintro ⟨h, -⟩
        exact absurd h (by decide)

/-- **The texts of a run are valid UTF-8 exactly** when the language is English
and no span of a level that is no map begins while the stored nickname has a
character across its 20th byte. The iterations judged may be any in which the
nickname shown was read; in the others the reads may fail. -/
theorem validTexts_run_iff (lang : Localization) (N : ℕ) (u : ℕ → List UInt8)
    (judged : ℕ → Prop)
    (hread : ∀ n < N, judged n → StoredNicknameRead c env n (u n)) :
    (∀ n < N, judged n →
      ∀ call ∈ callsAt lang c env n, ValidTexts (update call)) ↔
      ∀ n < N, judged n → Starts (levelAt c env) n → lang = .EEng ∧
        (MapKey (nameAt c env n) ∨ ∀ b ∈ (u n)[20]?, b.IsUTF8FirstByte) := by
  constructor
  · intro h n hn hjudged hstarts
    have hmem := (mem_callsAt_iff lang c env).mpr ⟨hstarts, rfl⟩
    exact (validTexts_callAt_iff lang (hread n hn hjudged)).mp
      (h n hn hjudged _ hmem)
  · intro h n hn hjudged call hmem
    obtain ⟨hstarts, rfl⟩ := (mem_callsAt_iff lang c env).mp hmem
    exact (validTexts_callAt_iff lang (hread n hn hjudged)).mpr
      (h n hn hjudged hstarts)

/-- A nickname of ten Cyrillic letters fills the 20 bytes with whole characters.
The reads of the first iteration fail and the second changes the map. -/
theorem validTexts_run_cyrillic :
    let env := fun n => LoopInput.ofResults attached
      (if n = 0 then failing else holding (lit "gar_base"))
      (if n = 0 then failing else holding (lit "Александра")) 110
    (lit "Александра").length = 20 ∧ nicknameRead attached env 0 = false ∧
      ∀ n < 2, nicknameRead attached env n = true →
        ∀ call ∈ callsAt .EEng attached env n, ValidTexts (update call) := by
  intro env
  have hlength : (lit "Александра").length = 20 := by decide +kernel
  have hwhole : ∀ b ∈ (lit "Александра")[20]?, b.IsUTF8FirstByte := by
    rw [List.getElem?_eq_none (Nat.le_of_eq hlength)]
    rintro b ⟨⟩
  refine ⟨hlength, by decide +kernel, ?_⟩
  apply (validTexts_run_iff .EEng 2 (fun _ => lit "Александра")
    (fun n => nicknameRead attached env n = true) ?_).mpr
    (fun _ _ _ _ => ⟨rfl, Or.inr hwhole⟩)
  intro n _ hn
  have hres : nicknameResult attached env n =
      (if n = 0 then failing else holding (lit "Александра")) 20 :=
    nicknameResult_ofResults attached _ (fun n => if n = 0 then failing else
      holding (lit "Александра")) _ n
  by_cases h0 : n = 0
  · rw [nicknameRead, hres, if_pos h0] at hn
    cases hn
  · rw [if_neg h0] at hres
    exact ⟨n, le_rfl, ⟨_, ⟨valid_lit _, by decide +kernel, by decide +kernel,
      by decide +kernel⟩, hres⟩, fun k hk hkn => by omega⟩

/-- With one ASCII letter in front the tenth Cyrillic letter is cut in two. -/
theorem validTexts_run_not :
    let u := lit "xАлександра"
    let env := fun _ => LoopInput.ofResults attached (holding (lit "gar_base"))
      (holding u) 110
    StoresNickname (fun i => u.getD i 0) u ∧
      nicknameResult attached env 0 = .ofMemory (fun i => u.getD i 0) 20 ∧
      mapRead attached env 0 = true ∧
      ∃ call ∈ callsAt .EEng attached env 0, ¬ ValidTexts (update call) := by
  intro u env
  have hmem : StoresNickname (fun i => u.getD i 0) u :=
    ⟨valid_lit _, by decide +kernel, by decide +kernel, by decide +kernel⟩
  have hres : nicknameResult attached env 0 = holding u 20 :=
    nicknameResult_ofResults attached _ (fun _ => holding u) _ 0
  have hmap : mapRead attached env 0 = true := by decide +kernel
  refine ⟨hmem, hres, hmap, callAt .EEng attached env 0,
    (mem_callsAt_iff .EEng attached env).mpr ⟨trivial, rfl⟩, ?_⟩
  rw [validTexts_callAt_iff .EEng
    ⟨0, le_rfl, ⟨_, hmem, hres⟩, fun k hk hk0 => by omega⟩]
  decide +kernel

end AWRPC
