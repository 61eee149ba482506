import AWRPC.Main

/-!
# The reference presence

What the loop is for: the presence that belongs to a level name, a nickname and
a start time, read off the ORIGINAL level table with no state at all. A name the
table does not know gets the default entry, whose type is `EHangar`.
-/

namespace AWRPC

open Bytes CGameMemory Discord

/-! ## §1  Level names by kind -/

/-- The name is a key of the original table. -/
def Known (level : List UInt8) : Prop :=
  ∃ e, levelLocalization.lookup level = some e

/-- The name is a key of the original table and not a hangar. -/
def MapKey (level : List UInt8) : Prop :=
  ∃ e, levelLocalization.lookup level = some e ∧ e.m_mapType ≠ .EHangar

/-- The name is a key of the original table and a hangar. -/
def HangarKey (level : List UInt8) : Prop :=
  ∃ e, levelLocalization.lookup level = some e ∧ e.m_mapType = .EHangar

theorem mapKey_iff (level : List UInt8) :
    MapKey level ↔ (levelLocalization.valueAt level).m_mapType ≠ .EHangar := by
  constructor
  · rintro ⟨e, he, htype⟩
    rw [StdMap.valueAt_of_lookup he]
    exact htype
  · intro h
    cases hk : levelLocalization.lookup level with
    | some e =>
        rw [StdMap.valueAt_of_lookup hk] at h
        exact ⟨e, hk, h⟩
    | none =>
        rw [StdMap.valueAt, hk] at h
        exact absurd rfl h

instance (level : List UInt8) : Decidable (MapKey level) :=
  decidable_of_iff _ (mapKey_iff level).symm

theorem HangarKey.not_mapKey {level : List UInt8} (h : HangarKey level) :
    ¬ MapKey level := by
  obtain ⟨e, he, htype⟩ := h
  rintro ⟨e', he', hne⟩
  rw [he] at he'
  cases he'
  exact hne htype

theorem known_iff (level : List UInt8) :
    Known level ↔ MapKey level ∨ HangarKey level := by
  constructor
  · rintro ⟨e, he⟩
    by_cases h : e.m_mapType = .EHangar
    · exact Or.inr ⟨e, he, h⟩
    · exact Or.inl ⟨e, he, h⟩
  · rintro (⟨e, he, -⟩ | ⟨e, he, -⟩)
    · exact ⟨e, he⟩
    · exact ⟨e, he⟩

instance (level : List UInt8) : Decidable (Known level) :=
  decidable_of_iff _ Option.isSome_iff_exists

/-! ## §2  The call that belongs to a name -/

/-- The hangar call for a nickname. -/
def hangarPresence (lang : Localization) (nickname : List UInt8)
    (timestamp : Int64) : UpdateCall :=
  match lang with
  | .EEng =>
      { state := nickname ++ lit " is sitting in hangar"
        details := lit "Running game version " ++ supportedGameVersion
        mapName := lit "small_logo_black"
        startTimeStamp := timestamp }
  | .ERu =>
      { state := cp1251 "В ангаре"
        details := cp1251 "Проверка API"
        mapName := lit "small_logo_black"
        startTimeStamp := timestamp }

/-- The stateless reference. -/
def referenceCall (lang : Localization) (level nickname : List UInt8)
    (timestamp : Int64) : UpdateCall :=
  let entry := levelLocalization.valueAt level
  if entry.m_mapType = .EHangar then hangarPresence lang nickname timestamp
  else mapCall lang entry level timestamp

theorem referenceCall_of_mapKey {lang : Localization} {level : List UInt8}
    (h : MapKey level) (nickname : List UInt8) (timestamp : Int64) :
    referenceCall lang level nickname timestamp =
      mapCall lang (levelLocalization.valueAt level) level timestamp :=
  if_neg ((mapKey_iff level).mp h)

theorem referenceCall_of_not_mapKey {lang : Localization}
    {level : List UInt8} (h : ¬ MapKey level) (nickname : List UInt8)
    (timestamp : Int64) :
    referenceCall lang level nickname timestamp =
      hangarPresence lang nickname timestamp :=
  if_pos (not_not.mp fun hne => h ((mapKey_iff level).mpr hne))

@[simp] theorem referenceCall_startTimeStamp (lang : Localization)
    (level nickname : List UInt8) (timestamp : Int64) :
    (referenceCall lang level nickname timestamp).startTimeStamp =
      timestamp := by
  by_cases h : MapKey level
  · rw [referenceCall_of_mapKey h]
    cases lang <;> rfl
  · rw [referenceCall_of_not_mapKey h]
    cases lang <;> rfl

/-! ## §3  Telling the two calls apart -/

/-- A hangar call, by what Discord is shown. -/
def IsHangarCall (c : UpdateCall) : Prop :=
  lit " is sitting in hangar" <:+ c.state ∧ c.mapName = lit "small_logo_black"

theorem isHangarCall_referenceCall_iff {level nickname : List UInt8}
    {timestamp : Int64} :
    IsHangarCall (referenceCall .EEng level nickname timestamp) ↔
      ¬ MapKey level := by
  constructor
  · rintro ⟨-, himage⟩ hmap
    rw [referenceCall_of_mapKey hmap] at himage
    obtain ⟨e, he, -⟩ := hmap
    exact (key_of_lookup he).2.2.2 himage
  · intro h
    rw [referenceCall_of_not_mapKey h]
    exact ⟨List.suffix_append _ _, rfl⟩

/-! ## §4  Admissibility -/

theorem levelEntries_fit : ∀ p ∈ levelEntries,
    (lit "Map: " ++ p.2.m_eng).length ≤ 128 ∧
      (cp1251 "Карта: " ++ p.2.m_rus).length ≤ 128 ∧
      (p.2.m_mapType ≠ .EHangar → p.1.length ≤ 20) := by decide +kernel

theorem literals_fit :
    (lit "Playing").length ≤ 128 ∧ (cp1251 "В бою").length ≤ 128 ∧
      (lit "Running game version " ++ supportedGameVersion).length ≤ 128 ∧
      (cp1251 "В ангаре").length ≤ 128 ∧
      (cp1251 "Проверка API").length ≤ 128 ∧
      (lit "small_logo_black").length ≤ 32 ∧
      (lit " is sitting in hangar").length = 21 := by decide +kernel

/-- A nickname of at most 20 bytes keeps every string within its limit. -/
theorem referenceCall_withinLimits (lang : Localization)
    (level : List UInt8) {nickname : List UInt8} (timestamp : Int64)
    (h : nickname.length ≤ 20) :
    (update (referenceCall lang level nickname timestamp)).WithinLimits := by
  rw [update_withinLimits_iff]
  obtain ⟨hplaying, hboyu, hversion, hangare, hapi, hlogo, hsuffix⟩ :=
    literals_fit
  by_cases hmap : MapKey level
  · rw [referenceCall_of_mapKey hmap]
    obtain ⟨e, he, htype⟩ := hmap
    rw [StdMap.valueAt_of_lookup he]
    obtain ⟨heng, hrus, hkey⟩ :=
      levelEntries_fit _ (StdMap.mem_of_lookup_ofList he)
    have hlevel : level.length ≤ 32 := Nat.le_trans (hkey htype) (by decide)
    cases lang with
    | EEng => exact ⟨heng, hplaying, hlevel⟩
    | ERu => exact ⟨hrus, hboyu, hlevel⟩
  · rw [referenceCall_of_not_mapKey hmap]
    cases lang with
    | EEng =>
        refine ⟨?_, hversion, hlogo⟩
        show (nickname ++ lit " is sitting in hangar").length ≤ 128
        rw [List.length_append, hsuffix]
        omega
    | ERu => exact ⟨hangare, hapi, hlogo⟩

/-- The image key is the logo or a map key of the table, never other bytes. -/
theorem referenceCall_mapName (lang : Localization)
    (level nickname : List UInt8) (timestamp : Int64) :
    (referenceCall lang level nickname timestamp).mapName =
        lit "small_logo_black" ∨
      MapKey (referenceCall lang level nickname timestamp).mapName := by
  by_cases hmap : MapKey level
  · rw [referenceCall_of_mapKey hmap]
    cases lang <;> exact Or.inr hmap
  · rw [referenceCall_of_not_mapKey hmap]
    cases lang <;> exact Or.inl rfl

end AWRPC
