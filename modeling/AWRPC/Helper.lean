import AWRPC.Lib.CharArray
import AWRPC.Lib.DefaultMap

/-!
# The level table

`Helpers/Helper.hpp` and `Helpers/Helper.cpp`: the map types, the localization
entry with its default, and the table `levelLocalization` from level names as
they stand in game memory to entries. The Russian names are Windows-1251 bytes,
as the source file holds them; the compiler passes them through.
-/

namespace AWRPC

open Bytes

/-- The Windows-1251 bytes of a text of ASCII and the letters А to я. -/
def cp1251 (s : String) : List UInt8 :=
  s.toList.map fun c =>
    if c.toNat < 0x80 then c.toNat.toUInt8 else (c.toNat - 0x350).toUInt8

inductive MapType where
  | EHangar | EPvP | EGlops | EPvPGlops | EPvE
deriving DecidableEq

/-- `MADE_BY_GH`. -/
def madeByGH : List UInt8 := lit "Available at github.com/lookandhate/AWRPC"

/-- `SUPPORTED_GAME_VERSION`. -/
def supportedGameVersion : List UInt8 := lit "0.35.7919/49159dd42a1"

structure MapLocalization where
  m_eng : List UInt8
  m_rus : List UInt8
  m_mapType : MapType
deriving DecidableEq

/-- `MapLocalization()`, the value `operator[]` inserts. -/
instance : Inhabited MapLocalization where
  default := ⟨lit "NULL", lit "NULL", .EHangar⟩

/-- `MapLocalization(eng, rus, maptype)`. -/
def mapLocalization (eng rus : String) (maptype : MapType := .EPvPGlops) :
    MapLocalization :=
  ⟨lit eng, cp1251 rus, maptype⟩

abbrev LeveLocalizations : Type := StdMap (List UInt8) MapLocalization

/-! ## §1  The table -/

def levelEntries : List (List UInt8 × MapLocalization) :=
  [ -- Special
    (lit "cus_alabino_polygon", mapLocalization "Alabino" "Алабино" .EPvPGlops),
    -- Hangars
    (lit "gar_base", mapLocalization "Hangar" "Ангар" .EHangar),
    (lit "gar_eeu_lean", mapLocalization "Hangar" "Ангар" .EHangar),
    (lit "gar_geom_thumbnail", mapLocalization "Hangar" "Ангар" .EHangar),
    (lit "gar_outdoor", mapLocalization "Hangar" "Ангар" .EHangar),
    (lit "gar_season_02", mapLocalization "Hangar" "Ангар" .EHangar),
    (lit "gar_season_03", mapLocalization "Hangar" "Ангар" .EHangar),
    (lit "gar_season_04", mapLocalization "Hangar" "Ангар" .EHangar),
    (lit "gar_season_05", mapLocalization "Hangar" "Ангар" .EHangar),
    (lit "gar_season_06", mapLocalization "Hangar" "Ангар" .EHangar),
    (lit "gar_china", mapLocalization "Hangar" "Ангар" .EHangar),
    (lit "gar_china_spring_festival", mapLocalization "Hangar" "Ангар" .EHangar),
    (lit "gar_china_unniversary_alabino_polygon",
      mapLocalization "Hangar" "Ангар" .EHangar),
    (lit "gar_holiday_02", mapLocalization "Hangar" "Ангар" .EHangar),
    (lit "gar_holiday_03", mapLocalization "Hangar" "Ангар" .EHangar),
    (lit "gar_holiday04", mapLocalization "Hangar" "Ангар" .EHangar),
    (lit "gar_holiday05", mapLocalization "Hangar" "Ангар" .EHangar),
    (lit "gar_holiday06", mapLocalization "Hangar" "Ангар" .EHangar),
    (lit "gar_holiday", mapLocalization "Hangar" "Ангар" .EHangar),
    (lit "gar_nevada", mapLocalization "Hangar" "Ангар" .EHangar),
    -- PvP and GLOPS maps
    (lit "glo01_barrendivide", mapLocalization "Barren Divide" "Ткварчели" .EGlops),
    (lit "glo05_ghostfield", mapLocalization "Ghostfield" "Безмер" .EPvPGlops),
    (lit "glo06_narrows", mapLocalization "Narrows" "Кошице" .EPvPGlops),
    (lit "glo07_roughneck", mapLocalization "Roughneck" "Надым" .EPvPGlops),
    (lit "glo08_china", mapLocalization "Baise" "Байсэ" .EPvP),
    (lit "glo09_grassyfields", mapLocalization "Pleternica" "Плетерница" .EPvP),
    (lit "glo11_alpine", mapLocalization "Grindelwald" "Гриндельвальд" .EGlops),
    (lit "glo12_eutown", mapLocalization "Salzburg" "Зальцбург" .EPvPGlops),
    (lit "glo17_coruscant", mapLocalization "Moscow" "Москва" .EPvP),
    (lit "pvp01_coldstrike", mapLocalization "Cold Strike" "Гори" .EPvP),
    (lit "pvp02_riverpoint", mapLocalization "River Point" "Мостар" .EPvP),
    (lit "pvp05_pipelines", mapLocalization "Pipelines" "Эль-Ариш" .EPvP),
    (lit "pvp06_portstorm", mapLocalization "Port Storm" "Умм-Каср" .EPvP),
    (lit "pvp07_coastalthreat", mapLocalization "Coastal Threat" "Батуми" .EPvP),
    (lit "pvp09_reactor", mapLocalization "Reactor" "Уризар" .EPvP),
    (lit "pvp13_desertcrossing",
      mapLocalization "Desert Crossing" "Суэцкий канал" .EGlops),
    (lit "pvp14_lostisland", mapLocalization "Lost Island" "Палау" .EPvP),
    (lit "pvp15_frontline", mapLocalization "Front Line" "Виста" .EPvP),
    (lit "pvp18_canyon", mapLocalization "Chemical Plant" "Аламо" .EPvP),
    (lit "pvp19_tropicalcoast",
      mapLocalization "Tropical Coast" "Порт-Антонио" .EPvP),
    (lit "pvp20_panamacanal", mapLocalization "Waterway" "Панамский канал" .EPvP),
    (lit "glo18_jakku", mapLocalization "Al Dabbah" "Ткварчели" .EPvP) ]

def levelLocalization : LeveLocalizations := StdMap.ofList levelEntries

/-! ## §2  What holds of every entry -/

/-- The character that separates a level name from the rest of its path. -/
def slash : UInt8 := 47

theorem levelEntries_key : ∀ p ∈ levelEntries,
    (0 : UInt8) ∉ p.1 ∧ slash ∉ p.1 ∧ p.1 ≠ lit "Nothing" ∧
      p.1 ≠ lit "small_logo_black" := by decide +kernel

theorem key_of_lookup {k : List UInt8} {e : MapLocalization}
    (h : levelLocalization.lookup k = some e) :
    (0 : UInt8) ∉ k ∧ slash ∉ k ∧ k ≠ lit "Nothing" ∧
      k ≠ lit "small_logo_black" :=
  levelEntries_key _ (StdMap.mem_of_lookup_ofList h)

end AWRPC
