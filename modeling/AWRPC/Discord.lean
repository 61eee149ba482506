import AWRPC.Helper

/-!
# The Discord wrapper

`Discord/Discord.cpp`: `Update` fills a zeroed `DiscordRichPresence` and hands
it to `Discord_UpdatePresence`. A `const char*` member is `none` for the null
pointer the `memset` leaves and otherwise the C string it points to.
-/

namespace AWRPC

open Bytes

/-- `discord_rpc.h`; the defaults are the zeroed struct. -/
structure DiscordRichPresence where
  state : Option (List UInt8) := none
  details : Option (List UInt8) := none
  startTimestamp : Int64 := 0
  endTimestamp : Int64 := 0
  largeImageKey : Option (List UInt8) := none
  largeImageText : Option (List UInt8) := none
  smallImageKey : Option (List UInt8) := none
  smallImageText : Option (List UInt8) := none
  partyId : Option (List UInt8) := none
  partySize : Int32 := 0
  partyMax : Int32 := 0
  matchSecret : Option (List UInt8) := none
  joinSecret : Option (List UInt8) := none
  spectateSecret : Option (List UInt8) := none
  instance_ : Int8 := 0
deriving DecidableEq

namespace Discord

def gameModeEnumToCharCoverName : MapType → List UInt8
  | .EPvP => lit "pvp-purple"
  | .EGlops => lit "glops"
  | .EPvE => lit "pve"
  | .EHangar => lit "cus_alabino_polygon"
  | .EPvPGlops => lit "pvp"

/-- The arguments of one call of `Discord::Update`. -/
structure UpdateCall where
  state : List UInt8
  details : List UInt8
  mapName : List UInt8
  startTimeStamp : Int64
  maptype : MapType := .EHangar
deriving DecidableEq

/-- The presence `Update` passes to `Discord_UpdatePresence`. -/
def update (c : UpdateCall) : DiscordRichPresence :=
  let map_cover := gameModeEnumToCharCoverName c.maptype
  { state := some c.state
    details := some c.details
    largeImageKey := some c.mapName
    largeImageText := some madeByGH
    startTimestamp := c.startTimeStamp
    smallImageKey := some map_cover }

end Discord

/-! ## The limits of the interface -/

namespace DiscordRichPresence

/-- A string member that is null or at most `n` bytes long. -/
def Fits (n : ℕ) (s : Option (List UInt8)) : Prop := ∀ t ∈ s, t.length ≤ n

/-- The sizes written next to the members in `discord_rpc.h`. -/
structure WithinLimits (p : DiscordRichPresence) : Prop where
  state : Fits 128 p.state
  details : Fits 128 p.details
  largeImageKey : Fits 32 p.largeImageKey
  largeImageText : Fits 128 p.largeImageText
  smallImageKey : Fits 32 p.smallImageKey
  smallImageText : Fits 128 p.smallImageText
  partyId : Fits 128 p.partyId
  matchSecret : Fits 128 p.matchSecret
  joinSecret : Fits 128 p.joinSecret
  spectateSecret : Fits 128 p.spectateSecret

theorem fits_none (n : ℕ) : Fits n none := by
  intro t ht
  exact absurd ht (by simp)

theorem fits_some {n : ℕ} {t : List UInt8} : Fits n (some t) ↔ t.length ≤ n := by
  constructor
  · intro h
    exact h t rfl
  · rintro h _ ⟨⟩
    exact h

end DiscordRichPresence

open DiscordRichPresence in
/-- The members `Update` fills from its own literals always fit; what is left to
the caller are the three strings it passes in. -/
theorem Discord.update_withinLimits_iff (c : Discord.UpdateCall) :
    (Discord.update c).WithinLimits ↔
      c.state.length ≤ 128 ∧ c.details.length ≤ 128 ∧
        c.mapName.length ≤ 32 := by
  constructor
  · intro h
    exact ⟨fits_some.mp h.state, fits_some.mp h.details,
      fits_some.mp h.largeImageKey⟩
  · rintro ⟨hstate, hdetails, hmap⟩
    have hcover : (gameModeEnumToCharCoverName c.maptype).length ≤ 32 := by
      cases c.maptype <;> decide
    exact
      { state := fits_some.mpr hstate
        details := fits_some.mpr hdetails
        largeImageKey := fits_some.mpr hmap
        largeImageText := fits_some.mpr (by decide)
        smallImageKey := fits_some.mpr hcover
        smallImageText := fits_none _
        partyId := fits_none _
        matchSecret := fits_none _
        joinSecret := fits_none _
        spectateSecret := fits_none _ }

end AWRPC
