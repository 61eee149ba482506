import AWRPC.Discord
import AWRPC.Memutils
import AWRPC.Lib.Machine

/-!
# The main loop

`main.cpp`: one iteration of the `while` loop, phase by phase, as a step of a
`Machine`. The input of an iteration is what the operating system answers during
it: the memory of the game and the clock. A step is `none` where the program
would read past an array or hand `strcpy_s` a string that does not fit.
-/

namespace AWRPC

open Bytes CGameMemory Discord

inductive Localization where
  | EEng | ERu
deriving DecidableEq

/-- What is fixed when the loop begins: the build (`_DEBUG` or not), the
attachment, and the clock value taken after Enter. -/
structure Setup where
  debug : Bool
  GameMemory : CGameMemory
  timestamp : Int64

structure LoopState where
  buffer : CharArray 150
  buffer_for_old : CharArray 150
  nickname_buffer : CharArray 150
  bNeedToBeUpdated : Bool
  level : List UInt8
  timestamp : Int64
  levelLocalization : LeveLocalizations

/-- The system during one iteration. `time` is what `std::time` would return. -/
structure LoopInput where
  readProcessMemory : ReadProcessMemory
  time : Int64

/-! ## §1  The phases of an iteration -/

/-- What `strcpy_s` does to the bytes behind the copied string: the debug
runtime fills them. -/
def pad (debug : Bool) (b : UInt8) : UInt8 := if debug then 0xFE else b

def start (c : Setup) : LoopState where
  buffer := .ofLiteral 150 (lit "Nothing") (by decide)
  buffer_for_old := .ofLiteral 150 (lit "Nothing") (by decide)
  nickname_buffer := .ofLiteral 150 (lit "NicknamePlaceholder") (by decide)
  bNeedToBeUpdated := true
  level := lit "Nothing"
  timestamp := c.timestamp
  levelLocalization := levelLocalization

/-- The result of the read is logged and not used. -/
def readMap (c : Setup) (i : LoopInput) (s : LoopState) : LoopState :=
  { s with
    buffer := (c.GameMemory.getCurrentMap i.readProcessMemory s.buffer).2 }

def readNickname (c : Setup) (i : LoopInput) (s : LoopState) : LoopState :=
  { s with
    nickname_buffer :=
      (c.GameMemory.getPlayerNickname i.readProcessMemory
        s.nickname_buffer).2 }

/-- The two `std::string` constructions and the comparison of the whole strings,
slash and tail included. -/
def compareLevels (c : Setup) (time : Int64) (s : LoopState) :
    Option LoopState := do
  let level ← cString? s.buffer.bytes
  let old_level ← cString? s.buffer_for_old.bytes
  if level ≠ old_level then
    let copy ← CharArray.strcpy_s (pad c.debug) s.buffer_for_old s.buffer
    some
      { s with
        level := level
        buffer_for_old := copy
        timestamp := time
        bNeedToBeUpdated := true }
  else some { s with level := level }

/-- The `Update` call of the hangar branch. -/
def hangarCall (lang : Localization) (s : LoopState) : Option UpdateCall :=
  match lang with
  | .EEng => do
      let nickname ← cString? s.nickname_buffer.bytes
      some
        { state := nickname ++ lit " is sitting in hangar"
          details := lit "Running game version " ++ supportedGameVersion
          mapName := lit "small_logo_black"
          startTimeStamp := s.timestamp }
  | .ERu =>
      some
        { state := cp1251 "В ангаре"
          details := cp1251 "Проверка API"
          mapName := lit "small_logo_black"
          startTimeStamp := s.timestamp }

/-- The `Update` call of the other branch; `level` is the cut name. -/
def mapCall (lang : Localization) (entry : MapLocalization)
    (level : List UInt8) (timestamp : Int64) : UpdateCall :=
  match lang with
  | .EEng =>
      { state := lit "Map: " ++ entry.m_eng
        details := lit "Playing"
        mapName := level
        startTimeStamp := timestamp
        maptype := entry.m_mapType }
  | .ERu =>
      { state := cp1251 "Карта: " ++ entry.m_rus
        details := cp1251 "В бою"
        mapName := level
        startTimeStamp := timestamp
        maptype := entry.m_mapType }

/-- The body of `if (bNeedToBeUpdated)`. Its first `levelLocalization[level]`
may insert an entry; the later ones find that entry (`StdMap.subscript_idem`). -/
def updateBlock (lang : Localization) (s : LoopState) :
    Option (LoopState × List UpdateCall) :=
  if s.bNeedToBeUpdated then do
    let slash_index := find s.level slash
    let level := substr s.level 0 slash_index
    let looked := s.levelLocalization.subscript level
    let s := { s with level := level, levelLocalization := looked.2 }
    let call ←
      if looked.1.m_mapType = .EHangar then hangarCall lang s
      else some (mapCall lang looked.1 level s.timestamp)
    some ({ s with bNeedToBeUpdated := false }, [call])
  else some (s, [])

/-- The console output of a `_DEBUG` build looks `level` up once more. When no
update was due, `level` is the uncut string here. -/
def debugPrint (c : Setup) (s : LoopState) : LoopState :=
  if c.debug then
    { s with
      levelLocalization := (s.levelLocalization.subscript s.level).2 }
  else s

/-! ## §2  The iteration and the loop -/

/-- The state after both reads. -/
def readBoth (c : Setup) (i : LoopInput) (s : LoopState) : LoopState :=
  readNickname c i (readMap c i s)

def iteration (lang : Localization) (c : Setup) (s : LoopState)
    (i : LoopInput) : Option (LoopState × List UpdateCall) := do
  let s ← compareLevels c i.time (readBoth c i s)
  let r ← updateBlock lang s
  some (debugPrint c r.1, r.2)

/-- The loop over the iterations whose `isGameRunning` check passed, with the
`Update` calls of each as its output. -/
def mainLoop (lang : Localization) (c : Setup) :
    Machine LoopState LoopInput (List UpdateCall) where
  init := start c
  step := iteration lang c

end AWRPC
