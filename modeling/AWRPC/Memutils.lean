import AWRPC.Lib.CharArray

/-!
# The game process and its memory

`Helpers/Memutils.cpp`. The toolhelp snapshots, `OpenProcess` and
`ReadProcessMemory` are the operating system's: their results are arguments
here. A snapshot is `none` when it could not be taken; a scan of it goes through
its entries in order with a first call and next calls.
-/

namespace AWRPC

open Bytes

/-! ## §1  The operating system's side -/

structure ProcessEntry where
  szExeFile : List UInt8
  th32ProcessID : UInt32
deriving DecidableEq

structure ModuleEntry where
  szModule : List UInt8
  modBaseAddr : UInt64
deriving DecidableEq

/-- `_tcsicmp`: a comparison that ignores case, by rules of the code page that
is set. Only that a string compares equal to itself is assumed. -/
structure Tcsicmp where
  cmp : List UInt8 → List UInt8 → Int
  self_eq : ∀ s, cmp s s = 0

/-- The ASCII comparison of the C locale. -/
def asciiTcsicmp : Tcsicmp where
  cmp := fun a b => strcmp (a.map toLower) (b.map toLower)
  self_eq := fun _ => strcmp_self _

/-- A process handle: null, or open on the process with this id. -/
abbrev HANDLE : Type := Option UInt32

/-- What one call of `ReadProcessMemory` for `nSize` bytes did: its result, the
bytes it stored at the start of the buffer, and the count it reported. A call
that fails may have stored a prefix; one that succeeds and reports a count has
stored all bytes. -/
structure ReadResult (nSize : ℕ) where
  ok : Bool
  written : List UInt8
  sizeRead : ℕ
  written_le : written.length ≤ nSize
  full : ok = true → 0 < sizeRead → written.length = nSize

/-- `ReadProcessMemory` at one moment, by handle, address and size. -/
abbrev ReadProcessMemory : Type :=
  HANDLE → UInt64 → (nSize : ℕ) → ReadResult nSize

/-- The condition both readers return: `!!result && sizeRead > 0`. -/
def ReadResult.succeeded {nSize : ℕ} (r : ReadResult nSize) : Bool :=
  r.ok && decide (r.sizeRead > 0)

theorem ReadResult.length_of_succeeded {nSize : ℕ} {r : ReadResult nSize}
    (h : r.succeeded = true) : r.written.length = nSize := by
  rw [ReadResult.succeeded, Bool.and_eq_true, decide_eq_true_eq] at h
  exact r.full h.1 h.2

/-- The successful read of memory that holds `mem`. -/
def ReadResult.ofMemory (mem : ℕ → UInt8) (nSize : ℕ) : ReadResult nSize where
  ok := true
  written := window mem nSize
  sizeRead := nSize
  written_le := by simp
  full := by simp

/-! ## §2  `CGameMemory` -/

structure CGameMemory where
  m_hGameHabndle : HANDLE
  m_ptrGameBaseAddress : UInt64
  m_dwGamePID : UInt32
deriving DecidableEq

namespace CGameMemory

def m_MAP_NAME_MEMORY_ADDRESS : UInt64 := 0x337134B

def m_NICKNAME_MEMORY_ADDRESS : UInt64 := 0x3169A5C

/-- The read both readers make: 20 bytes at an offset from the base. -/
def readAt (self : CGameMemory) (rpm : ReadProcessMemory) (offset : UInt64) :
    ReadResult 20 :=
  rpm self.m_hGameHabndle (self.m_ptrGameBaseAddress + offset) 20

/-- Reading into a 150-byte buffer: what the caller sees returned and the buffer
afterwards. A read that fails may have changed the buffer as well. -/
def readInto (r : ReadResult 20) (buffer : CharArray 150) :
    Bool × CharArray 150 :=
  (r.succeeded,
    buffer.overwrite r.written (Nat.le_trans r.written_le (by decide)))

def getCurrentMap (self : CGameMemory) (rpm : ReadProcessMemory)
    (buffer : CharArray 150) : Bool × CharArray 150 :=
  readInto (self.readAt rpm m_MAP_NAME_MEMORY_ADDRESS) buffer

def getPlayerNickname (self : CGameMemory) (rpm : ReadProcessMemory)
    (buffer : CharArray 150) : Bool × CharArray 150 :=
  readInto (self.readAt rpm m_NICKNAME_MEMORY_ADDRESS) buffer

/-! ## §3  The snapshot scans -/

/-- A first/next scan: the first entry that passes the test decides. -/
def scan {α β : Type} (test : α → Bool) (hit : α → β) (miss : β) : List α → β
  | [] => miss
  | a :: as => if test a then hit a else scan test hit miss as

theorem scan_eq {α β : Type} (test : α → Bool) (hit : α → β) (miss : β)
    (l : List α) :
    scan test hit miss l = ((l.find? test).map hit).getD miss := by
  induction l with
  | nil => rfl
  | cons a as ih =>
      rw [scan, List.find?_cons]
      cases test a with
      | true => rfl
      | false => simpa using ih

/-- The do-while scan over a process snapshot that `GetPID` and `isGameRunning`
share. -/
def scanProcesses {β : Type} (t : Tcsicmp) (hit : ProcessEntry → β) (miss : β)
    (snapshot : Option (List ProcessEntry)) (executableName : List UInt8) : β :=
  match snapshot with
  | none => miss
  | some [] => miss
  | some (e :: es) =>
      scan (fun e => t.cmp e.szExeFile executableName == 0) hit miss (e :: es)

def getPID (t : Tcsicmp) (snapshot : Option (List ProcessEntry))
    (executableName : List UInt8) : UInt32 :=
  scanProcesses t (·.th32ProcessID) 0 snapshot executableName

def isGameRunning (t : Tcsicmp) (snapshot : Option (List ProcessEntry))
    (executableName : List UInt8) : Bool :=
  scanProcesses t (fun _ => true) false snapshot executableName

/-- The first module is tested in a branch of its own. Both tests pass on a
nonzero `strcmp`, that is on a name that differs. The branch of the loop streams
`modBaseAddr`, a `BYTE*`, before it returns: the C string at that address of the
program's own memory, `none` where it cannot be read. There the call is an
access violation. -/
def getBaseAddr (text : UInt64 → Option (List UInt8))
    (snapshot : Option (List ModuleEntry)) (modName : List UInt8) :
    Option UInt64 :=
  match snapshot with
  | none => some 0
  | some [] => some 0
  | some (m :: ms) =>
      if strcmp modName m.szModule ≠ 0 then some m.modBaseAddr
      else
        scan (fun m => strcmp modName m.szModule != 0)
          (fun m => (text m.modBaseAddr).map fun _ => m.modBaseAddr) (some 0) ms

/-- `GetGameHandle`: the handle is whatever `OpenProcess` returned, the status
is `true` in any case. -/
def getGameHandle (openProcess : HANDLE) : HANDLE × Bool := (openProcess, true)

end CGameMemory

end AWRPC
