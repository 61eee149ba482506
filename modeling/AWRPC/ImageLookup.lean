import AWRPC.Memutils

/-!
# The three image lookups

`isGameRunning` and `GetPID` search the process snapshot by one comparison;
`GetBaseAddr` searches the module snapshot by another and stops at a name that
differs. What each of them finds, and when the three agree on what the game is.
-/

namespace AWRPC

open Bytes CGameMemory

variable (t : Tcsicmp)

/-! ## §1  What the scans find -/

/-- The first process whose image name equals `n` ignoring case. -/
def firstProcess (snapshot : Option (List ProcessEntry)) (n : List UInt8) :
    Option ProcessEntry :=
  (snapshot.getD []).find? fun e => t.cmp e.szExeFile n == 0

/-- The first module whose name equals `n` ignoring case. -/
def firstModule (snapshot : Option (List ModuleEntry)) (n : List UInt8) :
    Option ModuleEntry :=
  (snapshot.getD []).find? fun m => t.cmp m.szModule n == 0

/-- The first module whose name is not `n` byte for byte. -/
def firstOtherModule (snapshot : Option (List ModuleEntry)) (n : List UInt8) :
    Option ModuleEntry :=
  (snapshot.getD []).find? fun m => m.szModule != n

theorem scanProcesses_eq {β : Type} (hit : ProcessEntry → β) (miss : β)
    (snapshot : Option (List ProcessEntry)) (n : List UInt8) :
    scanProcesses t hit miss snapshot n =
      ((firstProcess t snapshot n).map hit).getD miss := by
  rcases snapshot with _ | _ | ⟨e, es⟩
  · rfl
  · rfl
  · exact scan_eq (fun e => t.cmp e.szExeFile n == 0) hit miss (e :: es)

theorem isGameRunning_iff (snapshot : Option (List ProcessEntry))
    (n : List UInt8) :
    isGameRunning t snapshot n = true ↔
      ∃ e, firstProcess t snapshot n = some e := by
  rw [isGameRunning, scanProcesses_eq]
  cases firstProcess t snapshot n with
  | none => exact ⟨fun h => absurd h (by decide), fun ⟨_, h⟩ => by cases h⟩
  | some e => exact ⟨fun _ => ⟨e, rfl⟩, fun _ => rfl⟩

theorem getPID_of_first {snapshot : Option (List ProcessEntry)}
    {n : List UInt8} {e : ProcessEntry}
    (h : firstProcess t snapshot n = some e) :
    getPID t snapshot n = e.th32ProcessID := by
  rw [getPID, scanProcesses_eq, h]
  rfl

theorem getPID_of_none {snapshot : Option (List ProcessEntry)}
    {n : List UInt8} (h : firstProcess t snapshot n = none) :
    getPID t snapshot n = 0 := by
  rw [getPID, scanProcesses_eq, h]
  rfl

theorem firstProcess_mem {snapshot : Option (List ProcessEntry)}
    {n : List UInt8} {e : ProcessEntry}
    (h : firstProcess t snapshot n = some e) : e ∈ snapshot.getD [] :=
  List.mem_of_find?_eq_some h

theorem strcmp_bne (n : List UInt8) :
    (fun m : ModuleEntry => strcmp n m.szModule != 0) =
      fun m => m.szModule != n := by
  funext m
  by_cases h : m.szModule = n
  · simp [h, strcmp_self]
  · have hne : strcmp n m.szModule ≠ 0 := fun he =>
      h (strcmp_eq_zero_iff.mp he).symm
    rw [bne_iff_ne.mpr hne, bne_iff_ne.mpr h]

/-- A base can be returned: that of the first module at once, that of a later
one after the C string at this address was printed. -/
def Returnable (text : UInt64 → Option (List UInt8))
    (snapshot : Option (List ModuleEntry)) (d : ModuleEntry) : Prop :=
  (snapshot.getD []).head? = some d ∨ (text d.modBaseAddr).isSome = true

instance (text : UInt64 → Option (List UInt8))
    (snapshot : Option (List ModuleEntry)) (d : ModuleEntry) :
    Decidable (Returnable text snapshot d) :=
  inferInstanceAs (Decidable (_ ∨ _))

/-- The branch for the first module and the loop over the others make one scan
for a name that differs; the two return by different ways. -/
theorem getBaseAddr_eq (text : UInt64 → Option (List UInt8))
    (snapshot : Option (List ModuleEntry)) (n : List UInt8) :
    getBaseAddr text snapshot n =
      match firstOtherModule snapshot n with
      | none => some 0
      | some d =>
          if Returnable text snapshot d then some d.modBaseAddr else none := by
  rcases snapshot with _ | _ | ⟨m, ms⟩
  · rfl
  · rfl
  · rw [getBaseAddr, strcmp_bne, scan_eq, firstOtherModule, Option.getD_some,
      List.find?_cons]
    -- the first module is tested apart, by `strcmp(modName, ...)` as well
    by_cases h : m.szModule = n
    · rw [if_neg (not_not.mpr (by rw [h]; exact strcmp_self n)),
        show (m.szModule != n) = false by simp [h]]
      cases hfind : ms.find? fun m => m.szModule != n with
      | none => rfl
      | some d =>
          have hd : d ≠ m := by
            rintro rfl
            exact absurd (List.find?_some hfind) (by simp [h])
          have hhead : ((some (m :: ms)).getD []).head? ≠ some d := fun he =>
            hd (Option.some.inj he).symm
          cases htext : text d.modBaseAddr with
          | none => simp [Returnable, htext, hd.symm]
          | some _ => simp [Returnable, htext]
    · rw [if_pos fun he => h (strcmp_eq_zero_iff.mp he).symm,
        bne_iff_ne.mpr h]
      exact (if_pos (Or.inl rfl)).symm

theorem getBaseAddr_of_none (text : UInt64 → Option (List UInt8))
    {snapshot : Option (List ModuleEntry)} {n : List UInt8}
    (h : firstOtherModule snapshot n = none) :
    getBaseAddr text snapshot n = some 0 := by
  rw [getBaseAddr_eq, h]

theorem getBaseAddr_of_other (text : UInt64 → Option (List UInt8))
    {snapshot : Option (List ModuleEntry)} {n : List UInt8} {d : ModuleEntry}
    (h : firstOtherModule snapshot n = some d) :
    getBaseAddr text snapshot n =
      if Returnable text snapshot d then some d.modBaseAddr else none := by
  rw [getBaseAddr_eq, h]

/-! ## §2  The agreement -/

/-- The game is running exactly when it has a process id, which is then that of
the first process of the name; and the search for its base address returns: that
of the first module of the name under the same comparison, 0 exactly when there
is none. -/
structure ImageLookupsAgree (text : UInt64 → Option (List UInt8))
    (processes : Option (List ProcessEntry))
    (modules : Option (List ModuleEntry)) (n : List UInt8) : Prop where
  running : isGameRunning t processes n = true ↔ getPID t processes n ≠ 0
  pid : isGameRunning t processes n = true →
    ∃ e, firstProcess t processes n = some e ∧
      getPID t processes n = e.th32ProcessID
  base : ∀ m, firstModule t modules n = some m →
    getBaseAddr text modules n = some m.modBaseAddr
  noBase : getBaseAddr text modules n = some 0 ↔ firstModule t modules n = none

/-- The two searches of the process snapshot always agree. -/
theorem running_iff_getPID {processes : Option (List ProcessEntry)}
    (hpid : ∀ e ∈ processes.getD [], e.th32ProcessID ≠ 0) (n : List UInt8) :
    isGameRunning t processes n = true ↔ getPID t processes n ≠ 0 := by
  rw [isGameRunning_iff]
  constructor
  · rintro ⟨e, he⟩
    rw [getPID_of_first t he]
    exact hpid e (firstProcess_mem t he)
  · intro h
    cases hfirst : firstProcess t processes n with
    | none => exact absurd (getPID_of_none t hfirst) h
    | some e => exact ⟨e, rfl⟩

/-- A list with an entry has one that differs from `n` or one that equals it. -/
theorem firstOtherModule_none {modules : Option (List ModuleEntry)}
    {n : List UInt8} (hother : firstOtherModule modules n = none)
    (hfirst : firstModule t modules n = none) : modules.getD [] = [] := by
  rw [firstOtherModule, List.find?_eq_none] at hother
  rw [firstModule, List.find?_eq_none] at hfirst
  apply List.eq_nil_iff_forall_not_mem.mpr
  intro m hm
  have hname : m.szModule = n := by simpa using hother m hm
  have hself : t.cmp m.szModule n = 0 := by rw [hname]; exact t.self_eq n
  exact hfirst m hm (by simpa using hself)

/-- **The three lookups agree exactly** when there are no modules, or the first
module whose name is not `n` byte for byte has the base of the first module
whose name equals `n` ignoring case, and is the first of all or has a base at
which the program can read a C string in its own memory. -/
theorem imageLookupsAgree_iff (text : UInt64 → Option (List UInt8))
    (processes : Option (List ProcessEntry))
    (modules : Option (List ModuleEntry)) (n : List UInt8)
    (hpid : ∀ e ∈ processes.getD [], e.th32ProcessID ≠ 0)
    (hbase : ∀ m ∈ modules.getD [], m.modBaseAddr ≠ 0) :
    ImageLookupsAgree t text processes modules n ↔
      modules.getD [] = [] ∨
      ∃ d m, firstOtherModule modules n = some d ∧
        firstModule t modules n = some m ∧ d.modBaseAddr = m.modBaseAddr ∧
        Returnable text modules d := by
  constructor
  · intro h
    have hmiss := h.noBase
    cases hother : firstOtherModule modules n with
    | none =>
        have hfirst := hmiss.mp (getBaseAddr_of_none text hother)
        exact Or.inl (firstOtherModule_none t hother hfirst)
    | some d =>
        have hgot := getBaseAddr_of_other text hother
        have hne : d.modBaseAddr ≠ 0 :=
          hbase d (List.mem_of_find?_eq_some hother)
        cases hfirst : firstModule t modules n with
        | none =>
            have hzero := hmiss.mpr hfirst
            rw [hgot] at hzero
            split at hzero
            · exact absurd (Option.some.inj hzero) hne
            · cases hzero
        | some m =>
            have hm := h.base m hfirst
            rw [hgot] at hm
            split at hm
            · rename_i hreturned
              exact Or.inr ⟨d, m, rfl, rfl, Option.some.inj hm, hreturned⟩
            · cases hm
  · intro h
    refine ⟨running_iff_getPID t hpid n, ?_, ?_, ?_⟩
    · intro hrunning
      obtain ⟨e, he⟩ := (isGameRunning_iff t processes n).mp hrunning
      exact ⟨e, he, getPID_of_first t he⟩
    · intro m hm
      rcases h with hempty | ⟨d, m', hother, hfirst, heq, hreturned⟩
      · rw [firstModule, hempty] at hm
        exact absurd hm (by simp)
      · rw [hfirst] at hm
        cases hm
        rw [getBaseAddr_of_other text hother, if_pos hreturned, heq]
    · rcases h with hempty | ⟨d, m, hother, hfirst, heq, hreturned⟩
      · have hother : firstOtherModule modules n = none := by
          rw [firstOtherModule, hempty]
          rfl
        rw [getBaseAddr_of_none text hother, firstModule, hempty]
        exact ⟨fun _ => rfl, fun _ => rfl⟩
      · have hne : d.modBaseAddr ≠ 0 :=
          hbase d (List.mem_of_find?_eq_some hother)
        rw [getBaseAddr_of_other text hother, if_pos hreturned, hfirst]
        constructor
        · intro hzero
          exact absurd (Option.some.inj hzero) hne
        · intro hnone
          exact absurd hnone (by simp)

/-- An image name in other letter case, first in the list as the system has it:
nothing is printed. -/
theorem imageLookupsAgree_otherCase :
    ImageLookupsAgree asciiTcsicmp (fun _ => none)
      (some [⟨lit "explorer.exe", 8⟩, ⟨lit "ArmoredWarfare.exe", 4⟩])
      (some [⟨lit "ArmoredWarfare.exe", 0x140000000⟩,
        ⟨lit "ntdll.dll", 0x7FF800000000⟩])
      (lit "armoredwarfare.exe") :=
  (imageLookupsAgree_iff asciiTcsicmp _ _ _ _ (by decide +kernel)
    (by decide +kernel)).mpr
    (Or.inr ⟨⟨lit "ArmoredWarfare.exe", 0x140000000⟩,
      ⟨lit "ArmoredWarfare.exe", 0x140000000⟩, by decide +kernel,
      by decide +kernel, rfl, Or.inl rfl⟩)

/-- With the image name spelled as in the program, the base of the next module
is returned where the program can print the C string there, and the call is an
access violation where it cannot. -/
theorem imageLookupsAgree_not :
    let processes := some [ProcessEntry.mk (lit "armoredwarfare.exe") 4]
    let modules := some [ModuleEntry.mk (lit "armoredwarfare.exe") 0x140000000,
      ⟨lit "ntdll.dll", 0x7FF800000000⟩]
    let mapped : UInt64 → Option (List UInt8) :=
      fun a => if a = 0x7FF800000000 then some (lit "MZ") else none
    (∀ e ∈ processes.getD [], e.th32ProcessID ≠ 0) ∧
      (∀ m ∈ modules.getD [], m.modBaseAddr ≠ 0) ∧
      getBaseAddr mapped modules (lit "armoredwarfare.exe") =
        some 0x7FF800000000 ∧
      ¬ ImageLookupsAgree asciiTcsicmp mapped processes modules
        (lit "armoredwarfare.exe") ∧
      getBaseAddr (fun _ => none) modules (lit "armoredwarfare.exe") = none ∧
      ¬ ImageLookupsAgree asciiTcsicmp (fun _ => none) processes modules
        (lit "armoredwarfare.exe") := by
  intro processes modules mapped
  have hgot : getBaseAddr mapped modules (lit "armoredwarfare.exe") =
      some 0x7FF800000000 := by decide +kernel
  have hfault : getBaseAddr (fun _ => none) modules
      (lit "armoredwarfare.exe") = none := by decide +kernel
  have hfirst : firstModule asciiTcsicmp modules (lit "armoredwarfare.exe") =
      some ⟨lit "armoredwarfare.exe", 0x140000000⟩ := by decide +kernel
  refine ⟨by decide +kernel, by decide +kernel, hgot, ?_, hfault, ?_⟩
  · intro h
    have hbase := h.base _ hfirst
    rw [hgot] at hbase
    exact absurd hbase (by decide +kernel)
  · intro h
    have hbase := h.base _ hfirst
    rw [hfault] at hbase
    cases hbase

end AWRPC
