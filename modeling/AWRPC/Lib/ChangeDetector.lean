import AWRPC.Lib.Machine

/-!
# Change detection over a stream

A detector watches a key. It reports on its first step and on every step whose
key differs from the last one, and stamps each report with the clock value of
the last change. The state after `n` steps has a closed form in terms of
*spans*, the maximal blocks of equal keys (`detector_stateAt`, `detector_outAt`):
the latest report up to a step is the one made at the start of the span the step
lies in.
-/

namespace ChangeDetector

variable {α β κ ν τ : Type}

/-! ## §1  Spans -/

/-- The start of the maximal block of equal values that ends at `n`. -/
def spanStart [DecidableEq α] (f : ℕ → α) : ℕ → ℕ
  | 0 => 0
  | n + 1 => if f (n + 1) = f n then spanStart f n else n + 1

/-- The stream with `a` put before it. -/
def prepend (a : α) (f : ℕ → α) : ℕ → α
  | 0 => a
  | n + 1 => f n

/-- `n` starts a span. -/
def Starts (f : ℕ → α) : ℕ → Prop
  | 0 => True
  | n + 1 => f (n + 1) ≠ f n

instance [DecidableEq α] (f : ℕ → α) : DecidablePred (Starts f)
  | 0 => instDecidableTrue
  | n + 1 => inferInstanceAs (Decidable (f (n + 1) ≠ f n))

section Spans

variable [DecidableEq α]

theorem spanStart_le (f : ℕ → α) (n : ℕ) : spanStart f n ≤ n := by
  induction n with
  | zero => exact Nat.le_refl 0
  | succ n ih =>
      rw [spanStart]
      split
      · exact Nat.le_succ_of_le ih
      · exact Nat.le_refl _

theorem spanStart_of_starts {f : ℕ → α} : ∀ {n : ℕ}, Starts f n →
    spanStart f n = n
  | 0, _ => rfl
  | _ + 1, h => if_neg h

theorem spanStart_of_not_starts {f : ℕ → α} {n : ℕ} (h : ¬ Starts f (n + 1)) :
    spanStart f (n + 1) = spanStart f n := if_pos (not_not.mp h)

theorem starts_spanStart (f : ℕ → α) (n : ℕ) : Starts f (spanStart f n) := by
  induction n with
  | zero => trivial
  | succ n ih =>
      by_cases h : Starts f (n + 1)
      · rw [spanStart_of_starts h]
        exact h
      · rw [spanStart_of_not_starts h]
        exact ih

/-- No span starts behind the start of the span of `n`, up to `n`. -/
theorem not_starts_of_lt {f : ℕ → α} {k n : ℕ} (h : spanStart f n < k)
    (hk : k ≤ n) : ¬ Starts f k := by
  induction n with
  | zero => omega
  | succ n ih =>
      by_cases hs : Starts f (n + 1)
      · rw [spanStart_of_starts hs] at h
        omega
      · rw [spanStart_of_not_starts hs] at h
        rcases Nat.lt_or_eq_of_le hk with hlt | rfl
        · exact ih h (by omega)
        · exact hs

/-- What every step inside a span keeps is as it was at the start of the
span. -/
theorem kept_spanStart {f : ℕ → α} {v : ℕ → β} {n : ℕ}
    (h : ∀ m < n, f (m + 1) = f m → v (m + 1) = v m) :
    v n = v (spanStart f n) := by
  induction n with
  | zero => rfl
  | succ n ih =>
      by_cases hs : Starts f (n + 1)
      · rw [spanStart_of_starts hs]
      · rw [spanStart_of_not_starts hs,
          h n (Nat.lt_succ_self n) (not_not.mp hs)]
        exact ih fun m hm => h m (Nat.lt_succ_of_lt hm)

/-- The value is the same all through a span. -/
theorem eq_spanStart (f : ℕ → α) (n : ℕ) : f (spanStart f n) = f n :=
  (kept_spanStart fun _ _ h => h).symm

end Spans

/-! ## §2  The detector -/

structure State (κ τ : Type) where
  last : κ
  stamp : τ
  pending : Bool

/-- Key, payload and clock value of one step. -/
structure Sample (κ ν τ : Type) where
  key : κ
  payload : ν
  clock : τ

/-- What a step reports, with the stamp in the place of the clock value. -/
abbrev Report (κ ν τ : Type) : Type := Option (Sample κ ν τ)

variable [DecidableEq κ]

/-- Compare, then report if there is something pending. -/
def detector (k₀ : κ) (t₀ : τ) :
    Machine (State κ τ) (Sample κ ν τ) (Report κ ν τ) where
  init := ⟨k₀, t₀, true⟩
  step := fun s i =>
    let s' := if i.key = s.last then s else ⟨i.key, i.clock, true⟩
    some (if s'.pending then
      ({ s' with pending := false }, some ⟨i.key, i.payload, s'.stamp⟩)
    else (s', none))

/-- The detector never faults. -/
def detectorSafe (k₀ : κ) (t₀ : τ) :
    (detector (ν := ν) k₀ t₀).Safe where
  Inv := fun _ => True
  init := trivial
  next := fun _ _ _ => ⟨_, rfl, trivial⟩

variable (k₀ : κ) (t₀ : τ) (env : ℕ → Sample κ ν τ)

/-- The stamp in force before step `n`: the clock value at the start of the
span, with the start-up key and clock put before the stream. -/
def stampAt (key : ℕ → κ) (clock : ℕ → τ) (n : ℕ) : τ :=
  prepend t₀ clock (spanStart (prepend k₀ key) n)

theorem stampAt_succ (key : ℕ → κ) (clock : ℕ → τ) (n : ℕ) :
    stampAt k₀ t₀ key clock (n + 1) =
      if key n = prepend k₀ key n then stampAt k₀ t₀ key clock n
      else clock n := by
  unfold stampAt
  rw [spanStart]
  by_cases h : key n = prepend k₀ key n
  · rw [if_pos h, if_pos (show prepend k₀ key (n + 1) = _ from h)]
  · rw [if_neg h, if_neg (show ¬ prepend k₀ key (n + 1) = _ from h)]
    rfl

/-- A stamp lasts from the start of the span on. -/
theorem stampAt_spanStart (key : ℕ → κ) (clock : ℕ → τ) (n : ℕ) :
    stampAt k₀ t₀ key clock (spanStart key n + 1) =
      stampAt k₀ t₀ key clock (n + 1) := by
  refine (kept_spanStart (v := fun m => stampAt k₀ t₀ key clock (m + 1))
    fun m _ h => ?_).symm
  have hsame : key (m + 1) = prepend k₀ key (m + 1) := h
  rw [stampAt_succ k₀ t₀ key clock (m + 1), if_pos hsame]

/-- One step from the closed form of the state. -/
theorem detector_step (n : ℕ) :
    (detector k₀ t₀).step
        ⟨prepend k₀ (fun i => (env i).key) n,
          stampAt k₀ t₀ (fun i => (env i).key) (fun i => (env i).clock) n,
          decide (n = 0)⟩ (env n) =
      some
        (⟨(env n).key,
          stampAt k₀ t₀ (fun i => (env i).key) (fun i => (env i).clock) (n + 1),
          false⟩,
          if Starts (fun i => (env i).key) n then
            some ⟨(env n).key, (env n).payload,
              stampAt k₀ t₀ (fun i => (env i).key) (fun i => (env i).clock)
                (n + 1)⟩
          else none) := by
  rw [stampAt_succ]
  unfold detector
  dsimp only
  cases n with
  | zero =>
      rw [if_pos (show Starts (fun i => (env i).key) 0 from trivial)]
      by_cases h : (env 0).key = k₀
      · simp [prepend, h]
      · simp [prepend, h]
  | succ n =>
      by_cases h : (env (n + 1)).key = (env n).key
      · rw [if_neg (show ¬ Starts (fun i => (env i).key) (n + 1) from
          not_not.mpr h)]
        simp [prepend, h]
      · rw [if_pos (show Starts (fun i => (env i).key) (n + 1) from h)]
        simp [prepend, h]

/-- **The state before step `n`**: the last key seen, the stamp of its span, and
a report pending only at the start. -/
theorem detector_stateAt (n : ℕ) :
    ((detectorSafe k₀ t₀).stateAt env n).val =
      ⟨prepend k₀ (fun i => (env i).key) n,
        stampAt k₀ t₀ (fun i => (env i).key) (fun i => (env i).clock) n,
        decide (n = 0)⟩ := by
  induction n with
  | zero => rfl
  | succ n ih =>
      have hstep := (detectorSafe k₀ t₀).step_stateAt env n
      rw [ih, detector_step] at hstep
      exact (congrArg Prod.fst (Option.some.inj hstep)).symm

/-- **The report of step `n`**: one exactly where a span starts, stamped with
the clock value of the last change. -/
theorem detector_outAt (n : ℕ) :
    (detectorSafe k₀ t₀).outAt env n =
      if Starts (fun i => (env i).key) n then
        some ⟨(env n).key, (env n).payload,
          stampAt k₀ t₀ (fun i => (env i).key) (fun i => (env i).clock) (n + 1)⟩
      else none := by
  have hstep := (detectorSafe k₀ t₀).step_stateAt env n
  rw [detector_stateAt, detector_step] at hstep
  exact (congrArg Prod.snd (Option.some.inj hstep)).symm

/-! ## §3  The latest output of a run -/

/-- `a`, the output of step `j`, is the latest output up to step `n`. -/
def Latest (out : ℕ → List β) (n j : ℕ) (a : β) : Prop :=
  j ≤ n ∧ out j = [a] ∧ ∀ k, j < k → k ≤ n → out k = []

theorem Latest.unique {out : ℕ → List β} {n j k : ℕ} {a b : β}
    (ha : Latest out n j a) (hb : Latest out n k b) : j = k ∧ a = b := by
  obtain ⟨hjn, hja, hjrest⟩ := ha
  obtain ⟨hkn, hkb, hkrest⟩ := hb
  rcases Nat.lt_trichotomy j k with hlt | rfl | hlt
  · rw [hjrest k hlt hkn] at hkb
    exact absurd hkb (by simp)
  · rw [hja] at hkb
    exact ⟨rfl, List.singleton_inj.mp hkb⟩
  · rw [hkrest j hlt hjn] at hja
    exact absurd hja (by simp)

/-- The latest output is the last one of the whole list. -/
theorem Latest.getLast? {out : ℕ → List β} {n j : ℕ} {a : β}
    (h : Latest out n j a) :
    ((List.range (n + 1)).flatMap out).getLast? = some a := by
  obtain ⟨hj, hout, hrest⟩ := h
  induction n with
  | zero =>
      have hzero : j = 0 := Nat.le_zero.mp hj
      subst hzero
      simp [hout]
  | succ n ih =>
      rw [List.range_succ, List.flatMap_append]
      rcases Nat.lt_or_eq_of_le hj with hlt | rfl
      · have hnil := hrest (n + 1) hlt (Nat.le_refl _)
        have hprev := ih (Nat.le_of_lt_succ hlt) fun k hk hkn =>
          hrest k hk (Nat.le_succ_of_le hkn)
        simpa [hnil] using hprev
      · simp [hout]

/-- Where the outputs stand at the starts of the spans, the latest one is that
of the span the run is in. -/
theorem latest_spanStart {out : ℕ → List β} {f : ℕ → κ} {g : ℕ → β}
    (h : ∀ n, out n = if Starts f n then [g n] else []) (n : ℕ) :
    Latest out n (spanStart f n) (g (spanStart f n)) := by
  refine ⟨spanStart_le f n, ?_, ?_⟩
  · rw [h, if_pos (starts_spanStart f n)]
  · intro k hk hkn
    rw [h, if_neg (not_starts_of_lt hk hkn)]

end ChangeDetector
