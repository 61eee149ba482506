import Mathlib.Data.List.Basic
import Mathlib.Data.Nat.Notation

/-!
# Partial machines and the runs on which they never fault

A machine reads one input a step and either faults (`none`) or moves on and
emits an output. `Safe` packages an invariant that holds at the start, is kept
by every step and rules faults out; over it the machine is total, so that a run
over an input stream has a state and an output at every index (`stateAt`,
`outAt`). `run_range` ties these to the run over a finite input list, and
`simulation` is the one induction by which a run of one machine is matched with
the run of another.
-/

structure Machine (σ ι ο : Type) where
  init : σ
  step : σ → ι → Option (σ × ο)

namespace Machine

variable {σ ι ο : Type} {M : Machine σ ι ο}

/-- The run over a finite list of inputs; a fault anywhere ends it. -/
def run (M : Machine σ ι ο) (s : σ) : List ι → Option (σ × List ο)
  | [] => some (s, [])
  | i :: is => do
      let r ← M.step s i
      let t ← M.run r.1 is
      some (t.1, r.2 :: t.2)

theorem run_snoc {s t u : σ} {is : List ι} {i : ι} {os : List ο} {o : ο}
    (h : M.run s is = some (t, os)) (hstep : M.step t i = some (u, o)) :
    M.run s (is ++ [i]) = some (u, os ++ [o]) := by
  induction is generalizing s os with
  | nil =>
      cases h
      simp [run, hstep]
  | cons j js ih =>
      obtain ⟨r, hr, hrest⟩ := Option.bind_eq_some_iff.mp h
      obtain ⟨q, hq, heq⟩ := Option.bind_eq_some_iff.mp hrest
      cases heq
      simp [run, hr, ih hq]

/-! ## Runs that may stop -/

/-- Every step of the run over `is` from `s` satisfies `P`. -/
def Along (M : Machine σ ι ο) (P : σ → ι → Prop) : σ → List ι → Prop
  | _, [] => True
  | s, i :: is => P s i ∧ ∀ r, M.step s i = some r → M.Along P r.1 is

theorem along_of_forall {P : σ → ι → Prop} (h : ∀ s i, P s i) (s : σ)
    (is : List ι) : M.Along P s is := by
  induction is generalizing s with
  | nil => trivial
  | cons i is ih => exact ⟨h s i, fun r _ => ih r.1⟩

theorem along_of_mem {P : ι → Prop} {is : List ι} (h : ∀ i ∈ is, P i) (s : σ) :
    M.Along (fun _ => P) s is := by
  induction is generalizing s with
  | nil => trivial
  | cons i is ih =>
      obtain ⟨hi, his⟩ := List.forall_mem_cons.mp h
      exact ⟨hi, fun r _ => ih his r.1⟩

/-- Conditions on the steps of a given run can be evaluated. -/
def alongB (M : Machine σ ι ο) (p : σ → ι → Bool) : σ → List ι → Bool
  | _, [] => true
  | s, i :: is =>
      p s i && match M.step s i with
        | some r => M.alongB p r.1 is
        | none => true

theorem along_of_alongB {P : σ → ι → Prop} {p : σ → ι → Bool}
    (hp : ∀ s i, p s i = true → P s i) {s : σ} {is : List ι}
    (h : M.alongB p s is = true) : M.Along P s is := by
  induction is generalizing s with
  | nil => trivial
  | cons i is ih =>
      obtain ⟨hi, his⟩ := Bool.and_eq_true_iff.mp h
      refine ⟨hp s i hi, ?_⟩
      intro r hr
      rw [hr] at his
      exact ih his

/-- What every step with `P` keeps, and gives of its output, holds of a run
whose steps all satisfy `P`. -/
theorem run_along {I : σ → Prop} {P : σ → ι → Prop} {Q : ο → Prop}
    (hstep : ∀ s i r, I s → P s i → M.step s i = some r → I r.1 ∧ Q r.2)
    {s t : σ} {is : List ι} {os : List ο} (hs : I s) (hP : M.Along P s is)
    (h : M.run s is = some (t, os)) : I t ∧ ∀ o ∈ os, Q o := by
  induction is generalizing s os with
  | nil =>
      cases h
      exact ⟨hs, fun o ho => absurd ho List.not_mem_nil⟩
  | cons i is ih =>
      obtain ⟨r, hr, hrest⟩ := Option.bind_eq_some_iff.mp h
      obtain ⟨q, hq, heq⟩ := Option.bind_eq_some_iff.mp hrest
      cases heq
      obtain ⟨hr', hout⟩ := hstep s i r hs hP.1 hr
      obtain ⟨ht, houts⟩ := ih hr' (hP.2 r hr) hq
      refine ⟨ht, ?_⟩
      intro o ho
      rcases List.mem_cons.mp ho with rfl | ho
      · exact hout
      · exact houts o ho

/-- What every step keeps, and gives of its output, holds of a whole run. -/
theorem run_keeps {I : σ → Prop} {Q : ο → Prop}
    (hstep : ∀ s i r, I s → M.step s i = some r → I r.1 ∧ Q r.2)
    {s t : σ} {is : List ι} {os : List ο} (hs : I s)
    (h : M.run s is = some (t, os)) : I t ∧ ∀ o ∈ os, Q o :=
  run_along (fun s i r hs _ hr => hstep s i r hs hr) hs
    (along_of_forall (P := fun _ _ => True) (fun _ _ => trivial) s is) h

/-- **Last write.** Where each input sets a variable or leaves it, the variable is
in the end what was written last. -/
theorem run_last_write {α : Type} {f : σ → Option α} {w : ι → Option α}
    (hstep : ∀ s i r, M.step s i = some r → f r.1 = (w i).or (f s))
    {s t : σ} {is : List ι} {os : List ο} (h : M.run s is = some (t, os)) :
    f t = (is.filterMap w).getLast?.or (f s) := by
  induction is generalizing s os with
  | nil =>
      cases h
      rfl
  | cons i is ih =>
      obtain ⟨r, hr, hrest⟩ := Option.bind_eq_some_iff.mp h
      obtain ⟨q, hq, heq⟩ := Option.bind_eq_some_iff.mp hrest
      cases heq
      rw [ih hq, hstep s i r hr]
      cases hwrite : w i with
      | none => rw [List.filterMap_cons_none hwrite, Option.none_or]
      | some a =>
          rw [List.filterMap_cons_some hwrite, List.getLast?_cons,
            Option.some_or]
          cases (is.filterMap w).getLast? with
          | none => rfl
          | some b => rfl

/-- **Exact run rule.** Where each step reaches `G` exactly from `G` and with
`P`, a run ends in `G` exactly when it starts in `G` and all its steps satisfy
`P`. -/
theorem run_iff_along {I G : σ → Prop} {P : σ → ι → Prop}
    (hinv : ∀ s i r, I s → M.step s i = some r → I r.1)
    (hstep : ∀ s i r, I s → M.step s i = some r → (G r.1 ↔ G s ∧ P s i))
    {s t : σ} {is : List ι} {os : List ο} (hs : I s)
    (h : M.run s is = some (t, os)) : G t ↔ G s ∧ M.Along P s is := by
  induction is generalizing s os with
  | nil =>
      cases h
      exact ⟨fun hg => ⟨hg, trivial⟩, fun hg => hg.1⟩
  | cons i is ih =>
      obtain ⟨r, hr, hrest⟩ := Option.bind_eq_some_iff.mp h
      obtain ⟨q, hq, heq⟩ := Option.bind_eq_some_iff.mp hrest
      cases heq
      rw [ih (hinv s i r hs hr) hq, hstep s i r hs hr]
      constructor
      · rintro ⟨⟨hg, hp⟩, halong⟩
        refine ⟨hg, hp, ?_⟩
        intro r' hr'
        rw [hr] at hr'
        cases hr'
        exact halong
      · rintro ⟨hg, hp, halong⟩
        exact ⟨⟨hg, hp⟩, halong r hr⟩

/-! ## Runs of two machines -/

theorem run_append {s t u : σ} {is js : List ι} {os ps : List ο}
    (h : M.run s is = some (t, os)) (h' : M.run t js = some (u, ps)) :
    M.run s (is ++ js) = some (u, os ++ ps) := by
  induction is generalizing s os with
  | nil =>
      cases h
      exact h'
  | cons i is ih =>
      obtain ⟨r, hr, hrest⟩ := Option.bind_eq_some_iff.mp h
      obtain ⟨q, hq, heq⟩ := Option.bind_eq_some_iff.mp hrest
      cases heq
      simp [run, hr, ih hq]

theorem along_append {P : σ → ι → Prop} {s t : σ} {is js : List ι} {os : List ο}
    (h : M.run s is = some (t, os)) (his : M.Along P s is)
    (hjs : M.Along P t js) : M.Along P s (is ++ js) := by
  induction is generalizing s os with
  | nil =>
      cases h
      exact hjs
  | cons i is ih =>
      obtain ⟨r, hr, hrest⟩ := Option.bind_eq_some_iff.mp h
      obtain ⟨q, hq, heq⟩ := Option.bind_eq_some_iff.mp hrest
      cases heq
      refine ⟨his.1, ?_⟩
      intro r' hr'
      rw [hr] at hr'
      cases hr'
      exact ih hq (his.2 r hr)

/-- **Refinement.** Where every step is matched by some steps of another machine,
a run is matched by a run. `S` says what the steps that match an input are, and
`P` and `Q` are conditions on the runs that carry over. -/
theorem run_refines {σ' ι' ο' : Type} {A : Machine σ' ι' ο'}
    {R : σ → σ' → Prop} {S : ι → List ι' → Prop} {E : ι → Prop}
    {P : σ → ι → Prop} {Q : σ' → ι' → Prop}
    (hstep : ∀ s i r a, R s a → E i → M.step s i = some r →
      ∃ is' b os', A.run a is' = some (b, os') ∧ R r.1 b ∧ S i is' ∧
        (P s i → A.Along Q a is'))
    {s t : σ} {is : List ι} {os : List ο} {a : σ'} (hs : R s a)
    (hE : ∀ i ∈ is, E i) (h : M.run s is = some (t, os)) :
    ∃ iss b os', A.run a iss.flatten = some (b, os') ∧ R t b ∧
      List.Forall₂ S is iss ∧ (M.Along P s is → A.Along Q a iss.flatten) := by
  induction is generalizing s os a with
  | nil =>
      cases h
      exact ⟨[], a, [], rfl, hs, .nil, fun _ => trivial⟩
  | cons i is ih =>
      obtain ⟨r, hr, hrest⟩ := Option.bind_eq_some_iff.mp h
      obtain ⟨q, hq, heq⟩ := Option.bind_eq_some_iff.mp hrest
      cases heq
      obtain ⟨hi, his⟩ := List.forall_mem_cons.mp hE
      obtain ⟨is', b, os', hrun, hR, hS, hP⟩ := hstep s i r a hs hi hr
      obtain ⟨iss, c, os'', hruns, hR', hSs, hPs⟩ := ih hR his hq
      refine ⟨is' :: iss, c, os' ++ os'', run_append hrun hruns, hR',
        .cons hS hSs, ?_⟩
      rintro ⟨hp, hps⟩
      exact along_append hrun (hP hp) (hPs (hps r hr))

/-! ## Runs that cannot fault -/

/-- An invariant under which the machine does not fault. -/
structure Safe (M : Machine σ ι ο) where
  Inv : σ → Prop
  init : Inv M.init
  next : ∀ s i, Inv s → ∃ r, M.step s i = some r ∧ Inv r.1

namespace Safe

variable (I : Safe M)

/-- A state with its invariant. -/
structure State where
  val : σ
  inv : I.Inv val

/-- The step on a state with its invariant: it cannot fault. -/
def step (s : I.State) (i : ι) : I.State × ο :=
  match h : M.step s.val i with
  | some r =>
      (⟨r.1, by
        obtain ⟨r', hr', hinv⟩ := I.next s.val i s.inv
        rw [h] at hr'
        exact Option.some.inj hr' ▸ hinv⟩, r.2)
  | none => absurd h (by
      obtain ⟨r', hr', -⟩ := I.next s.val i s.inv
      rw [hr']
      simp)

theorem step_spec (s : I.State) (i : ι) :
    M.step s.val i = some ((I.step s i).1.val, (I.step s i).2) := by
  unfold step
  split
  · rename_i r h
    exact h
  · rename_i h
    obtain ⟨r', hr', -⟩ := I.next s.val i s.inv
    rw [h] at hr'
    exact absurd hr' (by simp)

/-- The state before step `n` of the run over the input stream `env`. -/
def stateAt (env : ℕ → ι) : ℕ → I.State
  | 0 => ⟨M.init, I.init⟩
  | n + 1 => (I.step (stateAt env n) (env n)).1

/-- The output of step `n`. -/
def outAt (env : ℕ → ι) (n : ℕ) : ο := (I.step (I.stateAt env n) (env n)).2

theorem step_stateAt (env : ℕ → ι) (n : ℕ) :
    M.step (I.stateAt env n).val (env n) =
      some ((I.stateAt env (n + 1)).val, I.outAt env n) :=
  I.step_spec (I.stateAt env n) (env n)

/-- The first `n` steps over a stream are the run over its first `n` inputs. -/
theorem run_range (env : ℕ → ι) (n : ℕ) :
    M.run M.init ((List.range n).map env) =
      some ((I.stateAt env n).val, (List.range n).map (I.outAt env)) := by
  induction n with
  | zero => rfl
  | succ n ih =>
      rw [List.range_succ, List.map_append, List.map_append]
      exact run_snoc ih (I.step_stateAt env n)

/-- No run faults. -/
theorem run_isSome (is : List ι) : ∃ r, M.run M.init is = some r ∧ I.Inv r.1 := by
  suffices go : ∀ (is : List ι) (s : σ), I.Inv s →
      ∃ r, M.run s is = some r ∧ I.Inv r.1 from go is M.init I.init
  intro is
  induction is with
  | nil =>
      intro s hs
      exact ⟨(s, []), rfl, hs⟩
  | cons i is ih =>
      intro s hs
      obtain ⟨r, hr, hinv⟩ := I.next s i hs
      obtain ⟨t, ht, htinv⟩ := ih r.1 hinv
      exact ⟨(t.1, r.2 :: t.2), by simp [run, hr, ht], htinv⟩

/-- **Simulation.** Let `view` read the abstract input off the concrete state
and input. A relation that holds at the start and is carried by every pair of
steps, with the outputs related by `out`, relates the two runs at every index. -/
theorem simulation {σ' ι' ο' : Type} {A : Machine σ' ι' ο'} (J : Safe A)
    (view : σ → ι → ι') (R : σ → σ' → Prop) (out : ο → ο' → Prop)
    (hinit : R M.init A.init)
    (hstep : ∀ s a i r q, I.Inv s → R s a → M.step s i = some r →
      A.step a (view s i) = some q → R r.1 q.1 ∧ out r.2 q.2)
    (env : ℕ → ι) (n : ℕ) :
    let env' := fun k => view (I.stateAt env k).val (env k)
    R (I.stateAt env n).val (J.stateAt env' n).val ∧
      out (I.outAt env n) (J.outAt env' n) := by
  intro env'
  have hR : ∀ k, R (I.stateAt env k).val (J.stateAt env' k).val := by
    intro k
    induction k with
    | zero => exact hinit
    | succ k ih =>
        exact (hstep _ _ _ _ _ (I.stateAt env k).inv ih (I.step_stateAt env k)
          (J.step_stateAt env' k)).1
  exact ⟨hR n, (hstep _ _ _ _ _ (I.stateAt env n).inv (hR n)
    (I.step_stateAt env n) (J.step_stateAt env' n)).2⟩

end Safe

end Machine
