import Mathlib.Data.List.AList

/-!
# Maps whose subscript inserts a default

`std::map` as an association list with unique keys, and its subscript operator:
looking up a missing key inserts the default value and returns it. A lookup is
thus a write. `Grown m₀ m` says what any number of subscripts can do to `m₀`:
old entries stay, new entries hold the default. Under it every later lookup
answers as a stateless lookup in `m₀` does (`Grown.valueAt`).
-/

/-- `std::map<K, V>`. The key order is left out: nothing iterates. -/
abbrev StdMap (K V : Type) : Type := AList (fun _ : K => V)

namespace StdMap

variable {K V : Type} [DecidableEq K]

/-- Construction from an initializer list; the first entry of a key wins. -/
def ofList (l : List (K × V)) : StdMap K V :=
  (l.map fun p => (⟨p.1, p.2⟩ : Sigma fun _ : K => V)).toAList

theorem mem_of_lookup_ofList {l : List (K × V)} {k : K} {v : V}
    (h : (ofList l).lookup k = some v) : (k, v) ∈ l := by
  rw [ofList, AList.lookup_to_alist] at h
  obtain ⟨p, hp, heq⟩ := List.mem_map.mp (List.of_mem_dlookup h)
  cases heq
  exact hp

variable [Inhabited V]

/-- `m[k]`: the value and the map afterwards. -/
def subscript (m : StdMap K V) (k : K) : V × StdMap K V :=
  match m.lookup k with
  | some v => (v, m)
  | none => (default, m.insert k default)

/-- The value a subscript would return, with no effect. -/
def valueAt (m : StdMap K V) (k : K) : V := (m.lookup k).getD default

@[simp] theorem subscript_fst (m : StdMap K V) (k : K) :
    (m.subscript k).1 = m.valueAt k := by
  unfold subscript valueAt
  cases m.lookup k <;> rfl

theorem valueAt_of_lookup {m : StdMap K V} {k : K} {v : V}
    (h : m.lookup k = some v) : m.valueAt k = v := by
  rw [valueAt, h]
  rfl

theorem subscript_of_lookup {m : StdMap K V} {k : K} {v : V}
    (h : m.lookup k = some v) : m.subscript k = (v, m) := by
  rw [subscript, h]

/-- A second subscript with the same key finds the entry of the first one and
leaves the map alone. -/
theorem subscript_idem (m : StdMap K V) (k : K) :
    (m.subscript k).2.subscript k = m.subscript k := by
  cases h : m.lookup k with
  | some v => rw [subscript_of_lookup h, subscript_of_lookup h]
  | none =>
      have hm : m.subscript k = (default, m.insert k default) := by
        rw [subscript, h]
      rw [hm]
      exact subscript_of_lookup (AList.lookup_insert m)

/-- A subscript leaves the map alone exactly when the key is there. -/
theorem subscript_snd_eq_iff (m : StdMap K V) (k : K) :
    (m.subscript k).2 = m ↔ k ∈ m := by
  cases h : m.lookup k with
  | some v =>
      have hmem : k ∈ m := AList.lookup_isSome.mp (by rw [h]; rfl)
      rw [subscript_of_lookup h]
      exact ⟨fun _ => hmem, fun _ => rfl⟩
  | none =>
      have hnot : k ∉ m := AList.lookup_eq_none.mp h
      have hins : (m.subscript k).2 = m.insert k default := by
        rw [subscript, h]
      rw [hins]
      constructor
      · intro he
        rw [← he]
        exact (AList.mem_insert m).mpr (Or.inl rfl)
      · intro hmem
        exact absurd hmem hnot

/-! ## Growth -/

/-- What subscripts alone can make of a map. -/
structure Grown (m₀ m : StdMap K V) : Prop where
  retains : ∀ k v, m₀.lookup k = some v → m.lookup k = some v
  introduced : ∀ k v, m₀.lookup k = none → m.lookup k = some v → v = default

theorem Grown.refl (m : StdMap K V) : Grown m m where
  retains := fun _ _ h => h
  introduced := fun k v hnone hsome => by
    rw [hnone] at hsome
    exact absurd hsome (by simp)

/-- One more subscript keeps the map grown from the same origin. -/
theorem Grown.subscript {m₀ m : StdMap K V} (h : Grown m₀ m) (k : K) :
    Grown m₀ (m.subscript k).2 := by
  cases hk : m.lookup k with
  | some v =>
      rw [subscript_of_lookup hk]
      exact h
  | none =>
      have hm : (m.subscript k).2 = m.insert k default := by
        rw [StdMap.subscript, hk]
      have hk₀ : m₀.lookup k = none := by
        cases hk₀ : m₀.lookup k with
        | none => rfl
        | some v => rw [h.retains k v hk₀] at hk; exact absurd hk (by simp)
      rw [hm]
      refine ⟨?_, ?_⟩
      · intro k' v hv
        have hne : k' ≠ k := fun he => by
          rw [he, hk₀] at hv
          exact absurd hv (by simp)
        rw [AList.lookup_insert_ne hne]
        exact h.retains k' v hv
      · intro k' v hnone hv
        by_cases he : k' = k
        · subst he
          rw [AList.lookup_insert] at hv
          exact (Option.some.inj hv).symm
        · rw [AList.lookup_insert_ne he] at hv
          exact h.introduced k' v hnone hv

/-- A grown map answers every key as the original does with the default for a
missing key: the history of lookups is invisible. -/
theorem Grown.valueAt {m₀ m : StdMap K V} (h : Grown m₀ m) (k : K) :
    m.valueAt k = m₀.valueAt k := by
  cases hk₀ : m₀.lookup k with
  | some v =>
      rw [valueAt_of_lookup hk₀, valueAt_of_lookup (h.retains k v hk₀)]
  | none =>
      unfold StdMap.valueAt
      cases hk : m.lookup k with
      | none => rw [hk₀]
      | some v => rw [hk₀, h.introduced k v hk₀ hk]; rfl

end StdMap
