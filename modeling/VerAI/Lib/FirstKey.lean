import Std.Data.TreeMap.Lemmas
/-!
# The first key whose value passes a test

A scan of an ordered map in key order stops at the least key that passes.
`firstKey` is that scan, `firstKey_eq_some_iff` says which key it finds
without the list.
-/

namespace FirstKey

universe u v

variable {κ : Type u} {ν : Type v} [Ord κ]

/-- The least key of the map with a value that passes the test. -/
def firstKey (p : ν → Bool) (m : Std.TreeMap κ ν) : Option κ :=
  (m.toList.find? fun e => p e.2).map Prod.fst

/-- In a list in key order, what does not come before an entry has no smaller
key. -/
theorem isLE_of_pairwise [Std.LawfulEqOrd κ] {as bs : List (κ × ν)} {a b : κ × ν}
    (h : (as ++ a :: bs).Pairwise fun x y => compare x.1 y.1 = .lt)
    (hb : b ∈ as ++ a :: bs) (has : b ∉ as) : (compare a.1 b.1).isLE = true := by
  obtain ⟨-, hbs, -⟩ := List.pairwise_append.mp h
  rcases List.mem_append.mp hb with hmem | hmem
  · exact absurd hmem has
  · rcases List.mem_cons.mp hmem with rfl | hmem
    · simp
    · rw [(List.pairwise_cons.mp hbs).1 b hmem]
      rfl

variable [Std.TransOrd κ] [Std.LawfulEqOrd κ] {p : ν → Bool} {m : Std.TreeMap κ ν} {k : κ}

/-- **The scan stops at the least key that passes.** -/
theorem firstKey_eq_some_iff : firstKey p m = some k ↔
    (∃ v, m[k]? = some v ∧ p v = true) ∧
      ∀ k' v', m[k']? = some v' → p v' = true → (compare k k').isLE = true := by
  constructor
  · intro h
    obtain ⟨⟨k, v⟩, hfind, rfl⟩ := Option.map_eq_some_iff.mp h
    obtain ⟨hp, as, bs, hlist, has⟩ := List.find?_eq_some_iff_append.mp hfind
    have hmem : (k, v) ∈ m.toList := hlist ▸ List.mem_append_right _ List.mem_cons_self
    refine ⟨⟨v, Std.TreeMap.mem_toList_iff_getElem?_eq_some.mp hmem, hp⟩, fun k' v' hk' hp' => ?_⟩
    -- an entry that passes stands after the one found, in key order
    have hmem' : (k', v') ∈ m.toList := Std.TreeMap.mem_toList_iff_getElem?_eq_some.mpr hk'
    have hsorted := Std.TreeMap.ordered_keys_toList (t := m)
    rw [hlist] at hmem' hsorted
    exact isLE_of_pairwise hsorted hmem' fun hin => by simpa [hp'] using has _ hin
  · rintro ⟨⟨v, hk, hp⟩, hleast⟩
    have hmem : (k, v) ∈ m.toList := Std.TreeMap.mem_toList_iff_getElem?_eq_some.mpr hk
    rcases hfind : m.toList.find? (fun e => p e.2) with _ | ⟨k1, v1⟩
    · exact absurd hp (List.find?_eq_none.mp hfind _ hmem)
    · obtain ⟨hp1, as, bs, hlist, has⟩ := List.find?_eq_some_iff_append.mp hfind
      have hmem1 : (k1, v1) ∈ m.toList := hlist ▸ List.mem_append_right _ List.mem_cons_self
      have hle : (compare k k1).isLE = true :=
        hleast k1 v1 (Std.TreeMap.mem_toList_iff_getElem?_eq_some.mp hmem1) hp1
      have hsorted := Std.TreeMap.ordered_keys_toList (t := m)
      rw [hlist] at hmem hsorted
      have hle1 : (compare k1 k).isLE = true :=
        isLE_of_pairwise hsorted hmem fun hin => by simpa [hp] using has _ hin
      -- each is least among the entries that pass
      have heq : k1 = k := Std.LawfulEqOrd.eq_of_compare
        (Std.OrientedCmp.isLE_antisymm hle1 hle)
      rw [firstKey, hfind, heq]
      rfl

end FirstKey
