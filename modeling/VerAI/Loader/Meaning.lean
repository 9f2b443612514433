import VerAI.Loader.Confluence
/-!
# What a model file means

A file says of each component what it is made of: its inputs are outputs of
other components. Read so, the file is a system of equations for all of the
outputs, and says nothing of an order. `create_components` solves it one
component after another. It gets to the end exactly where there is a solution
and no component depends on itself, and then what it has is the only one.
-/

namespace VerAI

namespace Loader

section

variable [Unicode] {T : Type} {loader : ComponentLoader T} {jsData : Dict Item} {g g' : Globals T}

/-- **A solution of the file**: each of its components is there and is built
from what is there. -/
structure Solves (loader : ComponentLoader T) (jsData : Dict Item) (g : Globals T) : Prop where
  settled : Settled loader jsData g
  all : ∀ name, name ∈ g.createdComponentsOutputs ↔ name ∈ jsData

/-- A run that gets to the end has solved the file. -/
theorem solves_of_finished (hrefs : ImportantRefs jsData) {fuel : ℕ}
    (h : createComponents loader jsData fuel = some (.ok g)) : Solves loader jsData g := by
  obtain ⟨s, hs, hnil, rfl⟩ := exists_finished h
  exact ⟨hs.settled hrefs, mem_created_of_finished hs hnil⟩

/-- **There is no other solution** of a file that a run has solved. -/
theorem Solves.unique (hrefs : ImportantRefs jsData) {fuel : ℕ}
    (h : createComponents loader jsData fuel = some (.ok g)) (hg' : Solves loader jsData g') :
    SameResult g g' := by
  obtain ⟨s, hs, hnil, rfl⟩ := exists_finished h
  obtain ⟨-, hagrees⟩ := hs.agrees hrefs hg'.settled fun name => (hg'.all name).mpr
  refine .of_row fun name => ?_
  by_cases hname : name ∈ jsData
  · exact hagrees.created name ((mem_created_of_finished hs hnil name).mpr hname)
  · rw [hagrees.fresh name (mt (mem_created_of_finished hs hnil name).mp hname),
      hg'.settled.fresh name (mt (hg'.all name).mp hname)]

/-- Components that go round in a circle wait for one another. -/
theorem wellFounded_of_finished {fuel : ℕ}
    (h : createComponents loader jsData fuel = some (.ok g)) :
    WellFounded fun obj name => DependsOn jsData name obj := by
  rw [WellFounded.wellFounded_iff_has_min]
  intro K hK
  by_contra hnone
  -- a set without a least component is one whose components wait for one another
  have hwait : WaitingSet jsData K := by
    refine ⟨hK, fun name hname => ?_⟩
    by_contra hnot
    refine hnone ⟨name, hname, fun obj hobj hdep => hnot ?_⟩
    obtain ⟨jsonItem, hl, var, hn⟩ := hdep
    exact ⟨jsonItem, hl, obj, var, hn, .inr hobj⟩
  obtain ⟨e, he⟩ := raises_of_waitingSet hwait h
  cases he

/-- Where there is a solution and no circle, none waits for ever. -/
theorem Solves.not_waitingSet (hg : Solves loader jsData g)
    (hwf : WellFounded fun obj name => DependsOn jsData name obj) (K : Set String) :
    ¬ WaitingSet jsData K := by
  intro hK
  obtain ⟨name, hname, hmin⟩ := hwf.has_min K hK.nonempty
  obtain ⟨jsonItem, hl, obj, var, hn, hobj⟩ := hK.waits name hname
  have hfile : name ∈ jsData := AList.lookup_isSome.mp (by simp [hl])
  obtain ⟨jsonItem', r, hl', hrec, -⟩ := hg.settled.created name ((hg.all name).mpr hfile)
  obtain rfl : jsonItem = jsonItem' := Option.some.inj (hl.symm.trans hl')
  rcases hobj with hobj | hobj
  · exact hobj ((hg.all obj).mp (hrec obj var hn).mem)
  · exact hmin obj hobj ⟨jsonItem, hl, var, hn⟩

theorem Solves.finishes (hrefs : ImportantRefs jsData) (hg : Solves loader jsData g)
    (hwf : WellFounded fun obj name => DependsOn jsData name obj) :
    ∃ fuel g, createComponents loader jsData fuel = some (.ok g) := by
  obtain ⟨fuel, hfuel⟩ : Returns loader jsData := returns_of_not_allPostponed fun s hs hp =>
    hg.not_waitingSet hwf _ (waitingSet_of_allPostponed hs hp)
  obtain ⟨r, hr⟩ := Option.ne_none_iff_exists'.mp hfuel
  obtain ⟨s, hs, ⟨-, rfl⟩ | ⟨hne, e, he, -⟩⟩ := loop_eq_some_iff.mp ⟨fuel, hr⟩
  · exact ⟨fuel, s.globals, hr⟩
  · -- what the solution has built can be built here
    have hfull := fun name => (hg.all name).mpr
    obtain ⟨hw, hagrees⟩ := hs.agrees hrefs hg.settled hfull
    obtain ⟨s', hs'⟩ := hagrees.iteration_returns hg.settled hrefs hfull hw
      (index_lt_of_iterates hs hne)
    rw [he] at hs'
    cases hs'

/-- **`create_components` computes what the file means.** It gets to the end
exactly where the file has a solution and no component depends on itself, and
what it ends with is the one solution. -/
theorem createComponents_solves (loader : ComponentLoader T) (hrefs : ImportantRefs jsData) :
    ((∃ fuel g, createComponents loader jsData fuel = some (.ok g)) ↔
      (WellFounded fun obj name => DependsOn jsData name obj) ∧ ∃ g, Solves loader jsData g) ∧
    ∀ fuel g, createComponents loader jsData fuel = some (.ok g) →
      Solves loader jsData g ∧ ∀ g', Solves loader jsData g' → SameResult g g' := by
  refine ⟨⟨?_, ?_⟩, fun fuel g h => ⟨solves_of_finished hrefs h, fun g' => Solves.unique hrefs h⟩⟩
  · rintro ⟨fuel, g, h⟩
    exact ⟨wellFounded_of_finished h, g, solves_of_finished hrefs h⟩
  · rintro ⟨hwf, g, hg⟩
    exact hg.finishes hrefs hwf

end

attribute [local instance] latin1

/-- The file of two components. -/
theorem chainFile_solves :
    ((∃ fuel g, createComponents [addModule] chainFile fuel = some (.ok g)) ↔
      (WellFounded fun obj name => DependsOn chainFile name obj) ∧
        ∃ g, Solves [addModule] chainFile g) ∧
    ∀ fuel g, createComponents [addModule] chainFile fuel = some (.ok g) →
      Solves [addModule] chainFile g ∧ ∀ g', Solves [addModule] chainFile g' → SameResult g g' :=
  createComponents_solves [addModule] chainFile_importantRefs

end Loader

end VerAI
