import Media2.Graph
import Media2.Muxer.Closing
import Media2.Muxer.Subscription

/-!
# What the calls that build a graph do

Each call is followed from a graph in which every block has one owner. It does not fail there,
it leaves every block with one owner, and it changes only the objects that it is about.
-/

namespace Media2.Graph

open Execution Blocks

def Object.parameters : Object → Multiset Nat
  | .stream s => Multiset.ofList (s.data.bind Data.parameters).toList
  | .decoder source => {source.parameters}
  | _ => 0

def Object.contexts : Object → Multiset Nat
  | .stream s => Multiset.ofList (s.data.bind Data.context).toList
  | _ => 0

def Object.avStreams : Object → Multiset Nat
  | .reader addresses => Multiset.ofList addresses
  | _ => 0

/-- Every block has one owner, but for the parameters that were lost. -/
structure Owned (lost : Multiset Nat) (g : Graph) : Prop where
  parameters : g.parameters.Accounted (held Object.parameters g.objects) lost
  contexts : g.contexts.Accounted (held Object.contexts g.objects) 0
  avStreams : g.avStreams.Accounted (held Object.avStreams g.objects) 0

/-- What an object owns has not changed. -/
structure SameBlocks (g g' : Graph) (object : Object) : Prop where
  parameters : ∀ q ∈ object.parameters, g'.parameters.get q = g.parameters.get q
  contexts : ∀ q ∈ object.contexts, g'.contexts.get q = g.contexts.get q
  avStreams : ∀ q ∈ object.avStreams, g'.avStreams.get q = g.avStreams.get q

/-- All objects but those at the given places are as they were, with all that they own, and what
belonged to a container that was closed does not come back. -/
structure Spares (places : Nat → Prop) (g g' : Graph) : Prop where
  objects : ∀ i object, ¬ places i → g.objects[i]? = some object →
    g'.objects[i]? = some object ∧ SameBlocks g g' object
  later : Later g.avStreams g'.avStreams

section Frames

variable {g g' g'' : Graph} {places places' : Nat → Prop} {object : Object}

theorem SameBlocks.refl (g : Graph) (object : Object) : SameBlocks g g object :=
  ⟨fun _ _ => rfl, fun _ _ => rfl, fun _ _ => rfl⟩

theorem SameBlocks.trans (h : SameBlocks g g' object) (h' : SameBlocks g' g'' object) :
    SameBlocks g g'' object where
  parameters q hq := (h'.parameters q hq).trans (h.parameters q hq)
  contexts q hq := (h'.contexts q hq).trans (h.contexts q hq)
  avStreams q hq := (h'.avStreams q hq).trans (h.avStreams q hq)

theorem Spares.refl (places : Nat → Prop) (g : Graph) : Spares places g g :=
  ⟨fun _ object _ h => ⟨h, SameBlocks.refl g object⟩, Later.refl _⟩

theorem Spares.trans (h : Spares places g g') (h' : Spares places g' g'') :
    Spares places g g'' := by
  refine ⟨?_, h.later.trans h'.later⟩
  intro i object hi hobject
  obtain ⟨hkept, hsame⟩ := h.objects i object hi hobject
  obtain ⟨hkept', hsame'⟩ := h'.objects i object hi hkept
  exact ⟨hkept', hsame.trans hsame'⟩

theorem Spares.mono (h : Spares places g g') (hle : ∀ i, places i → places' i) :
    Spares places' g g' :=
  ⟨fun i object hi => h.objects i object fun hplace => hi (hle i hplace), h.later⟩

/-- Who changes only the blocks of the objects at the given places spares the others. -/
theorem Owned.spares_of {lost : Multiset Nat} (h : Owned lost g)
    (hobjects : ∀ i object, ¬ places i → g.objects[i]? = some object →
      g'.objects[i]? = some object)
    (hparameters : ∀ q, (g.parameters.get q).isSome = true →
      (∀ i object, places i → g.objects[i]? = some object → q ∉ object.parameters) →
      g'.parameters.get q = g.parameters.get q)
    (hcontexts : ∀ q, (g.contexts.get q).isSome = true →
      (∀ i object, places i → g.objects[i]? = some object → q ∉ object.contexts) →
      g'.contexts.get q = g.contexts.get q)
    (havStreams : ∀ q, (g.avStreams.get q).isSome = true →
      (∀ i object, places i → g.objects[i]? = some object → q ∉ object.avStreams) →
      g'.avStreams.get q = g.avStreams.get q)
    (hlater : Later g.avStreams g'.avStreams) : Spares places g g' := by
  refine ⟨?_, hlater⟩
  intro i object hi hobject
  have hmem := List.mem_of_getElem? hobject
  refine ⟨hobjects i object hi hobject, ?_, ?_, ?_⟩
  · intro q hq
    apply hparameters q (h.parameters.isSome (Multiset.mem_of_le (held_le _ hmem) hq))
    intro j other hj hother hq'
    exact hi (h.parameters.owner_unique _ hobject hother hq hq' ▸ hj)
  · intro q hq
    apply hcontexts q (h.contexts.isSome (Multiset.mem_of_le (held_le _ hmem) hq))
    intro j other hj hother hq'
    exact hi (h.contexts.owner_unique _ hobject hother hq hq' ▸ hj)
  · intro q hq
    apply havStreams q (h.avStreams.isSome (Multiset.mem_of_le (held_le _ hmem) hq))
    intro j other hj hother hq'
    exact hi (h.avStreams.owner_unique _ hobject hother hq hq' ▸ hj)

/-- Most calls have nothing to do with the streams of containers. -/
theorem Owned.spares {lost : Multiset Nat} (h : Owned lost g)
    (hobjects : ∀ i object, ¬ places i → g.objects[i]? = some object →
      g'.objects[i]? = some object)
    (hparameters : ∀ q, (g.parameters.get q).isSome = true →
      (∀ i object, places i → g.objects[i]? = some object → q ∉ object.parameters) →
      g'.parameters.get q = g.parameters.get q)
    (hcontexts : ∀ q, (g.contexts.get q).isSome = true →
      (∀ i object, places i → g.objects[i]? = some object → q ∉ object.contexts) →
      g'.contexts.get q = g.contexts.get q)
    (havStreams : g'.avStreams = g.avStreams) : Spares places g g' := by
  apply h.spares_of hobjects hparameters hcontexts
  · intro q _ _
    rw [havStreams]
  · rw [havStreams]
    exact Later.refl _

end Frames

section Streams

variable {g : Graph} {lost : Multiset Nat}

/-- Data that own what they point to can be destroyed. -/
theorem destroyData_ok {data : Data} {parameters contexts : Multiset Nat}
    (hparameters : g.parameters.Accounted
      (Multiset.ofList data.parameters.toList + parameters) lost)
    (hcontexts : g.contexts.Accounted (Multiset.ofList data.context.toList + contexts) 0) :
    ∃ g', g.destroyData data = .ok g' ∧ g'.objects = g.objects ∧ g'.avStreams = g.avStreams ∧
      g'.parameters.Accounted parameters lost ∧ g'.contexts.Accounted contexts 0 ∧
      (∀ q ∉ data.parameters, g'.parameters.get q = g.parameters.get q) ∧
      ∀ q ∉ data.context, g'.contexts.get q = g.contexts.get q := by
  obtain ⟨ps, hps, hpacc, hpothers⟩ := hparameters.freeIfSet
  obtain ⟨cs, hcs, hcacc, hcothers⟩ := hcontexts.freeIfSet
  refine ⟨{ g with parameters := ps, contexts := cs }, ?_, rfl, rfl, hpacc, hcacc, hpothers,
    hcothers⟩
  rw [destroyData, hps]
  dsimp only [bind, Except.bind]
  rw [hcs]
  rfl

/-- An object may change as long as it owns the same. -/
theorem Owned.put (h : Owned lost g) {i : Nat} {x y : Object} (hat : g.objects[i]? = some x)
    (hparameters : y.parameters = x.parameters) (hcontexts : y.contexts = x.contexts)
    (havStreams : y.avStreams = x.avStreams) : Owned lost (g.put i y) where
  parameters := h.parameters.set _ hat hparameters
  contexts := h.contexts.set _ hat hcontexts
  avStreams := h.avStreams.set _ hat havStreams

theorem put_getElem? (g : Graph) (i : Nat) (y : Object) {j : Nat} (hj : j ≠ i) :
    (g.put i y).objects[j]? = g.objects[j]? :=
  List.getElem?_set_ne (Ne.symm hj)

theorem put_spares (g : Graph) (i : Nat) (y : Object) : Spares (· = i) g (g.put i y) := by
  refine ⟨?_, Later.refl _⟩
  intro j object hj hobject
  exact ⟨(put_getElem? g i y hj).trans hobject, fun _ _ => rfl, fun _ _ => rfl, fun _ _ => rfl⟩

/-- What becomes of a stream that is settled. -/
def settled (s : StreamObject) : Object :=
  if s.keeper = none ∧ s.held = false then .gone else .stream s

theorem settle_ok (h : Owned lost g) {i : Nat} {s s' : StreamObject}
    (hat : g.objects[i]? = some (.stream s)) (hdata : s'.data = s.data) :
    ∃ g', g.settle i s' = .ok g' ∧ Owned lost g' ∧ Spares (· = i) g g' ∧
      g'.objects = g.objects.set i (settled s') ∧
      (settled s' = .gone ∨ SameBlocks g g' (.stream s)) := by
  unfold settle settled
  split
  · cases hs : s'.data with
    | none =>
        have hsame : (Object.stream s).parameters = 0 ∧ (Object.stream s).contexts = 0 := by
          rw [Object.parameters, Object.contexts, ← hdata, hs]
          exact ⟨rfl, rfl⟩
        exact ⟨_, rfl, h.put hat hsame.1.symm hsame.2.symm rfl, put_spares g i _, rfl,
          Or.inl rfl⟩
    | some data =>
        rw [hs] at hdata
        obtain ⟨ps, hps, hpset, -⟩ := held_split Object.parameters hat
        obtain ⟨cs, hcs, hcset, -⟩ := held_split Object.contexts hat
        obtain ⟨as, has, haset, -⟩ := held_split Object.avStreams hat
        have hparameters := h.parameters
        have hcontexts := h.contexts
        have havStreams := h.avStreams
        rw [hps, Object.parameters, ← hdata] at hparameters
        rw [hcs, Object.contexts, ← hdata] at hcontexts
        obtain ⟨g', hdestroy, hobjects, hav, hpacc, hcacc, hpothers, hcothers⟩ :=
          destroyData_ok (g := g.put i .gone) hparameters hcontexts
        refine ⟨g', hdestroy, ⟨?_, ?_, ?_⟩, h.spares ?_ ?_ ?_ ?_, hobjects, Or.inl rfl⟩
        · rw [hobjects]
          change g'.parameters.Accounted (held _ (g.objects.set i .gone)) lost
          rw [hpset]
          exact (zero_add ps).symm ▸ hpacc
        · rw [hobjects]
          change g'.contexts.Accounted (held _ (g.objects.set i .gone)) 0
          rw [hcset]
          exact (zero_add cs).symm ▸ hcacc
        · rw [hobjects, hav]
          change g.avStreams.Accounted (held _ (g.objects.set i .gone)) 0
          rw [haset]
          rw [has] at havStreams
          exact havStreams
        · intro j object hj hobject
          rw [hobjects]
          exact (put_getElem? g i _ hj).trans hobject
        · intro q _ hq
          apply hpothers q
          intro hmem
          apply hq i _ rfl hat
          rw [Object.parameters, ← hdata]
          exact Multiset.mem_coe.mpr (Option.mem_toList.mpr hmem)
        · intro q _ hq
          apply hcothers q
          intro hmem
          apply hq i _ rfl hat
          rw [Object.contexts, ← hdata]
          exact Multiset.mem_coe.mpr (Option.mem_toList.mpr hmem)
        · exact hav
  · have hsame : (Object.stream s').parameters = (Object.stream s).parameters ∧
        (Object.stream s').contexts = (Object.stream s).contexts := by
      rw [Object.parameters, Object.contexts, hdata]
      exact ⟨rfl, rfl⟩
    exact ⟨_, rfl, h.put hat hsame.1 hsame.2 rfl, put_spares g i _, rfl,
      Or.inr ⟨fun _ _ => rfl, fun _ _ => rfl, fun _ _ => rfl⟩⟩

theorem settled_cases (s : StreamObject) : settled s = .gone ∨ settled s = .stream s := by
  unfold settled
  split
  · exact Or.inl rfl
  · exact Or.inr rfl

theorem streamAt_ok {i : Nat} {s : StreamObject} (hat : g.objects[i]? = some (.stream s)) :
    g.streamAt i = .ok s := by
  rw [streamAt, hat]

theorem unkeep_ok (h : Owned lost g) {i : Nat} {s : StreamObject}
    (hat : g.objects[i]? = some (.stream s)) :
    ∃ g', g.unkeep i = .ok g' ∧ Owned lost g' ∧ Spares (· = i) g g' ∧
      g'.objects = g.objects.set i (settled { s with keeper := none }) ∧
      (settled { s with keeper := none } = .gone ∨ SameBlocks g g' (.stream s)) := by
  obtain ⟨g', hsettle, hrest⟩ := @settle_ok g lost h i s { s with keeper := none } hat rfl
  refine ⟨g', ?_, hrest⟩
  rw [unkeep, streamAt_ok hat]
  exact hsettle

theorem mem_kept {i keeper : Nat} :
    i ∈ g.kept keeper ↔ ∃ s, g.objects[i]? = some (.stream s) ∧ s.keeper = some keeper := by
  unfold kept
  rw [List.mem_filter, List.mem_range]
  constructor
  · rintro ⟨-, hi⟩
    split at hi
    · rename_i s hs
      exact ⟨s, hs, of_decide_eq_true hi⟩
    · cases hi
  · rintro ⟨s, hs, hkeeper⟩
    refine ⟨(List.getElem?_eq_some_iff.mp hs).1, ?_⟩
    rw [hs]
    exact decide_eq_true hkeeper

theorem nodup_kept (g : Graph) (keeper : Nat) : (g.kept keeper).Nodup :=
  List.nodup_range.filter _

/-- The streams of a list are let go one after the other. -/
theorem unkeepAll_ok (h : Owned lost g) {streams : List Nat} (hnodup : streams.Nodup)
    (hstreams : ∀ i ∈ streams, ∃ s, g.objects[i]? = some (.stream s)) :
    ∃ g', streams.foldlM unkeep g = .ok g' ∧ Owned lost g' ∧ Spares (· ∈ streams) g g' ∧
      g'.objects.length = g.objects.length ∧
      ∀ i ∈ streams, ∀ s, g.objects[i]? = some (.stream s) →
        g'.objects[i]? = some (settled { s with keeper := none }) ∧
        (settled { s with keeper := none } = .gone ∨ SameBlocks g g' (.stream s)) := by
  induction streams generalizing g with
  | nil => exact ⟨g, rfl, h, Spares.refl _ g, rfl, by simp⟩
  | cons i streams ih =>
      obtain ⟨hi, hnodup⟩ := List.nodup_cons.mp hnodup
      obtain ⟨s, hs⟩ := hstreams i (List.mem_cons_self ..)
      obtain ⟨g₁, hunkeep, howned, hspares, hobjects, hblocks⟩ := unkeep_ok h hs
      have hrest : ∀ j ∈ streams, g₁.objects[j]? = g.objects[j]? := by
        intro j hj
        have hne : i ≠ j := fun heq => hi (heq ▸ hj)
        rw [hobjects, List.getElem?_set_ne hne]
      obtain ⟨g₂, hfold, howned₂, hspares₂, hlength, hsettled⟩ := ih howned hnodup (by
        intro j hj
        rw [hrest j hj]
        exact hstreams j (List.mem_cons_of_mem i hj))
      refine ⟨g₂, ?_, howned₂, ?_, ?_, ?_⟩
      · rw [List.foldlM_cons, hunkeep]
        exact hfold
      · exact (hspares.mono fun j hj => hj ▸ List.mem_cons_self ..).trans
          (hspares₂.mono fun j => List.mem_cons_of_mem i)
      · rw [hlength, hobjects, List.length_set]
      · intro j hj s' hs'
        cases List.mem_cons.mp hj with
        | inl heq =>
            subst heq
            obtain rfl : s = s' := by
              rw [hs] at hs'
              exact Object.stream.inj (Option.some.inj hs')
            have hlt := (List.getElem?_eq_some_iff.mp hs).1
            have hset : g₁.objects[j]? = some (settled { s with keeper := none }) := by
              rw [hobjects, List.getElem?_set_self hlt]
            obtain ⟨hkept, hsame⟩ := hspares₂.objects j _ hi hset
            refine ⟨hkept, ?_⟩
            rcases settled_cases { s with keeper := none } with hgone | hstays
            · exact Or.inl hgone
            · rw [hstays] at hsame
              have hsame' : SameBlocks g₁ g₂ (.stream s) :=
                ⟨hsame.parameters, hsame.contexts, hsame.avStreams⟩
              exact hblocks.imp_right fun hfirst => hfirst.trans hsame'
        | inr hmem =>
            obtain ⟨hkept, hlast⟩ := hsettled j hmem s' (by rw [hrest j hmem, hs'])
            have hne : j ≠ i := fun heq => hi (heq ▸ hmem)
            have hfirst := (hspares.objects j _ hne hs').2
            exact ⟨hkept, hlast.imp_right fun hlast => hfirst.trans hlast⟩

theorem closeReader_ok (h : Owned lost g) {r : Nat} {addresses : List Nat}
    (hat : g.objects[r]? = some (.reader addresses)) :
    ∃ g', g.closeReader r addresses = .ok g' ∧ Owned lost g' ∧
      Spares (fun i => i = r ∨ i ∈ g.kept r) g g' ∧
      g'.objects.length = g.objects.length ∧ g'.objects[r]? = some (.reader []) ∧
      (∀ a ∈ addresses, g'.avStreams.Freed a) ∧
      ∀ i ∈ g.kept r, ∀ s, g.objects[i]? = some (.stream s) →
        g'.objects[i]? = some (settled { s with keeper := none }) ∧
        (settled { s with keeper := none } = .gone ∨ SameBlocks g g' (.stream s)) := by
  obtain ⟨others, hheld, hset, -⟩ := held_split Object.avStreams hat
  have havStreams := h.avStreams
  rw [hheld, Object.avStreams] at havStreams
  obtain ⟨as, hfree, hacc, hothers⟩ := havStreams.freeAll
  let closed := { g with avStreams := as }.put r (.reader [])
  have hclosed : Owned lost closed := by
    refine ⟨h.parameters.set _ hat rfl, h.contexts.set _ hat rfl, ?_⟩
    change as.Accounted (held _ (g.objects.set r (.reader []))) 0
    rw [hset]
    exact (zero_add others).symm ▸ hacc
  have hspares : Spares (fun i => i = r ∨ i ∈ g.kept r) g closed := by
    refine h.spares_of ?_ ?_ ?_ ?_ (later_freeAll hfree).1
    · intro j object hj hobject
      exact (put_getElem? _ r _ fun heq => hj (Or.inl heq)).trans hobject
    · intro q _ _
      rfl
    · intro q _ _
      rfl
    · intro q _ hq
      exact hothers q fun hmem => hq r _ (Or.inl rfl) hat hmem
  have hkept : ∀ i ∈ g.kept r, closed.objects[i]? = g.objects[i]? ∧ i ≠ r := by
    intro i hi
    obtain ⟨s, hs, -⟩ := mem_kept.mp hi
    have hne : i ≠ r := by
      rintro rfl
      rw [hat] at hs
      cases hs
    exact ⟨put_getElem? _ r _ hne, hne⟩
  have hstreams : ∀ i ∈ g.kept r, ∃ s, closed.objects[i]? = some (.stream s) := by
    intro i hi
    obtain ⟨s, hs, -⟩ := mem_kept.mp hi
    exact ⟨s, (hkept i hi).1.trans hs⟩
  obtain ⟨g', hfold, howned, hspares', hlength, hsettled⟩ :=
    unkeepAll_ok hclosed (nodup_kept g r) hstreams
  refine ⟨g', ?_, howned, hspares.trans (hspares'.mono fun i => Or.inr), ?_, ?_, ?_, ?_⟩
  · rw [closeReader, hfree]
    exact hfold
  · rw [hlength]
    exact List.length_set
  · have hlt := (List.getElem?_eq_some_iff.mp hat).1
    have hself : closed.objects[r]? = some (.reader []) := List.getElem?_set_self hlt
    exact (hspares'.objects r _ (fun hmem => (hkept r hmem).2 rfl) hself).1
  · exact fun a ha => hspares'.later a ((later_freeAll hfree).2 a ha)
  · intro i hi s hs
    obtain ⟨hstays, hblocks⟩ := hsettled i hi s ((hkept i hi).1.trans hs)
    refine ⟨hstays, hblocks.imp_right fun hlast => ?_⟩
    exact ⟨hlast.parameters, hlast.contexts, fun q hq => absurd hq (Multiset.notMem_zero q)⟩

end Streams

section Sources

variable {g : Graph} {lost : Multiset Nat}

/-- An object comes with blocks of its own. -/
theorem owned_add {object : Object}
    (hparameters : g.parameters.Accounted
      (object.parameters + held Object.parameters g.objects) lost)
    (hcontexts : g.contexts.Accounted (object.contexts + held Object.contexts g.objects) 0)
    (havStreams : g.avStreams.Accounted (object.avStreams + held Object.avStreams g.objects) 0) :
    Owned lost (g.add object) where
  parameters := (held_snoc _ g.objects object).symm ▸ hparameters
  contexts := (held_snoc _ g.objects object).symm ▸ hcontexts
  avStreams := (held_snoc _ g.objects object).symm ▸ havStreams

theorem add_getElem? {i : Nat} {object : Object} (h : g.objects[i]? = some object)
    (new : Object) : (g.add new).objects[i]? = some object :=
  (List.getElem?_append_left (List.getElem?_eq_some_iff.mp h).1).trans h

theorem add_spares (g : Graph) (new : Object) {places : Nat → Prop} :
    Spares places g (g.add new) :=
  ⟨fun _ _ _ hobject => ⟨add_getElem? hobject new, fun _ _ => rfl, fun _ _ => rfl, fun _ _ => rfl⟩,
    Later.refl _⟩

/-- Who only makes new blocks and new objects spares all. -/
theorem Owned.spares_all (h : Owned lost g) {g' : Graph} {new : List Object}
    (hobjects : g'.objects = g.objects ++ new)
    (hparameters : ∀ q, (g.parameters.get q).isSome = true →
      g'.parameters.get q = g.parameters.get q)
    (hcontexts : ∀ q, (g.contexts.get q).isSome = true → g'.contexts.get q = g.contexts.get q)
    (havStreams : g'.avStreams = g.avStreams) : Spares (fun _ => False) g g' := by
  apply h.spares
  · intro i object _ hobject
    have hlt := (List.getElem?_eq_some_iff.mp hobject).1
    rw [hobjects, List.getElem?_append_left hlt, hobject]
  · exact fun q hq _ => hparameters q hq
  · exact fun q hq _ => hcontexts q hq
  · exact havStreams

/-- Data that never came to belong to an object are destroyed without a trace. -/
theorem destroyNew_ok (h : Owned lost g) {ps : Blocks AVCodecParameters} {cs : Blocks Context}
    {data : Data}
    (hparameters : ps.Accounted
      (Multiset.ofList data.parameters.toList + held Object.parameters g.objects) lost)
    (hcontexts : cs.Accounted
      (Multiset.ofList data.context.toList + held Object.contexts g.objects) 0)
    (hpsame : ∀ q, (g.parameters.get q).isSome = true →
      q ∉ data.parameters ∧ ps.get q = g.parameters.get q)
    (hcsame : ∀ q, (g.contexts.get q).isSome = true →
      q ∉ data.context ∧ cs.get q = g.contexts.get q) :
    ∃ g', destroyData { g with parameters := ps, contexts := cs } data = .ok g' ∧ Owned lost g' ∧
      Spares (fun _ => False) g g' ∧ g'.avStreams = g.avStreams ∧ g'.objects = g.objects := by
  obtain ⟨g', hdestroy, hobjects, hav, hpacc, hcacc, hpothers, hcothers⟩ :=
    @destroyData_ok { g with parameters := ps, contexts := cs } lost data _ _ hparameters hcontexts
  refine ⟨g', hdestroy, ⟨?_, ?_, ?_⟩,
    h.spares_all (hobjects.trans (List.append_nil g.objects).symm) ?_ ?_ ?_, hav, hobjects⟩
  · rw [hobjects]
    exact hpacc
  · rw [hobjects]
    exact hcacc
  · rw [hobjects, hav]
    exact h.avStreams
  · intro q hq
    rw [hpothers q (hpsame q hq).1]
    exact (hpsame q hq).2
  · intro q hq
    rw [hcothers q (hcsame q hq).1]
    exact (hcsame q hq).2
  · exact hav

/-- The data of a stream that was set up show what the value model says. -/
theorem viewData_opened {filename : String} {address p c : Nat} {av : AVStream} {codec : AVCodec}
    (hav : g.avStreams.get address = some av) (hp : g.parameters.get p = some av.codecpar)
    (hc : g.contexts.get c =
      some (.decoding { PacketReader.newContext av codec with opened := true })) :
    g.viewData { newData filename address av p (some codec) with
        mediaType := codec.type
        context := some c } =
      { PacketReader.newData filename av with
        codec := some codec
        mediaType := codec.type
        context := some { PacketReader.newContext av codec with opened := true } } := by
  simp only [viewData, newData, Option.bind_some, hav, hp, hc, PacketReader.newData,
    Context.decoder]

/-- A turn of the loop makes what the value model says, and no other change. -/
theorem setupStream_ok (h : Owned lost g) (libav : Nat → Libav) (filename : String)
    (reader : Nat) {address : Nat} {av : AVStream} (hav : g.avStreams.get address = some av) :
    ∃ g', setupStream libav filename reader g address = .ok g' ∧ Owned lost g' ∧
      Spares (fun _ => False) g g' ∧ g'.avStreams = g.avStreams ∧
      ∃ new : Option (Option Data),
        g'.objects = g.objects ++ new.toList.map (fun data => .stream ⟨data, some reader, false⟩) ∧
        new.map (fun data => data.map g'.viewData) =
          (PacketReader.entry libav filename av).map Stream.data ∧
        ∀ data, new = some (some data) → data.stream = some address := by
  have hread : g.avStreams.read address = .ok av := read_eq_ok.mpr hav
  obtain ⟨ps, hps, hpacc, hpself, hpothers⟩ :=
    h.parameters.allocWrite AVCodecParameters.blank av.codecpar
  have hpnew : ps.Accounted (Multiset.ofList [(g.parameters.alloc AVCodecParameters.blank).1] +
      held Object.parameters g.objects) lost := by
    simpa using hpacc
  have hpsame : ∀ q, (g.parameters.get q).isSome = true →
      q ∉ some (g.parameters.alloc AVCodecParameters.blank).1 ∧
        ps.get q = g.parameters.get q := by
    intro q hq
    refine ⟨?_, hpothers q hq⟩
    intro hmem
    exact (alloc_same hq).1 (Option.mem_some.mp hmem).symm
  have hcsame : ∀ q, (g.contexts.get q).isSome = true →
      q ∉ (none : Option Nat) ∧ g.contexts.get q = g.contexts.get q := by
    intro q _
    exact ⟨Option.not_mem_none q, rfl⟩
  have hcold : g.contexts.Accounted (Multiset.ofList [] + held Object.contexts g.objects) 0 := by
    simpa using h.contexts
  unfold setupStream PacketReader.entry
  simp only [bind, Except.bind, hread, hps]
  cases hcodec : (libav av.index).findDecoder av.codecpar.codecId with
  | none =>
      obtain ⟨g', hdestroy, howned, hspares, hav', hobjects⟩ :=
        @destroyNew_ok g lost h ps g.contexts (newData filename address av _ none) hpnew hcold
          hpsame hcsame
      exact ⟨g', hdestroy, howned, hspares, hav', none, by simpa using hobjects, rfl, by simp⟩
  | some codec =>
      dsimp only
      split
      · obtain ⟨cs, hcs, hcacc, hcself, hcothers⟩ := h.contexts.allocWrite
          (.decoding ⟨codec, none, ⟨0, 1⟩, false⟩) (.decoding (PacketReader.newContext av codec))
        rw [hcs]
        dsimp only
        have hcsame' : ∀ q, (g.contexts.get q).isSome = true → q ∉ some
            (g.contexts.alloc (.decoding ⟨codec, none, ⟨0, 1⟩, false⟩)).1 ∧
              cs.get q = g.contexts.get q := by
          intro q hq
          refine ⟨?_, hcothers q hq⟩
          intro hmem
          exact (alloc_same hq).1 (Option.mem_some.mp hmem).symm
        split
        · obtain ⟨cs', hopen, hcacc', hcself', hcothers'⟩ :=
            hcacc.write (Multiset.mem_cons_self ..)
              (.decoding { PacketReader.newContext av codec with opened := true })
          rw [hopen]
          have hcnew : ∀ q, (g.contexts.get q).isSome = true → cs'.get q = g.contexts.get q := by
            intro q hq
            rw [hcothers' q (alloc_same hq).1, hcothers q hq]
          refine ⟨_, rfl, owned_add ?_ ?_ ?_, h.spares_all rfl hpothers hcnew rfl, rfl,
            some (some _), rfl, ?_, ?_⟩
          · exact hpnew
          · simpa [Object.contexts] using hcacc'
          · simpa [Object.avStreams] using h.avStreams
          · exact congrArg (fun data => some (some data)) (@viewData_opened
              { g with parameters := ps, contexts := cs' } filename address _ _ av codec hav
              hpself hcself')
          · rintro data hdata
            rw [← Option.some.inj (Option.some.inj hdata)]
            rfl
        · obtain ⟨g', hdestroy, howned, hspares, hav', hobjects⟩ :=
            @destroyNew_ok g lost h ps cs { newData filename address av
              (g.parameters.alloc AVCodecParameters.blank).1 (some codec) with
                mediaType := codec.type
                context := some (g.contexts.alloc (.decoding ⟨codec, none, ⟨0, 1⟩, false⟩)).1 }
              hpnew (by simpa [newData] using hcacc) hpsame hcsame'
          rw [hdestroy]
          refine ⟨_, rfl, owned_add ?_ ?_ ?_, ?_, hav', some none, ?_, rfl, by simp⟩
          · simpa [Object.parameters] using howned.parameters
          · simpa [Object.contexts] using howned.contexts
          · simpa [Object.avStreams] using howned.avStreams
          · exact hspares.trans (add_spares g' _)
          · rw [← hobjects]
            rfl
      · obtain ⟨g', hdestroy, howned, hspares, hav', hobjects⟩ :=
          @destroyNew_ok g lost h ps g.contexts { newData filename address av _ (some codec) with
            mediaType := codec.type } hpnew hcold hpsame hcsame
        exact ⟨g', hdestroy, howned, hspares, hav', none, by simpa using hobjects, rfl, by simp⟩

/-- What data say depends on the blocks that they point to. -/
theorem viewData_same {g' : Graph} {s : StreamObject} {data : Data}
    (h : SameBlocks g g' (.stream s)) (hdata : s.data = some data)
    (hav : ∀ q ∈ data.stream, g'.avStreams.get q = g.avStreams.get q) :
    g'.viewData data = g.viewData data := by
  have hparameters : data.parameters.bind g'.parameters.get =
      data.parameters.bind g.parameters.get := by
    cases hp : data.parameters with
    | none => rfl
    | some p => exact h.parameters p (by simp [Object.parameters, hdata, hp])
  have hcontext : data.context.bind g'.contexts.get = data.context.bind g.contexts.get := by
    cases hc : data.context with
    | none => rfl
    | some c => exact h.contexts c (by simp [Object.contexts, hdata, hc])
  have hstream : data.stream.bind g'.avStreams.get = data.stream.bind g.avStreams.get := by
    cases hs : data.stream with
    | none => rfl
    | some q => exact hav q hs
  simp only [viewData, hparameters, hcontext, hstream]

theorem allocStreams_ok {b : Blocks AVStream} {owned : Multiset Nat} (h : b.Accounted owned 0)
    (avs : List AVStream) :
    (allocStreams avs b).2.Accounted (Multiset.ofList (allocStreams avs b).1 + owned) 0 ∧
      (∀ q, (b.get q).isSome = true → (allocStreams avs b).2.get q = b.get q) ∧
      (allocStreams avs b).1.map (allocStreams avs b).2.get = avs.map some ∧
      Later b (allocStreams avs b).2 := by
  induction avs generalizing b owned with
  | nil => exact ⟨by simpa [allocStreams] using h, fun _ _ => rfl, rfl, Later.refl b⟩
  | cons av avs ih =>
      obtain ⟨hacc, hsame, hget, hlater⟩ := ih (h.alloc av)
      have hself : (b.alloc av).2.get (b.alloc av).1 = some av := by
        rw [get_alloc, if_pos rfl]
      refine ⟨?_, ?_, ?_, (later_alloc b av).trans hlater⟩
      · rw [Multiset.add_cons, ← Multiset.cons_add] at hacc
        exact hacc
      · intro q hq
        have hold := (alloc_same (a := av) hq).2
        rw [← hold]
        exact hsame q (by rw [hold, hq])
      · have hfirst := hsame (b.alloc av).1 (by rw [hself]; rfl)
        rw [hself] at hfirst
        exact congrArg₂ List.cons hfirst hget

/-- The loop makes what the value model says. -/
theorem setupStreams_ok (h : Owned lost g) (libav : Nat → Libav) (filename : String)
    (reader : Nat) {addresses : List Nat} {avs : List AVStream}
    (hget : addresses.map g.avStreams.get = avs.map some) :
    ∃ g', addresses.foldlM (setupStream libav filename reader) g = .ok g' ∧ Owned lost g' ∧
      Spares (fun _ => False) g g' ∧ g'.avStreams = g.avStreams ∧
      ∃ new : List (Option Data),
        g'.objects = g.objects ++ new.map (fun data => .stream ⟨data, some reader, false⟩) ∧
        new.map (fun data => data.map g'.viewData) =
          (avs.filterMap (PacketReader.entry libav filename)).map Stream.data ∧
        ∀ data, some data ∈ new → ∃ address ∈ addresses, data.stream = some address := by
  induction addresses generalizing g avs with
  | nil =>
      obtain rfl : avs = [] := by simpa using hget.symm
      exact ⟨g, rfl, h, Spares.refl _ g, rfl, [], by simp, rfl, by simp⟩
  | cons address addresses ih =>
      cases avs with
      | nil => simp at hget
      | cons av avs =>
          obtain ⟨hfirst, hrest⟩ := List.cons.inj hget
          obtain ⟨g₁, hsetup, howned₁, hspares₁, hav₁, new₁, hobjects₁, hview₁, hnew₁⟩ :=
            setupStream_ok h libav filename reader hfirst
          obtain ⟨g₂, hfold, howned₂, hspares₂, hav₂, new₂, hobjects₂, hview₂, hnew₂⟩ :=
            ih howned₁ (by rw [hav₁]; exact hrest)
          refine ⟨g₂, ?_, howned₂, hspares₁.trans hspares₂, hav₂.trans hav₁,
            new₁.toList ++ new₂, ?_, ?_, ?_⟩
          · rw [List.foldlM_cons, hsetup]
            exact hfold
          · rw [hobjects₂, hobjects₁, List.map_append, List.append_assoc]
          · have hsame : new₁.map (fun data => data.map g₂.viewData) =
                (PacketReader.entry libav filename av).map Stream.data := by
              rw [← hview₁]
              match new₁, hobjects₁ with
              | none, _ => rfl
              | some none, _ => rfl
              | some (some data), hobjects₁ =>
                  have hat : g₁.objects[g.objects.length]? =
                      some (.stream ⟨some data, some reader, false⟩) := by
                    rw [hobjects₁]
                    simp
                  have hblocks := (hspares₂.objects _ _ not_false hat).2
                  have hview := viewData_same hblocks rfl fun q _ => by rw [hav₂]
                  exact congrArg (fun data => some (some data)) hview
            rw [List.map_append, hview₂, List.filterMap_cons]
            cases hentry : PacketReader.entry libav filename av with
            | none =>
                rw [hentry] at hsame
                obtain rfl : new₁ = none := Option.map_eq_none_iff.mp hsame
                rfl
            | some stream =>
                rw [hentry] at hsame
                obtain ⟨data, rfl, hdata⟩ := Option.map_eq_some_iff.mp hsame
                exact congrArg (· :: _) hdata
          · intro data hdata
            rcases List.mem_append.mp hdata with hfirst | hlater
            · exact ⟨address, List.mem_cons_self .., hnew₁ data (Option.mem_toList.mp hfirst)⟩
            · obtain ⟨other, hmem, hstream⟩ := hnew₂ data hlater
              exact ⟨other, List.mem_cons_of_mem address hmem, hstream⟩

/-- A reader that is opened comes with the streams that the value model says. -/
theorem openReader_ok (h : Owned lost g) (libav : Nat → Libav) (filename : String)
    (formatContext : FormatContext) :
    ∃ g', g.openReader libav filename formatContext = .ok g' ∧ Owned lost g' ∧
      Spares (fun _ => False) g g' ∧
      ∃ (addresses : List Nat) (new : List (Option Data)),
        g'.objects = g.objects ++ .reader addresses ::
          new.map (fun data => .stream ⟨data, some g.objects.length, false⟩) ∧
        addresses.map g'.avStreams.get = formatContext.streams.map some ∧
        new.map (fun data => data.map g'.viewData) =
          (PacketReader.setupStreams libav filename true formatContext
            StreamTables.empty).tables.streams.map Stream.data ∧
        ∀ data, some data ∈ new → ∃ address ∈ addresses, data.stream = some address := by
  obtain ⟨hacc, hsame, hget, hlater⟩ := allocStreams_ok h.avStreams formatContext.streams
  let opened : Graph := { g with
    avStreams := (allocStreams formatContext.streams g.avStreams).2 }.add
      (.reader (allocStreams formatContext.streams g.avStreams).1)
  have howned : Owned lost opened := by
    apply owned_add
    · exact (zero_add (held Object.parameters g.objects)).symm ▸ h.parameters
    · exact (zero_add (held Object.contexts g.objects)).symm ▸ h.contexts
    · exact hacc
  have hspares : Spares (fun _ => False) g opened := by
    refine h.spares_of ?_ (fun _ _ _ => rfl) (fun _ _ _ => rfl) (fun q hq _ => hsame q hq) hlater
    exact fun i object _ hobject => add_getElem? hobject _
  obtain ⟨g', hfold, howned', hspares', hav, new, hobjects, hview, hnew⟩ :=
    setupStreams_ok howned libav filename g.objects.length hget
  refine ⟨g', hfold, howned', hspares.trans hspares',
    (allocStreams formatContext.streams g.avStreams).1, new, ?_, ?_, ?_, hnew⟩
  · rw [hobjects]
    exact List.append_assoc ..
  · rw [hav]
    exact hget
  · rw [hview]
    congr 1
    exact (PacketReader.foldl_setupStream_streams libav filename formatContext.streams
      ⟨StreamTables.empty, false⟩).symm

/-- What rebuilding a stream loses: its parameters, when the data cannot be made. -/
def rebuildLoses (libav : Libav) (seg : Segment) : Nat :=
  match StreamData.ofSegment libav seg seg.jobId.unparse with
  | .ok _ => 0
  | .error _ => 1

/-- A stream that is rebuilt is what the value model says, and when that throws, then with the
same text. -/
theorem rebuild_ok (h : Owned lost g) (libav : Libav) (seg : Segment) :
    ∃ (what : Option String) (g' : Graph) (new : Multiset Nat),
      g.rebuild libav seg = .ok (what, g') ∧ Owned (new + lost) g' ∧
      new.card = rebuildLoses libav seg ∧ Spares (fun _ => False) g g' ∧
      match StreamData.ofSegment libav seg seg.jobId.unparse with
      | .ok data => what = none ∧ ∃ new : Data,
          g'.objects = g.objects ++ [.stream ⟨some new, none, true⟩] ∧ new.stream = none ∧
            g'.viewData new = data
      | .error e => ∃ why, e = .runtimeError why ∧ what = some why ∧ g'.objects = g.objects := by
  obtain ⟨ps, hps, hpacc, hpself, hpothers⟩ :=
    h.parameters.allocWrite AVCodecParameters.blank seg.parameters
  have hlost : Owned ({(g.parameters.alloc AVCodecParameters.blank).1} + lost)
      { g with parameters := ps } :=
    ⟨hpacc.lose, h.contexts, h.avStreams⟩
  have hspares : Spares (fun _ => False) g { g with parameters := ps } :=
    h.spares_all (List.append_nil g.objects).symm hpothers (fun _ _ => rfl) rfl
  unfold rebuild rebuildLoses StreamData.ofSegment
  simp only [bind, Except.bind, hps]
  cases hcodec : libav.findDecoder seg.parameters.codecId with
  | none => exact ⟨_, _, _, rfl, hlost, rfl, hspares, _, rfl, rfl, rfl⟩
  | some codec =>
      dsimp only
      split
      · obtain ⟨cs, hcs, hcacc, hcself, hcothers⟩ := h.contexts.allocWrite
          (.decoding ⟨codec, none, ⟨0, 1⟩, false⟩) (.decoding (seg.newContext codec))
        rw [hcs]
        refine ⟨_, _, 0, rfl, ?_, rfl, ?_, rfl, _, rfl, rfl, ?_⟩
        · rw [zero_add]
          apply owned_add
          · simpa [Object.parameters] using hpacc
          · simpa [Object.contexts] using hcacc
          · simpa [Object.avStreams] using h.avStreams
        · exact h.spares_all rfl hpothers hcothers rfl
        · simp only [viewData, add, Option.bind_some, Option.bind_none, hpself, hcself,
            Context.decoder]
      · exact ⟨_, _, _, rfl, hlost, rfl, hspares, _, rfl, rfl, rfl⟩

end Sources

section Decoders

variable {g : Graph} {lost : Multiset Nat}

theorem makeDecoder_ok (h : Owned lost g) :
    ∃ p, Owned lost g.makeDecoder ∧ Spares (fun _ => False) g g.makeDecoder ∧
      g.makeDecoder.objects = g.objects ++ [.decoder ⟨p, ⟨0, 0⟩, ⟨0, 0⟩, ⟨0, 0⟩⟩] ∧
      g.makeDecoder.parameters.get p = some AVCodecParameters.blank := by
  refine ⟨(g.parameters.alloc AVCodecParameters.blank).1, ?_, ?_, rfl, ?_⟩
  · apply owned_add
    · exact h.parameters.alloc AVCodecParameters.blank
    · exact (zero_add (held Object.contexts g.objects)).symm ▸ h.contexts
    · exact (zero_add (held Object.avStreams g.objects)).symm ▸ h.avStreams
  · exact h.spares_all rfl (fun q hq => (alloc_same hq).2) (fun _ _ => rfl) rfl
  · exact (get_alloc ..).trans (if_pos rfl)

theorem destroyDecoder_ok (h : Owned lost g) {d : Nat} {source : FrameSource}
    (hat : g.objects[d]? = some (.decoder source)) :
    ∃ g', g.destroyDecoder d source = .ok g' ∧ Owned lost g' ∧ Spares (· = d) g g' ∧
      g'.objects = g.objects.set d .gone := by
  obtain ⟨others, hheld, hset, -⟩ := held_split Object.parameters hat
  have hparameters := h.parameters
  rw [hheld, Object.parameters, Multiset.singleton_add] at hparameters
  obtain ⟨ps, hfree, hacc, hothers⟩ := hparameters.free
  refine ⟨{ g with parameters := ps }.put d .gone, ?_, ⟨?_, ?_, ?_⟩, ?_, rfl⟩
  · rw [destroyDecoder, hfree]
    rfl
  · change ps.Accounted (held _ (g.objects.set d .gone)) lost
    rw [hset]
    exact (zero_add others).symm ▸ hacc
  · exact h.contexts.set _ hat rfl
  · exact h.avStreams.set _ hat rfl
  · apply h.spares
    · intro j object hj hobject
      exact (put_getElem? _ d _ hj).trans hobject
    · intro q _ hq
      exact hothers q fun heq => hq d _ rfl hat (Multiset.mem_singleton.mpr heq)
    · exact fun _ _ _ => rfl
    · rfl

/-- The parameters are copied before the stream of the container is looked at. -/
theorem copyParameters_ok (h : Owned lost g) {d i : Nat} {source : FrameSource}
    {s : StreamObject} {data : Data} {p : Nat} (hat : g.objects[d]? = some (.decoder source))
    (hs : g.objects[i]? = some (.stream s)) (hdata : s.data = some data)
    (hp : data.parameters = some p) :
    ∃ par ps, g.parameters.read p = .ok par ∧ g.parameters.write source.parameters par = .ok ps ∧
      ps.Accounted (held Object.parameters g.objects) lost ∧
      ps.get source.parameters = some par ∧
      ∀ q ≠ source.parameters, ps.get q = g.parameters.get q := by
  have hmine : p ∈ held Object.parameters g.objects := by
    apply Multiset.mem_of_le (held_le _ (List.mem_of_getElem? hs))
    simp [Object.parameters, hdata, hp]
  have hyours : source.parameters ∈ held Object.parameters g.objects :=
    Multiset.mem_of_le (held_le _ (List.mem_of_getElem? hat)) (Multiset.mem_singleton_self _)
  obtain ⟨par, hpar⟩ := h.parameters.get hmine
  obtain ⟨ps, hwrite, hacc, hself, hothers⟩ := h.parameters.write hyours par
  exact ⟨par, ps, read_eq_ok.mpr hpar, hwrite, hacc, hself, hothers⟩

/-- A decoder that is subscribed to a stream of an open container takes over what is known about
it, and changes nothing else. -/
theorem subscribeDecoder_ok (h : Owned lost g) {d i : Nat} {source : FrameSource}
    {s : StreamObject} {data : Data} {address p : Nat} {av : AVStream}
    (hat : g.objects[d]? = some (.decoder source)) (hs : g.objects[i]? = some (.stream s))
    (hdata : s.data = some data) (hstream : data.stream = some address)
    (hp : data.parameters = some p) (hav : g.avStreams.get address = some av) :
    ∃ g' par, g.subscribeDecoder d source s = .ok g' ∧ Owned lost g' ∧ Spares (· = d) g g' ∧
      g'.objects = g.objects.set d (.decoder { source with
        timeBase := data.timeBase
        avgFrameRate := av.avgFrameRate
        rFrameRate := av.rFrameRate }) ∧
      g.parameters.get p = some par ∧ g'.parameters.get source.parameters = some par := by
  obtain ⟨par, ps, hread, hwrite, hacc, hself, hothers⟩ := copyParameters_ok h hat hs hdata hp
  refine ⟨{ g with parameters := ps }.put d (.decoder { source with
    timeBase := data.timeBase
    avgFrameRate := av.avgFrameRate
    rFrameRate := av.rFrameRate }), par, ?_, ⟨?_, ?_, ?_⟩, ?_, rfl, read_eq_ok.mp hread, hself⟩
  · simp only [subscribeDecoder, hdata, deref, hstream, hp, bind, Except.bind, hread, hwrite,
      read_eq_ok.mpr hav]
    rfl
  · exact hacc.set _ hat rfl
  · exact h.contexts.set _ hat rfl
  · exact h.avStreams.set _ hat rfl
  · apply h.spares
    · intro j object hj hobject
      exact (put_getElem? _ d _ hj).trans hobject
    · intro q _ hq
      exact hothers q fun heq => hq d _ rfl hat (Multiset.mem_singleton.mpr heq)
    · exact fun _ _ _ => rfl
    · rfl

theorem subscribeDecoder_freed (h : Owned lost g) {d i : Nat} {source : FrameSource}
    {s : StreamObject} {data : Data} {address p : Nat}
    (hat : g.objects[d]? = some (.decoder source)) (hs : g.objects[i]? = some (.stream s))
    (hdata : s.data = some data) (hstream : data.stream = some address)
    (hp : data.parameters = some p) (hav : g.avStreams.get address = none) :
    g.subscribeDecoder d source s = .error .useAfterFree := by
  obtain ⟨par, ps, hread, hwrite, -⟩ := copyParameters_ok h hat hs hdata hp
  simp only [subscribeDecoder, hdata, deref, hstream, hp, bind, Except.bind, hread, hwrite,
    read_freed hav]

theorem subscribeDecoder_noStream {d : Nat} {source : FrameSource} {s : StreamObject} {data : Data}
    (hdata : s.data = some data) (hstream : data.stream = none) :
    g.subscribeDecoder d source s = .ok g := by
  simp only [subscribeDecoder, hdata, deref, hstream, bind, Except.bind]
  rfl

theorem subscribeDecoder_noData {d : Nat} {source : FrameSource} {s : StreamObject}
    (hdata : s.data = none) : g.subscribeDecoder d source s = .error .nullDereference := by
  simp only [subscribeDecoder, hdata, deref, bind, Except.bind]

end Decoders

section Encoders

variable {g : Graph} {lost : Multiset Nat}

/-- An encoder, or the exception about its name. One block of parameters is lost either way. -/
theorem makeEncoder_ok (h : Owned lost g) (libav : EncoderLibav) (codecName : String) :
    ∃ (what : Option String) (g' : Graph) (new p : Nat),
      g.makeEncoder libav codecName = .ok (what, g') ∧ Owned (new ::ₘ lost) g' ∧
      Spares (fun _ => False) g g' ∧
      if codecName ≠ "" ∧ namedCodec libav codecName = none then
        what = some ("Could not find codec " ++ codecName) ∧ g'.objects = g.objects
      else
        what = none ∧ g'.parameters.get p = some AVCodecParameters.blank ∧
          g'.objects = g.objects ++
            [.stream ⟨some (encoderData p (namedCodec libav codecName)),
              some (g.objects.length + 1), false⟩,
            .encoder ⟨g.objects.length, none⟩] := by
  let first := (g.parameters.alloc AVCodecParameters.blank).2
  let second := (first.alloc AVCodecParameters.blank).2
  have howned : Owned ((g.parameters.alloc AVCodecParameters.blank).1 ::ₘ lost)
      { g with parameters := first } :=
    ⟨(h.parameters.alloc AVCodecParameters.blank).lose, h.contexts, h.avStreams⟩
  have hspares : Spares (fun _ => False) g { g with parameters := first } :=
    h.spares_all (List.append_nil g.objects).symm (fun q hq => (alloc_same hq).2)
      (fun _ _ => rfl) rfl
  have hacc := howned.parameters.alloc AVCodecParameters.blank
  unfold makeEncoder
  dsimp only
  split
  · obtain ⟨g', hdestroy, howned', hspares', -, hobjects⟩ :=
      @destroyNew_ok _ _ howned second g.contexts (encoderData
        (first.alloc AVCodecParameters.blank).1 (namedCodec libav codecName))
        (by simpa [encoderData] using hacc) (by simpa [encoderData] using h.contexts)
        (fun q hq => ⟨fun hmem => (alloc_same hq).1 (Option.mem_some.mp hmem).symm,
          (alloc_same hq).2⟩) fun _ _ => ⟨Option.not_mem_none _, rfl⟩
    refine ⟨_, g', _, 0, ?_, howned', hspares.trans hspares', rfl, hobjects⟩
    exact congrArg (fun r : Except Crash Graph => r >>= fun next =>
      pure (some ("Could not find codec " ++ codecName), next)) hdestroy
  · refine ⟨none, _, (g.parameters.alloc AVCodecParameters.blank).1,
      (first.alloc AVCodecParameters.blank).1, rfl, ?_, ?_, rfl, ?_, ?_⟩
    · have hstream : Owned ((g.parameters.alloc AVCodecParameters.blank).1 ::ₘ lost)
          ({ g with parameters := second }.add (.stream ⟨some (encoderData
            (first.alloc AVCodecParameters.blank).1 (namedCodec libav codecName)),
            some (g.objects.length + 1), false⟩)) := by
        apply owned_add
        · simpa [Object.parameters, encoderData] using hacc
        · simpa [Object.contexts, encoderData] using h.contexts
        · simpa [Object.avStreams] using h.avStreams
      apply owned_add
      · exact (zero_add (held Object.parameters _)).symm ▸ hstream.parameters
      · exact (zero_add (held Object.contexts _)).symm ▸ hstream.contexts
      · exact (zero_add (held Object.avStreams _)).symm ▸ hstream.avStreams
    · apply hspares.trans
      exact howned.spares_all (List.append_assoc ..) (fun q hq => (alloc_same hq).2)
        (fun _ _ => rfl) rfl
    · exact (get_alloc ..).trans (if_pos rfl)
    · exact List.append_assoc ..

/-- An encoder has its stream, with data. -/
structure HasStream (g : Graph) (e : Nat) (encoder : Encoder) (s : StreamObject) (data : Data) :
    Prop where
  here : g.objects[e]? = some (.encoder encoder)
  stream : g.objects[encoder.stream]? = some (.stream s)
  data : s.data = some data

theorem HasStream.ne {e : Nat} {encoder : Encoder} {s : StreamObject} {data : Data}
    (h : HasStream g e encoder s data) : encoder.stream ≠ e := by
  intro heq
  have hstream := h.stream
  rw [heq, h.here] at hstream
  cases hstream

/-- The stream of an encoder that is destroyed stays without parameters, if it stays. -/
theorem destroyEncoder_ok (h : Owned lost g) {e : Nat} {encoder : Encoder} {s : StreamObject}
    {data : Data} (hhas : HasStream g e encoder s data) :
    ∃ g', g.destroyEncoder e encoder = .ok g' ∧ Owned lost g' ∧
      Spares (fun i => i = e ∨ i = encoder.stream) g g' ∧
      g'.objects.length = g.objects.length ∧ g'.objects[e]? = some .gone ∧
      g'.objects[encoder.stream]? = some (settled
        { s with data := some { data with parameters := none }, keeper := none }) ∧
      (settled { s with data := some { data with parameters := none }, keeper := none } = .gone ∨
        ∀ q ∈ data.context, g'.contexts.get q = g.contexts.get q) := by
  obtain ⟨others, hheld, hset, -⟩ := held_split Object.parameters hhas.stream
  have hparameters := h.parameters
  rw [hheld, Object.parameters, hhas.data] at hparameters
  obtain ⟨ps, hfree, hacc, hothers⟩ := hparameters.freeIfSet
  let bare : Object := .stream { s with data := some { data with parameters := none } }
  let g₁ : Graph := { g with parameters := ps }.put encoder.stream bare
  have howned₁ : Owned lost g₁ := by
    refine ⟨?_, ?_, h.avStreams.set _ hhas.stream rfl⟩
    · change ps.Accounted (held _ (g.objects.set encoder.stream bare)) lost
      rw [hset]
      exact (zero_add others).symm ▸ hacc
    · apply h.contexts.set _ hhas.stream
      simp [Object.contexts, bare, hhas.data]
  have hencoder : g₁.objects[e]? = some (.encoder encoder) :=
    (put_getElem? _ _ _ (Ne.symm hhas.ne)).trans hhas.here
  have hlt := (List.getElem?_eq_some_iff.mp hhas.stream).1
  have hbare : (g₁.put e .gone).objects[encoder.stream]? = some bare :=
    (put_getElem? g₁ e _ hhas.ne).trans (List.getElem?_set_self hlt)
  have hgone : Owned lost (g₁.put e .gone) := howned₁.put hencoder rfl rfl rfl
  obtain ⟨g₂, hunkeep, howned₂, hspares₂, hobjects₂, hblocks₂⟩ := unkeep_ok hgone hbare
  have hspares₁ : Spares (fun i => i = e ∨ i = encoder.stream) g (g₁.put e .gone) := by
    apply h.spares
    · intro j object hj hobject
      rw [put_getElem? _ _ _ fun heq => hj (Or.inl heq),
        put_getElem? _ _ _ fun heq => hj (Or.inr heq)]
      exact hobject
    · intro q _ hq
      apply hothers q
      intro hmem
      apply hq encoder.stream _ (Or.inr rfl) hhas.stream
      rw [Object.parameters, hhas.data]
      exact Multiset.mem_coe.mpr (Option.mem_toList.mpr hmem)
    · exact fun _ _ _ => rfl
    · rfl
  refine ⟨g₂, ?_, howned₂, hspares₁.trans (hspares₂.mono fun i => Or.inr), ?_, ?_, ?_, ?_⟩
  · have hfree' : g.parameters.freeIfSet data.parameters = .ok ps := hfree
    simp only [destroyEncoder, streamAt_ok hhas.stream, hhas.data, deref, bind, Except.bind, hfree']
    exact hunkeep
  · simp [hobjects₂, g₁, put]
  · have helt := (List.getElem?_eq_some_iff.mp hencoder).1
    rw [hobjects₂, List.getElem?_set_ne hhas.ne]
    exact List.getElem?_set_self helt
  · rw [hobjects₂]
    exact List.getElem?_set_self (List.getElem?_eq_some_iff.mp hbare).1
  · refine hblocks₂.imp_right fun hsame q hq => hsame.contexts q ?_
    exact Multiset.mem_coe.mpr (Option.mem_toList.mpr hq)

/-- The data of a stream are replaced, with a context in place of the one they had. -/
theorem Owned.exchange (h : Owned lost g) {i : Nat} {s : StreamObject} {data new : Data}
    (hs : g.objects[i]? = some (.stream s)) (hdata : s.data = some data)
    (hnew : new.parameters = data.parameters) {ps : Blocks AVCodecParameters}
    {cs : Blocks Context} {others : Multiset Nat}
    (hset : ∀ y, held Object.contexts (g.objects.set i y) = y.contexts + others)
    (hpacc : ps.Accounted (held Object.parameters g.objects) lost)
    (hpsame : ∀ q ∉ data.parameters, ps.get q = g.parameters.get q)
    (hcacc : cs.Accounted (Multiset.ofList new.context.toList + others) 0)
    (hcsame : ∀ q, (g.contexts.get q).isSome = true → q ∉ data.context →
      cs.get q = g.contexts.get q) :
    Owned lost ({ g with parameters := ps, contexts := cs }.put i
        (.stream { s with data := some new })) ∧
      Spares (· = i) g ({ g with parameters := ps, contexts := cs }.put i
        (.stream { s with data := some new })) := by
  refine ⟨⟨?_, ?_, h.avStreams.set _ hs rfl⟩, h.spares ?_ ?_ ?_ ?_⟩
  · apply hpacc.set _ hs
    simp [Object.parameters, hdata, hnew]
  · change cs.Accounted (held Object.contexts (g.objects.set i _)) 0
    rw [hset]
    exact hcacc
  · intro j object hj hobject
    exact (put_getElem? _ i _ hj).trans hobject
  · intro q _ hq
    apply hpsame q
    intro hmem
    apply hq i _ rfl hs
    rw [Object.parameters, hdata]
    exact Multiset.mem_coe.mpr (Option.mem_toList.mpr hmem)
  · intro q hlive hq
    apply hcsame q hlive
    intro hmem
    apply hq i _ rfl hs
    rw [Object.contexts, hdata]
    exact Multiset.mem_coe.mpr (Option.mem_toList.mpr hmem)
  · rfl

/-- The data of an encoder's stream with a context. -/
structure Encodes (libav : EncoderLibav) (data : Data) (source : FrameSource)
    (par : AVCodecParameters) (opened : Bool) (g' : Graph) (new : Data) : Prop where
  data : ∃ c, new = encodedData data (libav.findEncoder par.codecId) par c source ∧
    g'.contexts.get c = some (.encoding
      { contextFor (libav.findEncoder par.codecId) par source.timeBase with opened := opened })
  parameters : ∃ p, new.parameters = some p ∧ g'.parameters.get p = some par

/-- How a call of `subscribeCallback` ends. -/
inductive Subscribes (libav : EncoderLibav) (data : Data) (source : FrameSource)
    (par : AVCodecParameters) (g g' : Graph) : Option String → Data → Prop
  | noContext (halloc : libav.allocContext (libav.findEncoder par.codecId) = false)
      (hparameters : g'.parameters = g.parameters) (hcontexts : g'.contexts = g.contexts) :
      Subscribes libav data source par g g' (some "Could not find codec")
        { data with codec := libav.findEncoder par.codecId }
  | notOpened (new : Data) (halloc : libav.allocContext (libav.findEncoder par.codecId) = true)
      (hencodes : Encodes libav data source par false g' new)
      (hrc : libav.openContext
        (contextFor (libav.findEncoder par.codecId) par source.timeBase) < 0) :
      Subscribes libav data source par g g'
        (some ("Could not open context for codec " ++ toString par.codecId.toInt32.toInt)) new
  | opened (new : Data) (halloc : libav.allocContext (libav.findEncoder par.codecId) = true)
      (hencodes : Encodes libav data source par true g' new)
      (hrc : 0 ≤ libav.openContext
        (contextFor (libav.findEncoder par.codecId) par source.timeBase)) :
      Subscribes libav data source par g g' none new

theorem openEncoder_ok (h : Owned lost g) (libav : EncoderLibav) {i : Nat} {s : StreamObject}
    {data : Data} {p : Nat} (hs : g.objects[i]? = some (.stream s)) (hdata : s.data = some data)
    (hp : data.parameters = some p) (par : AVCodecParameters) (source : FrameSource)
    (halloc : libav.allocContext (libav.findEncoder par.codecId) = true) (g₀ : Graph) :
    ∃ (what : Option String) (g' : Graph) (new : Data),
      g.openEncoder libav i s data par source = .ok (what, g') ∧ Owned lost g' ∧
      Spares (· = i) g g' ∧ g'.objects = g.objects.set i (.stream { s with data := some new }) ∧
      Subscribes libav data source par g₀ g' what new := by
  have hmine : p ∈ held Object.parameters g.objects := by
    apply Multiset.mem_of_le (held_le _ (List.mem_of_getElem? hs))
    simp [Object.parameters, hdata, hp]
  obtain ⟨ps, hps, hpacc, hpself, hpothers⟩ := h.parameters.write hmine par
  have hpsame : ∀ q ∉ data.parameters, ps.get q = g.parameters.get q := by
    intro q hq
    exact hpothers q fun heq => hq (heq ▸ hp)
  obtain ⟨others, hheld, hset, -⟩ := held_split Object.contexts hs
  have hcontexts := h.contexts
  rw [hheld, Object.contexts, hdata, Option.bind_some] at hcontexts
  obtain ⟨codec, hcodec⟩ : ∃ codec, libav.findEncoder par.codecId = codec := ⟨_, rfl⟩
  obtain ⟨ctx, hctx⟩ : ∃ ctx, contextFor codec par source.timeBase = ctx := ⟨_, rfl⟩
  obtain ⟨cs₁, cs₂, hcs₁, hcs₂, hcacc, hcself, hcothers⟩ := hcontexts.replace
    (.encoding (EncodingContext.alloc codec)) (.encoding ctx)
  have hunopened : { ctx with opened := false } = ctx := by
    rw [← hctx]
    exact contextFor_unopened codec par source.timeBase
  have hexchange := @Owned.exchange g lost h i s data
    (encodedData data codec par
      (g.contexts.alloc (.encoding (EncodingContext.alloc codec))).1 source)
    hs hdata rfl ps
  simp only [openEncoder, bind, Except.bind, hp, deref, hps, hcodec, hctx, hcs₁, hcs₂]
  split
  · rename_i hrc
    obtain ⟨howned, hspares⟩ := hexchange hset hpacc hpsame hcacc hcothers
    refine ⟨_, _, _, rfl, howned, hspares, rfl, ?_⟩
    apply Subscribes.notOpened _ halloc
    · refine ⟨⟨_, by rw [hcodec], ?_⟩, p, hp, hpself⟩
      rw [hcodec, hctx, hunopened]
      exact hcself
    · rw [hcodec, hctx]
      exact hrc
  · rename_i hrc
    obtain ⟨cs₃, hcs₃, hcacc₃, hcself₃, hcothers₃⟩ := hcacc.write (Multiset.mem_cons_self ..)
      (.encoding { ctx with opened := true })
    have hcsame : ∀ q, (g.contexts.get q).isSome = true → q ∉ data.context →
        cs₃.get q = g.contexts.get q := by
      intro q hq hmem
      rw [hcothers₃ q (alloc_same hq).1, hcothers q hq hmem]
    obtain ⟨howned, hspares⟩ := hexchange hset hpacc hpsame hcacc₃ hcsame
    rw [hcs₃]
    refine ⟨_, _, _, rfl, howned, hspares, rfl, ?_⟩
    apply Subscribes.opened _ halloc
    · refine ⟨⟨_, by rw [hcodec], ?_⟩, p, hp, hpself⟩
      rw [hcodec, hctx]
      exact hcself₃
    · rw [hcodec, hctx]
      exact not_lt.mp hrc

/-- An encoder that is subscribed takes over what its source has, and nothing changes but the
encoder and its stream. -/
theorem subscribeEncoder_ok (h : Owned lost g) (libav : EncoderLibav) {e d : Nat}
    {encoder : Encoder} {s : StreamObject} {data : Data} {p : Nat} {source : FrameSource}
    (hhas : HasStream g e encoder s data) (hp : data.parameters = some p)
    (hat : g.objects[d]? = some (.decoder source)) :
    ∃ (par : AVCodecParameters) (what : Option String) (g' : Graph) (new : Data),
      g.parameters.get source.parameters = some par ∧
      g.subscribeEncoder libav e encoder d source = .ok (what, g') ∧ Owned lost g' ∧
      Spares (fun i => i = e ∨ i = encoder.stream) g g' ∧
      g'.objects.length = g.objects.length ∧
      g'.objects[e]? = some (.encoder { encoder with src := encoder.src.or (some d) }) ∧
      g'.objects[encoder.stream]? = some (.stream { s with data := some new }) ∧
      Subscribes libav data source par g g' what new := by
  have hsource : source.parameters ∈ held Object.parameters g.objects :=
    Multiset.mem_of_le (held_le _ (List.mem_of_getElem? hat)) (Multiset.mem_singleton_self _)
  obtain ⟨par, hpar⟩ := h.parameters.get hsource
  obtain ⟨known, hknown⟩ : ∃ known : Graph,
      g.put e (.encoder { encoder with src := encoder.src.or (some d) }) = known := ⟨_, rfl⟩
  have howned : Owned lost known := hknown ▸ h.put hhas.here rfl rfl rfl
  have hspares : Spares (fun i => i = e ∨ i = encoder.stream) g known :=
    hknown ▸ (put_spares g e _).mono fun i => Or.inl
  have hstream : known.objects[encoder.stream]? = some (.stream s) :=
    hknown ▸ (put_getElem? g e _ hhas.ne).trans hhas.stream
  have hencoder : known.objects[e]? =
      some (.encoder { encoder with src := encoder.src.or (some d) }) :=
    hknown ▸ List.getElem?_set_self (List.getElem?_eq_some_iff.mp hhas.here).1
  have hlength : known.objects.length = g.objects.length := by
    rw [← hknown]
    exact List.length_set
  have hread : known.parameters.read source.parameters = .ok par :=
    read_eq_ok.mpr (hknown ▸ hpar)
  have hset : ∀ x, (known.objects.set encoder.stream x)[e]? = known.objects[e]? ∧
      (known.objects.set encoder.stream x)[encoder.stream]? = some x := by
    intro x
    exact ⟨List.getElem?_set_ne hhas.ne,
      List.getElem?_set_self (List.getElem?_eq_some_iff.mp hstream).1⟩
  simp only [subscribeEncoder, bind, Except.bind, streamAt_ok hhas.stream, hhas.data, deref,
    hknown, hread]
  cases halloc : libav.allocContext (libav.findEncoder par.codecId) with
  | false =>
      refine ⟨par, _, _, { data with codec := libav.findEncoder par.codecId }, hpar, rfl,
        howned.put hstream ?_ ?_ rfl, ?_, ?_, ?_, (hset _).2,
        .noContext halloc (hknown ▸ rfl) (hknown ▸ rfl)⟩
      · simp [Object.parameters, hhas.data]
      · simp [Object.contexts, hhas.data]
      · exact hspares.trans ((put_spares known _ _).mono fun i => Or.inr)
      · exact List.length_set.trans hlength
      · exact (hset _).1.trans hencoder
  | true =>
      obtain ⟨what, g', new, hopen, howned', hspares', hobjects, hsubscribes⟩ :=
        openEncoder_ok howned libav hstream hhas.data hp par source halloc g
      refine ⟨par, what, g', new, hpar, hopen, howned',
        hspares.trans (hspares'.mono fun i => Or.inr), ?_, ?_, ?_, hsubscribes⟩
      · rw [hobjects, List.length_set, hlength]
      · rw [hobjects, (hset _).1, hencoder]
      · rw [hobjects, (hset _).2]

end Encoders

section Muxers

variable (libav : Muxer.Libavformat) (muxer : Muxer)

theorem flush_alive : Muxer.fatal (muxer.flush libav).1 = false := by
  unfold Muxer.flush
  generalize muxer.buffer = packets
  induction packets generalizing muxer with
  | nil => simp [Muxer.drain, Muxer.fatal]
  | cons packet packets ih =>
      have hwrite := Muxer.write_alive libav { muxer with buffer := packets } packet
      rw [Muxer.drain]
      cases hresult : { muxer with buffer := packets }.write libav packet with
      | mk outcome next =>
          rw [hresult] at hwrite
          cases outcome with
          | error e => exact hwrite
          | ok _ => exact ih next

theorem close_alive : Muxer.fatal (muxer.close libav).1 = false := by
  rw [Muxer.close_fst]
  exact flush_alive libav muxer

theorem openOutput_alive : Muxer.fatal (muxer.openOutput libav).1 = false := by
  unfold Muxer.openOutput
  split
  · simp [Muxer.fatal]
  · dsimp only
    repeat' split
    all_goals simp [Muxer.fatal]

theorem process_fatal_iff (k : Nat) (info : Muxer.StreamInfo) (packet : Packet)
    (stream : Option StreamData) :
    Muxer.fatal (muxer.process libav k info packet stream).1 = true ↔ info.stream = none := by
  unfold Muxer.process
  rcases Muxer.arrive_cases muxer k info packet stream with
    ⟨hnone, herror⟩ | ⟨info', output, -, hindex, hok⟩
  · rw [herror]
    simp [Muxer.fatal, hnone]
  · have hsome : info.stream ≠ none := by
      intro hnone
      rw [hnone] at hindex
      cases hindex
    simp only [hok, Muxer.enter_alive, hsome, Bool.false_eq_true]

theorem subscribe_fatal_iff (source : Stream) :
    Muxer.fatal (muxer.subscribe libav source).1 = true ↔
      muxer.streamStart = true ∧ (source.data = none ∨
        0 ≤ libav.rc muxer.log .newStream ∧
          ∃ data, source.data = some data ∧ data.parameters = none) := by
  unfold Muxer.subscribe
  cases hstart : muxer.streamStart with
  | false => simp [Muxer.fatal, Muxer.failure]
  | true =>
      cases hdata : source.data with
      | none => simp [Muxer.fatal]
      | some data =>
          by_cases hneg : libav.rc muxer.log .newStream < 0
          · have hpos : ¬ 0 ≤ libav.rc muxer.log .newStream := Int.not_le.mpr hneg
            simp [Muxer.ask, hneg, hpos, Muxer.fatal, Muxer.failure]
          · cases hp : data.parameters with
            | none => simp [Muxer.ask, hneg, Int.not_lt.mp hneg, hp, Muxer.fatal]
            | some parameters => simp [Muxer.ask, hneg, hp, Muxer.fatal]

variable {libav muxer}

theorem finish_alive {g : Graph} {m : Nat} {result : Muxer.Outcome × Muxer}
    (h : Muxer.fatal result.1 = false) :
    ∃ what, g.finish m result = .ok (what, g.put m (.muxer result.2)) := by
  obtain ⟨outcome, muxer⟩ := result
  cases outcome with
  | ok _ => exact ⟨none, rfl⟩
  | error e =>
      refine ⟨some (text e), ?_⟩
      rw [finish, h, if_neg Bool.false_ne_true]

theorem finish_fatal {g : Graph} {m : Nat} {result : Muxer.Outcome × Muxer}
    (h : Muxer.fatal result.1 = true) : g.finish m result = .error .nullDereference := by
  obtain ⟨outcome, muxer⟩ := result
  obtain rfl : outcome = .error (.fault .nullDereference) := of_decide_eq_true h
  rfl

end Muxers

end Media2.Graph
