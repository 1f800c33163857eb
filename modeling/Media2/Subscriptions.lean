import Mathlib.Logic.Function.Basic
import Media2.Foundation.Signal

/-!
# Subscriptions

A subscriber keeps the connections it made to the signals of its sources in a vector, and cuts
them in `unsubscribe`, which its destructor calls. Sources forward on threads of their own.

## Implementation notes

A subscriber's own functions are called by one thread. One label is one call that connects or
disconnects, or one step of a source. `made` has all connections that a subscriber ever made
and `current` those since it last unsubscribed. The library of signals is a parameter, and
`view` is what one sees of a signal. A source forwards from one thread at a time, and what it
calls does not throw.
-/

namespace Media2.Subscriptions

open Execution Signals

/-- The classes that keep such a vector. -/
inductive Kind
  | packetSubscriber
  | frameSubscriber
  | segmentSubscriber
  | segmentUnpacker
  deriving DecidableEq

/-- Whether `unsubscribe` ends with `subscriptions.clear()`. -/
def Kind.clears : Kind → Bool
  | .packetSubscriber => false
  | .frameSubscriber => false
  | .segmentSubscriber => true
  | .segmentUnpacker => false

/-- `boost::signals2::connection`: the source and the number among its connections. -/
structure Connection where
  source : Nat
  slot : Nat
  deriving DecidableEq

/-- Where a subscriber's thread is: the loop in `unsubscribe` has the rest to be cut. -/
inductive Place
  | ready
  | unsubscribing (rest : List Connection)
  | destroying (rest : List Connection)
  | destroyed
  deriving DecidableEq

structure Subscriber where
  kind : Kind
  subscriptions : List Connection
  place : Place
  made : List Connection
  current : List Connection

/-- All sources and subscribers. What is never used stays as it is in the beginning. -/
structure System (σ : Type*) where
  sources : Nat → σ
  subscribers : Nat → Subscriber

inductive Label (μ : Type*)
  | subscribe (i source : Nat)
  | unsubscribe (i : Nat)
  | destroy (i : Nat)
  | disconnect (i : Nat)
  | emit (source : Nat) (message : μ)
  | proceed (source : Nat)

section Steps

variable {μ : Type*} (lib : Library μ)

def start (kinds : Nat → Kind) : System lib.State where
  sources := fun _ => lib.empty
  subscribers := fun i => ⟨kinds i, [], .ready, [], []⟩

/-- `subscribe(to)`. -/
def Subscriber.subscribe (subscriber : Subscriber) (c : Connection) : Subscriber :=
  { subscriber with
    subscriptions := subscriber.subscriptions ++ [c]
    made := subscriber.made ++ [c]
    current := subscriber.current ++ [c] }

/-- The end of `unsubscribe`. -/
def Subscriber.unsubscribed (subscriber : Subscriber) (place : Place) : Subscriber :=
  { subscriber with
    subscriptions := if subscriber.kind.clears then [] else subscriber.subscriptions
    place := place
    current := [] }

def System.setSubscriber {σ : Type*} (s : System σ) (i : Nat) (subscriber : Subscriber) :
    System σ :=
  { s with subscribers := Function.update s.subscribers i subscriber }

def System.setSource {σ : Type*} (s : System σ) (k : Nat) (signal : σ) : System σ :=
  { s with sources := Function.update s.sources k signal }

/-- One step of the loop: `for (auto sub : subscriptions) sub.disconnect()`. -/
def disconnectNext (s : System lib.State) (i : Nat) : Option (System lib.State) :=
  match (s.subscribers i).place with
  | .unsubscribing [] => some (s.setSubscriber i ((s.subscribers i).unsubscribed .ready))
  | .destroying [] => some (s.setSubscriber i ((s.subscribers i).unsubscribed .destroyed))
  | .unsubscribing (c :: rest) =>
      some ((s.setSource c.source (lib.disconnect (s.sources c.source) c.slot)).setSubscriber i
        { s.subscribers i with place := .unsubscribing rest })
  | .destroying (c :: rest) =>
      some ((s.setSource c.source (lib.disconnect (s.sources c.source) c.slot)).setSubscriber i
        { s.subscribers i with place := .destroying rest })
  | _ => none

def step (s : System lib.State) : Label μ → Option (System lib.State)
  | .subscribe i k =>
      if (s.subscribers i).place = .ready then
        let connected := lib.connect (s.sources k)
        some ((s.setSource k connected.1).setSubscriber i
          ((s.subscribers i).subscribe ⟨k, connected.2⟩))
      else none
  | .unsubscribe i =>
      if (s.subscribers i).place = .ready then
        some (s.setSubscriber i { s.subscribers i with
          place := .unsubscribing (s.subscribers i).subscriptions })
      else none
  | .destroy i =>
      if (s.subscribers i).place = .ready then
        some (s.setSubscriber i { s.subscribers i with
          place := .destroying (s.subscribers i).subscriptions })
      else none
  | .disconnect i => disconnectNext lib s i
  | .emit k message =>
      if lib.idle (s.sources k) then some (s.setSource k (lib.emit (s.sources k) message)) else none
  | .proceed k => (lib.proceed (s.sources k)).map (s.setSource k)

end Steps

section Invariant

variable {μ : Type*} {lib : Library μ} {view : lib.State → Signal μ} {s s' : System lib.State}
  {i : Nat}

/-- The connection was made and has not been cut. -/
def Live (view : lib.State → Signal μ) (s : System lib.State) (c : Connection) : Prop :=
  (view (s.sources c.source)).Connected c.slot

/-- The connection is there. -/
def Known (view : lib.State → Signal μ) (s : System lib.State) (c : Connection) : Prop :=
  c.slot < (view (s.sources c.source)).slots.length

/-- What a subscriber may still be connected by. -/
def Subscriber.remaining (subscriber : Subscriber) : List Connection :=
  match subscriber.place with
  | .ready => subscriber.current
  | .unsubscribing rest => rest
  | .destroying rest => rest
  | .destroyed => []

/-- One subscriber's books. -/
structure Books (view : lib.State → Signal μ) (s : System lib.State)
    (subscriber : Subscriber) : Prop where
  known : ∀ c ∈ subscriber.made, Known view s c
  vector : subscriber.current ⊆ subscriber.subscriptions ∧
    subscriber.subscriptions ⊆ subscriber.made
  remaining : subscriber.remaining ⊆ subscriber.made
  live : ∀ c ∈ subscriber.made, Live view s c → c ∈ subscriber.remaining
  standing : subscriber.place = .ready → ∀ c ∈ subscriber.current, Live view s c

/-- The books of all, and nobody has a connection of another. -/
structure Inv (view : lib.State → Signal μ) (s : System lib.State) : Prop where
  ordered : ∀ k, (view (s.sources k)).Ordered
  owned : ∀ c, Known view s c → ∃ i, c ∈ (s.subscribers i).made
  alone : ∀ i j c, c ∈ (s.subscribers i).made → c ∈ (s.subscribers j).made → i = j
  books : ∀ i, Books view s (s.subscribers i)

theorem start_inv (hdoc : Documented lib view) (kinds : Nat → Kind) :
    Inv view (start lib kinds) where
  ordered := by
    intro k
    rw [start, hdoc.empty]
    exact Signal.empty_ordered
  owned := by
    intro c hc
    rw [Known, start, hdoc.empty] at hc
    cases hc
  alone := by
    rintro i j c ⟨⟩
  books := by
    intro i
    refine ⟨?_, ⟨List.Subset.refl _, List.Subset.refl _⟩, List.Subset.refl _, ?_, ?_⟩
    · rintro c ⟨⟩
    · rintro c ⟨⟩
    · rintro - c ⟨⟩

/-- The books of a subscriber that was not concerned. -/
theorem Books.other {subscriber : Subscriber} (h : Books view s subscriber)
    (hknown : ∀ c, Known view s c → Known view s' c)
    (hlive : ∀ c ∈ subscriber.made, Live view s' c ↔ Live view s c) :
    Books view s' subscriber where
  known := fun c hc => hknown c (h.known c hc)
  vector := h.vector
  remaining := h.remaining
  live := fun c hc hl => h.live c hc ((hlive c hc).mp hl)
  standing := fun hready c hc =>
    (hlive c (h.vector.2 (h.vector.1 hc))).mpr (h.standing hready c hc)

/-- A step that concerns one subscriber, whose new connections are those that are new. -/
theorem Inv.update (h : Inv view s) {subscriber : Subscriber}
    (hsubscribers : s'.subscribers = Function.update s.subscribers i subscriber)
    (hordered : ∀ k, (view (s'.sources k)).Ordered)
    (hknown : ∀ c, Known view s c → Known view s' c)
    (hmade : ∀ c, c ∈ subscriber.made ↔
      c ∈ (s.subscribers i).made ∨ Known view s' c ∧ ¬ Known view s c)
    (hlive : ∀ j, j ≠ i → ∀ c ∈ (s.subscribers j).made, Live view s' c ↔ Live view s c)
    (hbooks : Books view s' subscriber) : Inv view s' := by
  have hself : s'.subscribers i = subscriber := by rw [hsubscribers, Function.update_self]
  have hother : ∀ j, j ≠ i → s'.subscribers j = s.subscribers j := fun j hj => by
    rw [hsubscribers, Function.update_of_ne hj]
  have hnot : ∀ j, j ≠ i → ∀ c, c ∈ (s'.subscribers j).made → c ∉ (s'.subscribers i).made := by
    intro j hj c hc hc'
    rw [hother j hj] at hc
    rw [hself] at hc'
    rcases (hmade c).mp hc' with hold | ⟨-, hnew⟩
    · exact hj (h.alone j i c hc hold)
    · exact hnew ((h.books j).known c hc)
  refine ⟨hordered, ?_, ?_, ?_⟩
  · intro c hc
    by_cases hold : Known view s c
    · obtain ⟨j, hj⟩ := h.owned c hold
      by_cases hji : j = i
      · subst hji
        exact ⟨j, hself ▸ (hmade c).mpr (Or.inl hj)⟩
      · exact ⟨j, (hother j hji).symm ▸ hj⟩
    · exact ⟨i, hself ▸ (hmade c).mpr (Or.inr ⟨hc, hold⟩)⟩
  · intro j j' c hj hj'
    by_cases hji : j = i
    · by_cases hji' : j' = i
      · rw [hji, hji']
      · exact absurd (hji ▸ hj) (hnot j' hji' c hj')
    · by_cases hji' : j' = i
      · exact absurd (hji' ▸ hj') (hnot j hji c hj)
      · rw [hother j hji] at hj
        rw [hother j' hji'] at hj'
        exact h.alone j j' c hj hj'
  · intro j
    by_cases hji : j = i
    · rw [hji, hself]
      exact hbooks
    · rw [hother j hji]
      exact (h.books j).other hknown (hlive j hji)

theorem subset_snoc {l l' : List Connection} (h : l ⊆ l') (c : Connection) :
    l ++ [c] ⊆ l' ++ [c] :=
  List.append_subset.mpr ⟨List.subset_append_of_subset_left _ h, List.subset_append_right _ _⟩

theorem Subscriber.remaining_ready {subscriber : Subscriber} (h : subscriber.place = .ready) :
    subscriber.remaining = subscriber.current := by
  rw [remaining, h]

/-- One source is in another state. -/
theorem Inv.ordered_update (h : Inv view s) {k : Nat} {state : lib.State}
    (hordered : (view state).Ordered) (j : Nat) :
    (view (Function.update s.sources k state j)).Ordered := by
  by_cases hj : j = k
  · subst hj
    rw [Function.update_self]
    exact hordered
  · rw [Function.update_of_ne hj]
    exact h.ordered j

theorem subscribe_inv (hdoc : Documented lib view) (h : Inv view s)
    (hready : (s.subscribers i).place = .ready) (k : Nat) :
    Inv view ((s.setSource k (lib.connect (s.sources k)).1).setSubscriber i
      ((s.subscribers i).subscribe ⟨k, (lib.connect (s.sources k)).2⟩)) := by
  have hbooks := h.books i
  obtain ⟨hcurrent, hsubscriptions⟩ := hbooks.vector
  have hview := hdoc.connect (s.sources k)
  rw [hdoc.number]
  set new : Connection := ⟨k, (view (s.sources k)).slots.length⟩ with hdef
  set t := (s.setSource k (lib.connect (s.sources k)).1).setSubscriber i
    ((s.subscribers i).subscribe new) with ht
  have hknown : ∀ c, Known view t c ↔ Known view s c ∨ c = new := by
    rintro ⟨source, slot⟩
    simp only [Known, ht, hdef, System.setSubscriber, System.setSource, Connection.mk.injEq]
    by_cases hk : source = k
    · subst hk
      rw [Function.update_self, hview, Signal.connect, List.length_append, List.length_singleton]
      omega
    · rw [Function.update_of_ne hk]
      simp [hk]
  have hlive : ∀ c, Live view t c ↔ Live view s c ∨ c = new := by
    rintro ⟨source, slot⟩
    simp only [Live, ht, hdef, System.setSubscriber, System.setSource, Connection.mk.injEq]
    by_cases hk : source = k
    · subst hk
      rw [Function.update_self, hview, Signal.connect_connected]
      simp
    · rw [Function.update_of_ne hk]
      simp [hk]
  have hnew : ¬ Known view s new := Nat.lt_irrefl _
  apply h.update (i := i) rfl
  · exact h.ordered_update (hview ▸ Signal.connect_ordered (h.ordered k))
  · exact fun c hc => (hknown c).mpr (Or.inl hc)
  · intro c
    rw [hknown, Subscriber.subscribe, List.mem_append, List.mem_singleton]
    constructor
    · rintro (hc | rfl)
      · exact Or.inl hc
      · exact Or.inr ⟨Or.inr rfl, hnew⟩
    · rintro (hc | ⟨hc | rfl, hnot⟩)
      · exact Or.inl hc
      · exact absurd hc hnot
      · exact Or.inr rfl
  · intro j hj c hc
    rw [hlive]
    refine ⟨fun hl => hl.resolve_right ?_, Or.inl⟩
    rintro rfl
    exact hnew ((h.books j).known _ hc)
  · refine ⟨?_, ⟨?_, ?_⟩, ?_, ?_, ?_⟩
    · intro c hc
      rcases List.mem_append.mp hc with hc | hc
      · exact (hknown c).mpr (Or.inl (hbooks.known c hc))
      · exact (hknown c).mpr (Or.inr (List.mem_singleton.mp hc))
    · exact subset_snoc hcurrent _
    · exact subset_snoc hsubscriptions _
    · simp only [Subscriber.remaining, Subscriber.subscribe, hready]
      exact subset_snoc (List.Subset.trans hcurrent hsubscriptions) _
    · intro c hc hl
      simp only [Subscriber.remaining, Subscriber.subscribe, hready]
      rcases List.mem_append.mp hc with hc | hc
      · have hold := ((hlive c).mp hl).resolve_right fun heq => hnew (heq ▸ hbooks.known c hc)
        have hmem := hbooks.live c hc hold
        rw [Subscriber.remaining_ready hready] at hmem
        exact List.mem_append_left _ hmem
      · exact List.mem_append_right _ hc
    · intro _ c hc
      rcases List.mem_append.mp hc with hc | hc
      · exact (hlive c).mpr (Or.inl (hbooks.standing hready c hc))
      · exact (hlive c).mpr (Or.inr (List.mem_singleton.mp hc))

/-- Only the books of one subscriber change. -/
theorem Inv.setSubscriber (h : Inv view s) {subscriber : Subscriber}
    (hmade : subscriber.made = (s.subscribers i).made) (hbooks : Books view s subscriber) :
    Inv view (s.setSubscriber i subscriber) := by
  refine h.update rfl h.ordered (fun _ hc => hc) ?_ (fun _ _ _ _ => Iff.rfl) ?_
  · intro c
    rw [hmade]
    exact ⟨Or.inl, fun hc => hc.resolve_right fun hnew => hnew.2 hnew.1⟩
  · exact hbooks.other (fun _ hc => hc) fun _ _ => Iff.rfl

/-- The loop starts with all that the vector has. -/
theorem leave_inv (h : Inv view s) (hready : (s.subscribers i).place = .ready) {place : Place}
    (hplace : place = .unsubscribing (s.subscribers i).subscriptions ∨
      place = .destroying (s.subscribers i).subscriptions) :
    Inv view (s.setSubscriber i { s.subscribers i with place := place }) := by
  have hbooks := h.books i
  obtain ⟨hcurrent, hsubscriptions⟩ := hbooks.vector
  have hremaining : Subscriber.remaining { s.subscribers i with place := place } =
      (s.subscribers i).subscriptions := by
    rcases hplace with rfl | rfl
    · rfl
    · rfl
  refine h.setSubscriber rfl ⟨hbooks.known, hbooks.vector, ?_, ?_, ?_⟩
  · rw [hremaining]
    exact hsubscriptions
  · intro c hc hl
    have hmem := hbooks.live c hc hl
    rw [Subscriber.remaining_ready hready] at hmem
    rw [hremaining]
    exact hcurrent hmem
  · intro heq
    rcases hplace with rfl | rfl
    · cases heq
    · cases heq

/-- The loop is over: nothing is connected any more. -/
theorem unsubscribed_inv (h : Inv view s) (hnil : (s.subscribers i).remaining = []) {place : Place}
    (hplace : place = .ready ∨ place = .destroyed) :
    Inv view (s.setSubscriber i ((s.subscribers i).unsubscribed place)) := by
  have hbooks := h.books i
  have hremaining : ((s.subscribers i).unsubscribed place).remaining = [] := by
    rcases hplace with rfl | rfl
    · rfl
    · rfl
  refine h.setSubscriber rfl ⟨hbooks.known, ⟨List.nil_subset _, ?_⟩, ?_, ?_, ?_⟩
  · rw [Subscriber.unsubscribed]
    dsimp only
    split
    · exact List.nil_subset _
    · exact hbooks.vector.2
  · rw [hremaining]
    exact List.nil_subset _
  · intro c hc hl
    have hmem := hbooks.live c hc hl
    rw [hnil] at hmem
    cases hmem
  · rintro - c ⟨⟩

/-- One connection is cut. -/
theorem disconnect_inv (hdoc : Documented lib view) (h : Inv view s) {c : Connection}
    {rest : List Connection} {place : Place} (hremaining : (s.subscribers i).remaining = c :: rest)
    (hplace : place = .unsubscribing rest ∨ place = .destroying rest) :
    Inv view ((s.setSource c.source (lib.disconnect (s.sources c.source) c.slot)).setSubscriber i
      { s.subscribers i with place := place }) := by
  have hbooks := h.books i
  have hmade : c :: rest ⊆ (s.subscribers i).made := hremaining ▸ hbooks.remaining
  have hrest : Subscriber.remaining { s.subscribers i with place := place } = rest := by
    rcases hplace with rfl | rfl
    · rfl
    · rfl
  have hview := hdoc.disconnect (s.sources c.source) c.slot
  set t := (s.setSource c.source (lib.disconnect (s.sources c.source) c.slot)).setSubscriber i
    { s.subscribers i with place := place } with ht
  have hknown : ∀ c', Known view t c' ↔ Known view s c' := by
    rintro ⟨source, slot⟩
    simp only [Known, ht, System.setSubscriber, System.setSource]
    by_cases hk : source = c.source
    · subst hk
      rw [Function.update_self, hview, Signal.disconnect, List.length_modify]
    · rw [Function.update_of_ne hk]
  have hlive : ∀ c', Live view t c' ↔ Live view s c' ∧ c' ≠ c := by
    obtain ⟨k, id⟩ := c
    rintro ⟨source, slot⟩
    simp only [Live, ht, System.setSubscriber, System.setSource, ne_eq, Connection.mk.injEq]
    by_cases hk : source = k
    · subst hk
      rw [Function.update_self, hview, Signal.disconnect_connected]
      simp
    · rw [Function.update_of_ne hk]
      simp [hk]
  apply h.update (i := i) rfl
  · exact h.ordered_update (hview ▸ Signal.disconnect_ordered (h.ordered _) c.slot)
  · exact fun c' hc => (hknown c').mpr hc
  · intro c'
    rw [hknown]
    exact ⟨Or.inl, fun hc => hc.resolve_right fun hnew => hnew.2 hnew.1⟩
  · intro j hj c' hc'
    rw [hlive]
    refine ⟨And.left, fun hl => ⟨hl, ?_⟩⟩
    rintro rfl
    exact hj (h.alone j i c' hc' (hmade (List.mem_cons_self ..)))
  · refine ⟨fun c' hc => (hknown c').mpr (hbooks.known c' hc), hbooks.vector, ?_, ?_, ?_⟩
    · rw [hrest]
      exact List.Subset.trans (List.subset_cons_self c rest) hmade
    · intro c' hc' hl
      obtain ⟨hl, hne⟩ := (hlive c').mp hl
      have hmem := hbooks.live c' hc' hl
      rw [hremaining] at hmem
      rw [hrest]
      exact (List.mem_cons.mp hmem).resolve_left hne
    · intro heq
      rcases hplace with rfl | rfl
      · cases heq
      · cases heq

/-- A source goes on. -/
theorem setSource_inv (h : Inv view s) {k : Nat} {state : lib.State}
    (hordered : (view state).Ordered)
    (hlength : (view state).slots.length = (view (s.sources k)).slots.length)
    (hconnected : ∀ id, (view state).Connected id ↔ (view (s.sources k)).Connected id) :
    Inv view (s.setSource k state) := by
  have hknown : ∀ c, Known view (s.setSource k state) c ↔ Known view s c := by
    intro c
    simp only [Known, System.setSource]
    by_cases hk : c.source = k
    · rw [hk, Function.update_self, hlength]
    · rw [Function.update_of_ne hk]
  have hlive : ∀ c, Live view (s.setSource k state) c ↔ Live view s c := by
    intro c
    simp only [Live, System.setSource]
    by_cases hk : c.source = k
    · rw [hk, Function.update_self, hconnected]
    · rw [Function.update_of_ne hk]
  refine ⟨h.ordered_update hordered, fun c hc => h.owned c ((hknown c).mp hc), h.alone,
    fun i => ?_⟩
  exact (h.books i).other (fun c => (hknown c).mpr) fun c _ => hlive c

theorem step_inv (hdoc : Documented lib view) {l : Label μ} (h : Inv view s)
    (hstep : step lib s l = some s') : Inv view s' := by
  cases l with
  | subscribe i k =>
      rw [step] at hstep
      split at hstep
      · rename_i hready
        obtain rfl := Option.some.inj hstep
        exact subscribe_inv hdoc h hready k
      · cases hstep
  | unsubscribe i =>
      rw [step] at hstep
      split at hstep
      · rename_i hready
        obtain rfl := Option.some.inj hstep
        exact leave_inv h hready (Or.inl rfl)
      · cases hstep
  | destroy i =>
      rw [step] at hstep
      split at hstep
      · rename_i hready
        obtain rfl := Option.some.inj hstep
        exact leave_inv h hready (Or.inr rfl)
      · cases hstep
  | disconnect i =>
      rw [step, disconnectNext] at hstep
      split at hstep
      · rename_i hplace
        obtain rfl := Option.some.inj hstep
        refine unsubscribed_inv h ?_ (Or.inl rfl)
        rw [Subscriber.remaining, hplace]
      · rename_i hplace
        obtain rfl := Option.some.inj hstep
        refine unsubscribed_inv h ?_ (Or.inr rfl)
        rw [Subscriber.remaining, hplace]
      · rename_i c rest hplace
        obtain rfl := Option.some.inj hstep
        refine disconnect_inv hdoc h ?_ (Or.inl rfl)
        rw [Subscriber.remaining, hplace]
      · rename_i c rest hplace
        obtain rfl := Option.some.inj hstep
        refine disconnect_inv hdoc h ?_ (Or.inr rfl)
        rw [Subscriber.remaining, hplace]
      · cases hstep
  | emit k message =>
      rw [step] at hstep
      split at hstep
      · rename_i hidle
        obtain rfl := Option.some.inj hstep
        have hview := hdoc.emit _ message hidle
        refine setSource_inv h ?_ ?_ ?_
        · rw [hview]
          exact Signal.emit_ordered (h.ordered k) (hdoc.idle _ hidle) message
        · rw [hview, Signal.emit]
        · intro id
          rw [hview]
          exact Iff.rfl
      · cases hstep
  | proceed k =>
      obtain ⟨state, hstate, rfl⟩ := Option.map_eq_some_iff.mp hstep
      have hproceeds := hdoc.proceed _ _ hstate
      obtain ⟨hlength, hconnected⟩ := Signal.proceed_connected hproceeds
      exact setSource_inv h (Signal.proceed_ordered (h.ordered k) hproceeds) hlength hconnected

end Invariant

section Runs

variable {μ : Type*} {lib : Library μ} {view : lib.State → Signal μ} {s s' : System lib.State}

/-- To a source, every step is one of its own. -/
theorem step_source (hdoc : Documented lib view) {l : Label μ} (hstep : step lib s l = some s')
    (k : Nat) :
    s'.sources k = s.sources k ∨ (view (s.sources k)).Acts (view (s'.sources k)) := by
  have hset : ∀ {j : Nat} {state : lib.State}, (view (s.sources j)).Acts (view state) →
      Function.update s.sources j state k = s.sources k ∨
        (view (s.sources k)).Acts (view (Function.update s.sources j state k)) := by
    intro j state hacts
    by_cases hk : k = j
    · subst hk
      rw [Function.update_self]
      exact Or.inr hacts
    · rw [Function.update_of_ne hk]
      exact Or.inl rfl
  cases l with
  | subscribe i j =>
      rw [step] at hstep
      split at hstep
      · obtain rfl := Option.some.inj hstep
        exact hset (hdoc.connect _ ▸ Signal.Acts.connect)
      · cases hstep
  | unsubscribe i | destroy i =>
      rw [step] at hstep
      split at hstep
      · obtain rfl := Option.some.inj hstep
        exact Or.inl rfl
      · cases hstep
  | disconnect i =>
      rw [step, disconnectNext] at hstep
      split at hstep
      · obtain rfl := Option.some.inj hstep
        exact Or.inl rfl
      · obtain rfl := Option.some.inj hstep
        exact Or.inl rfl
      · rename_i c rest _
        obtain rfl := Option.some.inj hstep
        exact hset (hdoc.disconnect _ c.slot ▸ Signal.Acts.disconnect c.slot)
      · rename_i c rest _
        obtain rfl := Option.some.inj hstep
        exact hset (hdoc.disconnect _ c.slot ▸ Signal.Acts.disconnect c.slot)
      · cases hstep
  | emit j message =>
      rw [step] at hstep
      split at hstep
      · rename_i hidle
        obtain rfl := Option.some.inj hstep
        exact hset (hdoc.emit _ message hidle ▸ Signal.Acts.emit message (hdoc.idle _ hidle))
      · cases hstep
  | proceed j =>
      obtain ⟨state, hstate, rfl⟩ := Option.map_eq_some_iff.mp hstep
      exact hset (Signal.Acts.proceed _ (hdoc.proceed _ _ hstate))

/-- A connection that was cut hears nothing more. -/
structure Silent (view : lib.State → Signal μ) (s s' : System lib.State) (c : Connection) :
    Prop where
  heard : (view (s'.sources c.source)).slots[c.slot]? = (view (s.sources c.source)).slots[c.slot]?
  running : (view (s.sources c.source)).running ≠ some c.slot →
    (view (s'.sources c.source)).running ≠ some c.slot

theorem silent_of_exec (hdoc : Documented lib view) {labels : List (Label μ)}
    (hexec : exec (step lib) s labels = some s') {c : Connection} (hknown : Known view s c)
    (hgone : ¬ Live view s c) : Silent view s s' c := by
  obtain ⟨slot, hslot⟩ : ∃ slot, (view (s.sources c.source)).slots[c.slot]? = some slot :=
    ⟨_, List.getElem?_eq_getElem hknown⟩
  have hcut : slot.connected = false :=
    Bool.eq_false_iff.mpr fun hconnected => hgone ⟨slot, hslot, hconnected⟩
  have hsilent : (view (s'.sources c.source)).slots[c.slot]? = some slot ∧
      ((view (s.sources c.source)).running ≠ some c.slot →
        (view (s'.sources c.source)).running ≠ some c.slot) := by
    induction labels using List.reverseRecOn generalizing s' with
    | nil =>
        obtain rfl := Option.some.inj hexec
        exact ⟨hslot, id⟩
    | append_singleton labels l ih =>
        obtain ⟨t, ht, hstep⟩ := exec_snoc_eq_some _ hexec
        obtain ⟨hheard, hrunning⟩ := ih ht
        rcases step_source hdoc hstep c.source with heq | hacts
        · rw [heq]
          exact ⟨hheard, hrunning⟩
        · exact ⟨Signal.acts_gone hacts hheard hcut,
            fun h => Signal.acts_quiet hacts hheard hcut (hrunning h)⟩
  exact ⟨hsilent.1.trans hslot.symm, hsilent.2⟩

/-- Every connection hears an unbroken part of what its source forwards and belongs to one
subscriber. A subscriber is connected by what it subscribed to since it last unsubscribed, and
by nothing once it is destroyed. -/
structure Kept (view : lib.State → Signal μ) (s : System lib.State) : Prop where
  hears : ∀ k id slot, (view (s.sources k)).slots[id]? = some slot →
    (view (s.sources k)).Hears id slot
  owner : ∀ c, Known view s c → ∃! i, c ∈ (s.subscribers i).made
  connected : ∀ i, (s.subscribers i).place = .ready →
    ∀ c ∈ (s.subscribers i).made, Live view s c ↔ c ∈ (s.subscribers i).current
  destroyed : ∀ i, (s.subscribers i).place = .destroyed →
    ∀ c ∈ (s.subscribers i).made, ¬ Live view s c

theorem Inv.kept (h : Inv view s) : Kept view s where
  hears := fun k => (h.ordered k).hears
  owner := by
    intro c hc
    obtain ⟨i, hi⟩ := h.owned c hc
    exact ⟨i, hi, fun j hj => h.alone j i c hj hi⟩
  connected := by
    intro i hready c hc
    have hbooks := h.books i
    have hlive := hbooks.live c hc
    rw [Subscriber.remaining_ready hready] at hlive
    exact ⟨hlive, hbooks.standing hready c⟩
  destroyed := by
    intro i hplace c hc hl
    have hmem := (h.books i).live c hc hl
    rw [Subscriber.remaining, hplace] at hmem
    cases hmem

/-- Whatever is subscribed, unsubscribed and destroyed while sources forward, the connections
are kept, and a subscriber that was destroyed is not called again. -/
theorem subscribed_of_exec (lib : Library μ) (view : lib.State → Signal μ)
    (hdoc : Documented lib view) (kinds : Nat → Kind) (labels : List (Label μ))
    (s : System lib.State) (hexec : exec (step lib) (start lib kinds) labels = some s) :
    Kept view s ∧ ∀ labels' s', exec (step lib) s labels' = some s' →
      ∀ i, (s.subscribers i).place = .destroyed →
        ∀ c ∈ (s.subscribers i).made, Silent view s s' c := by
  have hinv := invariant_of_step (fun _ _ _ => step_inv hdoc) (start_inv hdoc kinds) hexec
  refine ⟨hinv.kept, fun labels' s' hexec' i hplace c hc => ?_⟩
  exact silent_of_exec hdoc hexec' ((hinv.books i).known c hc) (hinv.kept.destroyed i hplace c hc)

/-- A segmenter is destroyed while it is called with a packet, which nobody waits for. -/
def destroyedInCall : List (Label Nat) :=
  [.subscribe 0 0, .subscribe 1 0, .emit 0 7, .proceed 0, .destroy 0, .disconnect 0,
    .disconnect 0]

theorem subscribed_of_exec_sample :
    ∃ s : System (Library.plain Nat).State,
      exec (step (Library.plain Nat)) (start (Library.plain Nat) fun _ => .packetSubscriber)
        destroyedInCall = some s ∧
      (s.subscribers 0).place = .destroyed ∧
      (Library.seen Nat (s.sources 0)).running = some 0 ∧ Kept (Library.seen Nat) s ∧
      ∀ labels' s', exec (step (Library.plain Nat)) s labels' = some s' →
        ∀ i, (s.subscribers i).place = .destroyed →
          ∀ c ∈ (s.subscribers i).made, Silent (Library.seen Nat) s s' c :=
  ⟨_, rfl, rfl, rfl, subscribed_of_exec (Library.plain Nat) (Library.seen Nat)
    (plain_documented Nat) (fun _ => .packetSubscriber) destroyedInCall _ rfl⟩

end Runs

end Media2.Subscriptions
