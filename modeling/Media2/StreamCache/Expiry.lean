import Mathlib.Data.List.AList
import Media2.StreamCache

/-!
# The cleanup pass and its iterator

The range-for of `expireEntries` walks along the nodes of the map and erases the node that
it stands on. The increment then starts from a node that is gone, whichever node it was, so
a pass is sound exactly as long as it finds nothing to erase.

## Implementation notes

The list of a map holds its nodes in the order of iteration, and an iterator is the key of
the node that it stands on. No two nodes have one key, so that a key names its node for good.
-/

namespace Media2.StreamCache

/-- The nodes of the map, in the order in which an iterator comes to them. -/
abbrev Nodes := AList fun _ : String => StreamCacheRecord

/-- What becomes of an iterator whose node was erased. -/
inductive Dangling
  /-- `*it` on an erased node. -/
  | dereferenced (key : String)
  /-- `++it` from an erased node. -/
  | advanced (key : String)
  /-- The walk did not end. -/
  | endless
  deriving DecidableEq

/-- `++it` from the node of a key, with `none` for `end()`. -/
def advance : List String → String → Except Dangling (Option String)
  | [], key => .error (.advanced key)
  | k :: keys, key => if k = key then .ok keys.head? else advance keys key

/-- A pass on its way: the map, the iterator and the keys of the nodes visited. -/
structure Pass where
  nodes : Nodes
  it : Option String
  visited : List String

namespace Pass

/-- The iterator stands at `begin()`. -/
def start (nodes : Nodes) : Pass where
  nodes := nodes
  it := nodes.keys.head?
  visited := []

/-- The body of the loop, before the iterator moves. -/
def visit (now : String → Int) (p : Pass) (key : String) (record : StreamCacheRecord) : Pass :=
  { p with
    nodes := if record.expires < now key then p.nodes.erase key else p.nodes
    visited := p.visited ++ [key] }

/-- One turn of the loop at the node of a key. -/
def turn (now : String → Int) (p : Pass) (key : String) : Except Dangling Pass :=
  match p.nodes.lookup key with
  | none => .error (.dereferenced key)
  | some record => do
      let p := p.visit now key record
      let it ← advance p.nodes.keys key
      pure { p with it := it }

/-- The loop, with a bound on its turns. It leaves early when the flag is set. -/
def loop (shutdownFlag : String → Bool) (now : String → Int) :
    Nat → Pass → Except Dangling Pass
  | 0, _ => .error .endless
  | turns + 1, p =>
      match p.it with
      | none => .ok p
      | some key =>
          if shutdownFlag key then .ok p
          else p.turn now key >>= loop shutdownFlag now turns

end Pass

/-- One pass of `expireEntries` over the map. The flag and the clock are read anew at every
node. There is a turn for each node and one for `end()`. -/
def expirePass (shutdownFlag : String → Bool) (now : String → Int) (nodes : Nodes) :
    Except Dangling Pass :=
  Pass.loop shutdownFlag now (nodes.entries.length + 1) (Pass.start nodes)

/-- The entry's time has passed when the clock is read for it. -/
def Due (now : String → Int) (entry : Sigma fun _ : String => StreamCacheRecord) : Prop :=
  entry.2.expires < now entry.1

instance (now : String → Int) : DecidablePred (Due now) :=
  fun entry => inferInstanceAs (Decidable (entry.2.expires < now entry.1))

/-- The pass came to its end, visited every node once and removed the entries that were due
and nothing else. -/
structure Exact (now : String → Int) (nodes : Nodes) (p : Pass) : Prop where
  done : p.it = none
  visited : p.visited = nodes.keys
  removed : p.nodes.entries = nodes.entries.filter fun entry => ¬ Due now entry

/-- From a node that is still there the iterator moves on to the next one. -/
theorem advance_split {pre post : List String} {key : String} (h : key ∉ pre) :
    advance (pre ++ key :: post) key = .ok post.head? := by
  induction pre with
  | nil => simp [advance]
  | cons k pre ih =>
      have hne : k ≠ key := by
        rintro rfl
        exact h List.mem_cons_self
      rw [List.cons_append, advance, if_neg hne]
      exact ih fun hmem => h (List.mem_cons_of_mem k hmem)

/-- There is no way on from a node that was erased. -/
theorem advance_erased {keys : List String} {key : String} (h : key ∉ keys) :
    advance keys key = .error (.advanced key) := by
  induction keys with
  | nil => rfl
  | cons k keys ih =>
      have hne : k ≠ key := by
        rintro rfl
        exact h List.mem_cons_self
      rw [advance, if_neg hne]
      exact ih fun hmem => h (List.mem_cons_of_mem k hmem)

section Loop

variable {now : String → Int} {p : Pass} {key : String} {record : StreamCacheRecord}

/-- The node that was erased is the one that the iterator has to leave. -/
theorem turn_due (hlookup : p.nodes.lookup key = some record) (hdue : record.expires < now key) :
    p.turn now key = .error (.advanced key) := by
  have hgone : key ∉ (p.nodes.erase key).keys := by
    rw [← AList.mem_keys]
    simp
  simp only [Pass.turn, hlookup, Pass.visit, if_pos hdue, advance_erased hgone]
  rfl

theorem turn_kept {pre post : List String} (hlookup : p.nodes.lookup key = some record)
    (hkept : ¬ record.expires < now key) (hkeys : p.nodes.keys = pre ++ key :: post) :
    p.turn now key = .ok ⟨p.nodes, post.head?, p.visited ++ [key]⟩ := by
  have hpre : key ∉ pre := by
    have hnodup := p.nodes.keys_nodup
    rw [hkeys, List.nodup_append] at hnodup
    exact fun hmem => hnodup.2.2 key hmem key List.mem_cons_self rfl
  simp only [Pass.turn, hlookup, Pass.visit, if_neg hkept, hkeys, advance_split hpre]
  rfl

/-- The rest of a pass is decided by the first entry in it that is due. -/
theorem loop_rest (now : String → Int) (nodes : Nodes)
    {done rest : List (Sigma fun _ : String => StreamCacheRecord)}
    (hnodes : nodes.entries = done ++ rest) {turns : Nat} (hturns : rest.length < turns) :
    Pass.loop (fun _ => false) now turns ⟨nodes, rest.keys.head?, done.keys⟩ =
      match rest.find? fun entry => Due now entry with
      | some entry => .error (.advanced entry.1)
      | none => .ok ⟨nodes, none, nodes.keys⟩ := by
  induction rest generalizing done turns with
  | nil =>
      obtain ⟨turns, rfl⟩ := Nat.exists_eq_succ_of_ne_zero (Nat.ne_of_gt hturns)
      have hkeys : nodes.keys = done.keys := by rw [AList.keys, hnodes, List.append_nil]
      rw [hkeys]
      rfl
  | cons entry rest ih =>
      obtain ⟨turns, rfl⟩ := Nat.exists_eq_succ_of_ne_zero (Nat.ne_of_gt (Nat.zero_lt_of_lt hturns))
      obtain ⟨key, record⟩ := entry
      have hlookup : nodes.lookup key = some record := by
        rw [← Option.mem_def, AList.mem_lookup_iff, hnodes]
        simp
      have hkeys : nodes.keys = done.keys ++ key :: rest.keys := by
        rw [AList.keys, hnodes, List.keys, List.map_append]
        rfl
      by_cases hdue : record.expires < now key
      · have hturn : (Pass.mk nodes (some key) done.keys).turn now key =
            .error (.advanced key) := turn_due hlookup hdue
        have hfind : decide (Due now ⟨key, record⟩) = true := decide_eq_true hdue
        simp only [List.keys_cons, List.head?_cons, Pass.loop, hturn, List.find?_cons, hfind]
        rfl
      · have hturn : (Pass.mk nodes (some key) done.keys).turn now key =
            .ok ⟨nodes, rest.keys.head?, done.keys ++ [key]⟩ := turn_kept hlookup hdue hkeys
        have hfind : decide (Due now ⟨key, record⟩) = false := decide_eq_false hdue
        have hrest : nodes.entries = done ++ [⟨key, record⟩] ++ rest := by simp [hnodes]
        have hleft : rest.length < turns := by simpa using hturns
        have hgo := ih hrest hleft
        rw [List.keys, List.map_append] at hgo
        simp only [List.keys_cons, List.head?_cons, Pass.loop, hturn, List.find?_cons, hfind]
        exact hgo

end Loop

/-- A pass ends where it finds the first entry to erase. -/
theorem expirePass_eq (now : String → Int) (nodes : Nodes) :
    expirePass (fun _ => false) now nodes =
      match nodes.entries.find? fun entry => Due now entry with
      | some entry => .error (.advanced entry.1)
      | none => .ok ⟨nodes, none, nodes.keys⟩ :=
  loop_rest now nodes (List.nil_append _).symm (Nat.lt_succ_self _)

/-- A pass is exact and safe if and only if no entry of the map is due. -/
theorem expirePass_exact_iff (now : String → Int) (nodes : Nodes) :
    (∃ p, expirePass (fun _ => false) now nodes = .ok p ∧ Exact now nodes p) ↔
      ∀ entry ∈ nodes.entries, ¬ Due now entry := by
  rw [expirePass_eq]
  constructor
  · rintro ⟨p, hpass, -⟩ entry hentry hdue
    cases hfind : nodes.entries.find? fun entry => Due now entry with
    | some _ =>
        rw [hfind] at hpass
        cases hpass
    | none =>
        have hnot := List.find?_eq_none.mp hfind entry hentry
        exact hnot (decide_eq_true hdue)
  · intro hnone
    have hfind : (nodes.entries.find? fun entry => Due now entry) = none := by
      simpa [List.find?_eq_none] using hnone
    have hall : (nodes.entries.filter fun entry => ¬ Due now entry) = nodes.entries := by
      simpa [List.filter_eq_self] using hnone
    refine ⟨⟨nodes, none, nodes.keys⟩, by rw [hfind], ?_⟩
    constructor
    · rfl
    · rfl
    · exact hall.symm

/-- The map that an exact pass leaves behind holds what `expireEntries` is to leave. -/
theorem Exact.lookup {now : String → Int} {nodes : Nodes} {p : Pass} (h : Exact now nodes p)
    {c : StreamCache} (hc : ∀ key, nodes.lookup key = c.cache key) (key : String) :
    p.nodes.lookup key = (c.expireEntries now).cache key := by
  have hmem : ∀ record, (⟨key, record⟩ : Sigma fun _ => StreamCacheRecord) ∈ nodes.entries ↔
      c.cache key = some record := by
    intro record
    rw [← hc, ← AList.mem_lookup_iff, Option.mem_def]
  apply Option.ext
  intro record
  rw [← Option.mem_def, AList.mem_lookup_iff, h.removed, List.mem_filter, hmem,
    expireEntries_eq_some, decide_eq_true_iff]
  rfl

/-- A map with one stream, which expires at time 0. -/
def oneEntry : Nodes := AList.singleton "job" ⟨⟨0, none⟩, 0⟩

/-- One tick later the pass erases its node and increments the iterator. -/
theorem erased_node_advanced :
    ¬ ∃ p, expirePass (fun _ => false) (fun _ => 1) oneEntry = .ok p ∧
      Exact (fun _ => 1) oneEntry p := by
  rintro ⟨p, hpass, -⟩
  rw [expirePass_eq] at hpass
  cases hpass

end Media2.StreamCache
