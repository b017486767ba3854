import Mathlib.Data.List.AList

/-!
# Linked lists in a heap

A heap holds nodes at addresses, and each node has the address of the next one. No node
lies at the null pointer. A loop along such a list visits one node after the other. It
ends at the null pointer, or goes wrong at an address where there is no node.

A loop that frees what it visits must not come back to a node, and a loop that only looks
at the nodes does not end if it does. So a visit takes each node out of the heap, and an
address that is met for the second time is one without a node.

`Linked` says which nodes lie between two addresses. Of a node it keeps only what `tag`
returns, so that the nodes may be written as long as their links and tags stay.
-/

namespace Gray386.Machine

universe u v w

/-- Nodes at addresses. -/
abbrev Heap (Address : Type u) (Node : Type v) := AList (fun _ : Address => Node)

namespace Heap

variable {Address : Type u} {Node : Type v} {Tag : Type w} [DecidableEq Address]
variable (link : Node → Address) (null : Address)

/-- A visit of at most so many nodes, with what lies at the last address. -/
def visitWithin : Nat → Heap Address Node → Address → List (Address × Option Node)
  | 0, _, address => if address = null then [] else [(address, none)]
  | count + 1, heap, address =>
      if address = null then []
      else
        match heap.lookup address with
        | none => [(address, none)]
        | some node => (address, some node) :: visitWithin count (heap.erase address) (link node)

/-- The nodes from an address on. There are not more of them than the heap has. -/
def visit (heap : Heap Address Node) (address : Address) : List (Address × Option Node) :=
  visitWithin link null heap.keys.length heap address

variable {heap : Heap Address Node} {address : Address}

@[simp]
theorem visit_null (heap : Heap Address Node) : visit link null heap null = [] := by
  simp only [visit]
  cases heap.keys.length <;> simp [visitWithin]

theorem visit_of_lookup_none (ne : address ≠ null) (missing : heap.lookup address = none) :
    visit link null heap address = [(address, none)] := by
  simp only [visit]
  cases heap.keys.length <;> simp [visitWithin, ne, missing]

theorem visit_of_lookup_some {node : Node} (ne : address ≠ null)
    (found : heap.lookup address = some node) :
    visit link null heap address =
      (address, some node) :: visit link null (heap.erase address) (link node) := by
  have member : address ∈ heap.keys := by
    rw [← AList.mem_keys, ← AList.lookup_isSome, found]
    rfl
  have fewer : heap.keys.length = (heap.erase address).keys.length + 1 := by
    have positive := List.length_pos_of_mem member
    rw [AList.keys_erase, List.length_erase_of_mem member]
    omega
  simp only [visit, fewer, visitWithin, ne, if_false, found]

theorem visit_ne_nil (heap : Heap Address Node) (ne : address ≠ null) :
    visit link null heap address ≠ [] := by
  cases found : heap.lookup address with
  | none => simp [visit_of_lookup_none link null ne found]
  | some node => simp [visit_of_lookup_some link null ne found]

variable (tag : Node → Tag)

/-- From the first address the links lead along these nodes to the last address. -/
def Linked (heap : Heap Address Node) : Address → List (Address × Tag) → Address → Prop
  | first, [], last => first = last
  | first, (address, mark) :: rest, last =>
      first = address ∧ address ≠ null ∧
        ∃ node, heap.lookup address = some node ∧ tag node = mark ∧
          Linked heap (link node) rest last

variable {link null tag} {nodes : List (Address × Tag)} {first last : Address}

namespace Linked

theorem snoc {node : Node} (linked : Linked link null tag heap first nodes address)
    (ne : address ≠ null)
    (found : heap.lookup address = some node) :
    Linked link null tag heap first (nodes ++ [(address, tag node)]) (link node) := by
  induction nodes generalizing first with
  | nil => exact ⟨linked, ne, node, found, rfl, rfl⟩
  | cons head rest ih =>
      rcases linked with ⟨rfl, head_ne, other, other_found, marked, linked⟩
      exact ⟨rfl, head_ne, other, other_found, marked, ih linked⟩

/-- Only the links and the tags of the nodes in question matter. -/
theorem transport {heap' : Heap Address Node} (linked : Linked link null tag heap first nodes last)
    (same : ∀ address ∈ nodes.map Prod.fst, ∀ node, heap.lookup address = some node →
      ∃ node', heap'.lookup address = some node' ∧ link node' = link node ∧
        tag node' = tag node) :
    Linked link null tag heap' first nodes last := by
  induction nodes generalizing first with
  | nil => exact linked
  | cons head rest ih =>
      rcases linked with ⟨rfl, head_ne, node, found, marked, linked⟩
      rcases same head.1 (by simp) node found with ⟨node', found', link_eq, tag_eq⟩
      refine ⟨rfl, head_ne, node', found', tag_eq.trans marked, ?_⟩
      rw [link_eq]
      apply ih linked
      intro address address_mem
      exact same address (by simpa using Or.inr address_mem)

theorem insert_elsewhere {node : Node} (linked : Linked link null tag heap first nodes last)
    (elsewhere : address ∉ nodes.map Prod.fst) :
    Linked link null tag (heap.insert address node) first nodes last := by
  apply linked.transport
  intro other other_mem found other_found
  have ne : other ≠ address := by
    rintro rfl
    exact elsewhere other_mem
  exact ⟨found, by rw [AList.lookup_insert_ne ne, other_found], rfl, rfl⟩

theorem erase_elsewhere (linked : Linked link null tag heap first nodes last)
    (elsewhere : address ∉ nodes.map Prod.fst) :
    Linked link null tag (heap.erase address) first nodes last := by
  apply linked.transport
  intro other other_mem found other_found
  have ne : other ≠ address := by
    rintro rfl
    exact elsewhere other_mem
  exact ⟨found, by rw [AList.lookup_erase_ne ne, other_found], rfl, rfl⟩

/-- A node may be written if its link and its tag stay. -/
theorem insert_same {node node' : Node} (linked : Linked link null tag heap first nodes last)
    (found : heap.lookup address = some node) (link_eq : link node' = link node)
    (tag_eq : tag node' = tag node) :
    Linked link null tag (heap.insert address node') first nodes last := by
  apply linked.transport
  intro other _ found' other_found
  by_cases eq : other = address
  · subst eq
    rw [found] at other_found
    cases other_found
    exact ⟨node', AList.lookup_insert heap, link_eq, tag_eq⟩
  · exact ⟨found', by rw [AList.lookup_insert_ne eq, other_found], rfl, rfl⟩

/-- In a list that ends, a node leads to another one or to the end. -/
theorem exists_lookup (linked : Linked link null tag heap first nodes null)
    (address_mem : address ∈ nodes.map Prod.fst) :
    ∃ node, heap.lookup address = some node ∧
      (link node = null ∨ link node ∈ nodes.map Prod.fst) := by
  induction nodes generalizing first with
  | nil => simp at address_mem
  | cons head rest ih =>
      rcases linked with ⟨rfl, -, node, found, -, linked⟩
      rcases List.mem_cons.mp address_mem with rfl | later
      · refine ⟨node, found, ?_⟩
        cases rest with
        | nil => exact Or.inl linked
        | cons second rest =>
            rw [linked.1]
            exact Or.inr (by simp)
      · rcases ih linked later with ⟨other, other_found, ended | member⟩
        · exact ⟨other, other_found, Or.inl ended⟩
        · exact ⟨other, other_found, Or.inr (List.mem_cons_of_mem _ member)⟩

/-- A visit comes along the nodes and goes on behind them. -/
theorem visit_eq (linked : Linked link null tag heap first nodes last)
    (nodup : (nodes.map Prod.fst).Nodup) :
    ∃ heap', (visit link null heap first).map (Prod.map id (Option.map tag)) =
      nodes.map (Prod.map id some) ++
        (visit link null heap' last).map (Prod.map id (Option.map tag)) := by
  induction nodes generalizing heap first with
  | nil =>
      cases linked
      exact ⟨heap, rfl⟩
  | cons head rest ih =>
      rcases linked with ⟨rfl, ne, node, found, marked, linked⟩
      rw [List.map_cons, List.nodup_cons] at nodup
      rcases ih (linked.erase_elsewhere nodup.1) nodup.2 with ⟨heap', visited⟩
      refine ⟨heap', ?_⟩
      rw [visit_of_lookup_some link null ne found, List.map_cons, visited, List.map_cons,
        List.cons_append]
      simp [← marked, Prod.map]

end Linked

variable {count : Nat} {location : Nat → Address} {content : Nat → Node}

variable (link null) in
/-- A list that ends, by the addresses and the contents of its nodes. -/
structure Row (heap : Heap Address Node) (count : Nat) (location : Nat → Address)
    (content : Nat → Node) : Prop where
  ne_null : ∀ i < count, location i ≠ null
  apart : ∀ i < count, ∀ j < count, location i = location j → i = j
  found : ∀ i < count, heap.lookup (location i) = some (content i)
  link_eq : ∀ i < count, link (content i) = if i + 1 < count then location (i + 1) else null

namespace Row

theorem tail (row : Row link null heap (count + 1) location content) :
    Row link null (heap.erase (location 0)) count (fun i => location (i + 1))
      (fun i => content (i + 1)) where
  ne_null i i_lt := row.ne_null (i + 1) (by omega)
  apart i i_lt j j_lt same := by
    have := row.apart (i + 1) (by omega) (j + 1) (by omega) same
    omega
  found i i_lt := by
    have ne : location (i + 1) ≠ location 0 := by
      intro same
      have := row.apart (i + 1) (by omega) 0 (by omega) same
      omega
    rw [AList.lookup_erase_ne ne]
    exact row.found (i + 1) (by omega)
  link_eq i i_lt := by
    rw [row.link_eq (i + 1) (by omega)]
    simp

theorem visit_eq (row : Row link null heap count location content) :
    visit link null heap (if 0 < count then location 0 else null) =
      (List.range count).map fun i => (location i, some (content i)) := by
  induction count generalizing heap location content with
  | zero => simp
  | succ count ih =>
      rw [if_pos (by omega), visit_of_lookup_some link null (row.ne_null 0 (by omega))
        (row.found 0 (by omega)), row.link_eq 0 (by omega), List.range_succ_eq_map, List.map_cons,
        List.map_map]
      have later := ih row.tail
      simp only [Nat.add_lt_add_iff_right] at later ⊢
      rw [later]
      rfl

/-- A node may be written if its link stays. -/
theorem update (row : Row link null heap count location content) {i : Nat} (i_lt : i < count)
    {node : Node} (link_eq : link node = link (content i)) :
    Row link null (heap.insert (location i) node) count location
      (Function.update content i node) where
  ne_null := row.ne_null
  apart := row.apart
  found j j_lt := by
    by_cases same : j = i
    · subst same
      rw [AList.lookup_insert, Function.update_self]
    · have ne : location j ≠ location i := fun eq => same (row.apart j j_lt i i_lt eq)
      rw [AList.lookup_insert_ne ne, Function.update_of_ne same]
      exact row.found j j_lt
  link_eq j j_lt := by
    by_cases same : j = i
    · subst same
      rw [Function.update_self, link_eq]
      exact row.link_eq j j_lt
    · rw [Function.update_of_ne same]
      exact row.link_eq j j_lt

end Row

end Heap

end Gray386.Machine
