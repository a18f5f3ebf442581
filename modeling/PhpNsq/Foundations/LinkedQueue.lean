import Mathlib.Data.List.Nodup
import Mathlib.Logic.Function.Basic

/-!
# Singly linked queues in a heap

A heap maps addresses to cells, each a value and a link to the next cell. A chain
from a pointer is the list of the cells visited by following the links until the
null pointer; a heap determines it (`Chain.unique`), and it visits no address
twice (`Chain.nodup`).

A queue is kept as two pointers, to the first and to the last cell of a chain.
`Represents` relates them to the list of values of the chain. The two operations
of the pointer structure are the operations of the list: linking a new cell behind
the last one appends its value (`Represents.push_empty`, `Represents.push`), and moving the
head along its link removes the first value (`Represents.pop`). Cells outside
the chain do not matter (`Represents.frame`).

`follow` walks along the links. From the head of a represented list it passes the values
in order, is at the tail pointer in front of the last one, and is null from the length on.
-/

set_option autoImplicit false

namespace Foundations

/-- A heap cell of a linked list. -/
structure Cell (α : Type*) where
  value : α
  next : Option ℕ

/-- A heap: the cells that are allocated, by address. -/
abbrev Heap (α : Type*) := ℕ → Option (Cell α)

variable {α : Type*}

/-- The cells visited from a pointer until the null pointer. -/
def Chain (heap : Heap α) : Option ℕ → List (ℕ × α) → Prop
  | start, [] => start = none
  | start, (address, value) :: rest =>
      start = some address ∧ ∃ next, heap address = some ⟨value, next⟩ ∧ Chain heap next rest

/-- The pointer after following so many links. -/
def follow (heap : Heap α) : ℕ → Option ℕ → Option ℕ
  | 0, pointer => pointer
  | steps + 1, pointer =>
      follow heap steps (pointer.bind fun address => (heap address).bind Cell.next)

variable {heap : Heap α}

/-- A pointer starts at most one chain. -/
theorem Chain.unique {start : Option ℕ} {first second : List (ℕ × α)}
    (left : Chain heap start first) (right : Chain heap start second) : first = second := by
  induction first generalizing start second with
  | nil =>
      cases second with
      | nil => rfl
      | cons node rest => cases left.symm.trans right.1
  | cons node rest ih =>
      obtain ⟨here, next, cell, more⟩ := left
      cases second with
      | nil => cases here.symm.trans right
      | cons node' rest' =>
          obtain ⟨here', next', cell', more'⟩ := right
          have address : node.1 = node'.1 := Option.some.inj (here.symm.trans here')
          rw [address, cell'] at cell
          injection cell with cell
          injection cell with value link
          rw [ih more (link ▸ more'), Prod.ext address value.symm]

/-- Every visited address starts the chain of the cells from there on. -/
theorem Chain.from_mem {start : Option ℕ} {nodes : List (ℕ × α)} (chain : Chain heap start nodes)
    {address : ℕ} (visited : address ∈ nodes.map Prod.fst) :
    ∃ rest, rest.length ≤ nodes.length ∧ Chain heap (some address) rest := by
  induction nodes generalizing start with
  | nil => simp at visited
  | cons node nodes ih =>
      obtain ⟨here, next, cell, more⟩ := chain
      rcases List.mem_cons.mp visited with same | later
      · exact ⟨node :: nodes, Nat.le_refl _, by rw [same], next, cell, more⟩
      · obtain ⟨rest, shorter, tail⟩ := ih more later
        exact ⟨rest, by rw [List.length_cons]; omega, tail⟩

/-- Every visited node is the content of its cell. -/
theorem Chain.cell_of_mem {start : Option ℕ} {nodes : List (ℕ × α)}
    (chain : Chain heap start nodes) {node : ℕ × α} (visited : node ∈ nodes) :
    ∃ next, heap node.1 = some ⟨node.2, next⟩ := by
  induction nodes generalizing start with
  | nil => cases visited
  | cons first nodes ih =>
      obtain ⟨-, next, cell, more⟩ := chain
      rcases List.mem_cons.mp visited with rfl | later
      · exact ⟨next, cell⟩
      · exact ih more later

/-- **A chain visits no address twice.** Coming back to an address would repeat
the chain from there, so the chain would not end. -/
theorem Chain.nodup {start : Option ℕ} {nodes : List (ℕ × α)} (chain : Chain heap start nodes) :
    (nodes.map Prod.fst).Nodup := by
  induction nodes generalizing start with
  | nil => simp
  | cons node nodes ih =>
      obtain ⟨here, next, cell, more⟩ := chain
      refine List.nodup_cons.mpr ⟨fun again => ?_, ih more⟩
      obtain ⟨rest, shorter, tail⟩ := more.from_mem again
      have whole : rest = node :: nodes := tail.unique ⟨rfl, next, cell, more⟩
      rw [whole, List.length_cons] at shorter
      omega

/-- Changing a cell that is not visited does not change the chain. -/
theorem Chain.frame {start : Option ℕ} {nodes : List (ℕ × α)} (chain : Chain heap start nodes)
    {address : ℕ} (outside : address ∉ nodes.map Prod.fst) (cell : Option (Cell α)) :
    Chain (Function.update heap address cell) start nodes := by
  induction nodes generalizing start with
  | nil => exact chain
  | cons node nodes ih =>
      obtain ⟨here, next, found, more⟩ := chain
      obtain ⟨apart, rest⟩ := not_or.mp (mt List.mem_cons.mpr outside)
      exact ⟨here, next, by rw [Function.update_of_ne (Ne.symm apart), found], ih more rest⟩

/-- A free address is not visited. -/
theorem Chain.not_mem_of_free {start : Option ℕ} {nodes : List (ℕ × α)}
    (chain : Chain heap start nodes) {address : ℕ} (free : heap address = none) :
    address ∉ nodes.map Prod.fst := by
  intro visited
  obtain ⟨rest, -, tail⟩ := chain.from_mem visited
  cases rest with
  | nil => cases tail
  | cons node rest =>
      obtain ⟨here, next, cell, -⟩ := tail
      rw [← Option.some.inj here, free] at cell
      cases cell

/-- Linking a new cell behind the last one extends the chain. -/
theorem Chain.snoc {start : Option ℕ} {nodes : List (ℕ × α)} {last : ℕ} {value : α}
    (chain : Chain heap start (nodes ++ [(last, value)])) {address : ℕ} {fresh : α}
    (free : heap address = none) :
    Chain (Function.update (Function.update heap address (some ⟨fresh, none⟩)) last
      (some ⟨value, some address⟩)) start (nodes ++ [(last, value), (address, fresh)]) := by
  have unvisited := chain.not_mem_of_free free
  induction nodes generalizing start with
  | nil =>
      obtain ⟨here, _⟩ := chain
      have apart : address ≠ last := by simpa using unvisited
      refine ⟨here, some address, Function.update_self .., rfl, none, ?_, rfl⟩
      rw [Function.update_of_ne apart, Function.update_self]
  | cons node nodes ih =>
      have distinct := chain.nodup
      obtain ⟨here, next, cell, more⟩ := chain
      obtain ⟨apart, later⟩ := not_or.mp (mt List.mem_cons.mpr unvisited)
      have notLast : node.1 ≠ last := by
        rintro rfl
        simp at distinct
      refine ⟨here, next, ?_, ih more later⟩
      rw [Function.update_of_ne notLast, Function.update_of_ne (Ne.symm apart), cell]

@[simp] theorem follow_none (heap : Heap α) (steps : ℕ) : follow heap steps none = none := by
  induction steps with
  | zero => rfl
  | succ steps ih => exact ih

/-- Following the links visits the nodes of the chain in turn. -/
theorem Chain.follow_eq {start : Option ℕ} {nodes : List (ℕ × α)} (chain : Chain heap start nodes)
    (steps : ℕ) : follow heap steps start = nodes[steps]?.map Prod.fst := by
  induction nodes generalizing start steps with
  | nil =>
      obtain rfl : start = none := chain
      simp
  | cons node nodes ih =>
      obtain ⟨rfl, next, cell, more⟩ := chain
      cases steps with
      | zero => rfl
      | succ steps => simpa [follow, cell] using ih more steps

/-- The head and the tail pointer hold a chain with these values. -/
def Represents (heap : Heap α) (head tail : Option ℕ) (values : List α) : Prop :=
  ∃ nodes : List (ℕ × α), Chain heap head nodes ∧ tail = nodes.getLast?.map Prod.fst ∧
    nodes.map Prod.snd = values

namespace Represents

variable {head tail : Option ℕ} {values : List α}

theorem empty (heap : Heap α) : Represents heap none none [] :=
  ⟨[], rfl, rfl, rfl⟩

/-- The represented list is determined by the head pointer. -/
theorem unique {tail' : Option ℕ} {values' : List α} (left : Represents heap head tail values)
    (right : Represents heap head tail' values') : values = values' := by
  obtain ⟨nodes, chain, -, rfl⟩ := left
  obtain ⟨nodes', chain', -, rfl⟩ := right
  rw [chain.unique chain']

theorem head_eq_none_iff (represents : Represents heap head tail values) :
    head = none ↔ values = [] := by
  obtain ⟨nodes, chain, -, rfl⟩ := represents
  cases nodes with
  | nil => simp [show head = none from chain]
  | cons node nodes => simp [chain.1]

theorem tail_eq_none_iff (represents : Represents heap head tail values) :
    tail = none ↔ values = [] := by
  obtain ⟨nodes, -, rfl, rfl⟩ := represents
  simp

/-- The links end behind as many steps as there are values. -/
theorem follow_eq_none_iff (represents : Represents heap head tail values) {steps : ℕ} :
    follow heap steps head = none ↔ values.length ≤ steps := by
  obtain ⟨nodes, chain, -, rfl⟩ := represents
  simp [chain.follow_eq]

/-- Every value is in the cell at its number of steps. -/
theorem follow_cell (represents : Represents heap head tail values) {steps : ℕ} {value : α}
    (found : values[steps]? = some value) :
    ∃ address next, follow heap steps head = some address ∧
      heap address = some ⟨value, next⟩ := by
  obtain ⟨nodes, chain, -, rfl⟩ := represents
  obtain ⟨node, here, rfl⟩ : ∃ node, nodes[steps]? = some node ∧ node.2 = value := by
    simpa [List.getElem?_map] using found
  obtain ⟨next, cell⟩ := chain.cell_of_mem (List.mem_of_getElem? here)
  exact ⟨node.1, next, by rw [chain.follow_eq, here, Option.map_some], cell⟩

/-- The tail pointer is the last one that is reached. -/
theorem follow_tail (represents : Represents heap head tail values) :
    follow heap (values.length - 1) head = tail := by
  obtain ⟨nodes, chain, rfl, rfl⟩ := represents
  rw [chain.follow_eq, List.getLast?_eq_getElem?, List.length_map]

/-- Appending to the empty queue. -/
theorem push_empty {address : ℕ} {fresh : α} :
    Represents (Function.update heap address (some ⟨fresh, none⟩)) (some address) (some address)
      [fresh] :=
  ⟨[(address, fresh)], ⟨rfl, none, Function.update_self .., rfl⟩, rfl, rfl⟩

/-- The tail pointer leads to an allocated last cell. -/
theorem tail_cell {last : ℕ} (represents : Represents heap head (some last) values) :
    ∃ value, heap last = some ⟨value, none⟩ := by
  obtain ⟨nodes, chain, ends, -⟩ := represents
  induction nodes generalizing head with
  | nil => simp at ends
  | cons node nodes ih =>
      obtain ⟨-, next, cell, more⟩ := chain
      cases nodes with
      | nil =>
          obtain rfl : next = none := more
          obtain rfl : last = node.1 := by simpa using ends
          exact ⟨node.2, cell⟩
      | cons node' nodes => exact ih more (by simpa using ends)

/-- **Linking a new cell behind the tail appends its value.** -/
theorem push {last address : ℕ} {value fresh : α}
    (represents : Represents heap head (some last) values) (cell : heap last = some ⟨value, none⟩)
    (free : heap address = none) :
    Represents (Function.update (Function.update heap address (some ⟨fresh, none⟩)) last
      (some ⟨value, some address⟩)) head (some address) (values ++ [fresh]) := by
  obtain ⟨nodes, chain, ends, rfl⟩ := represents
  obtain ⟨front, node, rfl⟩ : ∃ front node, nodes = front ++ [node] := by
    rcases List.eq_nil_or_concat nodes with rfl | ⟨front, node, rfl⟩
    · simp at ends
    · exact ⟨front, node, by simp⟩
  obtain rfl : last = node.1 := by simpa using ends
  have stored : node.2 = value := by
    obtain ⟨next, found⟩ := chain.cell_of_mem (show node ∈ front ++ [node] by simp)
    rw [cell] at found
    injection found with found
    injection found with same
    exact same.symm
  subst stored
  refine ⟨front ++ [node, (address, fresh)], chain.snoc free, by simp, by simp⟩

/-- **Moving the head along its link removes the first value.** -/
theorem pop {value : α} (represents : Represents heap head tail (value :: values)) :
    ∃ address next, head = some address ∧ heap address = some ⟨value, next⟩ ∧
      Represents heap next (if next = none then none else tail) values ∧
      Represents (Function.update heap address none) next (if next = none then none else tail)
        values := by
  obtain ⟨nodes, chain, rfl, same⟩ := represents
  cases nodes with
  | nil => cases same
  | cons node nodes =>
      have distinct := chain.nodup
      obtain ⟨here, next, cell, more⟩ := chain
      obtain ⟨rfl, rfl⟩ := List.cons.inj same
      have last : (if next = none then none else (node :: nodes).getLast?.map Prod.fst) =
          nodes.getLast?.map Prod.fst := by
        cases nodes with
        | nil => simp [show next = none from more]
        | cons node' nodes => simp [more.1]
      refine ⟨node.1, next, here, cell, ⟨nodes, more, last, rfl⟩, nodes, ?_, last, rfl⟩
      exact more.frame (List.nodup_cons.mp distinct).1 none

/-- Changing the heap where the chain does not pass keeps the list. -/
theorem frame (represents : Represents heap head tail values) {address : ℕ}
    (free : heap address = none) (cell : Option (Cell α)) :
    Represents (Function.update heap address cell) head tail values := by
  obtain ⟨nodes, chain, ends, same⟩ := represents
  exact ⟨nodes, chain.frame (chain.not_mem_of_free free) cell, ends, same⟩

end Represents

end Foundations
