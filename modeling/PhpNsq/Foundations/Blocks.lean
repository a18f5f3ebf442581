import Mathlib.Data.Finset.Card
import Mathlib.Data.Finset.Insert

/-!
# Blocks of memory and the pointers to them

A program asks for blocks, uses them and gives them back through its pointer variables. `Blocks` is
what is allocated and where the pointers lead; to use or to free a block that is not allocated has
no result. So a list of operations that has one frees nothing twice and uses nothing that was
freed.

`Ledger` is what the program may know: the pointers that lead to a block of their own, and how many
blocks no pointer leads to any more, because the last pointer to them was given another block. A
ledger is exact: operations have a result on the blocks when they have one on the ledger, and then
it tells how many blocks are left (`Blocks.Keeps.performAll`, `Blocks.Keeps.performAll_eq_none_iff`).
What is done through some pointers leaves what others lead to (`Ledger.performAll_frame`).
-/

set_option autoImplicit false

namespace Foundations

/-- What is done through a pointer. -/
inductive BlockOp (ν : Type*) where
  /-- The pointer gets a new block. -/
  | alloc (pointer : ν)
  /-- The block is read or written. -/
  | touch (pointer : ν)
  | free (pointer : ν)

/-- The pointer. -/
def BlockOp.pointer {ν : Type*} : BlockOp ν → ν
  | .alloc pointer => pointer
  | .touch pointer => pointer
  | .free pointer => pointer

/-- The blocks that are allocated, by number, where the pointers lead, and how many blocks there
have been. -/
structure Blocks (ν : Type*) where
  live : Finset ℕ
  pointee : ν → Option ℕ
  next : ℕ

/-- The pointers that lead to a block of their own, and the number of blocks that are lost. -/
structure Ledger (ν : Type*) where
  owned : Finset ν
  lost : ℕ

variable {ν : Type*}

namespace Blocks

/-- Nothing is allocated. -/
def start : Blocks ν := ⟨∅, fun _ => none, 0⟩

/-- The allocated block that a pointer leads to. -/
def target (b : Blocks ν) (pointer : ν) : Option ℕ := (b.pointee pointer).filter (· ∈ b.live)

theorem target_eq_some {b : Blocks ν} {pointer : ν} {block : ℕ} :
    b.target pointer = some block ↔ b.pointee pointer = some block ∧ block ∈ b.live := by
  simp [target, Option.filter_eq_some_iff]

end Blocks

/-- Nothing is owned. -/
def Ledger.start : Ledger ν := ⟨∅, 0⟩

/-- **A ledger that is right about the blocks.** -/
structure Blocks.Keeps (b : Blocks ν) (l : Ledger ν) : Prop where
  bound : ∀ block ∈ b.live, block < b.next
  past : ∀ pointer block, b.pointee pointer = some block → block < b.next
  leads : ∀ pointer, pointer ∈ l.owned ↔ (b.target pointer).isSome
  apart : ∀ first second block, b.target first = some block → b.target second = some block →
    first = second
  count : b.live.card = l.owned.card + l.lost

theorem Blocks.keeps_start : (start : Blocks ν).Keeps .start where
  bound := fun block member => absurd member (Finset.notMem_empty block)
  past := by rintro pointer block ⟨⟩
  leads := fun pointer => by simp [start, target, Ledger.start]
  apart := by rintro first second block ⟨⟩
  count := rfl

/-- The other pointers still lead where they led when a block is freed. -/
theorem Blocks.Keeps.target_erase {b : Blocks ν} {l : Ledger ν} (keeps : b.Keeps l)
    {pointer other : ν} {block : ℕ} (here : b.target pointer = some block) (different : other ≠ pointer) :
    Blocks.target { b with live := b.live.erase block } other = b.target other := by
  ext there
  rw [Blocks.target_eq_some, Blocks.target_eq_some]
  refine and_congr_right fun leads => ?_
  rw [Finset.mem_erase, and_iff_right_of_imp]
  rintro alive rfl
  exact different (keeps.apart other pointer there (Blocks.target_eq_some.mpr ⟨leads, alive⟩) here)

variable [DecidableEq ν]

namespace Blocks

/-- A new block for a pointer. -/
def alloc (b : Blocks ν) (pointer : ν) : Blocks ν :=
  ⟨insert b.next b.live, Function.update b.pointee pointer (some b.next), b.next + 1⟩

/-- One operation. -/
def perform (b : Blocks ν) : BlockOp ν → Option (Blocks ν)
  | .alloc pointer => some (b.alloc pointer)
  | .touch pointer => (b.target pointer).map fun _ => b
  | .free pointer => (b.target pointer).map fun block => { b with live := b.live.erase block }

/-- Operations one after the other. -/
def performAll (b : Blocks ν) (ops : List (BlockOp ν)) : Option (Blocks ν) := ops.foldlM perform b

end Blocks

namespace Ledger

/-- One operation. -/
def perform (l : Ledger ν) : BlockOp ν → Option (Ledger ν)
  | .alloc pointer =>
      some (if pointer ∈ l.owned then ⟨l.owned, l.lost + 1⟩ else ⟨insert pointer l.owned, l.lost⟩)
  | .touch pointer => if pointer ∈ l.owned then some l else none
  | .free pointer => if pointer ∈ l.owned then some ⟨l.owned.erase pointer, l.lost⟩ else none

/-- Operations one after the other. -/
def performAll (l : Ledger ν) (ops : List (BlockOp ν)) : Option (Ledger ν) := ops.foldlM perform l

variable {l : Ledger ν} {pointer : ν} {ops more : List (BlockOp ν)}

theorem performAll_append : l.performAll (ops ++ more) =
    (l.performAll ops).bind fun l' => l'.performAll more :=
  List.foldlM_append

@[simp] theorem performAll_nil : l.performAll [] = some l := rfl

theorem performAll_alloc (free : pointer ∉ l.owned) :
    l.performAll (.alloc pointer :: ops) =
      performAll ⟨insert pointer l.owned, l.lost⟩ ops := by
  rw [performAll, List.foldlM_cons, perform, if_neg free]
  rfl

/-- The block that the pointer led to is lost. -/
theorem performAll_realloc (owned : pointer ∈ l.owned) :
    l.performAll (.alloc pointer :: ops) = performAll ⟨l.owned, l.lost + 1⟩ ops := by
  rw [performAll, List.foldlM_cons, perform, if_pos owned]
  rfl

theorem performAll_touch (owned : pointer ∈ l.owned) :
    l.performAll (.touch pointer :: ops) = l.performAll ops := by
  rw [performAll, List.foldlM_cons, perform, if_pos owned]
  rfl

theorem performAll_free (owned : pointer ∈ l.owned) :
    l.performAll (.free pointer :: ops) =
      performAll ⟨l.owned.erase pointer, l.lost⟩ ops := by
  rw [performAll, List.foldlM_cons, perform, if_pos owned]
  rfl

theorem performAll_touch_eq_none (astray : pointer ∉ l.owned) :
    l.performAll (.touch pointer :: ops) = none := by
  rw [performAll, List.foldlM_cons, perform, if_neg astray]
  rfl

/-- Only pointers that operations are done through come to lead somewhere. -/
theorem owned_of_performAll {l' : Ledger ν} (all : l.performAll ops = some l') :
    ∀ pointer ∈ l'.owned, pointer ∈ l.owned ∨ ∃ op ∈ ops, op.pointer = pointer := by
  induction ops generalizing l with
  | nil =>
      obtain rfl := Option.some.inj all
      exact fun pointer member => .inl member
  | cons op ops ih =>
      rw [performAll, List.foldlM_cons] at all
      obtain ⟨middle, one, more⟩ := Option.bind_eq_some_iff.mp all
      intro pointer member
      rcases ih more pointer member with before | ⟨later, listed, same⟩
      · have first : pointer ∈ l.owned ∨ op.pointer = pointer := by
          cases op with
          | alloc new =>
              rw [perform, Option.some.injEq] at one
              subst one
              split at before
              · exact .inl before
              · exact (Finset.mem_insert.mp before).symm.imp_right Eq.symm
          | touch used =>
              rw [perform, Option.ite_none_right_eq_some, Option.some.injEq] at one
              exact .inl (one.2 ▸ before)
          | free old =>
              rw [perform, Option.ite_none_right_eq_some, Option.some.injEq] at one
              rw [← one.2] at before
              exact .inl (Finset.mem_of_mem_erase before)
        exact first.imp_right fun here => ⟨op, List.mem_cons_self, here⟩
      · exact .inr ⟨later, List.mem_cons_of_mem op listed, same⟩

/-- What other pointers lead to. -/
def frame (l : Ledger ν) (others : Finset ν) (lost : ℕ) : Ledger ν := ⟨l.owned ∪ others, l.lost + lost⟩

/-- **The frame rule**: what is done through some pointers leaves what others lead to. -/
theorem performAll_frame {others : Finset ν} {lost : ℕ} (apart : ∀ op ∈ ops, op.pointer ∉ others) :
    (l.frame others lost).performAll ops =
      (l.performAll ops).map fun l' => l'.frame others lost := by
  induction ops generalizing l with
  | nil => rfl
  | cons op ops ih =>
      obtain ⟨here, there⟩ := List.forall_mem_cons.mp apart
      have one : (l.frame others lost).perform op =
          (l.perform op).map fun l' => l'.frame others lost := by
        cases op with
        | alloc pointer =>
            simp only [BlockOp.pointer] at here
            by_cases owned : pointer ∈ l.owned
            · simp [perform, frame, owned, Nat.add_right_comm]
            · simp [perform, frame, owned, here]
        | touch pointer =>
            simp only [BlockOp.pointer] at here
            by_cases owned : pointer ∈ l.owned
            · simp [perform, frame, owned]
            · simp [perform, frame, owned, here]
        | free pointer =>
            simp only [BlockOp.pointer] at here
            by_cases owned : pointer ∈ l.owned
            · simp [perform, frame, owned, Finset.erase_union_distrib,
                Finset.erase_eq_of_notMem here]
            · simp [perform, frame, owned, here]
      rw [performAll, List.foldlM_cons, one, performAll, List.foldlM_cons]
      cases l.perform op with
      | none => rfl
      | some middle => exact ih there

/-- What is done through new pointers is done as if nothing were there. -/
theorem performAll_of_apart (apart : ∀ op ∈ ops, op.pointer ∉ l.owned) :
    l.performAll ops = (start.performAll ops).map fun l' => l'.frame l.owned l.lost := by
  have empty : l = start.frame l.owned l.lost := by simp [start, frame]
  calc l.performAll ops = (start.frame l.owned l.lost).performAll ops := by rw [← empty]
    _ = _ := performAll_frame apart

theorem performAll_free_eq_none (astray : pointer ∉ l.owned) :
    l.performAll (.free pointer :: ops) = none := by
  rw [performAll, List.foldlM_cons, perform, if_neg astray]
  rfl

end Ledger

namespace Blocks

variable {b : Blocks ν} {l l' : Ledger ν} {ops more : List (BlockOp ν)}

/-- To use a block changes nothing. -/
theorem performAll_touch {pointer : ν} {block : ℕ} (leads : b.target pointer = some block) :
    b.performAll [.touch pointer] = some b := by
  rw [performAll, List.foldlM_cons, perform, leads]
  rfl

theorem pointee_alloc (b : Blocks ν) (pointer : ν) :
    (b.alloc pointer).pointee pointer = some b.next :=
  Function.update_self ..

theorem pointee_alloc_of_ne (b : Blocks ν) {pointer other : ν} (different : other ≠ pointer) :
    (b.alloc pointer).pointee other = b.pointee other :=
  Function.update_of_ne different ..

theorem target_alloc (b : Blocks ν) (pointer : ν) : (b.alloc pointer).target pointer = some b.next :=
  target_eq_some.mpr ⟨b.pointee_alloc pointer, Finset.mem_insert_self ..⟩

/-- The other pointers lead where they led: no block was used again. -/
theorem Keeps.target_alloc_of_ne (keeps : b.Keeps l) {pointer other : ν} (different : other ≠ pointer) :
    (b.alloc pointer).target other = b.target other := by
  ext block
  rw [target_eq_some, target_eq_some, b.pointee_alloc_of_ne different]
  refine and_congr_right fun here => ?_
  have before := keeps.past other block here
  exact Finset.mem_insert.trans (or_iff_right before.ne)

/-- A pointer gets a block. -/
theorem Keeps.alloc (keeps : b.Keeps l) (pointer : ν) {owned : Finset ν} {lost : ℕ}
    (insertion : owned = insert pointer l.owned)
    (count : b.live.card + 1 = owned.card + lost) : (b.alloc pointer).Keeps ⟨owned, lost⟩ := by
  have own : ∀ other, (b.alloc pointer).target other = some b.next → other = pointer := by
    intro other leads
    by_contra different
    rw [keeps.target_alloc_of_ne different, target_eq_some] at leads
    exact lt_irrefl _ (keeps.bound _ leads.2)
  refine ⟨?_, ?_, ?_, ?_, ?_⟩
  · intro block member
    rcases Finset.mem_insert.mp member with rfl | before
    · exact Nat.lt_succ_self _
    · exact Nat.lt_succ_of_lt (keeps.bound block before)
  · intro other block leads
    by_cases same : other = pointer
    · rw [same, pointee_alloc] at leads
      obtain rfl := Option.some.inj leads
      exact Nat.lt_succ_self _
    · rw [b.pointee_alloc_of_ne same] at leads
      exact Nat.lt_succ_of_lt (keeps.past other block leads)
  · intro other
    change other ∈ owned ↔ _
    rw [insertion, Finset.mem_insert]
    by_cases same : other = pointer
    · simp [same, target_alloc]
    · rw [keeps.target_alloc_of_ne same, or_iff_right same, keeps.leads]
  · intro first second block here there
    by_cases new : block = b.next
    · rw [own first (new ▸ here), own second (new ▸ there)]
    · have old : ∀ other, (b.alloc pointer).target other = some block →
          b.target other = some block := by
        intro other leads
        have different : other ≠ pointer := by
          rintro rfl
          exact new (Option.some.inj (leads.symm.trans (target_alloc b other)))
        rwa [keeps.target_alloc_of_ne different] at leads
      exact keeps.apart first second block (old first here) (old second there)
  · rw [← count]
    exact Finset.card_insert_of_notMem fun member => lt_irrefl _ (keeps.bound _ member)

/-- A block is given back. -/
theorem Keeps.free (keeps : b.Keeps l) {pointer : ν} {block : ℕ}
    (here : b.target pointer = some block) :
    Keeps { b with live := b.live.erase block } ⟨l.owned.erase pointer, l.lost⟩ := by
  have owned : pointer ∈ l.owned := (keeps.leads pointer).mpr (Option.isSome_of_eq_some here)
  have gone : target { b with live := b.live.erase block } pointer = none := by
    rw [Option.eq_none_iff_forall_ne_some]
    intro other leads
    obtain ⟨leads, alive⟩ := target_eq_some.mp leads
    obtain rfl := Option.some.inj (leads.symm.trans (target_eq_some.mp here).1)
    exact Finset.notMem_erase _ _ alive
  refine ⟨?_, keeps.past, ?_, ?_, ?_⟩
  · exact fun other member => keeps.bound other (Finset.mem_of_mem_erase member)
  · intro other
    by_cases same : other = pointer
    · simp [same, gone]
    · rw [keeps.target_erase here same, ← keeps.leads, Finset.mem_erase, and_iff_right same]
  · intro first second there one two
    have old : ∀ other, target { b with live := b.live.erase block } other = some there →
        b.target other = some there := by
      intro other leads
      have different : other ≠ pointer := by
        rintro rfl
        rw [gone] at leads
        cases leads
      rwa [keeps.target_erase here different] at leads
    exact keeps.apart first second there (old first one) (old second two)
  · have fewer := Finset.card_erase_add_one (target_eq_some.mp here).2
    have fewer' := Finset.card_erase_add_one owned
    have count := keeps.count
    change (b.live.erase block).card = (l.owned.erase pointer).card + l.lost
    omega

/-- An operation of the ledger is one of the blocks. -/
theorem Keeps.perform (keeps : b.Keeps l) {op : BlockOp ν} (one : l.perform op = some l') :
    ∃ b', b.perform op = some b' ∧ b'.Keeps l' := by
  have count := keeps.count
  cases op with
  | alloc pointer =>
      rw [Ledger.perform, Option.some.injEq] at one
      split at one
      · next owned =>
          subst one
          exact ⟨_, rfl, keeps.alloc pointer (Finset.insert_eq_of_mem owned).symm (by omega)⟩
      · next new =>
          subst one
          refine ⟨_, rfl, keeps.alloc pointer rfl ?_⟩
          rw [Finset.card_insert_of_notMem new]
          omega
  | touch pointer =>
      rw [Ledger.perform, Option.ite_none_right_eq_some, Option.some.injEq] at one
      obtain ⟨owned, rfl⟩ := one
      obtain ⟨block, here⟩ := Option.isSome_iff_exists.mp ((keeps.leads pointer).mp owned)
      exact ⟨b, by rw [Blocks.perform, here, Option.map_some], keeps⟩
  | free pointer =>
      rw [Ledger.perform, Option.ite_none_right_eq_some, Option.some.injEq] at one
      obtain ⟨owned, rfl⟩ := one
      obtain ⟨block, here⟩ := Option.isSome_iff_exists.mp ((keeps.leads pointer).mp owned)
      exact ⟨_, by rw [Blocks.perform, here, Option.map_some], keeps.free here⟩

/-- And one that the ledger does not allow has no result. -/
theorem Keeps.perform_eq_none (keeps : b.Keeps l) {op : BlockOp ν} (fails : l.perform op = none) :
    b.perform op = none := by
  have astray : ∀ pointer, pointer ∉ l.owned → b.target pointer = none := by
    intro pointer lost
    rwa [keeps.leads, Option.not_isSome_iff_eq_none] at lost
  cases op with
  | alloc pointer => cases fails
  | touch pointer =>
      rw [Ledger.perform, ite_eq_right_iff] at fails
      rw [Blocks.perform, astray pointer fun owned => Option.some_ne_none l (fails owned),
        Option.map_none]
  | free pointer =>
      rw [Ledger.perform, ite_eq_right_iff] at fails
      rw [Blocks.perform, astray pointer fun owned => Option.some_ne_none _ (fails owned),
        Option.map_none]

/-- **What a ledger is kept for**: the operations have a result, and the ledger is right about
it. -/
theorem Keeps.performAll (keeps : b.Keeps l) {ops : List (BlockOp ν)}
    (all : l.performAll ops = some l') : ∃ b', b.performAll ops = some b' ∧ b'.Keeps l' := by
  induction ops generalizing b l with
  | nil =>
      obtain rfl := Option.some.inj all
      exact ⟨b, rfl, keeps⟩
  | cons op ops ih =>
      rw [Ledger.performAll, List.foldlM_cons] at all
      obtain ⟨middle, one, more⟩ := Option.bind_eq_some_iff.mp all
      obtain ⟨next, done, kept⟩ := keeps.perform one
      obtain ⟨last, rest, final⟩ := ih kept more
      refine ⟨last, ?_, final⟩
      rw [Blocks.performAll, List.foldlM_cons, done]
      exact rest

/-- **A ledger misses nothing**: what it does not allow has no result. -/
theorem Keeps.performAll_eq_none (keeps : b.Keeps l) {ops : List (BlockOp ν)}
    (fails : l.performAll ops = none) : b.performAll ops = none := by
  induction ops generalizing b l with
  | nil => cases fails
  | cons op ops ih =>
      rw [Ledger.performAll, List.foldlM_cons] at fails
      rw [Blocks.performAll, List.foldlM_cons]
      cases one : l.perform op with
      | none =>
          rw [keeps.perform_eq_none one]
          rfl
      | some middle =>
          obtain ⟨next, done, kept⟩ := keeps.perform one
          rw [one] at fails
          rw [done]
          exact ih kept fails

theorem Keeps.performAll_eq_none_iff (keeps : b.Keeps l) {ops : List (BlockOp ν)} :
    b.performAll ops = none ↔ l.performAll ops = none := by
  refine ⟨fun fails => ?_, keeps.performAll_eq_none⟩
  cases all : l.performAll ops with
  | none => rfl
  | some l' =>
      obtain ⟨b', performed, -⟩ := keeps.performAll all
      rw [fails] at performed
      cases performed

end Blocks

end Foundations
