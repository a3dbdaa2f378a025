import Mathlib.Tactic.Common
import Mathlib.Data.List.Induction

/-!
This file gives the rules for a tree of tables that lives in a store.
A path of indices selects a table, and a lookup reads one slot of a table.
-/

namespace UmbralOS.Library.PathTree

variable {Node Index : Type}

/-- This function follows a path of indices from a node. -/
def resolve (child : Node → Index → Option Node) (root : Node) : List Index → Option Node
  | [] => some root
  | index :: path => (child root index).bind fun next => resolve child next path

variable (child : Node → Index → Option Node) (root : Node)

@[simp] theorem resolve_nil : resolve child root [] = some root := rfl

/-- A path continues from the node that its first part selects. -/
theorem resolve_append (first second : List Index) :
    resolve child root (first ++ second) = (resolve child root first).bind fun node => resolve child node second := by
  induction first generalizing root with
  | nil => simp [resolve]
  | cons head first ih =>
      simp only [List.cons_append, resolve]
      cases child root head with
      | none => rfl
      | some next => exact ih next

/-- The last index of a path selects a child of the node before it. -/
theorem resolve_snoc (path : List Index) (index : Index) :
    resolve child root (path ++ [index]) = (resolve child root path).bind fun node => child node index := by
  rw [resolve_append]
  congr 1
  funext node
  exact Option.bind_fun_some (child node index)

/-- A node is in the tree when a path within the depth selects it. -/
def Selected (depth : Nat) (node : Node) : Prop :=
  ∃ path, path.length ≤ depth ∧ resolve child root path = some node

/-- Two different paths within the depth never select the same node. -/
def Distinct (depth : Nat) : Prop :=
  ∀ first second node, first.length ≤ depth → second.length ≤ depth →
    resolve child root first = some node → resolve child root second = some node → first = second

variable {child root}

/-- Equal children at every selected inner node give equal paths. -/
theorem resolve_congr {child' : Node → Index → Option Node} {depth : Nat}
    (same : ∀ node, Selected child root depth node → ∀ index, child' node index = child node index)
    {path : List Index} (short : path.length ≤ depth + 1) :
    resolve child' root path = resolve child root path := by
  induction path using List.reverseRecOn with
  | nil => rfl
  | append_singleton path index ih =>
      have within : path.length ≤ depth := by simp at short; omega
      rw [resolve_snoc, resolve_snoc, ih (by omega)]
      cases selected : resolve child root path with
      | none => rfl
      | some node => exact same node ⟨path, within, selected⟩ index

/-- A root without children selects only itself. -/
theorem resolve_leaf (empty : ∀ index, child root index = none) {path : List Index} {node : Node}
    (selected : resolve child root path = some node) : path = [] ∧ node = root := by
  cases path with
  | nil => simpa [eq_comm] using selected
  | cons index path => simp [resolve, empty index] at selected

theorem distinct_leaf (empty : ∀ index, child root index = none) (depth : Nat) :
    Distinct child root depth := by
  intro first second node _ _ firstSelected secondSelected
  rw [(resolve_leaf empty firstSelected).1, (resolve_leaf empty secondSelected).1]

/-- A link gives one empty slot of a selected node a fresh child without children. -/
structure Link (child child' : Node → Index → Option Node) (root : Node) (depth : Nat)
    (path : List Index) (parent : Node) (slot : Index) (fresh : Node) : Prop where
  short : path.length < depth
  selected : resolve child root path = some parent
  empty : child parent slot = none
  unused : ¬ Selected child root depth fresh
  linked : child' parent slot = some fresh
  bare : ∀ index, child' fresh index = none
  frame : ∀ node index, Selected child root depth node → (node ≠ parent ∨ index ≠ slot) →
    child' node index = child node index

namespace Link

variable {child' : Node → Index → Option Node} {depth : Nat} {path : List Index} {parent : Node}
  {slot : Index} {fresh : Node}

/-- A link adds exactly one path to the tree. -/
theorem resolve_iff (link : Link child child' root depth path parent slot fresh)
    (distinct : Distinct child root depth) {target : List Index} {node : Node}
    (within : target.length ≤ depth) :
    resolve child' root target = some node ↔
      resolve child root target = some node ∨ (target = path ++ [slot] ∧ node = fresh) := by
  induction target using List.reverseRecOn generalizing node with
  | nil => simp
  | append_singleton target index ih =>
      have shorter : target.length ≤ depth := by simp at within; omega
      rw [resolve_snoc, resolve_snoc]
      constructor
      · intro found
        obtain ⟨middle, reached, last⟩ := Option.bind_eq_some_iff.mp found
        rcases (ih shorter).mp reached with old | ⟨_, rfl⟩
        · by_cases here : middle = parent ∧ index = slot
          · obtain ⟨rfl, rfl⟩ := here
            have samePath := distinct target path middle shorter (by have := link.short; omega) old link.selected
            right
            refine ⟨by rw [samePath], ?_⟩
            rw [link.linked] at last
            exact (Option.some.inj last).symm
          · left
            rw [old, Option.bind_some]
            rwa [link.frame middle index ⟨target, shorter, old⟩ (by tauto)] at last
        · rw [link.bare index] at last
          cases last
      · rintro (old | ⟨samePath, rfl⟩)
        · obtain ⟨middle, reached, last⟩ := Option.bind_eq_some_iff.mp old
          rw [(ih shorter).mpr (Or.inl reached), Option.bind_some]
          have different : middle ≠ parent ∨ index ≠ slot := by
            by_contra both
            simp only [not_or, ne_eq, not_not] at both
            rw [both.1, both.2, link.empty] at last
            cases last
          rwa [link.frame middle index ⟨target, shorter, reached⟩ different]
        · obtain ⟨rfl, last⟩ := List.append_inj' samePath rfl
          obtain rfl : index = slot := by simpa using last
          rw [(ih shorter).mpr (Or.inl link.selected), Option.bind_some, link.linked]

/-- The path of the fresh node selects it. -/
theorem resolve_fresh (link : Link child child' root depth path parent slot fresh)
    (distinct : Distinct child root depth) :
    resolve child' root (path ++ [slot]) = some fresh := by
  have short := link.short
  exact (link.resolve_iff distinct (by simp; omega)).mpr (Or.inr ⟨rfl, rfl⟩)

/-- A link keeps every path that existed. -/
theorem resolve_old (link : Link child child' root depth path parent slot fresh)
    (distinct : Distinct child root depth) {target : List Index} {node : Node}
    (within : target.length ≤ depth) (old : resolve child root target = some node) :
    resolve child' root target = some node :=
  (link.resolve_iff distinct within).mpr (Or.inl old)

/-- A link adds only the fresh node to the tree. -/
theorem selected_iff (link : Link child child' root depth path parent slot fresh)
    (distinct : Distinct child root depth) (node : Node) :
    Selected child' root depth node ↔ Selected child root depth node ∨ node = fresh := by
  constructor
  · intro given
    obtain ⟨target, within, found⟩ := given
    rcases (link.resolve_iff distinct within).mp found with old | ⟨_, rfl⟩
    · exact Or.inl ⟨target, within, old⟩
    · exact Or.inr rfl
  · rintro (⟨target, within, old⟩ | rfl)
    · exact ⟨target, within, link.resolve_old distinct within old⟩
    · have short := link.short
      exact ⟨path ++ [slot], by simp; omega, link.resolve_fresh distinct⟩

/-- A link keeps the tree free of sharing. -/
theorem distinct (link : Link child child' root depth path parent slot fresh)
    (before : Distinct child root depth) : Distinct child' root depth := by
  intro first second node firstShort secondShort firstFound secondFound
  rcases (link.resolve_iff before firstShort).mp firstFound with firstOld | ⟨rfl, rfl⟩ <;>
    rcases (link.resolve_iff before secondShort).mp secondFound with secondOld | ⟨rfl, same⟩
  · exact before first second node firstShort secondShort firstOld secondOld
  · subst same
    exact absurd ⟨first, firstShort, firstOld⟩ link.unused
  · exact absurd ⟨second, secondShort, secondOld⟩ link.unused
  · rfl

end Link

end UmbralOS.Library.PathTree
