import Mathlib

/- The intrusive binary heap of include/pandio/heap.h. A node is the memory cell
   its owner embeds (`hnode`); `ν` names the cells, and a NULL pointer is `none`.
   The functions follow the source statement by statement over an explicit
   memory, in `Option`: `none` is a dereference of NULL, or a sift loop that has
   not ended after as many rounds as the heap has nodes. The comparator is a
   parameter, as the function pointer in `struct heap` is fixed by `heap_init`.

   Correspondence (C ↔ Lean):
     `struct heap_node`            ↔ `HeapNode`
     `struct heap` and its memory  ↔ `Heap`
     `heap_init`, `heap_init_node` ↔ `heapInit`, `heapInitNode`
     `heap_peek`                   ↔ `heapPeek`
     `heap_insert`                 ↔ `heapInsert`, its loops `pathBits`, `walk`, `siftUp`
     `heap_remove`, `heap_pop`     ↔ `heapRemove`, `heapPop`, with `siftDown`
     `heap_swap`                   ↔ `heapSwap` -/
namespace Pandio

/-- `struct heap_node`. -/
structure HeapNode (ν : Type) where
  left : Option ν
  right : Option ν
  parent : Option ν
  deriving DecidableEq, Repr

/-- `struct heap` with the memory of all nodes. -/
structure Heap (ν : Type) where
  root : Option ν
  size : Nat
  mem : ν → HeapNode ν

variable {ν : Type} [DecidableEq ν]

namespace Heap

def setLeft (h : Heap ν) (x : ν) (v : Option ν) : Heap ν :=
  { h with mem := Function.update h.mem x { h.mem x with left := v } }

def setRight (h : Heap ν) (x : ν) (v : Option ν) : Heap ν :=
  { h with mem := Function.update h.mem x { h.mem x with right := v } }

def setParent (h : Heap ν) (x : ν) (v : Option ν) : Heap ν :=
  { h with mem := Function.update h.mem x { h.mem x with parent := v } }

def setSize (h : Heap ν) (n : Nat) : Heap ν := { h with size := n }

/-- `if (p) p->parent = v;` -/
def setParentOf (h : Heap ν) (p : Option ν) (v : Option ν) : Heap ν :=
  match p with
  | some x => h.setParent x v
  | none => h

/-- `if (p) { if (p->left == old) p->left = v; else p->right = v; }` -/
def relink (h : Heap ν) (p : Option ν) (old : ν) (v : Option ν) : Heap ν :=
  match p with
  | some x => if (h.mem x).left = some old then h.setLeft x v else h.setRight x v
  | none => h

@[simp] theorem setLeft_root (h : Heap ν) (x : ν) (v : Option ν) :
    (h.setLeft x v).root = h.root := rfl

@[simp] theorem setRight_root (h : Heap ν) (x : ν) (v : Option ν) :
    (h.setRight x v).root = h.root := rfl

@[simp] theorem setParent_root (h : Heap ν) (x : ν) (v : Option ν) :
    (h.setParent x v).root = h.root := rfl

@[simp] theorem setLeft_size (h : Heap ν) (x : ν) (v : Option ν) :
    (h.setLeft x v).size = h.size := rfl

@[simp] theorem setRight_size (h : Heap ν) (x : ν) (v : Option ν) :
    (h.setRight x v).size = h.size := rfl

@[simp] theorem setParent_size (h : Heap ν) (x : ν) (v : Option ν) :
    (h.setParent x v).size = h.size := rfl

omit [DecidableEq ν] in
@[simp] theorem setSize_root (h : Heap ν) (n : Nat) : (h.setSize n).root = h.root := rfl

omit [DecidableEq ν] in
@[simp] theorem setSize_size (h : Heap ν) (n : Nat) : (h.setSize n).size = n := rfl

omit [DecidableEq ν] in
@[simp] theorem setSize_mem (h : Heap ν) (n : Nat) : (h.setSize n).mem = h.mem := rfl

theorem setLeft_mem (h : Heap ν) (x y : ν) (v : Option ν) :
    (h.setLeft x v).mem y = if y = x then { h.mem x with left := v } else h.mem y := by
  simp only [setLeft, Function.update_apply]

theorem setRight_mem (h : Heap ν) (x y : ν) (v : Option ν) :
    (h.setRight x v).mem y = if y = x then { h.mem x with right := v } else h.mem y := by
  simp only [setRight, Function.update_apply]

theorem setParent_mem (h : Heap ν) (x y : ν) (v : Option ν) :
    (h.setParent x v).mem y = if y = x then { h.mem x with parent := v } else h.mem y := by
  simp only [setParent, Function.update_apply]

/-! Each update changes one field of one node. -/

@[simp] theorem setLeft_left (h : Heap ν) (x y : ν) (v : Option ν) :
    ((h.setLeft x v).mem y).left = if y = x then v else (h.mem y).left := by
  rw [setLeft_mem]; split <;> rfl

@[simp] theorem setLeft_right (h : Heap ν) (x y : ν) (v : Option ν) :
    ((h.setLeft x v).mem y).right = (h.mem y).right := by
  rw [setLeft_mem]; split <;> simp [*]

@[simp] theorem setLeft_parent (h : Heap ν) (x y : ν) (v : Option ν) :
    ((h.setLeft x v).mem y).parent = (h.mem y).parent := by
  rw [setLeft_mem]; split <;> simp [*]

@[simp] theorem setRight_left (h : Heap ν) (x y : ν) (v : Option ν) :
    ((h.setRight x v).mem y).left = (h.mem y).left := by
  rw [setRight_mem]; split <;> simp [*]

@[simp] theorem setRight_right (h : Heap ν) (x y : ν) (v : Option ν) :
    ((h.setRight x v).mem y).right = if y = x then v else (h.mem y).right := by
  rw [setRight_mem]; split <;> rfl

@[simp] theorem setRight_parent (h : Heap ν) (x y : ν) (v : Option ν) :
    ((h.setRight x v).mem y).parent = (h.mem y).parent := by
  rw [setRight_mem]; split <;> simp [*]

@[simp] theorem setParent_left (h : Heap ν) (x y : ν) (v : Option ν) :
    ((h.setParent x v).mem y).left = (h.mem y).left := by
  rw [setParent_mem]; split <;> simp [*]

@[simp] theorem setParent_right (h : Heap ν) (x y : ν) (v : Option ν) :
    ((h.setParent x v).mem y).right = (h.mem y).right := by
  rw [setParent_mem]; split <;> simp [*]

@[simp] theorem setParent_parent (h : Heap ν) (x y : ν) (v : Option ν) :
    ((h.setParent x v).mem y).parent = if y = x then v else (h.mem y).parent := by
  rw [setParent_mem]; split <;> rfl

@[simp] theorem setParentOf_root (h : Heap ν) (p v : Option ν) :
    (h.setParentOf p v).root = h.root := by cases p <;> rfl

@[simp] theorem setParentOf_size (h : Heap ν) (p v : Option ν) :
    (h.setParentOf p v).size = h.size := by cases p <;> rfl

@[simp] theorem setParentOf_left (h : Heap ν) (p v : Option ν) (y : ν) :
    ((h.setParentOf p v).mem y).left = (h.mem y).left := by
  cases p <;> simp [setParentOf]

@[simp] theorem setParentOf_right (h : Heap ν) (p v : Option ν) (y : ν) :
    ((h.setParentOf p v).mem y).right = (h.mem y).right := by
  cases p <;> simp [setParentOf]

@[simp] theorem setParentOf_parent (h : Heap ν) (p v : Option ν) (y : ν) :
    ((h.setParentOf p v).mem y).parent = if p = some y then v else (h.mem y).parent := by
  cases p <;> simp [setParentOf, eq_comm]

@[simp] theorem relink_root (h : Heap ν) (p : Option ν) (old : ν) (v : Option ν) :
    (h.relink p old v).root = h.root := by
  cases p with
  | none => rfl
  | some x => simp only [relink]; split <;> rfl

@[simp] theorem relink_size (h : Heap ν) (p : Option ν) (old : ν) (v : Option ν) :
    (h.relink p old v).size = h.size := by
  cases p with
  | none => rfl
  | some x => simp only [relink]; split <;> rfl

@[simp] theorem relink_left (h : Heap ν) (p : Option ν) (old : ν) (v : Option ν) (y : ν) :
    ((h.relink p old v).mem y).left =
      if p = some y ∧ (h.mem y).left = some old then v else (h.mem y).left := by
  cases p with
  | none => simp [relink]
  | some x =>
    by_cases hl : (h.mem x).left = some old <;> by_cases hx : y = x
    · subst hx; simp [relink, hl]
    · simp [relink, hl, hx, eq_comm]
    · subst hx; simp [relink, hl]
    · simp [relink, hl, eq_comm, hx]

@[simp] theorem relink_right (h : Heap ν) (p : Option ν) (old : ν) (v : Option ν) (y : ν) :
    ((h.relink p old v).mem y).right =
      if p = some y ∧ (h.mem y).left ≠ some old then v else (h.mem y).right := by
  cases p with
  | none => simp [relink]
  | some x =>
    by_cases hl : (h.mem x).left = some old <;> by_cases hx : y = x
    · subst hx; simp [relink, hl]
    · simp [relink, hl, eq_comm, hx]
    · subst hx; simp [relink, hl]
    · simp [relink, hl, hx, eq_comm]

@[simp] theorem relink_parent (h : Heap ν) (p : Option ν) (old : ν) (v : Option ν) (y : ν) :
    ((h.relink p old v).mem y).parent = (h.mem y).parent := by
  cases p with
  | none => rfl
  | some x => simp only [relink]; split <;> simp

end Heap

/-- `heap_init`; the memory is as the nodes' owners left it. -/
def heapInit (mem : ν → HeapNode ν) : Heap ν := { root := none, size := 0, mem := mem }

/-- `heap_init_node`. -/
def heapInitNode (h : Heap ν) (node : ν) : Heap ν :=
  ((h.setLeft node none).setRight node none).setParent node none

/-- `heap_peek`. -/
def heapPeek (h : Heap ν) : Option ν := h.root

/-- `heap_swap`: `child` takes the place of its parent `parent`. -/
def heapSwap (h : Heap ν) (child parent : ν) : Heap ν :=
  let tmp := h.mem parent
  let grandparent := tmp.parent
  let h := h.relink grandparent parent (some child)
  let h := h.setParentOf (h.mem parent).left (some child)
  let h := h.setParentOf (h.mem parent).right (some child)
  let h := h.setLeft parent (h.mem child).left
  let h := h.setParentOf (h.mem child).left (some parent)
  let h := h.setRight parent (h.mem child).right
  let h := h.setParentOf (h.mem child).right (some parent)
  let h := h.setParent parent (some child)
  -- prevent self-reference
  let h := h.setLeft child (if tmp.left = some child then some parent else tmp.left)
  let h := h.setRight child (if tmp.right = some child then some parent else tmp.right)
  let h := h.setParent child tmp.parent
  { h with root := if (h.mem child).parent = none then some child else h.root }

/-- The loop that reverses the bits of `n` into `mask`, in 32-bit arithmetic:
`while (n >= 2) { mask = (mask << 1) | (n & 1); bits_count++; n >>= 1; }`. A 32-bit `n` is
halved fewer than `fuel = 32` times. -/
def pathBits : (fuel n mask bits : Nat) → Nat × Nat
  | 0, _, mask, bits => (mask, bits)
  | fuel + 1, n, mask, bits =>
    if 2 ≤ n then pathBits fuel (n / 2) ((2 * mask + n % 2) % 2 ^ 32) (bits + 1)
    else (mask, bits)

/-- The loop that follows the low `bits` bits of `mask` from `last`, lowest first. -/
def walk (h : Heap ν) : (bits mask : Nat) → (last : ν) → Option ν
  | 0, _, last => some last
  | bits + 1, mask, last =>
    match (if mask % 2 = 1 then (h.mem last).right else (h.mem last).left) with
    | some next => walk h bits (mask / 2) next
    | none => none

section
variable (cmp : ν → ν → Int)

/-- `while (node->parent != NULL && test(cmp(node, node->parent))) heap_swap(h, node,
node->parent);` where `heap_insert` tests for `> 0` and `heap_remove` for truth. -/
def siftUp (test : Int → Bool) : (fuel : Nat) → Heap ν → ν → Option (Heap ν)
  | 0, _, _ => none
  | fuel + 1, h, node =>
    match (h.mem node).parent with
    | none => some h
    | some parent =>
      if test (cmp node parent) then siftUp test fuel (heapSwap h node parent) node else some h

/-- The child `heap_remove` compares `last` with: the left one if the comparator prefers it. -/
def swapNode (h : Heap ν) (last : ν) : Option ν :=
  match (h.mem last).left, (h.mem last).right with
  | some l, some r => if cmp l r ≠ 0 then some l else some r
  | some l, none => some l
  | none, some r => some r
  | none, none => none

/-- The first loop of `heap_remove`: `last` moves down until no child is in its way. -/
def siftDown : (fuel : Nat) → Heap ν → ν → Option (Heap ν)
  | 0, _, _ => none
  | fuel + 1, h, last =>
    match swapNode cmp h last with
    | none => some h
    | some swap =>
      if cmp last swap ≠ 0 then some h else siftDown fuel (heapSwap h swap last) last

/-- The node insertion of `heap_insert`: `newnode` becomes the free child of `last`. -/
def heapAttach (h : Heap ν) (last newnode : ν) : Heap ν :=
  let h :=
    if (h.mem last).left = none then h.setLeft last (some newnode)
    else h.setRight last (some newnode)
  let h := h.setSize (h.size + 1)
  let h := h.setParent newnode (some last)
  let h := h.setLeft newnode none
  h.setRight newnode none

/-- `heap_insert`. -/
def heapInsert (h : Heap ν) (newnode : ν) : Option (Heap ν) :=
  match h.root with
  | none =>
    let h := { h with root := some newnode }.setSize (h.size + 1)
    some (((h.setParent newnode none).setLeft newnode none).setRight newnode none)
  | some root => do
    -- `unsigned n = h->size + 1` keeps 32 bits
    let (mask, bits) := pathBits 32 ((h.size + 1) % 2 ^ 32) 0 0
    let last ← walk h (bits - 1) mask root
    let h := heapAttach h last newnode
    siftUp cmp (fun c => 0 < c) h.size h newnode

/-- The part of `heap_remove` that puts `last` in the place of `rnode`. -/
def heapReplace (h : Heap ν) (rnode last : ν) : Heap ν :=
  let h :=
    match (h.mem rnode).parent with
    | some p => h.relink (some p) rnode (some last)
    | none => { h with root := some last }
  let h := h.setParentOf (h.mem rnode).left (some last)
  let h := h.setParentOf (h.mem rnode).right (some last)
  let h := h.setLeft last (h.mem rnode).left
  let h := h.setRight last (h.mem rnode).right
  h.setParent last (h.mem rnode).parent

/-- `heap_remove`, with the pointer it returns. -/
def heapRemove (h : Heap ν) (rnode : ν) : Option (Heap ν × Option ν) :=
  match h.root with
  | none => some (h, none)
  | some root =>
    if h.size = 1 then some ({ h with root := none, size := 0 }, some rnode)
    else do
      let (mask, bits) := pathBits 32 (h.size % 2 ^ 32) 0 0
      let last ← walk h bits mask root
      let h := h.setSize (h.size - 1)
      -- unlink last item
      let h := h.relink (h.mem last).parent last none
      if last = rnode then some (h, some rnode)
      else do
        let h := heapReplace h rnode last
        let h ← siftDown cmp (h.size + 1) h last
        let h ← siftUp cmp (fun c => c ≠ 0) (h.size + 1) h last
        some (h, some rnode)

/-- `heap_pop`: with no root `heap_remove` returns before it looks at the node. -/
def heapPop (h : Heap ν) : Option (Heap ν × Option ν) :=
  match h.root with
  | none => some (h, none)
  | some root => heapRemove cmp h root

end

end Pandio
