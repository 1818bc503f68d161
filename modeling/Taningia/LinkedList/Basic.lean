import Mathlib.Data.Int.Notation
import Taningia.Lib.Chain

set_option relaxedAutoImplicit false
set_option autoImplicit false

/-!
# Linked lists: the functions of `src/list.c`

A `ta_list_t` is a node with two links and a data pointer; a list is a pointer to its first node, or
`NULL`. The functions work on a heap of nodes and fail where the code would follow a pointer that is
`NULL` or dangling, or would not terminate. `malloc` succeeds and hands out a new address, and the
lengths and positions, which are counted in `int`, are taken to stay within it.

## Main definitions

* `Taningia.Heap` — the nodes, and the number of addresses handed out so far.
* `Taningia.listAppend`, `Taningia.listInsert`, `Taningia.listExtend`, `Taningia.listRemove`,
  `Taningia.listPop`, `Taningia.listReverse`, `Taningia.listFree` — the operations.
* `Taningia.listLen`, `Taningia.listItem`, `Taningia.listIndex`, `Taningia.listFirst`,
  `Taningia.listLast` — the queries.
-/

namespace Taningia

open Chain

/-- `ta_list_t`: the links and the data pointer, `NULL` being `none`. Addresses are numbers. -/
abbrev Node (D : Type) := Cell ℕ (Option D)

/-- The nodes in memory, and the number of addresses handed out so far. -/
structure Heap (D : Type) where
  cells : Mem ℕ (Option D)
  size : ℕ

/-- The heap before any list function was called. -/
def Heap.empty (D : Type) : Heap D := ⟨fun _ => none, 0⟩

variable {D : Type}

/-! ## Access to the heap -/

/-- `p->next = n`. -/
def Heap.setNext (h : Heap D) (p n : Option ℕ) : Option (Heap D) :=
  p.bind fun a => (h.cells a).map fun _ => { h with cells := Chain.setNext h.cells a n }

/-- `p->prev = n`. -/
def Heap.setPrev (h : Heap D) (p n : Option ℕ) : Option (Heap D) :=
  p.bind fun a => (h.cells a).map fun _ => { h with cells := Chain.setPrev h.cells a n }

/-- `free (p)` of a node. -/
def Heap.free (h : Heap D) (a : ℕ) : Heap D :=
  { h with cells := Function.update h.cells a none }

/-- `ta_list_new`, and the store of the data that follows each of its calls. -/
def listNew (h : Heap D) (data : Option D) : ℕ × Heap D :=
  (h.size, ⟨Function.update h.cells h.size (some ⟨none, none, data⟩), h.size + 1⟩)

/-- More steps than a loop along distinct nodes can take. -/
def Heap.fuel (h : Heap D) : ℕ := h.size + 1

/-- The loop of `ta_list_free`: the link is read before the node is given back. -/
def freeLoop : ℕ → Heap D → Option ℕ → Option (Heap D)
  | 0, _, _ => none
  | _ + 1, h, none => some h
  | fuel + 1, h, some tmp => (h.cells tmp).bind fun c => freeLoop fuel (h.free tmp) c.next

/-- `ta_list_free`. -/
def listFree (h : Heap D) (list : Option ℕ) : Option (Heap D) := freeLoop h.fuel h list

/-! ## Queries -/

/-- The body of the loops of `ta_list_first` and `ta_list_last`, that keep the node in `tmp`. -/
def keepNode (_tmp : Option ℕ) (node : ℕ) (_data : Option D) :
    Except (Option ℕ) (Option ℕ) := .ok (some node)

/-- `ta_list_first`. -/
def listFirst (h : Heap D) (list : Option ℕ) : Option (Option ℕ) :=
  walk h.cells Cell.prev keepNode id h.fuel list none

/-- `ta_list_last`. -/
def listLast (h : Heap D) (list : Option ℕ) : Option (Option ℕ) :=
  walk h.cells Cell.next keepNode id h.fuel list none

/-- `ta_list_len`. -/
def listLen (h : Heap D) (list : Option ℕ) : Option ℤ :=
  walk h.cells Cell.next (fun len _ _ => (.ok (len + 1) : Except ℤ ℤ)) id h.fuel list 0

/-- `ta_list_index`; the data pointers are compared. -/
def listIndex [DecidableEq D] (h : Heap D) (list : Option ℕ) (data : Option D) : Option ℤ :=
  walk h.cells Cell.next
    (fun counter _ d => if d = data then .error counter else .ok (counter + 1))
    (fun _ => -1) h.fuel list (0 : ℤ)

/-- `ta_list_item`. -/
def listItem (h : Heap D) (list : Option ℕ) (index : ℤ) : Option (Option D) :=
  walk h.cells Cell.next
    (fun counter _ d => if index = counter then .error d else .ok (counter + 1))
    (fun _ => none) h.fuel list (0 : ℤ)

/-! ## Operations

Each returns the heap and the list handle; `removed` and `popped_out` are the values of the output
parameters before the call and come last in the results. -/

/-- `ta_list_append`. -/
def listAppend (h : Heap D) (list : Option ℕ) (data : Option D) :
    Option (Heap D × Option ℕ) :=
  if data = none then some (h, list)
  else
    let (node, h) := listNew h data
    match list with
    | some _ => do
      let last ← listLast h list
      let h ← h.setNext last (some node)
      let h ← h.setPrev (some node) last
      some (h, list)
    | none => some (h, some node)

/-- The loop of `ta_list_insert`: the node at the position, if the list is long enough. -/
def nodeAt (h : Heap D) (list : Option ℕ) (position : ℤ) : Option (Option ℕ) :=
  walk h.cells Cell.next
    (fun counter node _ => if counter = position then .error (some node) else .ok (counter + 1))
    (fun _ => none) h.fuel list (0 : ℤ)

/-- `ta_list_insert`. -/
def listInsert (h : Heap D) (list : Option ℕ) (data : Option D) (position : ℤ) :
    Option (Heap D × Option ℕ) :=
  let (newnode, h) := listNew h data
  if list = none then some (h, some newnode)
  else if position = 0 then do
    let h ← h.setPrev list (some newnode)
    let h ← h.setNext (some newnode) list
    some (h, some newnode)
  else
    (nodeAt h list position).bind fun
      | some node => do
        let prev := (← h.cells node).prev
        let h ← h.setNext prev (some newnode)
        let h ← h.setNext (some newnode) (some node)
        let h ← h.setPrev (some newnode) prev
        let h ← h.setPrev (some node) (some newnode)
        some (h, list)
      | none => listAppend (h.free newnode) list data

/-- `ta_list_prepend`. -/
def listPrepend (h : Heap D) (list : Option ℕ) (data : Option D) :
    Option (Heap D × Option ℕ) :=
  listInsert h list data 0

/-- `ta_list_extend`. -/
def listExtend (h : Heap D) (list otherlist : Option ℕ) : Option (Heap D × Option ℕ) :=
  if otherlist = none then some (h, list)
  else
    (listLast h list).bind fun
      | some last => do
        let h ← h.setNext (some last) otherlist
        let h ← h.setPrev otherlist (some last)
        some (h, list)
      | none => do
        let h ← h.setPrev otherlist none
        some (h, otherlist)

/-- The loop of `ta_list_remove`: the first node with the data. -/
def nodeOf [DecidableEq D] (h : Heap D) (list : Option ℕ) (data : Option D) :
    Option (Option ℕ) :=
  walk h.cells Cell.next
    (fun s node d => if d ≠ data then .ok s else .error (some node))
    (fun _ => none) h.fuel list ()

/-- `ta_list_remove`. -/
def listRemove [DecidableEq D] (h : Heap D) (list : Option ℕ) (data : Option D)
    (removed : Option ℕ) : Option (Heap D × Option ℕ × Option ℕ) :=
  (nodeOf h list data).bind fun
    | none => some (h, list, removed)
    | some node => do
      let c ← h.cells node
      let h ← if c.prev = none then some h else h.setNext c.prev c.next
      let c ← h.cells node
      let h ← if c.next = none then some h else h.setPrev c.next c.prev
      if some node = list then
        let list := (← h.cells node).next
        let h ← if list = none then some h else h.setPrev list none
        some (h, list, some node)
      else some (h, list, some node)

/-- `ta_list_pop`. -/
def listPop (h : Heap D) (list poppedOut : Option ℕ) :
    Option (Heap D × Option ℕ × Option ℕ) :=
  if list = none then some (h, none, poppedOut)
  else do
    let node ← listLast h list
    let prev := (← node.bind h.cells).prev
    let h ← if prev = none then some h
      else (h.setNext prev none).bind fun h => h.setPrev node none
    some (h, if node = list then none else list, node)

/-- The loop of `ta_list_reverse`. -/
def reverseLoop (h : Heap D) : ℕ → Option ℕ → Option ℕ → Option (Heap D × Option ℕ)
  | 0, _, _ => none
  | _ + 1, none, node => some (h, node)
  | fuel + 1, some node, _ =>
    (h.cells node).bind fun c =>
      (h.setNext (some node) c.prev).bind fun h =>
        (h.setPrev (some node) c.next).bind fun h => reverseLoop h fuel c.next (some node)

/-- `ta_list_reverse`. -/
def listReverse (h : Heap D) (list : Option ℕ) : Option (Heap D × Option ℕ) :=
  reverseLoop h h.fuel list none

end Taningia
