import Mathlib.Data.UInt
import Taningia.CString
import Taningia.LinkedList.Sort

set_option relaxedAutoImplicit false
set_option autoImplicit false

/-!
# Ordering SRV targets: `ta_srv_query_domain`

The targets of an answer are collected in a list, sorted by `cmp_targets`, and then moved one by one
to the list that is returned: for each priority the weights are summed up, and a random number up to
the sum selects a target by the running sum of the weights, until the priority has no target left.
The division by `RAND_MAX` is exact here, and the conversion to `int` truncates.

A target is named by its place in the list `ts` of the targets in memory, which stands for its
address. The functions fail where the code follows a `NULL` pointer.

## Main definitions

* `Taningia.SrvTarget`, `Taningia.Rand` — the targets, and the random numbers.
* `Taningia.cmpTargets` — the comparison for `ta_list_sort`.
* `Taningia.sumWeights`, `Taningia.findTarget`, `Taningia.selectLoop`, `Taningia.orderLoop` — the
  loops.
* `Taningia.orderStage` — from the targets of the answer to the list that is returned.
-/

namespace Taningia

open Chain

/-- `ta_srv_target_t`. -/
structure SrvTarget where
  ttl : UInt32
  _class : UInt16
  priority : UInt16
  weight : UInt16
  port : UInt16
  host : Str
deriving DecidableEq, Repr

/-- `RAND_MAX`, and what the calls of `rand` return one after the other. -/
structure Rand where
  max : ℕ
  rand : ℕ → ℕ
  max_pos : 0 < max
  rand_le : ∀ i, rand i ≤ max

/-- The value of `randint` for the `i`-th call of `rand`. -/
def Rand.randint (R : Rand) (i : ℕ) (sum : ℤ) : ℤ := (R.rand i * (sum + 1)).tdiv R.max

variable (R : Rand) (ts : List SrvTarget)

/-- `(ta_srv_target_t *) p->data`. -/
def targetOf (h : Heap ℕ) (p : ℕ) : Option SrvTarget :=
  (h.cells p).bind fun c => c.data.bind fun d => ts[d]?

/-- `cmp_targets`. -/
def cmpTargets : Compare Unit ℕ := fun env h a b =>
  match targetOf ts h a, targetOf ts h b with
  | some ta, some tb =>
    if ta.priority = tb.priority then ((ta.weight.toNat : ℤ) - tb.weight.toNat, env)
    else ((ta.priority.toNat : ℤ) - tb.priority.toNat, env)
  | _, _ => (0, env)

/-- The body of the loop that sums up the weights of one priority and counts its targets. -/
def sumBody (priority : UInt16) (s : ℤ × ℕ) (_t : ℕ) (data : Option ℕ) :
    Except (Option (ℤ × ℕ)) (ℤ × ℕ) :=
  match data.bind fun d => ts[d]? with
  | none => .error none
  | some target =>
    if target.priority ≠ priority then .error (some s)
    else .ok (s.1 + target.weight.toNat, s.2 + 1)

/-- `sum` and `num` after the loop. -/
def sumWeights (h : Heap ℕ) (targets : Option ℕ) (priority : UInt16) : Option (ℤ × ℕ) :=
  (walk h.cells Cell.next (sumBody ts priority) some h.fuel targets (0, 0)).join

/-- The body of the loop that finds the winner. -/
def findBody (randint : ℤ) (t : ℕ) (data : Option ℕ) : Except (Option (ℕ × ℤ)) ℤ :=
  match data.bind fun d => ts[d]? with
  | none => .error none
  | some target =>
    let weight : ℤ := target.weight.toNat
    if weight ≥ randint then .error (some (t, weight)) else .ok (randint - weight)

/-- The winner and its weight. The loop has no test for the end of the list, and fails there. -/
def findTarget (h : Heap ℕ) (targets : Option ℕ) (randint : ℤ) : Option (ℕ × ℤ) :=
  (walk h.cells Cell.next (findBody ts) (fun _ => none) h.fuel targets randint).join

/-- What the loops change: the nodes, the lists, and the number of calls of `rand`. -/
structure OrderState where
  heap : Heap ℕ
  targets : Option ℕ
  out : Option ℕ
  tail : Option ℕ
  draws : ℕ

/-- The body of `while (num)`, with the weight of the winner. -/
def selectOne (sum : ℤ) (st : OrderState) : Option (ℤ × OrderState) :=
  (findTarget ts st.heap st.targets (R.randint st.draws sum)).bind fun (t, weight) =>
    (st.heap.cells t).bind fun c =>
      (listRemove st.heap st.targets c.data none).bind fun (h, targets, _) =>
        match st.out with
        | none => some (weight, ⟨h, targets, some t, some t, st.draws + 1⟩)
        | some out =>
          (h.setNext st.tail (some t)).map fun h =>
            (weight, ⟨h, targets, some out, some t, st.draws + 1⟩)

/-- The loop `while (num)`. -/
def selectLoop : ℕ → ℤ → OrderState → Option OrderState
  | 0, _, st => some st
  | num + 1, sum, st =>
    (selectOne R ts sum st).bind fun (weight, st) => selectLoop num (sum - weight) st

/-- The loop `while (targets)`. -/
def orderLoop : ℕ → OrderState → Option OrderState
  | 0, _ => none
  | fuel + 1, st =>
    match st.targets with
    | none => some st
    | some targets =>
      (targetOf ts st.heap targets).bind fun target =>
        (sumWeights ts st.heap st.targets target.priority).bind fun (sum, num) =>
          (selectLoop R ts num sum st).bind fun st => orderLoop fuel st

/-- From the call of `ta_list_sort` on: the nodes, and `out`. -/
def orderTargets (h : Heap ℕ) (targets : Option ℕ) : Option (Heap ℕ × Option ℕ) :=
  (listSort (cmpTargets ts) h () targets).bind fun (h, targets, _) =>
    (orderLoop R ts h.fuel ⟨h, targets, none, none, 0⟩).map fun st => (st.heap, st.out)

/-- The calls of `ta_list_append` for the targets that are read from the answer. -/
def appendTargets (h : Heap ℕ) (targets : Option ℕ) : List ℕ → Option (Heap ℕ × Option ℕ)
  | [] => some (h, targets)
  | t :: rest =>
    (listAppend h targets (some t)).bind fun (h, targets) => appendTargets h targets rest

/-- The ordering of the targets of an answer. -/
def orderStage : Option (Heap ℕ × Option ℕ) :=
  (appendTargets (Heap.empty ℕ) none (List.range ts.length)).bind fun (h, targets) =>
    orderTargets R ts h targets

end Taningia
