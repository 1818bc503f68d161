import Taningia.Error
import Taningia.Lib.Malloc

set_option relaxedAutoImplicit false
set_option autoImplicit false

/-!
# The state of a thread

`src/global.c` with threads: `ta_global_state_get` finds the state of the calling thread under
`_tls_key`, or takes a zeroed block for it, which `pthread_setspecific` is taken to store. When a
thread ends, the destructor of the key gives the block back with `free`, and with it the pointer to
the message that `ta_error_set` stored in it.

A call of the error functions has the answers of the allocator that it asks for. Without memory for
the block of the state, or for the first buffer of a message, the code follows a null pointer.
Without memory for a message of 32 bytes or more, `ta_error_set` leaves the record as it was.

## Main definitions

* `Taningia.ThreadView`, `Taningia.taGlobalStateGet` — the heap and the state as one thread finds
  them.
* `Taningia.viewErrorLast`, `Taningia.viewErrorClear`, `Taningia.viewErrorSet` — the error
  functions.
* `Taningia.Process`, `Taningia.processStep` — all threads, and one call of one of them.
* `Taningia.ThreadRecord`, `Taningia.threadStep` — what a thread expects from its own calls.
-/

namespace Taningia

/-! ## The state of a thread -/

/-- A block of the heap: the state of a thread, or a message. -/
inductive GlobalBlock where
  | state (global : GlobalState)
  | message (text : Str)
deriving DecidableEq, Repr

/-- The answers of the allocator in a call: for the block of the state, for the first buffer of a
message, and for a larger one. -/
structure Grants where
  state : Bool
  buffer : Bool
  grown : Bool
deriving DecidableEq, Repr

/-- The heap, and the value of `_tls_key` for the calling thread. -/
structure ThreadView where
  heap : Malloc.Heap GlobalBlock
  slot : Option ℕ
deriving DecidableEq, Repr

/-- The fields behind a pointer to a state. -/
def ThreadView.state (v : ThreadView) (p : ℕ) : Option GlobalState :=
  match Malloc.read v.heap p with
  | some (.state global) => some global
  | _ => none

/-- The text behind a pointer to a message. -/
def ThreadView.message (v : ThreadView) (m : ℕ) : Option Str :=
  match Malloc.read v.heap m with
  | some (.message text) => some text
  | _ => none

/-- `ta_global_state_get`: the block of the thread, or a zeroed one. -/
def taGlobalStateGet (v : ThreadView) (granted : Bool) : ThreadView × Option ℕ :=
  match v.slot with
  | some p => (v, some p)
  | none =>
    if granted then
      (⟨(Malloc.alloc v.heap (.state ⟨false, 0, none⟩)).1, some v.heap.length⟩,
        some v.heap.length)
    else (v, none)

/-! ## The error functions -/

/-- `ta_error_last`, whose caller reads the record through the pointer it gets. -/
def viewErrorLast (v : ThreadView) (granted : Bool) : Option (ThreadView × ErrRec) := do
  let (v, p) := taGlobalStateGet v granted
  let p ← p
  let global ← v.state p
  if global.lastError then
    let m ← global.message
    let text ← v.message m
    return (v, some ⟨global.code, text⟩)
  else
    return (v, none)

/-- `ta_error_clear`: the message of the last error is given back; `error_t` keeps its pointer. -/
def viewErrorClear (v : ThreadView) (granted : Bool) : Option ThreadView := do
  let (v, p) := taGlobalStateGet v granted
  let p ← p
  let global ← v.state p
  let heap ← if global.lastError then Malloc.releasePtr v.heap global.message else some v.heap
  let heap ← Malloc.write heap p (.state { global with lastError := false })
  return { v with heap }

/-- `set_err`: the old message is given back, shown or not, and the new one stored. -/
def viewSetErr (v : ThreadView) (granted : Bool) (code : ℤ) (msg : ℕ) : Option ThreadView := do
  let (v, p) := taGlobalStateGet v granted
  let p ← p
  let global ← v.state p
  let heap ← Malloc.releasePtr v.heap global.message
  let heap ← Malloc.write heap p (.state ⟨true, code, some msg⟩)
  return { v with heap }

/-- `ta_error_set` from the first buffer on, which is not checked; a larger one is, and without it
the function returns. -/
def viewSetText (v : ThreadView) (g : Grants) (errcode : ℤ) (text : Str) : Option ThreadView :=
  if g.buffer then
    if 32 ≤ text.length ∧ ¬ g.grown then some v
    else
      let (heap, msg) := Malloc.alloc v.heap (.message text)
      viewSetErr { v with heap } g.state errcode msg
  else none

/-- `ta_error_set`. A caller that passes the message of the last error reads it first. -/
def viewErrorSet (v : ThreadView) (g : Grants) (errcode : ℤ) (args : List ErrorArg) :
    Option ThreadView :=
  (if .lastMessage ∈ args then viewErrorLast v g.state else some (v, none)).bind fun (v, last) =>
    viewSetText v g errcode (formatMessage (formatArgs last args))

/-! ## The threads of a process -/

/-- What a thread does: a call of the error functions, or its end. -/
inductive ThreadCall where
  | error (call : ErrorCall) (grants : Grants)
  | exit
deriving DecidableEq, Repr

/-- The destructor of `_tls_key`, when the thread ends. -/
def viewExit (v : ThreadView) : Option ThreadView := do
  let heap ← Malloc.releasePtr v.heap v.slot
  return ⟨heap, none⟩

/-- A call, as its thread finds the process. -/
def localStep (v : ThreadView) : ThreadCall → Option ThreadView
  | .error (.set errcode args) g => viewErrorSet v g errcode args
  | .error .clear g => viewErrorClear v g.state
  | .error .last g => (viewErrorLast v g.state).map Prod.fst
  | .exit => viewExit v

variable {T : Type}

/-- The heap, and the value of `_tls_key` for each thread. -/
structure Process (T : Type) where
  heap : Malloc.Heap GlobalBlock
  tls : T → Option ℕ

/-- The process when `ta_global_state_setup` has made the key. -/
def Process.start (T : Type) : Process T := ⟨[], fun _ => none⟩

/-- The process as a thread finds it. -/
def Process.view (w : Process T) (t : T) : ThreadView := ⟨w.heap, w.tls t⟩

/-- One call of one thread. -/
def processStep [DecidableEq T] (w : Process T) (op : T × ThreadCall) : Option (Process T) :=
  (localStep (w.view op.1) op.2).map fun v => ⟨v.heap, Function.update w.tls op.1 v.slot⟩

/-! ## What a thread expects -/

/-- The record of a thread, none before its first call, and the messages that were left behind when
it ended with a record shown. -/
structure ThreadRecord where
  record : Option ErrState
  lost : List Str
deriving DecidableEq, Repr

def ThreadRecord.start : ThreadRecord := ⟨none, []⟩

/-- What `ta_error_last` shows. -/
def shownRecord (record : Option ErrState) : ErrRec := record.bind ErrState.last

/-- The record when the state of the thread is asked for. -/
def openRecord (record : Option ErrState) (granted : Bool) : Option ErrState :=
  match record with
  | some e => some e
  | none => if granted then some .unset else none

/-- What `ta_error_set` does to the record, once its arguments are known. -/
def setRecord (record : Option ErrState) (g : Grants) (errcode : ℤ) (args : List ErrorArg) :
    Option (Option ErrState) :=
  if g.buffer then
    if 32 ≤ (formatArgs (shownRecord record) args).length ∧ ¬ g.grown then some record
    else ((openRecord record g.state).bind fun e => errStateStep e (.set errcode args)).map some
  else none

/-- What a call does to the record. A caller that passes the message of the last error asks for the
state first. -/
def callRecord (record : Option ErrState) (g : Grants) : ErrorCall → Option (Option ErrState)
  | .set errcode args =>
    (if .lastMessage ∈ args then (openRecord record g.state).map some else some record).bind
      fun record => setRecord record g errcode args
  | .clear => ((openRecord record g.state).bind fun e => errStateStep e .clear).map some
  | .last => (openRecord record g.state).map some

/-- What a thread expects of its own calls. -/
def threadStep (s : ThreadRecord) : ThreadCall → Option ThreadRecord
  | .error call g => (callRecord s.record g call).map fun record => { s with record }
  | .exit => some ⟨none, s.lost ++ ((shownRecord s.record).map ErrorT.message).toList⟩

end Taningia
