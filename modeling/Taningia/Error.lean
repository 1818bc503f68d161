import Mathlib.Tactic.NormNum
import Mathlib.Data.List.Sublists
import Taningia.CString
import Taningia.Lib.Ledger
import Taningia.Lib.Machine

set_option relaxedAutoImplicit false
set_option autoImplicit false

/-!
# The error record of a thread

`src/error.c`: the last error of a thread is a code and a message. The record lives twice: the
thread state embeds one `ta_error_t`, and `last_error` is either `NULL` or a pointer to it. The
message is a heap string that `ta_error_set` allocates and that `set_err` and `ta_error_clear`
release.

The other modules use only what `ta_error_last` shows, the value `Taningia.ErrRec`, or where it
matters whether the next `ta_error_set` is sound, the value `Taningia.ErrState`; this file also has
the two fields and the heap strings under them.

## Main definitions

* `Taningia.ErrRec`, `Taningia.errorSet`, `Taningia.errorClear` — the record as callers see it.
* `Taningia.ErrState`, `Taningia.errStateStep` — the record with what `ta_error_clear` leaves
  behind.
* `Taningia.formatMessage` — the loop of `ta_error_set` that grows the message buffer.
* `Taningia.ErrorWorld`, `Taningia.errorStep` — the thread state with its heap strings.

## Main results

* `Taningia.formatMessage_eq` — the message is the complete formatted text.
* `Taningia.record_eq` — in every run the thread state shows the record callers expect.
* `Taningia.errorRun_sound_iff` — the message strings are handled soundly exactly in the runs in
  which no error is set after one was set and then cleared.
* `Taningia.run?_errStateStep` — the runs in which `errStateStep` does not fail are these.
-/

namespace Taningia

/-! ## The record as callers see it -/

/-- `ta_error_t`. -/
structure ErrorT where
  code : ℤ
  message : Str
deriving DecidableEq, Repr

/-- What `ta_error_last` returns: `NULL`, or the record. -/
abbrev ErrRec := Option ErrorT

/-- The record after `ta_error_set (errcode, message)`. -/
def errorSet (errcode : ℤ) (message : Str) : ErrRec := some ⟨errcode, message⟩

/-- The record after `ta_error_clear ()`. -/
def errorClear : ErrRec := none

/-! The return types and the error codes of `error.h`. -/

def taOk : ℤ := 0

def taError : ℤ := -1

def taAtomParsingError : ℤ := 101

def taIriParsingError : ℤ := 200

def taTagParsingError : ℤ := 201

def xmppConnectionError : ℤ := 300

def xmppNoSuchEventError : ℤ := 301

def xmppSendError : ℤ := 302

def taXmppNetworkError : ℤ := 303

def taXmppTlsError : ℤ := 304

def taXmppIoError : ℤ := 305

/-! ## Formatting the message -/

/-- `vsnprintf (msg, size, …)` of a text: what is written, and the length of the whole text. -/
def vsnprintf (text : Str) (size : ℕ) : Str × ℤ := (text.take (size - 1), text.length)

/-- The loop of `ta_error_set`: try the buffer, and grow it to the length `vsnprintf` asks for.
The branch for a negative result of `vsnprintf` is not taken, as it returns the full length. -/
def formatLoop (text : Str) (size : ℕ) : Str :=
  if (vsnprintf text size).2 < size then (vsnprintf text size).1
  else formatLoop text ((vsnprintf text size).2.toNat + 1)
termination_by text.length + 1 - size
decreasing_by
  simp only [vsnprintf, Nat.cast_lt, not_lt, Int.toNat_natCast] at *
  omega

/-- The message that `ta_error_set` allocates; the first buffer has 32 bytes. -/
def formatMessage (text : Str) : Str := formatLoop text 32

/-- From any buffer size the loop ends with the complete text. -/
lemma formatLoop_eq (text : Str) (size : ℕ) : formatLoop text size = text := by
  induction size using formatLoop.induct text with
  | case1 size h =>
    rw [formatLoop, if_pos h]
    simp only [vsnprintf, Nat.cast_lt] at h ⊢
    exact List.take_of_length_le (by omega)
  | case2 size h ih => rw [formatLoop, if_neg h, ih]

/-- **The message is the complete formatted text**, whatever its length. -/
@[simp] lemma formatMessage_eq (text : Str) : formatMessage text = text := formatLoop_eq text 32

/-- An argument of `ta_error_set`: a text of the caller's own, or the message of the record that
`ta_error_last` returns. -/
inductive ErrorArg where
  | text (s : Str)
  | lastMessage
deriving DecidableEq, Repr

/-- The formatted text of the arguments, given the message of the current record. A caller without
a record has no message to pass. -/
def formatArgs (last : ErrRec) : List ErrorArg → Str
  | [] => []
  | .text s :: args => s ++ formatArgs last args
  | .lastMessage :: args => (last.elim [] ErrorT.message) ++ formatArgs last args

/-! ## Calls on one thread -/

/-- A call of the error functions. -/
inductive ErrorCall where
  | set (errcode : ℤ) (args : List ErrorArg)
  | clear
  | last
deriving DecidableEq, Repr

inductive ErrorFn where
  | set
  | clear
  | last
deriving DecidableEq, Repr

def ErrorCall.fn : ErrorCall → ErrorFn
  | .set _ _ => .set
  | .clear => .clear
  | .last => .last

/-- What a call does to the record as callers see it. -/
def recordStep (last : ErrRec) : ErrorCall → ErrRec
  | .set errcode args => errorSet errcode (formatArgs last args)
  | .clear => errorClear
  | .last => last

/-- The record with what `ta_error_clear` leaves behind: no error was ever set, one is shown, or the
latest was cleared and `error_t` still holds its released message. -/
inductive ErrState where
  | unset
  | shown (error : ErrorT)
  | cleared
deriving DecidableEq, Repr

/-- What `ta_error_last` returns. -/
def ErrState.last : ErrState → ErrRec
  | .shown error => some error
  | _ => none

/-- A call, which fails when it releases a message twice. -/
def errStateStep : ErrState → ErrorCall → Option ErrState
  | .cleared, .set _ _ => none
  | s, .set errcode args => some (.shown ⟨errcode, formatArgs s.last args⟩)
  | .unset, .clear => some .unset
  | _, .clear => some .cleared
  | s, .last => some s

/-! ## The thread state and its heap strings -/

/-- `ta_global_state_t`: whether `last_error` points at `error_t`, and the fields of `error_t`. Its
message is `NULL` or names a heap string. -/
structure GlobalState where
  lastError : Bool
  code : ℤ
  message : Option ℕ
deriving DecidableEq, Repr

/-- The thread state, the texts of the heap strings allocated so far, and the ledger of their uses
and releases. -/
structure ErrorWorld where
  global : GlobalState
  heap : List Str
  log : List (Ledger.Event ℕ)
deriving Repr

/-- The zeroed state of a new thread. -/
def ErrorWorld.zero : ErrorWorld := ⟨⟨false, 0, none⟩, [], []⟩

/-- The text of a heap string. -/
def ErrorWorld.text (w : ErrorWorld) (m : Option ℕ) : Str := (m.bind (w.heap[·]?)).getD []

/-- `ta_error_last`, read through the pointer it returns. -/
def errorLast (w : ErrorWorld) : ErrRec :=
  if w.global.lastError then some ⟨w.global.code, w.text w.global.message⟩ else none

/-- Reading the message of the record that `ta_error_last` returns. -/
def ErrorWorld.readMessage (w : ErrorWorld) : ErrorWorld :=
  match w.global.lastError, w.global.message with
  | true, some m => { w with log := w.log ++ [.use m] }
  | _, _ => w

/-- `free (message)`; `free (NULL)` does nothing. -/
def ErrorWorld.free (w : ErrorWorld) : ErrorWorld :=
  match w.global.message with
  | some m => { w with log := w.log ++ [.free m] }
  | none => w

/-- `set_err (code, msg)`: the old message is released and the new one stored. -/
def setErr (w : ErrorWorld) (code : ℤ) (msg : ℕ) : ErrorWorld :=
  { w.free with global := ⟨true, code, some msg⟩ }

/-- `ta_error_set`: the arguments are formatted into a new string, then the record is set. -/
def worldErrorSet (w : ErrorWorld) (errcode : ℤ) (args : List ErrorArg) : ErrorWorld :=
  let msg := formatMessage (formatArgs (errorLast w) args)
  let w := if .lastMessage ∈ args then w.readMessage else w
  setErr { w with heap := w.heap ++ [msg] } errcode w.heap.length

/-- `ta_error_clear`: the message of the last error is released; `error_t` keeps its pointer. -/
def worldErrorClear (w : ErrorWorld) : ErrorWorld :=
  let w := if w.global.lastError then w.free else w
  { w with global := { w.global with lastError := false } }

/-- One call. A caller of `ta_error_last` reads the message of the record it gets. -/
def errorStep (w : ErrorWorld) : ErrorCall → ErrorWorld
  | .set errcode args => worldErrorSet w errcode args
  | .clear => worldErrorClear w
  | .last => w.readMessage

def errorRun (calls : List ErrorCall) : ErrorWorld := Machine.run errorStep .zero calls

def expectedRecord (calls : List ErrorCall) : ErrRec := Machine.run recordStep none calls

/-! ## What each call does to the thread state -/

section Calls

variable {w : ErrorWorld}

/-- A read of the message leaves the global record. -/
@[simp] lemma global_readMessage (w : ErrorWorld) : w.readMessage.global = w.global := by
  unfold ErrorWorld.readMessage
  split <;> rfl

/-- A read of the message leaves the strings. -/
@[simp] lemma heap_readMessage (w : ErrorWorld) : w.readMessage.heap = w.heap := by
  unfold ErrorWorld.readMessage
  split <;> rfl

/-- A release leaves the global record. -/
@[simp] lemma global_free (w : ErrorWorld) : w.free.global = w.global := by
  unfold ErrorWorld.free
  split <;> rfl

/-- A release leaves the strings as they were written. -/
@[simp] lemma heap_free (w : ErrorWorld) : w.free.heap = w.heap := by
  unfold ErrorWorld.free
  split <;> rfl

/-- A release is booked for the message, if there is one. -/
lemma log_free (w : ErrorWorld) :
    w.free.log = w.log ++ w.global.message.toList.map .free := by
  unfold ErrorWorld.free
  split <;> simp [*]

/-- `ta_error_set` points the record at a new string. -/
@[simp] lemma global_worldErrorSet (w : ErrorWorld) (errcode : ℤ) (args : List ErrorArg) :
    (worldErrorSet w errcode args).global = ⟨true, errcode, some w.heap.length⟩ := by
  simp only [worldErrorSet, setErr]
  split <;> simp

/-- `ta_error_set` makes one string. -/
@[simp] lemma length_heap_worldErrorSet (w : ErrorWorld) (errcode : ℤ) (args : List ErrorArg) :
    (worldErrorSet w errcode args).heap.length = w.heap.length + 1 := by
  simp only [worldErrorSet, setErr]
  split <;> simp

/-- `ta_error_set` reads the old message if an argument is it, and then releases it. -/
lemma log_worldErrorSet (w : ErrorWorld) (errcode : ℤ) (args : List ErrorArg) :
    (worldErrorSet w errcode args).log =
      (if .lastMessage ∈ args then w.readMessage else w).log ++
        w.global.message.toList.map .free := by
  simp only [worldErrorSet, setErr, log_free]
  split <;> simp

/-- What `ta_error_last` shows depends on the global record and the strings. -/
lemma errorLast_congr {w w' : ErrorWorld} (hg : w'.global = w.global) (hh : w'.heap = w.heap) :
    errorLast w' = errorLast w := by
  simp only [errorLast, ErrorWorld.text, hg, hh]

/-- After `ta_error_set` the new error is shown. -/
lemma errorLast_worldErrorSet (w : ErrorWorld) (errcode : ℤ) (args : List ErrorArg) :
    errorLast (worldErrorSet w errcode args) =
      errorSet errcode (formatArgs (errorLast w) args) := by
  have hheap : (if .lastMessage ∈ args then w.readMessage else w).heap = w.heap := by
    split <;> simp
  simp [worldErrorSet, setErr, errorLast, ErrorWorld.text, errorSet, hheap]

/-- After `ta_error_clear` no error is shown. -/
lemma errorLast_worldErrorClear (w : ErrorWorld) : errorLast (worldErrorClear w) = none := by
  simp [worldErrorClear, errorLast]

/-- One call keeps the record shown equal to the record expected. -/
lemma errorLast_errorStep (w : ErrorWorld) (call : ErrorCall) :
    errorLast (errorStep w call) = recordStep (errorLast w) call := by
  cases call with
  | set errcode args => exact errorLast_worldErrorSet w errcode args
  | clear => exact errorLast_worldErrorClear w
  | last => exact errorLast_congr (global_readMessage w) (heap_readMessage w)

end Calls

/-- **The record is right in every run**: the thread state shows exactly the code and the complete
text of the latest `ta_error_set` that no `ta_error_clear` followed. -/
theorem record_eq (calls : List ErrorCall) :
    errorLast (errorRun calls) = expectedRecord calls :=
  Machine.run_rel (fun w last => errorLast w = last)
    (fun w _ call h => by rw [errorLast_errorStep, h]) rfl calls

/-! ## The message strings -/

/-- The bookkeeping that holds after any calls, sound or not: the ledger is about allocated
strings, the stored message is one of them, and it is released exactly when no error is shown. -/
structure ErrorWorld.Tracked (w : ErrorWorld) : Prop where
  log_lt : ∀ e ∈ w.log, e.block < w.heap.length
  message_lt : ∀ m, w.global.message = some m → m < w.heap.length
  freed_iff : ∀ m, w.global.message = some m →
    (Ledger.Event.free m ∈ w.log ↔ w.global.lastError = false)
  lastError_message : w.global.lastError = true → w.global.message ≠ none

/-- The bookkeeping starts with no message. -/
lemma tracked_zero : ErrorWorld.zero.Tracked where
  log_lt := by simp [ErrorWorld.zero]
  message_lt := by simp [ErrorWorld.zero]
  freed_iff := by simp [ErrorWorld.zero]
  lastError_message := by simp [ErrorWorld.zero]

/-- A read of the message keeps the bookkeeping.

**Proof sketch.** The read books the message in use, which is one of the strings made so far;
nothing is released. -/
lemma ErrorWorld.Tracked.readMessage {w : ErrorWorld} (h : w.Tracked) :
    w.readMessage.Tracked := by
  unfold ErrorWorld.readMessage
  split
  · rename_i m hlast hm
    refine ⟨?_, h.message_lt, ?_, h.lastError_message⟩
    · intro e he
      rcases List.mem_append.mp he with he | he
      · exact h.log_lt e he
      · rw [List.mem_singleton.mp he]
        exact h.message_lt m hm
    · intro m' hm'
      rw [← h.freed_iff m' hm']
      simp
  · exact h

/-- `ta_error_set` keeps the bookkeeping: the stored message is a new string.

**Proof sketch.** What the call books is a read of the old message and its release, and the old
message is one of the strings made so far. The new message is the next string, so it is not
among the released. -/
lemma ErrorWorld.Tracked.worldErrorSet {w : ErrorWorld} (h : w.Tracked) (errcode : ℤ)
    (args : List ErrorArg) : (worldErrorSet w errcode args).Tracked := by
  have hlog : ∀ e ∈ (Taningia.worldErrorSet w errcode args).log, e.block < w.heap.length := by
    intro e he
    rw [log_worldErrorSet] at he
    rcases List.mem_append.mp he with he | he
    · have hread : (if .lastMessage ∈ args then w.readMessage else w).Tracked := by
        split
        · exact h.readMessage
        · exact h
      have hlt := hread.log_lt e he
      split at hlt <;> simpa using hlt
    · obtain ⟨m, hm, rfl⟩ := List.mem_map.mp he
      exact h.message_lt m (by simpa using hm)
  refine ⟨?_, ?_, ?_, by simp⟩
  · intro e he
    rw [length_heap_worldErrorSet]
    exact Nat.lt_succ_of_lt (hlog e he)
  · intro m hm
    simp only [global_worldErrorSet, Option.some.injEq] at hm
    rw [length_heap_worldErrorSet, ← hm]
    exact Nat.lt_succ_self _
  · intro m hm
    simp only [global_worldErrorSet, Option.some.injEq] at hm
    have hnot : Ledger.Event.free m ∉ (Taningia.worldErrorSet w errcode args).log := by
      intro hmem
      have hlt := hlog _ hmem
      rw [← hm] at hlt
      exact lt_irrefl _ hlt
    simp [hnot]

/-- `ta_error_clear` keeps the bookkeeping: the message it hides is released.

**Proof sketch.** Without an error to hide nothing is done. With one the message is released and
booked, and the flag that says it is live goes down in the same step. -/
lemma ErrorWorld.Tracked.worldErrorClear {w : ErrorWorld} (h : w.Tracked) :
    (worldErrorClear w).Tracked := by
  cases hlast : w.global.lastError with
  | false =>
    refine ⟨?_, ?_, ?_, by simp [Taningia.worldErrorClear]⟩
    · simpa [Taningia.worldErrorClear, hlast] using h.log_lt
    · simpa [Taningia.worldErrorClear, hlast] using h.message_lt
    · intro m hm
      simp only [Taningia.worldErrorClear, hlast] at hm ⊢
      simpa [hlast] using h.freed_iff m hm
  | true =>
    refine ⟨?_, ?_, ?_, by simp [Taningia.worldErrorClear]⟩
    · intro e he
      simp only [Taningia.worldErrorClear, hlast, if_true, log_free] at he
      simp only [Taningia.worldErrorClear, hlast, if_true, heap_free]
      rcases List.mem_append.mp he with he | he
      · exact h.log_lt e he
      · obtain ⟨m, hm, rfl⟩ := List.mem_map.mp he
        exact h.message_lt m (by simpa using hm)
    · simpa [Taningia.worldErrorClear, hlast] using h.message_lt
    · intro m hm
      have hm' : w.global.message = some m := by
        simpa [Taningia.worldErrorClear, hlast] using hm
      simp [Taningia.worldErrorClear, hlast, log_free, hm']

/-- Every call keeps the bookkeeping. -/
lemma ErrorWorld.Tracked.errorStep {w : ErrorWorld} (h : w.Tracked) (call : ErrorCall) :
    (errorStep w call).Tracked := by
  cases call with
  | set errcode args => exact h.worldErrorSet errcode args
  | clear => exact h.worldErrorClear
  | last => exact h.readMessage

/-- The bookkeeping holds after every run. -/
lemma tracked_errorRun (calls : List ErrorCall) : (errorRun calls).Tracked :=
  Machine.run_invariant ErrorWorld.Tracked (fun _ call h => h.errorStep call) tracked_zero calls

/-! ## When the strings are handled soundly -/

/-- A read of the message is sound. -/
lemma sound_readMessage {w : ErrorWorld} (h : w.Tracked) :
    Ledger.Sound w.readMessage.log ↔ Ledger.Sound w.log := by
  unfold ErrorWorld.readMessage
  split
  · rename_i m hlast hm
    rw [Ledger.sound_concat, and_iff_left]
    intro hmem
    simp [(h.freed_iff m hm).mp hmem] at hlast
  · exact Iff.rfl

/-- Releasing the stored message is sound exactly when there is none or it is still shown. -/
lemma sound_free {w : ErrorWorld} (h : w.Tracked) :
    Ledger.Sound w.free.log ↔
      Ledger.Sound w.log ∧ (w.global.message = none ∨ w.global.lastError = true) := by
  rw [log_free]
  cases hm : w.global.message with
  | none => simp
  | some m =>
    have hfreed := h.freed_iff m hm
    simp only [Option.toList_some, List.map_cons, List.map_nil, Ledger.sound_concat,
      Ledger.Event.block, hfreed]
    simp

/-- **Where `ta_error_set` goes wrong**: it is sound exactly when no message was set before, or the
last one is still shown. -/
lemma sound_worldErrorSet {w : ErrorWorld} (h : w.Tracked) (errcode : ℤ) (args : List ErrorArg) :
    Ledger.Sound (worldErrorSet w errcode args).log ↔
      Ledger.Sound w.log ∧ (w.global.message = none ∨ w.global.lastError = true) := by
  rw [log_worldErrorSet]
  split
  · have hfree := sound_free h.readMessage
    rw [log_free, global_readMessage, sound_readMessage h] at hfree
    exact hfree
  · rw [← log_free]
    exact sound_free h

/-- `ta_error_clear` is sound. -/
lemma sound_worldErrorClear {w : ErrorWorld} (h : w.Tracked) :
    Ledger.Sound (worldErrorClear w).log ↔ Ledger.Sound w.log := by
  cases hlast : w.global.lastError with
  | false => simp [worldErrorClear, hlast]
  | true => simp [worldErrorClear, hlast, sound_free h]

/-- Extending two lists by one letter each: a sublist either leaves the new letter out or ends in
it. -/
lemma concat_sublist_concat {α : Type*} (a b : α) (l₁ l₂ : List α) :
    (l₁ ++ [a]).Sublist (l₂ ++ [b]) ↔ (l₁ ++ [a]).Sublist l₂ ∨ a = b ∧ l₁.Sublist l₂ := by
  rw [← List.reverse_sublist]
  simp only [List.reverse_append, List.reverse_singleton, List.singleton_append]
  rw [List.cons_sublist_cons']
  simp only [← List.reverse_concat, List.reverse_sublist]

/-- The calls set an error again after one was set and then cleared. -/
def SetAfterClear (calls : List ErrorCall) : Prop :=
  [ErrorFn.set, .clear, .set].Sublist (calls.map ErrorCall.fn)

instance (calls : List ErrorCall) : Decidable (SetAfterClear calls) :=
  inferInstanceAs (Decidable (List.Sublist _ _))

/-- What the thread state remembers of the calls: a message is stored once an error was set, and
while no error was set after a clear, the stored message is hidden exactly when one was cleared. -/
structure Remembers (w : ErrorWorld) (fns : List ErrorFn) : Prop where
  message_iff : w.global.message ≠ none ↔ [ErrorFn.set].Sublist fns
  hidden_iff : ¬ [ErrorFn.set, .clear, .set].Sublist fns →
    ([ErrorFn.set, .clear].Sublist fns ↔
      w.global.message ≠ none ∧ w.global.lastError = false)

/-- A sublist of the functions called that one more call extends must end in that call. -/
lemma fns_concat (fns : List ErrorFn) (f : ErrorFn) :
    ([ErrorFn.set].Sublist (fns ++ [f]) ↔ [ErrorFn.set].Sublist fns ∨ ErrorFn.set = f) ∧
    ([ErrorFn.set, .clear].Sublist (fns ++ [f]) ↔
      [ErrorFn.set, .clear].Sublist fns ∨ ErrorFn.clear = f ∧ [ErrorFn.set].Sublist fns) ∧
    ([ErrorFn.set, .clear, .set].Sublist (fns ++ [f]) ↔
      [ErrorFn.set, .clear, .set].Sublist fns ∨
        ErrorFn.set = f ∧ [ErrorFn.set, .clear].Sublist fns) := by
  refine ⟨?_, ?_, ?_⟩
  · simp
  · exact concat_sublist_concat ErrorFn.clear f [.set] fns
  · exact concat_sublist_concat ErrorFn.set f [.set, .clear] fns

/-- One call keeps what the thread state remembers.

**Proof sketch.** A sublist that the call extends must end in it. A set stores a shown message, and
without the forbidden pattern it follows no clear of a message; a clear hides the stored message, if
there is one. -/
lemma Remembers.errorStep {w : ErrorWorld} {fns : List ErrorFn} (h : Remembers w fns)
    (call : ErrorCall) : Remembers (errorStep w call) (fns ++ [call.fn]) := by
  obtain ⟨hmsg, hhid⟩ := h
  obtain ⟨h1, h2, h3⟩ := fns_concat fns call.fn
  cases call with
  | set errcode args =>
    simp only [ErrorCall.fn, true_and, reduceCtorEq, false_and, or_false, or_true] at h1 h2 h3
    refine ⟨?_, fun hpat => ?_⟩
    · simp only [ErrorCall.fn, h1, Taningia.errorStep, global_worldErrorSet]
      simp
    · simp only [ErrorCall.fn, h3, not_or] at hpat
      simp [ErrorCall.fn, h2, hpat.2, Taningia.errorStep]
  | clear =>
    have hg : (worldErrorClear w).global.message = w.global.message := by
      simp only [worldErrorClear]
      split <;> simp
    have hlast : (worldErrorClear w).global.lastError = false := rfl
    simp only [ErrorCall.fn, true_and, reduceCtorEq, false_and, or_false] at h1 h2 h3
    refine ⟨?_, fun hpat => ?_⟩
    · simp only [ErrorCall.fn, h1, Taningia.errorStep, hg, hmsg]
    · simp only [ErrorCall.fn, h3] at hpat
      simp only [ErrorCall.fn, h2, Taningia.errorStep, hg, hlast, hmsg, and_true]
      refine ⟨fun h => h.elim (fun h => ?_) id, Or.inr⟩
      exact hmsg.mp ((hhid hpat).mp h).1
  | last =>
    simp only [ErrorCall.fn, reduceCtorEq, false_and, or_false] at h1 h2 h3
    refine ⟨?_, fun hpat => ?_⟩
    · simp only [ErrorCall.fn, h1, Taningia.errorStep, global_readMessage, hmsg]
    · simp only [ErrorCall.fn, h3] at hpat
      simp only [ErrorCall.fn, h2, Taningia.errorStep, global_readMessage, hhid hpat]

/-- After every run the world remembers which functions were called. -/
lemma remembers_errorRun (calls : List ErrorCall) :
    Remembers (errorRun calls) (calls.map ErrorCall.fn) := by
  induction calls using List.reverseRecOn with
  | nil => exact ⟨by simp [errorRun, ErrorWorld.zero], by simp [errorRun, ErrorWorld.zero]⟩
  | append_singleton calls call ih =>
    rw [errorRun, Machine.run_concat, List.map_append, List.map_singleton]
    exact ih.errorStep call

/-- The ledger of a run is sound exactly when no error is set after a clear.

**Proof sketch.** Induction on the calls from the end. Only `ta_error_set` can be unsound, and it is
when a message is stored and hidden (`sound_worldErrorSet`), which is what the calls before it left
when an error was set and cleared (`remembers_errorRun`). -/
lemma sound_errorRun_iff (calls : List ErrorCall) :
    Ledger.Sound (errorRun calls).log ↔ ¬ SetAfterClear calls := by
  induction calls using List.reverseRecOn with
  | nil => simp [errorRun, ErrorWorld.zero, SetAfterClear]
  | append_singleton calls call ih =>
    have hrun : errorRun (calls ++ [call]) = errorStep (errorRun calls) call :=
      Machine.run_concat errorStep .zero calls call
    have hpat : SetAfterClear (calls ++ [call]) ↔ SetAfterClear calls ∨
        ErrorFn.set = call.fn ∧ [ErrorFn.set, .clear].Sublist (calls.map ErrorCall.fn) := by
      rw [SetAfterClear, List.map_append, List.map_singleton]
      exact (fns_concat _ _).2.2
    have htr := tracked_errorRun calls
    rw [hrun, hpat]
    cases call with
    | set errcode args =>
      rw [errorStep, sound_worldErrorSet htr, ih]
      simp only [ErrorCall.fn, true_and, not_or, and_congr_right_iff]
      intro hno
      rw [(remembers_errorRun calls).hidden_iff hno]
      cases (errorRun calls).global.lastError <;> simp
    | clear => simp [errorStep, sound_worldErrorClear htr, ih, ErrorCall.fn]
    | last => simp [errorStep, sound_readMessage htr, ih, ErrorCall.fn]

/-! ## The record with its hidden message -/

/-- What the thread state shows and hides. -/
def ErrorWorld.state (w : ErrorWorld) : ErrState :=
  match errorLast w with
  | some error => .shown error
  | none => if w.global.message = none then .unset else .cleared

/-- What the state of the thread shows is what `ta_error_last` shows. -/
@[simp] lemma last_state (w : ErrorWorld) : w.state.last = errorLast w := by
  unfold ErrorWorld.state
  split
  · simp [ErrState.last, *]
  · split <;> simp [ErrState.last, *]

/-- The record is cleared when a message is left that is not shown. -/
lemma state_eq_cleared_iff {w : ErrorWorld} :
    w.state = .cleared ↔ ¬ (w.global.message = none ∨ w.global.lastError = true) := by
  unfold ErrorWorld.state errorLast
  cases w.global.lastError <;> cases w.global.message <;> simp

/-- The record was never set when there is no message. -/
lemma ErrorWorld.Tracked.state_eq_unset_iff {w : ErrorWorld} (h : w.Tracked) :
    w.state = .unset ↔ w.global.message = none := by
  have hlast := h.lastError_message
  unfold ErrorWorld.state errorLast
  cases hshown : w.global.lastError <;> cases hmessage : w.global.message <;>
    simp [hshown, hmessage] at hlast ⊢

/-- The state after `ta_error_set`. -/
lemma state_worldErrorSet (w : ErrorWorld) (errcode : ℤ) (args : List ErrorArg) :
    (worldErrorSet w errcode args).state = .shown ⟨errcode, formatArgs w.state.last args⟩ := by
  rw [last_state, ErrorWorld.state, errorLast_worldErrorSet]
  rfl

/-- The state after `ta_error_clear`. -/
lemma state_worldErrorClear (w : ErrorWorld) :
    (worldErrorClear w).state = if w.global.message = none then .unset else .cleared := by
  have hmessage : (worldErrorClear w).global.message = w.global.message := by
    simp only [worldErrorClear]
    split <;> simp
  unfold ErrorWorld.state
  rw [errorLast_worldErrorClear, hmessage]

/-- A read of the message leaves the state. -/
lemma state_readMessage (w : ErrorWorld) : w.readMessage.state = w.state := by
  unfold ErrorWorld.state
  rw [global_readMessage, errorLast_congr (global_readMessage w) (heap_readMessage w)]

/-- The strings were handled soundly before a call that handles them soundly. -/
lemma sound_of_errorStep {w : ErrorWorld} (h : w.Tracked) {call : ErrorCall}
    (hw : Ledger.Sound (errorStep w call).log) : Ledger.Sound w.log := by
  cases call with
  | set errcode args => exact ((sound_worldErrorSet h errcode args).mp hw).1
  | clear => exact (sound_worldErrorClear h).mp hw
  | last => exact (sound_readMessage h).mp hw

/-- One call, in a sound state with its bookkeeping: the step fails exactly when the call is
unsound, and follows the thread state otherwise.

**Proof sketch.** One case per call. `ta_error_set` releases the old message, so it is unsound
exactly in the cleared state, where the message was released before; `ta_error_clear` releases
only a message that is shown, and `ta_error_last` only reads one. -/
lemma errStateStep_state {w : ErrorWorld} (h : w.Tracked) (hw : Ledger.Sound w.log)
    (call : ErrorCall) (s : ErrState) :
    errStateStep w.state call = some s ↔
      Ledger.Sound (errorStep w call).log ∧ (errorStep w call).state = s := by
  cases call with
  | set errcode args =>
    rw [errorStep, sound_worldErrorSet h, state_worldErrorSet]
    by_cases hcleared : w.state = .cleared
    · simp [hcleared, errStateStep, state_eq_cleared_iff.mp hcleared]
    · have hstep : errStateStep w.state (.set errcode args) =
          some (.shown ⟨errcode, formatArgs w.state.last args⟩) := by
        cases hstate : w.state with
        | cleared => exact absurd hstate hcleared
        | unset => rfl
        | shown error => rfl
      rw [hstep, Option.some.injEq, and_iff_right]
      exact ⟨hw, not_not.mp (mt state_eq_cleared_iff.mpr hcleared)⟩
  | clear =>
    rw [errorStep, sound_worldErrorClear h, state_worldErrorClear, and_iff_right hw]
    cases hstate : w.state with
    | unset => simp [errStateStep, h.state_eq_unset_iff.mp hstate]
    | shown error =>
      have hmessage : w.global.message ≠ none := by simp [← h.state_eq_unset_iff, hstate]
      simp [errStateStep, hmessage]
    | cleared =>
      have hmessage : w.global.message ≠ none := by simp [← h.state_eq_unset_iff, hstate]
      simp [errStateStep, hmessage]
  | last =>
    rw [errorStep, sound_readMessage h, state_readMessage, and_iff_right hw]
    cases w.state <;> simp [errStateStep]

/-- **The runs in which `errStateStep` does not fail** are those that handle the message strings
soundly, and there it has the state of the thread.

**Proof sketch.** Induction on the run from its end. The run without its last call is handled by
the induction hypothesis, and the last call by `errStateStep_state`; a log that is sound at the
end was sound before the last call. -/
theorem run?_errStateStep (calls : List ErrorCall) (s : ErrState) :
    Machine.run? errStateStep .unset calls = some s ↔
      Ledger.Sound (errorRun calls).log ∧ (errorRun calls).state = s := by
  induction calls using List.reverseRecOn generalizing s with
  | nil => simp [errorRun, ErrorWorld.zero, ErrorWorld.state, errorLast]
  | append_singleton calls call ih =>
    have hrun : errorRun (calls ++ [call]) = errorStep (errorRun calls) call :=
      Machine.run_concat errorStep .zero calls call
    have htr := tracked_errorRun calls
    rw [Machine.run?_concat, hrun, Option.bind_eq_some_iff]
    constructor
    · rintro ⟨t, ht, hstep⟩
      obtain ⟨hw, rfl⟩ := (ih t).mp ht
      exact (errStateStep_state htr hw call s).mp hstep
    · intro h
      have hw := sound_of_errorStep htr h.1
      exact ⟨_, (ih _).mpr ⟨hw, rfl⟩, (errStateStep_state htr hw call s).mpr h⟩

/-- The error functions behave at the end of the calls: `ta_error_last` shows the expected record,
and no message string was released twice or touched after its release. -/
structure ErrorRunSound (calls : List ErrorCall) : Prop where
  record : errorLast (errorRun calls) = expectedRecord calls
  strings : Ledger.Sound (errorRun calls).log

/-- **The error record over whole runs**: at every point of a run the record is right and the
message strings are handled soundly, exactly when the run sets no error after one was set and then
cleared.

**Proof sketch.** The record is right in every run (`record_eq`), and the ledger at the end of a
run is sound exactly without the pattern (`sound_errorRun_iff`). A run without the pattern has no
beginning with it. -/
theorem errorRun_sound_iff (calls : List ErrorCall) :
    (∀ pre, pre <+: calls → ErrorRunSound pre) ↔ ¬ SetAfterClear calls := by
  constructor
  · intro h
    exact (sound_errorRun_iff calls).mp (h calls (List.prefix_refl calls)).strings
  · intro h pre hpre
    have hno : ¬ SetAfterClear pre := fun hp => h (hp.trans (hpre.map _).sublist)
    exact ⟨record_eq pre, (sound_errorRun_iff pre).mpr hno⟩

/-- Setting an error after clearing one releases the first message twice. -/
theorem errorRun_double_free :
    ¬ ∀ pre, pre <+: [ErrorCall.set 321 [.text "Error msg".toList], .clear,
      .set 123 [.text "Another".toList]] → ErrorRunSound pre := by
  intro h
  have hsound := (h _ (List.prefix_refl _)).strings
  rw [sound_errorRun_iff] at hsound
  exact hsound (by decide)

end Taningia
