import Taningia.Error
import Taningia.Lib.Block
import Taningia.Lib.OwnedFields

set_option relaxedAutoImplicit false
set_option autoImplicit false

/-!
# Logging

`src/log.c`: a message is formatted into a block that grows, a time string is made for it, and a
handler gets both in one string. A handler that returns a true value has taken the message over;
otherwise it is printed, and the two strings are freed.

The strings of the log and the local variables of the function that logs are fields that own their
blocks. A handler may change the settings of its log, but does not log itself. Passing null to
`strlen` or to `%s` is a fault. The answers of the allocator and of `strftime` come with the call.

## Main definitions

* `Taningia.LogWorld`, `Taningia.LogSetting`, `Taningia.logSetting` — the log and its settings.
* `Taningia.LogFn`, `Taningia.taLogInfo` and so on — the functions that log, as one with parameters.
* `Taningia.logMessage` — one call of them.
* `Taningia.logStep` — one call of a run.
-/

namespace Taningia

open OwnedFields

/-! ## The log -/

/-- `ta_log_level_t`. -/
inductive LogLevel where
  | debug
  | info
  | warn
  | error
  | critical
deriving DecidableEq, Repr

/-- The value of the enumerator. -/
def LogLevel.rank : LogLevel → ℕ
  | .debug => 0
  | .info => 1
  | .warn => 2
  | .error => 3
  | .critical => 4

/-- The strings that a log owns, and those that a call holds in its variables. -/
inductive LogBlock where
  | name
  | dateFormat
  | msg
  | logTime
deriving DecidableEq, Repr

instance : Fintype LogBlock :=
  ⟨⟨[LogBlock.name, .dateFormat, .msg, .logTime], by decide⟩, fun b => by cases b <;> decide⟩

/-- What leaves the log: a message to a handler with its data, or a text on `stderr`. -/
inductive LogOutput (H U : Type) where
  | handled (handler : H) (level : LogLevel) (text : Str) (data : Option U)
  | printed (text : Str)
deriving DecidableEq, Repr

/-- `ta_log_t`, the heap with its strings, and what has left it. -/
structure LogWorld (H U : Type) where
  strings : Object LogBlock Str
  level : LogLevel
  handler : Option H
  handlerData : Option U
  useColors : ℤ
  out : List (LogOutput H U)

variable {H U : Type}

/-- The log with one more output. -/
def LogWorld.emit (w : LogWorld H U) (output : LogOutput H U) : LogWorld H U :=
  { w with out := w.out ++ [output] }

/-- The log with other strings. -/
def LogWorld.setStrings (w : LogWorld H U) (strings : Object LogBlock Str) : LogWorld H U :=
  { w with strings := strings }

/-- What is passed as a date format: a text, null, or the current one of the log. -/
inductive DateArg where
  | text (s : Str)
  | null
  | current
deriving DecidableEq, Repr

def DateArg.arg : DateArg → Arg LogBlock Str
  | .text s => .value s
  | .null => .null
  | .current => .own .dateFormat

/-- A call of a function that changes the settings. -/
inductive LogSetting (H U : Type) where
  | handler (handler : Option H) (data : Option U)
  | useColors (useColors : ℤ)
  | level (level : LogLevel)
  | dateFormat (arg : DateArg) (granted : Bool)
deriving DecidableEq, Repr

/-- `ta_log_set_handler`, `ta_log_set_use_colors`, `ta_log_set_level`, `ta_log_set_date_format`. -/
def logSetting (w : LogWorld H U) : LogSetting H U → Option (LogWorld H U)
  | .handler handler data => some { w with handler := handler, handlerData := data }
  | .useColors useColors => some { w with useColors := useColors }
  | .level level => some { w with level := level }
  | .dateFormat arg granted =>
    (OwnedFields.set (fun _ => false) w.strings ⟨.dateFormat, arg.arg, granted⟩).map w.setStrings

/-- `ta_log_init`. -/
def logInit (H U : Type) (domainName : Option Str) (granted : Bool × Bool) :
    Option (LogWorld H U) := do
  let strings ← OwnedFields.set (fun _ => false) (Object.empty LogBlock Str)
    ⟨.name, domainName.elim .null .value, granted.1⟩
  let strings ← OwnedFields.set (fun _ => false) strings
    ⟨.dateFormat, .value "%x %X".toList, granted.2⟩
  return ⟨strings, .warn, none, none, 0, []⟩

/-- `ta_log_free`. -/
def logFree (w : LogWorld H U) : Option (Malloc.Heap Str) :=
  destroy w.strings [.name, .dateFormat]

/-! ## The strings of a call -/

/-- What a call finds outside: the answers of the allocator for the message, a larger message, the
time and the text for the handler, and what `strftime` makes of a date format. -/
structure LogEnv where
  message : Bool
  grown : Bool
  time : Bool
  full : Bool
  date : Str → Str

/-- A block for the variable, with a text in it. -/
def putBlock (strings : Object LogBlock Str) (b : LogBlock) (text : Str) : Object LogBlock Str :=
  ⟨(copy strings.heap text true).1,
    Function.update strings.fields b (copy strings.heap text true).2⟩

/-- `free` of the block in a variable, which is not used any more. -/
def freeBlock (strings : Object LogBlock Str) (b : LogBlock) : Option (Object LogBlock Str) :=
  (Malloc.releasePtr strings.heap (strings.fields b)).map fun heap =>
    ⟨heap, Function.update strings.fields b none⟩

/-- The variable goes out of scope. -/
def forgetBlock (strings : Object LogBlock Str) (b : LogBlock) : Object LogBlock Str :=
  ⟨strings.heap, Function.update strings.fields b none⟩

/-- `get_message`: a first buffer of 64 bytes, which grows to the size that `vsnprintf` asks for. -/
def getMessage (strings : Object LogBlock Str) (text : Str) (env : LogEnv) : Object LogBlock Str :=
  if env.message ∧ (text.length < 64 ∨ env.grown) then putBlock strings .msg (formatLoop text 64)
  else strings

/-- `MAX_DATE_SIZE`. -/
def maxDateSize : ℕ := 64

/-- `_ta_log_localtime`. `strftime` returns 0 for a text that does not fit with its NUL, and for an
empty one; then the buffer stays allocated, with nothing to read in it. -/
def logLocaltime (w : LogWorld H U) (env : LogEnv) : Option (LogWorld H U) :=
  if env.time then
    (get w.strings .dateFormat).bind fun dateFormat =>
      match dateFormat with
      | none => some w
      | some format =>
        if (env.date format).length ≠ 0 ∧ (env.date format).length < maxDateSize then
          some (w.setStrings (putBlock w.strings .logTime (env.date format)))
        else
          some ((w.setStrings (forgetBlock (putBlock w.strings .logTime []) .logTime)).emit
            (.printed "Oh god, fix it! Date format too long!".toList))
  else some w

/-- The string in a variable; following null is a fault. -/
def stringIn (w : LogWorld H U) (b : LogBlock) : Option Str := (get w.strings b).join

/-! ## The handler -/

/-- A cell of a string holds a letter or the closing NUL. -/
abbrev CString := Block (Option Char)

def letters (s : Str) : List (Option Char) := s.map some

/-- The block that `_call_handler` fills: six writes behind each other, in a block of one byte more
than the sizes and the punctuation. -/
def fullText (ltime name msg : Str) : Option CString := do
  let size1 := ltime.length
  let size2 := name.length
  let total := size1 + size2 + msg.length + 5
  let full : CString := List.replicate (total + 1) none
  let full ← full.write 0 (letters "[".toList)
  let full ← full.write 1 (letters ltime)
  let full ← full.write (1 + size1 : ℕ) (letters "][".toList)
  let full ← full.write (3 + size1 : ℕ) (letters name)
  let full ← full.write (3 + size1 + size2 : ℕ) (letters "] ".toList)
  let full ← full.write (5 + size1 + size2 : ℕ) (letters msg)
  full.write total [none]

/-- The string in a block, read up to its NUL. -/
def readCString (b : CString) : Option Str :=
  (b.readUntil Option.isNone).map fun s => s.filterMap id

/-- What handlers do: the settings that they change, and whether they return a true value. -/
abbrev Answers (H U : Type) := H → LogLevel → Str → Option U → List (LogSetting H U) × Bool

/-- `_call_handler`. -/
def callHandler (answers : Answers H U) (w : LogWorld H U) (level : LogLevel) (env : LogEnv) :
    Option (LogWorld H U × Bool) :=
  match w.handler with
  | none => some (w, false)
  | some handler => do
    let ltime ← stringIn w .logTime
    let name ← stringIn w .name
    let msg ← stringIn w .msg
    if env.full then
      let full ← fullText ltime name msg
      let text ← readCString full
      let answer := answers handler level text w.handlerData
      let w ← Machine.run? logSetting (w.emit (.handled handler level text w.handlerData)) answer.1
      return (w, answer.2)
    else none

/-! ## The functions that log -/

/-- A format with the conversions for the time, the name and the message. -/
structure LineFormat where
  front : String
  afterTime : String
  afterName : String
  afterMsg : String
deriving DecidableEq, Repr

/-- `fprintf` of the format. -/
def LineFormat.line (f : LineFormat) (ltime name msg : Str) : Str :=
  f.front.toList ++ ltime ++ f.afterTime.toList ++ name ++ f.afterName.toList ++ msg ++
    f.afterMsg.toList

/-- A function that logs: its level, and its formats without and with colours. -/
structure LogFn where
  level : LogLevel
  plain : LineFormat
  colored : LineFormat
deriving DecidableEq, Repr

def taLogInfo : LogFn where
  level := .info
  plain := ⟨"[  INFO ] [ ", " ] [ ", " ] ", "\n"⟩
  colored := ⟨"\x1b[;36m[  INFO ] [ ", " ]\x1b[;0m \x1b[;0m[ ", " ] ", "\x1b[;0m\n"⟩

def taLogWarn : LogFn where
  level := .warn
  plain := ⟨"[  WARN ] [ ", " ] [ ", " ] ", "\n"⟩
  colored := ⟨"\x1b[;33m[  WARN ] [ ", " ]\x1b[;0m \x1b[;0m[ ", " ] ", "\x1b[;0m\n"⟩

def taLogDebug : LogFn where
  level := .debug
  plain := ⟨"[ DEBUG ] [ ", " ] [ ", " ]  ", "\n"⟩
  colored := ⟨"\x1b[;34m[ DEBUG ] [ ", " ]\x1b[;0m \x1b[0;0m[ ", " ] ", "\x1b[;0m\n"⟩

def taLogCritical : LogFn where
  level := .critical
  plain := ⟨"[ CRITI ] [ ", " ] [ ", " ]  ", "\n"⟩
  colored := ⟨"\x1b[;31m[ CRITI ] [ ", " ]\x1b[;0m \x1b[;0m[ ", " ] ", "\x1b[;0m\n"⟩

def taLogError : LogFn where
  level := .error
  plain := ⟨"[ ERROR ] [ ", " ] [ ", " ] ", "\n"⟩
  colored := ⟨"\x1b[1;31m[ ERROR ] [ ", " ]\x1b[1;0m\x1b[1;1m [ ", " ] ", "\x1b[1;0m\n"⟩

/-- A text without its escape sequences, each of which ends in an `m`; the flag says that the text
starts in one. -/
def stripFrom : Bool → Str → Str
  | _, [] => []
  | false, c :: s => if c = '\x1b' then stripFrom true s else c :: stripFrom false s
  | true, c :: s => stripFrom (c ≠ 'm') s

/-- The text ends in an escape sequence. -/
def endsInEscape : Bool → Str → Bool
  | inside, [] => inside
  | false, c :: s => endsInEscape (c = '\x1b') s
  | true, c :: s => endsInEscape (c ≠ 'm') s

def stripEscapes (s : Str) : Str := stripFrom false s

/-- Stripping two texts one after the other. -/
lemma stripFrom_append (inside : Bool) (t s : Str) :
    stripFrom inside (t ++ s) = stripFrom inside t ++ stripFrom (endsInEscape inside t) s := by
  induction t generalizing inside with
  | nil => cases inside <;> rfl
  | cons c t ih =>
    cases inside with
    | true => exact ih _
    | false =>
      by_cases hc : c = '\x1b'
      · simp [stripFrom, endsInEscape, hc, ih]
      · simp [stripFrom, endsInEscape, hc, ih]

/-- A text without escapes is not changed. -/
lemma strip_of_not_mem {t : Str} (ht : '\x1b' ∉ t) :
    stripFrom false t = t ∧ endsInEscape false t = false := by
  induction t with
  | nil => exact ⟨rfl, rfl⟩
  | cons c t ih =>
    rw [List.mem_cons, not_or] at ht
    have hc : c ≠ '\x1b' := Ne.symm ht.1
    simp [stripFrom, endsInEscape, hc, ih ht.2]

/-- The pieces of one format are those of another one with escape sequences. -/
def LineFormat.Colors (f g : LineFormat) : Prop :=
  ∀ piece ∈ [(f.front, g.front), (f.afterTime, g.afterTime), (f.afterName, g.afterName),
      (f.afterMsg, g.afterMsg)],
    stripFrom false piece.1.toList = piece.2.toList ∧ endsInEscape false piece.1.toList = false

instance (f g : LineFormat) : Decidable (f.Colors g) :=
  inferInstanceAs (Decidable (∀ piece ∈ _, _))

/-- A coloured line is the other line with escape sequences. -/
lemma LineFormat.Colors.strip {f g : LineFormat} (h : f.Colors g) {ltime name msg : Str}
    (hltime : '\x1b' ∉ ltime) (hname : '\x1b' ∉ name) (hmsg : '\x1b' ∉ msg) :
    stripEscapes (f.line ltime name msg) = g.line ltime name msg := by
  have hfront := h (f.front, g.front) (by simp)
  have htime := h (f.afterTime, g.afterTime) (by simp)
  have hafter := h (f.afterName, g.afterName) (by simp)
  have hend := h (f.afterMsg, g.afterMsg) (by simp)
  simp only [stripEscapes, LineFormat.line, List.append_assoc, stripFrom_append, hfront.1, hfront.2,
    htime.1, htime.2, hafter.1, hafter.2, hend.1, strip_of_not_mem hltime, strip_of_not_mem hname,
    strip_of_not_mem hmsg]

/-- Every function that logs has the same line with and without colours, but `ta_log_debug` and
`ta_log_critical` print one space more without them. -/
theorem colors_of_functions :
    (∀ f ∈ [taLogInfo, taLogWarn, taLogError], f.colored.Colors f.plain) ∧
    ∀ f ∈ [taLogDebug, taLogCritical],
      f.colored.Colors { f.plain with afterName := " ] " } ∧ f.plain.afterName = " ]  " := by
  decide

/-- The format in use. -/
def LogFn.format (f : LogFn) (useColors : ℤ) : LineFormat :=
  if useColors = 0 then f.plain else f.colored

/-- Printing the message and freeing the two strings. -/
def printMessage (f : LogFn) (w : LogWorld H U) : Option (LogWorld H U) := do
  let ltime ← stringIn w .logTime
  let name ← stringIn w .name
  let msg ← stringIn w .msg
  let strings ← freeBlock w.strings .logTime
  let strings ← freeBlock strings .msg
  return (w.setStrings strings).emit (.printed ((f.format w.useColors).line ltime name msg))

/-- A function that logs, called with a format that makes the text. A message that a handler takes
over stays allocated, and so does its time. -/
def logMessage (answers : Answers H U) (f : LogFn) (w : LogWorld H U) (text : Str) (env : LogEnv) :
    Option (LogWorld H U) :=
  if w.level.rank ≤ f.level.rank then
    let w := w.setStrings (getMessage w.strings text env)
    if w.strings.fields .msg = none then some w
    else do
      let w ← logLocaltime w env
      let (w, taken) ← callHandler answers w f.level env
      if taken then
        return w.setStrings (forgetBlock (forgetBlock w.strings .logTime) .msg)
      else printMessage f w
  else some w

/-! ## Runs -/

/-- A call of a run. -/
inductive LogCall (H U : Type) where
  | setting (setting : LogSetting H U)
  | message (f : LogFn) (text : Str) (env : LogEnv)

def logStep (answers : Answers H U) (w : LogWorld H U) : LogCall H U → Option (LogWorld H U)
  | .setting setting => logSetting w setting
  | .message f text env => logMessage answers f w text env

end Taningia
