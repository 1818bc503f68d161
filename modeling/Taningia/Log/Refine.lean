import Taningia.Log.Basic

set_option relaxedAutoImplicit false
set_option autoImplicit false

/-!
# What leaves a log, and what stays

The log as values: its settings, what it gave to handlers and to `stderr`, and the strings that it
left behind. The code does the same on the heap, and follows a bad pointer exactly where this says
that a call fails: a date format that is null or the current one, no time, no name, or no memory for
the text of a handler.

## Main definitions

* `Taningia.LogSpec`, `Taningia.logSpecStep` — the log as values, and one call.
* `Taningia.ShowsLog` — the log on the heap has the values.

## Main results

* `Taningia.fullText_spec` — the text for a handler fills its block.
* `Taningia.logMessage_spec` — one message.
* `Taningia.log_refines` — every run of a log, to its end.
-/

namespace Taningia

open Machine OwnedFields

variable {H U : Type}

/-! ## The log as values -/

/-- The settings of a log, what has left it, and the strings that it left behind. -/
structure LogSpec (H U : Type) where
  name : Option Str
  dateFormat : Option Str
  level : LogLevel
  handler : Option H
  handlerData : Option U
  useColors : ℤ
  out : List (LogOutput H U)
  left : List Str

/-- A new log. -/
def LogSpec.start (H U : Type) (name dateFormat : Option Str) : LogSpec H U :=
  ⟨name, dateFormat, .warn, none, none, 0, [], []⟩

/-- The values with one more output. -/
def LogSpec.emit (s : LogSpec H U) (output : LogOutput H U) : LogSpec H U :=
  { s with out := s.out ++ [output] }

/-- A call that changes the settings. Neither null nor the format that the log has can be set. -/
def settingSpec (s : LogSpec H U) : LogSetting H U → Option (LogSpec H U)
  | .handler handler data => some { s with handler := handler, handlerData := data }
  | .useColors useColors => some { s with useColors := useColors }
  | .level level => some { s with level := level }
  | .dateFormat (.text format) granted =>
    some { s with dateFormat := if granted then some format else none }
  | .dateFormat _ _ => none

/-- The time of a message, when there is one. -/
def LogSpec.time (s : LogSpec H U) (env : LogEnv) : Option Str :=
  if env.time then
    s.dateFormat.bind fun format =>
      if (env.date format).length ≠ 0 ∧ (env.date format).length < maxDateSize then
        some (env.date format)
      else none
  else none

/-- The text that a handler gets. -/
def handlerText (ltime name msg : Str) : Str :=
  "[".toList ++ ltime ++ "][".toList ++ name ++ "] ".toList ++ msg

/-- The message is printed. -/
def LogSpec.print (s : LogSpec H U) (f : LogFn) (ltime name msg : Str) : LogSpec H U :=
  s.emit (.printed ((f.format s.useColors).line ltime name msg))

/-- A message with its time goes to the handler, if there is one, and is printed unless the handler
takes it over. -/
def LogSpec.deliver (answers : Answers H U) (s : LogSpec H U) (f : LogFn) (ltime name msg : Str)
    (env : LogEnv) : Option (LogSpec H U) :=
  match s.handler with
  | none => some (s.print f ltime name msg)
  | some handler =>
    if env.full then
      let text := handlerText ltime name msg
      let answer := answers handler f.level text s.handlerData
      (run? settingSpec (s.emit (.handled handler f.level text s.handlerData)) answer.1).map
        fun s =>
          if answer.2 then { s with left := s.left ++ [ltime, msg] }
          else s.print f ltime name msg
    else none

/-- A message of a function that logs. -/
def messageSpec (answers : Answers H U) (s : LogSpec H U) (f : LogFn) (text : Str) (env : LogEnv) :
    Option (LogSpec H U) :=
  if s.level.rank ≤ f.level.rank then
    if env.message ∧ (text.length < 64 ∨ env.grown) then do
      let ltime ← s.time env
      let name ← s.name
      s.deliver answers f ltime name text env
    else some s
  else some s

def logSpecStep (answers : Answers H U) (s : LogSpec H U) : LogCall H U → Option (LogSpec H U)
  | .setting setting => settingSpec s setting
  | .message f text env => messageSpec answers s f text env

/-! ## The text for a handler -/

/-- A write behind what a block holds. -/
lemma write_next {b : CString} {xs : List (Option Char)} (hb : b.Holds xs) (ys : List (Option Char))
    {off : ℤ} (hoff : off = xs.length) (hlen : xs.length + ys.length ≤ b.length) :
    ∃ b' : CString, b.write off ys = some b' ∧ b'.length = b.length ∧ b'.Holds (xs ++ ys) := by
  subst hoff
  exact Block.write_append hb ys hlen

/-- **The text for a handler** fills its block, and is read back whole.

**Proof sketch.** The five writes follow each other without a gap, from the start of the block
to its last byte but one, and the terminator is behind them; so the block holds the whole text,
which has no NUL in it. -/
lemma fullText_spec (ltime name msg : Str) :
    ∃ b, fullText ltime name msg = some b ∧ readCString b = some (handlerText ltime name msg) := by
  obtain ⟨b₀, hb₀, hsize⟩ : ∃ b₀ : CString,
      b₀ = List.replicate (ltime.length + name.length + msg.length + 5 + 1) none ∧
        b₀.length = ltime.length + name.length + msg.length + 6 :=
    ⟨_, rfl, by simp⟩
  obtain ⟨b₁, hw₁, hl₁, h₁⟩ := write_next (Block.holds_nil b₀) (letters "[".toList)
    (show (0 : ℤ) = _ by simp) (by simp [letters, hsize])
  obtain ⟨b₂, hw₂, hl₂, h₂⟩ := write_next h₁ (letters ltime)
    (show (1 : ℤ) = _ by simp [letters]) (by simp [letters, hl₁, hsize]; omega)
  obtain ⟨b₃, hw₃, hl₃, h₃⟩ := write_next h₂ (letters "][".toList)
    (show ((1 + ltime.length : ℕ) : ℤ) = _ by simp [letters]; omega)
    (by simp [letters, hl₂, hl₁, hsize]; omega)
  obtain ⟨b₄, hw₄, hl₄, h₄⟩ := write_next h₃ (letters name)
    (show ((3 + ltime.length : ℕ) : ℤ) = _ by simp [letters]; omega)
    (by simp [letters, hl₃, hl₂, hl₁, hsize]; omega)
  obtain ⟨b₅, hw₅, hl₅, h₅⟩ := write_next h₄ (letters "] ".toList)
    (show ((3 + ltime.length + name.length : ℕ) : ℤ) = _ by simp [letters]; omega)
    (by simp [letters, hl₄, hl₃, hl₂, hl₁, hsize]; omega)
  obtain ⟨b₆, hw₆, hl₆, h₆⟩ := write_next h₅ (letters msg)
    (show ((5 + ltime.length + name.length : ℕ) : ℤ) = _ by simp [letters]; omega)
    (by simp [letters, hl₅, hl₄, hl₃, hl₂, hl₁, hsize]; omega)
  obtain ⟨b₇, hw₇, hl₇, h₇⟩ := write_next h₆ [none]
    (show ((ltime.length + name.length + msg.length + 5 : ℕ) : ℤ) = _ by simp [letters]; omega)
    (by simp [letters, hl₆, hl₅, hl₄, hl₃, hl₂, hl₁, hsize]; omega)
  refine ⟨b₇, ?_, ?_⟩
  · simp only [fullText, ← hb₀, hw₁, hw₂, hw₃, hw₄, hw₅, hw₆, hw₇, Option.bind_eq_bind,
      Option.bind_some]
  · have hletters : ([] ++ letters "[".toList ++ letters ltime ++ letters "][".toList ++
        letters name ++ letters "] ".toList ++ letters msg) =
          letters (handlerText ltime name msg) := by
      simp [letters, handlerText]
    rw [hletters] at h₇
    rw [readCString, Block.readUntil_of_holds h₇ (by simp [letters]) rfl]
    simp [letters]

/-! ## The strings of a call -/

/-- The strings of the log, and those in the variables of a call. -/
def logBlocks (s : LogSpec H U) (msg ltime : Option Str) : LogBlock → Option Str
  | .name => s.name
  | .dateFormat => s.dateFormat
  | .msg => msg
  | .logTime => ltime

/-- The log on the heap has the values, with the given strings in the variables of a call. -/
structure ShowsLog (w : LogWorld H U) (s : LogSpec H U) (msg ltime : Option Str) : Prop where
  strings : Holds w.strings (logBlocks s msg ltime) (s.left : Multiset Str)
  level : w.level = s.level
  handler : w.handler = s.handler
  handlerData : w.handlerData = s.handlerData
  useColors : w.useColors = s.useColors
  out : w.out = s.out

section Steps

variable {w : LogWorld H U} {s : LogSpec H U} {msg ltime : Option Str}

/-- An output is one in the model. -/
lemma ShowsLog.emit (h : ShowsLog w s msg ltime) (output : LogOutput H U) :
    ShowsLog (w.emit output) (s.emit output) msg ltime :=
  ⟨h.strings, h.level, h.handler, h.handlerData, h.useColors, by
    simp only [LogWorld.emit, LogSpec.emit, h.out]⟩

/-- The strings of a log are replaced. -/
lemma ShowsLog.setStrings (h : ShowsLog w s msg ltime) {strings : Object LogBlock Str}
    {msg' ltime' : Option Str}
    (hstrings : Holds strings (logBlocks s msg' ltime') (s.left : Multiset Str)) :
    ShowsLog (w.setStrings strings) s msg' ltime' :=
  ⟨hstrings, h.level, h.handler, h.handlerData, h.useColors, h.out⟩

/-- The strings of a log are those of the model. -/
lemma ShowsLog.stringIn_eq (h : ShowsLog w s msg ltime) (b : LogBlock) :
    stringIn w b = logBlocks s msg ltime b := by
  rw [stringIn, h.strings.get_eq, Option.join_some]

/-- The strings with another message. -/
@[simp] lemma update_logBlocks_msg (s : LogSpec H U) (msg ltime o : Option Str) :
    Function.update (logBlocks s msg ltime) .msg o = logBlocks s o ltime := by
  funext b
  cases b <;> simp [logBlocks]

/-- The strings with another time. -/
@[simp] lemma update_logBlocks_logTime (s : LogSpec H U) (msg ltime o : Option Str) :
    Function.update (logBlocks s msg ltime) .logTime o = logBlocks s msg o := by
  funext b
  cases b <;> simp [logBlocks]

/-- The strings with another format of the date. -/
@[simp] lemma update_logBlocks_dateFormat (s : LogSpec H U) (msg ltime o : Option Str) :
    Function.update (logBlocks s msg ltime) .dateFormat o =
      logBlocks { s with dateFormat := o } msg ltime := by
  funext b
  cases b <;> simp [logBlocks]

/-- A change of the settings, also while a handler runs.

**Proof sketch.** The handler, the colors and the level are assigned alike. The format of the
date is a string, which `set_spec` replaces in memory as the model replaces the value. -/
lemma logSetting_spec (h : ShowsLog w s msg ltime) (setting : LogSetting H U) :
    Option.Rel (fun w' s' => ShowsLog w' s' msg ltime ∧ s'.name = s.name) (logSetting w setting)
      (settingSpec s setting) := by
  cases setting with
  | handler handler data =>
    exact .some ⟨⟨h.strings, h.level, rfl, rfl, h.useColors, h.out⟩, rfl⟩
  | useColors useColors =>
    exact .some ⟨⟨h.strings, h.level, h.handler, h.handlerData, rfl, h.out⟩, rfl⟩
  | level level =>
    exact .some ⟨⟨h.strings, rfl, h.handler, h.handlerData, h.useColors, h.out⟩, rfl⟩
  | dateFormat arg granted =>
    have hset := set_spec (fun _ => false) h.strings ⟨.dateFormat, arg.arg, granted⟩
    have hvalue : setValue (fun _ => false) (logBlocks s msg ltime)
        ⟨.dateFormat, arg.arg, granted⟩ =
          (settingSpec s (.dateFormat arg granted)).map fun s' => logBlocks s' msg ltime := by
      cases arg with
      | text format => simp [setValue, Arg.valueFor, storeValue, DateArg.arg, settingSpec]
      | null => simp [setValue, Arg.valueFor, storeValue, DateArg.arg, settingSpec]
      | current =>
        cases hformat : s.dateFormat <;>
          simp [setValue, Arg.valueFor, storeValue, DateArg.arg, settingSpec, logBlocks, hformat]
    rw [hvalue] at hset
    have hrest : ∀ s', settingSpec s (.dateFormat arg granted) = some s' →
        s' = { s with dateFormat := s'.dateFormat } := by
      intro s' hs'
      cases arg with
      | text format =>
        obtain rfl := Option.some.inj hs'
        rfl
      | null => cases hs'
      | current => cases hs'
    rw [logSetting]
    cases hs : settingSpec s (.dateFormat arg granted) with
    | none =>
      rw [hs] at hset
      cases hstrings : OwnedFields.set (fun _ => false) w.strings ⟨.dateFormat, arg.arg, granted⟩
        with
      | none => exact .none
      | some strings =>
        rw [hstrings] at hset
        cases hset
    | some s' =>
      rw [hs] at hset
      obtain ⟨format, rfl⟩ : ∃ format, s' = { s with dateFormat := format } := ⟨_, hrest s' hs⟩
      cases hstrings : OwnedFields.set (fun _ => false) w.strings ⟨.dateFormat, arg.arg, granted⟩
        with
      | none =>
        rw [hstrings] at hset
        cases hset
      | some strings =>
        rw [hstrings] at hset
        cases hset with
        | some hset =>
          exact .some ⟨⟨hset, h.level, h.handler, h.handlerData, h.useColors, h.out⟩, rfl⟩

/-- Settings one after the other, also while a handler runs. -/
lemma logSettings_spec (h : ShowsLog w s msg ltime) (settings : List (LogSetting H U)) :
    Option.Rel (fun w' s' => ShowsLog w' s' msg ltime ∧ s'.name = s.name)
      (run? logSetting w settings) (run? settingSpec s settings) :=
  run?_rel (fun w' s' => ShowsLog w' s' msg ltime ∧ s'.name = s.name)
    (fun _ _ setting h => rel_mono (logSetting_spec h.1 setting) fun _ _ h' =>
      ⟨h'.1, h'.2.trans h.2⟩) ⟨h, rfl⟩ settings

/-- A string that is copied is held. -/
lemma putBlock_spec {strings : Object LogBlock Str} {v : LogBlock → Option Str}
    {others : Multiset Str} (h : Holds strings v others) {b : LogBlock} (hb : v b = none)
    (text : Str) : Holds (putBlock strings b text) (Function.update v b (some text)) others :=
  h.copied (h.fields_eq_none hb) text true

/-- A string that is given back is held no more. -/
lemma freeBlock_spec {strings : Object LogBlock Str} {v : LogBlock → Option Str}
    {others : Multiset Str} (h : Holds strings v others) (b : LogBlock) :
    ∃ strings', freeBlock strings b = some strings' ∧
      Holds strings' (Function.update v b none) others := by
  obtain ⟨heap, hrelease, -, hheld⟩ := h.release b
  exact ⟨_, by rw [freeBlock, hrelease, Option.map_some], hheld⟩

/-- The message is formatted, or there is no memory for it. -/
lemma getMessage_spec (h : ShowsLog w s none none) (text : Str) (env : LogEnv) :
    ShowsLog (w.setStrings (getMessage w.strings text env)) s
      (if env.message ∧ (text.length < 64 ∨ env.grown) then some text else none) none := by
  refine h.setStrings ?_
  unfold getMessage
  split
  · rw [formatLoop_eq]
    have hput := putBlock_spec h.strings (b := .msg) rfl text
    rwa [update_logBlocks_msg] at hput
  · exact h.strings

/-- The time is there, or nothing is.

**Proof sketch.** Without the local time, its format or memory for the text no string is stored;
otherwise the string of the time is. -/
lemma logLocaltime_spec (h : ShowsLog w s msg none) (env : LogEnv) :
    (∃ ltime w', s.time env = some ltime ∧ logLocaltime w env = some w' ∧
      ShowsLog w' s msg (some ltime)) ∨
    (s.time env = none ∧ ∃ w', logLocaltime w env = some w' ∧ stringIn w' .logTime = none) := by
  have hnone : stringIn w .logTime = none := h.stringIn_eq .logTime
  have hget : get w.strings .dateFormat = some s.dateFormat := h.strings.get_eq .dateFormat
  unfold logLocaltime LogSpec.time
  split
  · rw [hget, Option.bind_some]
    cases s.dateFormat with
    | none => exact Or.inr ⟨rfl, w, rfl, hnone⟩
    | some format =>
      simp only [Option.bind_some]
      split
      · refine Or.inl ⟨_, _, rfl, rfl, h.setStrings ?_⟩
        have hput := putBlock_spec h.strings (b := .logTime) rfl (env.date format)
        rwa [update_logBlocks_logTime] at hput
      · refine Or.inr ⟨rfl, _, rfl, ?_⟩
        simp [stringIn, OwnedFields.get, load, forgetBlock, LogWorld.emit, LogWorld.setStrings]
  · exact Or.inr ⟨rfl, w, rfl, hnone⟩

/-- A message that nobody took over is printed, and its strings are freed. -/
lemma printMessage_spec {name text time : Str} (h : ShowsLog w s (some text) (some time))
    (hname : s.name = some name) (f : LogFn) :
    ∃ w', printMessage f w = some w' ∧ ShowsLog w' (s.print f time name text) none none := by
  obtain ⟨strings₁, hfree₁, h₁⟩ := freeBlock_spec h.strings .logTime
  obtain ⟨strings₂, hfree₂, h₂⟩ := freeBlock_spec h₁ .msg
  rw [update_logBlocks_logTime, update_logBlocks_msg] at h₂
  have htime : stringIn w .logTime = some time := h.stringIn_eq .logTime
  have hname' : stringIn w .name = some name := (h.stringIn_eq .name).trans hname
  have hmsg : stringIn w .msg = some text := h.stringIn_eq .msg
  refine ⟨_, ?_, (h.setStrings h₂).emit (.printed ((f.format s.useColors).line time name text))⟩
  simp [printMessage, htime, hname', hmsg, hfree₁, hfree₂, h.useColors]

/-- The strings of a message that a handler took over are left behind.

**Proof sketch.** The two pointers are overwritten without a release, so their strings join what
is left in memory. -/
lemma ShowsLog.taken {text time : Str} (h : ShowsLog w s (some text) (some time)) :
    ShowsLog (w.setStrings (forgetBlock (forgetBlock w.strings .logTime) .msg))
      { s with left := s.left ++ [time, text] } none none := by
  refine ⟨?_, h.level, h.handler, h.handlerData, h.useColors, h.out⟩
  have hforget := (h.strings.forget .logTime).forget .msg
  rw [update_logBlocks_logTime, update_logBlocks_msg] at hforget
  have hleft : (s.left : Multiset Str) + {time} + {text} =
      ((s.left ++ [time, text] : List Str) : Multiset Str) := by
    rw [← Multiset.coe_add, add_assoc]
    rfl
  have hstrings : logBlocks { s with left := s.left ++ [time, text] } none none =
      logBlocks s none none := by
    funext b
    cases b <;> rfl
  rw [hstrings, ← hleft]
  exact hforget

/-- A message with its time goes where the values say.

**Proof sketch.** The time, the name and the message are where the model has them. Without a
handler the message is printed. With one its text is built (`fullText_spec`) and passed on with
the settings that the handler makes (`logSettings_spec`); when it takes the message the strings
are left behind (`ShowsLog.taken`), and otherwise the message is printed too. -/
lemma callHandler_spec (answers : Answers H U) {name text time : Str}
    (h : ShowsLog w s (some text) (some time)) (hname : s.name = some name) (f : LogFn)
    (env : LogEnv) :
    Option.Rel (fun w' s' => ShowsLog w' s' none none)
      ((callHandler answers w f.level env).bind fun res =>
        if res.2 then
          some (res.1.setStrings (forgetBlock (forgetBlock res.1.strings .logTime) .msg))
        else printMessage f res.1)
      (s.deliver answers f time name text env) := by
  have htime : stringIn w .logTime = some time := h.stringIn_eq .logTime
  have hname' : stringIn w .name = some name := (h.stringIn_eq .name).trans hname
  have hmsg : stringIn w .msg = some text := h.stringIn_eq .msg
  unfold callHandler LogSpec.deliver
  rw [h.handler]
  cases s.handler with
  | none =>
    obtain ⟨w', hprint, hw'⟩ := printMessage_spec h hname f
    simp only [Option.bind_some, Bool.false_eq_true, if_false, hprint]
    exact .some hw'
  | some handler =>
    obtain ⟨full, hfull, hread⟩ := fullText_spec time name text
    simp only [htime, hname', hmsg, hfull, hread, Option.bind_eq_bind, Option.bind_some,
      h.handlerData]
    cases env.full with
    | false => exact .none
    | true =>
      simp only [if_true]
      have hrun := logSettings_spec
        (h.emit (.handled handler f.level (handlerText time name text) s.handlerData))
        (answers handler f.level (handlerText time name text) s.handlerData).1
      rw [Option.bind_assoc, Option.map_eq_bind]
      refine rel_bind hrun ?_
      rintro w' s' ⟨h', hkept⟩
      simp only [Option.pure_def, Option.bind_some, Function.comp_apply]
      split
      · -- the handler took the message over, and its strings are left behind
        exact .some (h'.taken)
      · obtain ⟨w'', hprint, hw''⟩ := printMessage_spec h' (hkept.trans hname) f
        rw [hprint]
        exact .some hw''

/-- Without a time or a name, the next use of it is a fault: `strlen` for the handler, or `%s`.

**Proof sketch.** Both ways use the missing string: the text for the handler needs its length,
and the print formats it. -/
lemma callHandler_fault (answers : Answers H U)
    (h : stringIn w .logTime = none ∨ stringIn w .name = none) (f : LogFn) (env : LogEnv) :
    Option.Rel (fun w' s' => ShowsLog w' s' none none)
      ((callHandler answers w f.level env).bind fun res =>
        if res.2 then
          some (res.1.setStrings (forgetBlock (forgetBlock res.1.strings .logTime) .msg))
        else printMessage f res.1)
      (none : Option (LogSpec H U)) := by
  have hprint : printMessage f w = none := by
    rcases h with h | h
    · simp [printMessage, h]
    · simp [printMessage, h]
  have hcall : ∀ handler, w.handler = some handler → callHandler answers w f.level env = none := by
    intro handler hhandler
    rcases h with h | h
    · simp [callHandler, hhandler, h]
    · simp [callHandler, hhandler, h]
  cases hhandler : w.handler with
  | none =>
    have hnone : callHandler answers w f.level env = some (w, false) := by
      simp [callHandler, hhandler]
    rw [hnone, Option.bind_some, if_neg (by simp), hprint]
    exact .none
  | some handler =>
    rw [hcall handler hhandler]
    exact .none

/-- **One message**, or a call that is below the level, or has no memory for its message.

**Proof sketch.** Below the level nothing is done. The message is copied, or the call returns;
then the time is made, or is missing. With both, `callHandler_spec` goes on, and
`callHandler_fault` without a time or a name. -/
lemma logMessage_spec (answers : Answers H U) (h : ShowsLog w s none none) (f : LogFn) (text : Str)
    (env : LogEnv) :
    Option.Rel (fun w' s' => ShowsLog w' s' none none) (logMessage answers f w text env)
      (messageSpec answers s f text env) := by
  unfold logMessage messageSpec
  rw [h.level]
  split
  · have hmsg := getMessage_spec h text env
    split
    · rename_i hgranted
      rw [if_pos hgranted] at hmsg
      have hfields : (w.setStrings (getMessage w.strings text env)).strings.fields .msg ≠ none := by
        intro hnull
        have hread := hmsg.strings.reads .msg
        rw [hnull] at hread
        cases hread
      rw [if_neg hfields]
      rcases logLocaltime_spec hmsg env with
        ⟨time, w', htime, hlocal, hw'⟩ | ⟨htime, w', hlocal, hnone⟩
      · rw [hlocal, htime]
        cases hname : s.name with
        | none =>
          exact callHandler_fault answers (Or.inr ((hw'.stringIn_eq .name).trans hname)) f env
        | some name => exact callHandler_spec answers hw' hname f env
      · rw [hlocal, htime]
        exact callHandler_fault answers (Or.inl hnone) f env
    · rename_i hrefused
      rw [if_neg hrefused] at hmsg
      rw [if_pos (hmsg.strings.fields_eq_none rfl)]
      exact .some hmsg
  · exact .some h

end Steps

/-! ## Runs -/

/-- One call is one in the model. -/
lemma logStep_spec (answers : Answers H U) {w : LogWorld H U} {s : LogSpec H U}
    (h : ShowsLog w s none none) (call : LogCall H U) :
    Option.Rel (fun w' s' => ShowsLog w' s' none none) (logStep answers w call)
      (logSpecStep answers s call) := by
  cases call with
  | setting setting => exact rel_mono (logSetting_spec h setting) fun _ _ h' => h'.1
  | message f text env => exact logMessage_spec answers h f text env

/-- A new log. A name that is null is a fault.

**Proof sketch.** The name and the format are copied into an empty set of strings, each if there
is memory for it; a null name is the fault of `strlen`. -/
lemma logInit_spec (domainName : Option Str) (granted : Bool × Bool) :
    Option.Rel (fun w s => ShowsLog w s none none) (logInit H U domainName granted)
      (domainName.map fun name => LogSpec.start H U (if granted.1 then some name else none)
        (if granted.2 then some "%x %X".toList else none)) := by
  cases domainName with
  | none => exact .none
  | some name =>
    have hname := (holds_empty (F := LogBlock) (S := Str)).copied (f := .name) rfl name granted.1
    have hformat := hname.copied (f := .dateFormat) rfl "%x %X".toList granted.2
    refine .some ⟨?_, rfl, rfl, rfl, rfl, rfl⟩
    have hstrings : logBlocks (LogSpec.start H U (if granted.1 then some name else none)
        (if granted.2 then some "%x %X".toList else none)) none none =
          Function.update (Function.update (fun _ => none) .name
            (if granted.1 then some name else none)) .dateFormat
            (if granted.2 then some "%x %X".toList else none) := by
      funext b
      cases b <;> simp [logBlocks, LogSpec.start]
    rw [hstrings]
    exact hformat

/-- **A log over a whole run**: the functions that log and the setters, whatever the handlers do to
the settings, give handlers and `stderr` exactly what the values say, each message whole; and when
the log is freed, exactly the strings of the messages that handlers took over stay in memory.

**Proof sketch.** The log starts as the model does (`logInit_spec`) and each call keeps them
together (`logStep_spec`); at the end `ta_log_free` releases the name and the format, so what is
left in memory are the strings that handlers took over. -/
theorem log_refines (answers : Answers H U) (domainName : Option Str) (granted : Bool × Bool)
    (calls : List (LogCall H U)) :
    Option.Rel
      (fun w s => w.out = s.out ∧
        ∃ heap, logFree w = some heap ∧ Malloc.inUse heap = (s.left : Multiset Str))
      ((logInit H U domainName granted).bind fun w => run? (logStep answers) w calls)
      ((domainName.map fun name => LogSpec.start H U (if granted.1 then some name else none)
        (if granted.2 then some "%x %X".toList else none)).bind fun s =>
          run? (logSpecStep answers) s calls) := by
  refine rel_bind (logInit_spec domainName granted) fun w s h => ?_
  refine rel_mono (run?_rel (fun w s => ShowsLog w s none none)
    (fun _ _ call h => logStep_spec answers h call) h calls) fun w s h => ⟨h.out, ?_⟩
  obtain ⟨heap, hdestroy, hheld⟩ := h.strings.release_all
    (show [LogBlock.name, .dateFormat].Nodup by decide)
  refine ⟨heap, hdestroy, ?_⟩
  have hrest : ∑ b : LogBlock, (if b ∈ [LogBlock.name, .dateFormat] then none
      else logBlocks s none none b).elim 0 (fun t => ({t} : Multiset Str)) = 0 :=
    Finset.sum_eq_zero fun b _ => by cases b <;> simp [logBlocks]
  have hin := hheld.inUse
  rwa [hrest, zero_add] at hin

end Taningia
