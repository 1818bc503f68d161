import Mathlib.Algebra.BigOperators.Group.Finset.Basic
import Taningia.Global.Calls
import Taningia.Lib.Interleave

set_option relaxedAutoImplicit false
set_option autoImplicit false

/-!
# The error records of the threads

The threads of a process make their calls in any order, and end. They share the heap, but each holds
blocks of its own; so each sees its own errors only, and what goes wrong goes wrong in one thread.

## Main definitions

* `Taningia.Apart` — the threads hold their records in blocks of their own.
* `Taningia.SafeLives` — the calls of a thread that its record allows.

## Main results

* `Taningia.thread_records_apart` — each thread has the record of its own calls.
* `Taningia.process_memory` — what stays allocated.
* `Taningia.process_safe_iff` — which processes never follow a bad pointer.
-/

namespace Taningia

open Machine Interleave

variable {T : Type}

/-! ## All threads -/

/-- The threads hold their records in blocks of their own, and nothing else is in use. -/
structure Apart (w : Process T) (s : T → ThreadRecord) (foot : T → List ℕ) : Prop where
  holds : ∀ t, HoldsRecord w.heap (w.tls t) (s t).record (foot t)
  disjoint : ∀ t u, t ≠ u → ∀ q ∈ foot t, q ∉ foot u
  balance : ∀ ts : Finset T, (∀ t ∉ ts, s t = ThreadRecord.start) →
    labels w.heap = ∑ t ∈ ts, (s t).blocks

/-- Before any call no thread has a record, and nothing is in use. -/
lemma apart_start : Apart (Process.start T) (fun _ => ThreadRecord.start) fun _ => [] where
  holds _ := .untouched
  disjoint _ _ _ _ hq := absurd hq List.not_mem_nil
  balance ts _ := by
    have hblocks : ThreadRecord.start.blocks = 0 := rfl
    simp only [hblocks, Finset.sum_const_zero]
    rfl

/-- What `ta_error_last` shows to a thread that holds a record.

**Proof sketch.** `viewErrorLast_spec` compares what the code shows with `openRecord`, which
succeeds when no block is refused; by cases on the record its last message is the one of the
thread. -/
lemma Apart.shown {w : Process T} {s : T → ThreadRecord} {foot : T → List ℕ} (h : Apart w s foot)
    (t : T) :
    (viewErrorLast (w.view t) true).map Prod.snd = some (shownRecord (s t).record) := by
  have hlast := viewErrorLast_spec (v := w.view t) (h.holds t) true
  have hopen : ∃ e, openRecord (s t).record true = some e ∧ e.last = shownRecord (s t).record := by
    cases (s t).record with
    | none => exact ⟨.unset, rfl, rfl⟩
    | some e => exact ⟨e, rfl, rfl⟩
  obtain ⟨e, he, hshown⟩ := hopen
  rw [he] at hlast
  cases hres : viewErrorLast (w.view t) true with
  | none =>
    rw [hres] at hlast
    cases hlast
  | some res =>
    rw [hres] at hlast
    cases hlast with
    | some hlast => rw [Option.map_some, hlast.1, hshown]

section Threads

variable [DecidableEq T] {w : Process T} {s : T → ThreadRecord} {foot : T → List ℕ}

/-- What one thread does leaves the others their records.

**Proof sketch.** For the thread `u` the new facts are given. The addresses of another thread
are not among the ones that `u` had, nor among the ones it took, so its record is kept; the sum
of the blocks is split at `u`. -/
lemma Apart.update (h : Apart w s foot) {u : T} {v : ThreadView} {s' : ThreadRecord}
    {foot' : List ℕ} (hholds : HoldsRecord v.heap v.slot s'.record foot')
    (hout : Outcome w.heap (foot u) (s u).blocks v.heap foot' s'.blocks) :
    Apart ⟨v.heap, Function.update w.tls u v.slot⟩ (Function.update s u s')
      (Function.update foot u foot') where
  holds t := by
    by_cases ht : t = u
    · subst ht
      simpa using hholds
    · simp only [Function.update_of_ne ht]
      refine (h.holds t).frame hout.frame (h.disjoint t u ht) fun q hq _ => ?_
      obtain ⟨b, hb⟩ := (h.holds u).live q hq
      rw [hb]
      exact Option.some_ne_none b
  disjoint t t' hne := by
    -- a block of the calling thread was its own, or is new
    have hother : ∀ t, t ≠ u → ∀ q ∈ foot', q ∉ foot t := by
      intro t ht q hq hmem
      rcases hout.fresh q hq with hq | hle
      · exact h.disjoint t u ht q hmem hq
      · obtain ⟨b, hb⟩ := (h.holds t).live q hmem
        exact absurd (Malloc.lt_of_read hb) (not_lt.mpr hle)
    by_cases ht : t = u
    · subst ht
      rw [Function.update_self, Function.update_of_ne (Ne.symm hne)]
      exact hother t' (Ne.symm hne)
    · rw [Function.update_of_ne ht]
      by_cases ht' : t' = u
      · subst ht'
        rw [Function.update_self]
        exact fun q hq hmem => hother t ht q hmem hq
      · rw [Function.update_of_ne ht']
        exact h.disjoint t t' hne
  balance ts hts := by
    have hne : ∀ t ∈ ts.erase u, Function.update s u s' t = s t := fun t ht =>
      Function.update_of_ne (Finset.ne_of_mem_erase ht) _ _
    have hrest : ∑ t ∈ ts.erase u, (Function.update s u s' t).blocks =
        ∑ t ∈ ts.erase u, (s t).blocks :=
      Finset.sum_congr rfl fun t ht => by rw [hne t ht]
    have hbefore : labels w.heap = (s u).blocks + ∑ t ∈ ts.erase u, (s t).blocks := by
      rw [h.balance (insert u (ts.erase u)), Finset.sum_insert (Finset.notMem_erase u ts)]
      intro t ht
      rw [Finset.mem_insert, not_or, Finset.mem_erase, not_and] at ht
      rw [← Function.update_of_ne ht.1 s' s]
      exact hts t (ht.2 ht.1)
    have hafter : labels v.heap = s'.blocks + ∑ t ∈ ts.erase u, (s t).blocks := by
      have hsum := hout.balance
      rw [hbefore] at hsum
      refine add_right_cancel (b := (s u).blocks) ?_
      rw [hsum]
      simp only [add_comm, add_left_comm]
    show labels v.heap = _
    rw [hafter, ← hrest]
    by_cases hu : u ∈ ts
    · rw [← Finset.add_sum_erase ts _ hu, Function.update_self]
    · have hstart : s' = ThreadRecord.start := by
        have hs' := hts u hu
        rwa [Function.update_self] at hs'
      have hblocks : ThreadRecord.start.blocks = 0 := rfl
      rw [hstart, hblocks, zero_add, Finset.erase_eq_of_notMem hu]

/-- A call in the process does what it does in the state machine of the thread that makes it. -/
lemma processStep_spec (h : Apart w s foot) (op : T × ThreadCall) :
    Option.Rel (fun w' s' => ∃ foot', Apart w' s' foot') (processStep w op)
      (productStep threadStep s op) :=
  rel_map (localStep_spec (v := w.view op.1) (h.holds op.1) op.2)
    fun _ _ ⟨_, hholds, hout⟩ => ⟨_, h.update hholds hout⟩

/-- The same for every interleaving of calls. -/
lemma process_run (trace : List (T × ThreadCall)) :
    Option.Rel (fun w s => ∃ foot, Apart w s foot) (run? processStep (Process.start T) trace)
      (run? (productStep threadStep) (fun _ => ThreadRecord.start) trace) :=
  run?_rel _ (fun _ _ op ⟨_, h⟩ => processStep_spec h op) ⟨_, apart_start⟩ trace

/-- The process fails exactly when a thread does.

**Proof sketch.** `process_run` relates the run to one of the product machine, and that one
exists exactly when every thread's own run does. -/
lemma process_isSome_iff (trace : List (T × ThreadCall)) :
    (∃ w, run? processStep (Process.start T) trace = some w) ↔
      ∀ t, ∃ s, run? threadStep .start (own t trace) = some s := by
  have hrun := process_run (T := T) trace
  rw [← run?_product_isSome_iff]
  constructor
  · rintro ⟨w, hw⟩
    rw [hw] at hrun
    cases hs : run? (productStep threadStep) (fun _ : T => ThreadRecord.start) trace with
    | none =>
      rw [hs] at hrun
      cases hrun
    | some s => exact ⟨s, rfl⟩
  · rintro ⟨s, hs⟩
    rw [hs] at hrun
    cases hw : run? processStep (Process.start T) trace with
    | none =>
      rw [hw] at hrun
      cases hrun
    | some w => exact ⟨w, rfl⟩

/-- Where a run leaves the process, with what each thread expects of its own calls. -/
lemma process_apart {trace : List (T × ThreadCall)}
    (hw : run? processStep (Process.start T) trace = some w)
    (hs : ∀ t, run? threadStep .start (own t trace) = some (s t)) : ∃ foot, Apart w s foot := by
  have hrun := process_run (T := T) trace
  rw [hw, run?_product_iff.mpr hs] at hrun
  cases hrun with
  | some h => exact h

/-- **Each thread has the record of its own calls**: whatever the order in which the calls of the
threads are made, the process follows a bad pointer exactly when a thread does by its own calls, and
otherwise `ta_error_last` shows every thread what its own calls alone lead to. -/
theorem thread_records_apart (trace : List (T × ThreadCall)) :
    ((∃ w, run? processStep (Process.start T) trace = some w) ↔
      ∀ t, ∃ s, run? threadStep .start (own t trace) = some s) ∧
    ∀ w, run? processStep (Process.start T) trace = some w →
      ∀ t s, run? threadStep .start (own t trace) = some s →
        (viewErrorLast (w.view t) true).map Prod.snd = some (shownRecord s.record) := by
  refine ⟨process_isSome_iff trace, fun w hw t s hs => ?_⟩
  obtain ⟨record, hrecord⟩ := Classical.skolem.mp ((process_isSome_iff trace).mp ⟨w, hw⟩)
  obtain ⟨foot, h⟩ := process_apart hw hrecord
  obtain rfl := Option.some.inj ((hrecord t).symm.trans hs)
  exact h.shown t

/-- **What stays allocated** after any calls of the threads is a block for each thread that has one,
the message that it is shown, and every message that a thread was shown when it ended.

**Proof sketch.** `Apart.balance`, for the threads that made a call; a thread without a call has
no block. -/
theorem process_memory (trace : List (T × ThreadCall)) {w : Process T} {s : T → ThreadRecord}
    (hw : run? processStep (Process.start T) trace = some w)
    (hs : ∀ t, run? threadStep .start (own t trace) = some (s t)) :
    labels w.heap = ∑ t ∈ (trace.map Prod.fst).toFinset, (s t).blocks := by
  obtain ⟨foot, h⟩ := process_apart hw hs
  refine h.balance _ fun t ht => ?_
  have hown : own t trace = [] := own_eq_nil fun a ha => ht (by
    rw [List.mem_toFinset]
    exact List.mem_map_of_mem ha)
  have hst := hs t
  rw [hown] at hst
  exact (Option.some.inj hst).symm

/-- Two threads set errors; one ends while its error is shown. -/
def twoThreads : List (Bool × ThreadCall) :=
  [(true, .error (.set 200 [.text "first".toList]) ⟨true, true, true⟩),
    (false, .error (.set 301 [.text "second".toList]) ⟨true, true, true⟩), (true, .exit)]

/-- The message of the thread that ended is still there, besides the state and the message of the
other one. -/
theorem process_memory_twoThreads :
    ∃ w, run? processStep (Process.start Bool) twoThreads = some w ∧
      labels w.heap = {some "first".toList, none, some "second".toList} := by
  have hs : ∀ t : Bool, run? threadStep .start (own t twoThreads) =
      some (if t then ⟨none, ["first".toList]⟩
        else ⟨some (.shown ⟨301, "second".toList⟩), []⟩) := by
    decide
  obtain ⟨w, hw⟩ := (process_isSome_iff twoThreads).mpr fun t => ⟨_, hs t⟩
  refine ⟨w, hw, ?_⟩
  rw [process_memory twoThreads hw hs]
  decide

end Threads

/-! ## Which processes are safe -/

/-- All memory that is asked for is there. -/
def allGranted : Grants := ⟨true, true, true⟩

/-- With memory, a call does to the record what it does to a state that was there before.

**Proof sketch.** Opening a record succeeds with every block granted, and gives the unset state
where there was none. Then by cases on the call and on the record. -/
lemma callRecord_allGranted (record : Option ErrState) (call : ErrorCall) :
    callRecord record allGranted call = (errStateStep (record.getD .unset) call).map some := by
  have hset : ∀ (e : ErrState) errcode args, setRecord (some e) allGranted errcode args =
      (errStateStep e (.set errcode args)).map some := by
    intro e errcode args
    simp [setRecord, allGranted, openRecord]
  cases call with
  | set errcode args =>
    cases record with
    | none =>
      have hnone : setRecord none allGranted errcode args =
          (errStateStep .unset (.set errcode args)).map some := by
        simp [setRecord, allGranted, openRecord]
      simp only [callRecord, openRecord, Option.getD_none]
      split
      · exact hset .unset errcode args
      · exact hnone
    | some e =>
      simp only [callRecord, openRecord, Option.getD_some, Option.map_some, ite_self,
        Option.bind_some, hset]
  | clear => cases record <;> rfl
  | last =>
    cases record with
    | none => rfl
    | some e => cases e <;> rfl

/-- The calls of a thread that does not end meanwhile. -/
def asThread (life : List ErrorCall) : List ThreadCall :=
  life.map fun call => .error call allGranted

/-- A thread never sets an error behind a clear and a set, from its beginning or its last end on. -/
def SafeLives (calls : List ThreadCall) : Prop :=
  ∀ life, asThread life <:+: calls → ¬ SetAfterClear life

/-- The calls of a thread since its beginning or its last end, and the state they lead to. -/
structure LifeOf (calls : List ThreadCall) (s : ThreadRecord) (life : List ErrorCall) : Prop where
  suffix : asThread life <:+ calls
  longest : ∀ life', asThread life' <:+ calls → life'.Sublist life
  state : run? errStateStep .unset life = some (s.record.getD .unset)

/-- Behind the end of a thread the open life is the empty one. -/
lemma asThread_suffix_exit {life : List ErrorCall} {calls : List ThreadCall} :
    asThread life <:+ calls ++ [.exit] ↔ life = [] := by
  rw [List.suffix_concat_iff]
  constructor
  · rintro (hnil | ⟨front, heq, -⟩)
    · exact List.map_eq_nil_iff.mp hnil
    · have hmem : ThreadCall.exit ∈ asThread life := by simp [heq]
      obtain ⟨call, -, hcall⟩ := List.mem_map.mp hmem
      cases hcall
  · rintro rfl
    exact Or.inl rfl

/-- A call on the record prolongs the open life, or leaves it empty.

**Proof sketch.** A suffix of a list with a call at its end is empty or ends with this call; the
rest is a suffix of the calls before. -/
lemma asThread_suffix_error {life : List ErrorCall} {calls : List ThreadCall} {call : ErrorCall} :
    asThread life <:+ calls ++ [.error call allGranted] ↔
      life = [] ∨ ∃ front, life = front ++ [call] ∧ asThread front <:+ calls := by
  rw [List.suffix_concat_iff]
  constructor
  · rintro (hnil | ⟨front, heq, hfront⟩)
    · exact Or.inl (List.map_eq_nil_iff.mp hnil)
    · obtain ⟨l₁, l₂, rfl, rfl, hl₂⟩ := List.map_eq_append_iff.mp heq
      obtain ⟨call', rfl, hcall⟩ := List.map_eq_singleton_iff.mp hl₂
      obtain rfl : call' = call := by simpa using hcall
      exact Or.inr ⟨l₁, rfl, hfront⟩
  · rintro (rfl | ⟨front, rfl, hfront⟩)
    · exact Or.inl rfl
    · exact Or.inr ⟨asThread front, by simp [asThread], hfront⟩

/-- The pattern stays when calls are added. -/
lemma SetAfterClear.of_sublist {calls calls' : List ErrorCall} (h : SetAfterClear calls)
    (hsub : calls.Sublist calls') : SetAfterClear calls' :=
  h.trans (hsub.map ErrorCall.fn)

/-- The state machine of the record goes on exactly when the pattern does not come up.

**Proof sketch.** The run with the call added exists exactly when this step does, and runs that
exist are those without the pattern (`sound_errorRun_iff`). -/
lemma errStateStep_isSome_iff {life : List ErrorCall} {e : ErrState} (call : ErrorCall)
    (h : run? errStateStep .unset life = some e) :
    (∃ e', errStateStep e call = some e') ↔ ¬ SetAfterClear (life ++ [call]) := by
  rw [← sound_errorRun_iff]
  have hrun : run? errStateStep .unset (life ++ [call]) = errStateStep e call := by
    rw [run?_concat, h, Option.bind_some]
  rw [← hrun]
  constructor
  · rintro ⟨e', he'⟩
    exact ((run?_errStateStep _ e').mp he').1
  · intro hsound
    exact ⟨_, (run?_errStateStep _ _).mpr ⟨hsound, rfl⟩⟩

/-- One more call, or the end, makes new lives of the calls that it ends only. -/
lemma safeLives_concat {calls : List ThreadCall} {c : ThreadCall} :
    SafeLives (calls ++ [c]) ↔
      SafeLives calls ∧ ∀ life, asThread life <:+ calls ++ [c] → ¬ SetAfterClear life := by
  constructor
  · intro h
    exact ⟨fun life hlife => h life (List.infix_concat_iff.mpr (Or.inr hlife)),
      fun life hlife => h life hlife.isInfix⟩
  · rintro ⟨h, hnew⟩ life hlife
    exact (List.infix_concat_iff.mp hlife).elim (hnew life) (h life)

/-- No calls do not have the pattern. -/
lemma not_setAfterClear_nil : ¬ SetAfterClear [] := by
  decide

/-- A thread whose memory requests are granted fails exactly when it sets an error behind a clear
and a set.

**Proof sketch.** Induction on the calls from the end, with the life of the thread so far. One more
call ends a life that goes on; if the pattern is new, that call ends it. -/
lemma threadRun_iff (calls : List ThreadCall)
    (hg : ∀ call g, ThreadCall.error call g ∈ calls → g = allGranted) :
    ((∃ s, run? threadStep .start calls = some s) ↔ SafeLives calls) ∧
      ∀ s, run? threadStep .start calls = some s → ∃ life, LifeOf calls s life := by
  induction calls using List.reverseRecOn with
  | nil =>
    have hnil : ∀ life, asThread life <:+: [] → life = [] := by
      intro life hlife
      exact List.map_eq_nil_iff.mp (List.infix_nil.mp hlife)
    refine ⟨⟨fun _ life hlife => hnil life hlife ▸ not_setAfterClear_nil, fun _ => ⟨_, rfl⟩⟩,
      fun s hs => ⟨[], List.nil_suffix, fun life hlife => ?_, ?_⟩⟩
    · rw [hnil life hlife.isInfix]
    · obtain rfl := Option.some.inj hs
      rfl
  | append_singleton calls c ih =>
    obtain ⟨ihiff, ihlife⟩ := ih fun call g h => hg call g (List.mem_append_left _ h)
    rw [run?_concat, safeLives_concat, ← ihiff]
    cases c with
    | exit =>
      have hnew : ∀ life, asThread life <:+ calls ++ [.exit] → ¬ SetAfterClear life := by
        intro life hlife
        rw [asThread_suffix_exit.mp hlife]
        exact not_setAfterClear_nil
      rw [and_iff_left hnew]
      cases hrun : run? threadStep .start calls with
      | none => simp
      | some s =>
        refine ⟨by simp [threadStep], fun s' hs' => ?_⟩
        obtain rfl := Option.some.inj hs'
        refine ⟨[], List.nil_suffix, fun life hlife => ?_, rfl⟩
        rw [asThread_suffix_exit.mp hlife]
    | error call g =>
      obtain rfl := hg call g (by simp)
      cases hrun : run? threadStep .start calls with
      | none => simp
      | some s =>
        obtain ⟨life, hsuffix, hlongest, hstate⟩ := ihlife s hrun
        have hstep : threadStep s (.error call allGranted) =
            (errStateStep (s.record.getD .unset) call).map
              fun e => { s with record := some e } := by
          rw [threadStep, callRecord_allGranted, Option.map_map]
          rfl
        have hpattern : (∀ life', asThread life' <:+ calls ++ [.error call allGranted] →
            ¬ SetAfterClear life') ↔ ¬ SetAfterClear (life ++ [call]) := by
          constructor
          · exact fun h => h _ (asThread_suffix_error.mpr (Or.inr ⟨life, rfl, hsuffix⟩))
          · intro h life' hlife'
            rcases asThread_suffix_error.mp hlife' with rfl | ⟨front, rfl, hfront⟩
            · exact not_setAfterClear_nil
            · exact fun hset => h (hset.of_sublist ((hlongest front hfront).append_right [call]))
        rw [hpattern, ← errStateStep_isSome_iff call hstate, Option.bind_some, hstep]
        refine ⟨by simp, fun s' hs' => ?_⟩
        obtain ⟨e, he, rfl⟩ := Option.map_eq_some_iff.mp hs'
        refine ⟨life ++ [call], asThread_suffix_error.mpr (Or.inr ⟨life, rfl, hsuffix⟩),
          fun life' hlife' => ?_, ?_⟩
        · rcases asThread_suffix_error.mp hlife' with rfl | ⟨front, rfl, hfront⟩
          · exact List.nil_sublist _
          · exact (hlongest front hfront).append_right [call]
        · rw [run?_concat, hstate, Option.bind_some, he]
          rfl

/-- **Which processes are safe**: with memory, no call of any thread follows a bad pointer, in any
order of the calls, exactly when no thread sets an error behind a clear and a set of its own before
it ends. -/
theorem process_safe_iff [DecidableEq T] (trace : List (T × ThreadCall))
    (hg : ∀ t call g, (t, ThreadCall.error call g) ∈ trace → g = allGranted) :
    (∃ w, run? processStep (Process.start T) trace = some w) ↔ ∀ t, SafeLives (own t trace) := by
  rw [process_isSome_iff trace]
  refine forall_congr' fun t => (threadRun_iff (own t trace) fun call g hmem => ?_).1
  exact hg t call g (mem_own.mp hmem)

/-- One thread sets an error behind a clear, the other one between the two. -/
def clearedBetween : List (Bool × ThreadCall) :=
  [(true, .error (.set 200 []) allGranted), (true, .error .clear allGranted),
    (false, .error (.set 301 []) allGranted), (true, .error (.set 201 []) allGranted)]

/-- The process gives a message back twice. -/
theorem process_unsafe_clearedBetween :
    ¬ ∃ w, run? processStep (Process.start Bool) clearedBetween = some w := by
  have hg : ∀ t call g, (t, ThreadCall.error call g) ∈ clearedBetween → g = allGranted := by
    intro t call g hmem
    simp only [clearedBetween, List.mem_cons, Prod.mk.injEq, ThreadCall.error.injEq,
      List.not_mem_nil, or_false] at hmem
    rcases hmem with ⟨-, -, rfl⟩ | ⟨-, -, rfl⟩ | ⟨-, -, rfl⟩ | ⟨-, -, rfl⟩ <;> rfl
  intro h
  exact (process_safe_iff clearedBetween hg).mp h true [.set 200 [], .clear, .set 201 []]
    (List.infix_refl _) (by decide)

end Taningia
