import Mathlib.Data.List.Infix
import Mathlib.Data.Set.Basic

set_option relaxedAutoImplicit false
set_option autoImplicit false

/-!
# Runs of a deterministic machine

A machine takes one step for each operation it is given. This file has its runs over a list of
operations, for total steps and for steps that may fail, and the two induction rules that every
development about such runs uses: a property kept by each step holds in every state reached, and a
relation kept by each pair of steps relates the ends of two runs.

## Main definitions

* `Machine.run` — the state after a list of operations.
* `Machine.run?` — the same for a step that may fail; a failed step ends the run.
* `Machine.recordStep` — a step of a machine with outputs, which are recorded.
* `Machine.EachStep` — a property of every operation of a run with the operations before it.
* `Machine.GuardedRun` — every operation of a run of the machine itself is guarded.
* `Machine.StopsWith` — what a computation that may stop returns when it does.
* `Machine.Leads` — the same, with what it goes on to when it does not.

## Main results

* `Machine.run_invariant`, `Machine.run?_invariant` — the invariant rules.
* `Machine.run_rel` — the simulation rule.
* `Machine.run?_simulates` — a failing machine that is never stuck on guarded operations follows
  its specification.
* `Machine.run?_guarded` — the invariant rule for guarded runs.
* `Machine.guardedRun_iff`, `Machine.guardedRun_iff_follows` — guards that are exact for one step
  are exact for a whole run.
* `Machine.bind_eq_ok_iff`, `Machine.bind_eq_error_iff` — a computation that may stop, part by part.
-/

namespace Machine

variable {S A O : Type*}

/-! ## Total steps -/

/-- The state after the operations. -/
def run (step : S → O → S) (s : S) (ops : List O) : S := ops.foldl step s

/-- A run without operations stays where it is. -/
@[simp] lemma run_nil (step : S → O → S) (s : S) : run step s [] = s := rfl

/-- A run takes its first operation first. -/
@[simp] lemma run_cons (step : S → O → S) (s : S) (o : O) (ops : List O) :
    run step s (o :: ops) = run step (step s o) ops := rfl

/-- A run can be taken in two parts. -/
lemma run_append (step : S → O → S) (s : S) (ops ops' : List O) :
    run step s (ops ++ ops') = run step (run step s ops) ops' :=
  List.foldl_append

/-- The last operation of a run is taken last. -/
@[simp] lemma run_concat (step : S → O → S) (s : S) (ops : List O) (o : O) :
    run step s (ops ++ [o]) = step (run step s ops) o := by
  rw [run_append, run_cons, run_nil]

/-- **The invariant rule**: what each step keeps holds at the end of every run. -/
lemma run_invariant {step : S → O → S} (I : S → Prop) (hstep : ∀ s o, I s → I (step s o))
    {s : S} (hs : I s) (ops : List O) : I (run step s ops) := by
  induction ops generalizing s with
  | nil => exact hs
  | cons o ops ih => exact ih (hstep s o hs)

/-- **The simulation rule**: what each pair of steps keeps relates the ends of two runs. -/
lemma run_rel {step : S → O → S} {spec : A → O → A} (R : S → A → Prop)
    (hstep : ∀ s a o, R s a → R (step s o) (spec a o)) {s : S} {a : A} (h : R s a)
    (ops : List O) : R (run step s ops) (run spec a ops) := by
  induction ops generalizing s a with
  | nil => exact h
  | cons o ops ih => exact ih (hstep s a o h)

/-! ## Steps that may fail -/

/-- The state after the operations, when no step fails. -/
def run? (step : S → O → Option S) (s : S) : List O → Option S
  | [] => some s
  | o :: ops => (step s o).bind fun s' => run? step s' ops

/-- A run without operations succeeds where it is. -/
@[simp] lemma run?_nil (step : S → O → Option S) (s : S) : run? step s [] = some s := rfl

/-- A run that can fail takes its first operation first. -/
lemma run?_cons (step : S → O → Option S) (s : S) (o : O) (ops : List O) :
    run? step s (o :: ops) = (step s o).bind fun s' => run? step s' ops := rfl

/-- A run that can fail can be taken in two parts. -/
lemma run?_append (step : S → O → Option S) (s : S) (ops ops' : List O) :
    run? step s (ops ++ ops') = (run? step s ops).bind fun s' => run? step s' ops' := by
  induction ops generalizing s with
  | nil => simp
  | cons o ops ih =>
    cases h : step s o with
    | none => simp [run?_cons, h]
    | some s' => simp [run?_cons, h, ih]

/-- The last operation of a run that can fail is taken last. -/
lemma run?_concat (step : S → O → Option S) (s : S) (ops : List O) (o : O) :
    run? step s (ops ++ [o]) = (run? step s ops).bind fun s' => step s' o := by
  rw [run?_append]
  congr 1
  funext s'
  cases h : step s' o with
  | none => simp [run?_cons, h]
  | some s'' => simp [run?_cons, h]

/-- **The invariant rule** for steps that may fail. -/
lemma run?_invariant {step : S → O → Option S} (I : S → Prop)
    (hstep : ∀ s o s', I s → step s o = some s' → I s') {s s' : S} (hs : I s) {ops : List O}
    (h : run? step s ops = some s') : I s' := by
  induction ops generalizing s with
  | nil => exact (Option.some.inj h) ▸ hs
  | cons o ops ih =>
    rw [run?_cons] at h
    obtain ⟨t, ht, h⟩ := Option.bind_eq_some_iff.mp h
    exact ih (hstep s o t hs ht) h

/-- A run that succeeds succeeds up to each of its operations. -/
lemma run?_of_isPrefix {step : S → O → Option S} {s s' : S} {pre ops : List O}
    (h : run? step s ops = some s') (hpre : pre <+: ops) : ∃ t, run? step s pre = some t := by
  obtain ⟨post, rfl⟩ := hpre
  rw [run?_append] at h
  obtain ⟨t, ht, -⟩ := Option.bind_eq_some_iff.mp h
  exact ⟨t, ht⟩

/-- The operations of a run are all guarded, each in the state of the specification before it. -/
def Guarded (spec : A → O → A) (guard : A → O → Prop) : A → List O → Prop
  | _, [] => True
  | a, o :: ops => guard a o ∧ Guarded spec guard (spec a o) ops

/-- A guard on the operations alone holds along a run when it holds of each of them. -/
lemma guarded_of_forall {spec : A → O → A} {P : O → Prop} (a : A) {ops : List O}
    (h : ∀ o ∈ ops, P o) : Guarded spec (fun _ o => P o) a ops := by
  induction ops generalizing a with
  | nil => trivial
  | cons o ops ih => exact ⟨h o (by simp), ih _ fun o' ho' => h o' (by simp [ho'])⟩

/-- **The simulation rule** for steps that may fail: when a guarded operation always succeeds in
related states, a guarded run succeeds and ends related to its specification. -/
lemma run?_simulates {step : S → O → Option S} {spec : A → O → A} {guard : A → O → Prop}
    (R : S → A → Prop)
    (hstep : ∀ s a o, R s a → guard a o → ∃ s', step s o = some s' ∧ R s' (spec a o))
    {s : S} {a : A} (h : R s a) {ops : List O} (hg : Guarded spec guard a ops) :
    ∃ s', run? step s ops = some s' ∧ R s' (run spec a ops) := by
  induction ops generalizing s a with
  | nil => exact ⟨s, rfl, h⟩
  | cons o ops ih =>
    obtain ⟨t, ht, hR⟩ := hstep s a o h hg.1
    obtain ⟨s', hs', hR'⟩ := ih hR hg.2
    exact ⟨s', by rw [run?_cons, ht, Option.bind_some, hs'], hR'⟩

/-- Two computations that fail together, each followed by another one. -/
lemma rel_bind {B C : Type*} {R : S → A → Prop} {Q : B → C → Prop} {x : Option S} {y : Option A}
    {f : S → Option B} {g : A → Option C} (h : Option.Rel R x y)
    (hf : ∀ s a, R s a → Option.Rel Q (f s) (g a)) : Option.Rel Q (x.bind f) (y.bind g) := by
  cases h with
  | none => exact .none
  | some h => exact hf _ _ h

/-- Related results stay related under related functions. -/
lemma rel_map {B C : Type*} {R : S → A → Prop} {Q : B → C → Prop} {x : Option S} {y : Option A}
    {f : S → B} {g : A → C} (h : Option.Rel R x y) (hf : ∀ s a, R s a → Q (f s) (g a)) :
    Option.Rel Q (x.map f) (y.map g) := by
  cases h with
  | none => exact .none
  | some h => exact .some (hf _ _ h)

/-- Related results stay related when the second is mapped. -/
lemma rel_map_right {C : Type*} {R : S → A → Prop} {Q : S → C → Prop} {x : Option S} {y : Option A}
    {g : A → C} (h : Option.Rel R x y) (hf : ∀ s a, R s a → Q s (g a)) :
    Option.Rel Q x (y.map g) := by
  cases h with
  | none => exact .none
  | some h => exact .some (hf _ _ h)

/-- Results related in one way are related in a weaker one. -/
lemma rel_mono {R Q : S → A → Prop} {x : Option S} {y : Option A} (h : Option.Rel R x y)
    (hf : ∀ s a, R s a → Q s a) : Option.Rel Q x y := by
  cases h with
  | none => exact .none
  | some h => exact .some (hf _ _ h)

/-- What a computation that did not fail is related to. -/
lemma rel_some_left {R : S → A → Prop} {s : S} {y : Option A} (h : Option.Rel R (some s) y) :
    ∃ a, y = some a ∧ R s a := by
  cases h with
  | some h => exact ⟨_, rfl, h⟩

/-- **The simulation rule** for two steps that fail together: then their runs do, and end related
otherwise. -/
lemma run?_rel {step : S → O → Option S} {spec : A → O → Option A} (R : S → A → Prop)
    (hstep : ∀ s a o, R s a → Option.Rel R (step s o) (spec a o)) {s : S} {a : A} (h : R s a)
    (ops : List O) : Option.Rel R (run? step s ops) (run? spec a ops) := by
  induction ops generalizing s a with
  | nil => exact .some h
  | cons o ops ih => exact rel_bind (hstep s a o h) fun _ _ hR => ih hR

/-- Every operation of a run is guarded, each in the state before it. -/
def GuardedRun (step : S → O → Option S) (guard : S → O → Prop) : S → List O → Prop
  | _, [] => True
  | s, o :: ops => guard s o ∧ ∀ s', step s o = some s' → GuardedRun step guard s' ops

/-- A guarded run is guarded up to each of its operations. -/
lemma GuardedRun.of_isPrefix {step : S → O → Option S} {guard : S → O → Prop} {s : S}
    {pre ops : List O} (h : GuardedRun step guard s ops) (hpre : pre <+: ops) :
    GuardedRun step guard s pre := by
  induction pre generalizing s ops with
  | nil => trivial
  | cons o pre ih =>
    obtain ⟨post, rfl⟩ := hpre
    exact ⟨h.1, fun s' hs' => ih (h.2 s' hs') (List.prefix_append pre post)⟩

/-- **The invariant rule** under guards: when a guarded operation always succeeds and keeps the
invariant, a guarded run succeeds and ends with it. -/
lemma run?_guarded {step : S → O → Option S} {guard : S → O → Prop} {I : S → Prop}
    (hstep : ∀ s o, I s → guard s o → ∃ s', step s o = some s' ∧ I s') {s : S} (hI : I s)
    {ops : List O} (h : GuardedRun step guard s ops) : ∃ s', run? step s ops = some s' ∧ I s' := by
  induction ops generalizing s with
  | nil => exact ⟨s, rfl, hI⟩
  | cons o ops ih =>
    obtain ⟨hg, hrest⟩ := h
    obtain ⟨t, ht, hIt⟩ := hstep s o hI hg
    obtain ⟨s', hs', hI'⟩ := ih hIt (hrest t ht)
    exact ⟨s', by rw [run?_cons, ht, Option.bind_some, hs'], hI'⟩

/-- A property that no step brings about holds before a run when it holds behind it. `K` is an
invariant of all steps. -/
lemma run?_reflects {step : S → O → Option S} {K I : S → Prop}
    (hkeep : ∀ s o s', K s → step s o = some s' → K s')
    (hbad : ∀ s o s', K s → step s o = some s' → I s' → I s) {s s' : S} (hK : K s) {ops : List O}
    (h : run? step s ops = some s') (hI : I s') : I s := by
  induction ops generalizing s with
  | nil => exact (Option.some.inj h) ▸ hI
  | cons o ops ih =>
    rw [run?_cons] at h
    obtain ⟨t, ht, h⟩ := Option.bind_eq_some_iff.mp h
    exact hbad s o t hK ht (ih (hkeep s o t hK ht) h)

/-- **The rule for exact guards**: when a step from a good state succeeds in a good state exactly
under its guard, and never repairs a bad one, then a run from a good state succeeds in a good state
exactly when all of its operations are guarded. `K` is an invariant of all steps.

**Proof sketch.** From left to right the guard makes each step succeed in a good state that
keeps the invariant, so `run?_guarded` carries both to the end. From right to left, by induction
on the run: the state after the first step is good because the end is good (`run?_reflects`), so
the guard of this step is met, and the induction hypothesis takes the rest. -/
lemma guardedRun_iff {step : S → O → Option S} {guard : S → O → Prop} {K I : S → Prop}
    (hkeep : ∀ s o s', K s → step s o = some s' → K s')
    (hbad : ∀ s o s', K s → step s o = some s' → I s' → I s)
    (hexact : ∀ s o, K s → I s → (guard s o ↔ ∃ s', step s o = some s' ∧ I s'))
    {s : S} (hK : K s) (hI : I s) (ops : List O) :
    GuardedRun step guard s ops ↔ ∃ s', run? step s ops = some s' ∧ I s' := by
  constructor
  · intro h
    have hstep : ∀ s o, K s ∧ I s → guard s o → ∃ s', step s o = some s' ∧ K s' ∧ I s' := by
      rintro s o ⟨hK, hI⟩ hg
      obtain ⟨t, ht, hIt⟩ := (hexact s o hK hI).mp hg
      exact ⟨t, ht, hkeep s o t hK ht, hIt⟩
    obtain ⟨s', hs', -, hI'⟩ := run?_guarded hstep ⟨hK, hI⟩ h
    exact ⟨s', hs', hI'⟩
  · rintro ⟨s', hs', hI'⟩
    induction ops generalizing s with
    | nil => trivial
    | cons o ops ih =>
      rw [run?_cons] at hs'
      obtain ⟨t, ht, hs'⟩ := Option.bind_eq_some_iff.mp hs'
      have hKt := hkeep s o t hK ht
      have hIt := run?_reflects hkeep hbad hKt hs' hI'
      refine ⟨(hexact s o hK hI).mpr ⟨t, ht, hIt⟩, fun u hu => ?_⟩
      obtain rfl := Option.some.inj (ht.symm.trans hu)
      exact ih hKt hIt hs'

/-- **The rule for exact guards and a specification**: when a step from a state that agrees with the
specification succeeds and agrees again exactly under its guard, then a run agrees all along exactly
when all of its operations are guarded. `K` is an invariant of the legal steps that agree.

**Proof sketch.** Induction on the run. The agreement after the first step is the case of a
prefix of one operation, which the guard of this step decides; longer prefixes start with this
step and are left to the induction hypothesis at the states reached. -/
lemma guardedRun_iff_follows {step : S → O → Option S} {spec : A → O → A}
    {legal guard : S → O → Prop} {K : S → Prop} {R : S → A → Prop}
    (hkeep : ∀ s a o s', K s → R s a → legal s o → step s o = some s' → R s' (spec a o) → K s')
    (hexact : ∀ s a o, K s → R s a → legal s o →
      (guard s o ↔ ∃ s', step s o = some s' ∧ R s' (spec a o)))
    {s : S} {a : A} (hK : K s) (hR : R s a) {ops : List O} (hlegal : GuardedRun step legal s ops) :
    GuardedRun step guard s ops ↔
      ∀ pre, pre <+: ops → ∃ s', run? step s pre = some s' ∧ R s' (run spec a pre) := by
  induction ops generalizing s a with
  | nil =>
    refine ⟨fun _ pre hpre => ?_, fun _ => trivial⟩
    obtain rfl := List.prefix_nil.mp hpre
    exact ⟨s, rfl, hR⟩
  | cons o ops ih =>
    obtain ⟨hlegal, hrest⟩ := hlegal
    have hstep := hexact s a o hK hR hlegal
    constructor
    · rintro ⟨hg, hguarded⟩ pre hpre
      obtain ⟨t, ht, hRt⟩ := hstep.mp hg
      cases pre with
      | nil => exact ⟨s, rfl, hR⟩
      | cons o' pre =>
        obtain ⟨rfl, hfront⟩ := List.cons_prefix_cons.mp hpre
        obtain ⟨s', hs', hR'⟩ :=
          (ih (hkeep s a _ t hK hR hlegal ht hRt) hRt (hrest t ht)).mp (hguarded t ht) pre hfront
        exact ⟨s', by rw [run?_cons, ht, Option.bind_some, hs'], hR'⟩
    · intro h
      have hfirst : ∃ t, step s o = some t ∧ R t (spec a o) := by
        obtain ⟨t, ht, hRt⟩ := h [o] (List.cons_prefix_cons.mpr ⟨rfl, List.nil_prefix⟩)
        rw [run?_cons] at ht
        obtain ⟨u, hu, hut⟩ := Option.bind_eq_some_iff.mp ht
        obtain rfl := Option.some.inj hut
        exact ⟨u, hu, hRt⟩
      obtain ⟨t, ht, hRt⟩ := hfirst
      refine ⟨hstep.mpr ⟨t, ht, hRt⟩, fun u hu => ?_⟩
      obtain rfl := Option.some.inj (ht.symm.trans hu)
      refine (ih (hkeep s a o t hK hR hlegal ht hRt) hRt (hrest t ht)).mpr fun pre hpre => ?_
      obtain ⟨s', hs', hR'⟩ := h (o :: pre) (List.cons_prefix_cons.mpr ⟨rfl, hpre⟩)
      rw [run?_cons, ht, Option.bind_some] at hs'
      exact ⟨s', hs', hR'⟩

/-! ## Outputs of a run -/

section Outputs

variable {B : Type*} {exec : S → O → Option (S × B)}

/-- A step of a machine with outputs, behind what was recorded before: each operation with its
output. -/
def recordStep (exec : S → O → Option (S × B)) (s : S × List (O × B)) (o : O) :
    Option (S × List (O × B)) :=
  (exec s.1 o).map fun r => (r.1, s.2 ++ [(o, r.2)])

/-- A recorded run takes the steps of the machine. -/
lemma run?_recordStep (s : S) (ops : List O) :
    (run? (recordStep exec) (s, []) ops).map Prod.fst =
      run? (fun s o => (exec s o).map Prod.fst) s ops := by
  induction ops using List.reverseRecOn with
  | nil => rfl
  | append_singleton ops o ih =>
    rw [run?_concat, run?_concat, ← ih]
    cases run? (recordStep exec) (s, []) ops with
    | none => rfl
    | some r =>
      show (recordStep exec r o).map Prod.fst = (exec r.1 o).map Prod.fst
      rw [recordStep, Option.map_map]
      rfl

/-- The last step of a recorded run.

**Proof sketch.** The last operation is split off by `run?_concat`; what it records is put
behind the record of the run in front. -/
lemma run?_recordStep_concat {s s' : S} {ops : List O} {o : O} {log : List (O × B)} :
    run? (recordStep exec) (s, []) (ops ++ [o]) = some (s', log) ↔
      ∃ t front output, run? (recordStep exec) (s, []) ops = some (t, front) ∧
        exec t o = some (s', output) ∧ log = front ++ [(o, output)] := by
  rw [run?_concat]
  constructor
  · intro h
    obtain ⟨⟨t, front⟩, hfront, hstep⟩ := Option.bind_eq_some_iff.mp h
    obtain ⟨⟨u, output⟩, hexec, heq⟩ := Option.map_eq_some_iff.mp hstep
    obtain ⟨rfl, rfl⟩ := Prod.mk.inj heq
    exact ⟨t, front, output, hfront, hexec, rfl⟩
  · rintro ⟨t, front, output, hfront, hexec, rfl⟩
    rw [hfront, Option.bind_some, recordStep, hexec]
    rfl

/-- A run that is recorded is a run. -/
lemma run?_of_recordStep {s s' : S} {ops : List O} {log : List (O × B)}
    (h : run? (recordStep exec) (s, []) ops = some (s', log)) :
    run? (fun s o => (exec s o).map Prod.fst) s ops = some s' := by
  rw [← run?_recordStep, h]
  rfl

/-- Every run can be recorded. -/
lemma run?_recordStep_of_run? {s s' : S} {ops : List O}
    (h : run? (fun s o => (exec s o).map Prod.fst) s ops = some s') :
    ∃ log, run? (recordStep exec) (s, []) ops = some (s', log) := by
  rw [← run?_recordStep] at h
  obtain ⟨⟨t, log⟩, hrun, rfl⟩ := Option.map_eq_some_iff.mp h
  exact ⟨log, hrun⟩

end Outputs

/-! ## Every step of a run -/

/-- Every operation, with the operations before it, has the property. -/
def EachStep (P : List O → O → Prop) (ops : List O) : Prop :=
  ∀ pre o, pre ++ [o] <+: ops → P pre o

/-- Nothing is asked of a run without operations. -/
@[simp] lemma eachStep_nil (P : List O → O → Prop) : EachStep P [] := by
  intro pre o h
  simp at h

/-- Every step of a run, the first step apart.

**Proof sketch.** A prefix of the run is empty or starts with the first operation. -/
lemma eachStep_cons {P : List O → O → Prop} {o : O} {ops : List O} :
    EachStep P (o :: ops) ↔ P [] o ∧ EachStep (fun pre => P (o :: pre)) ops := by
  constructor
  · intro h
    exact ⟨h [] o (by simp), fun pre o' hpre => h (o :: pre) o' (by simpa using hpre)⟩
  · rintro ⟨h, hrest⟩ pre o' hpre
    cases pre with
    | nil =>
      obtain rfl : o' = o := by simpa using hpre
      exact h
    | cons a pre =>
      rw [List.cons_append, List.cons_prefix_cons] at hpre
      obtain ⟨rfl, hpre⟩ := hpre
      exact hrest pre o' hpre

/-- A run with one more operation. -/
lemma eachStep_concat {P : List O → O → Prop} {ops : List O} {o : O} :
    EachStep P (ops ++ [o]) ↔ EachStep P ops ∧ P ops o := by
  constructor
  · intro h
    exact ⟨fun pre o' hpre => h pre o' (hpre.trans (List.prefix_append ops [o])),
      h ops o (List.prefix_refl _)⟩
  · rintro ⟨h, hlast⟩ pre o' hpre
    rcases List.prefix_concat_iff.mp hpre with heq | hpre
    · obtain ⟨rfl, hsame⟩ := List.append_inj' heq rfl
      obtain rfl := List.singleton_inj.mp hsame
      exact hlast
    · exact h pre o' hpre

/-- A property of the operations alone. -/
lemma eachStep_iff_forall {P : O → Prop} {ops : List O} :
    EachStep (fun _ o => P o) ops ↔ ∀ o ∈ ops, P o := by
  induction ops with
  | nil => simp
  | cons o ops ih => rw [eachStep_cons, ih, List.forall_mem_cons]

/-- A property of each step of a run, in the state that it begins in. -/
lemma eachStep_congr {step : S → O → Option S} {P Q : List O → O → Prop} {s s' : S} {ops : List O}
    (hrun : run? step s ops = some s')
    (h : ∀ pre o t t', run? step s pre = some t → step t o = some t' → (P pre o ↔ Q pre o)) :
    EachStep P ops ↔ EachStep Q ops := by
  refine forall_congr' fun pre => forall_congr' fun o => imp_congr_right fun hpre => ?_
  obtain ⟨t', ht'⟩ := run?_of_isPrefix hrun hpre
  rw [run?_concat] at ht'
  obtain ⟨t, ht, hstep⟩ := Option.bind_eq_some_iff.mp ht'
  exact h pre o t t' ht hstep

/-- A property of each step can be checked from the front. -/
def decEachStep : (ops : List O) → (P : List O → O → Prop) → [∀ pre o, Decidable (P pre o)] →
    Decidable (EachStep P ops)
  | [], P, _ => isTrue (eachStep_nil P)
  | o :: ops, P, _ =>
    have := decEachStep ops fun pre => P (o :: pre)
    decidable_of_iff (P [] o ∧ EachStep (fun pre => P (o :: pre)) ops) eachStep_cons.symm

instance (P : List O → O → Prop) [∀ pre o, Decidable (P pre o)] (ops : List O) :
    Decidable (EachStep P ops) := decEachStep ops P

/-! ## Computations that stop early -/

section Stops

variable {ε α β : Type} {f : Except ε α} {g : α → Except ε β}

/-- Two parts of a computation go on when both do. -/
lemma bind_eq_ok_iff {b : β} : f.bind g = .ok b ↔ ∃ a, f = .ok a ∧ g a = .ok b := by
  cases f <;> simp [Except.bind]

/-- Two parts of a computation stop when one of them does. -/
lemma bind_eq_error_iff {e : ε} :
    f.bind g = .error e ↔ f = .error e ∨ ∃ a, f = .ok a ∧ g a = .error e := by
  cases f <;> simp [Except.bind]

/-- When the computation stops, it does so with a result of this kind. -/
def StopsWith (P : ε → Prop) (f : Except ε α) : Prop := ∀ e, f = .error e → P e

variable {P : ε → Prop}

/-- A result is no error. -/
lemma stopsWith_ok (a : α) : StopsWith P (.ok a : Except ε α) := by
  intro e h
  cases h

/-- The error with which a computation stops. -/
lemma stopsWith_error {e : ε} (he : P e) : StopsWith P (.error e : Except ε α) := by
  intro e' h
  cases h
  exact he

/-- Two computations in turn stop with the errors of either. -/
lemma StopsWith.bind (hf : StopsWith P f) (hg : ∀ a, StopsWith P (g a)) :
    StopsWith P (f >>= g) := by
  intro e h
  rcases bind_eq_error_iff.mp h with h | ⟨a, -, h⟩
  · exact hf e h
  · exact hg a e h

/-- A loop stops as its turns do. -/
lemma stopsWith_foldlM {turn : β → α → Except ε β} (hturn : ∀ b a, StopsWith P (turn b a))
    (as : List α) (b : β) : StopsWith P (as.foldlM turn b) := by
  induction as generalizing b with
  | nil => exact stopsWith_ok b
  | cons a as ih =>
    rw [List.foldlM_cons]
    exact (hturn b a).bind fun b => ih b

/-- The computation goes on to a value of one kind, or stops with a result of another. -/
def Leads (R : α → Prop) (P : ε → Prop) (f : Except ε α) : Prop :=
  (∀ a, f = .ok a → R a) ∧ StopsWith P f

variable {R : α → Prop} {T : β → Prop}

/-- The result to which a computation leads. -/
lemma leads_ok {a : α} (ha : R a) : Leads R P (.ok a : Except ε α) := by
  refine ⟨?_, stopsWith_ok a⟩
  intro b h
  cases h
  exact ha

/-- A computation that stops leads to no result. -/
lemma leads_error {e : ε} (he : P e) : Leads R P (.error e : Except ε α) := by
  refine ⟨?_, stopsWith_error he⟩
  intro a h
  cases h

/-- **The sequence rule**: a part begins with what the part before it goes on to. -/
lemma Leads.bind (hf : Leads R P f) (hg : ∀ a, R a → Leads T P (g a)) : Leads T P (f >>= g) := by
  constructor
  · intro b h
    obtain ⟨a, ha, hb⟩ := bind_eq_ok_iff.mp h
    exact (hg a (hf.1 a ha)).1 b hb
  · intro e h
    rcases bind_eq_error_iff.mp h with h | ⟨a, ha, he⟩
    · exact hf.2 e h
    · exact (hg a (hf.1 a ha)).2 e he

end Stops

end Machine
