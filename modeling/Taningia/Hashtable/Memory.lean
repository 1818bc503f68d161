import Mathlib.Data.List.Flatten
import Taningia.Hashtable.Refine

set_option relaxedAutoImplicit false
set_option autoImplicit false

/-!
# What a hash table gives back

A table takes over the key and the value of each set that succeeds, together with a pair. Over
every run, what it gave back and what it still holds is what it took, each item once; closing it
gives back the rest. When a larger array of buckets cannot be had the table is lost for all calls
but iterating and closing.

## Main definitions

* `Taningia.takenBy`, `Taningia.ledgerStep` — the bindings that a call takes over.
* `Taningia.TableAccount` — given back and held is taken.

## Main results

* `Taningia.hashtable_gives_all_back` — a run and a close give back everything once.
* `Taningia.hashtable_lost_after_failed_rehash` — what is left of a table that could not grow.
-/

namespace Taningia

open Chain Machine

variable {K V : Type}

/-! ## What a table takes over -/

/-- The binding that a call takes over, told by its result. -/
def takenBy (returned : ℤ) : TableCall K V → List (K × Option V)
  | .set key value _ _ => if returned = 0 then [(key, value)] else []
  | _ => []

/-- One call, behind the bindings taken over so far. -/
def ledgerStep (fns : KeyFns K) (w : TableWorld K V × List (K × Option V)) (c : TableCall K V) :
    Option (TableWorld K V × List (K × Option V)) :=
  (tableStep fns w.1 c).map fun w' => (w', w.2 ++ takenBy w'.returned c)

/-- The calls that give back the bindings, with the pair that was made for each: they are numbered
from `start` on. -/
def releasesFor (freeKey freeValue : Bool) : ℕ → List (K × Option V) → List (Release K V)
  | _, [] => []
  | start, b :: taken =>
    releasesOf freeKey freeValue start ⟨b.1, b.2, 0⟩ ++
      releasesFor freeKey freeValue (start + 1) taken

/-- The releases that are owed for one binding more. -/
lemma releasesFor_concat (freeKey freeValue : Bool) (start : ℕ) (taken : List (K × Option V))
    (b : K × Option V) : releasesFor freeKey freeValue start (taken ++ [b]) =
      releasesFor freeKey freeValue start taken ++
        releasesOf freeKey freeValue (start + taken.length) ⟨b.1, b.2, 0⟩ := by
  induction taken generalizing start with
  | nil => simp [releasesFor]
  | cons x taken ih =>
    rw [List.cons_append, releasesFor, releasesFor, ih, List.append_assoc, List.length_cons,
      Nat.add_right_comm, Nat.add_assoc]

/-- What was given back and what the pairs in the table will give back is what was taken. -/
structure TableAccount (fns : KeyFns K) (freeKey freeValue : Bool) (t : Hashtable K V)
    (slots : List (TableSlot K V)) (taken : List (K × Option V)) : Prop where
  setup : t.freeKey = freeKey ∧ t.freeValue = freeValue
  made : t.pairs = taken.length
  balance : (t.released ++ releasesOfAll t slots).Perm (releasesFor freeKey freeValue 0 taken)

section TableAccount

variable {fns : KeyFns K} {freeKey freeValue : Bool} {t t' : Hashtable K V}
  {slots slots' : List (TableSlot K V)} {taken : List (K × Option V)}

/-- The releases are those of the free functions of the table. -/
lemma releasesOfAll_congr (h : SameSetup t t') (slots : List (TableSlot K V)) :
    releasesOfAll t' slots = releasesOfAll t slots := by
  rw [releasesOfAll, releasesOfAll, h.1, h.2]

/-- The releases of two parts of a table. -/
lemma releasesOfAll_append (t : Hashtable K V) (l₁ l₂ : List (TableSlot K V)) :
    releasesOfAll t (l₁ ++ l₂) = releasesOfAll t l₁ ++ releasesOfAll t l₂ :=
  List.flatMap_append

/-- The releases do not depend on the order of the pairs. -/
lemma releasesOfAll_perm {l₁ l₂ : List (TableSlot K V)} (h : l₁.Perm l₂) :
    (releasesOfAll t l₁).Perm (releasesOfAll t l₂) := h.flatMap_right _

/-- **Giving back some pairs** keeps the account.

**Proof sketch.** The pairs are those with the key and the others. The releases of the first are
the new ones, and those of the others are what is still owed. -/
lemma TableAccount.give (h : TableAccount fns freeKey freeValue t slots taken) {key : K}
    (hsetup : SameSetup t t') (hpairs : t'.pairs = t.pairs)
    (hslots : slots'.Perm (without fns key slots))
    (hreleased : t'.released = t.released ++
      releasesOfAll t (slots.filter (sameKey fns key))) :
    TableAccount fns freeKey freeValue t' slots' taken := by
  refine ⟨⟨hsetup.1.trans h.setup.1, hsetup.2.trans h.setup.2⟩, hpairs.trans h.made, ?_⟩
  refine List.Perm.trans ?_ h.balance
  have hsplit : (slots.filter (sameKey fns key) ++ slots').Perm slots :=
    (hslots.append_left _).trans (List.filter_append_perm _ _)
  rw [hreleased, releasesOfAll_congr hsetup, List.append_assoc, ← releasesOfAll_append]
  exact (releasesOfAll_perm hsplit).append_left _

/-- **Taking over a binding** keeps the account.

**Proof sketch.** The new pair takes the next number, which is the place of the new binding in
the list. -/
lemma TableAccount.take (h : TableAccount fns freeKey freeValue t slots taken) {b : K × Option V}
    {hash : UInt32} (hsetup : SameSetup t t') (hpairs : t'.pairs = t.pairs + 1)
    (hslots : slots'.Perm ((t.pairs, ⟨b.1, b.2, hash⟩) :: slots))
    (hreleased : t'.released = t.released) :
    TableAccount fns freeKey freeValue t' slots' (taken ++ [b]) := by
  refine ⟨⟨hsetup.1.trans h.setup.1, hsetup.2.trans h.setup.2⟩, ?_, ?_⟩
  · rw [hpairs, h.made, List.length_append, List.length_singleton]
  · have hnew : (releasesOfAll t slots').Perm
        (releasesOfAll t slots ++ releasesOf freeKey freeValue t.pairs ⟨b.1, b.2, hash⟩) := by
      refine (releasesOfAll_perm hslots).trans ?_
      rw [← h.setup.1, ← h.setup.2]
      show (releasesOf _ _ t.pairs _ ++ releasesOfAll t slots).Perm _
      exact List.perm_append_comm
    rw [hreleased, releasesOfAll_congr hsetup, releasesFor_concat, Nat.zero_add, ← h.made]
    refine (hnew.append_left _).trans ?_
    rw [← List.append_assoc]
    exact h.balance.append_right _

end TableAccount

/-! ## Every run -/

section Runs

variable {fns : KeyFns K} {freeKey freeValue : Bool}

/-- The table of a world is valid and accounts for what it took. -/
def TableBalanced (fns : KeyFns K) (freeKey freeValue : Bool)
    (w : TableWorld K V × List (K × Option V)) : Prop :=
  ∃ n runs, ValidTable fns w.1.table n runs ∧
    TableAccount fns freeKey freeValue w.1.table (slotsOf runs) w.2

/-- **One call keeps the account.**

**Proof sketch.** By cases on the call. A set first gives back the pairs with its key and then
takes over the binding; a deletion only gives back; an iteration touches no pair. -/
lemma ledgerStep_balanced {w : TableWorld K V × List (K × Option V)}
    (hb : TableBalanced fns freeKey freeValue w) {c : TableCall K V} (hroom : tableRoom fns w.1 c) :
    ∃ w', ledgerStep fns w c = some w' ∧ TableBalanced fns freeKey freeValue w' := by
  obtain ⟨n, runs, hv, ha⟩ := hb
  cases c with
  | set key value array block =>
    cases block with
    | true =>
      obtain ⟨t', n', runs', l₁, l₂, hset, hv', hslots, hperm, -, hsetup, hpairs, hreleased⟩ :=
        hashtableSet_spec hv key value (RoomFor.hasRoom hv hroom)
      refine ⟨(w.1.store (t', 0), w.2 ++ [(key, value)]),
        by rw [ledgerStep, tableStep, hset]; rfl, n', runs', hv', ?_⟩
      -- first the old binding is given back, then the new one is taken
      have hgive : TableAccount fns freeKey freeValue { t' with pairs := w.1.table.pairs }
          (l₁ ++ l₂) w.2 := ha.give hsetup rfl hperm hreleased
      have hnew : (slotsOf runs').Perm
          ((w.1.table.pairs, ⟨key, value, fns.hashKey key⟩) :: (l₁ ++ l₂)) := by
        rw [hslots]
        exact List.perm_middle
      exact hgive.take (b := (key, value)) ⟨rfl, rfl⟩ hpairs hnew rfl
    | false =>
      obtain ⟨t', n', runs', hset, hv', hperm, -, hsetup, hpairs, hreleased⟩ :=
        hashtableSet_noPair hv key value (RoomFor.hasRoom hv hroom)
      refine ⟨(w.1.store (t', -1), w.2), ?_, n', runs', hv', ha.give hsetup hpairs hperm hreleased⟩
      rw [ledgerStep, tableStep, hset]
      simp [TableWorld.store, takenBy]
  | del key =>
    obtain ⟨t', runs', hdel, hv', hslots, hsetup, hpairs, -, hreleased⟩ :=
      hashtableDoDel_spec hv key
    generalize (if (slotsOf runs).any (sameKey fns key) then (0 : ℤ) else -1) = r at hdel
    refine ⟨(w.1.store (t', r), w.2), ?_, n, runs', hv',
      ha.give hsetup hpairs (List.Perm.of_eq hslots) hreleased⟩
    rw [ledgerStep, tableStep, hashtableDel, hdel]
    simp [takenBy]
  | get key =>
    simp only [ledgerStep, tableStep, hashtableGet, lookupPair_spec hv key, Option.map_some,
      takenBy, List.append_nil, Option.some.injEq, exists_eq_left']
    exact ⟨n, runs, hv, ha⟩
  | getTest key =>
    simp only [ledgerStep, tableStep, hashtableGetTest, lookupPair_spec hv key, Option.map_some,
      takenBy, List.append_nil, Option.some.injEq, exists_eq_left']
    exact ⟨n, runs, hv, ha⟩

/-- A new table took nothing. -/
lemma balanced_start (fns : KeyFns K) {t : Hashtable K V}
    (h : hashtableInit K V freeKey freeValue true = some t) :
    TableBalanced fns freeKey freeValue (TableWorld.start t, []) := by
  obtain ⟨t', runs, hinit, hv, hslots, hkey, hvalue, hpairs, hreleased⟩ :=
    hashtableInit_spec (V := V) fns freeKey freeValue
  obtain rfl := Option.some.inj (h.symm.trans hinit)
  refine ⟨5, runs, hv, ⟨hkey, hvalue⟩, hpairs, ?_⟩
  rw [hslots, TableWorld.start, hreleased]
  exact List.Perm.refl _

/-- **A run of calls that the table has room for** keeps the account. -/
lemma ledgerRun_balanced {w : TableWorld K V × List (K × Option V)}
    (hb : TableBalanced fns freeKey freeValue w) {calls : List (TableCall K V)}
    (hroom : GuardedRun (tableStep fns) (tableRoom fns) w.1 calls) :
    ∃ w', run? (ledgerStep fns) w calls = some w' ∧ TableBalanced fns freeKey freeValue w' := by
  induction calls generalizing w with
  | nil => exact ⟨w, rfl, hb⟩
  | cons c calls ih =>
    obtain ⟨w₁, hstep, hb₁⟩ := ledgerStep_balanced hb hroom.1
    obtain ⟨v, hv, rfl⟩ := Option.map_eq_some_iff.mp hstep
    obtain ⟨w', hrun, hb'⟩ := ih hb₁ (hroom.2 v hv)
    exact ⟨w', by rw [run?_cons, hstep, Option.bind_some, hrun], hb'⟩

/-- **Everything is given back**: a run of calls that the table has room for, and then closing it,
gives back every key, every value and every pair that a successful set took over, each exactly once;
no pair is left in memory.

**Proof sketch.** The account is kept by the run (`ledgerRun_balanced`). Closing gives back what
is still owed, so that all releases are made. -/
theorem hashtable_gives_all_back (fns : KeyFns K) {t : Hashtable K V}
    (h : hashtableInit K V freeKey freeValue true = some t) {calls : List (TableCall K V)}
    (hroom : GuardedRun (tableStep fns) (tableRoom fns) (TableWorld.start t) calls) :
    ∃ w taken t', run? (ledgerStep fns) (TableWorld.start t, []) calls = some (w, taken) ∧
      hashtableClose w.table = some t' ∧
      t'.released.Perm (releasesFor freeKey freeValue 0 taken) ∧
      ∀ a, t'.cells (.pair a) = none := by
  obtain ⟨⟨w, taken⟩, hrun, n, runs, hv, ha⟩ :=
    ledgerRun_balanced (balanced_start fns h) hroom
  obtain ⟨t', hclose, hreleased, hcells⟩ :=
    hashtableClose_spec hv.arranged.ring hv.arranged.nodup hv.length_lt_fuel hv.owned
  exact ⟨w, taken, t', hrun, hclose, hreleased ▸ ha.balance, hcells⟩

end Runs

/-- A run that stores five letters gives all back. -/
theorem hashtable_gives_all_back_letters :
    ∃ w taken t', run? (ledgerStep stringKeys) (TableWorld.start newLetterTable, []) letterCalls =
        some (w, taken) ∧
      hashtableClose w.table = some t' ∧ t'.released.Perm (releasesFor true true 0 taken) ∧
      ∀ a, t'.cells (.pair a) = none :=
  hashtable_gives_all_back stringKeys rfl letterCalls_room

/-! ## A table that could not grow -/

/-- Without its array of buckets a table faults in every call that looks for a key.

**Proof sketch.** Each of the functions reads the bucket of the key, and no bucket can be read. -/
lemma lookup_fault (fns : KeyFns K) {t : Hashtable K V} (h : ∀ i, t.buckets i = none) (key : K) :
    lookupPair fns t key = none ∧ hashtableDel fns t key = none ∧
      ∀ value array block, hashtableSet fns t key value array block = none := by
  have hdel : hashtableDoDel fns t key (fns.hashKey key) = none := by
    unfold hashtableDoDel
    cases numBuckets t with
    | none => rfl
    | some n => simp [h]
  refine ⟨?_, hdel, fun value array block => ?_⟩
  · unfold lookupPair
    cases numBuckets t with
    | none => rfl
    | some n => simp [h]
  · unfold hashtableSet
    simp [hdel]

/-- **A table that could not grow is lost**: when a set needs a larger array of buckets and there is
no memory for it, the old array is gone already. The set returns `-1` with its key deleted, each
later get, set and delete follows the `NULL` array; the iterators still work, and closing still
gives back everything that was taken, once.

**Proof sketch.** The deletion in front finds no key and the table is full, so
`ta_hashtable_set` frees the buckets and asks for larger ones. Refused, it returns with no
buckets: `lookup_fault` is the first part. The list of the pairs is still there, and closing
walks this list. -/
theorem hashtable_lost_after_failed_rehash (fns : KeyFns K) {freeKey freeValue : Bool}
    {t : Hashtable K V} (h : hashtableInit K V freeKey freeValue true = some t)
    {calls : List (TableCall K V)}
    (hroom : GuardedRun (tableStep fns) (tableRoom fns) (TableWorld.start t) calls)
    {w : TableWorld K V} {taken : List (K × Option V)}
    (hrun : run? (ledgerStep fns) (TableWorld.start t, []) calls = some (w, taken))
    (key : K) (value : Option V) (block : Bool) {t₁ : Hashtable K V} {r : ℤ} {n : ℕ}
    (hdel : hashtableDel fns w.table key = some (t₁, r)) (hn : numBuckets t₁ = some n)
    (hfull : n ≤ t₁.size) (hlast : t₁.numBuckets + 1 < primes.length) :
    ∃ t₂ t₃, hashtableSet fns w.table key value false block = some (t₂, -1) ∧
      (∀ key', hashtableGet fns t₂ key' = none ∧ hashtableDel fns t₂ key' = none ∧
        (∀ v, hashtableGetTest fns t₂ key' v = none) ∧
        ∀ v array b, hashtableSet fns t₂ key' v array b = none) ∧
      (∀ iter, hashtableIterNext t₂ iter = hashtableIterNext t₁ iter) ∧
      hashtableClose t₂ = some t₃ ∧
      t₃.released.Perm (releasesFor freeKey freeValue 0 taken) ∧
      ∀ a, t₃.cells (.pair a) = none := by
  obtain ⟨⟨w', taken'⟩, hrun', n₀, runs, hv, ha⟩ :=
    ledgerRun_balanced (balanced_start fns h) hroom
  obtain ⟨rfl, rfl⟩ := Prod.mk.inj (Option.some.inj (hrun.symm.trans hrun'))
  obtain ⟨t₁', runs₁, hdel', hv₁, hslots, hsetup, hpairs, -, hreleased⟩ :=
    hashtableDoDel_spec hv key
  rw [hashtableDel, hdel'] at hdel
  obtain ⟨rfl, rfl⟩ := Prod.mk.inj (Option.some.inj hdel)
  have ha₁ := ha.give hsetup hpairs (List.Perm.of_eq hslots) hreleased
  let t₂ : Hashtable K V := { t₁' with
    buckets := fun _ => none
    numBuckets := t₁'.numBuckets + 1 }
  have hrehash : hashtableDoRehash t₁' false = some (t₂, -1) := by
    unfold hashtableDoRehash
    simp only [numBuckets, List.getElem?_eq_getElem hlast, Option.bind_eq_bind, Option.bind_some,
      if_true]
    rfl
  have hset : hashtableSet fns w.table key value false block = some (t₂, -1) := by
    unfold hashtableSet makeRoom
    simp only [hdel', Option.bind_eq_bind, Option.bind_some, hn, ge_iff_le, if_pos hfull, hrehash]
    rfl
  obtain ⟨t₃, hclose, hreleased₃, hcells₃⟩ :=
    hashtableClose_spec (t := t₂) hv₁.arranged.ring hv₁.arranged.nodup hv₁.length_lt_fuel hv₁.owned
  refine ⟨t₂, t₃, hset, fun key' => ?_, fun _ => rfl, hclose, ?_, hcells₃⟩
  · obtain ⟨hlookup, hdelete, hset'⟩ := lookup_fault fns (t := t₂) (fun _ => rfl) key'
    refine ⟨?_, hdelete, fun v => ?_, hset'⟩
    · rw [hashtableGet, hlookup, Option.map_none]
    · rw [hashtableGetTest, hlookup, Option.map_none]
  · rw [hreleased₃]
    exact ha₁.balance

/-- The run of the example exists. -/
lemma letterLedger_isSome : (run? (ledgerStep stringKeys) (TableWorld.start newLetterTable, [])
    letterCalls).isSome = true := by decide +kernel

/-- So does the deletion in front of the set. -/
lemma letterDel_isSome : (hashtableDel stringKeys ((run? (ledgerStep stringKeys)
    (TableWorld.start newLetterTable, []) letterCalls).get letterLedger_isSome).1.table
    ['f']).isSome = true := by decide +kernel

/-- Five letters fill the first array of buckets, and there is no memory for the next.

**Proof sketch.** `hashtable_lost_after_failed_rehash` at the table that the run leaves. -/
theorem hashtable_lost_after_failed_rehash_letters :
    ∃ (w : TableWorld Str ℕ) (taken : List (Str × Option ℕ)) (t₂ t₃ : Hashtable Str ℕ),
      run? (ledgerStep stringKeys) (TableWorld.start newLetterTable, []) letterCalls =
        some (w, taken) ∧
      hashtableSet stringKeys w.table ['f'] none false true = some (t₂, -1) ∧
      (∀ key', hashtableGet stringKeys t₂ key' = none ∧ hashtableDel stringKeys t₂ key' = none ∧
        (∀ v, hashtableGetTest stringKeys t₂ key' v = none) ∧
        ∀ v array b, hashtableSet stringKeys t₂ key' v array b = none) ∧
      hashtableClose t₂ = some t₃ ∧ t₃.released.Perm (releasesFor true true 0 taken) := by
  obtain ⟨t₂, t₃, hset, hlost, -, hclose, hreleased, -⟩ :=
    hashtable_lost_after_failed_rehash stringKeys rfl letterCalls_room
      (Option.some_get letterLedger_isSome).symm ['f'] none true
      (Option.some_get letterDel_isSome).symm (n := 5) (by decide +kernel) (by decide +kernel)
      (by decide +kernel)
  exact ⟨_, _, t₂, t₃, (Option.some_get letterLedger_isSome).symm, hset, hlost, hclose, hreleased⟩

end Taningia
