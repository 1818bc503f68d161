import Taningia.Hashtable.Spec
import Taningia.Lib.Machine

set_option relaxedAutoImplicit false
set_option autoImplicit false

/-!
# Hash tables refine finite maps

The purpose of a table is stated on maps: for each key it has a binding or none, with the key that
was stored. Every run of calls computes what the map says, as long as a larger array of buckets can
be had whenever one is asked for. A set that has no memory for its pair deletes the key.

## Main definitions

* `Taningia.TableCall`, `Taningia.tableStep` — one call on a table.
* `Taningia.TableSpec`, `Taningia.tableSpecStep` — one call on a map.
* `Taningia.RoomFor` — there is a bucket for each pair, or a larger array can be had.

## Main results

* `Taningia.tableStep_refines` — one call keeps the refinement.
* `Taningia.hashtable_refines_map` — every run does.
-/

namespace Taningia

open Chain Machine

variable {K V : Type}

/-! ## Calls -/

/-- A call of a table function. -/
inductive TableCall (K V : Type) where
  | set (key : K) (value : Option V) (array block : Bool)
  | del (key : K)
  | get (key : K)
  | getTest (key : K)
deriving DecidableEq, Repr

/-- The table, the `int` returned last, and the value handed out last. -/
structure TableWorld (K V : Type) where
  table : Hashtable K V
  returned : ℤ
  value : Option V

/-- The world after a call that changes the table. -/
def TableWorld.store (w : TableWorld K V) (r : Hashtable K V × ℤ) : TableWorld K V :=
  { w with table := r.1, returned := r.2 }

def tableStep (fns : KeyFns K) (w : TableWorld K V) : TableCall K V → Option (TableWorld K V)
  | .set key value array block => (hashtableSet fns w.table key value array block).map w.store
  | .del key => (hashtableDel fns w.table key).map w.store
  | .get key => (hashtableGet fns w.table key).map fun value => { w with value := value }
  | .getTest key =>
    (hashtableGetTest fns w.table key w.value).map fun r =>
      { w with returned := r.1, value := r.2 }

/-! ## The specification -/

/-- The binding of each key, with the key as it was stored, and the two results. -/
structure TableSpec (K V : Type) where
  find : K → Option (K × Option V)
  returned : ℤ
  value : Option V

/-- The map with a key bound, or unbound. -/
def TableSpec.bindKey (fns : KeyFns K) (s : TableSpec K V) (key : K)
    (b : Option (K × Option V)) : K → Option (K × Option V) :=
  fun q => if fns.cmpKeys key q = true then b else s.find q

/-- What each call is for. -/
def tableSpecStep (fns : KeyFns K) (s : TableSpec K V) : TableCall K V → TableSpec K V
  | .set key value _ true =>
    { s with find := s.bindKey fns key (some (key, value)), returned := 0 }
  | .set key _ _ false => { s with find := s.bindKey fns key none, returned := -1 }
  | .del key =>
    { s with
      find := s.bindKey fns key none
      returned := if (s.find key).isSome then 0 else -1 }
  | .get key => { s with value := (s.find key).bind Prod.snd }
  | .getTest key =>
    match s.find key with
    | none => { s with returned := 0 }
    | some b => { s with returned := 1, value := b.2 }

/-- There is a bucket for each pair and one more when the key is deleted, or a larger array of
buckets can be had. -/
def RoomFor (fns : KeyFns K) (t : Hashtable K V) (key : K) (array : Bool) : Prop :=
  ∀ t' r n, hashtableDel fns t key = some (t', r) → numBuckets t' = some n → n ≤ t'.size →
    array = true ∧ t'.numBuckets + 1 < primes.length

/-- The calls that a table has room for. -/
def tableRoom (fns : KeyFns K) (w : TableWorld K V) : TableCall K V → Prop
  | .set key _ array _ => RoomFor fns w.table key array
  | _ => True

/-! ## The refinement -/

/-- The binding of a key among some pairs. -/
def bindingOf (fns : KeyFns K) (slots : List (TableSlot K V)) (key : K) : Option (K × Option V) :=
  (slots.find? (sameKey fns key)).map fun s => (s.2.key, s.2.value)

/-- A valid table has the bindings of the map. -/
def TableRefines (fns : KeyFns K) (w : TableWorld K V) (s : TableSpec K V) : Prop :=
  (∃ n runs, ValidTable fns w.table n runs ∧ ∀ key, s.find key = bindingOf fns (slotsOf runs) key) ∧
    w.returned = s.returned ∧ w.value = s.value

section Bindings

variable {fns : KeyFns K} {t t' : Hashtable K V} {n n' : ℕ} {runs runs' : BucketRuns K V}

/-- A key has a binding exactly when a pair of the table has an equal key. -/
lemma bindingOf_eq_some_iff (hv : ValidTable fns t n runs) {key : K} {b : K × Option V} :
    bindingOf fns (slotsOf runs) key = some b ↔
      ∃ s ∈ slotsOf runs, fns.cmpKeys s.2.key key = true ∧ (s.2.key, s.2.value) = b := by
  simp only [bindingOf, Option.map_eq_some_iff, hv.find?_eq_some_iff, and_assoc]

/-- **Two tables have the same bindings** when their pairs are equal up to their addresses.

**Proof sketch.** A binding is one of a pair with the key (`bindingOf_eq_some_iff`). -/
lemma bindingOf_congr (hv : ValidTable fns t n runs) (hv' : ValidTable fns t' n' runs') {key : K}
    (h : ∀ k v, fns.cmpKeys k key = true →
      ((∃ s ∈ slotsOf runs, (s.2.key, s.2.value) = (k, v)) ↔
        ∃ s ∈ slotsOf runs', (s.2.key, s.2.value) = (k, v))) :
    bindingOf fns (slotsOf runs) key = bindingOf fns (slotsOf runs') key := by
  ext ⟨k, v⟩
  simp only [bindingOf_eq_some_iff hv, bindingOf_eq_some_iff hv']
  constructor
  · rintro ⟨s, hs, hkey, hb⟩
    obtain ⟨rfl, rfl⟩ := Prod.mk.inj hb
    obtain ⟨s', hs', hb'⟩ := (h _ _ hkey).mp ⟨s, hs, rfl⟩
    exact ⟨s', hs', (Prod.mk.inj hb').1 ▸ hkey, hb'⟩
  · rintro ⟨s, hs, hkey, hb⟩
    obtain ⟨rfl, rfl⟩ := Prod.mk.inj hb
    obtain ⟨s', hs', hb'⟩ := (h _ _ hkey).mpr ⟨s, hs, rfl⟩
    exact ⟨s', hs', (Prod.mk.inj hb').1 ▸ hkey, hb'⟩

/-- The bindings without a key.

**Proof sketch.** A key equal to the one left out has no pair any more; for another key the
pairs are the same. -/
lemma bindingOf_without (hv : ValidTable fns t n runs) (hv' : ValidTable fns t' n' runs') {key : K}
    (hperm : (slotsOf runs').Perm (without fns key (slotsOf runs))) (q : K) :
    bindingOf fns (slotsOf runs') q =
      if fns.cmpKeys key q = true then none else bindingOf fns (slotsOf runs) q := by
  by_cases hq : fns.cmpKeys key q = true
  · rw [if_pos hq]
    by_contra hne
    obtain ⟨b, hb⟩ := Option.ne_none_iff_exists'.mp hne
    obtain ⟨s, hs, hkey, -⟩ := (bindingOf_eq_some_iff hv').mp hb
    have hother := cmpKeys_of_mem_without (hperm.mem_iff.mp hs)
    exact absurd (fns.equal.trans hkey (fns.equal.symm hq)) (by simp [hother])
  · rw [if_neg hq]
    refine bindingOf_congr hv' hv fun k v hk => ?_
    constructor
    · rintro ⟨s, hs, hb⟩
      exact ⟨s, (List.mem_filter.mp (hperm.mem_iff.mp hs)).1, hb⟩
    · rintro ⟨s, hs, hb⟩
      obtain ⟨rfl, rfl⟩ := Prod.mk.inj hb
      refine ⟨s, hperm.mem_iff.mpr (List.mem_filter.mpr ⟨hs, ?_⟩), rfl⟩
      cases hkey : fns.cmpKeys s.2.key key with
      | false => simp [sameKey, hkey]
      | true => exact absurd (fns.equal.trans (fns.equal.symm hkey) hk) hq

/-- The bindings with a new pair for a key.

**Proof sketch.** A key equal to the new one is that of the new pair, and for another key the
pairs are the same. -/
lemma bindingOf_insert (hv : ValidTable fns t n runs) (hv' : ValidTable fns t' n' runs') {key : K}
    {value : Option V} {l₁ l₂ : List (TableSlot K V)} {a : ℕ}
    (hslots : slotsOf runs' = l₁ ++ (a, ⟨key, value, fns.hashKey key⟩) :: l₂)
    (hperm : (l₁ ++ l₂).Perm (without fns key (slotsOf runs))) (q : K) :
    bindingOf fns (slotsOf runs') q =
      if fns.cmpKeys key q = true then some (key, value)
      else bindingOf fns (slotsOf runs) q := by
  by_cases hq : fns.cmpKeys key q = true
  · rw [if_pos hq]
    refine (bindingOf_eq_some_iff hv').mpr ⟨(a, ⟨key, value, fns.hashKey key⟩), ?_, hq, rfl⟩
    simp [hslots]
  · rw [if_neg hq]
    refine bindingOf_congr hv' hv fun k v hk => ?_
    constructor
    · rintro ⟨s, hs, hb⟩
      obtain ⟨rfl, rfl⟩ := Prod.mk.inj hb
      rw [hslots, List.perm_middle.mem_iff] at hs
      rcases List.mem_cons.mp hs with rfl | hs
      · exact absurd hk hq
      · exact ⟨s, (List.mem_filter.mp (hperm.mem_iff.mp hs)).1, rfl⟩
    · rintro ⟨s, hs, hb⟩
      obtain ⟨rfl, rfl⟩ := Prod.mk.inj hb
      have hmem : s ∈ l₁ ++ l₂ := by
        refine hperm.mem_iff.mpr (List.mem_filter.mpr ⟨hs, ?_⟩)
        cases hkey : fns.cmpKeys s.2.key key with
        | false => simp [sameKey, hkey]
        | true => exact absurd (fns.equal.trans (fns.equal.symm hkey) hk) hq
      refine ⟨s, ?_, rfl⟩
      rw [hslots, List.perm_middle.mem_iff]
      exact List.mem_cons_of_mem _ hmem

/-- What a lookup hands out is the binding. -/
lemma lookupPair_bindingOf (hv : ValidTable fns t n runs) (key : K) :
    (lookupPair fns t key).map (Option.map fun p => (p.key, p.value)) =
      some (bindingOf fns (slotsOf runs) key) := by
  rw [lookupPair_spec hv, Option.map_some, Option.map_map]
  rfl

/-- The room that a call asks for, told by the pairs. -/
lemma RoomFor.hasRoom (hv : ValidTable fns t n runs) {key : K} {array : Bool}
    (h : RoomFor fns t key array) : HasRoom fns t n runs key array := by
  intro hle
  obtain ⟨t', runs', hdel, hv', hslots, -, -, hindex, -⟩ := hashtableDoDel_spec hv key
  rw [← hindex]
  refine h t' _ n hdel hv'.count ?_
  rwa [hv'.size, hslots]

end Bindings

/-! ## One call -/

section Calls

variable {fns : KeyFns K} {w : TableWorld K V} {s : TableSpec K V}

/-- Setting keeps the refinement, with and without memory for the pair.

**Proof sketch.** With a block for the pair `hashtableSet_spec` and `bindingOf_insert`; without
one the key is deleted (`hashtableSet_noPair`, `bindingOf_without`). -/
lemma hashtableSet_refines (hr : TableRefines fns w s) (key : K) (value : Option V)
    {array : Bool} (hroom : RoomFor fns w.table key array) (block : Bool) :
    ∃ w', tableStep fns w (.set key value array block) = some w' ∧
      TableRefines fns w' (tableSpecStep fns s (.set key value array block)) := by
  obtain ⟨⟨n, runs, hv, hfind⟩, hreturned, hvalue⟩ := hr
  cases block with
  | true =>
    obtain ⟨t', n', runs', l₁, l₂, hset, hv', hslots, hperm, -⟩ :=
      hashtableSet_spec hv key value (hroom.hasRoom hv)
    refine ⟨w.store (t', 0), by rw [tableStep, hset]; rfl, ⟨n', runs', hv', fun q => ?_⟩, rfl,
      hvalue⟩
    rw [bindingOf_insert hv hv' hslots hperm q, ← hfind]
    rfl
  | false =>
    obtain ⟨t', n', runs', hset, hv', hperm, -⟩ :=
      hashtableSet_noPair hv key value (hroom.hasRoom hv)
    refine ⟨w.store (t', -1), by rw [tableStep, hset]; rfl, ⟨n', runs', hv', fun q => ?_⟩, rfl,
      hvalue⟩
    rw [bindingOf_without hv hv' hperm q, ← hfind]
    rfl

/-- Deleting keeps the refinement, and tells whether the key was there. -/
lemma hashtableDel_refines (hr : TableRefines fns w s) (key : K) :
    ∃ w', tableStep fns w (.del key) = some w' ∧
      TableRefines fns w' (tableSpecStep fns s (.del key)) := by
  obtain ⟨⟨n, runs, hv, hfind⟩, hreturned, hvalue⟩ := hr
  obtain ⟨t', runs', hdel, hv', hslots, -⟩ := hashtableDoDel_spec hv key
  have hany : (slotsOf runs).any (sameKey fns key) = (s.find key).isSome := by
    rw [hfind, bindingOf, Option.isSome_map, Bool.eq_iff_iff, List.find?_isSome, List.any_eq_true]
  refine ⟨w.store (t', if (slotsOf runs).any (sameKey fns key) then 0 else -1),
    by rw [tableStep, hashtableDel, hdel, Option.map_some], ⟨n, runs', hv', fun q => ?_⟩, ?_,
    hvalue⟩
  · rw [bindingOf_without hv hv' (List.Perm.of_eq hslots) q, ← hfind]
    rfl
  · simp only [TableWorld.store, tableSpecStep, hany]

/-- **One call keeps the refinement.**

**Proof sketch.** By cases on the call; a lookup is what the two tables have at the key. -/
lemma tableStep_refines (hr : TableRefines fns w s) (c : TableCall K V)
    (hroom : tableRoom fns w c) :
    ∃ w', tableStep fns w c = some w' ∧ TableRefines fns w' (tableSpecStep fns s c) := by
  cases c with
  | set key value array block => exact hashtableSet_refines hr key value hroom block
  | del key => exact hashtableDel_refines hr key
  | get key =>
    obtain ⟨⟨n, runs, hv, hfind⟩, hreturned, hvalue⟩ := hr
    have hkey := hfind key
    rw [bindingOf] at hkey
    simp only [tableStep, hashtableGet, lookupPair_spec hv key, Option.map_some,
      Option.some.injEq, exists_eq_left']
    refine ⟨⟨n, runs, hv, hfind⟩, hreturned, ?_⟩
    cases hs : (slotsOf runs).find? (sameKey fns key) with
    | none => simp [tableSpecStep, hkey, hs]
    | some x => simp [tableSpecStep, hkey, hs]
  | getTest key =>
    obtain ⟨⟨n, runs, hv, hfind⟩, hreturned, hvalue⟩ := hr
    have hkey := hfind key
    rw [bindingOf] at hkey
    simp only [tableStep, hashtableGetTest, lookupPair_spec hv key, Option.map_some,
      Option.some.injEq, exists_eq_left']
    cases hs : (slotsOf runs).find? (sameKey fns key) with
    | none =>
      rw [hs, Option.map_none] at hkey
      simp only [tableSpecStep, hkey]
      exact ⟨⟨n, runs, hv, hfind⟩, rfl, hvalue⟩
    | some x =>
      rw [hs, Option.map_some] at hkey
      simp only [tableSpecStep, hkey]
      exact ⟨⟨n, runs, hv, hfind⟩, rfl, rfl⟩

end Calls

/-! ## Every run -/

/-- The world with a new table. -/
def TableWorld.start (t : Hashtable K V) : TableWorld K V := ⟨t, 0, none⟩

/-- The map without bindings. -/
def TableSpec.start (K V : Type) : TableSpec K V := ⟨fun _ => none, 0, none⟩

/-- A new table refines the empty map. -/
lemma tableRefines_start (fns : KeyFns K) {freeKey freeValue : Bool} {t : Hashtable K V}
    (h : hashtableInit K V freeKey freeValue true = some t) :
    TableRefines fns (TableWorld.start t) (TableSpec.start K V) := by
  obtain ⟨t', runs, hinit, hv, hslots, -⟩ := hashtableInit_spec (V := V) fns freeKey freeValue
  obtain rfl := Option.some.inj (h.symm.trans hinit)
  refine ⟨⟨5, runs, hv, fun key => ?_⟩, rfl, rfl⟩
  rw [hslots]
  rfl

/-- A run of calls that the table has room for computes what the map says. -/
lemma tableRun_refines {fns : KeyFns K} {w : TableWorld K V} {s : TableSpec K V}
    (hr : TableRefines fns w s) {calls : List (TableCall K V)}
    (hroom : GuardedRun (tableStep fns) (tableRoom fns) w calls) :
    ∃ w', run? (tableStep fns) w calls = some w' ∧
      TableRefines fns w' (run (tableSpecStep fns) s calls) := by
  induction calls generalizing w s with
  | nil => exact ⟨w, rfl, hr⟩
  | cons c calls ih =>
    obtain ⟨hc, hrest⟩ := hroom
    obtain ⟨w₁, hstep, hr₁⟩ := tableStep_refines hr c hc
    obtain ⟨w', hrun, hr'⟩ := ih hr₁ (hrest w₁ hstep)
    exact ⟨w', by rw [run?_cons, hstep, Option.bind_some, hrun], hr'⟩

/-! ## Room -/

/-- The calls for which an array of buckets can be had. -/
def TableCall.HasArray : TableCall K V → Prop
  | .set _ _ array _ => array = true
  | _ => True

/-- A call makes one pair at most.

**Proof sketch.** By cases on the call: a set inserts one pair at most behind the deletion of
its key, and the others insert none. -/
lemma tableStep_size {fns : KeyFns K} {w w' : TableWorld K V} {s : TableSpec K V}
    (hr : TableRefines fns w s) {c : TableCall K V} (hroom : tableRoom fns w c)
    (h : tableStep fns w c = some w') : w'.table.size ≤ w.table.size + 1 := by
  obtain ⟨⟨n, runs, hv, hfind⟩, -⟩ := hr
  have hle : ∀ key, (without fns key (slotsOf runs)).length ≤ w.table.size :=
    fun key => hv.size ▸ List.length_filter_le _ _
  cases c with
  | set key value array block =>
    have hkey := hle key
    cases block with
    | true =>
      obtain ⟨t', n', runs', l₁, l₂, hset, hv', hslots, hperm, -⟩ :=
        hashtableSet_spec hv key value (RoomFor.hasRoom hv hroom)
      rw [tableStep, hset] at h
      obtain rfl := Option.some.inj h
      have hlen := hperm.length_eq
      show t'.size ≤ _
      rw [List.length_append] at hlen
      rw [hv'.size, hslots, List.length_append, List.length_cons]
      omega
    | false =>
      obtain ⟨t', n', runs', hset, hv', hperm, -⟩ :=
        hashtableSet_noPair hv key value (RoomFor.hasRoom hv hroom)
      rw [tableStep, hset] at h
      obtain rfl := Option.some.inj h
      show t'.size ≤ _
      rw [hv'.size, hperm.length_eq]
      omega
  | del key =>
    obtain ⟨t', runs', hdel, hv', hslots, -⟩ := hashtableDoDel_spec hv key
    rw [tableStep, hashtableDel, hdel] at h
    obtain rfl := Option.some.inj h
    have hkey := hle key
    show t'.size ≤ _
    rw [hv'.size, hslots]
    omega
  | get key =>
    obtain ⟨v, -, rfl⟩ := Option.map_eq_some_iff.mp h
    exact Nat.le_succ _
  | getTest key =>
    obtain ⟨v, -, rfl⟩ := Option.map_eq_some_iff.mp h
    exact Nat.le_succ _

/-- **There is room for every run** of at most as many calls as the last prime number, when an array
of buckets can be had each time.

**Proof sketch.** Induction on the calls. The table has at most as many pairs as there were
calls, so it is not full at the last prime number, and each call leaves one call and one pair
(`tableStep_size`). -/
lemma guardedRun_of_hasArray {fns : KeyFns K} {w : TableWorld K V} {s : TableSpec K V}
    (hr : TableRefines fns w s) {calls : List (TableCall K V)}
    (harray : ∀ c ∈ calls, c.HasArray) (hlen : w.table.size + calls.length ≤ 1610612741) :
    GuardedRun (tableStep fns) (tableRoom fns) w calls := by
  induction calls generalizing w s with
  | nil => trivial
  | cons c calls ih =>
    rw [List.length_cons] at hlen
    have hroom : tableRoom fns w c := by
      cases c with
      | set key value array block =>
        have harray' : array = true := harray (.set key value array block) (by simp)
        intro t' r n hdel hn hle
        obtain ⟨⟨n₀, runs, hv, -⟩, -⟩ := hr
        obtain ⟨t₁, runs₁, hdel₁, hv₁, hslots₁, -⟩ := hashtableDoDel_spec hv key
        rw [hashtableDel, hdel₁] at hdel
        obtain ⟨rfl, -⟩ := Prod.mk.inj (Option.some.inj hdel)
        have hsize : t₁.size ≤ w.table.size := by
          rw [hv₁.size, hslots₁, hv.size]
          exact List.length_filter_le _ _
        refine ⟨harray', ?_⟩
        obtain ⟨hlt, hget⟩ := List.getElem?_eq_some_iff.mp hn
        by_contra hlast
        have hindex : t₁.numBuckets = 28 := by
          have : primes.length = 29 := rfl
          omega
        have hn' : n = 1610612741 := by
          rw [numBuckets, hindex] at hn
          exact (Option.some.inj hn).symm
        omega
      | del key => trivial
      | get key => trivial
      | getTest key => trivial
    refine ⟨hroom, fun w₁ hstep => ?_⟩
    obtain ⟨w₂, hstep₂, hr₂⟩ := tableStep_refines hr c hroom
    obtain rfl := Option.some.inj (hstep.symm.trans hstep₂)
    have hsize := tableStep_size hr hroom hstep
    exact ih hr₂ (fun c' hc' => harray c' (List.mem_cons_of_mem _ hc')) (by omega)

/-! ## The refinement over every run -/

/-- **A hash table is a finite map**, over every run of calls from a new table that it has room for:
no call follows a bad pointer, each returns what the map says, and afterwards each key has the
binding of the map. -/
theorem hashtable_refines_map (fns : KeyFns K) {freeKey freeValue : Bool} {t : Hashtable K V}
    (h : hashtableInit K V freeKey freeValue true = some t) {calls : List (TableCall K V)}
    (hroom : GuardedRun (tableStep fns) (tableRoom fns) (TableWorld.start t) calls) :
    ∃ w s, run? (tableStep fns) (TableWorld.start t) calls = some w ∧
      run (tableSpecStep fns) (TableSpec.start K V) calls = s ∧
      w.returned = s.returned ∧ w.value = s.value ∧
      ∀ key, (lookupPair fns w.table key).map (Option.map fun p => (p.key, p.value)) =
        some (s.find key) := by
  obtain ⟨w, hrun, ⟨n, runs, hv, hfind⟩, hreturned, hvalue⟩ :=
    tableRun_refines (tableRefines_start fns h) hroom
  refine ⟨w, _, hrun, rfl, hreturned, hvalue, fun key => ?_⟩
  rw [lookupPair_bindingOf hv, hfind]

/-- A new table with strings as keys. -/
def newLetterTable : Hashtable Str ℕ :=
  { size := 0
    buckets := emptyBuckets 5
    numBuckets := 0
    cells := Function.update (fun _ => none) .table (some ⟨some .table, some .table, none⟩)
    pairs := 0
    freeKey := true
    freeValue := true
    released := [] }

/-- Calls that bind five keys, one of them twice. -/
def letterCalls : List (TableCall Str ℕ) :=
  [.set ['a'] (some 1) true true, .set ['b'] none true true, .set ['c'] (some 3) true true,
    .set ['a'] (some 4) true true, .set ['d'] (some 5) true true, .set ['e'] (some 6) true true,
    .getTest ['b']]

/-- The run of the example has room. -/
lemma letterCalls_room :
    GuardedRun (tableStep stringKeys) (tableRoom stringKeys) (TableWorld.start newLetterTable)
      letterCalls := by
  refine guardedRun_of_hasArray (tableRefines_start stringKeys rfl) ?_ (by decide)
  simp [letterCalls, TableCall.HasArray]

/-- A run in which a letter is set twice and one is set to no value. -/
theorem hashtable_refines_map_letters :
    ∃ w s, run? (tableStep stringKeys) (TableWorld.start newLetterTable) letterCalls = some w ∧
      run (tableSpecStep stringKeys) (TableSpec.start Str ℕ) letterCalls = s ∧
      w.returned = s.returned ∧ w.value = s.value ∧
      ∀ key, (lookupPair stringKeys w.table key).map (Option.map fun p => (p.key, p.value)) =
        some (s.find key) :=
  hashtable_refines_map stringKeys (show hashtableInit Str ℕ true true true = _ from rfl)
    letterCalls_room

end Taningia
