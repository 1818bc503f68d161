import Taningia.CString
import Taningia.Lib.Ring

set_option relaxedAutoImplicit false
set_option autoImplicit false

/-!
# Hash tables: the functions of `src/hashtable.c` and `src/hashtable-utils.c`

All pairs of a table are in one ring that starts at the `list` member of the table. The pairs of a
bucket are next to each other, and the bucket points at the first and the last of them; an empty
bucket points at the `list` member. The functions fail where the code would follow a pointer that is
`NULL` or dangling, read behind the table of primes, or would not terminate. The results of `malloc`
are arguments; a block that it hands out is at a new address.

## Main definitions

* `Taningia.Hashtable` — a table with its pairs in memory, and what it gave back so far.
* `Taningia.KeyFns` — the two functions on keys; `Taningia.stringKeys`, those on strings.
* `Taningia.hashtableSet`, `Taningia.hashtableDel`, `Taningia.hashtableClose` — the operations.
* `Taningia.hashtableGet`, `Taningia.hashtableGetTest`, `Taningia.hashtableIterNext` — the queries.
-/

namespace Taningia

open Chain

/-- `key_hash_fn` and `key_cmp_fn`: equal keys have the same hash. -/
structure KeyFns (K : Type) where
  hashKey : K → UInt32
  cmpKeys : K → K → Bool
  equal : Equivalence fun a b => cmpKeys a b = true
  hash_eq : ∀ a b, cmpKeys a b = true → hashKey a = hashKey b

/-- `struct hashtable_pair` without its links; a value is `NULL` or not. -/
structure Pair (K V : Type) where
  key : K
  value : Option V
  hash : UInt32
deriving DecidableEq, Repr

/-- A `list_t *`: the `list` member of the table, or of the pair at an address. -/
inductive ListPtr where
  | table
  | pair (a : ℕ)
deriving DecidableEq, Repr

/-- `struct hashtable_bucket`. -/
structure Bucket where
  first : ListPtr
  last : ListPtr
deriving DecidableEq, Repr

/-- The links of the table and of its pairs; the table has no data. -/
abbrev Links (K V : Type) := Mem ListPtr (Option (Pair K V))

/-- A call of `free_key`, of `free_value`, or of `free` with a pair. -/
inductive Release (K V : Type) where
  | key (key : K)
  | value (value : Option V)
  | pair (a : ℕ)
deriving DecidableEq, Repr

/-- `hashtable_t` with its pairs in memory, the number of pairs made so far, whether `free_key` and
`free_value` are there, and what was given back, oldest first. `buckets` is defined at the indices
of the array, and nowhere when it is `NULL`. -/
structure Hashtable (K V : Type) where
  size : ℕ
  buckets : ℕ → Option Bucket
  numBuckets : ℕ
  cells : Links K V
  pairs : ℕ
  freeKey : Bool
  freeValue : Bool
  released : List (Release K V)

variable {K V : Type}

/-! ## String keys -/

/-- The `unsigned int` of a `char`, which is signed. -/
def charCode (c : Char) : UInt32 :=
  if c.toNat < 128 then UInt32.ofNat c.toNat else UInt32.ofNat (c.toNat + 4294967040)

/-- `hash_string`. -/
def hashString (s : Str) : UInt32 :=
  s.foldl (fun hash c => ((hash <<< 5) + hash) + charCode c) 5381

/-- `string_equal`. -/
def stringEqual (s s' : Str) : Bool := s = s'

/-- The functions on string keys. -/
def stringKeys : KeyFns Str where
  hashKey := hashString
  cmpKeys := stringEqual
  equal := ⟨by simp [stringEqual], by simp [stringEqual], by simp [stringEqual]⟩
  hash_eq := by
    intro s s' h
    rw [stringEqual, decide_eq_true_eq] at h
    rw [h]

/-! ## Links -/

/-- `list_init`. -/
def listInit (m : Links K V) (list : ListPtr) : Option (Links K V) := do
  let m ← storeNext m (some list) (some list)
  storePrev m (some list) (some list)

/-- `list_insert`. -/
def listLinkIn (m : Links K V) (list node : ListPtr) : Option (Links K V) := do
  let m ← storeNext m (some node) (some list)
  let m ← storePrev m (some node) (← m list).prev
  let m ← storeNext m (← m list).prev (some node)
  storePrev m (some list) (some node)

/-- `list_remove`. -/
def listUnlink (m : Links K V) (list : ListPtr) : Option (Links K V) := do
  let m ← storeNext m (← m list).prev (← m list).next
  storePrev m (← m list).next (← m list).prev

/-! ## Buckets -/

/-- `bucket_is_empty`. -/
def bucketIsEmpty (bucket : Bucket) : Bool :=
  bucket.first = ListPtr.table && bucket.first = bucket.last

/-- `insert_to_bucket`. -/
def insertToBucket (m : Links K V) (bucket : Bucket) (list : ListPtr) :
    Option (Links K V × Bucket) :=
  if bucketIsEmpty bucket then
    (listLinkIn m .table list).map fun m => (m, ⟨list, list⟩)
  else (listLinkIn m bucket.first list).map fun m => (m, { bucket with first := list })

/-- `primes`. -/
def primes : List ℕ :=
  [5, 13, 23, 53, 97, 193, 389, 769, 1543, 3079, 6151, 12289, 24593, 49157, 98317, 196613, 393241,
    786433, 1572869, 3145739, 6291469, 12582917, 25165843, 50331653, 100663319, 201326611,
    402653189, 805306457, 1610612741]

/-- `num_buckets`. -/
def numBuckets (t : Hashtable K V) : Option ℕ := primes[t.numBuckets]?

/-- The array of `n` buckets, all of them empty. -/
def emptyBuckets (n i : ℕ) : Option Bucket :=
  if i < n then some ⟨.table, .table⟩ else none

/-- `hash % n` as an index of the buckets. -/
def bucketIndex (hash : UInt32) (n : ℕ) : ℕ := hash.toNat % n

/-- More steps than a loop along the pairs can take. -/
def Hashtable.fuel (t : Hashtable K V) : ℕ := t.pairs + 1

/-- `list_to_pair`; around the `list` member of the table there is no pair. -/
def listToPair : ListPtr → Option ℕ
  | .table => none
  | .pair a => some a

/-- The loop of `hashtable_find_pair` at `list`. -/
def findPairLoop (fns : KeyFns K) (m : Links K V) (key : K) (hash : UInt32) (last : ListPtr) :
    ℕ → ListPtr → Option (Option ℕ)
  | 0, _ => none
  | fuel + 1, list => do
    let a ← listToPair list
    let c ← m list
    let pair ← c.data
    if pair.hash = hash ∧ fns.cmpKeys pair.key key = true then some (some a)
    else if list = last then some none
    else findPairLoop fns m key hash last fuel (← c.next)

/-- `hashtable_find_pair`: the address of the pair, or `NULL`. -/
def hashtableFindPair (fns : KeyFns K) (t : Hashtable K V) (bucket : Bucket) (key : K)
    (hash : UInt32) : Option (Option ℕ) :=
  if bucketIsEmpty bucket then some none
  else findPairLoop fns t.cells key hash bucket.last t.fuel bucket.first

/-! ## Operations

Each returns the table with the `int` of the function. -/

/-- The calls that give back the key and the value of a pair, and then the pair. -/
def releasesOf (freeKey freeValue : Bool) (a : ℕ) (pair : Pair K V) : List (Release K V) :=
  (if freeKey then [.key pair.key] else []) ++
    (if freeValue then [.value pair.value] else []) ++ [.pair a]

/-- The table after these calls. -/
def releasePair (t : Hashtable K V) (a : ℕ) (pair : Pair K V) : Hashtable K V :=
  { t with
    cells := Function.update t.cells (.pair a) none
    released := t.released ++ releasesOf t.freeKey t.freeValue a pair }

/-- What `hashtable_do_del` makes of the ends of the bucket of a pair. -/
def bucketWithout (m : Links K V) (bucket : Bucket) (list : ListPtr) : Option Bucket := do
  let c ← m list
  if list = bucket.first ∧ list = bucket.last then some ⟨.table, .table⟩
  else if list = bucket.first then some { bucket with first := ← c.next }
  else if list = bucket.last then some { bucket with last := ← c.prev }
  else some bucket

/-- `hashtable_do_del`. -/
def hashtableDoDel (fns : KeyFns K) (t : Hashtable K V) (key : K) (hash : UInt32) :
    Option (Hashtable K V × ℤ) := do
  let index := bucketIndex hash (← numBuckets t)
  let bucket ← t.buckets index
  match ← hashtableFindPair fns t bucket key hash with
  | none => some (t, -1)
  | some a => do
    let bucket ← bucketWithout t.cells bucket (.pair a)
    let cells ← listUnlink t.cells (.pair a)
    let pair ← (← cells (.pair a)).data
    let t := { t with
      buckets := Function.update t.buckets index (some bucket)
      cells := cells }
    some ({ releasePair t a pair with size := t.size - 1 }, 0)

/-- The second loop of `hashtable_do_rehash` at `list`, with the old links from there on. -/
def rehashLoop (newSize : ℕ) : ℕ → Links K V → (ℕ → Option Bucket) → ListPtr →
    Option (Links K V × (ℕ → Option Bucket))
  | 0, _, _, _ => none
  | _ + 1, m, buckets, .table => some (m, buckets)
  | fuel + 1, m, buckets, .pair a => do
    let c ← m (.pair a)
    let next ← c.next
    let pair ← c.data
    let index := bucketIndex pair.hash newSize
    let (m, bucket) ← insertToBucket m (← buckets index) (.pair a)
    rehashLoop newSize fuel m (Function.update buckets index (some bucket)) next

/-- `hashtable_do_rehash`; `array` tells whether the new array of buckets is handed out. The old
one is given back before. -/
def hashtableDoRehash (t : Hashtable K V) (array : Bool) : Option (Hashtable K V × ℤ) := do
  let t := { t with
    buckets := fun _ => none
    numBuckets := t.numBuckets + 1 }
  let newSize ← numBuckets t
  if array = false then some (t, -1)
  else do
    let list ← (← t.cells .table).next
    let m ← listInit t.cells .table
    let (m, buckets) ← rehashLoop newSize t.fuel m (emptyBuckets newSize) list
    some ({ t with
      buckets := buckets
      cells := m }, 0)

/-- `hashtable_init`; `none` is the result `-1`. -/
def hashtableInit (K V : Type) (freeKey freeValue array : Bool) : Option (Hashtable K V) :=
  if array then
    some {
      size := 0
      buckets := emptyBuckets 5
      numBuckets := 0
      cells := Function.update (fun _ => none) .table (some ⟨some .table, some .table, none⟩)
      pairs := 0
      freeKey := freeKey
      freeValue := freeValue
      released := [] }
  else none

/-- `hashtable_create`; `block` tells whether the block for the table is handed out. -/
def hashtableCreate (K V : Type) (freeKey freeValue block array : Bool) :
    Option (Hashtable K V) :=
  if block then hashtableInit K V freeKey freeValue array else none

/-- The end of `hashtable_set`, with a new pair. -/
def insertPair (t : Hashtable K V) (pair : Pair K V) : Option (Hashtable K V × ℤ) := do
  let list := ListPtr.pair t.pairs
  let t := { t with
    cells := Function.update t.cells list (some ⟨some list, some list, some pair⟩)
    pairs := t.pairs + 1 }
  let index := bucketIndex pair.hash (← numBuckets t)
  let (cells, bucket) ← insertToBucket t.cells (← t.buckets index) list
  some ({ t with
    size := t.size + 1
    buckets := Function.update t.buckets index (some bucket)
    cells := cells }, 0)

/-- The part of `hashtable_set` that rehashes if the load ratio exceeds 1. -/
def makeRoom (t : Hashtable K V) (array : Bool) : Option (Hashtable K V × ℤ) := do
  if t.size ≥ (← numBuckets t) then hashtableDoRehash t array else some (t, 0)

/-- `hashtable_set`; `array` and `block` tell whether an array of buckets and a pair are handed
out. -/
def hashtableSet (fns : KeyFns K) (t : Hashtable K V) (key : K) (value : Option V)
    (array block : Bool) : Option (Hashtable K V × ℤ) := do
  let hash := fns.hashKey key
  -- if the key already exists, it is deleted; the result is not looked at
  let (t, _) ← hashtableDoDel fns t key hash
  let (t, failed) ← makeRoom t array
  if failed ≠ 0 then some (t, -1)
  else if block = false then some (t, -1)
  else insertPair t ⟨key, value, hash⟩

/-- `hashtable_del`. -/
def hashtableDel (fns : KeyFns K) (t : Hashtable K V) (key : K) : Option (Hashtable K V × ℤ) :=
  hashtableDoDel fns t key (fns.hashKey key)

/-- The loop of `hashtable_close` at `list`. -/
def closeLoop : ℕ → Hashtable K V → ListPtr → Option (Hashtable K V)
  | 0, _, _ => none
  | _ + 1, t, .table => some t
  | fuel + 1, t, .pair a => do
    let c ← t.cells (.pair a)
    let next ← c.next
    let pair ← c.data
    closeLoop fuel (releasePair t a pair) next

/-- `hashtable_close`; the array of buckets is given back. -/
def hashtableClose (t : Hashtable K V) : Option (Hashtable K V) := do
  let t ← closeLoop t.fuel t (← (← t.cells .table).next)
  some { t with buckets := fun _ => none }

/-! ## Queries -/

/-- The pair that `hashtable_get_test` and `hashtable_get` find. -/
def lookupPair (fns : KeyFns K) (t : Hashtable K V) (key : K) : Option (Option (Pair K V)) := do
  let hash := fns.hashKey key
  let bucket ← t.buckets (bucketIndex hash (← numBuckets t))
  match ← hashtableFindPair fns t bucket key hash with
  | none => some none
  | some a => (← t.cells (.pair a)).data.map some

/-- `hashtable_get_test`; `value` is in the output parameter before the call. -/
def hashtableGetTest (fns : KeyFns K) (t : Hashtable K V) (key : K) (value : Option V) :
    Option (ℤ × Option V) :=
  (lookupPair fns t key).map fun
    | none => (0, value)
    | some pair => (1, pair.value)

/-- `hashtable_get`. -/
def hashtableGet (fns : KeyFns K) (t : Hashtable K V) (key : K) : Option (Option V) :=
  (lookupPair fns t key).map fun
    | none => none
    | some pair => pair.value

/-- `hashtable_iter_next`. -/
def hashtableIterNext (t : Hashtable K V) (iter : ListPtr) : Option (Option ListPtr) :=
  (t.cells iter).map fun c => if c.next = some ListPtr.table then none else c.next

/-- `hashtable_iter`. -/
def hashtableIter (t : Hashtable K V) : Option (Option ListPtr) := hashtableIterNext t .table

/-- `hashtable_iter_key`. -/
def hashtableIterKey (t : Hashtable K V) (iter : ListPtr) : Option K := do
  let a ← listToPair iter
  let pair ← (← t.cells (.pair a)).data
  some pair.key

/-- `hashtable_iter_value`. -/
def hashtableIterValue (t : Hashtable K V) (iter : ListPtr) : Option (Option V) := do
  let a ← listToPair iter
  let pair ← (← t.cells (.pair a)).data
  some pair.value

end Taningia
