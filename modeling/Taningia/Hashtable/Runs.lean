import Mathlib.Data.List.Perm.Basic
import Mathlib.Data.List.Range
import Taningia.Hashtable.Basic

set_option relaxedAutoImplicit false
set_option autoImplicit false

/-!
# The runs of a hash table

The pairs of a table are described by its *runs*: the pairs of each bucket, in the order in which
the ring has them. An empty run is anywhere between the others. Putting a pair into a bucket and
taking one out replaces one run.

## Main definitions

* `Taningia.BucketRuns`, `Taningia.slotsOf` — the pairs bucket by bucket, and all of them.
* `Taningia.Arranged` — the ring and the buckets of a table represent runs.

## Main results

* `Taningia.listLinkIn_spec`, `Taningia.listUnlink_spec` — the two changes of the ring.
* `Taningia.Arranged.replace` — the run of one bucket is replaced.
* `Taningia.insertToBucket_spec`, `Taningia.bucketWithout_spec` — the two changes of a run.
* `Taningia.findPairLoop_spec`, `Taningia.find?_run` — a pair is found by its key.
-/

namespace Taningia

open Chain

variable {K V : Type}

/-! ## Rings of pairs -/

/-- A pair with its address. -/
abbrev TableSlot (K V : Type) := ℕ × Pair K V

/-- The `list` member of a pair. -/
def slotCell (s : TableSlot K V) : ListPtr × Option (Pair K V) := (.pair s.1, some s.2)

/-- The ring of a table with the given pairs. -/
def ringOf (slots : List (TableSlot K V)) : List (ListPtr × Option (Pair K V)) :=
  (.table, none) :: slots.map slotCell

/-- The addresses of the cells of pairs. -/
@[simp] lemma addrs_map_slotCell (slots : List (TableSlot K V)) :
    addrs (slots.map slotCell) = slots.map fun s => ListPtr.pair s.1 := by
  simp only [addrs, List.map_map]
  rfl

/-- The ring has no address twice when the pairs have none. -/
lemma nodup_ringOf {slots : List (TableSlot K V)} :
    (addrs (ringOf slots)).Nodup ↔ (slots.map Prod.fst).Nodup := by
  have hmap : (slots.map fun s => ListPtr.pair s.1) = (slots.map Prod.fst).map ListPtr.pair := by
    rw [List.map_map]
    rfl
  rw [ringOf, addrs_cons, addrs_map_slotCell, List.nodup_cons, hmap,
    List.nodup_map_iff fun a b h => ListPtr.pair.inj h]
  simp

/-- A pair is on the ring when it is one of those on it. -/
lemma pair_mem_addrs_ringOf {slots : List (TableSlot K V)} {a : ℕ} :
    ListPtr.pair a ∈ addrs (ringOf slots) ↔ a ∈ slots.map Prod.fst := by
  simp [ringOf]

/-- The head of the table is on every ring. -/
@[simp] lemma table_mem_addrs_ringOf (slots : List (TableSlot K V)) :
    ListPtr.table ∈ addrs (ringOf slots) := by
  simp [ringOf]

/-- The ring of two lists of pairs, one behind the other. -/
lemma ringOf_append (l₁ l₂ : List (TableSlot K V)) :
    ringOf (l₁ ++ l₂) = ringOf l₁ ++ l₂.map slotCell := by
  simp [ringOf]

/-- The `list_t *` to the first of some pairs, or to the table. -/
def firstOf : List (TableSlot K V) → ListPtr
  | [] => .table
  | s :: _ => .pair s.1

/-- The `list_t *` to the last of some pairs, or to the table. -/
def lastOf (run : List (TableSlot K V)) : ListPtr := firstOf run.reverse

/-- The last pair of a run. -/
@[simp] lemma lastOf_concat (run : List (TableSlot K V)) (s : TableSlot K V) :
    lastOf (run ++ [s]) = .pair s.1 := by
  simp [lastOf, firstOf]

/-- A run is entered at its first pair, or passed to the head of the table. -/
lemma entry_map_slotCell (run : List (TableSlot K V)) :
    entry (some ListPtr.table) (run.map slotCell) = some (firstOf run) := by
  cases run <;> rfl

/-- A run is left at its last pair, or at the head of the table. -/
lemma exit_map_slotCell (run : List (TableSlot K V)) :
    exit (some ListPtr.table) (run.map slotCell) = some (lastOf run) := by
  rw [← entry_reverse, ← List.map_reverse, entry_map_slotCell, lastOf]

/-- The cell of a pair in the ring. -/
lemma Ring.pair_cell {m : Links K V} {l₁ l₂ : List (TableSlot K V)} {s : TableSlot K V}
    (h : Ring m (ringOf (l₁ ++ s :: l₂))) :
    m (.pair s.1) = some ⟨some (lastOf l₁), some (firstOf l₂), some s.2⟩ := by
  rw [ringOf_append] at h
  have hcell := Ring.cell_at (c := slotCell s) h
  rw [ringOf, List.cons_append, entry_cons, entry_map_slotCell, exit_cons,
    exit_map_slotCell] at hcell
  exact hcell

/-- The links of the table itself. -/
lemma Ring.table_cell {m : Links K V} {slots : List (TableSlot K V)} (h : Ring m (ringOf slots)) :
    m .table = some ⟨some (lastOf slots), some (firstOf slots), none⟩ := by
  have hcell := Ring.head_cell h
  rw [exit_map_slotCell, entry_map_slotCell] at hcell
  exact hcell

/-! ## Linking in and unlinking -/

/-- **Linking in**: the new cell is between the one it goes before and its predecessor.

**Proof sketch.** The ring is turned so that the cell to insert before comes first; what was in
front of it is then the end of a segment, and linking the new cell between the two ends closes
the ring again. Links are set at the two neighbours and the new cell only. -/
lemma listLinkIn_spec {m : Links K V} {l₁ l₂ : List (ListPtr × Option (Pair K V))}
    {x c : ListPtr × Option (Pair K V)} (h : Ring m (l₁ ++ x :: l₂))
    (hnodup : (addrs (l₁ ++ x :: l₂)).Nodup) (hc : c.1 ∉ addrs (l₁ ++ x :: l₂))
    {q r : Option ListPtr} (hcell : m c.1 = some ⟨q, r, c.2⟩) :
    ∃ m', listLinkIn m x.1 c.1 = some m' ∧ Ring m' (l₁ ++ c :: x :: l₂) ∧
      ∀ a ∉ addrs (l₁ ++ x :: l₂), a ≠ c.1 → m' a = m a := by
  have hmem : ∀ a, a ∈ addrs (l₁ ++ x :: l₂) ↔ a ∈ addrs ((x :: l₂) ++ l₁) := by
    intro a
    simp only [addrs_append, List.mem_append]
    exact or_comm
  have hrot : Ring m ((x :: l₂) ++ l₁) := ring_append_comm.mp h
  have hnodup' : (addrs ((x :: l₂) ++ l₁)).Nodup := by
    rw [addrs_append] at hnodup ⊢
    exact List.nodup_append_comm.mp hnodup
  rw [hmem] at hc
  obtain ⟨l, e, hl⟩ := (List.eq_nil_or_concat' ((x :: l₂) ++ l₁)).resolve_left (by simp)
  have hentry : entry none (l ++ [e]) = some x.1 := by rw [← hl]; rfl
  rw [hl] at hrot hnodup' hc
  refine ⟨splice m e.1 c.1 x.1, ?_, ?_, ?_⟩
  · obtain ⟨n, d, hx⟩ := hrot.first_cell hentry
    have hce : c.1 ≠ x.1 := fun he => hc (he ▸ mem_of_entry_eq_some hentry)
    have hxc : x.1 ≠ c.1 := hce.symm
    have he : (m e.1).isSome = true := hrot.isSome (by simp)
    have hx₂ : setPrev (setNext m c.1 (some x.1)) c.1 (some e.1) x.1 = m x.1 := by
      rw [setPrev_of_ne _ _ hxc, setNext_of_ne _ _ hxc]
    have hc' : (m c.1).isSome = true := by rw [hcell, Option.isSome_some]
    have hx' : (m x.1).isSome = true := by rw [hx, Option.isSome_some]
    unfold listLinkIn
    simp only [storeNext_eq hc', Option.bind_eq_bind, Option.bind_some, setNext_of_ne _ _ hxc, hx]
    rw [storePrev_eq (by simpa using hc'), Option.bind_some, hx₂, hx, Option.bind_some,
      storeNext_eq (by simpa using he), Option.bind_some, storePrev_eq (by simpa using hx')]
    rfl
  · have hnew := hrot.insert hnodup' hentry hc hcell
    rw [← hl, List.append_assoc] at hnew
    simpa using ring_append_comm.mp hnew
  · intro a ha hac
    rw [hmem, hl] at ha
    refine splice_of_ne m ?_ hac ?_
    · exact fun he => ha (he ▸ by simp)
    · exact fun he => ha (he ▸ mem_of_entry_eq_some hentry)

/-- **Unlinking**: the neighbours of the cell are linked to each other, and it keeps its links.

**Proof sketch.** The ring is turned so that the cell comes first. The rest is a segment whose
two ends are its neighbours; linking these to each other closes it. It is not empty, as the head
is in it. -/
lemma listUnlink_spec {m : Links K V} {l₁ l₂ : List (ListPtr × Option (Pair K V))}
    {c : ListPtr × Option (Pair K V)} (h : Ring m (l₁ ++ c :: l₂))
    (hnodup : (addrs (l₁ ++ c :: l₂)).Nodup) (hne : l₁ ≠ []) :
    ∃ m', listUnlink m c.1 = some m' ∧ Ring m' (l₁ ++ l₂) ∧
      ∀ a ∉ addrs (l₁ ++ l₂), m' a = m a := by
  have hmem : ∀ a, a ∈ addrs (l₁ ++ l₂) ↔ a ∈ addrs (l₂ ++ l₁) := by
    intro a
    simp only [addrs_append, List.mem_append]
    exact or_comm
  have hrot : Ring m (c :: (l₂ ++ l₁)) := ring_append_comm.mp h
  have hnodup' : (addrs (c :: (l₂ ++ l₁))).Nodup := by
    rw [addrs_append] at hnodup
    simpa using List.nodup_append_comm.mp hnodup
  obtain ⟨l, e, hl⟩ := (List.eq_nil_or_concat' (l₂ ++ l₁)).resolve_left (by simp [hne])
  rw [hl] at hrot hnodup'
  obtain ⟨x, hx⟩ : ∃ x, entry none (l ++ [e]) = some x := by cases l <;> exact ⟨_, rfl⟩
  obtain ⟨hc, hnodup'⟩ := List.nodup_cons.mp hnodup'
  have hcell : m c.1 = some ⟨some e.1, some x, c.2⟩ := by
    have hcell := Ring.head_cell hrot
    rw [exit_concat, entry_eq_of_ne_nil (by simp) _ none, hx] at hcell
    exact hcell
  have hce : c.1 ≠ e.1 := fun he => hc (he ▸ by simp)
  have he : (m e.1).isSome = true := hrot.isSome (by simp)
  have hx' : (m x).isSome = true :=
    hrot.isSome (List.mem_cons_of_mem c.1 (mem_of_entry_eq_some hx))
  refine ⟨bridge m e.1 x, ?_, ?_, ?_⟩
  · unfold listUnlink
    simp only [hcell, Option.bind_eq_bind, Option.bind_some]
    rw [storeNext_eq he, Option.bind_some]
    simp only [setNext_of_ne _ _ hce, hcell, Option.bind_some]
    rw [storePrev_eq (by simpa using hx')]
    rfl
  · have hnew := hrot.remove hnodup' hx
    rw [← hl] at hnew
    exact ring_append_comm.mp hnew
  · intro a ha
    rw [hmem, hl] at ha
    refine bridge_of_ne m ?_ ?_
    · exact fun he => ha (he ▸ by simp)
    · exact fun he => ha (he ▸ mem_of_entry_eq_some hx)

/-! ## Runs -/

/-- The pairs of each bucket, with its index, in the order of the ring. -/
abbrev BucketRuns (K V : Type) := List (ℕ × List (TableSlot K V))

/-- All pairs, in the order of the ring. -/
def slotsOf (runs : BucketRuns K V) : List (TableSlot K V) := runs.flatMap Prod.snd

/-- The pairs of two lists of buckets. -/
@[simp] lemma slotsOf_append (A B : BucketRuns K V) : slotsOf (A ++ B) = slotsOf A ++ slotsOf B :=
  List.flatMap_append

/-- The pairs of a list of buckets, the first bucket apart. -/
@[simp] lemma slotsOf_cons (r : ℕ × List (TableSlot K V)) (B : BucketRuns K V) :
    slotsOf (r :: B) = r.2 ++ slotsOf B := List.flatMap_cons

/-- No buckets have no pairs. -/
@[simp] lemma slotsOf_nil : slotsOf ([] : BucketRuns K V) = [] := rfl

/-- A pair is in a bucket. -/
lemma mem_slotsOf {runs : BucketRuns K V} {s : TableSlot K V} :
    s ∈ slotsOf runs ↔ ∃ r ∈ runs, s ∈ r.2 :=
  List.mem_flatMap

/-- The two ends of a run, as its bucket has them. -/
def endsOf (run : List (TableSlot K V)) : Bucket := ⟨firstOf run, lastOf run⟩

/-- The ring and the `n` buckets of a table represent the runs. -/
structure Arranged (m : Links K V) (buckets : ℕ → Option Bucket) (n : ℕ) (runs : BucketRuns K V) :
    Prop where
  ring : Ring m (ringOf (slotsOf runs))
  nodup : ((slotsOf runs).map Prod.fst).Nodup
  indices : (runs.map Prod.fst).Perm (List.range n)
  bucket : ∀ r ∈ runs, buckets r.1 = some (endsOf r.2)
  index : ∀ r ∈ runs, ∀ s ∈ r.2, bucketIndex s.2.hash n = r.1

section Arranged

variable {m m' : Links K V} {buckets : ℕ → Option Bucket} {n i : ℕ} {runs A B : BucketRuns K V}
  {run : List (TableSlot K V)}

/-- The run of each bucket. -/
lemma Arranged.exists_run (h : Arranged m buckets n runs) (hi : i < n) :
    ∃ A run B, runs = A ++ (i, run) :: B := by
  have hmem : i ∈ runs.map Prod.fst := h.indices.mem_iff.mpr (List.mem_range.mpr hi)
  obtain ⟨⟨j, run⟩, hr, rfl⟩ := List.mem_map.mp hmem
  obtain ⟨A, B, rfl⟩ := List.append_of_mem hr
  exact ⟨A, run, B, rfl⟩

/-- A bucket points at the ends of its run. -/
lemma Arranged.bucket_run (h : Arranged m buckets n (A ++ (i, run) :: B)) :
    buckets i = some (endsOf run) := h.bucket (i, run) (by simp)

/-- The pairs of a run belong into its bucket. -/
lemma Arranged.index_run (h : Arranged m buckets n (A ++ (i, run) :: B)) {s : TableSlot K V}
    (hs : s ∈ run) : bucketIndex s.2.hash n = i := h.index (i, run) (by simp) s hs

/-- A bucket has one run. -/
lemma Arranged.ne_of_mem (h : Arranged m buckets n (A ++ (i, run) :: B))
    {r : ℕ × List (TableSlot K V)} (hr : r ∈ A ++ B) : r.1 ≠ i := by
  have hnodup : ((A ++ (i, run) :: B).map Prod.fst).Nodup :=
    h.indices.nodup_iff.mpr List.nodup_range
  have hperm : ((A ++ (i, run) :: B).map Prod.fst).Perm (i :: (A ++ B).map Prod.fst) :=
    List.perm_middle.map Prod.fst
  have hout := (List.nodup_cons.mp (hperm.nodup_iff.mp hnodup)).1
  exact fun he => hout (he ▸ List.mem_map_of_mem hr)

/-- The pairs with the index of a bucket are in its run. -/
lemma Arranged.mem_run (h : Arranged m buckets n (A ++ (i, run) :: B)) {s : TableSlot K V}
    (hs : s ∈ slotsOf (A ++ (i, run) :: B)) (hindex : bucketIndex s.2.hash n = i) : s ∈ run := by
  obtain ⟨r, hr, hsr⟩ := mem_slotsOf.mp hs
  have hri : r.1 = i := (h.index r hr s hsr).symm.trans hindex
  rcases List.mem_append.mp hr with hA | hB
  · exact absurd hri (h.ne_of_mem (List.mem_append_left B hA))
  · rcases List.mem_cons.mp hB with rfl | hB
    · exact hsr
    · exact absurd hri (h.ne_of_mem (List.mem_append_right A hB))

/-- **The run of one bucket is replaced**, and may be moved in the ring.

**Proof sketch.** The numbers of the buckets are the old ones up to order, so the bucket
replaced is the only one of its number; the others are found where they were, and hold what they
held. -/
lemma Arranged.replace (h : Arranged m buckets n (A ++ (i, run) :: B)) {runs' : BucketRuns K V}
    {run' : List (TableSlot K V)} (hperm : runs'.Perm ((i, run') :: (A ++ B)))
    (hring : Ring m' (ringOf (slotsOf runs'))) (hnodup : ((slotsOf runs').map Prod.fst).Nodup)
    (hindex : ∀ s ∈ run', bucketIndex s.2.hash n = i) :
    Arranged m' (Function.update buckets i (some (endsOf run'))) n runs' := by
  refine ⟨hring, hnodup, ?_, ?_, ?_⟩
  · refine List.Perm.trans ?_ h.indices
    have hmiddle : ((A ++ (i, run) :: B).map Prod.fst).Perm (i :: (A ++ B).map Prod.fst) :=
      List.perm_middle.map Prod.fst
    exact (hperm.map Prod.fst).trans hmiddle.symm
  · intro r hr
    rcases List.mem_cons.mp (hperm.mem_iff.mp hr) with rfl | hr
    · exact Function.update_self _ _ _
    · rw [Function.update_of_ne (h.ne_of_mem hr)]
      refine h.bucket r ?_
      rcases List.mem_append.mp hr with hA | hB
      · exact List.mem_append_left _ hA
      · exact List.mem_append_right A (List.mem_cons_of_mem _ hB)
  · intro r hr
    rcases List.mem_cons.mp (hperm.mem_iff.mp hr) with rfl | hr
    · exact hindex
    · refine h.index r ?_
      rcases List.mem_append.mp hr with hA | hB
      · exact List.mem_append_left _ hA
      · exact List.mem_append_right A (List.mem_cons_of_mem _ hB)

/-- An empty bucket is told from another one. -/
@[simp] lemma bucketIsEmpty_endsOf (run : List (TableSlot K V)) :
    bucketIsEmpty (endsOf run) = run.isEmpty := by
  cases run with
  | nil => rfl
  | cons s run => simp [bucketIsEmpty, endsOf, firstOf]

/-- A pair comes into an empty bucket in front of the head of the table. -/
lemma insertToBucket_nil (m : Links K V) (list : ListPtr) :
    insertToBucket m (endsOf ([] : List (TableSlot K V))) list =
      (listLinkIn m .table list).map fun m => (m, ⟨list, list⟩) := rfl

/-- A pair comes into a bucket in front of its first pair. -/
lemma insertToBucket_cons (m : Links K V) (x : TableSlot K V) (run : List (TableSlot K V))
    (list : ListPtr) : insertToBucket m (endsOf (x :: run)) list =
      (listLinkIn m (.pair x.1) list).map fun m => (m, ⟨list, lastOf (x :: run)⟩) := by
  rw [insertToBucket, bucketIsEmpty_endsOf]
  rfl

/-- **Inserting into a bucket** adds the pair to its run, and changes the new cell and the ring
only.

**Proof sketch.** An empty bucket puts the pair at the end of the ring, so its run moves behind
all others; another bucket puts it in front of its first pair, inside the run. In both cases
`listLinkIn_spec` gives the ring, and `Arranged.replace` the buckets. -/
lemma insertToBucket_spec (h : Arranged m buckets n runs) {s : TableSlot K V}
    (hi : i < n) (hindex : bucketIndex s.2.hash n = i) (hs : s.1 ∉ (slotsOf runs).map Prod.fst)
    {q r : Option ListPtr} (hcell : m (.pair s.1) = some ⟨q, r, some s.2⟩) :
    ∃ bucket m' bucket' runs' l₁ l₂, buckets i = some bucket ∧
      insertToBucket m bucket (.pair s.1) = some (m', bucket') ∧
      Arranged m' (Function.update buckets i (some bucket')) n runs' ∧
      slotsOf runs = l₁ ++ l₂ ∧ slotsOf runs' = l₁ ++ s :: l₂ ∧
      ∀ a ∉ (slotsOf runs).map Prod.fst, a ≠ s.1 → m' (.pair a) = m (.pair a) := by
  obtain ⟨A, run, B, rfl⟩ := h.exists_run hi
  have hring := h.ring
  have hnodup := nodup_ringOf.mpr h.nodup
  have hfresh : (slotCell s).1 ∉ addrs (ringOf (slotsOf (A ++ (i, run) :: B))) :=
    fun hmem => hs (pair_mem_addrs_ringOf.mp hmem)
  have hbucket := h.bucket_run
  have hkeep : ∀ m' : Links K V,
      (∀ a ∉ addrs (ringOf (slotsOf (A ++ (i, run) :: B))),
        a ≠ (slotCell s).1 → m' a = m a) →
      ∀ a ∉ (slotsOf (A ++ (i, run) :: B)).map Prod.fst, a ≠ s.1 →
        m' (.pair a) = m (.pair a) := by
    intro m' hframe a ha hne
    refine hframe _ (fun hmem => ha (pair_mem_addrs_ringOf.mp hmem)) fun he => hne ?_
    exact ListPtr.pair.inj he
  have hnodup' : ∀ l₁ l₂ : List (TableSlot K V),
      slotsOf (A ++ (i, run) :: B) = l₁ ++ l₂ →
      ((l₁ ++ s :: l₂).map Prod.fst).Nodup := by
    intro l₁ l₂ hl
    have hperm : ((l₁ ++ s :: l₂).map Prod.fst).Perm (s.1 :: (l₁ ++ l₂).map Prod.fst) :=
      List.perm_middle.map Prod.fst
    exact hperm.nodup_iff.mpr (List.nodup_cons.mpr ⟨hl ▸ hs, hl ▸ h.nodup⟩)
  cases run with
  | nil =>
    -- an empty bucket: the pair goes in before the table, at the end of the ring
    have hslots : slotsOf (A ++ (i, []) :: B) = slotsOf (A ++ B) ++ [] := by
      simp
    obtain ⟨m', hlink, hring', hframe⟩ :=
      @listLinkIn_spec K V m [] _ (.table, none) (slotCell s) hring hnodup hfresh q r hcell
    refine ⟨_, m', ⟨.pair s.1, .pair s.1⟩, A ++ B ++ [(i, [s])], slotsOf (A ++ B), [], hbucket,
      ?_, h.replace (List.perm_append_singleton (i, [s]) (A ++ B)) ?_ ?_ ?_, hslots, by simp,
      hkeep m' hframe⟩
    · have hlink' : listLinkIn m .table (.pair s.1) = some m' := hlink
      rw [insertToBucket_nil, hlink', Option.map_some]
    · have hfront : Ring m' ([slotCell s] ++ ringOf (slotsOf (A ++ (i, []) :: B))) := hring'
      have hend := ring_append_comm.mp hfront
      rw [hslots, List.append_nil] at hend
      simpa [ringOf] using hend
    · have := hnodup' _ _ hslots
      simpa using this
    · simpa using hindex
  | cons x run =>
    -- the pair goes in before the first of the bucket
    have hslots : slotsOf (A ++ (i, x :: run) :: B) =
        slotsOf A ++ (x :: run ++ slotsOf B) := by simp
    have hsplit : ringOf (slotsOf (A ++ (i, x :: run) :: B)) =
        ringOf (slotsOf A) ++ slotCell x :: (run ++ slotsOf B).map slotCell := by
      rw [hslots, ringOf_append, List.cons_append, List.map_cons]
    rw [hsplit] at hring hnodup hfresh
    obtain ⟨m', hlink, hring', hframe⟩ := listLinkIn_spec hring hnodup hfresh hcell
    rw [← hsplit] at hframe
    refine ⟨_, m', ⟨.pair s.1, lastOf (x :: run)⟩, A ++ (i, s :: x :: run) :: B, slotsOf A,
      x :: run ++ slotsOf B, hbucket, ?_, ?_, hslots, by simp, hkeep m' hframe⟩
    · have hlink' : listLinkIn m (.pair x.1) (.pair s.1) = some m' := hlink
      rw [insertToBucket_cons, hlink', Option.map_some]
    · have hends : (⟨.pair s.1, lastOf (x :: run)⟩ : Bucket) = endsOf (s :: x :: run) := by
        obtain ⟨l, e, hl⟩ := (List.eq_nil_or_concat' (x :: run)).resolve_left (by simp)
        rw [endsOf, hl, ← List.cons_append, lastOf_concat, lastOf_concat]
        rfl
      rw [hends]
      refine h.replace List.perm_middle ?_ ?_ ?_
      · simpa [ringOf] using hring'
      · have := hnodup' _ _ hslots
        simpa using this
      · intro y hy
        rcases List.mem_cons.mp hy with rfl | hy
        · exact hindex
        · exact h.index_run hy

/-- What the bucket of a pair becomes without it.

**Proof sketch.** The pair is the first of its run, the last, both or neither; in each case the
ends of the run without it are the neighbours that its links name, since it occurs once on the
ring. -/
lemma bucketWithout_spec (h : Arranged m buckets n runs) {r₁ r₂ : List (TableSlot K V)}
    {s : TableSlot K V} (hruns : runs = A ++ (i, r₁ ++ s :: r₂) :: B) :
    bucketWithout m (endsOf (r₁ ++ s :: r₂)) (.pair s.1) = some (endsOf (r₁ ++ r₂)) := by
  have hslots : slotsOf runs = (slotsOf A ++ r₁) ++ s :: (r₂ ++ slotsOf B) := by
    rw [hruns]
    simp
  have hring := h.ring
  have hnodup := h.nodup
  rw [hslots] at hring hnodup
  have hcell := Ring.pair_cell hring
  -- the pair is at one place of its run only
  have hother : ∀ x ∈ r₁ ++ r₂, ListPtr.pair s.1 ≠ .pair x.1 := by
    intro x hx he
    have hperm : (((slotsOf A ++ r₁) ++ s :: (r₂ ++ slotsOf B)).map Prod.fst).Perm
        (s.1 :: ((slotsOf A ++ r₁) ++ (r₂ ++ slotsOf B)).map Prod.fst) :=
      List.perm_middle.map Prod.fst
    refine (List.nodup_cons.mp (hperm.nodup_iff.mp hnodup)).1 ?_
    rw [ListPtr.pair.inj he]
    refine List.mem_map_of_mem ?_
    rcases List.mem_append.mp hx with hx | hx <;> simp [hx]
  unfold bucketWithout
  rw [hcell]
  simp only [Option.bind_eq_bind, Option.bind_some]
  rcases List.eq_nil_or_concat' r₂ with rfl | ⟨r₂, y, rfl⟩
  · rcases List.eq_nil_or_concat' r₁ with rfl | ⟨r₁, x, rfl⟩
    · simp [endsOf, firstOf, lastOf]
    · have hx := hother x (by simp)
      cases r₁ with
      | nil => simp [endsOf, firstOf, lastOf, hx]
      | cons w r₁ =>
        have hw := hother w (by simp)
        simp [endsOf, firstOf, lastOf, hw]
  · have hy := hother y (by simp)
    cases r₁ with
    | nil => cases r₂ <;> simp [endsOf, firstOf, lastOf, hy]
    | cons w r₁ =>
      have hw := hother w (by simp)
      simp [endsOf, firstOf, lastOf, hw, hy]

/-- An address of a list of pairs is not in it without this pair. -/
lemma fst_not_mem_of_nodup {l₁ l₂ : List (TableSlot K V)} {s : TableSlot K V}
    (h : ((l₁ ++ s :: l₂).map Prod.fst).Nodup) : s.1 ∉ (l₁ ++ l₂).map Prod.fst := by
  have hperm : ((l₁ ++ s :: l₂).map Prod.fst).Perm (s.1 :: (l₁ ++ l₂).map Prod.fst) :=
    List.perm_middle.map Prod.fst
  exact (List.nodup_cons.mp (hperm.nodup_iff.mp h)).1

/-- Taking a pair out of a list of pairs leaves a sublist. -/
lemma sublist_middle (l₁ l₂ : List (TableSlot K V)) (s : TableSlot K V) :
    (l₁ ++ l₂).Sublist (l₁ ++ s :: l₂) :=
  List.Sublist.append_left (List.sublist_cons_self s l₂) l₁

/-- The pairs that a table represents depend on the cells of its ring only. -/
lemma Arranged.congr (h : Arranged m buckets n runs) (htable : m' .table = m .table)
    (hm : ∀ a ∈ (slotsOf runs).map Prod.fst, m' (.pair a) = m (.pair a)) :
    Arranged m' buckets n runs := by
  refine ⟨h.ring.congr fun p hp => ?_, h.nodup, h.indices, h.bucket, h.index⟩
  cases p with
  | table => exact htable
  | pair a => exact hm a (pair_mem_addrs_ringOf.mp hp)

/-- **Taking a pair out of its bucket** takes it out of its run, and changes the ring only; the
pair itself may then be freed.

**Proof sketch.** The run of the pair is split at it. `bucketWithout_spec` gives the ends of the
run without it, and `listUnlink_spec` the ring; clearing the cell of the pair touches nothing
that is still on it. -/
lemma removeFromBucket_spec (h : Arranged m buckets n runs) {s : TableSlot K V}
    (hs : s ∈ slotsOf runs) (hi : i < n) (hindex : bucketIndex s.2.hash n = i) :
    ∃ bucket bucket' m' runs' l₁ l₂, buckets i = some bucket ∧
      bucketWithout m bucket (.pair s.1) = some bucket' ∧ listUnlink m (.pair s.1) = some m' ∧
      Arranged (Function.update m' (.pair s.1) none) (Function.update buckets i (some bucket')) n
        runs' ∧
      slotsOf runs = l₁ ++ s :: l₂ ∧ slotsOf runs' = l₁ ++ l₂ ∧
      (m' (.pair s.1)).bind Cell.data = some s.2 ∧
      ∀ a ∉ (l₁ ++ l₂).map Prod.fst, m' (.pair a) = m (.pair a) := by
  obtain ⟨A, run, B, rfl⟩ := h.exists_run hi
  obtain ⟨r₁, r₂, rfl⟩ := List.append_of_mem (h.mem_run hs hindex)
  have hslots : slotsOf (A ++ (i, r₁ ++ s :: r₂) :: B) =
      (slotsOf A ++ r₁) ++ s :: (r₂ ++ slotsOf B) := by simp
  have hslots' : slotsOf (A ++ (i, r₁ ++ r₂) :: B) =
      (slotsOf A ++ r₁) ++ (r₂ ++ slotsOf B) := by simp
  have hring := h.ring
  have hnodup := h.nodup
  rw [hslots] at hring hnodup
  have hout := fst_not_mem_of_nodup hnodup
  have hcell := Ring.pair_cell hring
  have hsplit : ringOf ((slotsOf A ++ r₁) ++ s :: (r₂ ++ slotsOf B)) =
      ringOf (slotsOf A ++ r₁) ++ slotCell s :: (r₂ ++ slotsOf B).map slotCell := by
    rw [ringOf_append, List.map_cons]
  have hnodupRing := nodup_ringOf.mpr hnodup
  rw [hsplit] at hring hnodupRing
  obtain ⟨m', hunlink, hring', hframe⟩ := listUnlink_spec hring hnodupRing (by simp [ringOf])
  rw [← ringOf_append] at hring' hframe
  have hkeep : ∀ a ∉ ((slotsOf A ++ r₁) ++ (r₂ ++ slotsOf B)).map Prod.fst,
      m' (.pair a) = m (.pair a) :=
    fun a ha => hframe _ fun hmem => ha (pair_mem_addrs_ringOf.mp hmem)
  have harranged : Arranged m' (Function.update buckets i (some (endsOf (r₁ ++ r₂)))) n
      (A ++ (i, r₁ ++ r₂) :: B) := by
    refine h.replace List.perm_middle (by rw [hslots']; exact hring') ?_ fun x hx => ?_
    · rw [hslots']
      exact hnodup.sublist ((sublist_middle _ _ s).map Prod.fst)
    · exact h.index_run ((sublist_middle r₁ r₂ s).subset hx)
  refine ⟨_, _, m', A ++ (i, r₁ ++ r₂) :: B, _, _, h.bucket_run, bucketWithout_spec h rfl, hunlink,
    harranged.congr (Function.update_of_ne (by simp) _ _) fun a ha => ?_, hslots, hslots', ?_,
    hkeep⟩
  · refine Function.update_of_ne (fun he => hout ?_) _ _
    rw [← ListPtr.pair.inj he, ← hslots']
    exact ha
  · rw [hkeep _ hout, hcell]
    rfl

/-! ## Finding a pair -/

/-- Whether a pair is the one that is looked for. -/
def matchesKey (fns : KeyFns K) (key : K) (hash : UInt32) (s : TableSlot K V) : Bool :=
  s.2.hash = hash && fns.cmpKeys s.2.key key

/-- **The search along a run** finds the first pair that matches.

**Proof sketch.** Induction on the run. The first pair is found in memory; if it matches the
loop returns it. If it does not and is the last, nothing matches; otherwise its forward link
leads to the next. -/
lemma findPairLoop_spec (fns : KeyFns K) (key : K) (hash : UInt32) {l : List (TableSlot K V)}
    {p : Option ListPtr} (hpath : Path m (l.map slotCell) p) (hnodup : (l.map Prod.fst).Nodup)
    (hne : l ≠ []) {fuel : ℕ} (hfuel : l.length < fuel) :
    findPairLoop fns m key hash (lastOf l) fuel (firstOf l) =
      some ((l.find? (matchesKey fns key hash)).map Prod.fst) := by
  induction l generalizing fuel with
  | nil => exact absurd rfl hne
  | cons s l ih =>
    obtain ⟨fuel, rfl⟩ : ∃ k, fuel = k + 1 := ⟨fuel - 1, by omega⟩
    obtain ⟨⟨q, hcell⟩, hrest⟩ := hpath
    have hcell' : m (.pair s.1) = some ⟨q, entry p (l.map slotCell), some s.2⟩ := hcell
    show findPairLoop fns m key hash (lastOf (s :: l)) (fuel + 1) (.pair s.1) = _
    simp only [findPairLoop, listToPair, hcell', Option.bind_eq_bind, Option.bind_some]
    by_cases hmatch : s.2.hash = hash ∧ fns.cmpKeys s.2.key key = true
    · rw [if_pos hmatch, List.find?_cons_of_pos (by simpa [matchesKey] using hmatch)]
      rfl
    · rw [if_neg hmatch, List.find?_cons_of_neg (by simpa [matchesKey] using hmatch)]
      cases hl : l with
      | nil => simp [lastOf, firstOf]
      | cons x l' =>
        have hlast : ListPtr.pair s.1 ≠ lastOf (s :: x :: l') := by
          obtain ⟨l₀, e, he⟩ := (List.eq_nil_or_concat' (x :: l')).resolve_left (by simp)
          rw [he, ← List.cons_append, lastOf_concat]
          intro heq
          refine (List.nodup_cons.mp hnodup).1 ?_
          rw [hl, he, ListPtr.pair.inj heq]
          simp
        have hsame : lastOf (s :: x :: l') = lastOf (x :: l') := by
          obtain ⟨l₀, e, he⟩ := (List.eq_nil_or_concat' (x :: l')).resolve_left (by simp)
          rw [he, ← List.cons_append, lastOf_concat, lastOf_concat]
        have hlen : l.length < fuel := by
          rw [List.length_cons] at hfuel
          omega
        have hrest' := ih hrest (List.nodup_cons.mp hnodup).2 (by simp [hl]) hlen
        rw [if_neg hlast, hsame]
        rw [hl] at hrest'
        exact hrest'

/-- **A pair is found by its key**: in its bucket, as it would be among all pairs.

**Proof sketch.** A pair that matches has the hash searched for, so it is in the bucket of this
hash; hence no pair of another bucket matches, and the search among all pairs passes over those
buckets. -/
lemma find?_run (fns : KeyFns K) (h : Arranged m buckets n (A ++ (i, run) :: B)) (key : K)
    {hash : UInt32} (hindex : bucketIndex hash n = i) :
    run.find? (matchesKey fns key hash) =
      (slotsOf (A ++ (i, run) :: B)).find? (matchesKey fns key hash) := by
  have hout : ∀ C : BucketRuns K V, (∀ r ∈ C, r ∈ A ++ B) →
      (slotsOf C).find? (matchesKey fns key hash) = none := by
    intro C hC
    rw [List.find?_eq_none]
    intro s hs hmatch
    obtain ⟨r, hr, hsr⟩ := mem_slotsOf.mp hs
    have hr' := hC r hr
    have hhash : s.2.hash = hash := by
      simp only [matchesKey, Bool.and_eq_true, decide_eq_true_eq] at hmatch
      exact hmatch.1
    refine h.ne_of_mem hr' ?_
    rw [← hindex, ← hhash]
    refine (h.index r ?_ s hsr).symm
    rcases List.mem_append.mp hr' with hA | hB
    · exact List.mem_append_left _ hA
    · exact List.mem_append_right A (List.mem_cons_of_mem _ hB)
  rw [slotsOf_append, slotsOf_cons, List.find?_append, List.find?_append,
    hout A fun r hr => List.mem_append_left B hr, hout B fun r hr => List.mem_append_right A hr]
  simp

end Arranged

end Taningia
