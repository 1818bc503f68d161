import Mathlib.Data.Int.Notation
import Mathlib.Data.List.Induction
import Mathlib.Data.List.Nodup
import Mathlib.Logic.Function.Basic
import Mathlib.Logic.Relation

set_option relaxedAutoImplicit false
set_option autoImplicit false

/-!
# Doubly linked chains in a memory

A memory maps addresses to cells with a backward link, a forward link and data. A *segment* is a
list of cells that are linked to each other in order, entered from a cell `p` and left to a cell
`n`. Segments split and join like lists, depend on their own cells only, and are traversed forwards
and backwards by the same loop.

## Main definitions

* `Chain.Seg` — the segment from `p` to `n` through the given addresses and data.
* `Chain.Path` — the same by the forward links only.
* `Chain.setNext`, `Chain.setPrev` — the two link updates.
* `Chain.walk` — a loop that follows a link, and `Chain.scan`, what it computes on a list.
* `Chain.LeadsTo` — the links lead from one cell to another.

## Main results

* `Chain.seg_append` — a segment splits into two adjacent ones.
* `Chain.Seg.setNext_concat`, `Chain.Seg.setPrev_cons` — relinking the ends of a segment.
* `Chain.Seg.link` — joining two segments.
* `Chain.Seg.walk_next`, `Chain.Seg.walk_prev` — what a loop along a segment computes.
* `Chain.Seg.next_iff_prev` — the two links of a segment are inverse to each other.
* `Chain.Seg.mem_of_leadsTo` — the links of a chain do not lead out of it.
-/

namespace Chain

/-- A cell of a doubly linked chain. -/
@[ext]
structure Cell (A D : Type*) where
  prev : Option A
  next : Option A
  data : D
deriving DecidableEq, Repr

/-- A memory of cells. -/
abbrev Mem (A D : Type*) := A → Option (Cell A D)

variable {A D S R : Type*}

/-! ## Segments -/

/-- The address a segment is entered at; `n` when it is empty. -/
def entry (n : Option A) : List (A × D) → Option A
  | [] => n
  | c :: _ => some c.1

/-- The address a segment is left from; `p` when it is empty. -/
def exit (p : Option A) : List (A × D) → Option A
  | [] => p
  | c :: l => exit (some c.1) l

/-- The cells of `l` are linked in order, from the cell `p` to the cell `n`. -/
def Seg (m : Mem A D) : Option A → List (A × D) → Option A → Prop
  | _, [], _ => True
  | p, c :: l, n => m c.1 = some ⟨p, entry n l, c.2⟩ ∧ Seg m (some c.1) l n

/-- The addresses of a segment. -/
def addrs (l : List (A × D)) : List A := l.map Prod.fst

/-- An empty segment is entered behind its end. -/
@[simp] lemma entry_nil (n : Option A) : entry n ([] : List (A × D)) = n := rfl

/-- A segment is entered at its first cell. -/
@[simp] lemma entry_cons (n : Option A) (c : A × D) (l : List (A × D)) :
    entry n (c :: l) = some c.1 := rfl

/-- An empty segment is left before its start. -/
@[simp] lemma exit_nil (p : Option A) : exit p ([] : List (A × D)) = p := rfl

/-- A segment is left where the rest behind its first cell is left. -/
@[simp] lemma exit_cons (p : Option A) (c : A × D) (l : List (A × D)) :
    exit p (c :: l) = exit (some c.1) l := rfl

/-- An empty segment has no addresses. -/
@[simp] lemma addrs_nil : addrs ([] : List (A × D)) = [] := rfl

/-- The addresses of a segment, the first in front. -/
@[simp] lemma addrs_cons (c : A × D) (l : List (A × D)) : addrs (c :: l) = c.1 :: addrs l := rfl

/-- The addresses of two segments, one behind the other. -/
@[simp] lemma addrs_append (l₁ l₂ : List (A × D)) : addrs (l₁ ++ l₂) = addrs l₁ ++ addrs l₂ :=
  List.map_append

/-- A segment read backwards has its addresses backwards. -/
@[simp] lemma addrs_reverse (l : List (A × D)) : addrs l.reverse = (addrs l).reverse :=
  List.map_reverse

/-- Two segments are entered at the first, from which the second is entered. -/
lemma entry_append (n : Option A) (l₁ l₂ : List (A × D)) :
    entry n (l₁ ++ l₂) = entry (entry n l₂) l₁ := by
  cases l₁ <;> rfl

/-- Two segments are left at the second, into which the first is left. -/
lemma exit_append (p : Option A) (l₁ l₂ : List (A × D)) :
    exit p (l₁ ++ l₂) = exit (exit p l₁) l₂ := by
  induction l₁ generalizing p with
  | nil => rfl
  | cons c l₁ ih => exact ih (some c.1)

/-- A segment is left at its last cell. -/
@[simp] lemma exit_concat (p : Option A) (l : List (A × D)) (c : A × D) :
    exit p (l ++ [c]) = some c.1 := by
  rw [exit_append]
  rfl

/-- A non-empty segment is entered at its own first cell, whatever follows it. -/
lemma entry_concat_append (n : Option A) (l₁ : List (A × D)) (b : A × D) (l₂ : List (A × D)) :
    entry n ((l₁ ++ [b]) ++ l₂) = entry none (l₁ ++ [b]) := by
  cases l₁ <;> rfl

/-- The parts of a segment without repetitions. -/
lemma nodup_addrs_append {l₁ l₂ : List (A × D)} :
    (addrs (l₁ ++ l₂)).Nodup ↔
      (addrs l₁).Nodup ∧ (addrs l₂).Nodup ∧ ∀ a ∈ addrs l₁, ∀ b ∈ addrs l₂, a ≠ b := by
  rw [addrs_append]
  exact List.nodup_append

/-- The last address of a segment without repetitions is none of the others. -/
lemma not_mem_of_nodup_concat {l : List (A × D)} {c : A × D} (h : (addrs (l ++ [c])).Nodup) :
    c.1 ∉ addrs l := by
  intro hmem
  exact (nodup_addrs_append.mp h).2.2 _ hmem _ (by simp) rfl

/-- The cell at which a segment is entered is one of its own. -/
lemma mem_of_entry_eq_some {l : List (A × D)} {a : A} (h : entry none l = some a) :
    a ∈ addrs l := by
  cases l with
  | nil => cases h
  | cons c l =>
    obtain rfl : c.1 = a := Option.some.inj h
    simp

/-- Reversing a segment swaps its ends. -/
lemma entry_reverse (n : Option A) (l : List (A × D)) : entry n l.reverse = exit n l := by
  induction l generalizing n with
  | nil => rfl
  | cons c l ih => rw [List.reverse_cons, entry_append, entry_cons, ih, exit_cons]

/-- The cell at which a segment is left is one of its own. -/
lemma mem_of_exit_eq_some {l : List (A × D)} {a : A} (h : exit none l = some a) : a ∈ addrs l := by
  rw [← entry_reverse] at h
  simpa using mem_of_entry_eq_some h

/-- A non-empty segment is left from one of its own cells. -/
lemma exit_eq_some_of_ne_nil {l : List (A × D)} (h : l ≠ []) (p : Option A) :
    ∃ l' c, l = l' ++ [c] ∧ exit p l = some c.1 := by
  obtain ⟨l', c, rfl⟩ := (List.eq_nil_or_concat l).resolve_left h
  exact ⟨l', c, List.concat_eq_append, by rw [List.concat_eq_append, exit_concat]⟩

/-- The empty segment is in every memory. -/
@[simp] lemma seg_nil (m : Mem A D) (p n : Option A) : Seg m p [] n := trivial

/-- A segment, one cell after the other. -/
lemma seg_cons {m : Mem A D} {p n : Option A} {c : A × D} {l : List (A × D)} :
    Seg m p (c :: l) n ↔ m c.1 = some ⟨p, entry n l, c.2⟩ ∧ Seg m (some c.1) l n := Iff.rfl

/-- **A segment splits into two adjacent segments.** -/
lemma seg_append {m : Mem A D} {p n : Option A} {l₁ l₂ : List (A × D)} :
    Seg m p (l₁ ++ l₂) n ↔ Seg m p l₁ (entry n l₂) ∧ Seg m (exit p l₁) l₂ n := by
  induction l₁ generalizing p with
  | nil => simp
  | cons c l₁ ih =>
    rw [List.cons_append, seg_cons, seg_cons, ih, entry_append, exit_cons, and_assoc]

/-- The cell in the middle of a segment, with the two segments around it. -/
lemma seg_middle {m : Mem A D} {p n : Option A} {l₁ l₂ : List (A × D)} {c : A × D} :
    Seg m p (l₁ ++ c :: l₂) n ↔
      Seg m p l₁ (some c.1) ∧ m c.1 = some ⟨exit p l₁, entry n l₂, c.2⟩ ∧
        Seg m (some c.1) l₂ n := by
  rw [seg_append, seg_cons, entry_cons]

/-- A segment depends on its own cells only. -/
lemma Seg.congr {m m' : Mem A D} {p n : Option A} {l : List (A × D)} (h : Seg m p l n)
    (hm : ∀ a ∈ addrs l, m' a = m a) : Seg m' p l n := by
  induction l generalizing p with
  | nil => trivial
  | cons c l ih =>
    refine ⟨(hm c.1 (by simp)).trans h.1, ih h.2 fun a ha => hm a ?_⟩
    exact List.mem_cons_of_mem _ ha

/-- The cells of a segment are in the memory, with their data. -/
lemma Seg.exists_cell {m : Mem A D} {p n : Option A} {l : List (A × D)} (h : Seg m p l n)
    {c : A × D} (hc : c ∈ l) : ∃ q r, m c.1 = some ⟨q, r, c.2⟩ := by
  obtain ⟨l₁, l₂, rfl⟩ := List.append_of_mem hc
  exact ⟨_, _, (seg_middle.mp h).2.1⟩

/-- Every cell of a segment is there. -/
lemma Seg.isSome {m : Mem A D} {p n : Option A} {l : List (A × D)} (h : Seg m p l n)
    {c : A × D} (hc : c ∈ l) : (m c.1).isSome = true := by
  obtain ⟨q, r, hcell⟩ := h.exists_cell hc
  rw [hcell, Option.isSome_some]

/-! ## Forward links -/

/-- The cells of `l` follow each other by their forward links, up to the cell `n`. -/
def Path (m : Mem A D) : List (A × D) → Option A → Prop
  | [], _ => True
  | c :: l, n => (∃ p, m c.1 = some ⟨p, entry n l, c.2⟩) ∧ Path m l n

/-- A segment is a path along its forward links. -/
lemma Seg.path {m : Mem A D} {p n : Option A} {l : List (A × D)} (h : Seg m p l n) :
    Path m l n := by
  induction l generalizing p with
  | nil => trivial
  | cons c l ih => exact ⟨⟨p, h.1⟩, ih h.2⟩

/-- A path splits into two adjacent paths. -/
lemma path_append {m : Mem A D} {n : Option A} {l₁ l₂ : List (A × D)} :
    Path m (l₁ ++ l₂) n ↔ Path m l₁ (entry n l₂) ∧ Path m l₂ n := by
  induction l₁ with
  | nil => simp [Path]
  | cons c l₁ ih => rw [List.cons_append, Path, Path, ih, entry_append, and_assoc]

/-- A path depends on its own cells only. -/
lemma Path.congr {m m' : Mem A D} {n : Option A} {l : List (A × D)} (h : Path m l n)
    (hm : ∀ a ∈ addrs l, m' a = m a) : Path m' l n := by
  induction l with
  | nil => trivial
  | cons c l ih =>
    obtain ⟨⟨p, hcell⟩, hrest⟩ := h
    refine ⟨⟨p, (hm c.1 (by simp)).trans hcell⟩, ih hrest fun a ha => hm a ?_⟩
    exact List.mem_cons_of_mem _ ha

/-- **The path from a cell to the end is unique.**

**Proof sketch.** Induction on the first path. Both are entered at the same address, so at the
same cell, which has one forward link and one datum; the rests are entered where this link
leads. -/
lemma Path.unique {m : Mem A D} {l l' : List (A × D)} (h : Path m l none) (h' : Path m l' none)
    (hentry : entry none l = entry none l') : l = l' := by
  induction l generalizing l' with
  | nil =>
    cases l' with
    | nil => rfl
    | cons c l' => cases hentry
  | cons c l ih =>
    cases l' with
    | nil => cases hentry
    | cons c' l' =>
      obtain ⟨⟨p, hcell⟩, hrest⟩ := h
      obtain ⟨⟨p', hcell'⟩, hrest'⟩ := h'
      have haddr : c.1 = c'.1 := Option.some.inj hentry
      rw [haddr, hcell'] at hcell
      obtain ⟨-, hnext, hdata⟩ := (Cell.mk.injEq ..).mp (Option.some.inj hcell)
      rw [ih hrest hrest' hnext.symm, Prod.ext haddr hdata.symm]

/-! ## Relinking -/

section Relinking

variable [DecidableEq A]

/-- The memory with the forward link of one cell changed. -/
def setNext (m : Mem A D) (a : A) (n : Option A) : Mem A D :=
  Function.update m a ((m a).map fun c => { c with next := n })

/-- The memory with the backward link of one cell changed. -/
def setPrev (m : Mem A D) (a : A) (p : Option A) : Mem A D :=
  Function.update m a ((m a).map fun c => { c with prev := p })

/-- A forward link that is set changes no other cell. -/
lemma setNext_of_ne (m : Mem A D) {a b : A} (n : Option A) (h : b ≠ a) :
    setNext m a n b = m b := Function.update_of_ne h _ _

/-- A backward link that is set changes no other cell. -/
lemma setPrev_of_ne (m : Mem A D) {a b : A} (p : Option A) (h : b ≠ a) :
    setPrev m a p b = m b := Function.update_of_ne h _ _

/-- The cell whose forward link is set. -/
lemma setNext_self (m : Mem A D) (a : A) (n : Option A) :
    setNext m a n a = (m a).map fun c => { c with next := n } := Function.update_self _ _ _

/-- The cell whose backward link is set. -/
lemma setPrev_self (m : Mem A D) (a : A) (p : Option A) :
    setPrev m a p a = (m a).map fun c => { c with prev := p } := Function.update_self _ _ _

/-- Relinking a cell neither makes nor frees one. -/
@[simp] lemma isSome_setNext (m : Mem A D) (a b : A) (n : Option A) :
    (setNext m a n b).isSome = (m b).isSome := by
  by_cases hb : b = a
  · rw [hb, setNext_self, Option.isSome_map]
  · rw [setNext_of_ne _ _ hb]

/-- A link that is set makes no cell and takes none away. -/
@[simp] lemma isSome_setPrev (m : Mem A D) (a b : A) (p : Option A) :
    (setPrev m a p b).isSome = (m b).isSome := by
  by_cases hb : b = a
  · rw [hb, setPrev_self, Option.isSome_map]
  · rw [setPrev_of_ne _ _ hb]

/-- A forward link that is set changes no backward link. -/
lemma prev_setNext (m : Mem A D) (a b : A) (n : Option A) :
    (setNext m a n b).bind Cell.prev = (m b).bind Cell.prev := by
  by_cases hb : b = a
  · rw [hb, setNext_self]
    cases m a <;> rfl
  · rw [setNext_of_ne _ _ hb]

/-- A segment stays when a forward link is set outside. -/
lemma Seg.setNext_of_not_mem {m : Mem A D} {p n : Option A} {l : List (A × D)}
    (h : Seg m p l n) {a : A} (ha : a ∉ addrs l) (r : Option A) : Seg (setNext m a r) p l n :=
  h.congr fun _ hb => setNext_of_ne m r fun e => ha (e ▸ hb)

/-- A segment stays when a backward link is set outside. -/
lemma Seg.setPrev_of_not_mem {m : Mem A D} {p n : Option A} {l : List (A × D)}
    (h : Seg m p l n) {a : A} (ha : a ∉ addrs l) (r : Option A) : Seg (setPrev m a r) p l n :=
  h.congr fun _ hb => setPrev_of_ne m r fun e => ha (e ▸ hb)

/-- **The end of a segment is relinked** by the forward link of its last cell. -/
lemma Seg.setNext_concat {m : Mem A D} {p n : Option A} {l : List (A × D)} {c : A × D}
    (h : Seg m p (l ++ [c]) n) (hc : c.1 ∉ addrs l) (r : Option A) :
    Seg (setNext m c.1 r) p (l ++ [c]) r := by
  obtain ⟨hl, hcell, -⟩ := seg_middle.mp h
  refine seg_middle.mpr ⟨hl.setNext_of_not_mem hc r, ?_, trivial⟩
  rw [setNext_self, hcell]
  rfl

/-- **The end of a path is relinked** by the forward link of its last cell. -/
lemma Path.setNext_concat {m : Mem A D} {n : Option A} {l : List (A × D)} {c : A × D}
    (h : Path m (l ++ [c]) n) (hc : c.1 ∉ addrs l) (r : Option A) :
    Path (setNext m c.1 r) (l ++ [c]) r := by
  obtain ⟨hl, ⟨p, hcell⟩, -⟩ := path_append.mp h
  refine path_append.mpr ⟨hl.congr fun a ha => ?_, ⟨p, ?_⟩, trivial⟩
  · exact setNext_of_ne m r fun e => hc (e ▸ ha)
  · rw [setNext_self, hcell]
    rfl

/-- **The start of a segment is relinked** by the backward link of its first cell. -/
lemma Seg.setPrev_cons {m : Mem A D} {p n : Option A} {l : List (A × D)} {c : A × D}
    (h : Seg m p (c :: l) n) (hc : c.1 ∉ addrs l) (q : Option A) :
    Seg (setPrev m c.1 q) q (c :: l) n := by
  refine ⟨?_, h.2.setPrev_of_not_mem hc q⟩
  rw [setPrev_self, h.1]
  rfl

/-- The two links are separate: their updates commute.

**Proof sketch.** Address by address: where the two addresses are one, both orders set both
fields of the same cell; where they differ, each update leaves the other's cell alone. -/
lemma setPrev_setNext_comm (m : Mem A D) (a b : A) (p n : Option A) :
    setPrev (setNext m a n) b p = setNext (setPrev m b p) a n := by
  funext x
  by_cases hab : a = b
  · subst hab
    by_cases hx : x = a
    · subst hx
      simp only [setPrev_self, setNext_self, Option.map_map]
      rfl
    · rw [setPrev_of_ne _ _ hx, setNext_of_ne _ _ hx, setNext_of_ne _ _ hx, setPrev_of_ne _ _ hx]
  · by_cases hx : x = a
    · subst hx
      rw [setPrev_of_ne _ _ hab, setNext_self, setNext_self, setPrev_of_ne _ _ hab]
    · by_cases hx' : x = b
      · subst hx'
        rw [setPrev_self, setNext_of_ne _ _ hx, setNext_of_ne _ _ hx, setPrev_self]
      · rw [setPrev_of_ne _ _ hx', setNext_of_ne _ _ hx, setNext_of_ne _ _ hx,
          setPrev_of_ne _ _ hx']

/-- The memory with the cells `a` and `b` linked to each other. -/
def link (m : Mem A D) (a b : A) : Mem A D := setPrev (setNext m a (some b)) b (some a)

/-- Linking two cells changes no third one. -/
lemma link_of_ne (m : Mem A D) {a b x : A} (ha : x ≠ a) (hb : x ≠ b) : link m a b x = m x := by
  rw [link, setPrev_of_ne _ _ hb, setNext_of_ne _ _ ha]

/-- **Two segments are joined** by linking the end of one to the start of the other. -/
lemma Seg.link {m : Mem A D} {p q x n : Option A} {l₁ l₂ : List (A × D)} {c e : A × D}
    (h₁ : Seg m p (l₁ ++ [c]) x) (h₂ : Seg m q (e :: l₂) n)
    (hnodup : (addrs ((l₁ ++ [c]) ++ e :: l₂)).Nodup) :
    Seg (link m c.1 e.1) p ((l₁ ++ [c]) ++ e :: l₂) n := by
  obtain ⟨hn₁, hn₂, hdisj⟩ := nodup_addrs_append.mp hnodup
  have hc₁ : c.1 ∉ addrs l₁ := not_mem_of_nodup_concat hn₁
  have hc₂ : c.1 ∉ addrs (e :: l₂) := fun hmem => hdisj _ (by simp) _ hmem rfl
  have he₁ : e.1 ∉ addrs (l₁ ++ [c]) := fun hmem => hdisj _ hmem _ (by simp) rfl
  have he₂ : e.1 ∉ addrs l₂ := (List.nodup_cons.mp hn₂).1
  rw [seg_append, exit_concat]
  constructor
  · exact (h₁.setNext_concat hc₁ _).setPrev_of_not_mem he₁ _
  · exact (h₂.setNext_of_not_mem hc₂ _).setPrev_cons he₂ _

end Relinking

/-! ## Loops along a chain -/

/-- The loop `for (node = list; node; node = follow (node)) body`: the body sees the node and its
data, and may leave the loop with a result; `done` is the result at the end of the chain. A dangling
pointer is a fault. -/
def walk (m : Mem A D) (follow : Cell A D → Option A) (body : S → A → D → Except R S)
    (done : S → R) : ℕ → Option A → S → Option R
  | 0, _, _ => none
  | _ + 1, none, s => some (done s)
  | fuel + 1, some a, s =>
    (m a).bind fun c =>
      match body s a c.data with
      | .error r => some r
      | .ok s' => walk m follow body done fuel (follow c) s'

/-- What the loop computes along the given cells. -/
def scan (body : S → A → D → Except R S) (done : S → R) : List (A × D) → S → R
  | [], s => done s
  | c :: l, s =>
    match body s c.1 c.2 with
    | .error r => r
    | .ok s' => scan body done l s'

/-- **A loop that counts** up to `k` has its result from the cell at this position.

**Proof sketch.** Induction on the list, with the counter arbitrary. Past `k` the counter never
meets it again; at `k` the loop is left with the cell at position zero; below `k` one step
raises the counter and shortens the list, so `k - s` goes down with the position. -/
lemma scan_counter {body : ℤ → A → D → Except R ℤ} {k : ℤ} {f : A × D → R} {r : R}
    (hbody : ∀ s a d, body s a d = if s = k then .error (f (a, d)) else .ok (s + 1))
    (l : List (A × D)) (s : ℤ) :
    scan body (fun _ => r) l s =
      if s ≤ k then (l[(k - s).toNat]?).elim r f else r := by
  induction l generalizing s with
  | nil => simp [scan]
  | cons c l ih =>
    rw [scan, hbody]
    rcases Int.lt_trichotomy k s with hlt | rfl | hgt
    · simp only [if_neg (show s ≠ k by omega), ih, if_neg (show ¬ s ≤ k by omega),
        if_neg (show ¬ s + 1 ≤ k by omega)]
    · simp
    · have hpos : (k - s).toNat = (k - (s + 1)).toNat + 1 := by omega
      simp only [if_neg (show s ≠ k by omega), ih, if_pos (show s ≤ k by omega),
        if_pos (show s + 1 ≤ k by omega), hpos, List.getElem?_cons_succ]

/-- **Walking forwards** along a segment to its end.

**Proof sketch.** Induction on the segment. The pointer is at its first cell, which the segment
finds in memory with a forward link to the rest; a body that leaves the loop ends both sides
alike. -/
lemma Seg.walk_next {m : Mem A D} {p : Option A} {l : List (A × D)} (h : Seg m p l none)
    (body : S → A → D → Except R S) (done : S → R) {fuel : ℕ} (hf : l.length < fuel) (s : S) :
    walk m Cell.next body done fuel (entry none l) s = some (scan body done l s) := by
  induction l generalizing p fuel s with
  | nil =>
    obtain ⟨fuel, rfl⟩ : ∃ k, fuel = k + 1 := ⟨fuel - 1, by omega⟩
    rfl
  | cons c l ih =>
    obtain ⟨fuel, rfl⟩ : ∃ k, fuel = k + 1 := ⟨fuel - 1, by omega⟩
    have hlen : l.length < fuel := by
      rw [List.length_cons] at hf
      omega
    rw [entry_cons, walk, h.1, Option.bind_some, scan]
    cases body s c.1 c.2 with
    | error r => rfl
    | ok s' => exact ih h.2 hlen s'

/-- **Walking backwards** along a segment to its start.

**Proof sketch.** As `Seg.walk_next`, by induction on the segment from its end: the last cell is
found in memory by `seg_middle`, with a backward link to the segment in front of it. -/
lemma Seg.walk_prev {m : Mem A D} {n : Option A} {l : List (A × D)} (h : Seg m none l n)
    (body : S → A → D → Except R S) (done : S → R) {fuel : ℕ} (hf : l.length < fuel) (s : S) :
    walk m Cell.prev body done fuel (exit none l) s = some (scan body done l.reverse s) := by
  induction l using List.reverseRecOn generalizing n fuel s with
  | nil =>
    obtain ⟨fuel, rfl⟩ : ∃ k, fuel = k + 1 := ⟨fuel - 1, by omega⟩
    rfl
  | append_singleton l c ih =>
    obtain ⟨fuel, rfl⟩ : ∃ k, fuel = k + 1 := ⟨fuel - 1, by omega⟩
    have hlen : l.length < fuel := by
      rw [List.length_append, List.length_singleton] at hf
      omega
    obtain ⟨hl, hcell, -⟩ := seg_middle.mp h
    rw [exit_concat, walk, hcell, Option.bind_some, List.reverse_append, List.reverse_singleton,
      List.singleton_append, scan]
    cases body s c.1 c.2 with
    | error r => rfl
    | ok s' => exact ih hl hlen s'

/-! ## The links of a whole chain -/

/-- The links of the cells of a chain, position by position. -/
lemma Seg.cell_at {m : Mem A D} {p n : Option A} {l₁ l₂ : List (A × D)} {c : A × D}
    (h : Seg m p (l₁ ++ c :: l₂) n) :
    m c.1 = some ⟨exit p l₁, entry n l₂, c.2⟩ := (seg_middle.mp h).2.1

/-- A segment can be split at each of its addresses. -/
lemma exists_split_of_mem_addrs {l : List (A × D)} {a : A} (ha : a ∈ addrs l) :
    ∃ l₁ d l₂, l = l₁ ++ (a, d) :: l₂ := by
  obtain ⟨⟨a', d⟩, hc, rfl⟩ := List.mem_map.mp ha
  obtain ⟨l₁, l₂, rfl⟩ := List.append_of_mem hc
  exact ⟨l₁, d, l₂, rfl⟩

/-- **Forward and backward links are inverse**: in a chain from and to nowhere, `b` follows `a`
exactly when `a` precedes `b`.

**Proof sketch.** From left to right the segment is split at `a`, whose forward link enters the
rest at `b`; the same segment split at `b` has `a` as the exit of the part in front. From right
to left the split is at `b` first, and the part in front is not empty since its exit is `a`. -/
lemma Seg.next_iff_prev {m : Mem A D} {l : List (A × D)} (h : Seg m none l none) {a b : A}
    (ha : a ∈ addrs l) (hb : b ∈ addrs l) :
    (m a).bind Cell.next = some b ↔ (m b).bind Cell.prev = some a := by
  constructor
  · intro hnext
    obtain ⟨l₁, d, l₂, rfl⟩ := exists_split_of_mem_addrs ha
    rw [h.cell_at, Option.bind_some] at hnext
    cases l₂ with
    | nil => cases hnext
    | cons c l₂ =>
      obtain rfl : c.1 = b := Option.some.inj hnext
      have h' : Seg m none ((l₁ ++ [(a, d)]) ++ c :: l₂) none := by simpa using h
      rw [h'.cell_at, Option.bind_some, exit_concat]
  · intro hprev
    obtain ⟨l₁, d, l₂, rfl⟩ := exists_split_of_mem_addrs hb
    rw [h.cell_at, Option.bind_some] at hprev
    cases hl : l₁ with
    | nil =>
      rw [hl] at hprev
      cases hprev
    | cons c' l' =>
      obtain ⟨l₃, c, rfl, hexit⟩ := exit_eq_some_of_ne_nil (l := l₁) (by simp [hl]) none
      obtain rfl : c.1 = a := Option.some.inj (hexit.symm.trans hprev)
      have h' : Seg m none (l₃ ++ c :: (b, d) :: l₂) none := by simpa using h
      rw [h'.cell_at, Option.bind_some, entry_cons]

/-! ## What the links lead to -/

/-- One of the two links of the cell `a` is to `b`. -/
def LinksTo (m : Mem A D) (a b : A) : Prop :=
  ∃ c, m a = some c ∧ (c.prev = some b ∨ c.next = some b)

/-- The links lead from one cell to another, in any number of steps. -/
def LeadsTo (m : Mem A D) : A → A → Prop := Relation.ReflTransGen (LinksTo m)

/-- A neighbour of a cell of a chain is in the chain. -/
lemma Seg.mem_of_linksTo {m : Mem A D} {l : List (A × D)} (h : Seg m none l none) {a b : A}
    (ha : a ∈ addrs l) (hab : LinksTo m a b) : b ∈ addrs l := by
  obtain ⟨l₁, d, l₂, rfl⟩ := exists_split_of_mem_addrs ha
  obtain ⟨c, hcell, hlink⟩ := hab
  rw [h.cell_at] at hcell
  obtain rfl := Option.some.inj hcell
  rcases hlink with hprev | hnext
  · have hmem := mem_of_exit_eq_some hprev
    simp [hmem]
  · have hmem := mem_of_entry_eq_some hnext
    simp [hmem]

/-- **The links of a chain do not lead out of it.** -/
lemma Seg.mem_of_leadsTo {m : Mem A D} {l : List (A × D)} (h : Seg m none l none) {a b : A}
    (ha : a ∈ addrs l) (hab : LeadsTo m a b) : b ∈ addrs l := by
  induction hab with
  | refl => exact ha
  | tail _ hlink ih => exact h.mem_of_linksTo ih hlink

end Chain
