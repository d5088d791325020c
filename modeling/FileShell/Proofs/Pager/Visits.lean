import FileShell.Pager.Basic
import Mathlib.Algebra.Group.Nat.Defs
import Mathlib.Data.List.Induction
import Mathlib.Order.Nat

/-! # What a pager has shown

A text is visited by pressing one key after the other. Each key but the last kind shows a chunk of
lines, and the pager then stands behind it. A key may lead back, but no key leads forward over a
line that has not been shown: that is the invariant, and it says that the lines shown are always
those up to the largest offset that was reached (`Visit.Gapless`).

* **`Pager.apply_eq`** — what a key shows, and where the pager stands then.
* **`Visit.Gapless.press`** — one key keeps the visit without a gap.
* **`pager_skips_no_line`** — so do any keys. -/

namespace FileShell

/-! ## Chunks -/

/-- **A chunk of lines that was shown**, and which lines of the text they are. -/
structure Chunk where
  /-- The lines. -/
  lines : List Text
  /-- The index of the first of them. -/
  first : Nat
  /-- The index behind the last of them. -/
  stop : Nat
deriving DecidableEq, Repr

/-- **A chunk is a slice of the lines of a text**, from the one index to the other. -/
structure Chunk.IsSliceOf (text : List Text) (c : Chunk) : Prop where
  lines_eq : c.lines = (text.take c.stop).drop c.first
  first_le : c.first ≤ c.stop
  stop_le : c.stop ≤ text.length

namespace Pager

/-- Where a key begins to show lines: at the offset, or some lines before it. -/
def origin (p : Pager) (key : Key) : Nat := if key = .back then p.offset - p.rewind else p.offset

/-- How many lines a key asks for. -/
def wanted (p : Pager) : Key → Nat
  | .line => 1
  | .page | .back => p.pageSize
  | .quit => 0

/-- The chunk that a key shows, if it shows any. -/
def chunk? (p : Pager) (key : Key) : Option Chunk :=
  (p.apply key).1.map fun lines => ⟨lines, p.origin key, (p.apply key).2.offset⟩

/-- The pager after some keys. -/
def after (p : Pager) (keys : List Key) : Pager := keys.foldl (fun p key => (p.apply key).2) p

variable {p : Pager} {key : Key}

theorem apply_quit (p : Pager) : p.apply .quit = (none, p) := rfl

/-- Where the pager stands after a key: as far behind the origin as was asked for, or at the end. -/
def target (p : Pager) (key : Key) : Nat := min (p.origin key + p.wanted key) p.lines.length

/-- **A key shows the lines from its origin to its target**, where the pager stands then. -/
theorem apply_eq (h : key ≠ .quit) :
    p.apply key =
      (some ((p.lines.take (p.target key)).drop (p.origin key)),
        { p with offset := p.target key }) := by
  cases key with
  | quit => exact absurd rfl h
  | line | page | back => rfl

theorem chunk?_eq (h : key ≠ .quit) :
    p.chunk? key =
      some ⟨(p.lines.take (p.target key)).drop (p.origin key), p.origin key, p.target key⟩ := by
  rw [chunk?, apply_eq h, Option.map_some]

/-- No key leads forward over a line. -/
theorem origin_le (p : Pager) (key : Key) : p.origin key ≤ p.offset := by
  unfold origin
  split
  · exact Nat.sub_le _ _
  · exact le_rfl

theorem target_le (p : Pager) (key : Key) : p.target key ≤ p.lines.length := Nat.min_le_right _ _

theorem origin_le_target (h : p.offset ≤ p.lines.length) (key : Key) :
    p.origin key ≤ p.target key :=
  Nat.le_min.2 ⟨Nat.le_add_right _ _, (p.origin_le key).trans h⟩

/-- All lines were shown if the offset is at the end or behind it. -/
theorem isDone_iff : p.isDone = true ↔ p.lines.length ≤ p.offset := by
  rw [isDone, decide_eq_true_eq]

/-! ## There and back -/

section

variable (small : p.pageSize < 2 ^ 63)
include small

/-- A page of less than half a machine word is doubled without an overflow. -/
theorem rewind_eq : p.rewind = 2 * p.pageSize := by
  rw [rewind, Nat.mod_eq_of_lt]
  simp only [UInt64.size]
  omega

variable (first : 2 * p.pageSize ≤ p.offset) (last : p.offset + 2 * p.pageSize ≤ p.lines.length)
include first last

/-- **A page on and then back** leads to where the pager stood, two pages from both ends. -/
theorem offset_page_back : (p.after [.page, .back]).offset = p.offset := by
  have hpage : p.target .page = p.offset + p.pageSize := by
    simp only [target, origin, wanted, reduceCtorEq, if_false]
    omega
  have hback : ({ p with offset := p.offset + p.pageSize } : Pager).rewind = 2 * p.pageSize :=
    rewind_eq small
  simp only [after, List.foldl_cons, List.foldl_nil, apply_eq (by decide : Key.page ≠ .quit),
    apply_eq (by decide : Key.back ≠ .quit), hpage]
  simp only [target, origin, wanted, if_true, hback]
  omega

/-- **Back and then a page on** leads there as well. -/
theorem offset_back_page : (p.after [.back, .page]).offset = p.offset := by
  have hback : p.target .back = p.offset - p.pageSize := by
    simp only [target, origin, wanted, if_true, rewind_eq small]
    omega
  simp only [after, List.foldl_cons, List.foldl_nil, apply_eq (by decide : Key.page ≠ .quit),
    apply_eq (by decide : Key.back ≠ .quit), hback]
  simp only [target, origin, wanted, reduceCtorEq, if_false]
  omega

end

end Pager

/-! ## Visits -/

/-- **A text being visited**: the pager, and what was shown so far. -/
structure Visit where
  /-- The pager. -/
  pager : Pager
  /-- The chunks that were shown, in order. -/
  shown : List Chunk
  /-- The largest offset that was reached. -/
  reach : Nat
deriving DecidableEq, Repr

namespace Visit

/-- **A visit after one more key.** -/
def press (v : Visit) (key : Key) : Visit :=
  let next := (v.pager.apply key).2
  ⟨next, v.shown ++ (v.pager.chunk? key).toList, max v.reach next.offset⟩

/-- The visit that begins with the first page. -/
def start (lines : List Text) (pageSize : Nat) : Visit :=
  let (first, pager) := (Pager.start lines pageSize).firstPage
  ⟨pager, [⟨first, 0, pager.offset⟩], pager.offset⟩

/-- **The visit after the first page and some keys.** -/
def after (lines : List Text) (pageSize : Nat) (keys : List Key) : Visit :=
  keys.foldl press (start lines pageSize)

/-- Keys are pressed one after the other. -/
theorem after_append (lines : List Text) (pageSize : Nat) (keys more : List Key) :
    after lines pageSize (keys ++ more) = more.foldl press (after lines pageSize keys) :=
  List.foldl_append

/-- The first page is always there. -/
theorem shown_after_ne_nil (lines : List Text) (pageSize : Nat) (keys : List Key) :
    (after lines pageSize keys).shown ≠ [] := by
  induction keys using List.reverseRecOn with
  | nil => exact List.cons_ne_nil _ _
  | append_singleton keys key ih =>
    rw [after_append]
    exact List.append_ne_nil_of_left_ne_nil ih _

/-- **A visit without a gap.** The lines that were shown are exactly those up to the largest offset
that was reached, and the pager stands behind the last of its chunks. -/
structure Gapless (text : List Text) (v : Visit) : Prop where
  lines : v.pager.lines = text
  offset_le : v.pager.offset ≤ v.reach
  reach_le : v.reach ≤ text.length
  slices : ∀ chunk ∈ v.shown, chunk.IsSliceOf text
  last : ∀ chunk ∈ v.shown.getLast?, chunk.stop = v.pager.offset
  covers : ∀ i, (∃ chunk ∈ v.shown, chunk.first ≤ i ∧ i < chunk.stop) ↔ i < v.reach

variable {text : List Text} {v : Visit}

/-- Before the first page nothing was shown. -/
theorem gapless_unopened (text : List Text) (pageSize : Nat) :
    Gapless text ⟨Pager.start text pageSize, [], 0⟩ where
  lines := rfl
  offset_le := le_rfl
  reach_le := Nat.zero_le _
  slices := nofun
  last := nofun
  covers := by simp

/-- The first page is shown by the same rule as all others. -/
theorem start_eq (lines : List Text) (pageSize : Nat) :
    start lines pageSize = press ⟨Pager.start lines pageSize, [], 0⟩ .page := by
  simp [start, press, Pager.firstPage, Pager.chunk?, Pager.apply, Pager.origin, Pager.start]

/-- **One key leaves no gap**, since it begins to show lines where some were shown before. -/
theorem Gapless.press (h : v.Gapless text) (key : Key) : (v.press key).Gapless text := by
  by_cases hquit : key = .quit
  · subst hquit
    have hreach : max v.reach v.pager.offset = v.reach := Nat.max_eq_left h.offset_le
    simpa [Visit.press, Pager.chunk?, Pager.apply_quit, hreach] using h
  · have horigin : v.pager.origin key ≤ v.reach := (v.pager.origin_le key).trans h.offset_le
    have hlength : v.pager.target key ≤ text.length := h.lines ▸ v.pager.target_le key
    have hle : v.pager.origin key ≤ v.pager.target key :=
      Pager.origin_le_target (h.lines ▸ h.offset_le.trans h.reach_le) key
    simp only [Visit.press, Pager.apply_eq hquit, Pager.chunk?_eq hquit, Option.toList_some,
      h.lines]
    refine ⟨rfl, Nat.le_max_right _ _, Nat.max_le.2 ⟨h.reach_le, hlength⟩, ?_, ?_, fun i => ?_⟩
    · simp only [List.mem_append, List.mem_singleton]
      rintro chunk (hmem | rfl)
      · exact h.slices chunk hmem
      · exact ⟨rfl, hle, hlength⟩
    · simp
    · simp only [List.mem_append, List.mem_singleton, or_and_right, exists_or, h.covers i,
        exists_eq_left]
      omega

/-- **No keys leave a gap.** -/
theorem gapless_after (lines : List Text) (pageSize : Nat) (keys : List Key) :
    (after lines pageSize keys).Gapless lines := by
  induction keys using List.reverseRecOn with
  | nil =>
    rw [after, List.foldl_nil, start_eq]
    exact (gapless_unopened lines pageSize).press .page
  | append_singleton keys key ih =>
    rw [after_append]
    exact ih.press key

/-! ## Forward only -/

/-- **A visit that never went back**: what it has shown, put together, is the text up to its
offset. -/
structure Forward (text : List Text) (v : Visit) : Prop where
  reach : v.reach = v.pager.offset
  shown : v.shown.flatMap Chunk.lines = text.take v.reach

theorem Forward.press (h : v.Gapless text) (forward : v.Forward text) {key : Key}
    (hkey : key ≠ .back) : (v.press key).Forward text := by
  by_cases hquit : key = .quit
  · subst hquit
    have hreach : max v.reach v.pager.offset = v.reach := Nat.max_eq_left h.offset_le
    simpa [Visit.press, Pager.chunk?, Pager.apply_quit, hreach] using forward
  · have horigin : v.pager.origin key = v.reach := by
      rw [Pager.origin, if_neg hkey, forward.reach]
    have hle : v.reach ≤ v.pager.target key :=
      horigin ▸ Pager.origin_le_target (h.lines ▸ h.offset_le.trans h.reach_le) key
    have hreach : max v.reach (v.pager.target key) = v.pager.target key := Nat.max_eq_right hle
    simp only [Visit.press, Pager.apply_eq hquit, Pager.chunk?_eq hquit, Option.toList_some,
      h.lines, horigin, hreach]
    refine ⟨rfl, ?_⟩
    have hbefore : text.take v.reach = (text.take (v.pager.target key)).take v.reach := by
      rw [List.take_take, Nat.min_eq_left hle]
    rw [List.flatMap_append, forward.shown, List.flatMap_singleton, hbefore, List.take_append_drop]

/-- **Without going back every line is shown once and in order.** -/
theorem forward_after (lines : List Text) (pageSize : Nat) {keys : List Key}
    (hkeys : .back ∉ keys) : (after lines pageSize keys).Forward lines := by
  induction keys using List.reverseRecOn with
  | nil =>
    rw [after, List.foldl_nil, start_eq]
    exact Forward.press (gapless_unopened lines pageSize) ⟨rfl, by simp⟩ (by decide)
  | append_singleton keys key ih =>
    obtain ⟨hkeys, hkey⟩ : .back ∉ keys ∧ key ≠ .back := by simpa [eq_comm] using hkeys
    have hgapless := gapless_after lines pageSize keys
    rw [after_append]
    exact (ih hkeys).press hgapless hkey

/-! ## The pager of a visit -/

/-- The pager of a visit is that after the same keys. -/
theorem pager_foldl_press (v : Visit) (keys : List Key) :
    (keys.foldl press v).pager = v.pager.after keys := by
  induction keys generalizing v with
  | nil => rfl
  | cons key keys ih => exact ih (v.press key)

/-- The size of a page stays as it is. -/
theorem pageSize_after (lines : List Text) (pageSize : Nat) (keys : List Key) :
    (after lines pageSize keys).pager.pageSize = max pageSize 1 := by
  induction keys using List.reverseRecOn with
  | nil => rfl
  | append_singleton keys key ih =>
    rw [← ih, after_append]
    cases key <;> rfl

end Visit

/-- **A pager skips no line.** A text is paged through from its first page, with any keys. At every
moment the pager stands within the text, behind the last chunk that it has shown. All chunks are
slices of the text, and whatever key is pressed next, what it shows begins at the largest offset
that was reached or before. So the lines that were shown are exactly those up to that offset;
without going back they were shown once and in order, and where all is done they are all the lines.
Two pages or more from both ends, a page on and back, or back and on, leads to the same place. -/
theorem pager_skips_no_line (lines : List Text) {pageSize : Nat} (small : pageSize < 2 ^ 63)
    (keys : List Key) :
    let v := Visit.after lines pageSize keys
    v.pager.offset ≤ lines.length ∧
      (∃ chunk, v.shown.getLast? = some chunk ∧ chunk.stop = v.pager.offset) ∧
      (∀ chunk ∈ v.shown, chunk.IsSliceOf lines) ∧
      (∀ key, ∀ chunk ∈ v.pager.chunk? key, chunk.first ≤ v.reach) ∧
      (∀ i, (∃ chunk ∈ v.shown, chunk.first ≤ i ∧ i < chunk.stop) ↔ i < v.reach) ∧
      (.back ∉ keys → v.shown.flatMap Chunk.lines = lines.take v.reach) ∧
      (v.pager.isDone = true → v.reach = lines.length) ∧
      (2 * max pageSize 1 ≤ v.pager.offset →
        v.pager.offset + 2 * max pageSize 1 ≤ lines.length →
        (v.pager.after [.page, .back]).offset = v.pager.offset ∧
          (v.pager.after [.back, .page]).offset = v.pager.offset) := by
  intro v
  have h : v.Gapless lines := Visit.gapless_after lines pageSize keys
  have hsize : v.pager.pageSize = max pageSize 1 := Visit.pageSize_after lines pageSize keys
  refine ⟨h.offset_le.trans h.reach_le, ?_, h.slices, fun key chunk hchunk => ?_, h.covers,
    fun hkeys => (Visit.forward_after lines pageSize hkeys).shown, fun hdone => ?_, ?_⟩
  · obtain ⟨chunk, hlast⟩ : ∃ chunk, v.shown.getLast? = some chunk :=
      Option.isSome_iff_exists.1 (by simpa using Visit.shown_after_ne_nil lines pageSize keys)
    exact ⟨chunk, hlast, h.last chunk hlast⟩
  · obtain ⟨_, -, rfl⟩ := Option.map_eq_some_iff.1 hchunk
    exact (v.pager.origin_le key).trans h.offset_le
  · have hend : v.pager.lines.length ≤ v.pager.offset := Pager.isDone_iff.1 hdone
    rw [h.lines] at hend
    exact Nat.le_antisymm h.reach_le (hend.trans h.offset_le)
  · have hsmall : v.pager.pageSize < 2 ^ 63 := by omega
    rw [← hsize, ← h.lines]
    exact fun first last =>
      ⟨Pager.offset_page_back hsmall first last, Pager.offset_back_page hsmall first last⟩

/-- Pages of two lines: on, back over lines that were seen, and on to lines that were not. -/
theorem pager_skips_no_line_seven :
    let lines : List Text := [['a'], ['b'], ['c'], ['d'], ['e'], ['f'], ['g']]
    let v := Visit.after lines 2 [.page, .line, .back, .quit, .page]
    2 < 2 ^ 63 ∧ v.pager.offset = 5 ∧ v.reach = 5 ∧
      v.shown = [⟨[['a'], ['b']], 0, 2⟩, ⟨[['c'], ['d']], 2, 4⟩, ⟨[['e']], 4, 5⟩,
        ⟨[['b'], ['c']], 1, 3⟩, ⟨[['d'], ['e']], 3, 5⟩] ∧
      (∀ chunk ∈ v.shown, chunk.IsSliceOf lines) ∧
      ∀ i, (∃ chunk ∈ v.shown, chunk.first ≤ i ∧ i < chunk.stop) ↔ i < 5 := by
  intro lines v
  obtain ⟨-, -, hslices, -, hcovers, -⟩ :=
    pager_skips_no_line lines (by decide : 2 < 2 ^ 63) [.page, .line, .back, .quit, .page]
  exact ⟨by decide, by decide, by decide, by decide, hslices, hcovers⟩

end FileShell
