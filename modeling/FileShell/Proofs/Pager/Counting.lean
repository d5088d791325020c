import FileShell.Proofs.Pager.Visits
import FileShell.Proofs.Settings.Documents

/-! # Paging in machine words

A pager adds, doubles and subtracts numbers, and takes slices of its lines between two of them.
Machine words wrap around where numbers do not, and a slice is out of range if its ends are in the
wrong order or behind the end of the text. Neither happens with a configuration that a user can
write: a page has fewer than `2 ^ 63` lines then, because an integer of a document cannot say more,
and a text in memory is shorter still.

* **`Counting`** — a kind of numbers to count in: without bounds or in machine words.
* **`CountedPager`** — a pager that counts in them, with slices that can be missing.
* **`CountedPager.press?_eq`** — one key does the same in all of them, while there is room.
* **`paging_in_range`** — so do any keys, and there is always room. -/

namespace FileShell

/-! ## Numbers to count in -/

/-- **A kind of numbers that a pager can count in.** -/
structure Counting (N : Type) where
  ofNat : Nat → N
  toNat : N → Nat
  add : N → N → N
  mul : N → N → N
  /-- The difference, or zero if that would be negative. -/
  sub : N → N → N
  least : N → N → N

namespace Counting

/-- **Numbers without bounds.** -/
def unbounded : Counting Nat where
  ofNat := id
  toNat := id
  add := (· + ·)
  mul := (· * ·)
  sub := (· - ·)
  least := min

/-- **Machine words**, which wrap around. -/
def words : Counting UInt64 where
  ofNat := UInt64.ofNat
  toNat := UInt64.toNat
  add := (· + ·)
  mul := (· * ·)
  sub a b := if b ≤ a then a - b else 0
  least := min

/-- **A kind of numbers is faithful** if it counts as it should while the results are small. -/
structure Faithful {N : Type} (k : Counting N) : Prop where
  ofNat : ∀ n, n < UInt64.size → k.toNat (k.ofNat n) = n
  add : ∀ a b, k.toNat a + k.toNat b < UInt64.size → k.toNat (k.add a b) = k.toNat a + k.toNat b
  mul : ∀ a b, k.toNat a * k.toNat b < UInt64.size → k.toNat (k.mul a b) = k.toNat a * k.toNat b
  sub : ∀ a b, k.toNat (k.sub a b) = k.toNat a - k.toNat b
  least : ∀ a b, k.toNat (k.least a b) = min (k.toNat a) (k.toNat b)

theorem faithful_unbounded : unbounded.Faithful where
  ofNat _ _ := rfl
  add _ _ _ := rfl
  mul _ _ _ := rfl
  sub _ _ := rfl
  least _ _ := rfl

theorem faithful_words : words.Faithful where
  ofNat _ h := UInt64.toNat_ofNat_of_lt' h
  add a b h := (UInt64.toNat_add a b).trans (Nat.mod_eq_of_lt h)
  mul a b h := (UInt64.toNat_mul a b).trans (Nat.mod_eq_of_lt h)
  sub a b := by
    change (if b ≤ a then a - b else 0).toNat = _
    split
    · next hle => exact UInt64.toNat_sub_of_le a b hle
    · next hlt =>
      rw [UInt64.le_iff_toNat_le, Nat.not_le] at hlt
      exact (Nat.sub_eq_zero_of_le hlt.le).symm
  least := UInt64.toNat_min

end Counting

/-! ## A pager that counts -/

/-- **The lines from one index to another.** There are none if the indices are in the wrong order or
behind the end. -/
def linesBetween? (lines : List Text) (start stop : Nat) : Option (List Text) :=
  if start ≤ stop ∧ stop ≤ lines.length then some ((lines.take stop).drop start) else none

/-- **A pager that counts in some kind of numbers.** -/
structure CountedPager (N : Type) where
  lines : List Text
  offset : N
  pageSize : N

namespace CountedPager

variable {N : Type} (k : Counting N)

/-- The pager at the top of a text. -/
def start (lines : List Text) (pageSize : Nat) : CountedPager N :=
  ⟨lines, k.ofNat 0, k.ofNat (max pageSize 1)⟩

/-- **More lines shown**, if they are in range. -/
def advance? (p : CountedPager N) (count : N) : Option (List Text × CountedPager N) := do
  let stop := k.least (k.add p.offset count) (k.ofNat p.lines.length)
  let shown ← linesBetween? p.lines (k.toNat p.offset) (k.toNat stop)
  return (shown, { p with offset := stop })

/-- **What a key shows**, if that is in range. -/
def press? (p : CountedPager N) : Key → Option (Option (List Text) × CountedPager N)
  | .line => Prod.map some id <$> p.advance? k (k.ofNat 1)
  | .page => Prod.map some id <$> p.advance? k p.pageSize
  | .back =>
    let rewound := { p with offset := k.sub p.offset (k.mul p.pageSize (k.ofNat 2)) }
    Prod.map some id <$> rewound.advance? k p.pageSize
  | .quit => some (none, p)

/-- **What some keys show**, one after the other. -/
def run? (p : CountedPager N) : List Key → Option (List (Option (List Text)) × CountedPager N)
  | [] => some ([], p)
  | key :: keys => do
    let (shown, next) ← p.press? k key
    let (others, last) ← next.run? keys
    return (shown :: others, last)

/-- **A visit**: the first page, what some keys show then, and the offset at the end. -/
def visit? (lines : List Text) (pageSize : Nat) (keys : List Key) :
    Option (List Text × List (Option (List Text)) × Nat) := do
  let pager := start k lines pageSize
  let (first, opened) ← pager.advance? k pager.pageSize
  let (shown, last) ← opened.run? k keys
  return (first, shown, k.toNat last.offset)

end CountedPager

/-! ## Room for all numbers -/

namespace Pager

/-- **All numbers that a key brings about are in range**: the doubled page, the sum of where the key
begins to show lines and how many it asks for, and both ends of the slice. -/
structure InRange (p : Pager) (key : Key) : Prop where
  doubled : 2 * p.pageSize < UInt64.size
  rewound : p.rewind = 2 * p.pageSize
  sum : p.origin key + p.wanted key < UInt64.size
  ordered : p.origin key ≤ p.target key
  inside : p.target key ≤ p.lines.length

/-- **A pager with room**: it stands within its text, and neither the text nor a page fills half a
machine word. -/
structure Roomy (p : Pager) : Prop where
  offset_le : p.offset ≤ p.lines.length
  lines_lt : p.lines.length < 2 ^ 63
  page_lt : p.pageSize < 2 ^ 63

variable {p : Pager}

/-- Nothing is out of range where there is room. -/
theorem Roomy.inRange (h : p.Roomy) (key : Key) : p.InRange key where
  doubled := by
    have hpage := h.page_lt
    simp only [UInt64.size]
    omega
  rewound := rewind_eq h.page_lt
  sum := by
    -- the sum of two numbers that fill less than half a word each
    have horigin := (p.origin_le key).trans h.offset_le
    have hlines := h.lines_lt
    have hpage := h.page_lt
    have hwanted : p.wanted key < 2 ^ 63 := by
      cases key with
      | line | quit => simp [wanted]
      | page | back => exact hpage
    simp only [UInt64.size]
    omega
  ordered := origin_le_target h.offset_le key
  inside := p.target_le key

/-- **A key leaves room.** -/
theorem Roomy.apply (h : p.Roomy) (key : Key) : (p.apply key).2.Roomy := by
  by_cases hquit : key = .quit
  · rw [hquit, apply_quit]
    exact h
  · rw [apply_eq hquit]
    exact ⟨p.target_le key, h.lines_lt, h.page_lt⟩

/-- **What some keys show**, one after the other. -/
def shows (p : Pager) : List Key → List (Option (List Text))
  | [] => []
  | key :: keys => (p.apply key).1 :: (p.apply key).2.shows keys

/-- **A visit**: the first page, what some keys show then, and the offset at the end. -/
def visit (lines : List Text) (pageSize : Nat) (keys : List Key) :
    List Text × List (Option (List Text)) × Nat :=
  let (first, opened) := (start lines pageSize).firstPage
  (first, opened.shows keys, (opened.after keys).offset)

end Pager

/-! ## Counting makes no difference -/

namespace CountedPager

variable {N : Type} {k : Counting N} {q : CountedPager N} {p : Pager}

/-- **A pager counts another one**: their numbers are the same. -/
structure Counts (k : Counting N) (q : CountedPager N) (p : Pager) : Prop where
  lines : q.lines = p.lines
  offset : k.toNat q.offset = p.offset
  pageSize : k.toNat q.pageSize = p.pageSize

/-- More lines are the same lines, if the sum is small enough. -/
theorem advance?_eq (faithful : k.Faithful) (counts : Counts k q p)
    (offset_le : p.offset ≤ p.lines.length) (lines_lt : p.lines.length < UInt64.size) (count : N)
    (sum_lt : p.offset + k.toNat count < UInt64.size) :
    ∃ next, q.advance? k count = some ((p.advance (k.toNat count)).1, next) ∧
      Counts k next (p.advance (k.toNat count)).2 := by
  have hsum : k.toNat (k.add q.offset count) = p.offset + k.toNat count := by
    rw [faithful.add _ _ (counts.offset.symm ▸ sum_lt), counts.offset]
  have hstop : k.toNat (k.least (k.add q.offset count) (k.ofNat q.lines.length)) =
      min (p.offset + k.toNat count) p.lines.length := by
    rw [faithful.least, hsum, counts.lines, faithful.ofNat _ lines_lt]
  have hshown : linesBetween? q.lines (k.toNat q.offset)
      (k.toNat (k.least (k.add q.offset count) (k.ofNat q.lines.length))) =
      some (p.advance (k.toNat count)).1 := by
    rw [hstop, counts.offset, counts.lines]
    exact if_pos ⟨Nat.le_min.2 ⟨Nat.le_add_right _ _, offset_le⟩, Nat.min_le_right _ _⟩
  refine ⟨{ q with offset := k.least (k.add q.offset count) (k.ofNat q.lines.length) }, ?_,
    ⟨counts.lines, hstop, counts.pageSize⟩⟩
  simp only [advance?, hshown, Option.bind_eq_bind, Option.bind_some, Option.pure_def]

/-- Going back by two pages leads to the same offset. -/
theorem Counts.rewound (faithful : k.Faithful) (counts : Counts k q p) (roomy : p.Roomy) :
    Counts k { q with offset := k.sub q.offset (k.mul q.pageSize (k.ofNat 2)) }
      { p with offset := p.offset - p.rewind } := by
  have hrange := roomy.inRange .back
  have htwo : k.toNat (k.ofNat 2) = 2 := faithful.ofNat 2 (by decide)
  have hproduct : k.toNat q.pageSize * k.toNat (k.ofNat 2) = 2 * p.pageSize := by
    rw [htwo, counts.pageSize, Nat.mul_comm]
  have hdoubled : k.toNat (k.mul q.pageSize (k.ofNat 2)) = p.rewind := by
    rw [faithful.mul _ _ (hproduct.symm ▸ hrange.doubled), hproduct, hrange.rewound]
  refine ⟨counts.lines, ?_, counts.pageSize⟩
  rw [faithful.sub, hdoubled, counts.offset]

/-- **One key shows the same lines**, whatever the pager counts in, if there is room. -/
theorem press?_eq (faithful : k.Faithful) (counts : Counts k q p) (roomy : p.Roomy) (key : Key) :
    ∃ next, q.press? k key = some ((p.apply key).1, next) ∧ Counts k next (p.apply key).2 := by
  have hsum := (roomy.inRange key).sum
  have hlines : p.lines.length < UInt64.size := roomy.lines_lt.trans (by decide)
  cases key with
  | line =>
    have hone : k.toNat (k.ofNat 1) = 1 := faithful.ofNat 1 (by decide)
    obtain ⟨next, hnext, hcounts⟩ := advance?_eq faithful counts roomy.offset_le hlines (k.ofNat 1)
      (hone.symm ▸ hsum)
    rw [hone] at hnext hcounts
    exact ⟨next, by rw [press?, hnext]; rfl, hcounts⟩
  | page =>
    obtain ⟨next, hnext, hcounts⟩ := advance?_eq faithful counts roomy.offset_le hlines q.pageSize
      (counts.pageSize.symm ▸ hsum)
    rw [counts.pageSize] at hnext hcounts
    exact ⟨next, by rw [press?, hnext]; rfl, hcounts⟩
  | back =>
    -- the page is shown by a pager that has gone back already
    have hrewound := counts.rewound faithful roomy
    have hoffset : p.offset - p.rewind ≤ p.lines.length := (Nat.sub_le _ _).trans roomy.offset_le
    obtain ⟨next, hnext, hcounts⟩ := advance?_eq faithful hrewound hoffset hlines q.pageSize
      (counts.pageSize.symm ▸ hsum)
    rw [counts.pageSize] at hnext hcounts
    exact ⟨next, by rw [press?, hnext]; rfl, hcounts⟩
  | quit => exact ⟨q, rfl, counts⟩

/-- **Some keys show the same lines**, one after the other. -/
theorem run?_eq (faithful : k.Faithful) (counts : Counts k q p) (roomy : p.Roomy)
    (keys : List Key) :
    ∃ last, q.run? k keys = some (p.shows keys, last) ∧ Counts k last (p.after keys) := by
  induction keys generalizing q p with
  | nil => exact ⟨q, rfl, counts⟩
  | cons key keys ih =>
    obtain ⟨next, hnext, hcounts⟩ := press?_eq faithful counts roomy key
    obtain ⟨last, hlast, hend⟩ := ih hcounts (roomy.apply key)
    refine ⟨last, ?_, hend⟩
    simp only [run?, hnext, hlast, Option.bind_eq_bind, Option.bind_some]
    rfl

end CountedPager

/-- At the top of a text that is not too long there is room, with pages that are not too long. -/
theorem Pager.roomy_start {lines : List Text} {pageSize : Nat} (lines_lt : lines.length < 2 ^ 63)
    (page_lt : pageSize < 2 ^ 63) : (start lines pageSize).Roomy where
  offset_le := Nat.zero_le _
  lines_lt := lines_lt
  page_lt := Nat.max_lt.2 ⟨page_lt, by decide⟩

/-- **A visit shows the same lines**, whatever the pager counts in. -/
theorem CountedPager.visit?_eq {N : Type} {k : Counting N} (faithful : k.Faithful)
    {lines : List Text} {pageSize : Nat} (roomy : (Pager.start lines pageSize).Roomy)
    (keys : List Key) : visit? k lines pageSize keys = some (Pager.visit lines pageSize keys) := by
  have hcounts : Counts k (start k lines pageSize) (Pager.start lines pageSize) :=
    ⟨rfl, faithful.ofNat 0 (by decide), faithful.ofNat _ (roomy.page_lt.trans (by decide))⟩
  -- the first page is that of the first key
  obtain ⟨opened, hopened, hpage⟩ := advance?_eq faithful hcounts roomy.offset_le
    (roomy.lines_lt.trans (by decide)) (start k lines pageSize).pageSize
    (hcounts.pageSize.symm ▸ (roomy.inRange .page).sum)
  rw [hcounts.pageSize] at hopened hpage
  obtain ⟨last, hlast, hend⟩ := run?_eq faithful hpage (roomy.apply .page) keys
  simp only [visit?, hopened, hlast, Option.bind_eq_bind, Option.bind_some, hend.offset]
  rfl

/-- **A visit leaves room.** -/
theorem Visit.roomy_after {lines : List Text} {pageSize : Nat}
    (roomy : (Pager.start lines pageSize).Roomy) (keys : List Key) :
    (Visit.after lines pageSize keys).pager.Roomy := by
  induction keys using List.reverseRecOn with
  | nil => exact roomy.apply .page
  | append_singleton keys key ih =>
    rw [after_append]
    exact ih.apply key

/-- **Paging never leaves the range of machine words**, whatever a user has configured by any
sequence of overlays, each of them with a page of at most `2 ^ 63 - 1` lines, as every document has
(`Overlay.admitted_of_ofText?`). The text may have as many lines as fit in memory, where each of them
takes up 24 bytes at least.

* The first page is in range, and so is every key after any others: the doubled page and the sum do
  not wrap around, and the ends of the slice are in order and within the text.
* Counted in machine words, a visit is what it is with numbers without bounds, and no slice is
  missing. -/
theorem paging_in_range {c : Config} (reachable : c.Reachable) {lines : List Text}
    (short : lines.length ≤ (2 ^ 63 - 1) / 24) (keys : List Key) :
    (Pager.start lines c.settings.pageSize).InRange .page ∧
      (∀ key, (Visit.after lines c.settings.pageSize keys).pager.InRange key) ∧
      CountedPager.visit? .words lines c.settings.pageSize keys =
        CountedPager.visit? .unbounded lines c.settings.pageSize keys ∧
      CountedPager.visit? .words lines c.settings.pageSize keys =
        some (Pager.visit lines c.settings.pageSize keys) := by
  -- a configured page fills less than half a word, and so does the text
  obtain ⟨-, hword⟩ := reachable.pageSize
  have hpage : c.settings.pageSize < 2 ^ 63 := by
    have hmax : Int64.maxValue.toInt = 2 ^ 63 - 1 := by decide
    omega
  have hroomy : (Pager.start lines c.settings.pageSize).Roomy := Pager.roomy_start (by omega) hpage
  have hwords := CountedPager.visit?_eq Counting.faithful_words hroomy keys
  have hunbounded := CountedPager.visit?_eq Counting.faithful_unbounded hroomy keys
  exact ⟨hroomy.inRange .page, (Visit.roomy_after hroomy keys).inRange,
    hwords.trans hunbounded.symm, hwords⟩

/-- Pages of as many lines as a document can say. -/
def largestPages : Overlay where
  pageSize := some (2 ^ 63 - 1)
  stopWord := none
  quoteAwareBars := none
  logLevel := none
  disabled := ⟨false, [], []⟩
  matchDirectories := ⟨false, [], []⟩

/-- Even these pages can be doubled: the way back leads to the top. -/
theorem paging_in_range_largest :
    let c := Config.default.overlay largestPages
    let lines : List Text := [['a'], ['b']]
    c.Reachable ∧ lines.length ≤ (2 ^ 63 - 1) / 24 ∧ c.settings.pageSize = 2 ^ 63 - 1 ∧
      (Visit.after lines c.settings.pageSize [.line]).pager.InRange .back ∧
      CountedPager.visit? .words lines c.settings.pageSize [.line, .back, .quit] =
        some (lines, [some [], some lines, none], 2) := by
  intro c lines
  have hreachable : c.Reachable := by
    refine .overlay .default fun n hn => ?_
    obtain rfl : 2 ^ 63 - 1 = n := Option.some.inj hn
    decide
  have hshort : lines.length ≤ (2 ^ 63 - 1) / 24 := by decide
  obtain ⟨-, -, -, hvisit⟩ := paging_in_range hreachable hshort [.line, .back, .quit]
  obtain ⟨-, hrange, -⟩ := paging_in_range hreachable hshort [.line]
  exact ⟨hreachable, hshort, rfl, hrange .back, hvisit.trans (by decide)⟩

/-- A page of one line more would be doubled to nothing, and there would be no way back. -/
example : CountedPager.visit? .words [['a'], ['b']] (2 ^ 63) [.back] =
    some ([['a'], ['b']], [some []], 2) := by decide

end FileShell
