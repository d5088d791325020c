import FileShell.Path.Basic
import FileShell.Text.Order

/-! # Trees of entries

A tree says what stands at each **location**, a list of names from the root down. An entry is a
directory, a file with its bytes, or a link with the text of its target; the root is always a
directory.

* **`t.get? l`** — the entry at a location, links not followed; everything else about a tree is
  stated through it.
* **`t.set l e`**, **`t.erase l`**, **`t.emptied l`** — the three ways to change a tree, each
  with its equations. -/

namespace FileShell

/-- A place in a tree: the names from the root down. -/
abbrev Location := List Text

/-- **What stands at a location.** -/
inductive Entry
  /-- A directory; its entries are those one name further down. -/
  | directory
  /-- A file with its bytes. -/
  | file (content : ByteArray)
  /-- A link with the text of its target. -/
  | link (target : Text)

/-- Whether an entry is a directory. -/
def Entry.isDirectory : Entry → Bool
  | .directory => true
  | .file _ | .link _ => false

/-- Whether an entry is a file. -/
def Entry.isFile : Entry → Bool
  | .file _ => true
  | .directory | .link _ => false

/-- **A tree**: the entries below the root. Where a location occurs twice, the first one counts. -/
structure Tree where
  /-- The entries with their locations. -/
  entries : List (Location × Entry)

namespace Tree

/-- A root directory with nothing in it. -/
def empty : Tree := ⟨[]⟩

/-- **The entry at a location**, links not followed. -/
def get? (t : Tree) (l : Location) : Option Entry :=
  if l = [] then some .directory else t.entries.lookup l

@[simp] theorem get?_root (t : Tree) : t.get? [] = some .directory := rfl

/-! ## Changes -/

/-- An entry put at a location, in place of what was there. -/
def set (t : Tree) (l : Location) (e : Entry) : Tree := ⟨(l, e) :: t.entries.filter (·.1 ≠ l)⟩

/-- A location's entry taken away. -/
def erase (t : Tree) (l : Location) : Tree := ⟨t.entries.filter (·.1 ≠ l)⟩

/-- Whether a location lies below another one, which is given first. -/
def liesBelow (l m : Location) : Bool := l.isPrefixOf m && m ≠ l

/-- All that lies below a location taken away. -/
def emptied (t : Tree) (l : Location) : Tree := ⟨t.entries.filter (!liesBelow l ·.1)⟩

/-- Looking up after a filter on locations: a location that passes keeps its entry, any other has
none. -/
theorem lookup_filter (keep : Location → Bool) (entries : List (Location × Entry)) (l : Location) :
    (entries.filter (keep ·.1)).lookup l = if keep l then entries.lookup l else none := by
  induction entries with
  | nil => simp
  | cons hd rest ih =>
    obtain ⟨k, e⟩ := hd
    by_cases hl : l = k
    · subst hl
      cases hk : keep l <;> simp [hk, ih]
    · have hb : (l == k) = false := by simpa using hl
      cases hk : keep k <;> simp [hk, ih, List.lookup_cons, hb]

@[simp] theorem get?_set_self (t : Tree) {l : Location} (e : Entry) (h : l ≠ []) :
    (t.set l e).get? l = some e := by simp [get?, set, h]

@[simp] theorem get?_set_ne (t : Tree) {l m : Location} (e : Entry) (h : m ≠ l) :
    (t.set l e).get? m = t.get? m := by
  have hb : (m == l) = false := by simpa using h
  have hf := lookup_filter (fun k => !decide (k = l)) t.entries m
  simp only [get?, set, List.lookup_cons, hb]
  simp only [h, decide_false, Bool.not_false, if_true] at hf
  simp only [ne_eq, decide_not, hf]

@[simp] theorem get?_erase_self (t : Tree) {l : Location} (h : l ≠ []) :
    (t.erase l).get? l = none := by
  have hf := lookup_filter (fun k => !decide (k = l)) t.entries l
  simp only [decide_true, Bool.not_true, Bool.false_eq_true, if_false] at hf
  simp only [get?, erase, h, if_false, ne_eq, decide_not, hf]

@[simp] theorem get?_erase_ne (t : Tree) {l m : Location} (h : m ≠ l) :
    (t.erase l).get? m = t.get? m := by
  have hf := lookup_filter (fun k => !decide (k = l)) t.entries m
  simp only [h, decide_false, Bool.not_false, if_true] at hf
  simp only [get?, erase, ne_eq, decide_not, hf]

/-- Emptying a location leaves exactly the entries that do not lie below it. -/
theorem get?_emptied (t : Tree) (l : Location) {m : Location} (h : m ≠ []) :
    (t.emptied l).get? m = if liesBelow l m then none else t.get? m := by
  have hf := lookup_filter (fun k => !liesBelow l k) t.entries m
  simp only [get?, emptied, h, if_false, hf]
  cases liesBelow l m <;> simp

/-! ## Listings -/

/-- **The names directly below a location**, each of them once and in the order of texts. -/
def namesBelow (t : Tree) (l : Location) : List Text :=
  Text.sortBy id <| List.eraseDups <| t.entries.filterMap fun entry =>
    if entry.1.dropLast = l then entry.1.getLast? else none

/-- **All entries below the root with their paths**, in the order of the paths' texts. -/
def listing (t : Tree) : List (Path × Entry) :=
  Text.sortBy (·.1.text) <| t.entries.map fun entry => (Path.ofNames entry.1, entry.2)

end Tree

end FileShell
