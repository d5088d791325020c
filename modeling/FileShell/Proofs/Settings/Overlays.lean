import FileShell.Settings.Overlay
import Mathlib.Data.List.Induction
import Mathlib.Data.List.Nodup

/-! # What overlays make of a configuration

A change to a list first takes items away and then adds those that are missing, so an item that is
both removed and added is there afterwards, at the end. Membership after a change is settled by the
change and by membership before it (`mem_apply`), and the order of the items by one equation
(`apply_of_merge`).

* **`ListChange.kept`** — the old items that a change leaves in the list.
* **`ListChange.Admits`**, **`ListChange.Extends`** — which names a change lets into a list, and in
  which order they stand there.
* **`overlay_determines`** — names, order, single values and repetition, for whole overlays. -/

namespace FileShell

namespace ListChange

variable {c : ListChange} {items add : List Text} {item name : Text}

/-! ## Items added one by one -/

/-- An item is added at the end of a list or it is there already. -/
theorem mem_addNew : name ∈ addNew items item ↔ name ∈ items ∨ name = item := by
  unfold addNew
  split
  · next hmem =>
    have hitem : item ∈ items := by simpa using hmem
    constructor
    · intro h
      exact .inl h
    · rintro (h | rfl)
      · exact h
      · exact hitem
  · simp

/-- **Items added one by one** are those that were there and those that were added. -/
theorem mem_foldl_addNew : name ∈ add.foldl addNew items ↔ name ∈ items ∨ name ∈ add := by
  induction add generalizing items with
  | nil => simp
  | cons item rest ih => rw [List.foldl_cons, ih, mem_addNew, List.mem_cons, or_assoc]

/-- Adding what is missing repeats nothing. -/
theorem nodup_foldl_addNew (h : items.Nodup) : (add.foldl addNew items).Nodup := by
  induction add generalizing items with
  | nil => exact h
  | cons item rest ih =>
    apply ih
    unfold addNew
    split
    · exact h
    · next hmem =>
      have hnew : item ∉ items := by simpa using hmem
      rw [← List.concat_eq_append, List.nodup_concat]
      exact ⟨hnew, h⟩

/-- **Items added one by one stand at the end**, in the order in which each of them comes first;
those that were there already are left out. -/
theorem foldl_addNew_eq (items add : List Text) :
    add.foldl addNew items = items ++ add.eraseDups.filter fun item => !items.contains item := by
  -- the last item decides whether it is added, by what has been added before it
  induction add using List.reverseRecOn with
  | nil => simp
  | append_singleton add item ih =>
    have hmem : item ∈ add.foldl addNew items ↔ item ∈ items ∨ item ∈ add := mem_foldl_addNew
    rw [List.foldl_concat, addNew, List.eraseDups_append, List.filter_append, ← List.append_assoc,
      ← ih]
    by_cases hadd : item ∈ add
    · have hthere : (add.foldl addNew items).contains item = true := by simp [hmem, hadd]
      have hagain : [item].removeAll add = [] := by simp [List.removeAll, hadd]
      rw [if_pos hthere, hagain]
      simp
    · have hfirst : [item].removeAll add = [item] := by simp [List.removeAll, hadd]
      rw [hfirst]
      by_cases hitem : item ∈ items
      · have hthere : (add.foldl addNew items).contains item = true := by simp [hmem, hitem]
        rw [if_pos hthere]
        simp [hitem, List.eraseDups_cons]
      · have hthere : ¬(add.foldl addNew items).contains item = true := by simp [hmem, hitem, hadd]
        rw [if_neg hthere]
        simp [hitem, List.eraseDups_cons]

/-- Items that are all there already change nothing. -/
theorem foldl_addNew_of_forall_mem (h : ∀ item ∈ add, item ∈ items) :
    add.foldl addNew items = items := by
  have hnone : add.eraseDups.filter (fun item => !items.contains item) = [] := by
    rw [List.filter_eq_nil_iff]
    intro item hitem
    simpa using h item (List.mem_eraseDups.1 hitem)
  rw [foldl_addNew_eq, hnone, List.append_nil]

/-! ## One change -/

/-- **The old items that a change leaves in the list**, unless it replaces them all. -/
def kept (c : ListChange) (items : List Text) : List Text :=
  items.filter fun item => !c.remove.contains item

/-- What is kept was there and is not removed. -/
@[simp] theorem mem_kept : name ∈ c.kept items ↔ name ∈ items ∧ name ∉ c.remove := by simp [kept]

/-- A change that replaces all items leaves only its own. -/
theorem apply_of_replace (h : c.replace = true) (items : List Text) : c.apply items = c.add := by
  rw [apply, if_pos h]

/-- **Otherwise what is kept comes first**, in its order, and then what is new, in the order in which
each item comes first. -/
theorem apply_of_merge (h : c.replace = false) (items : List Text) :
    c.apply items =
      c.kept items ++ c.add.eraseDups.filter fun item => !(c.kept items).contains item := by
  have hmerge : ¬c.replace = true := by simp [h]
  rw [apply, if_neg hmerge]
  exact foldl_addNew_eq (c.kept items) c.add

/-- **Whether a change lets a name into the list**, if it is known whether it was there before. -/
def Admits (c : ListChange) (name : Text) (before : Prop) : Prop :=
  (c.replace = true ∧ name ∈ c.add) ∨
    (c.replace = false ∧ (name ∈ c.add ∨ before ∧ name ∉ c.remove))

/-- **The names after a change** are those that it lets in. -/
theorem mem_apply : name ∈ c.apply items ↔ c.Admits name (name ∈ items) := by
  unfold Admits
  cases hreplace : c.replace with
  | true => simp [apply_of_replace hreplace]
  | false =>
    rw [apply_of_merge hreplace]
    by_cases hold : name ∈ items <;> by_cases hremove : name ∈ c.remove <;> simp [hold, hremove]

/-- A name that is let in is let in again, and no other one is. -/
theorem admits_again {before : Prop} :
    c.Admits name (c.Admits name before) ↔ c.Admits name before := by
  unfold Admits
  cases c.replace <;> by_cases hadd : name ∈ c.add <;> by_cases hremove : name ∈ c.remove <;>
    simp [hadd, hremove]

/-- **A list extended by a change**: what is kept comes first, then what is new, each item where it
comes first among those added; and no item is repeated that was not repeated before. -/
structure Extends (c : ListChange) (items after : List Text) : Prop where
  /-- The order of the items. -/
  order : after = c.kept items ++ c.add.eraseDups.filter fun item => !(c.kept items).contains item
  /-- Nothing is added twice. -/
  nodup : items.Nodup → after.Nodup

/-- **A change that does not replace the items extends them.** -/
theorem extends_apply (h : c.replace = false) (items : List Text) :
    c.Extends items (c.apply items) := by
  have hmerge : ¬c.replace = true := by simp [h]
  refine ⟨apply_of_merge h items, fun hitems => ?_⟩
  rw [apply, if_neg hmerge]
  exact nodup_foldl_addNew (hitems.filter _)

/-- **A list changed into itself**: nothing is removed, and all that is added is there. -/
theorem apply_self (items : List Text) : ListChange.apply ⟨false, items, []⟩ items = items := by
  have hkept : (items.filter fun item => !([] : List Text).contains item) = items := by simp
  change items.foldl addNew (items.filter fun item => !([] : List Text).contains item) = items
  rw [hkept]
  exact foldl_addNew_of_forall_mem fun item h => h

end ListChange

namespace Config

variable {c : Config} {o : Overlay} {name : Text}

/-! ## Whole overlays -/

/-- A command is switched off if its name is in the list. -/
theorem isDisabled_iff : c.isDisabled name = true ↔ name ∈ c.disabled := by simp [isDisabled]

/-- Wildcards match directories too if the command's name is in the list. -/
theorem matchScope_eq_everything_iff :
    c.matchScope name = .everything ↔ name ∈ c.matchDirectories := by
  unfold matchScope
  split <;> simp_all

/-- Two configurations with the same names in the list agree on what wildcards match. -/
theorem matchScope_congr {c' : Config}
    (h : name ∈ c'.matchDirectories ↔ name ∈ c.matchDirectories) :
    c'.matchScope name = c.matchScope name := by
  simp [matchScope, h]

/-- **A page has a line at least**, however many overlays were laid over the configuration. -/
theorem one_le_pageSize_foldl_overlay (os : List Overlay) (h : 1 ≤ c.settings.pageSize) :
    1 ≤ (os.foldl overlay c).settings.pageSize := by
  induction os generalizing c with
  | nil => exact h
  | cons o rest ih =>
    apply ih
    -- a page that is given has been raised to one line, and otherwise the old one stays
    change 1 ≤ (o.pageSize.map (max · 1)).getD c.settings.pageSize
    cases o.pageSize with
    | none => exact h
    | some n => exact Nat.le_max_right n 1

/-- The single values are the same when an overlay is laid over them again. -/
theorem settings_overlay_overlay (c : Config) (o : Overlay) :
    ((c.overlay o).overlay o).settings = (c.overlay o).settings := by
  unfold overlay
  cases o.pageSize <;> cases o.stopWord <;> cases o.quoteAwareBars <;> cases o.logLevel <;> rfl

/-- **What an overlay makes of a configuration.** It decides for every name, from whether the name
was there before, whether the command is switched off, and whether its wildcards match directories.
Lists that are not replaced keep what is not removed in its order and go on with what is new, each
item where it comes first, and they repeat nothing that they did not repeat before. A single value
that is given takes the place of the old one, a page of no lines as a page of one line, and the old
one stays if none is given. However many overlays follow upon each other, a page has a line at
least; and an overlay laid over a configuration twice decides as it does once. -/
theorem overlay_determines (c : Config) (o : Overlay) :
    ((∀ name, (c.overlay o).isDisabled name = true ↔
        o.disabled.Admits name (c.isDisabled name = true)) ∧
      ∀ name, (c.overlay o).matchScope name = .everything ↔
        o.matchDirectories.Admits name (c.matchScope name = .everything)) ∧
    ((o.disabled.replace = false → o.disabled.Extends c.disabled (c.overlay o).disabled) ∧
      (o.matchDirectories.replace = false →
        o.matchDirectories.Extends c.matchDirectories (c.overlay o).matchDirectories)) ∧
    (c.overlay o).settings =
      { pageSize := match o.pageSize with
          | some n => max n 1
          | none => c.settings.pageSize
        stopWord := o.stopWord.getD c.settings.stopWord
        quoteAwareBars := o.quoteAwareBars.getD c.settings.quoteAwareBars
        logLevel := o.logLevel.getD c.settings.logLevel } ∧
    (∀ os : List Overlay, 1 ≤ (os.foldl overlay .default).settings.pageSize) ∧
    (∀ name, ((c.overlay o).overlay o).isDisabled name = (c.overlay o).isDisabled name ∧
      ((c.overlay o).overlay o).matchScope name = (c.overlay o).matchScope name) ∧
    ((c.overlay o).overlay o).settings = (c.overlay o).settings := by
  have htwice : ∀ (l : ListChange) (items : List Text) (name : Text),
      name ∈ l.apply (l.apply items) ↔ name ∈ l.apply items := by
    intro l items name
    rw [ListChange.mem_apply, ListChange.mem_apply, ListChange.admits_again]
  refine ⟨⟨fun name => ?_, fun name => ?_⟩, ⟨fun hmerge => ?_, fun hmerge => ?_⟩, ?_, fun os => ?_,
    fun name => ⟨?_, ?_⟩, ?_⟩
  · rw [isDisabled_iff, isDisabled_iff]
    exact ListChange.mem_apply
  · rw [matchScope_eq_everything_iff, matchScope_eq_everything_iff]
    exact ListChange.mem_apply
  · exact ListChange.extends_apply hmerge c.disabled
  · exact ListChange.extends_apply hmerge c.matchDirectories
  · unfold overlay
    cases o.pageSize <;> rfl
  · exact one_le_pageSize_foldl_overlay os (by decide)
  · rw [Bool.eq_iff_iff, isDisabled_iff, isDisabled_iff]
    exact htwice o.disabled c.disabled name
  · exact matchScope_congr (htwice o.matchDirectories c.matchDirectories name)
  · exact settings_overlay_overlay c o

/-- An item that is removed and added moves to the end each time, so that the order changes when an
overlay is laid over a list again. -/
example :
    let change : ListChange := ⟨false, [['a'], ['c']], [['a']]⟩
    change.apply [['a'], ['b']] = [['b'], ['a'], ['c']] ∧
      change.apply [['b'], ['a'], ['c']] = [['b'], ['c'], ['a']] := by decide

end Config

end FileShell
