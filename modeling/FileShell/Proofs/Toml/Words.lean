import FileShell.Toml.Reader

/-! # The integers of a document

Every integer that is read is a signed word of sixty-four bits, wherever it stands (`Value.InWords`): a
number that is none is refused as soon as it is read, and what puts a document together keeps the values
that were read. -/

namespace FileShell.Toml

/-- **A value all of whose integers are signed words**, those inside it included. -/
inductive Value.InWords : Value → Prop
  | text (t : Text) : InWords (.text t)
  | integer {i : Int} (least : Int64.minValue.toInt ≤ i) (greatest : i ≤ Int64.maxValue.toInt) :
    InWords (.integer i)
  | boolean (b : Bool) : InWords (.boolean b)
  | fractional : InWords .fractional
  | moment : InWords .moment
  | array {items : List Value} (each : ∀ v ∈ items, InWords v) : InWords (.array items)
  | table {origin : Origin} {entries : List (Text × Value)} (each : ∀ e ∈ entries, InWords e.2) :
    InWords (.table origin entries)
  | tables {elements : List (List (Text × Value))} (each : ∀ es ∈ elements, ∀ e ∈ es, InWords e.2) :
    InWords (.tables elements)

/-- A table all of whose integers are signed words. -/
def Entries.InWords (es : Entries) : Prop := ∀ e ∈ es, e.2.InWords

/-! ## Values -/

/-- A number that is given is a signed word. -/
theorem inWords_of_word? {i : Int} {v : Value} (h : word? i = some v) : v.InWords := by
  unfold word? at h
  split at h
  · next hrange =>
    cases h
    exact .integer hrange.1 hrange.2
  · cases h

/-- A number in another base is a signed word. -/
theorem inWords_of_basedInteger {base : Nat} {ok : Char → Bool} {t rest : Text} {v : Value}
    (h : basedInteger base ok t = some (v, rest)) : v.InWords := by
  simp only [basedInteger, Option.bind_eq_bind, Option.bind_eq_some_iff] at h
  obtain ⟨digits, -, w, hword, h⟩ := h
  cases h
  exact inWords_of_word? hword

theorem inWords_of_number {t rest : Text} {v : Value} (h : number t = some (v, rest)) :
    v.InWords := by
  rw [number.eq_def] at h
  split at h
  · exact inWords_of_basedInteger h
  · exact inWords_of_basedInteger h
  · exact inWords_of_basedInteger h
  · -- a number with a sign, a fraction or an exponent, or a plain one
    split at h
    split at h
    · cases h
      exact .fractional
    · simp only [Option.bind_eq_bind, Option.bind_eq_some_iff] at h
      obtain ⟨⟨digits, later⟩, -, h⟩ := h
      split at h
      · split at h
        · cases h
        · cases h
          exact .fractional
      · simp only [Option.bind_eq_some_iff] at h
        obtain ⟨w, hword, h⟩ := h
        cases h
        exact inWords_of_word? hword

theorem inWords_of_scalar {t rest : Text} {v : Value} (h : scalar t = some (v, rest)) :
    v.InWords := by
  rw [scalar.eq_def] at h
  split at h
  · cases h
    exact .text _
  · split at h
    · cases h
      exact .boolean true
    · cases h
      exact .boolean false
    · split at h
      · cases h
        exact .moment
      · exact inWords_of_number h

/-! ## Tables -/

namespace Entries

variable {es es' : Entries} {key : Text} {v : Value}

theorem inWords_nil : InWords [] := nofun

/-- The value of a key is one of the table's. -/
theorem InWords.get? (h : es.InWords) (hget : es.get? key = some v) : v.InWords := by
  rw [Entries.get?, List.lookup_eq_some_iff] at hget
  obtain ⟨before, after, rfl, -⟩ := hget
  exact h (key, v) (List.mem_append_right before List.mem_cons_self)

theorem InWords.concat (h : es.InWords) (hv : v.InWords) : InWords (es ++ [(key, v)]) := by
  intro e he
  rcases List.mem_append.1 he with he | he
  · exact h e he
  · obtain rfl := List.mem_singleton.1 he
    exact hv

theorem InWords.put (h : es.InWords) (hv : v.InWords) (key : Text) : (es.put key v).InWords := by
  unfold Entries.put
  split
  · intro e he
    obtain ⟨old, hold, rfl⟩ := List.mem_map.1 he
    split
    · exact hv
    · exact h old hold
  · exact h.concat hv

/-- The tables inside a table. -/
theorem InWords.inner (h : es.InWords) {origin : Origin} {inner : List (Text × Value)}
    (hget : es.get? key = some (.table origin inner)) : InWords inner := by
  cases h.get? hget with
  | table each => exact each

theorem InWords.elements (h : es.InWords) {elements : List (List (Text × Value))}
    (hget : es.get? key = some (.tables elements)) : ∀ inner ∈ elements, InWords inner := by
  cases h.get? hget with
  | tables each => exact each

/-- The last table of a list of tables. -/
theorem inWords_getLast {elements : List Entries} (h : ∀ es ∈ elements, es.InWords) :
    InWords (elements.getLast?.getD []) := by
  rcases hlast : elements.getLast? with _ | last
  · exact inWords_nil
  · exact h last (List.mem_of_getLast? hlast)

/-- A list of tables with another one at its end. -/
theorem inWords_concat {elements : List Entries} (h : ∀ es ∈ elements, es.InWords)
    (hes : es.InWords) : (Value.tables (elements ++ [es])).InWords := by
  refine .tables fun es' hes' => ?_
  rcases List.mem_append.1 hes' with hes' | hes'
  · exact h es' hes'
  · obtain rfl := List.mem_singleton.1 hes'
    exact hes

/-- The last table of a list of tables changed. -/
theorem inWords_dropLast {elements : List Entries} (h : ∀ es ∈ elements, es.InWords)
    (hes : es.InWords) : (Value.tables (elements.dropLast ++ [es])).InWords :=
  inWords_concat (fun es' hes' => h es' ((List.dropLast_sublist elements).subset hes')) hes

/-- **One step on the way**: what is changed below a key takes its place there. -/
theorem InWords.step (h : es.InWords) {below : Option Entries} {wrap : Entries → Value}
    (hwrap : ∀ changed, below = some changed → (wrap changed).InWords)
    (hresult : (do
      let changed ← below
      return es.put key (wrap changed)) = some es') : es'.InWords := by
  simp only [Option.bind_eq_bind, Option.bind_eq_some_iff] at hresult
  obtain ⟨changed, hchanged, hput⟩ := hresult
  cases hput
  exact h.put (hwrap changed hchanged) key

/-- **A value is inserted** among values like it. -/
theorem inWords_insertAt (hv : v.InWords) {path : List Text} (h : es.InWords)
    (hinsert : Entries.insertAt key v path es = some es') : es'.InWords := by
  induction path generalizing es es' with
  | nil =>
    rw [Entries.insertAt] at hinsert
    split at hinsert
    · cases hinsert
    · cases hinsert
      exact h.concat hv
  | cons step path ih =>
    rw [Entries.insertAt] at hinsert
    split at hinsert
    · -- the table is missing and is made
      exact h.step (fun made hmade => .table (ih inWords_nil hmade)) hinsert
    · -- it is dotted
      next inner hget =>
      exact h.step (fun changed hchanged => .table (ih (h.inner hget) hchanged)) hinsert
    · -- it is implied, and may only be passed
      next inner hget =>
      split at hinsert
      · cases hinsert
      · exact h.step (fun changed hchanged => .table (ih (h.inner hget) hchanged)) hinsert
    · -- there are several tables, of which the last one is passed
      next elements hget =>
      split at hinsert
      · cases hinsert
      · have hall := h.elements hget
        exact h.step
          (fun changed hchanged => inWords_dropLast hall (ih (inWords_getLast hall) hchanged))
          hinsert
    · cases hinsert

/-- **A change that keeps to words**, carried out further down. -/
theorem InWords.changeAt {change : Entries → Option Entries}
    (hchange : ∀ es es', es.InWords → change es = some es' → es'.InWords) {path : List Text}
    (h : es.InWords) (hresult : Entries.changeAt change path es = some es') : es'.InWords := by
  induction path generalizing es es' with
  | nil => exact hchange es es' h hresult
  | cons step path ih =>
    rw [Entries.changeAt] at hresult
    split at hresult
    · exact h.step (fun made hmade => .table (ih inWords_nil hmade)) hresult
    · cases hresult
    · next origin inner _ hget =>
      exact h.step (fun changed hchanged => .table (ih (h.inner hget) hchanged)) hresult
    · next elements hget =>
      have hall := h.elements hget
      exact h.step
        (fun changed hchanged => inWords_dropLast hall (ih (inWords_getLast hall) hchanged))
        hresult
    · cases hresult

theorem InWords.openTable (h : es.InWords) (hopen : Entries.openTable key es = some es') :
    es'.InWords := by
  unfold Entries.openTable at hopen
  split at hopen
  · cases hopen
    exact h.put (.table inWords_nil) key
  · next inner hget =>
    cases hopen
    exact h.put (.table (h.inner hget)) key
  · cases hopen

theorem InWords.openElement (h : es.InWords) (hopen : Entries.openElement key es = some es') :
    es'.InWords := by
  unfold Entries.openElement at hopen
  split at hopen
  · cases hopen
    exact h.put (.tables (List.forall_mem_singleton.2 inWords_nil)) key
  · next elements hget =>
    cases hopen
    exact h.put (inWords_concat (h.elements hget) inWords_nil) key
  · cases hopen

end Entries

/-! ## Documents -/

/-- Inserting a value keeps a document to words. -/
theorem Document.inWords_insert {d d' : Document} {path : List Text} {v : Value}
    (h : d.root.InWords) (hv : v.InWords) (hinsert : d.insert path v = some d') :
    d'.root.InWords := by
  simp only [insert, Option.bind_eq_bind, Option.bind_eq_some_iff] at hinsert
  obtain ⟨key, -, root, hroot, hd⟩ := hinsert
  cases hd
  exact h.changeAt (fun _ _ hes => Entries.inWords_insertAt hv hes) hroot

/-- So does a header. -/
theorem Document.inWords_openWith {d d' : Document} {path : List Text}
    {change : Text → Entries → Option Entries}
    (hchange : ∀ key es es', es.InWords → change key es = some es' → es'.InWords)
    (h : d.root.InWords) (hopen : d.openWith change path = some d') : d'.root.InWords := by
  simp only [openWith, Option.bind_eq_bind, Option.bind_eq_some_iff] at hopen
  obtain ⟨key, -, root, hroot, hd⟩ := hopen
  cases hd
  exact h.changeAt (hchange key) hroot

/-- And so do values inserted one after another. -/
theorem Document.inWords_foldlM_insert {d d' : Document} {pairs : List (List Text × Value)}
    (h : d.root.InWords) (hpairs : ∀ p ∈ pairs, p.2.InWords)
    (hfold : pairs.foldlM (fun d pair => d.insert pair.1 pair.2) d = some d') :
    d'.root.InWords := by
  induction pairs generalizing d with
  | nil =>
    cases hfold
    exact h
  | cons p pairs ih =>
    rw [List.foldlM_cons, Option.bind_eq_bind, Option.bind_eq_some_iff] at hfold
    obtain ⟨next, hinsert, hrest⟩ := hfold
    have hnext := inWords_insert h (hpairs p List.mem_cons_self) hinsert
    exact ih hnext (fun q hq => hpairs q (List.mem_cons_of_mem p hq)) hrest

/-- An inline table has the values of its keys. -/
theorem inWords_inlineTable {pairs : List (List Text × Value)} (h : ∀ p ∈ pairs, p.2.InWords)
    {v : Value} (htable : inlineTable pairs = some v) : v.InWords := by
  simp only [inlineTable, Option.bind_eq_bind, Option.bind_eq_some_iff] at htable
  obtain ⟨d, hd, htable⟩ := htable
  cases htable
  exact .table (Document.inWords_foldlM_insert (d := .empty) Entries.inWords_nil h hd)

/-- **What is read with a bound has words for integers.** -/
structure ReadsWords (bound : Nat) : Prop where
  /-- Values have. -/
  value : ∀ {room t v rest}, Toml.value bound room t = some (v, rest) → v.InWords
  /-- The items of an array have. -/
  items : ∀ {room t items rest}, arrayItems bound room t = some (items, rest) →
    ∀ v ∈ items, v.InWords
  /-- The values of an inline table have. -/
  pairs : ∀ {room t pairs rest}, inlinePairs bound room t = some (pairs, rest) →
    ∀ p ∈ pairs, p.2.InWords

namespace ReadsWords

variable {bound room : Nat} {t rest : Text}

theorem value_succ (ih : ReadsWords bound) {v : Value}
    (h : Toml.value (bound + 1) room t = some (v, rest)) : v.InWords := by
  rw [value.eq_def] at h
  split at h
  case h_3 n inside later heq =>
    obtain rfl := Nat.succ.inj heq
    simp only [Option.bind_eq_bind, Option.bind_eq_some_iff] at h
    obtain ⟨⟨items, after⟩, hitems, h⟩ := h
    cases h
    exact .array (ih.items hitems)
  case h_5 n inside later heq =>
    obtain rfl := Nat.succ.inj heq
    split at h
    · cases h
      exact .table Entries.inWords_nil
    · simp only [Option.bind_eq_bind, Option.bind_eq_some_iff] at h
      obtain ⟨⟨pairs, after⟩, hpairs, w, htable, h⟩ := h
      cases h
      exact inWords_inlineTable (ih.pairs hpairs) htable
  case h_6 => exact inWords_of_scalar h
  all_goals cases h

theorem items_succ (ih : ReadsWords bound) {items : List Value}
    (h : arrayItems (bound + 1) room t = some (items, rest)) : ∀ v ∈ items, v.InWords := by
  rw [arrayItems.eq_def] at h
  split at h
  case h_1 => cases h
  case h_2 =>
    cases h
    exact nofun
  case h_3 inside heq _ =>
    obtain rfl := Nat.succ.inj heq
    simp only [Option.bind_eq_bind, Option.bind_eq_some_iff] at h
    obtain ⟨⟨item, after⟩, hitem, h⟩ := h
    have hfirst := ih.value hitem
    split at h
    · simp only [Option.bind_eq_some_iff] at h
      obtain ⟨⟨others, after⟩, hothers, h⟩ := h
      cases h
      exact List.forall_mem_cons.2 ⟨hfirst, ih.items hothers⟩
    · cases h
      exact List.forall_mem_singleton.2 hfirst
    · cases h

theorem pairs_succ (ih : ReadsWords bound) {pairs : List (List Text × Value)}
    (h : inlinePairs (bound + 1) room t = some (pairs, rest)) : ∀ p ∈ pairs, p.2.InWords := by
  rw [inlinePairs.eq_def] at h
  split at h
  case h_1 => cases h
  case h_2 n inside text heq =>
    obtain rfl := Nat.succ.inj heq
    simp only [Option.bind_eq_bind, Option.bind_eq_some_iff] at h
    obtain ⟨⟨path, after⟩, -, behind, -, ⟨v, after⟩, hvalue, h⟩ := h
    have hfirst := ih.value hvalue
    split at h
    · simp only [Option.bind_eq_some_iff] at h
      obtain ⟨⟨others, after⟩, hothers, h⟩ := h
      cases h
      exact List.forall_mem_cons.2 ⟨hfirst, ih.pairs hothers⟩
    · cases h
      exact List.forall_mem_singleton.2 hfirst
    · cases h

end ReadsWords

/-- **This holds for every bound**, since each of the three readers calls the others with a bound that
is one less. -/
theorem readsWords (bound : Nat) : ReadsWords bound := by
  induction bound with
  | zero => exact ⟨nofun, nofun, nofun⟩
  | succ bound ih => exact ⟨ih.value_succ, ih.items_succ, ih.pairs_succ⟩

/-! ## Whole documents -/

/-- One line keeps a document to words. -/
theorem inWords_documentLine {bound : Nat} {d d' : Document} {t rest : Text} (h : d.root.InWords)
    (hline : documentLine bound d t = some (d', rest)) : d'.root.InWords := by
  rw [documentLine.eq_def] at hline
  split at hline
  · simp only [Option.bind_eq_bind, Option.bind_eq_some_iff] at hline
    obtain ⟨⟨path, after⟩, -, next, hopen, closed, -, behind, -, hd⟩ := hline
    cases hd
    exact Document.inWords_openWith (fun _ _ _ hes => hes.openElement) h hopen
  · simp only [Option.bind_eq_bind, Option.bind_eq_some_iff] at hline
    obtain ⟨⟨path, after⟩, -, next, hopen, closed, -, hd⟩ := hline
    cases hd
    exact Document.inWords_openWith (fun _ _ _ hes => hes.openTable) h hopen
  · split at hline
    · cases hline
      exact h
    · simp only [keyLine, Option.bind_eq_bind, Option.bind_eq_some_iff] at hline
      obtain ⟨⟨path, after⟩, -, behind, -, ⟨v, after⟩, hvalue, next, hinsert, hd⟩ := hline
      cases hd
      exact Document.inWords_insert h ((readsWords bound).value hvalue) hinsert

theorem inWords_documentLines {bound : Nat} {d d' : Document} {t : Text} (h : d.root.InWords)
    (hlines : documentLines bound d t = some d') : d'.root.InWords := by
  induction bound generalizing d t with
  | zero => cases hlines
  | succ bound ih =>
    simp only [documentLines, Option.bind_eq_bind, Option.bind_eq_some_iff] at hlines
    obtain ⟨⟨next, after⟩, hline, rest, -, hrest⟩ := hlines
    have hnext := inWords_documentLine h hline
    split at hrest
    · cases hrest
      exact hnext
    · exact ih hnext hrest

/-- **All integers of a document are signed words.** -/
theorem inWords_of_read? {t : Text} {es : Entries} (h : read? t = some es) : es.InWords := by
  simp only [read?, Option.map_eq_some_iff] at h
  obtain ⟨d, hlines, rfl⟩ := h
  exact inWords_documentLines Entries.inWords_nil hlines

end FileShell.Toml
