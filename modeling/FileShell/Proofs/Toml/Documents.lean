import FileShell.Proofs.Toml.Values

/-! # Documents read back line by line

A line that is written, be it a header, a key with its value or an empty one, takes a document that is
being read to the next one, whatever text follows (`ReadsLines`). Lines put together do what they do
one after another (`ReadsLines.append`), so a whole document is read by what its lines do to an empty
one (`read?_of_readsLines`). A line here is one of the document: its value may run over several. -/

namespace FileShell.Toml

/-! ## Keys -/

/-- **A key that needs no quotes.** -/
def IsBareKey (key : Text) : Prop := key ≠ [] ∧ ∀ c ∈ key, isBare c = true

instance (key : Text) : Decidable (IsBareKey key) :=
  decidable_of_iff (key ≠ [] ∧ key.all isBare = true) (and_congr_right fun _ => List.all_eq_true)

variable {key rest : Text}

/-- A bare key is not empty. -/
theorem IsBareKey.head (h : IsBareKey key) : ∃ c more, key = c :: more ∧ isBare c = true := by
  obtain ⟨hne, hbare⟩ := h
  match key with
  | [] => exact absurd rfl hne
  | c :: more => exact ⟨c, more, rfl, hbare c List.mem_cons_self⟩

/-- There are no spaces in front of a bare key. -/
theorem IsBareKey.skipSpace (h : IsBareKey key) (rest : Text) :
    skipSpace (key ++ rest) = key ++ rest := by
  obtain ⟨c, more, rfl, hc⟩ := h.head
  have hspace : isSpace c = false := by
    simp [isSpace, ne_of_kind hc (d := ' ') rfl, ne_of_kind hc (d := '\t') rfl]
  simp [Toml.skipSpace, hspace]

/-- A bare key ends where a character that is not bare follows. -/
theorem IsBareKey.simpleKey (h : IsBareKey key) (hrest : ∃ c more, rest = c :: more ∧
    isBare c = false) : simpleKey (key ++ rest) = some (key, rest) := by
  obtain ⟨d, later, rfl, hd⟩ := hrest
  obtain ⟨c, more, hkey, hc⟩ := h.head
  have htake : (key ++ d :: later).takeWhile isBare = key := by
    rw [List.takeWhile_append_of_pos h.2, List.takeWhile_cons_of_neg (by simp [hd]),
      List.append_nil]
  have hdrop : (key ++ d :: later).dropWhile isBare = d :: later := by
    rw [List.dropWhile_append_of_pos h.2, List.dropWhile_cons_of_neg (by simp [hd])]
  rw [Toml.simpleKey.eq_def]
  split
  case h_1 heq =>
    rw [hkey] at heq
    exact absurd (List.cons.inj heq).1 (ne_of_kind hc rfl)
  case h_2 heq =>
    rw [hkey] at heq
    exact absurd (List.cons.inj heq).1 (ne_of_kind hc rfl)
  case h_3 =>
    simp only [htake, hdrop]
    rw [hkey]
    rfl

/-- **A bare key without dots is the whole path.** -/
theorem IsBareKey.keyPath (h : IsBareKey key) (hrest : ∃ c more, rest = c :: more ∧
    isBare c = false) (hdot : (Toml.skipSpace rest).head? ≠ some '.') (bound : Nat) :
    keyPath (bound + 1) (key ++ rest) = some ([key], Toml.skipSpace rest) := by
  have hkeys : dottedKeys (bound + 1) (key ++ rest) = some ([key], Toml.skipSpace rest) := by
    rw [dottedKeys, h.skipSpace, h.simpleKey hrest]
    simp only [Option.bind_eq_bind, Option.bind_some]
    split
    · next heq => exact absurd (congrArg List.head? heq) hdot
    · rfl
  rw [Toml.keyPath, hkeys]
  rfl

/-! ## Lines -/

variable {d d' : Document}

/-- **Some lines take one document to another**: whatever is read from there, the lines and the rest of
the text are read as, with every bound that is large enough. -/
def ReadsLines (t : Text) (d d' : Document) : Prop :=
  ∀ rest result, (∀ bound, rest.length < bound → documentLines bound d' rest = result) →
    ∀ bound, (t ++ rest).length < bound → documentLines bound d (t ++ rest) = result

/-- Lines after lines. -/
theorem ReadsLines.append {t t' : Text} {d'' : Document} (h : ReadsLines t d d')
    (h' : ReadsLines t' d' d'') : ReadsLines (t ++ t') d d'' := by
  intro rest result hrest bound hbound
  rw [List.append_assoc] at hbound ⊢
  exact h (t' ++ rest) result (h' rest result hrest) bound hbound

/-- One line, from what it does to a document. -/
theorem readsLines_of_documentLine {line : Text}
    (hflush : ∀ rest, skipSpace (line ++ '\n' :: rest) = line ++ '\n' :: rest)
    (h : ∀ bound rest, line.length < bound →
      documentLine bound d (line ++ '\n' :: rest) = some (d', '\n' :: rest)) :
    ReadsLines (line ++ ['\n']) d d' := by
  intro rest result hrest bound hbound
  rw [List.append_assoc] at hbound ⊢
  change (line ++ '\n' :: rest).length < bound at hbound
  show documentLines bound d (line ++ '\n' :: rest) = result
  rw [List.length_append, List.length_cons] at hbound
  obtain ⟨bound, rfl⟩ := Nat.exists_eq_add_one_of_ne_zero (Nat.ne_zero_of_lt hbound)
  rw [documentLines, hflush, h (bound + 1) rest (by omega)]
  show (if rest.isEmpty then some d' else documentLines bound d' rest) = result
  split
  · next hempty =>
    -- the last line of the text: nothing is left to be read
    rw [List.isEmpty_iff] at hempty
    subst hempty
    exact hrest 1 Nat.one_pos
  · exact hrest bound (by omega)

/-- **An empty line** changes nothing. -/
theorem readsLines_blank (d : Document) : ReadsLines ['\n'] d d := by
  show ReadsLines ([] ++ ['\n']) d d
  exact readsLines_of_documentLine (fun _ => rfl) fun _ _ _ => rfl

/-- **A header** opens its table. -/
theorem readsLines_header (hkey : IsBareKey key)
    (hopen : d.openWith Entries.openTable [key] = some d') : ReadsLines (headerLine key) d d' := by
  have hline : headerLine key = '[' :: key ++ [']'] ++ ['\n'] := by
    rw [List.append_assoc]
    rfl
  rw [hline]
  refine readsLines_of_documentLine (fun _ => rfl) fun bound rest hbound => ?_
  obtain ⟨bound, rfl⟩ := Nat.exists_eq_add_one_of_ne_zero (Nat.ne_zero_of_lt hbound)
  have htext : '[' :: key ++ [']'] ++ '\n' :: rest = '[' :: (key ++ ']' :: '\n' :: rest) := by simp
  have hpath : keyPath (bound + 1) (key ++ ']' :: '\n' :: rest) =
      some ([key], ']' :: '\n' :: rest) :=
    hkey.keyPath ⟨']', _, rfl, rfl⟩ (show some ']' ≠ some '.' by decide) bound
  rw [htext, documentLine.eq_def]
  split
  case h_1 later heq =>
    -- a second bracket would belong to the key
    obtain ⟨c, more, rfl, hc⟩ := hkey.head
    exact absurd (List.cons.inj (List.cons.inj heq).2).1 (ne_of_kind hc rfl)
  case h_2 later _ heq =>
    rw [← (List.cons.inj heq).2, hpath]
    show (d.openWith Entries.openTable [key] >>= _) = _
    rw [hopen]
    rfl
  case h_3 hno => exact absurd rfl (hno _)

/-- **A key with its value** is inserted. -/
theorem readsLines_keyValue (hkey : IsBareKey key) {t : Text} {v : Value} (hvalue : ReadsAs t v)
    (hinsert : d.insert [key] v = some d') : ReadsLines (keyValueLine key t) d d' := by
  refine readsLines_of_documentLine (fun rest => ?_) fun bound rest hbound => ?_
  · rw [List.append_assoc, List.append_assoc]
    exact hkey.skipSpace _
  · obtain ⟨bound, rfl⟩ := Nat.exists_eq_add_one_of_ne_zero (Nat.ne_zero_of_lt hbound)
    rw [List.length_append] at hbound
    have htext : key ++ " = ".toList ++ t ++ '\n' :: rest =
        key ++ ' ' :: '=' :: ' ' :: (t ++ '\n' :: rest) := by
      rw [List.append_assoc, List.append_assoc]
      rfl
    have hpath : keyPath (bound + 1) (key ++ ' ' :: '=' :: ' ' :: (t ++ '\n' :: rest)) =
        some ([key], '=' :: ' ' :: (t ++ '\n' :: rest)) := by
      refine hkey.keyPath ⟨' ', _, rfl, rfl⟩ ?_ bound
      show some '=' ≠ some '.'
      decide
    have hvalueText : skipSpace (' ' :: (t ++ '\n' :: rest)) = t ++ '\n' :: rest := by
      obtain ⟨c, u, rfl, hc⟩ := hvalue.flush
      show skipSpace (c :: (u ++ '\n' :: rest)) = _
      simp [skipSpace, hc]
    have hread : keyLine (bound + 1) d (key ++ ' ' :: '=' :: ' ' :: (t ++ '\n' :: rest)) =
        some (d', '\n' :: rest) := by
      rw [keyLine, hpath]
      show (value (bound + 1) maxDepth (skipSpace (' ' :: (t ++ '\n' :: rest))) >>= _) = _
      rw [hvalueText, hvalue.read (bound + 1) maxDepth rest (by omega) (by decide)]
      show (d.insert [key] v >>= _) = _
      rw [hinsert]
      rfl
    -- the key begins neither a header nor a comment, and the line is not empty
    obtain ⟨c, more, hhead, hbare⟩ := hkey.head
    have hother : ¬((key ++ ' ' :: '=' :: ' ' :: (t ++ '\n' :: rest)).isEmpty ∨
        (key ++ ' ' :: '=' :: ' ' :: (t ++ '\n' :: rest)).head? = some '#' ∨
        (newline? (key ++ ' ' :: '=' :: ' ' :: (t ++ '\n' :: rest))).isSome) := by
      rw [newline?_eq_none]
      · simp [hhead, ne_of_kind hbare (d := '#') rfl]
      · simp [hhead, ne_of_kind hbare (d := '\n') rfl]
      · simp [hhead, ne_of_kind hbare (d := '\r') rfl]
    rw [htext, documentLine.eq_def]
    split
    case h_1 heq =>
      rw [hhead] at heq
      exact absurd (List.cons.inj heq).1 (ne_of_kind hbare rfl)
    case h_2 heq =>
      rw [hhead] at heq
      exact absurd (List.cons.inj heq).1 (ne_of_kind hbare rfl)
    case h_3 =>
      rw [if_neg hother]
      exact hread

/-! ## Tables -/

variable {es inner : Entries}

/-- A key that is last of all is found there. -/
theorem get?_concat (h : es.get? key = none) (v : Value) :
    Entries.get? (es ++ [(key, v)]) key = some v := by
  rw [Entries.get?] at h ⊢
  rw [List.lookup_append, h]
  simp

/-- Another value for a key that is last of all. -/
theorem put_concat (h : es.get? key = none) (v w : Value) :
    Entries.put (es ++ [(key, v)]) key w = es ++ [(key, w)] := by
  have hold : es.map (fun entry => if entry.1 = key then (key, w) else entry) = es := by
    rw [Entries.get?, List.lookup_eq_none_iff] at h
    have hother : ∀ entry ∈ es, (if entry.1 = key then (key, w) else entry) = entry := by
      intro entry hentry
      have hne : entry.1 ≠ key := fun heq => by simpa [heq] using h entry hentry
      rw [if_neg hne]
    rw [List.map_congr_left hother, List.map_id']
  rw [Entries.put, get?_concat h, Option.isSome_some, if_pos rfl, Entries.replace, List.map_append,
    hold]
  simp

/-- A new table is opened at the end. -/
theorem openWith_new (h : es.get? key = none) (current : List Text) :
    Document.openWith ⟨es, current⟩ Entries.openTable [key] =
      some ⟨es ++ [(key, .table .header [])], [key]⟩ := by
  show ((Entries.openTable key es).bind fun root => some (Document.mk root [key])) = _
  rw [Entries.openTable, h, Entries.put, h]
  rfl

/-- A new key goes to the end of the table that is open. -/
theorem insert_new (h : es.get? key = none) {k : Text} (hk : inner.get? k = none) (v : Value) :
    Document.insert ⟨es ++ [(key, .table .header inner)], [key]⟩ [k] v =
      some ⟨es ++ [(key, .table .header (inner ++ [(k, v)]))], [key]⟩ := by
  have hinner : Entries.insertAt k v [] inner = some (inner ++ [(k, v)]) := by
    rw [Entries.insertAt, hk]
    rfl
  show ((Entries.changeAt (Entries.insertAt k v []) [key]
    (es ++ [(key, .table .header inner)])).bind fun root => some (Document.mk root [key])) = _
  rw [Entries.changeAt, get?_concat h]
  show (((Entries.insertAt k v [] inner).bind fun changed => some (Entries.put
    (es ++ [(key, .table .header inner)]) key (.table .header changed))).bind _) = _
  rw [hinner, Option.bind_some, put_concat h]
  rfl

/-- **A field of a table**: its key, what is written for its value, and the value. -/
structure KeyValue where
  key : Text
  written : Text
  value : Value

/-- A field is written on a line of its own. -/
def KeyValue.line (f : KeyValue) : Text := keyValueLine f.key f.written

/-- What is read from a field. -/
def KeyValue.entry (f : KeyValue) : Text × Value := (f.key, f.value)

/-- A field with a bare key and a value that is read back. -/
structure KeyValue.Readable (f : KeyValue) : Prop where
  key : IsBareKey f.key
  value : ReadsAs f.written f.value

/-- The fields of the table that is open, after those that it has. -/
theorem readsLines_fields (h : es.get? key = none) (fields : List KeyValue)
    (hreadable : ∀ f ∈ fields, f.Readable)
    (hkeys : (inner.map Prod.fst ++ fields.map KeyValue.key).Nodup) :
    ReadsLines (fields.flatMap KeyValue.line) ⟨es ++ [(key, .table .header inner)], [key]⟩
      ⟨es ++ [(key, .table .header (inner ++ fields.map KeyValue.entry))], [key]⟩ := by
  induction fields generalizing inner with
  | nil =>
    rw [List.map_nil, List.append_nil]
    exact fun rest result hrest => hrest
  | cons f fields ih =>
    obtain ⟨hkey, hvalue⟩ := hreadable f List.mem_cons_self
    rw [List.map_cons, List.append_cons] at hkeys
    have hnew : inner.get? f.key = none := by
      have hapart := (List.nodup_append.1 (List.nodup_append.1 hkeys).1).2.2
      rw [Entries.get?, List.lookup_eq_none_iff]
      intro entry hentry
      have hne := hapart entry.1 (List.mem_map_of_mem hentry) f.key List.mem_cons_self
      simpa using Ne.symm hne
    have hline := readsLines_keyValue hkey hvalue (insert_new h hnew f.value)
    have hrest := ih (fun g hg => hreadable g (List.mem_cons_of_mem f hg))
      (show ((inner ++ [(f.key, f.value)]).map Prod.fst ++ _).Nodup by
        rw [List.map_append]
        exact hkeys)
    have hboth := hline.append hrest
    rw [List.append_assoc] at hboth
    exact hboth

/-- **A new table is read**, with all its fields. -/
theorem readsLines_table (hkey : IsBareKey key) (h : es.get? key = none) (current : List Text)
    (fields : List KeyValue) (hreadable : ∀ f ∈ fields, f.Readable)
    (hkeys : (fields.map KeyValue.key).Nodup) :
    ReadsLines (headerLine key ++ fields.flatMap KeyValue.line) ⟨es, current⟩
      ⟨es ++ [(key, .table .header (fields.map KeyValue.entry))], [key]⟩ :=
  (readsLines_header hkey (openWith_new h current)).append
    (readsLines_fields h fields hreadable hkeys)

/-! ## Documents -/

/-- **A document is read by what its lines do to an empty one.** -/
theorem read?_of_readsLines {t : Text} (h : ReadsLines t .empty d)
    (hmark : t.head? ≠ some byteOrderMark) : read? t = some d.root := by
  have hlines := h [] (some d) (fun bound hbound => by
    obtain ⟨bound, rfl⟩ := Nat.exists_eq_add_one_of_ne_zero (Nat.ne_zero_of_lt hbound)
    rfl) (t.length + 1) (by simp)
  rw [List.append_nil] at hlines
  simp only [read?, if_neg hmark, hlines, Option.map_some]

end FileShell.Toml
