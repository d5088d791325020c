import FileShell.Proofs.Settings.Overlays
import FileShell.Proofs.Toml.Documents
import FileShell.Proofs.Toml.Words
import FileShell.Program.Basic
import FileShell.Settings.Document

/-! # Configurations read back

A configuration that can be reached from the default by overlays has a page of at least one line, and
of no more lines than a document can say. So it can be written, its document holds all six of its values
(`Config.read?_text`), and what is read from that, as a configuration or as an overlay, is the
configuration again.

* **`Config.Reachable`** — the configurations that overlays can bring about.
* **`Config.text_reads_back`** — they are read back from what is written for them.
* **`Launch.dumpConfig_reads_back`** — a user's configuration is one of them, so that it can always be
  written out. -/

namespace FileShell

open Toml

/-! ## The document of a configuration -/

/-- The single values, field by field. -/
def Settings.fields (s : Settings) : List KeyValue :=
  [⟨"page_size".toList, Text.ofNat s.pageSize, .integer s.pageSize⟩,
    ⟨"cat_sentinel".toList, writeString s.stopWord, .text s.stopWord⟩,
    ⟨"quote_aware_pipes".toList, writeBoolean s.quoteAwareBars, .boolean s.quoteAwareBars⟩,
    ⟨"log_level".toList, writeString s.logLevel, .text s.logLevel⟩]

/-- A list, as the one field of its table. -/
def listField (key : Text) (ts : List Text) : KeyValue := ⟨key, writeList ts, .array (ts.map .text)⟩

/-- **The tables of a configuration**, as they are read. -/
def Config.entries (c : Config) : Entries :=
  [("settings".toList, .table .header (c.settings.fields.map KeyValue.entry)),
    ("commands".toList, .table .header [("disabled".toList, .array (c.disabled.map .text))]),
    ("wildcard".toList,
      .table .header [("include_directories".toList, .array (c.matchDirectories.map .text))])]

theorem Settings.readable_fields {s : Settings} (hpos : 1 ≤ s.pageSize)
    (hword : (s.pageSize : Int) ≤ Int64.maxValue.toInt) : ∀ f ∈ s.fields, f.Readable := by
  intro f hf
  simp only [fields, List.mem_cons, List.not_mem_nil, or_false] at hf
  rcases hf with rfl | rfl | rfl | rfl
  · exact ⟨show IsBareKey "page_size".toList by decide, readsAs_number hpos hword⟩
  · exact ⟨show IsBareKey "cat_sentinel".toList by decide, readsAs_string _⟩
  · exact ⟨show IsBareKey "quote_aware_pipes".toList by decide, readsAs_boolean _⟩
  · exact ⟨show IsBareKey "log_level".toList by decide, readsAs_string _⟩

/-- No key is given twice. -/
theorem Settings.nodup_fields (s : Settings) : (s.fields.map KeyValue.key).Nodup := by
  show settingsKeys.Nodup
  decide

/-- A table with one list is read. -/
theorem readsLines_list {es : Entries} {key item : Text} (hkey : IsBareKey key)
    (hitem : IsBareKey item) (h : es.get? key = none) (current : List Text) (ts : List Text) :
    ReadsLines (headerLine key ++ keyValueLine item (writeList ts)) ⟨es, current⟩
      ⟨es ++ [(key, .table .header [(item, .array (ts.map .text))])], [key]⟩ := by
  have htable := readsLines_table hkey h current [listField item ts]
    (by
      intro f hf
      obtain rfl := List.mem_singleton.1 hf
      exact ⟨hitem, readsAs_list ts⟩)
    (by simp)
  rwa [List.flatMap_singleton] at htable

/-- **All six values are read** from what is written for a configuration. -/
theorem Config.read?_text {c : Config} (hpos : 1 ≤ c.settings.pageSize)
    (hword : (c.settings.pageSize : Int) ≤ Int64.maxValue.toInt) :
    read? c.text = some c.entries := by
  -- three tables, one after another, with an empty line between them
  have hsettings : ReadsLines (headerLine "settings".toList ++ c.settings.fields.flatMap KeyValue.line)
      .empty ⟨c.entries.take 1, ["settings".toList]⟩ :=
    readsLines_table (by decide) rfl [] c.settings.fields
      (Settings.readable_fields hpos hword) c.settings.nodup_fields
  have hcommands : ReadsLines
      (headerLine "commands".toList ++ keyValueLine "disabled".toList (writeList c.disabled))
      ⟨c.entries.take 1, ["settings".toList]⟩ ⟨c.entries.take 2, ["commands".toList]⟩ :=
    readsLines_list (by decide) (by decide) (by rfl) _ c.disabled
  have hwildcard : ReadsLines (headerLine "wildcard".toList ++
        keyValueLine "include_directories".toList (writeList c.matchDirectories))
      ⟨c.entries.take 2, ["commands".toList]⟩ ⟨c.entries, ["wildcard".toList]⟩ :=
    readsLines_list (by decide) (by decide) (by rfl) _ c.matchDirectories
  have hlines := hsettings.append ((readsLines_blank _).append
    (hcommands.append ((readsLines_blank _).append hwildcard)))
  have htext : c.text = headerLine "settings".toList ++ c.settings.fields.flatMap KeyValue.line ++
      (['\n'] ++ (headerLine "commands".toList ++
        keyValueLine "disabled".toList (writeList c.disabled) ++ (['\n'] ++
          (headerLine "wildcard".toList ++
            keyValueLine "include_directories".toList (writeList c.matchDirectories))))) := by
    simp only [Config.text, Settings.text, Settings.fields, List.flatMap_cons, List.flatMap_nil,
      KeyValue.line, List.append_assoc, List.cons_append, List.nil_append, List.append_nil]
  rw [htext]
  exact read?_of_readsLines hlines (by show some '[' ≠ some byteOrderMark; decide)

/-! ## What is read from it -/

theorem texts?_array (ts : List Text) : Value.texts? (.array (ts.map .text)) = some ts := by
  show (ts.map Value.text).mapM Value.text? = some ts
  induction ts with
  | nil => rfl
  | cons t ts ih =>
    rw [List.map_cons, List.mapM_cons, ih]
    rfl

/-- A value that is there is read by its type. -/
theorem orElse_some {α : Type} {read : Value → Option α} {v : Value} {a : α} (h : read v = some a)
    (default : α) : orElse read default (some v) = some a := by
  show (((read v).map some).map _) = _
  rw [h]
  rfl

/-- The single values come from the table `settings`. -/
theorem readSettings_entries (c : Config) :
    readSettings (c.entries.get? "settings".toList) =
      some (some c.settings.pageSize, some c.settings.stopWord, some c.settings.quoteAwareBars,
        some c.settings.logLevel) := by
  have hpage : Value.natural? (.integer c.settings.pageSize) = some c.settings.pageSize := by
    simp [Value.natural?]
  show (((Value.natural? (.integer c.settings.pageSize)).map some).bind fun pageSize => _) = _
  rw [hpage]
  rfl

/-- **Read as a configuration**, the document gives the configuration. -/
theorem Config.ofText?_text {c : Config} (h : read? c.text = some c.entries) :
    Config.ofText? c.text = some c := by
  have hdisabled : readList "disabled".toList (c.entries.get? "commands".toList) =
      some c.disabled := orElse_some (texts?_array c.disabled) []
  have hmatch : readList "include_directories".toList (c.entries.get? "wildcard".toList) =
      some c.matchDirectories := orElse_some (texts?_array c.matchDirectories) []
  simp only [Config.ofText?, h, Option.bind_eq_bind, Option.bind_some, readSettings_entries,
    hdisabled, hmatch]
  rfl

/-- **A configuration as an overlay**: all values are given, and the items of the lists are added. -/
def Config.asOverlay (c : Config) : Overlay where
  pageSize := c.settings.pageSize
  stopWord := c.settings.stopWord
  quoteAwareBars := c.settings.quoteAwareBars
  logLevel := c.settings.logLevel
  disabled := ⟨false, c.disabled, []⟩
  matchDirectories := ⟨false, c.matchDirectories, []⟩

/-- **Read as an overlay**, the document gives the configuration as an overlay. -/
theorem Overlay.ofText?_text {c : Config} (h : read? c.text = some c.entries) :
    Overlay.ofText? c.text = some c.asOverlay := by
  have hchange {add : Option Value} {ts : List Text} (hadd : orElse Value.texts? [] add = some ts) :
      (orElse Value.texts? [] add).bind (fun add => some (ListChange.mk false add [])) =
        some ⟨false, ts, []⟩ := by
    rw [hadd]
    rfl
  have hdisabled : readListChange commandsKeys (c.entries.get? "commands".toList) =
      some ⟨false, c.disabled, []⟩ := hchange (orElse_some (texts?_array c.disabled) [])
  have hmatch : readListChange wildcardKeys (c.entries.get? "wildcard".toList) =
      some ⟨false, c.matchDirectories, []⟩ := hchange (orElse_some (texts?_array _) [])
  simp only [Overlay.ofText?, h, Option.bind_eq_bind, Option.bind_some, readSettings_entries,
    hdisabled, hmatch]
  rfl

/-- A configuration laid over itself is that configuration. -/
theorem Config.overlay_asOverlay {c : Config} (hpos : 1 ≤ c.settings.pageSize) :
    c.overlay c.asOverlay = c := by
  have hpage : max c.settings.pageSize 1 = c.settings.pageSize := Nat.max_eq_left hpos
  simp only [Config.overlay, Config.asOverlay, ListChange.apply_self, Option.map_some,
    Option.getD_some, hpage]

/-! ## Reachable configurations -/

/-- **A page that a document can say**: TOML has no larger integers. -/
def Overlay.Admitted (o : Overlay) : Prop :=
  ∀ n, o.pageSize = some n → (n : Int) ≤ Int64.maxValue.toInt

/-- A natural number is read from a signed word only if it is no larger than one. -/
theorem natural?_le {v : Value} {n : Nat} (hv : v.InWords) (h : v.natural? = some n) :
    (n : Int) ≤ Int64.maxValue.toInt := by
  cases hv with
  | @integer i least greatest =>
    simp only [Value.natural?] at h
    split at h
    · cases h
      omega
    · cases h
  | _ => cases h

/-- The values of a table have signed words for integers if the table has. -/
theorem inWords_of_fields? {v w : Value} {keys : List Text} {ws : List (Option Value)}
    (hv : v.InWords) (h : v.fields? keys = some ws) (hw : some w ∈ ws) : w.InWords := by
  cases hv with
  | @table origin entries each =>
    cases h
    obtain ⟨key, -, hget⟩ := List.mem_map.1 hw
    exact Entries.InWords.get? each hget
  | @array items each =>
    cases h
    obtain ⟨i, -, hget⟩ := List.mem_map.1 hw
    exact each w (List.mem_of_getElem? hget)
  | @tables elements each =>
    cases h
    obtain ⟨i, -, hget⟩ := List.mem_map.1 hw
    obtain ⟨entries, hentries, rfl⟩ := Option.map_eq_some_iff.1 hget
    exact .table (each entries (List.mem_of_getElem? hentries))
  | moment =>
    cases h
    obtain ⟨key, -, hnone⟩ := List.mem_map.1 hw
    cases hnone
  | _ => cases h

/-- A page that is read is one of the values in the table. -/
theorem exists_of_readSettings {v : Option Value} {n : Nat}
    {others : Option Text × Option Bool × Option Text}
    (h : readSettings v = some (some n, others)) :
    ∃ table ws w, v = some table ∧ table.fields? settingsKeys = some ws ∧ some w ∈ ws ∧
      w.natural? = some n := by
  rcases v with _ | table
  · cases h
  simp only [readSettings, Option.bind_eq_bind, Option.bind_eq_some_iff] at h
  obtain ⟨ws, hws, h⟩ := h
  split at h
  · next page stopWord quoteAware logLevel =>
    simp only [Option.bind_none, Option.ite_none_left_eq_some, Option.bind_eq_some_iff] at h
    obtain ⟨-, number, hnumber, stop, -, quote, -, log, -, hvalues⟩ := h
    obtain rfl : number = some n := (Prod.mk.inj (Option.some.inj hvalues)).1
    rcases page with _ | w
    · cases hnumber
    · have hw : w.natural? = some n := by simpa [Toml.optional] using hnumber
      exact ⟨table, _, w, rfl, hws, List.mem_cons_self, hw⟩
  · cases h

/-- **An overlay that is read has such a page**, or none. -/
theorem Overlay.admitted_of_ofText? {t : Text} {o : Overlay} (h : Overlay.ofText? t = some o) :
    o.Admitted := by
  intro n hn
  simp only [Overlay.ofText?, Option.bind_eq_bind, Option.bind_eq_some_iff] at h
  obtain ⟨root, hread, ⟨pageSize, others⟩, hsettings, disabled, -, matchDirectories, -, ho⟩ := h
  cases ho
  obtain rfl : pageSize = some n := hn
  obtain ⟨table, ws, w, htable, hws, hw, hnatural⟩ := exists_of_readSettings hsettings
  have hinside := (inWords_of_read? hread).get? htable
  exact natural?_le (inWords_of_fields? hinside hws hw) hnatural

/-- **The configurations that overlays can bring about**, one after another, from the default. -/
inductive Config.Reachable : Config → Prop
  /-- Nothing is configured. -/
  | default : Reachable .default
  /-- A user's settings are laid over what there is. -/
  | overlay {c : Config} {o : Overlay} (below : Reachable c) (admitted : o.Admitted) :
    Reachable (c.overlay o)

/-- A reachable page has a line, and a document can say how many it has. -/
theorem Config.Reachable.pageSize {c : Config} (h : c.Reachable) :
    1 ≤ c.settings.pageSize ∧ (c.settings.pageSize : Int) ≤ Int64.maxValue.toInt := by
  induction h with
  | default => decide
  | @overlay c o below admitted ih =>
    show 1 ≤ (o.pageSize.map (max · 1)).getD c.settings.pageSize ∧
      ((o.pageSize.map (max · 1)).getD c.settings.pageSize : Int) ≤ _
    rcases hpage : o.pageSize with _ | n
    · exact ih
    · have hword := admitted n hpage
      have hone : (1 : Int) ≤ Int64.maxValue.toInt := by decide
      show 1 ≤ max n 1 ∧ ((max n 1 : Nat) : Int) ≤ _
      omega

/-- **A configuration is read back from what is written for it.** It can be written; read as a
configuration, the document gives it in all of its values; and read as an overlay and laid over it, the
document changes nothing. -/
theorem Config.text_reads_back {c : Config} (h : c.Reachable) :
    ∃ t, c.text? = some t ∧ Config.ofText? t = some c ∧
      ∃ o, Overlay.ofText? t = some o ∧ c.overlay o = c := by
  obtain ⟨hpos, hword⟩ := h.pageSize
  have hread := Config.read?_text hpos hword
  refine ⟨c.text, if_pos hword, Config.ofText?_text hread, c.asOverlay, ?_, ?_⟩
  · exact Overlay.ofText?_text hread
  · exact Config.overlay_asOverlay hpos

/-- Settings with no page to speak of, and with names that hold quotes, backslashes, newlines and
control characters. -/
def unusualOverlay : Overlay where
  pageSize := some 0
  stopWord := some ['"', '"', '"', '\'', '\\', '\n', '\r']
  quoteAwareBars := some false
  logLevel := some []
  disabled := ⟨true, [['\'', '"'], ['\x00', '\x7f'], ['\'', '"']], []⟩
  matchDirectories := ⟨false, [['"', '"', '"', '\'', '\'', '\'', '\n']], ["ls".toList]⟩

/-- Such settings are read back, too. -/
theorem text_reads_back_unusual :
    (Config.default.overlay unusualOverlay).Reachable ∧
      ∃ t, (Config.default.overlay unusualOverlay).text? = some t ∧
        Config.ofText? t = some (Config.default.overlay unusualOverlay) ∧
        ∃ o, Overlay.ofText? t = some o ∧ (Config.default.overlay unusualOverlay).overlay o =
          Config.default.overlay unusualOverlay := by
  have hreachable : (Config.default.overlay unusualOverlay).Reachable := by
    refine .overlay .default fun n hn => ?_
    obtain rfl : 0 = n := Option.some.inj hn
    decide
  exact ⟨hreachable, Config.text_reads_back hreachable⟩

/-! ## The user's own configuration -/

/-- **The configuration of a user is reachable**, whatever the settings hold. -/
theorem reachable_loadConfig (t : Tree) (home : Path) : (loadConfig t home).1.Reachable := by
  unfold loadConfig
  split
  · exact .default
  · split
    · next overlay hread => exact .overlay .default (Overlay.admitted_of_ofText? hread)
    · exact .default

/-- **A run that writes the configuration out succeeds**, and what it writes is read back as the
configuration of the user. -/
theorem Launch.dumpConfig_reads_back (p : Launch) (warning : Text) :
    (p.dumpConfig (loadConfig p.tree p.home).1 warning).code = 0 ∧
      Config.ofText? (p.dumpConfig (loadConfig p.tree p.home).1 warning).output =
        some (loadConfig p.tree p.home).1 := by
  obtain ⟨hpos, hword⟩ := (reachable_loadConfig p.tree p.home).pageSize
  have htext : (loadConfig p.tree p.home).1.text? = some (loadConfig p.tree p.home).1.text :=
    if_pos hword
  rw [dumpConfig, htext]
  exact ⟨rfl, Config.ofText?_text (Config.read?_text hpos hword)⟩

end FileShell
