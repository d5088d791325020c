import FileShell.Command.Registry
import FileShell.Proofs.Text.Sorting
import Mathlib.Data.List.Nodup

/-! # What the registry knows

Registering a command adds its name to the map or to the names that are switched off, and to nothing
else (`Registry.mem_specs_register`, `Registry.mem_disabled_register`). So after all built-in
commands were registered each of them stands in one of the two places, as the configuration says,
and looking a word up finds out which (`Config.lookUp_cases`). The catalogue lists what the map
holds, in the strict order of names. -/

namespace FileShell

/-- No two commands have one name. -/
theorem Command.name_injective : Function.Injective Command.name := by
  intro command other h
  have hfound : ofName? command.name = ofName? other.name := by rw [h]
  simpa using hfound

namespace Registry

variable {c : Config} {r : Registry} {command : Command} {commands : List Command}
  {entry : Text × Command} {w : Text}

/-! ## One command -/

/-- **A map with each command under its name**, and no name twice. -/
structure Keyed (r : Registry) : Prop where
  named : ∀ entry ∈ r.specs, entry.1 = entry.2.name
  nodup : (r.specs.map Prod.fst).Nodup

/-- Nothing is in the registry at first. -/
theorem keyed_empty : empty.Keyed := ⟨List.forall_mem_nil _, .nil⟩

/-- **A command put into the map** is added to it; what gives way is the command itself. -/
theorem mem_specs_insert (h : r.Keyed) :
    entry ∈ (r.insert command).specs ↔ entry ∈ r.specs ∨ entry = (command.name, command) := by
  simp only [insert, List.mem_cons, List.mem_filter, decide_eq_true_eq]
  constructor
  · rintro (rfl | ⟨hmem, -⟩)
    · exact .inr rfl
    · exact .inl hmem
  · rintro (hmem | rfl)
    · by_cases hname : entry.1 = command.name
      · have hcommand : entry.2 = command :=
          Command.name_injective ((h.named entry hmem).symm.trans hname)
        exact .inl (Prod.ext hname hcommand)
      · exact .inr ⟨hmem, hname⟩
    · exact .inl rfl

/-- The map stays one. -/
theorem Keyed.insert (h : r.Keyed) (command : Command) : (r.insert command).Keyed where
  named := by
    intro entry hmem
    rcases (mem_specs_insert h).1 hmem with hmem | rfl
    · exact h.named entry hmem
    · rfl
  nodup := by
    have hothers : ((r.specs.filter (·.1 ≠ command.name)).map Prod.fst).Nodup :=
      h.nodup.sublist (List.filter_sublist.map Prod.fst)
    refine List.nodup_cons.2 ⟨fun hmem => ?_, hothers⟩
    obtain ⟨entry, hentry, hname⟩ := List.mem_map.1 hmem
    exact of_decide_eq_true (List.mem_filter.1 hentry).2 hname

/-- Registering a command keeps the map one. -/
theorem Keyed.register (h : r.Keyed) (c : Config) (command : Command) :
    (register c r command).Keyed := by
  rw [Registry.register]
  split
  · exact h.insert command
  · exact ⟨h.named, h.nodup⟩

/-- **A command that is registered goes into the map** if it can be called. -/
theorem mem_specs_register (h : r.Keyed) :
    entry ∈ (register c r command).specs ↔
      entry ∈ r.specs ∨ c.enables command = true ∧ entry = (command.name, command) := by
  rw [register]
  split
  · next on => simp [mem_specs_insert h, on]
  · next off => simp [off]

/-- **Otherwise its name is kept** among those that are switched off. -/
theorem mem_disabled_register :
    w ∈ (register c r command).disabled ↔
      w ∈ r.disabled ∨ c.enables command = false ∧ command.name = w := by
  rw [register]
  split
  · next on => simp [insert, on]
  · next off => simp [off, eq_comm]

/-! ## All of them -/

/-- **Commands registered one after the other**: the map holds those that can be called besides what
it held, and the names of the others are kept. -/
theorem foldl_register (h : r.Keyed) :
    (commands.foldl (register c) r).Keyed ∧
      (∀ entry, entry ∈ (commands.foldl (register c) r).specs ↔
        entry ∈ r.specs ∨ ∃ command ∈ commands, c.enables command = true ∧
          entry = (command.name, command)) ∧
      ∀ w, w ∈ (commands.foldl (register c) r).disabled ↔
        w ∈ r.disabled ∨ ∃ command ∈ commands, c.enables command = false ∧ command.name = w := by
  induction commands generalizing r with
  | nil => simpa using h
  | cons command rest ih =>
    obtain ⟨hkeyed, hspecs, hdisabled⟩ := ih (h.register c command)
    refine ⟨hkeyed, fun entry => ?_, fun w => ?_⟩
    · rw [List.foldl_cons, hspecs, mem_specs_register h, List.exists_mem_cons_iff, or_assoc]
    · rw [List.foldl_cons, hdisabled, mem_disabled_register, List.exists_mem_cons_iff, or_assoc]

/-- The registry of a configuration has a map. -/
theorem keyed_ofConfig (c : Config) : (ofConfig c).Keyed := (foldl_register keyed_empty).1

/-- **The map of a configuration** holds the commands that can be called. -/
theorem mem_specs_ofConfig : (w, command) ∈ (ofConfig c).specs ↔
    command.name = w ∧ c.enables command = true := by
  rw [ofConfig, (foldl_register keyed_empty).2.1]
  constructor
  · rintro (hmem | ⟨other, -, on, heq⟩)
    · cases hmem
    · cases heq
      exact ⟨rfl, on⟩
  · rintro ⟨rfl, on⟩
    exact .inr ⟨command, Command.mem_builtIn command, on, rfl⟩

/-- **The names that are switched off** are those of the other commands. -/
theorem mem_disabled_ofConfig : w ∈ (ofConfig c).disabled ↔
    ∃ command : Command, command.name = w ∧ c.enables command = false := by
  rw [ofConfig, (foldl_register keyed_empty).2.2]
  constructor
  · rintro (hmem | ⟨command, -, off, hname⟩)
    · cases hmem
    · exact ⟨command, hname, off⟩
  · rintro ⟨command, hname, off⟩
    exact .inr ⟨command, Command.mem_builtIn command, off, hname⟩

/-- A word is found in the map if a command stands there under it. -/
theorem lookup_eq_some (h : r.Keyed) :
    r.specs.lookup w = some command ↔ (w, command) ∈ r.specs := by
  constructor
  · intro hfound
    obtain ⟨before, after, hspecs, -⟩ := List.lookup_eq_some_iff.1 hfound
    rw [hspecs]
    exact List.mem_append_right _ List.mem_cons_self
  · intro hmem
    rcases hfound : r.specs.lookup w with _ | other
    · simpa using List.lookup_eq_none_iff.1 hfound _ hmem
    · obtain ⟨before, after, hspecs, -⟩ := List.lookup_eq_some_iff.1 hfound
      have hother : (w, other) ∈ r.specs := by
        rw [hspecs]
        exact List.mem_append_right _ List.mem_cons_self
      have hname : other.name = command.name :=
        (h.named _ hother).symm.trans (h.named _ hmem)
      rw [Command.name_injective hname]

end Registry

namespace Config

variable {c : Config} {command : Command} {kept : List Command} {w : Text}

/-! ## Looking words up -/

/-- **Looking a word up** gives the command of that name if it can be called; otherwise the word is
refused, for a command that is switched off or for none at all. -/
theorem lookUp_cases (c : Config) (w : Text) :
    (∃ command, c.lookUp w = .ok command ∧ command.name = w ∧ c.enables command = true) ∨
      (∃ command : Command, c.lookUp w = .error (.disabledCommand w) ∧ command.name = w ∧
        c.enables command = false) ∨
      c.lookUp w = .error (.unknownCommand w) ∧ ∀ command : Command, command.name ≠ w := by
  rw [lookUp, Registry.lookUp]
  split
  · next command hfound =>
    rw [Registry.lookup_eq_some (Registry.keyed_ofConfig c), Registry.mem_specs_ofConfig] at hfound
    exact .inl ⟨command, rfl, hfound⟩
  · next hmissing =>
    split
    · next off =>
      obtain ⟨command, hcommand⟩ := Registry.mem_disabled_ofConfig.1 (List.contains_iff_mem.1 off)
      exact .inr (.inl ⟨command, rfl, hcommand⟩)
    · next on =>
      refine .inr (.inr ⟨rfl, fun command hname => ?_⟩)
      -- a command of this name would stand in one of the two places
      cases henables : c.enables command with
      | true =>
        have hfound := (Registry.lookup_eq_some (Registry.keyed_ofConfig c)).2
          (Registry.mem_specs_ofConfig.2 ⟨hname, henables⟩)
        rw [hmissing] at hfound
        cases hfound
      | false =>
        exact on (List.contains_iff_mem.2
          (Registry.mem_disabled_ofConfig.2 ⟨command, hname, henables⟩))

/-- A name is of use if a command has it that is not switched off. -/
theorem lookUp_eq_ok : c.lookUp w = .ok command ↔ command.name = w ∧ c.enables command = true := by
  constructor
  · intro h
    rcases c.lookUp_cases w with ⟨found, hfound, hcommand⟩ | ⟨_, hoff, -⟩ | ⟨hunknown, -⟩
    · rw [hfound] at h
      cases h
      exact hcommand
    · rw [hoff] at h
      cases h
    · rw [hunknown] at h
      cases h
  · rintro ⟨rfl, on⟩
    rcases c.lookUp_cases command.name with ⟨found, hfound, hname, -⟩ | ⟨other, _, hname, off⟩ |
      ⟨-, unknown⟩
    · rw [hfound, Command.name_injective hname]
    · rw [Command.name_injective hname, on] at off
      cases off
    · exact absurd rfl (unknown command)

/-- A word that is looked up in vain is refused as switched off or as unknown. -/
theorem lookUp_eq_error {cause : ArgumentError} (h : c.lookUp w = .error cause) :
    cause = .disabledCommand w ∨ cause = .unknownCommand w := by
  rcases c.lookUp_cases w with ⟨_, hfound, -⟩ | ⟨_, hoff, -⟩ | ⟨hunknown, -⟩
  · rw [hfound] at h
    cases h
  · rw [hoff] at h
    cases h
    exact .inl rfl
  · rw [hunknown] at h
    cases h
    exact .inr rfl

/-! ## The catalogue -/

/-- The catalogue holds what is in the map. -/
theorem catalogue_perm (c : Config) :
    c.catalogue.Perm ((Registry.ofConfig c).specs.map Prod.snd) := Text.sortBy_perm _ _

/-- **A command is in the catalogue if and only if it can be called.** -/
@[simp] theorem mem_catalogue : command ∈ c.catalogue ↔ c.enables command = true := by
  rw [c.catalogue_perm.mem_iff, List.mem_map]
  constructor
  · rintro ⟨⟨w, _⟩, hmem, rfl⟩
    exact (Registry.mem_specs_ofConfig.1 hmem).2
  · intro on
    exact ⟨(command.name, command), Registry.mem_specs_ofConfig.2 ⟨rfl, on⟩, rfl⟩

/-- **No name stands in the catalogue twice.** -/
theorem nodup_catalogue (c : Config) : (c.catalogue.map Command.name).Nodup := by
  have hkeyed := Registry.keyed_ofConfig c
  have hnames : ((Registry.ofConfig c).specs.map Prod.snd).map Command.name =
      (Registry.ofConfig c).specs.map Prod.fst := by
    rw [List.map_map]
    exact List.map_congr_left fun entry hmem => (hkeyed.named entry hmem).symm
  rw [(c.catalogue_perm.map Command.name).nodup_iff, hnames]
  exact hkeyed.nodup

/-- **The catalogue stands in the strict order of names.** -/
theorem pairwise_catalogue (c : Config) : c.catalogue.Pairwise (·.name < ·.name) :=
  (Text.pairwise_sortBy Command.name _).imp₂ (fun _ _ hle hne => lt_of_le_of_ne hle hne)
    (List.pairwise_map.1 c.nodup_catalogue)

/-- **The catalogue is what the commands that are left are sorted into**, in whatever order they are
kept. -/
theorem sortBy_eq_catalogue (nodup : kept.Nodup)
    (left : ∀ command, command ∈ kept ↔ c.enables command = true) :
    Text.sortBy Command.name kept = c.catalogue := by
  -- the same commands are in both, and in neither twice
  have hperm : kept.Perm c.catalogue :=
    (List.perm_ext_iff_of_nodup nodup (.of_map Command.name c.nodup_catalogue)).2
      fun command => by rw [left, mem_catalogue]
  exact Text.sortBy_eq_of_perm Command.name_injective hperm
    (c.pairwise_catalogue.imp le_of_lt)

end Config

end FileShell
