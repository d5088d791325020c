import FileShell.Proofs.Command.Binding
import FileShell.Proofs.Command.Transfer
import FileShell.Proofs.Volume.Linkless

/-! # What a move keeps

On a volume without links a move first copies and then removes what it copied. While it copies,
every path holds either what it held at first or what one of the copied sources held at first
(`Copies`); while it removes, nothing but copied sources goes (`removeEach_contents`). So the
contents of the sources are kept unless two of them with different contents go to one target
(`transfer_mv_kept`). -/

namespace FileShell

/-! ## Sources and targets -/

/-- A path that a run reads or writes. -/
def Involved (sources : List Path) (target : Path → Path) (p : Path) : Prop :=
  p ∈ sources ∨ ∃ source ∈ sources, p = target source

/-- **What holds of the sources and targets of a call** before it runs. -/
structure Planned (t : Tree) (sources : List Path) (target : Path → Path) : Prop where
  /-- There are no links. -/
  linkless : t.Linkless
  /-- All paths are normal. -/
  normal : ∀ p, Involved sources target p → p.IsNormal
  /-- A source that is the target of a file is its own target. -/
  settled : ∀ p ∈ sources, ∀ q ∈ sources, ∀ c, t.contents? q = some c → target q = p → target p = p

variable {t : Tree} {sources done : List Path} {target : Path → Path} {v : Volume}

/-! ## Copying -/

/-- **What the sources that were copied have made of a volume**, compared with the tree before the
run. -/
structure Copies (t : Tree) (sources : List Path) (target : Path → Path) (done : List Path)
    (v : Volume) : Prop where
  /-- Every path leads where it led. -/
  ways : Tree.SameWays t v.tree
  /-- No path has come to lead to the log. -/
  log : ∀ p, Involved sources target p → v.LogElsewhere p
  /-- What was copied are sources that held something and are not their own targets. -/
  copied : ∀ p ∈ done, p ∈ sources ∧ target p ≠ p ∧ ∃ c, t.contents? p = some c
  /-- A path holds what one of the copied sources held that it is the target of; if there is none,
  it holds what it held itself. -/
  contents : ∀ p, Involved sources target p →
    (∃ source ∈ done, target source = p ∧ v.tree.contents? p = t.contents? source) ∨
      (∀ source ∈ done, target source ≠ p) ∧ v.tree.contents? p = t.contents? p

/-- Nothing has been copied at first. -/
theorem Copies.start (log : ∀ p, Involved sources target p → v.LogElsewhere p) :
    Copies v.tree sources target [] v where
  ways := .refl v.tree
  log := log
  copied := by simp
  contents p _ := .inr ⟨by simp, rfl⟩

/-- A record changes nothing that counts. -/
theorem Copies.logged (h : Copies t sources target done v) (r : Record) :
    Copies t sources target done (v.logged r) where
  ways := h.ways.trans (v.sameWays_logged r)
  log p hp := (h.log p hp).logged r
  copied := h.copied
  contents p hp := by
    rw [Volume.contents?_logged (h.log p hp)]
    exact h.contents p hp

/-- A source that is not its own target holds what it held at first. -/
theorem Copies.source (h : Copies t sources target done v) (plan : Planned t sources target)
    {source : Path} (hmem : source ∈ sources) (moves : target source ≠ source) :
    v.tree.contents? source = t.contents? source := by
  rcases h.contents source (.inl hmem) with ⟨q, hq, htarget, -⟩ | ⟨-, heq⟩
  · obtain ⟨hqmem, -, c, hc⟩ := h.copied q hq
    exact absurd (plan.settled source hmem q hqmem c hc htarget) moves
  · exact heq

/-- **One more source copied.** -/
theorem Copies.copy (h : Copies t sources target done v) (plan : Planned t sources target)
    {source : Path} (hmem : source ∈ sources) (hparts : (target source).parts ≠ source.parts)
    {tree : Tree} (hcopy : v.tree.copyFile source (target source) = .ok tree) :
    Copies t sources target (done ++ [source]) (v.withTree tree) := by
  obtain ⟨origin, goal, content, found, stands, reached, same, htarget, others⟩ :=
    Tree.exists_of_copyFile_eq_ok hcopy
  have linkless := plan.linkless.congr h.ways
  have hsource : Involved sources target source := .inl hmem
  have hinto : Involved sources target (target source) := .inr ⟨source, hmem, rfl⟩
  have moves : target source ≠ source := fun heq => hparts (by rw [heq])
  -- the guard compares parts, which is enough without links
  have hgoal : goal ≠ origin := by
    rintro rfl
    exact moves (Tree.eq_of_locate reached found linkless (plan.normal _ hinto)
      (plan.normal _ hsource))
  have hcontent : t.contents? source = some content := by
    rw [← h.source plan hmem moves]
    exact Tree.contents?_eq_some.2 ⟨origin, found, stands⟩
  rw [if_neg hgoal] at htarget
  refine ⟨h.ways.trans same, fun p hp => (h.log p hp).withTree same, fun p hp => ?_, fun p hp => ?_⟩
  · rcases List.mem_append.1 hp with hp | hp
    · exact h.copied p hp
    · rw [List.mem_singleton.1 hp]
      exact ⟨hmem, moves, content, hcontent⟩
  · by_cases heq : target source = p
    · subst heq
      exact .inl ⟨source, by simp, rfl, htarget.trans hcontent.symm⟩
    · have hkeeps : tree.contents? p = v.tree.contents? p := others p fun hl =>
        heq (Tree.eq_of_locate reached hl linkless (plan.normal _ hinto) (plan.normal p hp))
      rw [Volume.tree_withTree, hkeeps]
      rcases h.contents p hp with ⟨q, hq, hqp, hc⟩ | ⟨hnone, hc⟩
      · exact .inl ⟨q, List.mem_append_left _ hq, hqp, hc⟩
      · refine .inr ⟨fun q hq => ?_, hc⟩
        rcases List.mem_append.1 hq with hq | hq
        · exact hnone q hq
        · rwa [List.mem_singleton.1 hq]

/-- A file among the sources is not taken for a directory. -/
theorem Copies.stat_ne_directory (h : Copies t sources target done v) {p : Path} {c : ByteArray}
    (hc : t.contents? p = some c) : v.stat p ≠ .directory := by
  intro hstat
  obtain ⟨l, hl, hdirectory⟩ := Volume.exists_of_stat_eq_directory hstat
  obtain ⟨m, hm, hfile⟩ := Tree.contents?_eq_some.1 hc
  obtain rfl : m = l := Except.ok.inj (((Tree.locate_congr h.ways).1 hm).symm.trans hl)
  rw [(h.ways.directory m).2 hdirectory] at hfile
  cases hfile

/-- **What copying the rest of the sources comes to**, once some have been copied. If it ends well
every file among the rest was copied too. -/
def CopiesRest (t : Tree) (sources : List Path) (target : Path → Path) (done rest : List Path)
    (i : Interference) : EStateM.Result Failure State (List Path) → Prop
  | .ok copied s => Copies t sources target (done ++ copied) s.volume ∧
      s.volume.interference = i ∧ ∀ p ∈ rest, ∀ c, t.contents? p = some c → p ∈ copied
  | .error _ s => ∃ done', Copies t sources target done' s.volume

/-- A source that is no file may be passed over. -/
theorem CopiesRest.skip {source : Path} {rest : List Path} {i : Interference}
    {r : EStateM.Result Failure State (List Path)}
    (h : CopiesRest t sources target done rest i r) (empty : ∀ c, t.contents? source ≠ some c) :
    CopiesRest t sources target done (source :: rest) i r := by
  rcases r with ⟨copied, s⟩ | ⟨e, s⟩
  · obtain ⟨copies, same, hall⟩ := h
    refine ⟨copies, same, fun p hp c hc => ?_⟩
    rcases List.mem_cons.1 hp with rfl | hp
    · exact absurd hc (empty c)
    · exact hall p hp c hc
  · exact h

/-- A source that was copied is put in front of the others. -/
theorem CopiesRest.cons {source : Path} {rest : List Path} {i : Interference}
    {x : Shell (List Path)} {s : State}
    (h : CopiesRest t sources target (done ++ [source]) rest i (x s)) :
    CopiesRest t sources target done (source :: rest) i
      ((x >>= fun copied => pure (source :: copied)) s) := by
  rcases hx : x s with ⟨copied, s'⟩ | ⟨e, s'⟩
  · rw [hx] at h
    obtain ⟨copies, same, hall⟩ := h
    rw [Shell.bind_of_ok hx, Shell.pure_apply]
    change Copies t sources target (done ++ source :: copied) s'.volume ∧ _
    rw [List.append_cons]
    refine ⟨copies, same, fun p hp c hc => ?_⟩
    rcases List.mem_cons.1 hp with rfl | hp
    · exact List.mem_cons_self
    · exact List.mem_cons_of_mem _ (hall p hp c hc)
  · rw [hx] at h
    rw [Shell.bind_of_error hx]
    exact h

/-- **Copying goes on from every volume that copies have made.** -/
theorem copyEach_copies (command : Command) (plan : Planned t sources target) (rest : List Path)
    {s : State} (hrest : ∀ p ∈ rest, p ∈ sources)
    (start : Copies t sources target done s.volume) :
    CopiesRest t sources target done rest s.volume.interference
      (copyEach command target rest s) := by
  induction rest generalizing done s with
  | nil =>
    change Copies t sources target (done ++ []) s.volume ∧ _
    rw [List.append_nil]
    exact ⟨start, rfl, by simp⟩
  | cons source rest ih =>
    have hrest' : ∀ p ∈ rest, p ∈ sources := fun p hp => hrest p (List.mem_cons_of_mem _ hp)
    rcases copyEach_cons command target source rest s with
      ⟨hstat, text, heq⟩ | ⟨-, heq⟩ | ⟨hstat, heq⟩
    · -- a directory is passed over, and it is no file
      have start' : Copies t sources target done ((s.logged .warning text).warned text).volume :=
        start.logged _
      have same : ((s.logged .warning text).warned text).volume.interference =
          s.volume.interference := Volume.interference_logged _ _
      rw [heq, ← same]
      refine (ih hrest' start').skip fun c hc => ?_
      exact start.stat_ne_directory hc hstat
    · rw [heq]
      exact ⟨done, start⟩
    · rw [heq]
      rcases copyOne_cases command source (target source) s with
        ⟨hparts, -, tree, text, hcopy, hone⟩ | ⟨-, cause, hone⟩
      · -- a file is copied, and the rest goes on from there
        have start' := (start.copy plan (hrest source List.mem_cons_self) hparts hcopy).logged
          ⟨.info, text⟩
        have same : ((s.volume.withTree tree).logged ⟨.info, text⟩).interference =
            s.volume.interference := Volume.interference_logged _ _
        rw [Shell.bind_of_ok hone, ← same]
        exact (ih hrest' start').cons
      · rw [Shell.bind_of_error hone]
        exact ⟨done, start⟩

/-! ## Removing -/

/-- **What an attempt to remove a source has made of a volume**, as far as the given paths go. -/
structure Removal (P : Path → Prop) (source : Path) (v v' : Volume) : Prop where
  /-- Every path leads where it led. -/
  ways : Tree.SameWays v.tree v'.tree
  /-- The same operations are refused. -/
  interference : v'.interference = v.interference
  /-- No path has come to lead to the log. -/
  log : ∀ p, P p → v'.LogElsewhere p
  /-- Every other path keeps what it held. -/
  others : ∀ p, P p → p ≠ source → v'.tree.contents? p = v.tree.contents? p
  /-- The source keeps what it held, or is gone. -/
  own : v'.tree.contents? source = v.tree.contents? source ∨ v'.tree.contents? source = none
  /-- It is gone unless that is refused. -/
  gone : v.interference.refusal .removeFile source = none → v'.tree.contents? source = none

/-- One source is removed, or there is a reason why not, and that is recorded. -/
theorem removeEach_step (command : Command) {P : Path → Prop} (normal : ∀ p, P p → p.IsNormal)
    {source : Path} (hsource : P source) (rest : List Path) {s : State}
    (linkless : s.volume.tree.Linkless) (log : ∀ p, P p → s.volume.LogElsewhere p) :
    ∃ s₁, removeEach command (source :: rest) s = removeEach command rest s₁ ∧
      Removal P source s.volume s₁.volume := by
  rcases removeEach_cons command source rest s with ⟨-, tree, hremove, heq⟩ | ⟨why, text, heq⟩
  · obtain ⟨same, hgone, hothers⟩ :=
      Tree.exists_of_removeFile_eq_ok hremove linkless (normal source hsource)
    exact ⟨_, heq, same, rfl, fun p hp => (log p hp).withTree same,
      fun p hp => hothers p (normal p hp), .inr hgone, fun _ => hgone⟩
  · have hsame (p : Path) (hp : P p) := Volume.contents?_logged (log p hp) ⟨.warning, text⟩
    refine ⟨_, heq, s.volume.sameWays_logged _, s.volume.interference_logged _,
      fun p hp => (log p hp).logged _, fun p hp _ => hsame p hp, .inl (hsame source hsource),
      fun free => (hsame source hsource).trans ?_⟩
    -- the removal has failed by itself, so there was no file to remove
    obtain ⟨e, hfails⟩ := why.resolve_left fun h => h free
    rw [Option.eq_none_iff_forall_ne_some]
    intro c hc
    obtain ⟨tree, hremove⟩ := Tree.removeFile_of_contents? hc linkless (normal source hsource)
    rw [hremove] at hfails
    cases hfails

/-- **Removing what was copied** takes nothing else away, and takes away all of it unless that is
refused. -/
theorem removeEach_contents (command : Command) {P : Path → Prop} (normal : ∀ p, P p → p.IsNormal)
    (copied : List Path) {s : State} (hcopied : ∀ p ∈ copied, P p)
    (linkless : s.volume.tree.Linkless) (log : ∀ p, P p → s.volume.LogElsewhere p) :
    ∃ s', removeEach command copied s = .ok () s' ∧
      (∀ p, P p → s'.volume.tree.contents? p = s.volume.tree.contents? p ∨
        p ∈ copied ∧ s'.volume.tree.contents? p = none) ∧
      ((∀ p ∈ copied, s.volume.interference.refusal .removeFile p = none) →
        ∀ p ∈ copied, s'.volume.tree.contents? p = none) := by
  induction copied generalizing s with
  | nil => exact ⟨s, rfl, fun p _ => .inl rfl, by simp⟩
  | cons source rest ih =>
    have hsource : P source := hcopied source List.mem_cons_self
    obtain ⟨s₁, heq, hstep⟩ := removeEach_step command normal hsource rest linkless log
    obtain ⟨s', hrun, hkept, hgone⟩ :=
      ih (fun p hp => hcopied p (List.mem_cons_of_mem _ hp)) (linkless.congr hstep.ways) hstep.log
    refine ⟨s', heq.trans hrun, fun p hp => ?_, fun free p hp => ?_⟩
    · rcases hkept p hp with h | ⟨hmem, h⟩
      · by_cases hps : p = source
        · subst hps
          exact hstep.own.imp h.trans fun hnone => ⟨List.mem_cons_self, h.trans hnone⟩
        · exact .inl (h.trans (hstep.others p hp hps))
      · exact .inr ⟨List.mem_cons_of_mem _ hmem, h⟩
    · rw [hstep.interference] at hgone
      rcases List.mem_cons.1 hp with rfl | hp
      · have hnone := hstep.gone (free p List.mem_cons_self)
        rcases hkept p hsource with h | ⟨-, h⟩
        · exact h.trans hnone
        · exact h
      · exact hgone (fun q hq => free q (List.mem_cons_of_mem _ hq)) p hp

/-! ## Keeping -/

/-- **The contents of the sources are kept**: every file among them is found at its own path or at
its target. -/
def Kept (before after : Tree) (sources : List Path) (target : Path → Path) : Prop :=
  ∀ p ∈ sources, ∀ c, before.contents? p = some c →
    after.contents? p = some c ∨ after.contents? (target p) = some c

/-- **Files that go to one target hold the same.** -/
def Agreeing (t : Tree) (sources : List Path) (target : Path → Path) : Prop :=
  ∀ p ∈ sources, ∀ q ∈ sources, target p = target q → ∀ c d, t.contents? p = some c →
    t.contents? q = some d → c = d

/-- While agreeing sources are copied, they stay as they are. -/
theorem Copies.kept_own (h : Copies t sources target done v) (plan : Planned t sources target)
    (agree : Agreeing t sources target) {p : Path} (hp : p ∈ sources) {c : ByteArray}
    (hc : t.contents? p = some c) : v.tree.contents? p = some c := by
  rcases h.contents p (.inl hp) with ⟨q, hq, hqp, heq⟩ | ⟨-, heq⟩
  · obtain ⟨hqmem, -, d, hd⟩ := h.copied q hq
    have hown : target p = p := plan.settled p hp q hqmem d hd hqp
    rw [heq, hd, agree p hp q hqmem (hown.trans hqp.symm) c d hc hd]
  · rw [heq, hc]

/-- When agreeing sources have been copied, their targets hold what they hold. -/
theorem Copies.kept_target (h : Copies t sources target done v) (agree : Agreeing t sources target)
    {p : Path} (hp : p ∈ done) {c : ByteArray} (hc : t.contents? p = some c) :
    v.tree.contents? (target p) = some c := by
  have hpmem := (h.copied p hp).1
  rcases h.contents (target p) (.inr ⟨p, hpmem, rfl⟩) with ⟨q, hq, hqp, heq⟩ | ⟨hnone, -⟩
  · obtain ⟨hqmem, -, d, hd⟩ := h.copied q hq
    rw [heq, hd, agree p hpmem q hqmem hqp.symm c d hc hd]
  · exact absurd rfl (hnone p hp)

/-- When agreeing sources have been copied and some of the copied ones removed, all of them are
kept. -/
theorem Copies.kept_of_removed (h : Copies t sources target done v)
    (plan : Planned t sources target) (agree : Agreeing t sources target)
    (hall : ∀ p ∈ sources, ∀ c, t.contents? p = some c → p ∈ done) {after : Tree}
    (hkept : ∀ p, Involved sources target p →
      after.contents? p = v.tree.contents? p ∨ p ∈ done ∧ after.contents? p = none) :
    Kept t after sources target := by
  intro p hp c hc
  rcases hkept (target p) (.inr ⟨p, hp, rfl⟩) with hsame | ⟨hdone, -⟩
  · exact .inr (hsame.trans (h.kept_target agree (hall p hp c hc) hc))
  · -- the target of a file is no file that was copied
    obtain ⟨hmem, hmoves, -⟩ := h.copied _ hdone
    exact absurd (plan.settled _ hmem p hp c hc rfl) hmoves

/-- Sources that are gone are kept at their targets, and there only agreeing ones can be. -/
theorem Kept.agreeing {after : Tree} (kept : Kept t after sources target)
    (gone : ∀ p ∈ sources, ∀ c, t.contents? p = some c → after.contents? p = none) :
    Agreeing t sources target := by
  have htarget {p : Path} (hp : p ∈ sources) {c : ByteArray} (hc : t.contents? p = some c) :
      after.contents? (target p) = some c := by
    rcases kept p hp c hc with hown | hown
    · rw [gone p hp c hc] at hown
      cases hown
    · exact hown
  intro p hp q hq hone c d hc hd
  have heq := htarget hp hc
  rw [hone, htarget hq hd] at heq
  exact (Option.some.inj heq).symm

/-- A move keeps the contents of agreeing sources, and one that ends well and removes all that it
copied keeps no others. -/
theorem transfer_mv_kept {call : Call} {destination : Path} {s : State}
    (hpaths : call.paths = sources ++ [destination])
    (plan : Planned s.volume.tree sources (s.volume.targetOf destination))
    (log : ∀ p, Involved sources (s.volume.targetOf destination) p → s.volume.LogElsewhere p) :
    (Agreeing s.volume.tree sources (s.volume.targetOf destination) →
      Kept s.volume.tree (Shell.reached (transfer .mv call s)).volume.tree sources
        (s.volume.targetOf destination)) ∧
    (∀ out s', transfer .mv call s = .ok out s' →
      (∀ p ∈ sources, s.volume.interference.refusal .removeFile p = none) →
      Kept s.volume.tree s'.volume.tree sources (s.volume.targetOf destination) →
      Agreeing s.volume.tree sources (s.volume.targetOf destination)) := by
  rw [transfer_eq hpaths]
  generalize s.volume.targetOf destination = target at plan log
  have hcopy := copyEach_copies .mv plan sources (fun _ h => h) (.start log)
  rcases hr : copyEach .mv target sources s with ⟨copied, s₁⟩ | ⟨e, s₁⟩
  · rw [hr] at hcopy
    obtain ⟨copies, hinterference, hall⟩ := hcopy
    rw [List.nil_append] at copies
    have hmem : ∀ p ∈ copied, p ∈ sources := fun p hp => (copies.copied p hp).1
    obtain ⟨s₂, hremove, hkept, hgone⟩ := removeEach_contents .mv plan.normal copied
      (fun p hp => .inl (hmem p hp)) (plan.linkless.congr copies.ways) copies.log
    rw [Shell.bind_of_ok hr, if_pos rfl, Shell.bind_of_ok hremove]
    constructor
    · intro agree
      exact copies.kept_of_removed plan agree hall hkept
    · intro out s' hout free kept
      obtain rfl : s₂ = s' := by cases hout; rfl
      refine kept.agreeing fun p hp c hc => hgone (fun q hq => ?_) p (hall p hp c hc)
      rw [hinterference]
      exact free q (hmem q hq)
  · rw [hr] at hcopy
    obtain ⟨done, copies⟩ := hcopy
    rw [Shell.bind_of_error hr]
    constructor
    · intro agree p hp c hc
      exact .inl (copies.kept_own plan agree hp hc)
    · nofun

/-! ## Calls of lines -/

/-- A source with a normal path goes to a normal path. -/
theorem isNormal_transferTarget {destination source : Path} (hdestination : destination.IsNormal)
    (hsource : source.IsNormal) (isDirectory : Bool) :
    (transferTarget destination isDirectory source).IsNormal := by
  unfold transferTarget
  rw [hsource.fileName?]
  rcases hlast : source.names.getLast? with _ | n
  · exact hdestination
  · have hn : IsName n := Path.isName_of_mem_names (List.mem_of_getLast? hlast)
    cases isDirectory with
    | false => exact hdestination
    | true =>
      exact (hdestination.names_child hn).1

/-- What a file is copied to in a directory is its own target there. -/
theorem settled_of_directory {destination p q : Path} (linkless : v.tree.Linkless)
    (hdestination : destination.IsNormal) (hq : q.IsNormal)
    (hdirectory : v.stat destination = .directory) {c : ByteArray}
    (hc : v.tree.contents? q = some c) (htarget : v.targetOf destination q = p) :
    v.targetOf destination p = p := by
  obtain ⟨n, hlast⟩ : ∃ n, q.names.getLast? = some n := by
    rw [← Option.ne_none_iff_exists', ne_eq, List.getLast?_eq_none_iff]
    intro hroot
    obtain ⟨l, hl, hfile⟩ := Tree.contents?_eq_some.1 hc
    rw [Tree.eq_names_of_locate hl linkless hq, hroot] at hfile
    cases hfile
  have hn : IsName n := Path.isName_of_mem_names (List.mem_of_getLast? hlast)
  obtain ⟨hnormal, hnames⟩ := hdestination.names_child hn
  have hp : p = destination.child n := by
    rw [← htarget, Volume.targetOf, transferTarget, hq.fileName?, hlast]
    exact if_pos (decide_eq_true hdirectory)
  rw [hp, Volume.targetOf, transferTarget, hnormal.fileName?, hnames, List.getLast?_concat]
  exact if_pos (decide_eq_true hdirectory)

/-- **Normal sources are planned** if more than one of them have a directory to go to. -/
theorem planned_of_isNormal {destination : Path} (linkless : v.tree.Linkless)
    (hdestination : destination.IsNormal) (hsources : ∀ p ∈ sources, p.IsNormal)
    (hone : v.stat destination ≠ .directory → sources.length ≤ 1) :
    Planned v.tree sources (v.targetOf destination) := by
  refine ⟨linkless, fun p hp => ?_, fun p hp q hq c hc htarget => ?_⟩
  · rcases hp with hp | ⟨source, hmem, rfl⟩
    · exact hsources p hp
    · exact isNormal_transferTarget hdestination (hsources source hmem) _
  · by_cases hdirectory : v.stat destination = .directory
    · exact settled_of_directory linkless hdestination (hsources q hq) hdirectory hc htarget
    · -- there is only one source
      obtain rfl : p = q := by
        match sources, hone hdirectory with
        | [], _ => cases hp
        | [_], _ => rw [List.mem_singleton.1 hp, List.mem_singleton.1 hq]
      exact htarget

/-- **What a move keeps.** On a volume without links, whatever operations are refused and however
the run ends, every file among the sources of a move is found afterwards at its own path or at its
target, provided that files that go to one target hold the same. A run that ends well and may remove
its sources keeps them under no other condition. -/
theorem mv_keeps_agreeing (env : Environment) {line : Text} {stages : List Stage} {stage : Stage}
    (parsed : env.config.parse line = .ok stages) (mem : stage ∈ stages)
    (moves : stage.command = .mv) {piped : Option Text} {call : Call} {s : State}
    (bound : bindStage env stage piped s = .ok call s)
    (absolute : s.session.cwd.isAbsolute = true) (named : s.volume.WellNamed)
    (linkless : s.volume.tree.Linkless) :
    ∃ sources destination, call.paths = sources ++ [destination] ∧
      ((∀ p, Involved sources (s.volume.targetOf destination) p → s.volume.LogElsewhere p) →
        (Agreeing s.volume.tree sources (s.volume.targetOf destination) →
          Kept s.volume.tree (Shell.reached (stage.command.run env call s)).volume.tree sources
            (s.volume.targetOf destination)) ∧
        (∀ out s', stage.command.run env call s = .ok out s' →
          (∀ p ∈ sources, s.volume.interference.refusal .removeFile p = none) →
          Kept s.volume.tree s'.volume.tree sources (s.volume.targetOf destination) →
          Agreeing s.volume.tree sources (s.volume.targetOf destination))) := by
  obtain ⟨name, words, read⟩ := exists_read_of_parse parsed mem
  rw [bindStage, Shell.ofExcept_apply] at bound
  split at bound
  · next made hbind =>
    cases bound
    rw [moves] at hbind read ⊢
    obtain ⟨sources, destination, hpaths, hdestination, hsources, hone⟩ :=
      exists_paths_of_bind absolute named read hbind
    exact ⟨sources, destination, hpaths,
      transfer_mv_kept hpaths (planned_of_isNormal linkless hdestination hsources hone)⟩
  · cases bound

/-- A file that is moved into a directory is found there, or still where it was. -/
theorem mv_keeps_agreeing_one :
    let tree : Tree := ⟨[([['a']], .file (Text.bytes ['x'])), ([['d']], .directory)]⟩
    let stage : Stage := ⟨.mv, ⟨[], [.path ['a'] .single, .path ['d'] .single]⟩, none⟩
    ∃ call, bindStage .plain stage none (.atRoot tree) = .ok call (.atRoot tree) ∧
      let after := (Shell.reached (stage.command.run .plain call (.atRoot tree))).volume.tree
      after.contents? ⟨"/a".toList⟩ = some (Text.bytes ['x']) ∨
        after.contents? ⟨"/d/a".toList⟩ = some (Text.bytes ['x']) := by
  intro tree stage
  have parsed : Environment.plain.config.parse "mv a d".toList = .ok [stage] := by rfl
  have bound : bindStage .plain stage none (.atRoot tree) =
      .ok ⟨[], [.path ⟨"/a".toList⟩, .path ⟨"/d".toList⟩], none⟩
        (.atRoot tree) := by rfl
  have named : (State.atRoot tree).volume.WellNamed := ⟨by decide, nofun⟩
  have linkless : tree.Linkless := Tree.linkless_of_entries (by simp [tree])
  obtain ⟨sources, destination, hpaths, hkept⟩ := mv_keeps_agreeing .plain parsed
    List.mem_cons_self rfl bound rfl named linkless
  obtain ⟨rfl, hdestination⟩ : [⟨"/a".toList⟩] = sources ∧ [⟨"/d".toList⟩] = [destination] :=
    List.append_inj' hpaths rfl
  cases hdestination
  have log (p : Path) : (State.atRoot tree).volume.LogElsewhere p :=
    fun l _ => Volume.logApart_of_log_eq_none rfl l
  have agree : Agreeing tree [⟨"/a".toList⟩]
      ((State.atRoot tree).volume.targetOf ⟨"/d".toList⟩) := by
    intro p hp q hq _ c d hc hd
    rw [List.mem_singleton.1 hp] at hc
    rw [List.mem_singleton.1 hq, hc] at hd
    exact Option.some.inj hd
  have htarget : (State.atRoot tree).volume.targetOf ⟨"/d".toList⟩ ⟨"/a".toList⟩ =
      ⟨"/d/a".toList⟩ := by decide +kernel
  have hfile := (hkept fun p _ => log p).1 agree ⟨"/a".toList⟩ List.mem_cons_self
    (Text.bytes ['x']) rfl
  rw [htarget] at hfile
  exact ⟨_, bound, hfile⟩

/-- Two directories with a file of one name each, and a third directory. -/
def twoOfOneName : Tree :=
  ⟨[([['a']], .directory), ([['a'], ['x']], .file (Text.bytes ['1'])), ([['b']], .directory),
    ([['b'], ['x']], .file (Text.bytes ['2'])), ([['d']], .directory)]⟩

/-- **Two files of one name that are moved to one directory** lose the contents of one of them, and
the run ends well. -/
theorem mv_loses_disagreeing :
    let s := State.atRoot twoOfOneName
    ∃ stage call out s', Environment.plain.config.parse "mv a/x b/x d".toList = .ok [stage] ∧
      bindStage .plain stage none s = .ok call s ∧ stage.command.run .plain call s = .ok out s' ∧
      ¬Kept s.volume.tree s'.volume.tree call.paths.dropLast
        (s.volume.targetOf ⟨"/d".toList⟩) := by
  intro s
  let call : Call :=
    ⟨[], [.path ⟨"/a/x".toList⟩, .path ⟨"/b/x".toList⟩, .path ⟨"/d".toList⟩], none⟩
  let stage : Stage :=
    ⟨.mv, ⟨[], [.path "a/x".toList .single, .path "b/x".toList .single, .path ['d'] .single]⟩, none⟩
  have hlost : (match Command.mv.run .plain call (.atRoot twoOfOneName) with
      | .ok _ s' => decide (s'.volume.tree.contents? ⟨"/a/x".toList⟩ = none ∧
          s'.volume.tree.contents? ⟨"/d/x".toList⟩ = some (Text.bytes ['2']))
      | .error _ _ => false) = true := by decide +kernel
  rcases hrun : Command.mv.run .plain call (.atRoot twoOfOneName) with ⟨out, s'⟩ | ⟨e, s'⟩
  · rw [hrun, decide_eq_true_eq] at hlost
    refine ⟨stage, call, out, s', by rfl, by rfl, hrun, fun kept => ?_⟩
    have htarget : s.volume.targetOf ⟨"/d".toList⟩ ⟨"/a/x".toList⟩ = ⟨"/d/x".toList⟩ := by
      decide +kernel
    rcases kept ⟨"/a/x".toList⟩ List.mem_cons_self (Text.bytes ['1']) rfl with h | h
    · rw [hlost.1] at h
      cases h
    · rw [htarget, hlost.2] at h
      exact absurd h (by decide +kernel)
  · rw [hrun] at hlost
    cases hlost

end FileShell
