import Telecommand.File.Workspace
import Telecommand.Proofs.File.Leads
import Telecommand.Proofs.Path.Parent

/-! # Destinations

    The destination of a path is the location where a file is created that
    is opened by the path.  Creating files and writing to them keeps all
    passages, so it keeps the destination of every path
    (`SameWays.destination?_eq`); what is written at a destination is read
    through the path (`read_of_destination?`).

    The canonical path of a path names the location where it leads
    (`canonical_eq_ok_iff`), so it is the path of the destination
    (`canonical_eq_of_destination?`).  It is found of every path to what is
    there, if no entry's own is too long (`findsCanonical_of_entries`). -/

namespace Telecommand.File

/-! ## Paths of locations -/

namespace Location

theorem text_path {names : Location} (h : names ≠ []) :
    (Location.path names).text = names.flatMap fun name => '/' :: name.text := by
  obtain ⟨first, rest, rfl⟩ := List.exists_cons_of_ne_nil h
  rw [Location.path, List.map_cons, Text.intercalate_cons, List.flatMap_cons, List.flatMap_map]
  rfl

/-- The path of an entry in a directory is the path of its location. -/
theorem join_path (directory : Location) (name : Name) :
    (Location.path directory).join name = Location.path (directory ++ [name]) := by
  by_cases hroot : directory = []
  · -- the path of the root is a slash already
    rw [hroot]
    simp [Path.join, Location.path]
  · have htext := text_path hroot
    have hlast : (Location.path directory).text.getLast? ≠ some '/' := by
      obtain ⟨front, last, rfl⟩ : ∃ front last, directory = front ++ [last] :=
        ⟨_, _, (List.dropLast_concat_getLast hroot).symm⟩
      rw [htext, List.flatMap_append, List.flatMap_singleton,
        List.getLast?_append_of_ne_nil _ (List.cons_ne_nil _ _),
        ← List.singleton_append, List.getLast?_append_of_ne_nil _ last.text_ne_nil]
      intro hslash
      exact last.slash_notMem_text (List.mem_of_getLast? hslash)
    have hjoined : (Location.path (directory ++ [name])).text
        = (Location.path directory).text ++ '/' :: name.text := by
      rw [htext, text_path (by simp), List.flatMap_append, List.flatMap_singleton]
    rw [Path.join, if_neg hlast, ← hjoined]

end Location

namespace Tree

variable {tree : Tree} {limits : Limits} {intent : Intent} {cwd : Location} {path : Path}
  {arrival : Arrival}

/-- A path leads where its steps lead. -/
theorem resolve_eq_ok_iff :
    tree.resolve limits intent cwd path = .ok arrival
      ↔ path.hasZeroByte = false ∧ path.text ≠ []
        ∧ Leads tree limits intent limits.links (if path.isAbsolute then [] else cwd)
            path.steps arrival := by
  rw [resolve]
  cases hzero : path.hasZeroByte with
  | true => simp
  | false =>
      by_cases hempty : path.text = []
      · simp [hempty]
      · simp [hempty, walk_eq_ok_iff]

/-- A path of components leads where they lead. -/
theorem resolve_ofComponents {absolute : Bool} {components : List Step} (hne : components ≠ [])
    (hcomponent : ∀ step ∈ components, step ≠ .slash ∧ '\x00' ∉ Path.pieceOf step)
    (hleads : Leads tree limits intent limits.links (if absolute then [] else cwd) components
      arrival) :
    tree.resolve limits intent cwd (Path.ofComponents absolute components) = .ok arrival := by
  have hslash : ∀ step ∈ components, step ≠ .slash := fun step hstep => (hcomponent step hstep).1
  rw [resolve_eq_ok_iff, Path.steps_ofComponents absolute hne hslash,
    Path.isAbsolute_ofComponents absolute hne hslash]
  exact ⟨Path.hasZeroByte_ofComponents absolute fun step hstep => (hcomponent step hstep).2,
    Path.text_ofComponents_ne_nil absolute hne hslash, hleads⟩

end Tree

namespace Workspace

variable {workspace before after : Workspace} {intent : Intent} {path : Path}
  {arrival : Arrival} {location : Location}

/-- A path that is opened leads where it leads, if it is not too long. -/
theorem arrive_eq_ok_iff :
    workspace.arrive intent path = .ok arrival
      ↔ workspace.limits.allowsPath path = true
        ∧ workspace.resolve intent path = .ok arrival := by
  rw [arrive]
  cases hallowed : workspace.limits.allowsPath path with
  | true => simp
  | false =>
      cases hzero : path.hasZeroByte with
      | false => simp
      | true => simp [resolve, Tree.resolve, hzero]

/-- The location where a file is created that a path opens. -/
def destination? (workspace : Workspace) (path : Path) : Option Location :=
  (workspace.arrive .create path).toOption.map Arrival.location

theorem destination?_eq_some_iff :
    workspace.destination? path = some location
      ↔ ∃ arrival, workspace.arrive .create path = .ok arrival
        ∧ arrival.location = location := by
  rw [destination?]
  cases workspace.arrive .create path with
  | error error => simp [Except.toOption]
  | ok arrival => simp [Except.toOption]

/-! ## What keeps destinations -/

/-- Two workspaces where paths lead on the same ways. -/
structure SameWays (before after : Workspace) : Prop where
  cwd : after.cwd = before.cwd
  limits : after.limits = before.limits
  passages : ∀ location, after.tree.passage? location = before.tree.passage? location

namespace SameWays

theorem refl (workspace : Workspace) : SameWays workspace workspace :=
  ⟨rfl, rfl, fun _ => rfl⟩

theorem symm (h : SameWays before after) : SameWays after before :=
  ⟨h.cwd.symm, h.limits.symm, fun location => (h.passages location).symm⟩

theorem trans {between : Workspace} (first : SameWays before between)
    (second : SameWays between after) : SameWays before after :=
  ⟨second.cwd.trans first.cwd, second.limits.trans first.limits,
    fun location => (second.passages location).trans (first.passages location)⟩

/-- A file that is emptied or made where no passage is leaves the ways. -/
theorem emptied (h : workspace.tree.passage? location = none) :
    SameWays workspace (workspace.emptied location) :=
  ⟨rfl, rfl, Tree.passage?_put_file [] h⟩

/-- Writing over a file leaves the ways. -/
theorem overwrite (workspace : Workspace) (location : Location) (bytes : Bytes) :
    SameWays workspace (workspace.overwrite location bytes) :=
  ⟨rfl, rfl, workspace.tree.passage?_overwrite location bytes⟩

private theorem destination?_of_eq_some (h : SameWays before after)
    (hdestination : before.destination? path = some location) :
    after.destination? path = some location := by
  obtain ⟨arrival, harrive, rfl⟩ := destination?_eq_some_iff.mp hdestination
  obtain ⟨hallowed, hresolve⟩ := arrive_eq_ok_iff.mp harrive
  obtain ⟨hzero, hempty, hleads⟩ := Tree.resolve_eq_ok_iff.mp hresolve
  obtain ⟨found, hfound, hlocation⟩ := hleads.of_passages h.passages
  rw [← h.limits, ← h.cwd] at hfound
  rw [← h.limits] at hallowed
  exact destination?_eq_some_iff.mpr ⟨found, arrive_eq_ok_iff.mpr
    ⟨hallowed, Tree.resolve_eq_ok_iff.mpr ⟨hzero, hempty, hfound⟩⟩, hlocation⟩

/-- **Destinations are kept** where all ways are. -/
theorem destination?_eq (h : SameWays before after) (path : Path) :
    after.destination? path = before.destination? path := by
  cases hbefore : before.destination? path with
  | some location => exact h.destination?_of_eq_some hbefore
  | none =>
      cases hafter : after.destination? path with
      | none => rfl
      | some location =>
          rw [h.symm.destination?_of_eq_some hafter] at hbefore
          cases hbefore

end SameWays

/-! ## Files at a destination -/

/-- A file that is created stands at the destination of its path, where no
    passage is. -/
theorem of_create_eq_ok (h : workspace.create path = (.ok location, after)) :
    workspace.destination? path = some location
      ∧ workspace.tree.passage? location = none
      ∧ after = workspace.emptied location := by
  rw [create] at h
  cases harrive : workspace.arrive .create path with
  | error error =>
      rw [harrive] at h
      cases h
  | ok arrival =>
      rw [harrive] at h
      cases arrival with
      | vacant place =>
          cases h
          have hleads := (Tree.resolve_eq_ok_iff.mp (arrive_eq_ok_iff.mp harrive).2).2.2
          exact ⟨destination?_eq_some_iff.mpr ⟨_, harrive, rfl⟩,
            Tree.passage?_eq_none_iff.mpr (.inl hleads.find?_of_vacant.1), rfl⟩
      | existing place =>
          cases hcontents : workspace.tree.contents? place with
          | none =>
              simp only [hcontents] at h
              cases h
          | some old =>
              simp only [hcontents] at h
              cases h
              exact ⟨destination?_eq_some_iff.mpr ⟨_, harrive, rfl⟩,
                Tree.passage?_of_contents? hcontents, rfl⟩

/-- Records do not matter to creating a file. -/
theorem create_of_records {result : Except OsError Location} (records : List Log.Record)
    (h : workspace.create path = (result, after)) :
    ({ workspace with records := records } : Workspace).create path
      = (result, { after with records := records }) := by
  have harrive : ({ workspace with records := records } : Workspace).arrive .create path
      = workspace.arrive .create path := rfl
  rw [create] at h ⊢
  rw [harrive]
  cases hfound : workspace.arrive .create path with
  | error error =>
      rw [hfound] at h
      cases h
      rfl
  | ok arrival =>
      rw [hfound] at h
      cases arrival with
      | vacant place =>
          cases h
          rfl
      | existing place =>
          cases hcontents : workspace.tree.contents? place with
          | none =>
              simp only [hcontents] at h ⊢
              cases h
              rfl
          | some old =>
              simp only [hcontents] at h ⊢
              cases h
              rfl

theorem of_create_eq_error {error : OsError} (h : workspace.create path = (.error error, after)) :
    after = workspace := by
  rw [create] at h
  split at h
  · cases h
    rfl
  · cases h
  · split at h
    · cases h
    · cases h
      rfl

/-- A file that is opened second stands at the destination that its path had
    before the first was opened. -/
theorem destination?_of_create_second {first second : Path} {firstAt secondAt : Location}
    (hfirst : workspace.create first = (.ok firstAt, workspace.emptied firstAt))
    (hsecond : (workspace.emptied firstAt).create second = (.ok secondAt, after)) :
    workspace.destination? second = some secondAt := by
  have hways := SameWays.emptied (of_create_eq_ok hfirst).2.1
  rw [← hways.destination?_eq second]
  exact (of_create_eq_ok hsecond).1

theorem find?_emptied_of_ne {other : Location} (h : other ≠ location) :
    (workspace.emptied location).tree.find? other = workspace.tree.find? other :=
  workspace.tree.find?_put_of_ne _ h

theorem find?_overwrite_of_ne {other : Location} (bytes : Bytes) (h : other ≠ location) :
    (workspace.overwrite location bytes).tree.find? other = workspace.tree.find? other :=
  Tree.find?_overwrite_of_ne bytes h

theorem contents?_emptied_self (h : workspace.tree.passage? location = none) :
    (workspace.emptied location).tree.contents? location = some [] :=
  Tree.contents?_put_self [] (Tree.ne_nil_of_passage?_eq_none h)

/-- An empty file that is written holds what was written, and nothing else. -/
theorem contents?_overwrite_self (bytes : Bytes)
    (h : workspace.tree.contents? location = some []) :
    (workspace.overwrite location bytes).tree.contents? location = some bytes := by
  have hwritten := Tree.contents?_overwrite_self bytes h
  rwa [List.drop_nil, List.append_nil] at hwritten

/-- Two files that are both emptied before they are written hold their own
    bytes, if they are two. -/
theorem contents?_of_two_files {first second : Location} (firstBytes secondBytes : Bytes)
    (hfirst : workspace.tree.passage? first = none)
    (hsecond : (workspace.emptied first).tree.passage? second = none) (hne : first ≠ second) :
    ((((workspace.emptied first).emptied second).overwrite first firstBytes).overwrite second
          secondBytes).tree.contents? first = some firstBytes
      ∧ ((((workspace.emptied first).emptied second).overwrite first firstBytes).overwrite second
          secondBytes).tree.contents? second = some secondBytes := by
  have hempty : ((workspace.emptied first).emptied second).tree.contents? first = some [] := by
    rw [emptied, Tree.contents?_put_of_ne _ hne]
    exact contents?_emptied_self hfirst
  constructor
  · rw [overwrite, Tree.contents?_overwrite_of_ne _ hne]
    exact contents?_overwrite_self firstBytes hempty
  · refine contents?_overwrite_self secondBytes ?_
    rw [overwrite, Tree.contents?_overwrite_of_ne _ hne.symm]
    exact contents?_emptied_self hsecond

/-- A path is used to reach the file at its destination. -/
theorem resolve_use_of_destination? {contents : Bytes}
    (hdestination : workspace.destination? path = some location)
    (hcontents : workspace.tree.contents? location = some contents) :
    workspace.limits.allowsPath path = true
      ∧ workspace.resolve .use path = .ok (.existing location) := by
  obtain ⟨arrival, harrive, rfl⟩ := destination?_eq_some_iff.mp hdestination
  obtain ⟨hallowed, hresolve⟩ := arrive_eq_ok_iff.mp harrive
  obtain ⟨hzero, hempty, hleads⟩ := Tree.resolve_eq_ok_iff.mp hresolve
  refine ⟨hallowed, Tree.resolve_eq_ok_iff.mpr ⟨hzero, hempty, ?_⟩⟩
  cases arrival with
  | existing place => exact hleads.use
  | vacant place =>
      have hfile := Tree.contents?_eq_some_iff.mp hcontents
      rw [Arrival.location, hleads.find?_of_vacant.1] at hfile
      cases hfile

/-- What stands at the destination of a path is read through the path. -/
theorem read_of_destination? {contents : Bytes}
    (hdestination : workspace.destination? path = some location)
    (hcontents : workspace.tree.contents? location = some contents) :
    workspace.read path = .ok contents := by
  obtain ⟨hallowed, hresolve⟩ := resolve_use_of_destination? hdestination hcontents
  have harrive := arrive_eq_ok_iff.mpr ⟨hallowed, hresolve⟩
  simp only [read, harrive, bind, Except.bind, Arrival.location, hcontents]

/-! ## Canonical paths -/

/-- The canonical path of a path is that of the location where it leads. -/
theorem canonical_eq_ok_iff {full : Path} :
    workspace.canonical path = .ok full
      ↔ ∃ arrival, workspace.resolve .canonicalize path = .ok arrival
        ∧ Location.path arrival.location = full := by
  rw [canonical]
  cases workspace.resolve .canonicalize path with
  | error error => exact iff_of_false (fun h => by cases h) (fun ⟨_, h, _⟩ => by cases h)
  | ok found =>
      constructor
      · intro h
        exact ⟨found, rfl, Except.ok.inj h⟩
      · rintro ⟨_, ⟨⟩, rfl⟩
        rfl

/-- What a canonical path is found of is found to be used. -/
theorem resolve_use_of_canonicalize (h : workspace.resolve .canonicalize path = .ok arrival) :
    workspace.resolve .use path = .ok arrival := by
  obtain ⟨hzero, hempty, hleads⟩ := Tree.resolve_eq_ok_iff.mp h
  exact Tree.resolve_eq_ok_iff.mpr ⟨hzero, hempty, hleads.use_of_canonicalize⟩

/-- The canonical path of a path is the one of its destination. -/
theorem canonical_eq_of_destination? {full : Path}
    (h : workspace.destination? path = some location)
    (hcanonical : workspace.canonical path = .ok full) : full = Location.path location := by
  obtain ⟨arrival, harrive, rfl⟩ := destination?_eq_some_iff.mp h
  obtain ⟨-, hresolve⟩ := arrive_eq_ok_iff.mp harrive
  obtain ⟨hzero, hempty, hleads⟩ := Tree.resolve_eq_ok_iff.mp hresolve
  obtain ⟨found, hfound, rfl⟩ := canonical_eq_ok_iff.mp hcanonical
  have huse := resolve_use_of_canonicalize hfound
  cases arrival with
  | existing place =>
      have hplace : workspace.resolve .use path = .ok (.existing place) :=
        Tree.resolve_eq_ok_iff.mpr ⟨hzero, hempty, hleads.use⟩
      rw [huse] at hplace
      rw [Except.ok.inj hplace]
  | vacant place => exact absurd (Tree.resolve_eq_ok_iff.mp huse).2.2 hleads.not_use

/-- That a canonical path is found of every path that leads to a location: the
    one of the location. -/
def FindsCanonical (workspace : Workspace) (location : Location) : Prop :=
  ∀ path, workspace.resolve .use path = .ok (.existing location) →
    workspace.canonical path = .ok (Location.path location)

/-- **Canonical paths are found** where no entry has one that is too long. -/
theorem findsCanonical_of_entries
    (hfits : ∀ entry ∈ workspace.tree.entries,
      workspace.limits.allowsPath ⟨(Location.path entry.1).text ++ ['/']⟩ = true)
    (location : Location) : workspace.FindsCanonical location := by
  intro path h
  obtain ⟨hzero, hempty, hleads⟩ := Tree.resolve_eq_ok_iff.mp h
  have hfound : ∀ place, place ≠ [] → workspace.tree.find? place ≠ none →
      workspace.limits.allowsPath ⟨(Location.path place).text ++ ['/']⟩ = true := by
    intro place hplace hfind
    obtain ⟨entry, hentry⟩ := Option.ne_none_iff_exists'.mp hfind
    rw [Tree.find?, if_neg hplace] at hentry
    obtain ⟨front, back, hentries, -⟩ := List.lookup_eq_some_iff.mp hentry
    refine hfits (place, entry) ?_
    rw [hentries]
    exact List.mem_append_right front List.mem_cons_self
  exact canonical_eq_ok_iff.mpr ⟨_, Tree.resolve_eq_ok_iff.mpr
    ⟨hzero, hempty, hleads.canonicalize_of_use hfound⟩, rfl⟩

end Workspace

end Telecommand.File
