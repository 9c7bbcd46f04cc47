import Telecommand.Proofs.Run.Ending
import Telecommand.Proofs.Run.Plan

/-! # What a run keeps

    Writing streams changes no entry besides those at the destinations of
    its two paths.  If a canonical path is found of every path to the script, the
    check of full paths notices every output path that leads there: a run keeps
    its script, however it ends (`runIn_keeps_script`). -/

namespace Telecommand.Run

open File Stimulus

variable {workspace after : Workspace} {layout : Layout} {packets : List TimedPacket}
  {bytesPath : Path} {delaysPath : Option Path} {result : Except Failure Unit}
  {location : Location} {contents : Bytes}

/-- Writing streams changes no entry but those at the destinations of its
    paths. -/
theorem Written.find?_eq
    (hwritten : Written workspace layout packets bytesPath delaysPath result after)
    (hbytesPath : workspace.destination? bytesPath ≠ some location)
    (hdelaysPath : ∀ path, delaysPath = some path →
      workspace.destination? path ≠ some location) :
    after.tree.find? location = workspace.tree.find? location := by
  have hbytesAt : ∀ bytesAt,
      workspace.create bytesPath = (.ok bytesAt, workspace.emptied bytesAt) →
        location ≠ bytesAt := by
    rintro bytesAt hbytes rfl
    exact hbytesPath (Workspace.of_create_eq_ok hbytes).1
  cases hwritten with
  | spelledAlike hpath hsame => rfl
  | bytesNotOpened hbytes => rfl
  | delaysNotOpened hlayout hpath hbytes hdelays =>
      exact Workspace.find?_emptied_of_ne (hbytesAt _ hbytes)
  | noDelayFile hlayout hpath hbytes | combined hlayout hbytes =>
      have hne := hbytesAt _ hbytes
      rw [Workspace.find?_overwrite_of_ne _ hne, Workspace.find?_emptied_of_ne hne]
  | @split path bytesAt delaysAt delays hlayout hpath hbytes hdelays hrendered =>
      have hne := hbytesAt _ hbytes
      -- the delay path leads where it led before the byte file was there
      have hother : location ≠ delaysAt := by
        rintro rfl
        exact hdelaysPath path hpath (Workspace.destination?_of_create_second hbytes hdelays)
      rw [Workspace.find?_overwrite_of_ne _ hother, Workspace.find?_overwrite_of_ne _ hne,
        Workspace.find?_emptied_of_ne hother, Workspace.find?_emptied_of_ne hne]

/-- Writing streams opens and closes no passage, so paths lead where they
    led. -/
theorem Written.sameWays
    (hwritten : Written workspace layout packets bytesPath delaysPath result after) :
    Workspace.SameWays workspace after := by
  cases hwritten with
  | spelledAlike hpath hsame => exact .refl workspace
  | bytesNotOpened hbytes => exact .refl workspace
  | delaysNotOpened hlayout hpath hbytes hdelays =>
      exact .emptied (Workspace.of_create_eq_ok hbytes).2.1
  | noDelayFile hlayout hpath hbytes | combined hlayout hbytes =>
      exact .trans (.emptied (Workspace.of_create_eq_ok hbytes).2.1) (.overwrite _ _ _)
  | split hlayout hpath hbytes hdelays hrendered =>
      have hemptied := Workspace.SameWays.trans
        (.emptied (Workspace.of_create_eq_ok hbytes).2.1)
        (.emptied (Workspace.of_create_eq_ok hdelays).2.1)
      exact hemptied.trans (.trans (.overwrite _ _ _) (.overwrite _ _ _))

/-- A path does not lead to a file that another path is used to reach, if the
    full paths of the two are not the same. -/
theorem destination?_ne_of_sameAs_eq_false {path script : Path}
    (hcanonical : workspace.FindsCanonical location)
    (hscript : workspace.resolve .use script = .ok (.existing location))
    (hcontents : workspace.tree.contents? location = some contents)
    (hdiffer : (fullPathIn workspace path).sameAs (fullPathIn workspace script) = false) :
    workspace.destination? path ≠ some location := by
  intro hdestination
  have huse := (Workspace.resolve_use_of_destination? hdestination hcontents).2
  rw [fullPathIn_of_canonical (hcanonical _ huse),
    fullPathIn_of_canonical (hcanonical _ hscript), Path.sameAs_self] at hdiffer
  cases hdiffer

/-- **No run writes over its script**, whatever its paths are and however it
    ends, if a canonical path is found of every path to the script. -/
theorem runIn_keeps_script (workspace : Workspace) (options : Settings.Options)
    {location : Location} {contents : Bytes} (hcanonical : workspace.FindsCanonical location)
    (hscript : workspace.resolve .use options.input = .ok (.existing location))
    (hcontents : workspace.tree.contents? location = some contents) :
    (runIn workspace options).2.tree.contents? location = some contents := by
  rcases runIn_cases workspace options with
    ⟨failure, records, hrun, -⟩
    | ⟨config, plan, source, records, result, after, hprepared, hwritten, hrun⟩
  · rw [hrun]
    exact hcontents
  · rw [hrun]
    rw [← (Plan.layered_of_resolve hprepared.resolve_eq).input_eq] at hscript
    have houtput : workspace.destination? plan.output ≠ some location :=
      destination?_ne_of_sameAs_eq_false hcanonical hscript hcontents
        hprepared.fullPathsDiffer.output
    have hdelays : ∀ path, plan.delayFile = some path →
        workspace.destination? path ≠ some location := fun path hpath =>
      destination?_ne_of_sameAs_eq_false hcanonical hscript hcontents
        (hprepared.fullPathsDiffer.delays path hpath).1
    -- the records noted on the way do not matter to where the paths lead
    have hfind : after.tree.find? location = workspace.tree.find? location :=
      hwritten.find?_eq houtput hdelays
    show after.tree.contents? location = some contents
    rw [Tree.contents?, hfind]
    exact hcontents

/-- A script is kept where the output path leads to it through a link to the
    directory that holds both. -/
theorem runIn_keeps_script_behind_link :
    (⟨⟨[([⟨"a", rfl⟩], .file [0x23, 0x0A]), ([⟨"l", rfl⟩], .link ⟨"."⟩)]⟩, [], [], {}⟩ :
          Workspace).destination? ⟨"l/a"⟩ = some [⟨"a", rfl⟩]
      ∧ (runIn ⟨⟨[([⟨"a", rfl⟩], .file [0x23, 0x0A]), ([⟨"l", rfl⟩], .link ⟨"."⟩)]⟩, [], [], {}⟩
          ⟨⟨"a"⟩, some ⟨"l/a"⟩, none, none, none, none, false, false⟩).2.tree.contents?
            [⟨"a", rfl⟩] = some [0x23, 0x0A] :=
  ⟨rfl, runIn_keeps_script _ _ (Workspace.findsCanonical_of_entries (by decide) _) rfl rfl⟩

end Telecommand.Run
