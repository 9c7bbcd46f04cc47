import Telecommand.Proofs.Run.Kept

/-! # Two output files

    The check of a plan compares full paths, and the files are opened by
    following the paths.  The two notions of one file agree for paths that lead
    straight.  So byte file and delay file of an accepted plan are one exactly
    if their paths meet without both leading straight (`one_file_iff`), and
    otherwise each of them holds its own stream (`opens_two_files`).  That they
    can meet so is seen behind a link whose target is not there: the full path
    of such a link is the link, and the file that is made is its target
    (`accepts_target_of_dangling_link`). -/

namespace Telecommand.Run

open File Stimulus

variable {workspace accepted opened after : Workspace} {plan : Plan} {delays : Path}
  {bytesAt delaysAt : Location}

/-- Whether two paths meet astray: they lead to one location, but not both of
    them straight. -/
def MeetAstray (workspace : Workspace) (first second : Path) : Prop :=
  workspace.destination? first = workspace.destination? second
    ∧ ¬ (LeadsStraight workspace first ∧ LeadsStraight workspace second)

/-- Straight paths whose full paths differ lead to two destinations. -/
theorem FullPathsDiffer.destinations_ne (hdiffer : FullPathsDiffer workspace plan)
    (hfile : plan.delayFile = some delays)
    (hbytesAt : workspace.destination? plan.output = some bytesAt)
    (hdelaysAt : workspace.destination? delays = some delaysAt)
    (houtput : LeadsStraight workspace plan.output) (hdelays : LeadsStraight workspace delays) :
    bytesAt ≠ delaysAt := by
  rintro rfl
  have hsame := (hdiffer.delays delays hfile).2
  rw [fullPathIn_of_destination? hbytesAt houtput, fullPathIn_of_destination? hdelaysAt hdelays,
    Path.sameAs_self] at hsame
  cases hsame

/-- A plan that the check accepts has full paths that differ. -/
theorem fullPathsDiffer_of_accepted
    (h : evaluate workspace (plan.requireDistinctFiles : ExceptT Failure (StateM Workspace) Unit)
      = (.ok (), accepted)) :
    accepted = workspace ∧ FullPathsDiffer workspace plan := by
  rcases evaluate_requireDistinctFiles workspace plan with
    ⟨hcheck, hdiffer⟩ | ⟨failure, hcheck, -⟩
  · rw [h] at hcheck
    cases hcheck
    exact ⟨rfl, hdiffer⟩
  · rw [h] at hcheck
    cases hcheck

/-- The output files of an accepted plan are one exactly if their paths meet
    astray. -/
theorem one_file_iff (hdiffer : FullPathsDiffer workspace plan)
    (hfile : plan.delayFile = some delays)
    (hbytesAt : workspace.create plan.output = (.ok bytesAt, workspace.emptied bytesAt))
    (hdelaysAt : (workspace.emptied bytesAt).create delays = (.ok delaysAt, after)) :
    bytesAt = delaysAt ↔ MeetAstray workspace plan.output delays := by
  have hfirst := (Workspace.of_create_eq_ok hbytesAt).1
  have hsecond := Workspace.destination?_of_create_second hbytesAt hdelaysAt
  constructor
  · rintro rfl
    refine ⟨hfirst.trans hsecond.symm, ?_⟩
    rintro ⟨houtput, hdelays⟩
    exact hdiffer.destinations_ne hfile hfirst hsecond houtput hdelays rfl
  · rintro ⟨hsame, -⟩
    rw [hfirst, hsecond] at hsame
    exact Option.some.inj hsame

/-- **An accepted plan opens two files**, if its output paths do not meet astray:
    the byte file and the delay file are not one, and each of them holds what
    was written to it. -/
theorem opens_two_files
    (haccepted : evaluate workspace
      (plan.requireDistinctFiles : ExceptT Failure (StateM Workspace) Unit) = (.ok (), accepted))
    (hfile : plan.delayFile = some delays)
    (hbytesAt : accepted.create plan.output = (.ok bytesAt, opened))
    (hdelaysAt : opened.create delays = (.ok delaysAt, after))
    (hastray : ¬ MeetAstray workspace plan.output delays) :
    bytesAt ≠ delaysAt
      ∧ ∀ bytes delayBytes,
        ((after.overwrite bytesAt bytes).overwrite delaysAt delayBytes).tree.contents? bytesAt
            = some bytes
          ∧ ((after.overwrite bytesAt bytes).overwrite delaysAt delayBytes).tree.contents? delaysAt
            = some delayBytes := by
  obtain ⟨rfl, hdiffer⟩ := fullPathsDiffer_of_accepted haccepted
  obtain ⟨-, hpassage, rfl⟩ := Workspace.of_create_eq_ok hbytesAt
  have hne : bytesAt ≠ delaysAt :=
    fun hone => hastray ((one_file_iff hdiffer hfile hbytesAt hdelaysAt).mp hone)
  obtain ⟨-, hother, rfl⟩ := Workspace.of_create_eq_ok hdelaysAt
  exact ⟨hne, fun bytes delayBytes =>
    Workspace.contents?_of_two_files bytes delayBytes hpassage hother hne⟩

/-- A script, an older file, and a link whose target is not there. -/
def besideDanglingLink : Workspace :=
  { tree := ⟨[([⟨"a", rfl⟩], .file [0x23]), ([⟨"l", rfl⟩], .link ⟨"t"⟩),
      ([⟨"o", rfl⟩], .file [0x41, 0x42])]⟩
    cwd := [] }

/-- A byte file that is made behind a link, to which the byte path does not lead
    straight, and a delay file that is there are two. -/
theorem opens_two_files_behind_dangling_link :
    ¬ LeadsStraight besideDanglingLink ⟨"l"⟩
      ∧ besideDanglingLink.destination? ⟨"l"⟩ = some [⟨"t", rfl⟩]
      ∧ besideDanglingLink.destination? ⟨"./o"⟩ = some [⟨"o", rfl⟩]
      ∧ ([⟨"t", rfl⟩] : Location) ≠ [⟨"o", rfl⟩] := by
  refine ⟨?_, rfl, rfl, ?_⟩
  · rintro (⟨full, hfull⟩ | ⟨front, name, directory, hsteps, hdirectory, hlink⟩)
    · cases hfull
    · have hname : front ++ [Step.name name] = [.name ⟨"l", rfl⟩] := hsteps.symm
      obtain ⟨rfl, ⟨⟩⟩ := List.append_eq_singleton_iff.mp hname |>.resolve_right (by simp)
      cases hdirectory
      exact hlink _ rfl
  · refine (@opens_two_files besideDanglingLink _ _ _
      ⟨⟨"a"⟩, ⟨"l"⟩, some ⟨"./o"⟩, .sticky, .split, false⟩ ⟨"./o"⟩ _ _ rfl rfl rfl rfl ?_).1
    rintro ⟨hsame, -⟩
    cases hsame

/-- The check accepts the link together with its target as delay path, and the
    file that both are opened as is one. -/
theorem accepts_target_of_dangling_link :
    evaluate besideDanglingLink ((⟨⟨"a"⟩, ⟨"l"⟩, some ⟨"t"⟩, .sticky, .split, false⟩ :
          Plan).requireDistinctFiles : ExceptT Failure (StateM Workspace) Unit)
        = (.ok (), besideDanglingLink)
      ∧ besideDanglingLink.create ⟨"l"⟩
        = (.ok [⟨"t", rfl⟩], besideDanglingLink.emptied [⟨"t", rfl⟩])
      ∧ ((besideDanglingLink.emptied [⟨"t", rfl⟩]).create ⟨"t"⟩).1 = .ok [⟨"t", rfl⟩] :=
  ⟨rfl, rfl, rfl⟩

/-- The paths of a run that succeeds lead to two files, if both lead
    straight. -/
theorem destination?_ne_of_runIn {options : Settings.Options} {summary : Summary}
    (hrun : runIn workspace options = (.ok summary, after))
    (hfile : summary.plan.delayFile = some delays)
    (houtput : LeadsStraight workspace summary.plan.output)
    (hdelays : LeadsStraight workspace delays) :
    workspace.destination? delays ≠ workspace.destination? summary.plan.output := by
  obtain ⟨config, source, records, hprepared, -, hwritten⟩ := of_runIn_eq_ok hrun
  obtain ⟨bytesAt, hbytesAt⟩ :
      ∃ bytesAt, workspace.destination? summary.plan.output = some bytesAt := by
    cases hwritten with
    | combined hlayout hbytes => exact ⟨_, (Workspace.of_create_eq_ok hbytes).1⟩
    | split hlayout hpath hbytes hdelays hrendered =>
        exact ⟨_, (Workspace.of_create_eq_ok hbytes).1⟩
  intro hsame
  exact hprepared.fullPathsDiffer.destinations_ne hfile hbytesAt (hsame.trans hbytesAt) houtput
    hdelays rfl

end Telecommand.Run
