import Telecommand.Proofs.Run.Stages

/-! # What a run may change

    A run that fails before its byte file is open leaves the tree exactly as
    it was, and no run changes an entry besides the file that its byte path
    leads to and, in the split layout, the file that its delay path leads to
    (`runIn_changes_only_outputs`).  Only the last stage, the opening of the
    delay file, fails behind a change: the byte file is empty by then
    (`FailsAt.tree_eq_of_delayFile`). -/

namespace Telecommand.Run

open File

variable {workspace : Workspace} {options : Settings.Options} {location : Location}

/-- Whether a location is where a run puts a stream: where the file stands, or
    is made, that the byte path leads to, or in the split layout the delay
    path. -/
def IsOutput (workspace : Workspace) (options : Settings.Options) (location : Location) : Prop :=
  ∃ config plan, configIn workspace options = .ok config
    ∧ Plan.resolve options config = .ok plan
    ∧ (workspace.destination? plan.output = some location
      ∨ plan.layout = .split ∧ ∃ path, plan.delayFile = some path
        ∧ workspace.destination? path = some location)

/-- A run changes no entry that is not one of its outputs. -/
theorem find?_runIn (h : ¬ IsOutput workspace options location) :
    (runIn workspace options).2.tree.find? location = workspace.tree.find? location := by
  rcases runIn_cases workspace options with
    ⟨failure, records, hrun, -⟩
    | ⟨config, plan, source, records, result, after, hprepared, hwritten, hrun⟩
  · rw [hrun]
  · rw [hrun]
    have hconfig := hprepared.configIn_eq
    have hplan := hprepared.resolve_eq
    have hsplit := (Plan.layered_of_resolve hplan).isSome_delayFile_iff
    have hbytesPath : workspace.destination? plan.output ≠ some location := fun hbytes =>
      h ⟨config, plan, hconfig, hplan, .inl hbytes⟩
    have hdelaysPath : ∀ path, plan.delayFile = some path →
        workspace.destination? path ≠ some location := fun path hpath hdelays =>
      h ⟨config, plan, hconfig, hplan, .inr
        ⟨hsplit.mp (Option.isSome_of_eq_some hpath), path, hpath, hdelays⟩⟩
    -- the records noted on the way do not matter to where the paths lead
    exact hwritten.find?_eq hbytesPath hdelaysPath

/-- A run makes and removes no directory and no link, so paths lead where they
    led. -/
theorem sameWays_runIn (workspace : Workspace) (options : Settings.Options) :
    Workspace.SameWays workspace (runIn workspace options).2 := by
  have hnoted (records : List Log.Record) :
      Workspace.SameWays workspace { workspace with records := records } :=
    ⟨rfl, rfl, fun _ => rfl⟩
  rcases runIn_cases workspace options with
    ⟨failure, records, hrun, -⟩
    | ⟨config, plan, source, records, result, after, hprepared, hwritten, hrun⟩
  · rw [hrun]
    exact hnoted records
  · rw [hrun]
    exact (hnoted records).trans hwritten.sameWays

/-- In the combined layout, a delay path that the options name has no effect. -/
theorem runIn_delayFile_of_combined {config : Settings.Config}
    (hconfig : configIn workspace options = .ok config)
    (hlayout : options.layout.getD config.layout = .combined) (path : Option Path) :
    runIn workspace { options with delayFile := path } = runIn workspace options := by
  have hother : configIn workspace { options with delayFile := path } = .ok config := hconfig
  have hplan : Plan.resolve { options with delayFile := path } config
      = Plan.resolve options config := by
    unfold Plan.resolve
    simp only [hlayout]
  rw [runIn_of_configIn_ok hconfig, runIn_of_configIn_ok hother, hplan]

/-- What a run does to the tree, and what it leaves as it was. -/
structure Confined (workspace : Workspace) (options : Settings.Options) : Prop where
  /-- The failures of a run are those of its stages. -/
  fails_iff : ∀ failure, (runIn workspace options).1 = .error failure
    ↔ ∃ stage, FailsAt workspace options stage failure
  /-- A run that fails with its settings, its plan, the check, the script, the
      spelling of its paths or the byte file leaves the whole tree as it was. -/
  tree_eq : ∀ stage failure, FailsAt workspace options stage failure → stage ≠ .delayFile →
    (runIn workspace options).2.tree = workspace.tree
  /-- However a run ends, an entry that is there no more, is there for the
      first time or holds something else is one of its outputs. -/
  outputs : ∀ location,
    (runIn workspace options).2.tree.find? location ≠ workspace.tree.find? location →
      IsOutput workspace options location
  /-- Directories and links are as they were. -/
  sameWays : Workspace.SameWays workspace (runIn workspace options).2

/-- **A run changes only its outputs**, and nothing before its byte file is
    open. -/
theorem runIn_changes_only_outputs (workspace : Workspace) (options : Settings.Options) :
    Confined workspace options := by
  refine
    { fails_iff := fun _ => runIn_eq_error_iff
      tree_eq := ?_
      outputs := ?_
      sameWays := sameWays_runIn workspace options }
  · intro stage failure hfails hstage
    obtain ⟨after, hrun, htree⟩ := hfails.runIn_eq
    rw [hrun]
    exact htree hstage
  · intro location hchanged
    by_contra hother
    exact hchanged (find?_runIn hother)

/-- Where the delay file cannot be created, the byte file is there and empty, and
    nothing else has changed. -/
theorem FailsAt.tree_eq_of_delayFile {failure : Failure}
    (h : FailsAt workspace options .delayFile failure) :
    ∃ config plan bytesAt, configIn workspace options = .ok config
      ∧ Plan.resolve options config = .ok plan
      ∧ workspace.destination? plan.output = some bytesAt
      ∧ (runIn workspace options).2.tree = workspace.tree.put bytesAt (.file []) := by
  cases h with
  | @delayFile config plan source path bytesAt opened after error hprepared hpath hspelling
      hbytes hdelays =>
      obtain ⟨records, hrun⟩ :=
        runIn_of_delays_not_created hprepared hpath hspelling hbytes hdelays
      obtain ⟨hbytesAt, -, rfl⟩ := Workspace.of_create_eq_ok hbytes
      refine ⟨config, plan, bytesAt, hprepared.configIn_eq, hprepared.resolve_eq, hbytesAt, ?_⟩
      rw [hrun]
      rfl

/-- A script beside an older byte file, which a link leads to. -/
def besideLinkedOutput : Workspace :=
  { tree := ⟨[([⟨"src", rfl⟩], .file [0x23]), ([⟨"dst", rfl⟩], .file [0x41]),
      ([⟨"ref", rfl⟩], .link ⟨"dst"⟩)]⟩
    cwd := [] }

/-- The split layout, with the bytes behind the link and the delays in a
    directory that is not there. -/
def splitWithoutDirectory : Settings.Options :=
  ⟨⟨"src"⟩, some ⟨"ref"⟩, some ⟨"none/delays"⟩, none, none, some .split, false, false⟩

/-- It is not the link to the byte file that is empty, but the file behind the
    link. -/
example :
    (runIn besideLinkedOutput splitWithoutDirectory).1
        = .error (.cannotCreate ⟨"none/delays"⟩ .notFound)
      ∧ (runIn besideLinkedOutput splitWithoutDirectory).2.tree
        = besideLinkedOutput.tree.put [⟨"dst", rfl⟩] (.file []) := by
  decide +kernel

end Telecommand.Run
