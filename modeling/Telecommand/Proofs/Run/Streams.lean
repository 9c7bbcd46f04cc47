import Telecommand.Console
import Telecommand.Proofs.Run.Kept

/-! # What a run delivers

    A run that is prepared and can open its files succeeds
    (`runIn_of_prepared`), and one that succeeds has written the streams of
    its script: read back, each of its files holds its own text and nothing
    else, provided that the two paths of a split run do not lead to one file
    (`runIn_delivers`).  Faults in the script do not keep the run from
    succeeding; they are counted, and decide its exit status unless they are
    allowed. -/

namespace Telecommand.Run

open File Stimulus

variable {workspace after : Workspace} {layout : Layout} {packets : List TimedPacket}
  {bytesPath : Path} {delaysPath : Option Path}

/-- A text is read back through a path that led to where it stands before it
    was written. -/
theorem readTextIn_of_sameWays {path : Path} {location : Location} {text : Text}
    (hways : Workspace.SameWays workspace after)
    (hdestination : workspace.destination? path = some location)
    (hcontents : after.tree.contents? location = some text.toUtf8) :
    readTextIn after path = .ok text := by
  rw [← hways.destination?_eq path] at hdestination
  exact readTextIn_of_read (Workspace.read_of_destination? hdestination hcontents)

/-- Streams that were written are read back, unless both paths led to one
    file. -/
theorem Written.reads_back
    (hwritten : Written workspace layout packets bytesPath delaysPath (.ok ()) after)
    (hfiles : ∀ path, delaysPath = some path →
      workspace.destination? path ≠ workspace.destination? bytesPath) :
    readTextIn after bytesPath = .ok (render layout packets).bytes
      ∧ (layout = .split → ∃ path delays, delaysPath = some path
          ∧ (render layout packets).delays = some delays
          ∧ readTextIn after path = .ok delays) := by
  have hways := hwritten.sameWays
  cases hwritten with
  | combined hlayout hbytes =>
      obtain ⟨hbytesAt, hpassage, -⟩ := Workspace.of_create_eq_ok hbytes
      subst hlayout
      refine ⟨readTextIn_of_sameWays hways hbytesAt ?_, fun hsplit => by cases hsplit⟩
      exact Workspace.contents?_overwrite_self _ (Workspace.contents?_emptied_self hpassage)
  | @split path bytesAt delaysAt delays hlayout hpath hbytes hdelays hrendered =>
      -- both files are empty when the first of them is written
      obtain ⟨hbytesAt, hpassage, -⟩ := Workspace.of_create_eq_ok hbytes
      have hdelaysAt := Workspace.destination?_of_create_second hbytes hdelays
      have hne : bytesAt ≠ delaysAt := by
        rintro rfl
        exact hfiles path hpath (hdelaysAt.trans hbytesAt.symm)
      obtain ⟨hfirst, hsecond⟩ := Workspace.contents?_of_two_files
        (render .split packets).bytes.toUtf8 delays.toUtf8 hpassage
        (Workspace.of_create_eq_ok hdelays).2.1 hne
      subst hlayout
      exact ⟨readTextIn_of_sameWays hways hbytesAt hfirst, fun _ =>
        ⟨path, delays, hpath, hrendered, readTextIn_of_sameWays hways hdelaysAt hsecond⟩⟩

/-- Whether the output files of a plan can be opened, one after the other. -/
structure OutputsOpen (workspace : Workspace) (plan : Plan) : Prop where
  spelling : ∀ path, plan.delayFile = some path → path.sameAs plan.output = false
  create : ∃ bytesAt opened, workspace.create plan.output = (.ok bytesAt, opened)
    ∧ ∀ path, plan.delayFile = some path →
      ∃ delaysAt last, opened.create path = (.ok delaysAt, last)

/-- Streams are written wherever both files can be opened. -/
theorem Written.eq_ok {result : Except Failure Unit} {records : List Log.Record} {plan : Plan}
    (hwritten : Written { workspace with records := records } plan.layout packets plan.output
      plan.delayFile result after)
    (hopen : OutputsOpen workspace plan)
    (hlayout : plan.delayFile.isSome = true ↔ plan.layout = .split) : result = .ok () := by
  obtain ⟨bytesAt, opened, hopened, hothers⟩ := hopen.create
  obtain ⟨-, -, rfl⟩ := Workspace.of_create_eq_ok hopened
  have hfirst := Workspace.create_of_records records hopened
  cases hwritten with
  | spelledAlike hpath hsame => exact Bool.noConfusion (hsame.symm.trans (hopen.spelling _ hpath))
  | bytesNotOpened hbytes => cases hbytes.symm.trans hfirst
  | delaysNotOpened hsplit hpath hbytes hdelays =>
      obtain ⟨delaysAt, last, hlast⟩ := hothers _ hpath
      cases hbytes.symm.trans hfirst
      cases hdelays.symm.trans (Workspace.create_of_records records hlast)
  | noDelayFile hsplit hpath hbytes =>
      rw [hpath] at hlayout
      cases hlayout.mpr hsplit
  | combined hcombined hbytes => rfl
  | split hsplit hpath hbytes hdelays hrendered => rfl

/-- A run that is prepared and can open its files succeeds, whatever faults
    its script has. -/
theorem runIn_of_prepared {options : Settings.Options} {config : Settings.Config} {plan : Plan}
    {source : Text} (hprepared : Prepared workspace options config plan source)
    (hopen : OutputsOpen workspace plan) :
    ∃ after, runIn workspace options
      = (.ok ⟨plan, Script.Compilation.ofSource plan.delayMode source⟩, after) := by
  rcases runIn_cases workspace options with
    ⟨failure, records, hfailed, hnot⟩
    | ⟨config', plan', source', records, result, after, hprepared', hwritten, hended⟩
  · exact absurd hprepared (hnot config plan source)
  · -- what a run is prepared for is determined by the workspace
    cases hprepared.configIn_eq.symm.trans hprepared'.configIn_eq
    cases hprepared.resolve_eq.symm.trans hprepared'.resolve_eq
    cases hprepared.readTextIn_eq.symm.trans hprepared'.readTextIn_eq
    have hlayers := Plan.layered_of_resolve hprepared.resolve_eq
    cases hwritten.eq_ok hopen hlayers.isSome_delayFile_iff
    exact ⟨after, hended⟩

/-- The exit status of a run with a summary tells of faults that nothing
    allows. -/
theorem status_finished_ne_zero_iff (verbosity : Console.Verbosity) (records : List Log.Record)
    (summary : Summary) :
    (Console.finished verbosity records (.ok summary)).status ≠ 0
      ↔ 0 < summary.faultCount ∧ summary.plan.allowErrors = false := by
  have hstatus : (Console.finished verbosity records (.ok summary)).status
      = if summary.isFailure then 1 else 0 := rfl
  rw [hstatus]
  cases hfailure : summary.isFailure <;> simp_all [Summary.isFailure]

/-- **Runs deliver the streams of their scripts.**  A run that is prepared and
    can open its files succeeds, however many faults the script has.  When a
    run has succeeded, the byte file holds the byte text and, in the split
    layout, the delay file the delay text, unless the two paths lead to one
    file. -/
theorem runIn_delivers (workspace : Workspace) (options : Settings.Options) :
    (∀ config plan source, Prepared workspace options config plan source →
      OutputsOpen workspace plan →
        ∃ after, runIn workspace options
          = (.ok ⟨plan, Script.Compilation.ofSource plan.delayMode source⟩, after))
    ∧ ∀ summary after, runIn workspace options = (.ok summary, after) →
      (∀ path, summary.plan.delayFile = some path →
        workspace.destination? path ≠ workspace.destination? summary.plan.output) →
      ∃ config source, configIn workspace options = .ok config
        ∧ Plan.resolve options config = .ok summary.plan
        ∧ readTextIn workspace options.input = .ok source
        ∧ summary.compilation = Script.Compilation.ofSource summary.plan.delayMode source
        ∧ readTextIn after summary.plan.output
            = .ok (render summary.plan.layout summary.compilation.packets).bytes
        ∧ (summary.plan.layout = .split → ∃ path delays, summary.plan.delayFile = some path
            ∧ (render summary.plan.layout summary.compilation.packets).delays = some delays
            ∧ readTextIn after path = .ok delays)
        ∧ summary.faultCount = summary.compilation.diagnostics.length
        ∧ ∀ verbosity records,
            (Console.finished verbosity records (.ok summary)).status ≠ 0
              ↔ 0 < summary.compilation.diagnostics.length ∧ options.allowErrors = false
                ∧ config.allowErrors = false := by
  constructor
  · intro config plan source hprepared hopen
    exact runIn_of_prepared hprepared hopen
  · intro summary after hrun hfiles
    obtain ⟨config, source, records, hprepared, hcompilation, hwritten⟩ := of_runIn_eq_ok hrun
    have hlayers := Plan.layered_of_resolve hprepared.resolve_eq
    obtain ⟨hbytes, hdelays⟩ := hwritten.reads_back hfiles
    refine ⟨config, source, hprepared.configIn_eq, hprepared.resolve_eq, ?_, hcompilation, hbytes,
      hdelays, rfl, ?_⟩
    · rw [← hlayers.input_eq]
      exact hprepared.readTextIn_eq
    · intro verbosity records
      rw [status_finished_ne_zero_iff, hlayers.allowErrors_eq, Bool.or_eq_false_iff]
      rfl

/-- A command, and a fault in the second line. -/
def faultyScript : Text := "POWER_OFF(1,2,3,4,5,6)\nX"

/-- The script beside a link to an older and longer byte file. -/
def olderFile : Workspace :=
  { tree := ⟨[([⟨"script", rfl⟩], .file faultyScript.toUtf8),
      ([⟨"old", rfl⟩], .file (List.replicate 99 0x41)), ([⟨"link", rfl⟩], .link ⟨"old"⟩)]⟩
    cwd := [] }

/-- The split layout, with the bytes behind the link. -/
def splitOverLink : Settings.Options :=
  ⟨⟨"script"⟩, some ⟨"link"⟩, some ⟨"delays"⟩, none, none, some .split, false, false⟩

/-- The plan that these options come to without a settings file. -/
def planOverLink : Plan :=
  ⟨⟨"script"⟩, ⟨"link"⟩, some ⟨"delays"⟩, .sticky, .split, false⟩

/-- Nothing is left of the older file, and the fault keeps nothing from being
    delivered. -/
theorem runIn_delivers_over_older_file :
    Prepared olderFile splitOverLink {} planOverLink faultyScript
      ∧ OutputsOpen olderFile planOverLink
      ∧ olderFile.destination? ⟨"delays"⟩ ≠ olderFile.destination? ⟨"link"⟩
      ∧ (runIn olderFile splitOverLink).1
        = .ok ⟨planOverLink, Script.Compilation.ofSource .sticky faultyScript⟩
      ∧ readTextIn (runIn olderFile splitOverLink).2 ⟨"link"⟩
        = .ok (render .split
            (Script.Compilation.ofSource .sticky faultyScript).packets).bytes := by
  have hprepared : Prepared olderFile splitOverLink {} planOverLink faultyScript :=
    { configIn_eq := rfl
      resolve_eq := rfl
      fullPathsDiffer := ⟨by decide, by
        rintro path ⟨⟩
        decide⟩
      readTextIn_eq := by decide +kernel }
  have hopen : OutputsOpen olderFile planOverLink :=
    { spelling := by
        rintro path ⟨⟩
        decide
      create := ⟨_, _, rfl, by
        rintro path ⟨⟩
        exact ⟨_, _, rfl⟩⟩ }
  have hfiles : olderFile.destination? ⟨"delays"⟩ ≠ olderFile.destination? ⟨"link"⟩ := by decide
  obtain ⟨after, hrun⟩ := (runIn_delivers olderFile splitOverLink).1 _ _ _ hprepared hopen
  obtain ⟨config, source, -, -, -, -, hbytes, -⟩ :=
    (runIn_delivers olderFile splitOverLink).2 _ _ hrun (by
      rintro path ⟨⟩
      exact hfiles)
  rw [hrun]
  exact ⟨hprepared, hopen, hfiles, rfl, hbytes⟩

end Telecommand.Run
