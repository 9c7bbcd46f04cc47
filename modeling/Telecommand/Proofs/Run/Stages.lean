import Telecommand.Proofs.Run.Streams

/-! # The stages of a run

    A run comes by its settings and its plan, checks the full paths, reads
    the script, compares the spellings of the two output paths, and opens the
    byte file and the delay file.  `FailsAt` says of each stage when it fails,
    by the workspace that the run found alone; a run fails exactly as one of
    its stages does (`runIn_eq_error_iff`), and up to the opening of the byte
    file it has left the tree as it was (`FailsAt.runIn_eq`). -/

namespace Telecommand.Run

open File Stimulus

variable {workspace after opened : Workspace} {options : Settings.Options}
  {config : Settings.Config} {plan : Plan} {source : Text} {failure : Failure}

/-! ## Stages and their failures -/

/-- The stages of a run that may fail, in their order. -/
inductive Stage
  | settings
  | plan
  | check
  | script
  | spelling
  | byteFile
  | delayFile
  deriving DecidableEq, Repr

/-- When a run fails at a stage, and with which failure: the stages in front
    of it succeed. -/
inductive FailsAt (workspace : Workspace) (options : Settings.Options) :
    Stage → Failure → Prop
  /-- The settings file is not read, or holds no settings. -/
  | settings {failure : Failure} (hconfig : configIn workspace options = .error failure) :
      FailsAt workspace options .settings failure
  /-- An extension in the settings holds a slash. -/
  | plan {config : Settings.Config} {extension : Text}
      (hconfig : configIn workspace options = .ok config)
      (hplan : Plan.resolve options config = .error extension) :
      FailsAt workspace options .plan (.extensionRejected extension)
  /-- Two of the three files have one full path. -/
  | check {config : Settings.Config} {plan : Plan} {failure : Failure}
      (hconfig : configIn workspace options = .ok config)
      (hplan : Plan.resolve options config = .ok plan)
      (hcheck : (evaluate workspace
        (plan.requireDistinctFiles : ExceptT Failure (StateM Workspace) Unit)).1
          = .error failure) :
      FailsAt workspace options .check failure
  /-- The script is not there, is a directory, or is no text. -/
  | script {config : Settings.Config} {plan : Plan} {fault : ReadFault}
      (hconfig : configIn workspace options = .ok config)
      (hplan : Plan.resolve options config = .ok plan)
      (hdiffer : FullPathsDiffer workspace plan)
      (hscript : readTextIn workspace plan.input = .error fault) :
      FailsAt workspace options .script (.scriptUnreadable plan.input fault)
  /-- The two output paths are spelled alike. -/
  | spelling {config : Settings.Config} {plan : Plan} {source : Text} {path : Path}
      (hprepared : Prepared workspace options config plan source)
      (hpath : plan.delayFile = some path) (hsame : path.sameAs plan.output = true) :
      FailsAt workspace options .spelling (.streamsShareFile path)
  /-- The byte file is not created. -/
  | byteFile {config : Settings.Config} {plan : Plan} {source : Text} {created : Workspace}
      {error : OsError} (hprepared : Prepared workspace options config plan source)
      (hspelling : ∀ path, plan.delayFile = some path → path.sameAs plan.output = false)
      (hbytes : workspace.create plan.output = (.error error, created)) :
      FailsAt workspace options .byteFile (.cannotCreate plan.output error)
  /-- The byte file is created, and the delay file is not. -/
  | delayFile {config : Settings.Config} {plan : Plan} {source : Text} {path : Path}
      {bytesAt : Location} {opened created : Workspace} {error : OsError}
      (hprepared : Prepared workspace options config plan source)
      (hpath : plan.delayFile = some path) (hspelling : path.sameAs plan.output = false)
      (hbytes : workspace.create plan.output = (.ok bytesAt, opened))
      (hdelays : opened.create path = (.error error, created)) :
      FailsAt workspace options .delayFile (.cannotCreate path error)

/-! ## Runs that fail -/

/-- The check changes nothing. -/
theorem snd_evaluate_requireDistinctFiles (workspace : Workspace) (plan : Plan) :
    (evaluate workspace
      (plan.requireDistinctFiles : ExceptT Failure (StateM Workspace) Unit)).2 = workspace := by
  rcases evaluate_requireDistinctFiles workspace plan with ⟨hcheck, -⟩ | ⟨_, hcheck, -⟩
  · rw [hcheck]
  · rw [hcheck]

/-- The check accepts a plan whose full paths differ. -/
theorem evaluate_requireDistinctFiles_ok (hdiffer : FullPathsDiffer workspace plan) :
    evaluate workspace (plan.requireDistinctFiles : ExceptT Failure (StateM Workspace) Unit)
      = (.ok (), workspace) := by
  rcases evaluate_requireDistinctFiles workspace plan with ⟨hcheck, -⟩ | ⟨_, -, hsame⟩
  · exact hcheck
  · exact absurd hdiffer hsame

/-- Behind the check, a run fails as the compilation of its script does. -/
theorem evaluate_planned_error (hdiffer : FullPathsDiffer workspace plan)
    (hcompile : evaluate (workspace.note (compiling plan))
        (compileScript plan.delayMode plan.layout plan.input plan.output plan.delayFile :
          ExceptT Failure (StateM Workspace) Script.Compilation) = (.error failure, after)) :
    evaluate workspace (planned plan) = (.error failure, after) := by
  rw [planned, evaluate_bind_ok (evaluate_requireDistinctFiles_ok hdiffer), evaluate_lift,
    Workspace.run_note]
  exact evaluate_bind_error hcompile

/-- A run that is prepared fails as writing the streams does, whatever records
    it has noted. -/
theorem runIn_of_prepared_error (hprepared : Prepared workspace options config plan source)
    (hwrite : ∀ records, evaluate { workspace with records := records }
        (writeStreams plan.layout (Script.Compilation.ofSource plan.delayMode source).packets
          plan.output plan.delayFile : ExceptT Failure (StateM Workspace) Unit)
      = (.error failure, { after with records := records })) :
    ∃ records, runIn workspace options = (.error failure, { after with records := records }) := by
  have hsource := hprepared.readTextIn_eq
  rw [← readTextIn_note (compiling plan)] at hsource
  obtain ⟨records, hcompile⟩ :=
    evaluate_compileScript_read plan.delayMode plan.layout plan.output plan.delayFile hsource
  refine ⟨records, ?_⟩
  rw [runIn_of_plan hprepared.configIn_eq hprepared.resolve_eq]
  refine evaluate_planned_error hprepared.fullPathsDiffer ?_
  rw [hcompile]
  exact evaluate_bind_error (hwrite records)

/-- Where the delay file is not created, a run leaves what the creation of the
    byte file has left. -/
theorem runIn_of_delays_not_created {path : Path} {bytesAt : Location} {error : OsError}
    (hprepared : Prepared workspace options config plan source)
    (hpath : plan.delayFile = some path) (hspelling : path.sameAs plan.output = false)
    (hbytes : workspace.create plan.output = (.ok bytesAt, opened))
    (hdelays : opened.create path = (.error error, after)) :
    ∃ records, runIn workspace options
      = (.error (.cannotCreate path error), { opened with records := records }) := by
  have hsplit := (Plan.layered_of_resolve hprepared.resolve_eq).isSome_delayFile_iff.mp
    (Option.isSome_of_eq_some hpath)
  cases Workspace.of_create_eq_error hdelays
  refine runIn_of_prepared_error hprepared ?_
  intro records
  rw [hsplit, hpath]
  exact evaluate_writeStreams_delaysNotOpened hspelling
    (Workspace.create_of_records records hbytes) (Workspace.create_of_records records hdelays)

/-- **A run fails as its stage does**, and unless the stage is the opening of
    the delay file, it leaves the tree as it is. -/
theorem FailsAt.runIn_eq {stage : Stage} (h : FailsAt workspace options stage failure) :
    ∃ after, runIn workspace options = (.error failure, after)
      ∧ (stage ≠ .delayFile → after.tree = workspace.tree) := by
  cases h with
  | settings hconfig => exact ⟨_, runIn_of_configIn_error hconfig, fun _ => rfl⟩
  | plan hconfig hplan =>
      refine ⟨workspace, ?_, fun _ => rfl⟩
      rw [runIn_of_configIn_ok hconfig, hplan]
  | check hconfig hplan hcheck =>
      refine ⟨workspace, ?_, fun _ => rfl⟩
      rw [runIn_of_plan hconfig hplan]
      exact evaluate_bind_error (Prod.ext hcheck (snd_evaluate_requireDistinctFiles _ _))
  | @script config plan fault hconfig hplan hdiffer hscript =>
      rw [← readTextIn_note (compiling plan)] at hscript
      refine ⟨workspace.note (compiling plan), ?_, fun _ => rfl⟩
      rw [runIn_of_plan hconfig hplan]
      exact evaluate_planned_error hdiffer (evaluate_compileScript_unread hscript)
  | @spelling config plan source path hprepared hpath hsame =>
      have hrun : ∃ records, runIn workspace options
          = (.error (.streamsShareFile path), { workspace with records := records }) := by
        refine runIn_of_prepared_error hprepared ?_
        intro records
        rw [hpath]
        exact evaluate_writeStreams_spelledAlike hsame
      obtain ⟨records, hrun⟩ := hrun
      exact ⟨_, hrun, fun _ => rfl⟩
  | byteFile hprepared hspelling hbytes =>
      cases Workspace.of_create_eq_error hbytes
      obtain ⟨records, hrun⟩ := runIn_of_prepared_error hprepared fun records =>
        evaluate_writeStreams_bytesNotOpened hspelling (Workspace.create_of_records records hbytes)
      exact ⟨_, hrun, fun _ => rfl⟩
  | delayFile hprepared hpath hspelling hbytes hdelays =>
      obtain ⟨records, hrun⟩ :=
        runIn_of_delays_not_created hprepared hpath hspelling hbytes hdelays
      exact ⟨_, hrun, fun hstage => absurd rfl hstage⟩

/-! ## All failures -/

/-- A run that is prepared fails at a stage, or can open its files. -/
theorem Prepared.failsAt_or_opens (hprepared : Prepared workspace options config plan source) :
    (∃ stage failure, FailsAt workspace options stage failure) ∨ OutputsOpen workspace plan := by
  by_cases hspelling : ∀ path, plan.delayFile = some path → path.sameAs plan.output = false
  · cases hbytes : workspace.create plan.output with
    | mk result opened =>
        cases result with
        | error error => exact .inl ⟨_, _, .byteFile hprepared hspelling hbytes⟩
        | ok bytesAt =>
            by_cases hdelays : ∀ path, plan.delayFile = some path →
                ∃ delaysAt last, opened.create path = (.ok delaysAt, last)
            · exact .inr ⟨hspelling, bytesAt, opened, hbytes, hdelays⟩
            · push Not at hdelays
              obtain ⟨path, hpath, hfails⟩ := hdelays
              cases hcreate : opened.create path with
              | mk result last =>
                  cases result with
                  | ok delaysAt => exact absurd hcreate (hfails delaysAt last)
                  | error error =>
                      exact .inl ⟨_, _, .delayFile hprepared hpath (hspelling path hpath) hbytes
                        hcreate⟩
  · push Not at hspelling
    obtain ⟨path, hpath, hsame⟩ := hspelling
    exact .inl ⟨_, _, .spelling hprepared hpath (eq_true_of_ne_false hsame)⟩

/-- A run fails at a stage, or it is prepared and can open its files. -/
theorem failsAt_or_opens (workspace : Workspace) (options : Settings.Options) :
    (∃ stage failure, FailsAt workspace options stage failure)
      ∨ ∃ config plan source, Prepared workspace options config plan source
          ∧ OutputsOpen workspace plan := by
  cases hconfig : configIn workspace options with
  | error failure => exact .inl ⟨_, _, .settings hconfig⟩
  | ok config =>
      cases hplan : Plan.resolve options config with
      | error extension => exact .inl ⟨_, _, .plan hconfig hplan⟩
      | ok plan =>
          rcases evaluate_requireDistinctFiles workspace plan with
            ⟨-, hdiffer⟩ | ⟨failure, hcheck, -⟩
          · cases hscript : readTextIn workspace plan.input with
            | error fault => exact .inl ⟨_, _, .script hconfig hplan hdiffer hscript⟩
            | ok source =>
                have hprepared : Prepared workspace options config plan source :=
                  ⟨hconfig, hplan, hdiffer, hscript⟩
                exact hprepared.failsAt_or_opens.imp_right fun hopen =>
                  ⟨config, plan, source, hprepared, hopen⟩
          · exact .inl ⟨_, _, .check hconfig hplan (congrArg Prod.fst hcheck)⟩

/-- **A run fails exactly as one of its stages does.** -/
theorem runIn_eq_error_iff :
    (runIn workspace options).1 = .error failure
      ↔ ∃ stage, FailsAt workspace options stage failure := by
  constructor
  · intro hrun
    rcases failsAt_or_opens workspace options with
      ⟨stage, other, hfails⟩ | ⟨config, plan, source, hprepared, hopen⟩
    · obtain ⟨after, hother, -⟩ := hfails.runIn_eq
      rw [hother] at hrun
      cases hrun
      exact ⟨stage, hfails⟩
    · obtain ⟨after, hok⟩ := runIn_of_prepared hprepared hopen
      rw [hok] at hrun
      cases hrun
  · rintro ⟨stage, hfails⟩
    obtain ⟨after, hrun, -⟩ := hfails.runIn_eq
    rw [hrun]

end Telecommand.Run
