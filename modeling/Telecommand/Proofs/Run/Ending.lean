import Telecommand.Proofs.Run.FullPath

/-! # How runs end

    Writing streams ends in one of six ways (`Written`), which say what was
    opened, where, and what stands there.  A run either fails before it
    opens any file, and then leaves the tree as it is, or it has read its
    settings and its script, has found the files of its plan distinct, and
    ends as writing the streams does (`runIn_cases`). -/

namespace Telecommand.Run

open File Stimulus

variable {workspace : Workspace}

/-- How writing the streams of a packet list to files ends: with a result, in
    a workspace. -/
inductive Written (workspace : Workspace) (layout : Layout) (packets : List TimedPacket)
    (bytesPath : Path) (delaysPath : Option Path) : Except Failure Unit → Workspace → Prop
  /-- The two paths are spelled alike, and nothing is opened. -/
  | spelledAlike {path : Path} (hpath : delaysPath = some path)
      (hsame : path.sameAs bytesPath = true) :
      Written workspace layout packets bytesPath delaysPath
        (.error (.streamsShareFile path)) workspace
  /-- The byte file cannot be opened. -/
  | bytesNotOpened {error : OsError}
      (hbytes : workspace.create bytesPath = (.error error, workspace)) :
      Written workspace layout packets bytesPath delaysPath
        (.error (.cannotCreate bytesPath error)) workspace
  /-- The byte file is opened, and the delay file cannot be. -/
  | delaysNotOpened {path : Path} {bytesAt : Location} {error : OsError}
      (hlayout : layout = .split) (hpath : delaysPath = some path)
      (hbytes : workspace.create bytesPath = (.ok bytesAt, workspace.emptied bytesAt))
      (hdelays : (workspace.emptied bytesAt).create path
        = (.error error, workspace.emptied bytesAt)) :
      Written workspace layout packets bytesPath delaysPath
        (.error (.cannotCreate path error)) (workspace.emptied bytesAt)
  /-- There is no delay file for the split layout. -/
  | noDelayFile {bytesAt : Location} (hlayout : layout = .split) (hpath : delaysPath = none)
      (hbytes : workspace.create bytesPath = (.ok bytesAt, workspace.emptied bytesAt)) :
      Written workspace layout packets bytesPath delaysPath
        (.error (.cannotWrite bytesPath .noDelaySink))
        ((workspace.emptied bytesAt).overwrite bytesAt (render .split packets).bytes.toUtf8)
  /-- The combined stream is written to the byte file. -/
  | combined {bytesAt : Location} (hlayout : layout = .combined)
      (hbytes : workspace.create bytesPath = (.ok bytesAt, workspace.emptied bytesAt)) :
      Written workspace layout packets bytesPath delaysPath (.ok ())
        ((workspace.emptied bytesAt).overwrite bytesAt (render .combined packets).bytes.toUtf8)
  /-- Both streams are written to their files. -/
  | split {path : Path} {bytesAt delaysAt : Location} {delays : Text}
      (hlayout : layout = .split) (hpath : delaysPath = some path)
      (hbytes : workspace.create bytesPath = (.ok bytesAt, workspace.emptied bytesAt))
      (hdelays : (workspace.emptied bytesAt).create path
        = (.ok delaysAt, (workspace.emptied bytesAt).emptied delaysAt))
      (hrendered : (render .split packets).delays = some delays) :
      Written workspace layout packets bytesPath delaysPath (.ok ())
        ((((workspace.emptied bytesAt).emptied delaysAt).overwrite bytesAt
          (render .split packets).bytes.toUtf8).overwrite delaysAt delays.toUtf8)

section

variable {layout : Layout} {packets : List TimedPacket} {bytesPath path : Path}
  {delaysPath : Option Path} {after opened last : Workspace} {bytesAt delaysAt : Location}
  {error : OsError}

/-- The spellings are compared in both layouts, before any file is opened. -/
theorem evaluate_writeStreams_spelledAlike (hsame : path.sameAs bytesPath = true) :
    evaluate workspace (writeStreams layout packets bytesPath (some path) :
        ExceptT Failure (StateM Workspace) Unit)
      = (.error (.streamsShareFile path), workspace) := by
  unfold writeStreams
  simp only [hsame, if_true]
  exact evaluate_bind_error (evaluate_throw _)

theorem evaluate_writeStreams_bytesNotOpened
    (hspelling : ∀ path, delaysPath = some path → path.sameAs bytesPath = false)
    (hbytes : workspace.create bytesPath = (.error error, after)) :
    evaluate workspace (writeStreams layout packets bytesPath delaysPath :
        ExceptT Failure (StateM Workspace) Unit)
      = (.error (.cannotCreate bytesPath error), after) := by
  unfold writeStreams
  cases delaysPath with
  | none => exact evaluate_bind_error (evaluate_openOutput_error hbytes)
  | some path =>
      simp only [hspelling path rfl, Bool.false_eq_true, if_false]
      exact evaluate_bind_error (evaluate_openOutput_error hbytes)

theorem evaluate_writeStreams_delaysNotOpened (hspelling : path.sameAs bytesPath = false)
    (hbytes : workspace.create bytesPath = (.ok bytesAt, opened))
    (hdelays : opened.create path = (.error error, after)) :
    evaluate workspace (writeStreams .split packets bytesPath (some path) :
        ExceptT Failure (StateM Workspace) Unit)
      = (.error (.cannotCreate path error), after) := by
  unfold writeStreams
  simp only [hspelling, Bool.false_eq_true, if_false]
  rw [evaluate_bind_ok (evaluate_openOutput_ok hbytes)]
  exact evaluate_bind_error (evaluate_map_error some (evaluate_openOutput_error hdelays))

theorem evaluate_writeStreams_noDelayFile
    (hbytes : workspace.create bytesPath = (.ok bytesAt, opened)) :
    evaluate workspace (writeStreams .split packets bytesPath none :
        ExceptT Failure (StateM Workspace) Unit)
      = (.error (.cannotWrite bytesPath .noDelaySink),
          opened.overwrite bytesAt (render .split packets).bytes.toUtf8) := by
  unfold writeStreams
  rw [evaluate_bind_ok (evaluate_openOutput_ok hbytes), evaluate_bind_ok (evaluate_pure _),
    evaluate_attempt, Option.map_none, evaluate_deliver_split_none]
  rfl

theorem evaluate_writeStreams_combined
    (hspelling : ∀ path, delaysPath = some path → path.sameAs bytesPath = false)
    (hbytes : workspace.create bytesPath = (.ok bytesAt, opened)) :
    evaluate workspace (writeStreams .combined packets bytesPath delaysPath :
        ExceptT Failure (StateM Workspace) Unit)
      = (.ok (), opened.overwrite bytesAt (render .combined packets).bytes.toUtf8) := by
  unfold writeStreams
  cases delaysPath with
  | none =>
      rw [evaluate_bind_ok (evaluate_openOutput_ok hbytes), evaluate_bind_ok (evaluate_pure _),
        evaluate_attempt, evaluate_deliver_combined]
      rfl
  | some path =>
      simp only [hspelling path rfl, Bool.false_eq_true, if_false]
      rw [evaluate_bind_ok (evaluate_openOutput_ok hbytes), evaluate_bind_ok (evaluate_pure _),
        evaluate_attempt, evaluate_deliver_combined]
      rfl

theorem evaluate_writeStreams_split {delays : Text} (hspelling : path.sameAs bytesPath = false)
    (hbytes : workspace.create bytesPath = (.ok bytesAt, opened))
    (hdelays : opened.create path = (.ok delaysAt, last))
    (hrendered : (render .split packets).delays = some delays) :
    evaluate workspace (writeStreams .split packets bytesPath (some path) :
        ExceptT Failure (StateM Workspace) Unit)
      = (.ok (), (last.overwrite bytesAt (render .split packets).bytes.toUtf8).overwrite delaysAt
          delays.toUtf8) := by
  unfold writeStreams
  simp only [hspelling, Bool.false_eq_true, if_false]
  rw [evaluate_bind_ok (evaluate_openOutput_ok hbytes),
    evaluate_bind_ok (evaluate_map_ok some (evaluate_openOutput_ok hdelays)), evaluate_attempt,
    Option.map_some, evaluate_deliver_split packets bytesAt delaysAt hrendered]
  rfl

/-- **How writing the streams ends.** -/
theorem evaluate_writeStreams (workspace : Workspace) (layout : Layout)
    (packets : List TimedPacket) (bytesPath : Path) (delaysPath : Option Path) :
    ∃ result after, evaluate workspace (writeStreams layout packets bytesPath delaysPath :
          ExceptT Failure (StateM Workspace) Unit) = (result, after)
      ∧ Written workspace layout packets bytesPath delaysPath result after := by
  by_cases hspelling : ∀ path, delaysPath = some path → path.sameAs bytesPath = false
  · cases hbytes : workspace.create bytesPath with
    | mk result opened =>
        cases result with
        | error error =>
            cases Workspace.of_create_eq_error hbytes
            exact ⟨_, _, evaluate_writeStreams_bytesNotOpened hspelling hbytes,
              .bytesNotOpened hbytes⟩
        | ok bytesAt =>
            obtain ⟨-, -, rfl⟩ := Workspace.of_create_eq_ok hbytes
            cases layout with
            | combined =>
                exact ⟨_, _, evaluate_writeStreams_combined hspelling hbytes,
                  .combined rfl hbytes⟩
            | split =>
                cases delaysPath with
                | none =>
                    exact ⟨_, _, evaluate_writeStreams_noDelayFile hbytes,
                      .noDelayFile rfl rfl hbytes⟩
                | some path =>
                    cases hdelays : (workspace.emptied bytesAt).create path with
                    | mk result last =>
                        cases result with
                        | error error =>
                            cases Workspace.of_create_eq_error hdelays
                            exact ⟨_, _, evaluate_writeStreams_delaysNotOpened
                              (hspelling path rfl) hbytes hdelays,
                              .delaysNotOpened rfl rfl hbytes hdelays⟩
                        | ok delaysAt =>
                            obtain ⟨-, -, rfl⟩ := Workspace.of_create_eq_ok hdelays
                            exact ⟨_, _, evaluate_writeStreams_split (hspelling path rfl) hbytes
                              hdelays rfl, .split rfl rfl hbytes hdelays rfl⟩
  · push Not at hspelling
    obtain ⟨path, rfl, hsame⟩ := hspelling
    have halike := eq_true_of_ne_false hsame
    exact ⟨_, _, evaluate_writeStreams_spelledAlike halike, .spelledAlike rfl halike⟩

end

/-! ## Runs -/

/-- The settings that a run goes by: those of the settings file that the
    options name, or the defaults. -/
def configIn (workspace : Workspace) (options : Settings.Options) :
    Except Failure Settings.Config :=
  match options.config with
  | some path => (evaluate workspace (loadConfig path)).1
  | none => .ok {}

/-- What a run has done before it opens a file to be written: it has its
    settings, a plan whose files have three full paths, and the source of the
    script. -/
structure Prepared (workspace : Workspace) (options : Settings.Options)
    (config : Settings.Config) (plan : Plan) (source : Text) : Prop where
  configIn_eq : configIn workspace options = .ok config
  resolve_eq : Plan.resolve options config = .ok plan
  fullPathsDiffer : FullPathsDiffer workspace plan
  readTextIn_eq : readTextIn workspace plan.input = .ok source

theorem evaluate_loadConfig (workspace : Workspace) (path : Path) :
    evaluate workspace (loadConfig path : ExceptT Failure (StateM Workspace) Settings.Config)
      = ((evaluate workspace (loadConfig path :
          ExceptT Failure (StateM Workspace) Settings.Config)).1, workspace) := by
  rw [loadConfig, evaluate_readText]
  cases readTextIn workspace path with
  | error fault => rfl
  | ok text => cases hconfig : Settings.Config.ofText? text <;> simp only [hconfig] <;> rfl

/-- Records are noted behind those that are there. -/
theorem run_forM_note (workspace : Workspace) (records : List Log.Record) :
    (records.forM Log.Journal.note : StateM Workspace Unit).run workspace
      = pure ((), { workspace with records := workspace.records ++ records }) := by
  induction records generalizing workspace with
  | nil =>
      rw [List.append_nil]
      rfl
  | cons record rest ih =>
      have hrest := ih (workspace.note record)
      rw [Workspace.note, List.append_assoc, List.singleton_append] at hrest
      exact hrest

/-- A script that cannot be read is not compiled. -/
theorem evaluate_compileScript_unread {mode : Script.DelayMode} {layout : Layout}
    {input bytesPath : Path} {delaysPath : Option Path} {fault : ReadFault}
    (h : readTextIn workspace input = .error fault) :
    evaluate workspace (compileScript mode layout input bytesPath delaysPath :
        ExceptT Failure (StateM Workspace) Script.Compilation)
      = (.error (.scriptUnreadable input fault), workspace) := by
  rw [compileScript, evaluate_readText, h]
  exact evaluate_throw _

/-- A script that is read is compiled, and it is left to write its streams. -/
theorem evaluate_compileScript_read (mode : Script.DelayMode) (layout : Layout)
    {input : Path} (bytesPath : Path) (delaysPath : Option Path) {source : Text}
    (h : readTextIn workspace input = .ok source) :
    ∃ records, evaluate workspace (compileScript mode layout input bytesPath delaysPath :
          ExceptT Failure (StateM Workspace) Script.Compilation)
        = evaluate { workspace with records := records } (do
            writeStreams layout (Script.Compilation.ofSource mode source).packets bytesPath
              delaysPath
            return Script.Compilation.ofSource mode source) := by
  rw [compileScript, evaluate_readText, h]
  -- which records are noted on the way does not matter to the files
  have hnote := run_forM_note workspace (scriptLoaded input source
    :: (Script.Compilation.traced mode source.lines).2.map Script.Event.record)
  generalize workspace.records ++ _ = records at hnote
  refine ⟨records, ?_⟩
  simp only []
  rw [evaluate_lift, hnote]
  rfl

/-- A script that cannot be read is not compiled.  A script that is read is
    compiled, and its streams are written. -/
theorem evaluate_compileScript (workspace : Workspace) (mode : Script.DelayMode)
    (layout : Layout) (input bytesPath : Path) (delaysPath : Option Path) :
    (∃ failure fault, evaluate workspace (compileScript mode layout input bytesPath delaysPath :
          ExceptT Failure (StateM Workspace) Script.Compilation) = (.error failure, workspace)
        ∧ readTextIn workspace input = .error fault)
      ∨ ∃ source records result after, readTextIn workspace input = .ok source
          ∧ Written { workspace with records := records } layout
              (Script.Compilation.ofSource mode source).packets bytesPath delaysPath result after
          ∧ evaluate workspace (compileScript mode layout input bytesPath delaysPath :
              ExceptT Failure (StateM Workspace) Script.Compilation)
            = (result.map fun _ => Script.Compilation.ofSource mode source, after) := by
  cases hread : readTextIn workspace input with
  | error fault => exact .inl ⟨_, fault, evaluate_compileScript_unread hread, rfl⟩
  | ok source =>
      obtain ⟨records, hcompile⟩ :=
        evaluate_compileScript_read mode layout bytesPath delaysPath hread
      obtain ⟨result, after, hwrite, hwritten⟩ :=
        evaluate_writeStreams { workspace with records := records } layout
          (Script.Compilation.ofSource mode source).packets bytesPath delaysPath
      refine .inr ⟨source, records, result, after, rfl, hwritten, ?_⟩
      rw [hcompile]
      cases result with
      | error failure => exact evaluate_bind_error hwrite
      | ok done => exact evaluate_bind_ok hwrite

/-- What a run does once it has a plan. -/
def planned (plan : Plan) : ExceptT Failure (StateM Workspace) Summary := do
  plan.requireDistinctFiles
  (Log.Journal.note (compiling plan) : StateM Workspace Unit)
  let compilation ← compileScript plan.delayMode plan.layout plan.input plan.output
    plan.delayFile
  return ⟨plan, compilation⟩

/-- With a plan, a run fails before it opens any file, or its files are
    distinct, its script is read, and it ends as writing the streams does. -/
theorem evaluate_planned (workspace : Workspace) (plan : Plan) :
    (∃ failure records, evaluate workspace (planned plan)
          = (.error failure, { workspace with records := records })
        ∧ ∀ source, FullPathsDiffer workspace plan →
            readTextIn workspace plan.input ≠ .ok source)
      ∨ ∃ source records result after, FullPathsDiffer workspace plan
          ∧ readTextIn workspace plan.input = .ok source
          ∧ Written { workspace with records := records } plan.layout
              (Script.Compilation.ofSource plan.delayMode source).packets plan.output
              plan.delayFile result after
          ∧ evaluate workspace (planned plan)
            = (result.map fun _ => ⟨plan, Script.Compilation.ofSource plan.delayMode source⟩,
                after) := by
  rw [planned]
  rcases evaluate_requireDistinctFiles workspace plan with
    ⟨hcheck, hdiffer⟩ | ⟨failure, hcheck, hsame⟩
  · rw [evaluate_bind_ok hcheck, evaluate_lift, Workspace.run_note]
    rcases evaluate_compileScript (workspace.note (compiling plan)) plan.delayMode plan.layout
        plan.input plan.output plan.delayFile with
      ⟨failure, fault, hcompile, hfault⟩
      | ⟨source, records, result, after, hsource, hwritten, hcompile⟩
    · rw [readTextIn_note] at hfault
      refine .inl ⟨failure, _, evaluate_bind_error hcompile, ?_⟩
      intro source _ hsource
      cases hfault.symm.trans hsource
    · rw [readTextIn_note] at hsource
      refine .inr ⟨source, records, result, after, hdiffer, hsource, hwritten, ?_⟩
      cases result with
      | error failure => exact evaluate_bind_error hcompile
      | ok done => exact evaluate_bind_ok hcompile
  · exact .inl ⟨failure, workspace.records, evaluate_bind_error hcheck,
      fun _ hdiffer => absurd hdiffer hsame⟩

/-- Without its settings, a run does nothing. -/
theorem runIn_of_configIn_error {options : Settings.Options} {failure : Failure}
    (h : configIn workspace options = .error failure) :
    runIn workspace options = (.error failure, workspace) := by
  show evaluate workspace (run options) = _
  unfold configIn at h
  unfold run
  cases hoption : options.config with
  | none =>
      rw [hoption] at h
      cases h
  | some path =>
      simp only [hoption] at h ⊢
      have hload := evaluate_loadConfig workspace path
      rw [h] at hload
      exact evaluate_bind_error hload

/-- With its settings, a run goes by its plan if it comes to one. -/
theorem runIn_of_configIn_ok {options : Settings.Options} {config : Settings.Config}
    (h : configIn workspace options = .ok config) :
    runIn workspace options
      = match Plan.resolve options config with
        | .ok plan => evaluate workspace (planned plan)
        | .error extension => (.error (.extensionRejected extension), workspace) := by
  show evaluate workspace (run options) = _
  unfold configIn at h
  unfold run
  -- both ways to come by settings leave the workspace as it is
  cases hoption : options.config with
  | none =>
      simp only [hoption] at h ⊢
      cases h
      rw [evaluate_bind_ok (evaluate_pure _)]
      cases Plan.resolve options {} with
      | ok plan => exact evaluate_bind_ok (evaluate_pure _)
      | error extension => exact evaluate_bind_error (evaluate_throw _)
  | some path =>
      simp only [hoption] at h ⊢
      have hload := evaluate_loadConfig workspace path
      rw [h] at hload
      rw [evaluate_bind_ok hload]
      cases Plan.resolve options config with
      | ok plan => exact evaluate_bind_ok (evaluate_pure _)
      | error extension => exact evaluate_bind_error (evaluate_throw _)

theorem runIn_of_plan {options : Settings.Options} {config : Settings.Config} {plan : Plan}
    (hconfig : configIn workspace options = .ok config)
    (hplan : Plan.resolve options config = .ok plan) :
    runIn workspace options = evaluate workspace (planned plan) := by
  rw [runIn_of_configIn_ok hconfig, hplan]

/-- A run without settings or without a plan changes nothing. -/
theorem runIn_of_no_plan {options : Settings.Options}
    (h : ∀ config, configIn workspace options = .ok config →
      ∀ plan, Plan.resolve options config ≠ .ok plan) :
    ∃ failure, runIn workspace options = (.error failure, workspace) := by
  cases hconfig : configIn workspace options with
  | error failure => exact ⟨failure, runIn_of_configIn_error hconfig⟩
  | ok config =>
      rw [runIn_of_configIn_ok hconfig]
      cases hplan : Plan.resolve options config with
      | ok plan => exact absurd hplan (h config hconfig plan)
      | error extension => exact ⟨_, rfl⟩

/-- **How runs end.**  A run that is not prepared fails before it opens any
    file, and leaves all of the workspace but the records as it is; any other
    run ends as writing the streams of its script does. -/
theorem runIn_cases (workspace : Workspace) (options : Settings.Options) :
    (∃ failure records, runIn workspace options
          = (.error failure, { workspace with records := records })
        ∧ ∀ config plan source, ¬ Prepared workspace options config plan source)
      ∨ ∃ config plan source records result after,
          Prepared workspace options config plan source
            ∧ Written { workspace with records := records } plan.layout
                (Script.Compilation.ofSource plan.delayMode source).packets plan.output
                plan.delayFile result after
            ∧ runIn workspace options
              = (result.map fun _ => ⟨plan, Script.Compilation.ofSource plan.delayMode source⟩,
                  after) := by
  -- what a run does before it has a plan, it does in the workspace as it was
  by_cases hplanned : ∃ config plan, configIn workspace options = .ok config
      ∧ Plan.resolve options config = .ok plan
  · obtain ⟨config, plan, hconfig, hplan⟩ := hplanned
    rw [runIn_of_plan hconfig hplan]
    rcases evaluate_planned workspace plan with
      ⟨failure, records, hrun, hnot⟩
      | ⟨source, records, result, after, hdiffer, hsource, hwritten, hrun⟩
    · refine .inl ⟨failure, records, hrun, ?_⟩
      intro otherConfig otherPlan source hprepared
      cases hconfig.symm.trans hprepared.configIn_eq
      cases hplan.symm.trans hprepared.resolve_eq
      exact hnot source hprepared.fullPathsDiffer hprepared.readTextIn_eq
    · exact .inr ⟨config, plan, source, records, result, after,
        ⟨hconfig, hplan, hdiffer, hsource⟩, hwritten, hrun⟩
  · obtain ⟨failure, hrun⟩ := runIn_of_no_plan fun config hconfig plan hplan =>
      hplanned ⟨config, plan, hconfig, hplan⟩
    refine .inl ⟨failure, workspace.records, hrun, ?_⟩
    intro config plan source hprepared
    exact hplanned ⟨config, plan, hprepared.configIn_eq, hprepared.resolve_eq⟩

/-- A run that succeeds was prepared, and has written its streams. -/
theorem of_runIn_eq_ok {options : Settings.Options} {summary : Summary} {after : Workspace}
    (hrun : runIn workspace options = (.ok summary, after)) :
    ∃ config source records, Prepared workspace options config summary.plan source
      ∧ summary.compilation = Script.Compilation.ofSource summary.plan.delayMode source
      ∧ Written { workspace with records := records } summary.plan.layout
          summary.compilation.packets summary.plan.output summary.plan.delayFile (.ok ())
          after := by
  rcases runIn_cases workspace options with
    ⟨failure, records, hfailed, -⟩
    | ⟨config, plan, source, records, result, final, hprepared, hwritten, hended⟩
  · rw [hfailed] at hrun
    cases hrun
  · rw [hended] at hrun
    cases result with
    | error failure => cases hrun
    | ok done =>
        cases hrun
        exact ⟨config, source, records, hprepared, rfl, hwritten⟩

end Telecommand.Run
