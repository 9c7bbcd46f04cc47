import Telecommand.Proofs.Path.Extension
import Telecommand.Proofs.Run.Plan

/-! # Files that are not named

    Extensions without a slash always make a plan, and output files that the
    command line does not name stand beside the script
    (`plan_layers_and_derives`): the byte file under the script's stem, the
    delay file under the byte file's own stem.  So two of the three paths are
    the same only where extensions agree.

    This is so unless the stem of the script is a lone dot that gets lost on the
    way (`LosesStem`), and then it never is (`not_derived_of_losesStem`). -/

namespace Telecommand.Run.Plan

open Settings Telecommand.Path

variable {options : Options} {config : Config} {plan : Plan} {path other : Path}
  {extension : Text}

/-! ## The paths of a plan -/

theorem exists_namedOr (named : Option Path) (path : Path) (hslash : '/' ∉ extension) :
    ∃ other, namedOr named path extension = .ok other := by
  cases named with
  | some other => exact ⟨other, rfl⟩
  | none =>
      rw [namedOr, withExtension?, if_neg hslash]
      exact ⟨_, rfl⟩

/-- There is a plan if no extension holds a slash. -/
theorem exists_resolve (options : Options) (houtput : '/' ∉ config.outputExtension)
    (hdelays : '/' ∉ config.delayExtension) : ∃ plan, resolve options config = .ok plan := by
  obtain ⟨output, hbytes⟩ := exists_namedOr options.output options.input houtput
  obtain ⟨delays, hnamed⟩ := exists_namedOr options.delayFile output hdelays
  unfold resolve
  rw [hbytes]
  cases options.layout.getD config.layout with
  | combined => exact ⟨_, rfl⟩
  | split =>
      show ∃ plan, ((some <$> namedOr options.delayFile output config.delayExtension) >>= _) = _
      rw [hnamed]
      exact ⟨_, rfl⟩

theorem namedOr_none_eq_ok_iff :
    namedOr none path extension = .ok other ↔ path.withExtension? extension = some other := by
  rw [namedOr]
  cases path.withExtension? extension with
  | none =>
      constructor
      · intro h
        cases h
      · intro h
        cases h
  | some found =>
      constructor
      · rintro ⟨⟩
        rfl
      · rintro ⟨⟩
        rfl

/-! ## Files beside the script -/

/-- That a path stands beside another one: in the same directory, and under its
    stem with an extension of its own. -/
structure StandsBeside (path other : Path) (extension : Text) : Prop where
  parent?_eq : other.parent? = path.parent?
  fileName?_eq : ∃ stem, path.stem? = some stem
    ∧ other.fileName?.map Name.text = some (stem ++ '.' :: extension)

/-- What becomes of the files that a command line does not name. -/
structure Derived (config : Config) (plan : Plan) : Prop where
  /-- The byte file stands beside the script, under the script's stem. -/
  output_beside : StandsBeside plan.input plan.output config.outputExtension
  /-- The delay file stands beside the byte file, under the byte file's stem. -/
  delays_beside : ∀ delays ∈ plan.delayFile,
    StandsBeside plan.output delays config.delayExtension
  delays_parent?_eq : ∀ delays ∈ plan.delayFile, delays.parent? = plan.input.parent?
  /-- Unless the first extension holds a dot, the files are the same exactly if
      their extensions are. -/
  output_sameAs_delays_iff : '.' ∉ config.outputExtension → ∀ delays ∈ plan.delayFile,
    (plan.output.sameAs delays = true ↔ config.outputExtension = config.delayExtension)
  output_sameAs_input_iff : plan.output.sameAs plan.input = true
    ↔ plan.input.extension? = some config.outputExtension
  delays_sameAs_input_iff : '.' ∉ config.outputExtension → ∀ delays ∈ plan.delayFile,
    (delays.sameAs plan.input = true ↔ plan.input.extension? = some config.delayExtension)

variable {front idle : List Text} {file bytesName : Name}

/-- A path that is derived from a path to a name keeps the name's stem, unless
    the path ends in the name and the stem is a lone dot. -/
theorem namesFile_of_namedOr (hnamed : namedOr none path extension = .ok other)
    (h : NamesFile path front file idle) (hstem : (splitExtension file.text).1 ≠ "." ∨ idle ≠ [])
    (hextension : extension ≠ [] ∧ '/' ∉ extension) :
    ∃ name, NamesFile other front name []
      ∧ name.text = (splitExtension file.text).1 ++ '.' :: extension := by
  rw [namedOr_none_eq_ok_iff] at hnamed
  obtain ⟨found, name, hfound, hname, hnames⟩ :=
    withExtension?_of_namesFile h hstem hextension.1 hextension.2
  obtain rfl : found = other := Option.some.inj (hfound.symm.trans hnamed)
  exact ⟨name, hnames, hname⟩

/-- Otherwise the derived path has no name. -/
theorem fileName?_of_namedOr (hnamed : namedOr none path extension = .ok other)
    (h : NamesFile path front file []) (hstem : (splitExtension file.text).1 = ".")
    (hslash : '/' ∉ extension) : other.fileName? = none := by
  rw [namedOr_none_eq_ok_iff] at hnamed
  obtain ⟨found, hfound, -, hnameless⟩ := withExtension?_of_lone_dot h hstem hslash
  obtain rfl : found = other := Option.some.inj (hfound.symm.trans hnamed)
  exact hnameless

theorem standsBeside_of_namesFile {otherIdle : List Text} {otherName : Name}
    (h : NamesFile path front file idle) (hother : NamesFile other front otherName otherIdle)
    (hname : otherName.text = (splitExtension file.text).1 ++ '.' :: extension) :
    StandsBeside path other extension where
  parent?_eq := h.parent?_congr hother
  fileName?_eq := ⟨_, h.stem?_eq, by rw [hother.fileName?_eq, ← hname]; rfl⟩

/-- Three files in one directory, each named by the stem of the one before, are
    the same where their names are. -/
theorem derived_of_namesFile (hinput : NamesFile plan.input front file idle)
    (houtput : NamesFile plan.output front bytesName [])
    (hbytes : bytesName.text = (splitExtension file.text).1 ++ '.' :: config.outputExtension)
    (hdelays : ∀ delays ∈ plan.delayFile, ∃ delaysName, NamesFile delays front delaysName []
      ∧ delaysName.text = (splitExtension bytesName.text).1 ++ '.' :: config.delayExtension) :
    Derived config plan := by
  have hne := stem_ne_nil file.text_ne_nil
  -- the byte file keeps the script's stem if its extension has no dot
  have hstem (hdot : '.' ∉ config.outputExtension) :
      (splitExtension bytesName.text).1 = (splitExtension file.text).1 := by
    rw [hbytes, splitExtension_append hne hdot]
  refine
    { output_beside := standsBeside_of_namesFile hinput houtput hbytes
      delays_beside := ?_
      delays_parent?_eq := ?_
      output_sameAs_delays_iff := ?_
      output_sameAs_input_iff := ?_
      delays_sameAs_input_iff := ?_ }
  · intro delays hmem
    obtain ⟨delaysName, hfile, hname⟩ := hdelays delays hmem
    exact standsBeside_of_namesFile houtput hfile hname
  · intro delays hmem
    obtain ⟨delaysName, hfile, hname⟩ := hdelays delays hmem
    exact hinput.parent?_congr hfile
  · intro hdot delays hmem
    obtain ⟨delaysName, hfile, hname⟩ := hdelays delays hmem
    rw [houtput.sameAs_iff hfile, ← Name.text_inj, hname, hstem hdot, hbytes]
    simp
  · rw [houtput.sameAs_iff hinput, ← Name.text_inj, hbytes, hinput.extension?_eq,
      snd_splitExtension_eq_some_iff]
  · intro hdot delays hmem
    obtain ⟨delaysName, hfile, hname⟩ := hdelays delays hmem
    rw [hfile.sameAs_iff hinput, ← Name.text_inj, hname, hstem hdot, hinput.extension?_eq,
      snd_splitExtension_eq_some_iff]

/-- Whether the stem of a script gets lost: it is a lone dot, and a path that
    ends in a name with this stem gets another extension.  The path is the
    script itself, or the byte file from which the delay file is derived. -/
def LosesStem (options : Options) (config : Config) : Prop :=
  options.input.stem? = some ['.']
    ∧ (EndsInName options.input
      ∨ options.layout.getD config.layout = .split ∧ '.' ∉ config.outputExtension)

/-- A stem that does not get lost is no lone dot, or it stands in front of idle
    pieces, and a byte file from which a delay file is derived has another
    one. -/
theorem keepsStem_of_namesFile (hinput : NamesFile options.input front file idle)
    (hkept : ¬ LosesStem options config) :
    (splitExtension file.text).1 ≠ "."
      ∨ idle ≠ [] ∧ (options.layout.getD config.layout = .split → '.' ∈ config.outputExtension) := by
  by_cases hlone : (splitExtension file.text).1 = "."
  · have hstem : options.input.stem? = some ['.'] := hinput.stem?_eq.trans (congrArg some hlone)
    refine .inr ⟨fun hnil => hkept ⟨hstem, .inl (hinput.endsInName_iff.mpr hnil)⟩, ?_⟩
    intro hsplit
    by_contra hdot
    exact hkept ⟨hstem, .inr ⟨hsplit, hdot⟩⟩
  · exact .inl hlone

/-- **Settings come in layers and files are derived.**  With extensions that are
    not empty and hold no slash there is always a plan.  It takes each setting
    from the command line first, and output files that are not named stand
    beside a script whose stem does not get lost. -/
theorem plan_layers_and_derives (options : Options) (config : Config)
    (houtput : config.outputExtension ≠ [] ∧ '/' ∉ config.outputExtension)
    (hdelays : config.delayExtension ≠ [] ∧ '/' ∉ config.delayExtension) :
    ∃ plan, resolve options config = .ok plan ∧ Layered options config plan
      ∧ (options.output = none → options.delayFile = none →
          options.input.fileName? ≠ none → ¬ LosesStem options config →
            Derived config plan) := by
  obtain ⟨plan, hplan⟩ := exists_resolve options houtput.2 hdelays.2
  have hlayered := layered_of_resolve hplan
  refine ⟨plan, hplan, hlayered, ?_⟩
  intro hnoOutput hnoDelays hfileName hkept
  obtain ⟨hbytesPath, hdelaysPath⟩ := namedOr_of_resolve hplan
  rw [hnoOutput] at hbytesPath
  obtain ⟨file, hfile⟩ := Option.ne_none_iff_exists'.mp hfileName
  obtain ⟨front, idle, hinput⟩ := namesFile_of_fileName? hfile
  have hkeeps := keepsStem_of_namesFile hinput hkept
  obtain ⟨bytesName, hnames, hbytes⟩ :=
    namesFile_of_namedOr hbytesPath hinput (hkeeps.imp_right And.left) houtput
  refine derived_of_namesFile (hlayered.input_eq ▸ hinput) hnames hbytes ?_
  intro delays hmem
  have hsplit : options.layout.getD config.layout = .split := by
    rw [← hlayered.layout_eq, ← hlayered.isSome_delayFile_iff, Option.mem_def.mp hmem]
    rfl
  have hstem' : (splitExtension bytesName.text).1 ≠ "." := by
    rw [hbytes]
    by_cases hlone : (splitExtension file.text).1 = "."
    · rw [hlone]
      exact stem_append_ne ((hkeeps.resolve_left (not_not_intro hlone)).2 hsplit)
    · exact stem_append_ne_dot (stem_ne_nil file.text_ne_nil) hlone _
  rw [hnoDelays] at hdelaysPath
  exact namesFile_of_namedOr (hdelaysPath delays hmem) hnames (.inl hstem') hdelays

/-- A hidden file with a slash behind it is such a script. -/
theorem plan_layers_and_derives_of_hidden_file :
    (⟨"dir/.a.scr/"⟩ : Path).stem? = some ['.', 'a']
      ∧ resolve ⟨⟨"dir/.a.scr/"⟩, none, none, none, none, some .split, true, false⟩ {}
        = .ok ⟨⟨"dir/.a.scr/"⟩, ⟨"dir/.a.byte"⟩, some ⟨"dir/.a.delay"⟩, .sticky, .split, true⟩
      ∧ Derived {}
        ⟨⟨"dir/.a.scr/"⟩, ⟨"dir/.a.byte"⟩, some ⟨"dir/.a.delay"⟩, .sticky, .split, true⟩ := by
  have hstem : (⟨"dir/.a.scr/"⟩ : Path).stem? = some ['.', 'a'] := by decide
  have hresolve : resolve ⟨⟨"dir/.a.scr/"⟩, none, none, none, none, some .split, true, false⟩ {}
      = .ok ⟨⟨"dir/.a.scr/"⟩, ⟨"dir/.a.byte"⟩, some ⟨"dir/.a.delay"⟩, .sticky, .split, true⟩ := by
    decide
  obtain ⟨plan, hplan, -, hderived⟩ := plan_layers_and_derives
    ⟨⟨"dir/.a.scr/"⟩, none, none, none, none, some .split, true, false⟩ {}
    (by decide) (by decide)
  rw [hresolve] at hplan
  obtain rfl := Except.ok.inj hplan
  refine ⟨hstem, hresolve, hderived rfl rfl (by decide) ?_⟩
  rintro ⟨hlone, -⟩
  rw [hstem] at hlone
  cases hlone

/-! ## A lone dot -/

/-- **A stem that gets lost is lost to an output file**: that file does not stand
    where it should. -/
theorem not_derived_of_losesStem (h : resolve options config = .ok plan)
    (hnoOutput : options.output = none) (hnoDelays : options.delayFile = none)
    (houtput : config.outputExtension ≠ [] ∧ '/' ∉ config.outputExtension)
    (hdelays : '/' ∉ config.delayExtension) (hlost : LosesStem options config) :
    ¬ Derived config plan := by
  intro hderived
  obtain ⟨hstem, hway⟩ := hlost
  obtain ⟨file, hfile, hlone⟩ := Option.map_eq_some_iff.mp hstem
  obtain ⟨front, idle, hinput⟩ := namesFile_of_fileName? hfile
  obtain ⟨hbytesPath, hdelaysPath⟩ := namedOr_of_resolve h
  rw [hnoOutput] at hbytesPath
  rw [hnoDelays] at hdelaysPath
  by_cases hends : EndsInName options.input
  · -- the byte file has no name
    obtain rfl := hinput.endsInName_iff.mp hends
    obtain ⟨stem, -, hname⟩ := hderived.output_beside.fileName?_eq
    rw [fileName?_of_namedOr hbytesPath hinput hlone houtput.2] at hname
    cases hname
  · -- the byte file ends in a name with the lone dot, so that the delay file has none
    obtain ⟨hsplit, hdot⟩ := hway.resolve_left hends
    have hlayered := layered_of_resolve h
    have hidle : idle ≠ [] := fun hnil => hends (hinput.endsInName_iff.mpr hnil)
    obtain ⟨bytesName, hnames, hbytes⟩ :=
      namesFile_of_namedOr hbytesPath hinput (.inr hidle) houtput
    have hbytesStem : (splitExtension bytesName.text).1 = "." := by
      rw [hbytes, splitExtension_append (stem_ne_nil file.text_ne_nil) hdot]
      exact hlone
    obtain ⟨delays, hmem⟩ : ∃ delays, plan.delayFile = some delays :=
      Option.isSome_iff_exists.mp
        (hlayered.isSome_delayFile_iff.mpr (hlayered.layout_eq.trans hsplit))
    obtain ⟨stem, -, hname⟩ := (hderived.delays_beside _ hmem).fileName?_eq
    rw [fileName?_of_namedOr (hdelaysPath delays hmem) hnames hbytesStem hdelays] at hname
    cases hname

/-- With a slash behind its name such a script keeps its stem, but the byte file
    does not. -/
example :
    resolve ⟨⟨"..a/"⟩, none, none, none, none, some .split, false, false⟩ {}
      = .ok ⟨⟨"..a/"⟩, ⟨"..byte"⟩, some ⟨".."⟩, .sticky, .split, false⟩ := by decide

/-- The files of a script with a lone dot as its stem are both in place of the
    directory above. -/
theorem lone_dot_loses_both_files :
    (⟨"..a"⟩ : Path).stem? = some ['.']
      ∧ resolve ⟨⟨"..a"⟩, none, none, none, none, some .split, false, false⟩ {}
        = .ok ⟨⟨"..a"⟩, ⟨".."⟩, some ⟨".."⟩, .sticky, .split, false⟩
      ∧ ¬ Derived {} ⟨⟨"..a"⟩, ⟨".."⟩, some ⟨".."⟩, .sticky, .split, false⟩ := by
  refine ⟨by decide, by decide, ?_⟩
  intro h
  obtain ⟨stem, -, hname⟩ := h.output_beside.fileName?_eq
  cases hname

end Telecommand.Run.Plan
