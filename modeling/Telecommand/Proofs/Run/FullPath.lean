import Telecommand.Proofs.Path.Parent
import Telecommand.Proofs.Run.Evaluation

/-! # Full paths

    The full path of an output file names its destination, whether the file
    is there or is still to be made, if the path leads straight to it
    (`fullPathIn_of_destination?`): it has a canonical path, or it ends in a
    name that is not that of a link, in a directory that has one.  Any other
    path is led astray.  If it ends in a link behind which nothing is found, its
    full path names the link and its destination lies behind it; and if a
    canonical path on the way is too long, its full path may be the path
    itself. -/

namespace Telecommand.Run

open File Tree

variable {ε β : Type} {workspace : Workspace} {path : Path} {location : Location}

/-! ## Directories of paths -/

/-- If the steps in front of a name lead to a directory, so does the
    directory that the path names an entry of. -/
theorem resolve_directoryOf {tree : Tree} {limits : Limits} {cwd parent : Location}
    {front : List Step} {name : Name} (hzero : path.hasZeroByte = false)
    (hsteps : path.steps = front ++ [.name name])
    (hleads : Leads tree limits .use limits.links (if path.isAbsolute then [] else cwd) front
      (.existing parent)) :
    tree.resolve limits .use cwd (directoryOf path) = .ok (.existing parent) := by
  obtain ⟨-, start, hstart, hparent⟩ := Path.parent?_of_steps hsteps
  have hpieces := Path.ofPiece?_pieces_of_steps hsteps
  -- what stays can be left out, and may be put in front again
  have hcomponents : Leads tree limits .use limits.links (if path.isAbsolute then [] else cwd)
      (start ++ front.filter (· ≠ .here)) (.existing parent) := by
    have hfilter := @Leads.filter_here _ _ _ _ _ _ [] hleads
    rcases hstart with rfl | rfl
    · exact hfilter
    · exact .here hfilter
  have hcomponent : ∀ step ∈ start ++ front.filter (· ≠ .here),
      step ≠ .slash ∧ '\x00' ∉ Path.pieceOf step := by
    intro step hstep
    rcases List.mem_append.mp hstep with hmem | hmem
    · rcases hstart with rfl | rfl
      · cases hmem
      · rw [List.mem_singleton.mp hmem]
        decide
    · have hpiece : step ∈ path.pieces.filterMap Step.ofPiece? := by
        rw [hpieces]
        exact List.mem_append_left _ (List.mem_filter.mp hmem).1
      refine ⟨?_, Path.zeroByte_notMem_pieceOf hzero hpiece⟩
      obtain ⟨piece, -, hask⟩ := List.mem_filterMap.mp hpiece
      exact Step.ne_slash_of_ofPiece? hask
  generalize start ++ front.filter (· ≠ .here) = components at hparent hcomponents hcomponent
  by_cases hnil : components = []
  · -- the name is the only component, so its directory is the root or the working directory
    rw [hnil] at hcomponents
    cases habsolute : path.isAbsolute with
    | true =>
        have hdirectory : directoryOf path = ⟨"/"⟩ := by
          simp only [directoryOf, hparent, hnil, habsolute]
          rfl
        rw [habsolute, if_pos rfl] at hcomponents
        rw [hdirectory, resolve_eq_ok_iff]
        exact ⟨by decide, by decide, .slash hcomponents⟩
    | false =>
        have hdirectory : directoryOf path = ⟨"."⟩ := by
          simp only [directoryOf, hparent, hnil, habsolute]
          rfl
        rw [habsolute, if_neg (by decide)] at hcomponents
        rw [hdirectory, resolve_eq_ok_iff]
        exact ⟨by decide, by decide, .here hcomponents⟩
  · have hdirectory : directoryOf path = Path.ofComponents path.isAbsolute components := by
      simp only [directoryOf, hparent, Path.text_ofComponents_ne_nil path.isAbsolute hnil
        fun step hstep => (hcomponent step hstep).1, if_false]
    rw [hdirectory]
    exact resolve_ofComponents hnil hcomponent hcomponents

/-! ## Full paths in a workspace -/

/-- The full path of a path. -/
def fullPathIn (workspace : Workspace) (path : Path) : Path :=
  ((fullPath path : StateM Workspace Path).run workspace).1

theorem run_fullPath (workspace : Workspace) (path : Path) :
    (fullPath path : StateM Workspace Path).run workspace
      = pure (fullPathIn workspace path, workspace) := by
  rw [fullPathIn, fullPath, StateT.run_bind, Workspace.run_canonical, pure_bind]
  cases workspace.canonical path with
  | ok full => rfl
  | error error =>
      simp only [StateT.run_bind, Workspace.run_canonical, pure_bind]
      cases workspace.canonical (directoryOf path) with
      | error error => rfl
      | ok directory => cases path.fileName? <;> rfl

theorem evaluate_fullPath (path : Path) (next : Path → ExceptT ε (StateM Workspace) β) :
    evaluate workspace (liftM (fullPath path : StateM Workspace Path) >>= next)
      = evaluate workspace (next (fullPathIn workspace path)) := by
  rw [evaluate_lift, run_fullPath]
  rfl

/-- What is there has its canonical path as its full path. -/
theorem fullPathIn_of_canonical {full : Path} (h : workspace.canonical path = .ok full) :
    fullPathIn workspace path = full := by
  rw [fullPathIn, fullPath, StateT.run_bind, Workspace.run_canonical, pure_bind, h]
  rfl

/-- What is not there has its name in its directory as its full path. -/
theorem fullPathIn_of_parent {error : OsError} {directory : Path} {name : Name}
    (hpath : workspace.canonical path = .error error)
    (hdirectory : workspace.canonical (directoryOf path) = .ok directory)
    (hname : path.fileName? = some name) :
    fullPathIn workspace path = directory.join name := by
  rw [fullPathIn, fullPath, StateT.run_bind, Workspace.run_canonical, pure_bind, hpath]
  simp only [StateT.run_bind, Workspace.run_canonical, pure_bind, hdirectory, hname]
  rfl

/-- Whether a path leads straight to its destination: it has a canonical path,
    or it ends in a name that is not that of a link, in a directory that has
    one. -/
def LeadsStraight (workspace : Workspace) (path : Path) : Prop :=
  (∃ full, workspace.canonical path = .ok full)
    ∨ ∃ front name directory, path.steps = front ++ [.name name]
      ∧ workspace.resolve .canonicalize (directoryOf path) = .ok (.existing directory)
      ∧ ∀ target, workspace.tree.find? (directory ++ [name]) ≠ some (.link target)

/-- **Full paths name destinations** where the paths lead straight. -/
theorem fullPathIn_of_destination? (h : workspace.destination? path = some location)
    (hstraight : LeadsStraight workspace path) :
    fullPathIn workspace path = Location.path location := by
  cases hcanonical : workspace.canonical path with
  | ok full =>
      rw [fullPathIn_of_canonical hcanonical]
      exact Workspace.canonical_eq_of_destination? h hcanonical
  | error error =>
      rcases hstraight with ⟨full, hfull⟩ | ⟨front, name, directory, hsteps, hdirectory, hlink⟩
      · rw [hcanonical] at hfull
        cases hfull
      · obtain ⟨arrival, harrive, rfl⟩ := Workspace.destination?_eq_some_iff.mp h
        obtain ⟨-, hresolve⟩ := Workspace.arrive_eq_ok_iff.mp harrive
        obtain ⟨hzero, -, hleads⟩ := resolve_eq_ok_iff.mp hresolve
        rw [hsteps] at hleads
        obtain ⟨parent, hparent, hlocation⟩ := hleads.concat_name
        -- the directory of the name is the one that has the canonical path
        have hsame : workspace.resolve .use (directoryOf path) = .ok (.existing parent) :=
          resolve_directoryOf hzero hsteps hparent
        rw [Workspace.resolve_use_of_canonicalize hdirectory] at hsame
        obtain rfl : directory = parent := Arrival.existing.inj (Except.ok.inj hsame)
        have hplace : arrival.location = directory ++ [name] :=
          hlocation.resolve_right fun ⟨target, htarget⟩ => hlink target htarget
        rw [fullPathIn_of_parent hcanonical (Workspace.canonical_eq_ok_iff.mpr ⟨_, hdirectory, rfl⟩)
          (Path.parent?_of_steps hsteps).1, hplace]
        exact Location.join_path directory name

/-! ## The check of a plan -/

/-- The full paths of script, byte file and delay file are three paths. -/
structure FullPathsDiffer (workspace : Workspace) (plan : Plan) : Prop where
  output : (fullPathIn workspace plan.output).sameAs (fullPathIn workspace plan.input) = false
  delays : ∀ delayFile, plan.delayFile = some delayFile →
    (fullPathIn workspace delayFile).sameAs (fullPathIn workspace plan.input) = false
      ∧ (fullPathIn workspace delayFile).sameAs (fullPathIn workspace plan.output) = false

/-- The check changes nothing, and accepts the plans whose full paths are
    three. -/
theorem evaluate_requireDistinctFiles (workspace : Workspace) (plan : Plan) :
    evaluate workspace (plan.requireDistinctFiles : ExceptT Failure (StateM Workspace) Unit)
          = (.ok (), workspace) ∧ FullPathsDiffer workspace plan
      ∨ ∃ failure, evaluate workspace
          (plan.requireDistinctFiles : ExceptT Failure (StateM Workspace) Unit)
            = (.error failure, workspace) ∧ ¬ FullPathsDiffer workspace plan := by
  rw [Plan.requireDistinctFiles, evaluate_fullPath, evaluate_fullPath]
  cases houtput : (fullPathIn workspace plan.output).sameAs (fullPathIn workspace plan.input) with
  | true =>
      refine .inr ⟨_, evaluate_bind_error (evaluate_throw _), ?_⟩
      intro hdiffer
      exact Bool.noConfusion (houtput.symm.trans hdiffer.output)
  | false =>
      rw [if_neg (by decide)]
      cases hfile : plan.delayFile with
      | none =>
          refine .inl ⟨rfl, houtput, ?_⟩
          intro delayFile hsome
          rw [hfile] at hsome
          cases hsome
      | some delayFile =>
          simp only []
          rw [evaluate_fullPath]
          cases hinput : (fullPathIn workspace delayFile).sameAs
              (fullPathIn workspace plan.input) with
          | true =>
              refine .inr ⟨_, evaluate_bind_error (evaluate_throw _), ?_⟩
              intro hdiffer
              exact Bool.noConfusion (hinput.symm.trans (hdiffer.delays delayFile hfile).1)
          | false =>
              rw [if_neg (by decide)]
              cases hshared : (fullPathIn workspace delayFile).sameAs
                  (fullPathIn workspace plan.output) with
              | true =>
                  refine .inr ⟨_, evaluate_throw _, ?_⟩
                  intro hdiffer
                  exact Bool.noConfusion (hshared.symm.trans (hdiffer.delays delayFile hfile).2)
              | false =>
                  refine .inl ⟨rfl, houtput, ?_⟩
                  intro other hsome
                  rw [hfile] at hsome
                  cases hsome
                  exact ⟨hinput, hshared⟩

end Telecommand.Run
