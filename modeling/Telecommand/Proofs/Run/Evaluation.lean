import Telecommand.Proofs.File.Destination
import Telecommand.Run.Basic

/-! # Programs in a workspace

    A program that can fail is evaluated in a workspace step by step: what
    its first step comes to decides whether, and where, the rest goes on
    (`evaluate_bind_ok`, `evaluate_bind_error`).  Each program with effects on
    files has one lemma here that says what it comes to, so that longer
    programs are evaluated without opening the shorter ones. -/

namespace Telecommand.Run

open File Stimulus

variable {ε α β : Type} {workspace after : Workspace} {path : Path}

/-- What a program that can fail comes to in a workspace. -/
def evaluate (workspace : Workspace) (program : ExceptT ε (StateM Workspace) α) :
    Except ε α × Workspace :=
  program.run.run workspace

theorem evaluate_pure (a : α) :
    evaluate workspace (pure a : ExceptT ε (StateM Workspace) α) = (.ok a, workspace) := rfl

theorem evaluate_throw (error : ε) :
    evaluate workspace (throw error : ExceptT ε (StateM Workspace) α)
      = (.error error, workspace) := rfl

/-- A step that cannot fail goes on with its value. -/
theorem evaluate_lift (action : StateM Workspace α)
    (next : α → ExceptT ε (StateM Workspace) β) :
    evaluate workspace (liftM action >>= next)
      = evaluate (action.run workspace).2 (next (action.run workspace).1) := rfl

/-- A step that may fail by itself goes on with its result, whatever that
    is. -/
theorem evaluate_attempt {δ : Type} (program : ExceptT δ (StateM Workspace) α)
    (next : Except δ α → ExceptT ε (StateM Workspace) β) :
    evaluate workspace (liftM program.run >>= next)
      = evaluate (evaluate workspace program).2 (next (evaluate workspace program).1) := rfl

/-- A program goes on where its first step succeeds. -/
theorem evaluate_bind_ok {first : ExceptT ε (StateM Workspace) α}
    {next : α → ExceptT ε (StateM Workspace) β} {a : α}
    (h : evaluate workspace first = (.ok a, after)) :
    evaluate workspace (first >>= next) = evaluate after (next a) := by
  unfold evaluate at h ⊢
  rw [ExceptT.run_bind, StateT.run_bind, h]
  rfl

/-- A program ends where its first step fails. -/
theorem evaluate_bind_error {first : ExceptT ε (StateM Workspace) α}
    {next : α → ExceptT ε (StateM Workspace) β} {error : ε}
    (h : evaluate workspace first = (.error error, after)) :
    evaluate workspace (first >>= next) = (.error error, after) := by
  unfold evaluate at h ⊢
  rw [ExceptT.run_bind, StateT.run_bind, h]
  rfl

theorem evaluate_map_ok {program : ExceptT ε (StateM Workspace) α} {a : α} (f : α → β)
    (h : evaluate workspace program = (.ok a, after)) :
    evaluate workspace (f <$> program) = (.ok (f a), after) := by
  rw [map_eq_pure_bind, evaluate_bind_ok h, evaluate_pure]

theorem evaluate_map_error {program : ExceptT ε (StateM Workspace) α} {error : ε} (f : α → β)
    (h : evaluate workspace program = (.error error, after)) :
    evaluate workspace (f <$> program) = (.error error, after) := by
  rw [map_eq_pure_bind, evaluate_bind_error h]

/-! ## Reading -/

/-- The text that is read through a path. -/
def readTextIn (workspace : Workspace) (path : Path) : Except ReadFault Text :=
  ((readText path : StateM Workspace (Except ReadFault Text)).run workspace).1

theorem run_readText (workspace : Workspace) (path : Path) :
    (readText path : StateM Workspace (Except ReadFault Text)).run workspace
      = pure (readTextIn workspace path, workspace) := by
  rw [readTextIn, readText, StateT.run_bind, Workspace.run_read, pure_bind]
  cases workspace.read path with
  | error error => rfl
  | ok bytes =>
      cases htext : Text.ofUtf8? bytes with
      | none => simp only [htext]; rfl
      | some text => simp only [htext]; rfl

theorem evaluate_readText (path : Path)
    (next : Except ReadFault Text → ExceptT ε (StateM Workspace) β) :
    evaluate workspace (liftM (readText path : StateM Workspace (Except ReadFault Text)) >>= next)
      = evaluate workspace (next (readTextIn workspace path)) := by
  rw [evaluate_lift, run_readText]
  rfl

/-- Records do not matter to reading. -/
theorem readTextIn_note (record : Log.Record) :
    readTextIn (workspace.note record) path = readTextIn workspace path := by
  rw [readTextIn, readTextIn, readText, StateT.run_bind, StateT.run_bind, Workspace.run_read,
    Workspace.run_read, pure_bind, pure_bind]
  have hread : (workspace.note record).read path = workspace.read path := rfl
  rw [hread]
  cases workspace.read path with
  | error error => rfl
  | ok bytes => cases htext : Text.ofUtf8? bytes <;> simp only [htext] <;> rfl

/-- A text is read through a path where its bytes stand. -/
theorem readTextIn_of_read {text : Text} (h : workspace.read path = .ok text.toUtf8) :
    readTextIn workspace path = .ok text := by
  rw [readTextIn, readText, StateT.run_bind, Workspace.run_read, pure_bind, h]
  simp only [Text.ofUtf8?_toUtf8]
  rfl

/-! ## Writing -/

theorem evaluate_openOutput_ok {location : Location}
    (h : workspace.create path = (.ok location, after)) :
    evaluate workspace (openOutput path : ExceptT Failure (StateM Workspace) Location)
      = (.ok location, after) := by
  rw [openOutput, evaluate_lift, Workspace.run_create, h]
  rfl

theorem evaluate_openOutput_error {error : OsError}
    (h : workspace.create path = (.error error, after)) :
    evaluate workspace (openOutput path : ExceptT Failure (StateM Workspace) Location)
      = (.error (.cannotCreate path error), after) := by
  rw [openOutput, evaluate_lift, Workspace.run_create, h]
  rfl

theorem evaluate_deliver_combined (packets : List TimedPacket) (bytesAt : Location)
    (writeDelays : Option (Bytes → ExceptT WriteFault (StateM Workspace) Unit)) :
    evaluate workspace ((render .combined packets).deliver (writeOutput bytesAt) writeDelays)
      = (.ok (), workspace.overwrite bytesAt (render .combined packets).bytes.toUtf8) := rfl

theorem evaluate_deliver_split (packets : List TimedPacket) (bytesAt delaysAt : Location)
    {delays : Text} (h : (render .split packets).delays = some delays) :
    evaluate workspace ((render .split packets).deliver (writeOutput bytesAt)
        (some (writeOutput delaysAt)))
      = (.ok (), (workspace.overwrite bytesAt (render .split packets).bytes.toUtf8).overwrite
          delaysAt delays.toUtf8) := by
  cases h
  rfl

theorem evaluate_deliver_split_none (packets : List TimedPacket) (bytesAt : Location) :
    evaluate workspace ((render .split packets).deliver (writeOutput bytesAt) none)
      = (.error .noDelaySink,
          workspace.overwrite bytesAt (render .split packets).bytes.toUtf8) := rfl

end Telecommand.Run
