import Telecommand.Proofs.Path.Parent
import Telecommand.Proofs.Text.Lines

/-! # Where a path names its file

    The file name of a path is the last of its pieces that asks for a move;
    behind it stand only pieces that are empty or a `.`
    (`namesFile_of_fileName?`).  The pieces in front of it decide the parent
    (`NamesFile.parent?_eq`), so two paths with the same pieces in front are the
    same path exactly if they end in the same name (`NamesFile.sameAs_iff`). -/

namespace Telecommand

/-- Whether a step leads to another place. -/
def Step.isMove (step : Step) : Bool := step = .up ∨ step matches .name _

namespace Path

variable {path : Path} {front idle : List Text} {name : Name} {piece : Text}

/-! ## Moves and idle pieces -/

/-- That a piece asks for no move. -/
def IsIdle (piece : Text) : Prop := piece = [] ∨ piece = "."

theorem not_isIdle_text (name : Name) : ¬ IsIdle name.text := by
  rintro (h | h)
  · exact name.text_ne_nil h
  · exact name.text_ne_here h

/-- A piece without a slash asks for a move, or it is idle. -/
theorem isIdle_or_exists_move (h : '/' ∉ piece) :
    IsIdle piece ∨ ∃ step, Step.ofPiece? piece = some step ∧ step.isMove = true := by
  by_cases hempty : piece = []
  · exact .inl (.inl hempty)
  by_cases hdot : piece = "."
  · exact .inl (.inr hdot)
  right
  by_cases hdots : piece = ".."
  · exact ⟨.up, by rw [hdots]; rfl, rfl⟩
  · have hname : isEntryName piece = true := by
      rw [isEntryName, decide_eq_true hempty, decide_eq_true hdot, decide_eq_true hdots,
        decide_eq_true h]
      rfl
    refine ⟨.name ⟨piece, hname⟩, ?_, rfl⟩
    rw [Step.ofPiece?, if_neg hdot, if_neg hdots, Name.ofText?, dif_pos hname]
    rfl

/-- The moves that some pieces ask for. -/
def movesOf (pieces : List Text) : List Step :=
  (pieces.filterMap Step.ofPiece?).filter Step.isMove

theorem movesOf_append (front back : List Text) :
    movesOf (front ++ back) = movesOf front ++ movesOf back := by
  rw [movesOf, List.filterMap_append, List.filter_append]
  rfl

theorem movesOf_idle (h : ∀ piece ∈ idle, IsIdle piece) : movesOf idle = [] := by
  induction idle with
  | nil => rfl
  | cons piece rest ih =>
      have hrest := ih fun p hp => h p (List.mem_cons_of_mem piece hp)
      rcases h piece List.mem_cons_self with rfl | rfl
      · exact hrest
      · exact hrest

theorem movesOf_move {step : Step} (hstep : Step.ofPiece? piece = some step)
    (hmove : step.isMove = true) (hidle : ∀ piece ∈ idle, IsIdle piece) :
    movesOf (piece :: idle) = [step] := by
  have hnone : (idle.filterMap Step.ofPiece?).filter Step.isMove = [] := movesOf_idle hidle
  rw [movesOf, List.filterMap_cons_some hstep, List.filter_cons_of_pos hmove, hnone]

/-- The last piece that is not idle, if there is one. -/
theorem exists_last_of_pieces (pieces : List Text) :
    (∀ piece ∈ pieces, IsIdle piece)
      ∨ ∃ front last idle, pieces = front ++ last :: idle ∧ ¬ IsIdle last
          ∧ ∀ piece ∈ idle, IsIdle piece := by
  induction pieces with
  | nil => exact .inl (by simp)
  | cons piece rest ih =>
      rcases ih with hidle | ⟨front, last, idle, rfl, hlast, hidle⟩
      · by_cases hpiece : IsIdle piece
        · exact .inl (List.forall_mem_cons.mpr ⟨hpiece, hidle⟩)
        · exact .inr ⟨[], piece, rest, rfl, hpiece, hidle⟩
      · exact .inr ⟨piece :: front, last, idle, rfl, hlast, hidle⟩

/-! ## Components -/

/-- The components of the pieces in front of a name. -/
def componentsOf (front : List Text) : List Step :=
  (if front.head? = some "." then [.here] else []) ++ movesOf front

theorem components_eq (path : Path) : path.components = componentsOf path.pieces := by
  have hmoves : path.steps.filter Step.isMove = movesOf path.pieces := by
    rw [steps, List.filter_append, movesOf]
    split
    · exact List.append_nil _
    · exact List.append_nil _
  rw [componentsOf, ← hmoves]
  show (if path.pieces.head? = some "." then .here :: path.steps.filter Step.isMove
    else path.steps.filter Step.isMove) = _
  split
  · rfl
  · rfl

/-- The components of pieces end with the last move. -/
theorem componentsOf_move {step : Step} (hstep : Step.ofPiece? piece = some step)
    (hmove : step.isMove = true) (hidle : ∀ piece ∈ idle, IsIdle piece) :
    componentsOf (front ++ piece :: idle) = componentsOf front ++ [step] := by
  have hhead : (front ++ piece :: idle).head? = some "." ↔ front.head? = some "." := by
    cases front with
    | nil =>
        -- a `.` is no move
        refine iff_of_false ?_ (by simp)
        intro hpiece
        rw [Option.some.inj hpiece] at hstep
        cases hstep
        cases hmove
    | cons first rest => rfl
  rw [componentsOf, componentsOf, movesOf_append, movesOf_move hstep hmove hidle,
    List.append_assoc]
  simp only [hhead]

/-- A path starts at the root if an empty piece stands in front of others. -/
theorem isAbsolute_iff (path : Path) :
    path.isAbsolute = true ↔ ∃ rest, rest ≠ [] ∧ path.pieces = [] :: rest := by
  obtain ⟨text⟩ := path
  rw [isAbsolute, pieces, decide_eq_true_iff]
  cases text with
  | nil => simp
  | cons c rest =>
      have hne : rest.splitOn '/' ≠ [] := List.splitOnP_ne_nil _ _
      rw [List.splitOn_cons_eq_if_modifyHead]
      by_cases hc : c = '/'
      · rw [hc, if_pos (by decide)]
        exact iff_of_true rfl ⟨_, hne, rfl⟩
      · rw [if_neg (by simpa using hc)]
        refine iff_of_false (fun h => hc (Option.some.inj h)) ?_
        rintro ⟨others, -, hothers⟩
        -- the first piece begins with the character
        obtain ⟨first, others', hfirst⟩ := List.exists_cons_of_ne_nil hne
        rw [hfirst, List.modifyHead_cons] at hothers
        cases hothers

/-! ## The piece that is the name -/

/-- That a path is made of the pieces in front of its file name, the name, and
    idle pieces. -/
structure NamesFile (path : Path) (front : List Text) (name : Name) (idle : List Text) :
    Prop where
  pieces_eq : path.pieces = front ++ name.text :: idle
  isIdle : ∀ piece ∈ idle, IsIdle piece

namespace NamesFile

variable (h : NamesFile path front name idle)

include h

theorem components_eq : path.components = componentsOf front ++ [.name name] := by
  have hstep : Step.ofPiece? name.text = some (.name name) :=
    Step.ofPiece?_pieceOf (Step.noConfusion : Step.name name ≠ .slash)
  rw [Path.components_eq, h.pieces_eq]
  exact componentsOf_move hstep rfl h.isIdle

theorem fileName?_eq : path.fileName? = some name := by
  rw [fileName?, h.components_eq, List.getLast?_concat]

theorem parent?_eq : path.parent? = some (ofComponents path.isAbsolute (componentsOf front)) := by
  rw [parent?, h.components_eq, if_neg (by simp), List.dropLast_concat]

/-- A path starts at the root if the first piece in front of its name is
    empty. -/
theorem isAbsolute_eq : path.isAbsolute = decide (front.head? = some []) := by
  rw [Bool.eq_iff_iff, isAbsolute_iff, decide_eq_true_iff, h.pieces_eq]
  cases front with
  | nil =>
      refine iff_of_false ?_ (by simp)
      rintro ⟨rest, -, hrest⟩
      exact name.text_ne_nil (List.cons.inj hrest).1
  | cons first rest =>
      constructor
      · rintro ⟨others, -, hothers⟩
        rw [(List.cons.inj hothers).1]
        rfl
      · intro hfirst
        rw [Option.some.inj hfirst]
        exact ⟨_, by simp, rfl⟩

end NamesFile

/-- The file name of a path is one of its pieces, with idle pieces behind
    it. -/
theorem namesFile_of_fileName? (h : path.fileName? = some name) :
    ∃ front idle, NamesFile path front name idle := by
  have hlast : path.components.getLast? = some (.name name) := by
    rw [fileName?] at h
    split at h
    · rename_i found hfound
      rw [hfound, Option.some.inj h]
    · cases h
  rw [components_eq] at hlast
  rcases exists_last_of_pieces path.pieces with hidle | ⟨front, last, idle, hpieces, hmove, hidle⟩
  · -- without a move there is at most a `.`
    rw [componentsOf, movesOf_idle hidle, List.append_nil] at hlast
    split at hlast
    · cases hlast
    · cases hlast
  · have hmem : last ∈ path.pieces := by
      rw [hpieces]
      exact List.mem_append_right _ List.mem_cons_self
    obtain ⟨step, hstep, hisMove⟩ :=
      (isIdle_or_exists_move (Text.notMem_of_mem_splitOn hmem)).resolve_left hmove
    rw [hpieces, componentsOf_move hstep hisMove hidle, List.getLast?_concat] at hlast
    rw [Option.some.inj hlast] at hstep
    have hname : name.text = last := Step.pieceOf_of_ofPiece? hstep
    exact ⟨front, idle, hname ▸ hpieces, hidle⟩

/-- Whether a path ends in its file name, with no slash and no `.` behind it. -/
def EndsInName (path : Path) : Prop :=
  path.pieces.getLast? = path.fileName?.map Name.text

theorem NamesFile.endsInName_iff (h : NamesFile path front name idle) :
    EndsInName path ↔ idle = [] := by
  rw [EndsInName, h.pieces_eq, h.fileName?_eq]
  constructor
  · intro hlast
    by_contra hne
    -- behind the name there is a last piece that is idle
    have hmem := List.getLast_mem hne
    rw [List.getLast?_append_of_ne_nil _ (List.cons_ne_nil _ _), List.getLast?_cons_of_ne_nil hne,
      List.getLast?_eq_getLast_of_ne_nil hne] at hlast
    rw [Option.some.inj hlast] at hmem
    exact not_isIdle_text name (h.isIdle _ hmem)
  · rintro rfl
    rw [List.getLast?_concat]
    rfl

/-- Two paths with the same pieces in front have the same parent. -/
theorem NamesFile.parent?_congr {other : Path} {otherName : Name} {otherIdle : List Text}
    (h : NamesFile path front name idle) (hother : NamesFile other front otherName otherIdle) :
    other.parent? = path.parent? := by
  rw [h.parent?_eq, hother.parent?_eq, h.isAbsolute_eq, hother.isAbsolute_eq]

/-- Two paths with the same pieces in front are the same path if they end in
    the same name. -/
theorem NamesFile.sameAs_iff {other : Path} {otherName : Name} {otherIdle : List Text}
    (h : NamesFile path front name idle) (hother : NamesFile other front otherName otherIdle) :
    path.sameAs other = true ↔ name = otherName := by
  rw [sameAs, h.isAbsolute_eq, hother.isAbsolute_eq, h.components_eq, hother.components_eq]
  simp

/-- Pieces without slashes make a path with these pieces. -/
theorem pieces_intercalate {rest : List Text} (hfront : ∀ p ∈ front, '/' ∉ p)
    (hpiece : '/' ∉ piece) (hrest : ∀ p ∈ rest, '/' ∉ p) :
    (⟨['/'].intercalate (front ++ piece :: rest)⟩ : Path).pieces = front ++ piece :: rest := by
  refine List.splitOn_intercalate '/' ?_ (by simp)
  intro p hp
  rcases List.mem_append.mp hp with hmem | hmem
  · exact hfront p hmem
  rcases List.mem_cons.mp hmem with rfl | hmem
  · exact hpiece
  · exact hrest p hmem

theorem namesFile_intercalate (hfront : ∀ piece ∈ front, '/' ∉ piece) :
    NamesFile ⟨['/'].intercalate (front ++ [name.text])⟩ front name [] where
  pieces_eq := pieces_intercalate hfront name.slash_notMem_text (List.forall_mem_nil _)
  isIdle := List.forall_mem_nil _

end Path

end Telecommand
