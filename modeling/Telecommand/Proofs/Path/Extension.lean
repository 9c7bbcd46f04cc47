import Telecommand.Path.Extension
import Telecommand.Proofs.Path.Pieces
import Telecommand.Proofs.Text.Slice

/-! # Changing an extension

    Another extension leaves a path its pieces in front of the file name and
    the file name its stem (`withExtension?_of_namesFile`).  The text is first
    shortened at its end by the bytes of the old extension, which need not be
    where the extension is: slashes and `.` pieces may follow the name.  But it
    is never shortened beyond the dot in front of the old extension
    (`exists_shorten_append`), and so the stem stays.

    The one exception is a path that ends in a name with a lone dot as its stem.
    Without its extension such a name is `..`, which is no file name
    (`withExtension?_of_lone_dot`). -/

namespace Telecommand

open Text

variable {name stem extension : Text}

/-! ## Stem and extension -/

/-- The last dot of a name parts it, unless it is the first character. -/
theorem splitExtension_append (hstem : stem ≠ []) (hdot : '.' ∉ extension) :
    splitExtension (stem ++ '.' :: extension) = (stem, some extension) := by
  have hcut : cut? '.' (stem ++ '.' :: extension).reverse
      = some (extension.reverse, stem.reverse) := by
    rw [List.reverse_append, List.reverse_cons, List.append_assoc]
    exact cut?_append _ (by simpa using hdot)
  obtain ⟨c, rest, hc⟩ := List.exists_cons_of_ne_nil (List.reverse_ne_nil_iff.mpr hstem)
  rw [splitExtension, hcut, hc]
  show ((c :: rest).reverse, some extension.reverse.reverse) = _
  rw [← hc, List.reverse_reverse, List.reverse_reverse]

/-- A name is its stem, or it is a stem with an extension. -/
theorem splitExtension_cases (name : Text) :
    splitExtension name = (name, none)
      ∨ ∃ stem extension, name = stem ++ '.' :: extension ∧ stem ≠ [] ∧ '.' ∉ extension
          ∧ splitExtension name = (stem, some extension) := by
  cases hcut : cut? '.' name.reverse with
  | none => exact .inl (by rw [splitExtension, hcut])
  | some parts =>
      obtain ⟨after, before⟩ := parts
      cases before with
      | nil => exact .inl (by rw [splitExtension, hcut])
      | cons c rest =>
          have hname : name = (c :: rest).reverse ++ '.' :: after.reverse := by
            rw [← List.reverse_reverse name, eq_of_cut? hcut]
            simp
          have hdot : '.' ∉ after.reverse := by simpa using notMem_of_cut? hcut
          have hstem : (c :: rest).reverse ≠ [] := by simp
          refine .inr ⟨_, _, hname, hstem, hdot, ?_⟩
          rw [hname, splitExtension_append hstem hdot]

theorem fst_splitExtension_begins (name : Text) : (splitExtension name).1 <+: name := by
  rcases splitExtension_cases name with h | ⟨stem, extension, rfl, -, -, h⟩
  · exact ⟨[], by rw [h, List.append_nil]⟩
  · rw [h]
    exact List.prefix_append _ _

theorem stem_ne_nil (hne : name ≠ []) : (splitExtension name).1 ≠ [] := by
  rcases splitExtension_cases name with h | ⟨stem, extension, -, hstem, -, h⟩
  · rwa [h]
  · rwa [h]

/-- What stands in front of a dot belongs to the stem. -/
theorem begins_stem_of_dot (stem extension : Text) :
    stem <+: (splitExtension (stem ++ '.' :: extension)).1 := by
  rcases splitExtension_cases (stem ++ '.' :: extension) with h | ⟨front, back, hname, -, hdot, h⟩
  · rw [h]
    exact List.prefix_append _ _
  · rw [h]
    rcases List.append_eq_append_iff.mp hname with ⟨middle, hfront, -⟩ | ⟨middle, hfront, hback⟩
    · exact ⟨middle, hfront.symm⟩
    · -- nothing of the stem can be behind the last dot
      cases middle with
      | nil => exact ⟨[], by rw [List.append_nil, hfront, List.append_nil]⟩
      | cons c rest =>
          obtain ⟨-, hrest⟩ := List.cons.inj hback
          refine absurd ?_ hdot
          rw [hrest]
          exact List.mem_append_right rest List.mem_cons_self

/-- With an extension behind it that holds a dot, a stem is not all of the
    stem. -/
theorem stem_append_ne (hdot : '.' ∈ extension) :
    (splitExtension (stem ++ '.' :: extension)).1 ≠ stem := by
  intro hsame
  rcases splitExtension_cases (stem ++ '.' :: extension) with h | ⟨front, back, hname, -, hback, h⟩
  · rw [h] at hsame
    simp at hsame
  · rw [h] at hsame
    obtain rfl : front = stem := hsame
    obtain ⟨-, rfl⟩ := List.cons.inj (List.append_cancel_left hname)
    exact hback hdot

/-- With an extension behind it, a stem that is not a lone dot leaves none. -/
theorem stem_append_ne_dot (hne : stem ≠ []) (hstem : stem ≠ ".") (extension : Text) :
    (splitExtension (stem ++ '.' :: extension)).1 ≠ "." := by
  intro h
  have hbegins := begins_stem_of_dot stem extension
  rw [h] at hbegins
  rcases List.prefix_cons_iff.mp hbegins with hnil | ⟨rest, rfl, hrest⟩
  · exact hne hnil
  · rw [List.prefix_nil.mp hrest] at hstem
    exact hstem rfl

/-- The extension of a name is what follows its stem and a dot. -/
theorem snd_splitExtension_eq_some_iff :
    (splitExtension name).2 = some extension
      ↔ (splitExtension name).1 ++ '.' :: extension = name := by
  rcases splitExtension_cases name with h | ⟨stem, old, hname, -, -, h⟩
  · rw [h]
    exact iff_of_false (by simp) (by simp)
  · rw [h, hname]
    simp [eq_comm]

/-- A stem with an extension is an entry name. -/
theorem isEntryName_append (hstem : '/' ∉ stem) (hne : stem ≠ []) (hextension : extension ≠ [])
    (hslash : '/' ∉ extension) : isEntryName (stem ++ '.' :: extension) = true := by
  have hlength : 3 ≤ (stem ++ '.' :: extension).length := by
    have hpos := List.length_pos_iff.mpr hne
    have hpos' := List.length_pos_iff.mpr hextension
    rw [List.length_append, List.length_cons]
    omega
  have hmem : '/' ∉ stem ++ '.' :: extension := by simp [hstem, hslash]
  have hshort (short : Text) (h : short.length < 3) : stem ++ '.' :: extension ≠ short := by
    rintro rfl
    omega
  rw [isEntryName, decide_eq_true (hshort [] (by decide)), decide_eq_true (hshort "." (by decide)),
    decide_eq_true (hshort ".." (by decide)), decide_eq_true hmem]
  rfl

namespace Path

/-- A stem with a dot behind it asks for a move but not upwards, unless it is a
    lone dot and nothing else follows. -/
theorem append_dot_ne_up {kept : Text} (hne : stem ≠ []) (hstem : stem ≠ "." ∨ kept ≠ []) :
    ¬ IsIdle (stem ++ '.' :: kept) ∧ stem ++ '.' :: kept ≠ ".." := by
  obtain ⟨c, rest, rfl⟩ := List.exists_cons_of_ne_nil hne
  constructor
  · rintro (h | h)
    · cases h
    · obtain ⟨-, hrest⟩ := List.cons.inj h
      simp at hrest
  · intro h
    obtain ⟨rfl, hrest⟩ := List.cons.inj h
    cases rest with
    | nil => exact hstem.elim (fun h => h rfl) fun h => h (List.cons.inj hrest).2
    | cons d others =>
        obtain ⟨-, hothers⟩ := List.cons.inj hrest
        simp at hothers

/-! ## Shortening -/

theorem exists_dropBytes (bytes : Nat) (text : Text) :
    ∃ front, text = front ++ dropBytes bytes text ∧ utf8Length front ≤ bytes := by
  induction bytes, text using dropBytes.induct with
  | case1 text => exact ⟨[], by rw [dropBytes, List.nil_append], Nat.le_refl 0⟩
  | case2 bytes => exact ⟨[], rfl, Nat.zero_le _⟩
  | case3 bytes c rest hle ih =>
      obtain ⟨front, hrest, hlength⟩ := ih
      refine ⟨c :: front, ?_, ?_⟩
      · rw [dropBytes, if_pos hle, List.cons_append, ← hrest]
      · rw [utf8Length_cons]
        omega
  | case4 bytes c rest hle =>
      refine ⟨[], ?_, Nat.zero_le _⟩
      rw [dropBytes, if_neg hle, List.nil_append]

theorem shorten_zero (text : Text) : shorten 0 text = text := by
  rw [shorten, dropBytes, List.reverse_reverse]

theorem dropBytes_append (front back : Text) :
    dropBytes (utf8Length front) (front ++ back) = back := by
  induction front with
  | nil => exact dropBytes.eq_1 back
  | cons c rest ih =>
      obtain ⟨bytes, hbytes⟩ := Nat.exists_eq_succ_of_ne_zero (Nat.ne_of_gt c.utf8Size_pos)
      have hlength : utf8Length (c :: rest) = bytes + utf8Length rest + 1 := by
        rw [utf8Length_cons, hbytes]
        omega
      have hle : c.utf8Size ≤ bytes + utf8Length rest + 1 := by omega
      have hsub : bytes + utf8Length rest + 1 - c.utf8Size = utf8Length rest := by omega
      rw [hlength, List.cons_append, dropBytes, if_pos hle, hsub, ih]

/-- A part at the end of a text is cut off by its own bytes. -/
theorem shorten_append (front tail : Text) :
    shorten (utf8Length tail) (front ++ tail) = front := by
  rw [shorten, List.reverse_append, ← utf8Length_reverse, dropBytes_append, List.reverse_reverse]

/-- A text is not shortened beyond a part at its end that has the bytes, and by
    no more than these. -/
theorem exists_shorten_append {bytes : Nat} (front : Text) {tail : Text}
    (h : bytes ≤ utf8Length tail) :
    ∃ kept, kept <+: tail ∧ shorten bytes (front ++ tail) = front ++ kept
      ∧ utf8Length tail ≤ utf8Length kept + bytes := by
  obtain ⟨removed, htext, hlength⟩ := exists_dropBytes bytes (front ++ tail).reverse
  have hparts : front ++ tail = shorten bytes (front ++ tail) ++ removed.reverse := by
    rw [shorten, ← List.reverse_append, ← htext, List.reverse_reverse]
  rcases List.append_eq_append_iff.mp hparts with ⟨kept, hkept, htail⟩ | ⟨lost, hfront, hremoved⟩
  · refine ⟨kept, ⟨_, htail.symm⟩, hkept, ?_⟩
    rw [htail, utf8Length_append, utf8Length_reverse]
    omega
  · -- more than the part is lost only if that is nothing more
    have hbytes := congrArg utf8Length hremoved
    rw [utf8Length_reverse, utf8Length_append] at hbytes
    have hnil : lost = [] := eq_nil_of_utf8Length (by omega)
    rw [hnil, List.append_nil] at hfront
    exact ⟨[], List.nil_prefix, by rw [List.append_nil, ← hfront], by omega⟩

/-! ## Pieces of a shortened path -/

variable {path : Path} {front idle : List Text} {file : Name}

/-- Pieces with a slash before each. -/
def led (pieces : List Text) : Text := pieces.flatMap ('/' :: ·)

/-- Pieces with a slash behind each. -/
def trailed (pieces : List Text) : Text := pieces.flatMap (· ++ ['/'])

theorem intercalate_eq_trailed (front : List Text) (piece : Text) (rest : List Text) :
    ['/'].intercalate (front ++ piece :: rest) = trailed front ++ piece ++ led rest :=
  intercalate_append_cons '/' front piece rest

/-- What is left of idle pieces when their end is cut off are idle pieces. -/
theorem exists_idle_of_begins {kept : Text} (hidle : ∀ piece ∈ idle, IsIdle piece)
    (h : kept <+: led idle) :
    ∃ idle', kept = led idle' ∧ ∀ piece ∈ idle', IsIdle piece := by
  induction idle generalizing kept with
  | nil => exact ⟨[], List.prefix_nil.mp h, List.forall_mem_nil _⟩
  | cons piece rest ih =>
      have hpiece := hidle piece List.mem_cons_self
      have hrest : ∀ p ∈ rest, IsIdle p := fun p hp => hidle p (List.mem_cons_of_mem piece hp)
      have hled : led (piece :: rest) = '/' :: (piece ++ led rest) := rfl
      rw [hled, List.prefix_cons_iff] at h
      rcases h with rfl | ⟨behind, rfl, hbehind⟩
      · exact ⟨[], rfl, List.forall_mem_nil _⟩
      rcases hpiece with rfl | rfl
      · obtain ⟨idle', rfl, hidle'⟩ := ih hrest hbehind
        exact ⟨[] :: idle', rfl, List.forall_mem_cons.mpr ⟨.inl rfl, hidle'⟩⟩
      · -- the dot of the piece is cut off, or it stays
        rcases List.prefix_cons_iff.mp hbehind with rfl | ⟨others, rfl, hothers⟩
        · exact ⟨[[]], rfl, List.forall_mem_singleton.mpr (.inl rfl)⟩
        · obtain ⟨idle', rfl, hidle'⟩ := ih hrest hothers
          exact ⟨['.'] :: idle', rfl, List.forall_mem_cons.mpr ⟨.inr rfl, hidle'⟩⟩

theorem IsIdle.slash_notMem {piece : Text} (h : IsIdle piece) : '/' ∉ piece := by
  rcases h with rfl | rfl
  · exact List.not_mem_nil
  · decide

namespace NamesFile

variable (h : NamesFile path front file idle)

include h

theorem stem?_eq : path.stem? = some (splitExtension file.text).1 := by
  rw [stem?, h.fileName?_eq]
  rfl

theorem extension?_eq : path.extension? = (splitExtension file.text).2 := by
  rw [extension?, h.fileName?_eq]
  rfl

theorem text_eq : path.text = trailed front ++ file.text ++ led idle := by
  rw [← intercalate_eq_trailed, ← h.pieces_eq]
  exact (List.intercalate_splitOn '/').symm

theorem slash_notMem_front : ∀ piece ∈ front, '/' ∉ piece := by
  intro piece hpiece
  refine notMem_of_mem_splitOn (?_ : piece ∈ path.pieces)
  rw [h.pieces_eq]
  exact List.mem_append_left _ hpiece

/-- A path without the bytes of its extension has the same pieces, but for a
    part of the extension and some of the idle pieces.  Where there are idle
    pieces, some of the extension is left. -/
theorem pieces_shorten (hname : file.text = stem ++ '.' :: extension) :
    ∃ kept idle', (⟨shorten (utf8Length extension) path.text⟩ : Path).pieces
        = front ++ (stem ++ '.' :: kept) :: idle'
      ∧ kept <+: extension ∧ (∀ piece ∈ idle', IsIdle piece)
      ∧ (idle ≠ [] → extension ≠ [] → kept ≠ []) := by
  have htext : path.text = (trailed front ++ (stem ++ ['.'])) ++ (extension ++ led idle) := by
    rw [h.text_eq, hname]
    simp
  have hle : utf8Length extension ≤ utf8Length (extension ++ led idle) := by
    rw [utf8Length_append]
    exact Nat.le_add_right _ _
  obtain ⟨tail, htail, hshorten, hlength⟩ :=
    exists_shorten_append (trailed front ++ (stem ++ ['.'])) hle
  -- as many bytes are left as the idle pieces have
  have hleft (hidle : idle ≠ []) : tail ≠ [] := by
    rintro rfl
    obtain ⟨piece, rest, rfl⟩ := List.exists_cons_of_ne_nil hidle
    have hled : led (piece :: rest) = '/' :: (piece ++ led rest) := rfl
    have hslash := Char.utf8Size_pos '/'
    rw [hled, utf8Length_append, utf8Length_cons] at hlength
    have hzero : utf8Length [] = 0 := rfl
    omega
  obtain ⟨kept, idle', rfl, hkept, hidle', hnonempty⟩ : ∃ kept idle', tail = kept ++ led idle'
      ∧ kept <+: extension ∧ (∀ piece ∈ idle', IsIdle piece)
      ∧ (idle ≠ [] → extension ≠ [] → kept ≠ []) := by
    obtain ⟨lost, hlost⟩ := htail
    rcases List.append_eq_append_iff.mp hlost with ⟨cut, hcut, -⟩ | ⟨behind, rfl, hbehind⟩
    · exact ⟨tail, [], (List.append_nil _).symm, ⟨cut, hcut.symm⟩, List.forall_mem_nil _,
        fun hidle _ => hleft hidle⟩
    · obtain ⟨idle', rfl, hidle'⟩ := exists_idle_of_begins h.isIdle ⟨lost, hbehind.symm⟩
      exact ⟨extension, idle', rfl, List.prefix_rfl, hidle', fun _ hne => hne⟩
  refine ⟨kept, idle', ?_, hkept, hidle', hnonempty⟩
  have hpieces : shorten (utf8Length extension) path.text
      = ['/'].intercalate (front ++ (stem ++ '.' :: kept) :: idle') := by
    rw [htext, hshorten, intercalate_eq_trailed]
    simp
  rw [hpieces]
  refine pieces_intercalate h.slash_notMem_front ?_ fun piece hmem =>
    (hidle' piece hmem).slash_notMem
  intro hslash
  have hbegins : stem ++ '.' :: kept <+: stem ++ '.' :: extension :=
    (List.prefix_append_right_inj stem).mpr (List.cons_prefix_cons.mpr ⟨rfl, hkept⟩)
  refine file.slash_notMem_text ?_
  rw [hname]
  exact hbegins.subset hslash

/-- Without the bytes of its extension a path still ends in its stem, if that is
    not a lone dot or the path does not end in its name. -/
theorem exists_pieces_shorten (hstem : (splitExtension file.text).1 ≠ "." ∨ idle ≠ []) :
    ∃ last idle', (⟨shorten (utf8Length (path.extension?.getD [])) path.text⟩ : Path).pieces
        = front ++ last :: idle'
      ∧ (splitExtension last).1 = (splitExtension file.text).1
      ∧ ¬ IsIdle last ∧ last ≠ ".." ∧ ∀ piece ∈ idle', IsIdle piece := by
  rw [h.extension?_eq]
  rcases splitExtension_cases file.text with hsplit | ⟨stem, old, hname, hne, hdot, hsplit⟩
  · -- without an extension nothing is cut off
    have hzero : utf8Length ((splitExtension file.text).2.getD []) = 0 := by
      rw [hsplit]
      rfl
    rw [hzero, shorten_zero]
    exact ⟨file.text, idle, h.pieces_eq, rfl, not_isIdle_text file, file.text_ne_up, h.isIdle⟩
  · rw [hsplit] at hstem ⊢
    obtain ⟨kept, idle', hpieces, hkept, hidle', hnonempty⟩ := h.pieces_shorten hname
    -- a name with a lone dot as its stem has an extension, or it would be `..`
    have hkeeps : stem ≠ "." ∨ kept ≠ [] := by
      by_cases hlone : stem = "."
      · refine .inr (hnonempty (hstem.resolve_left fun h => h hlone) ?_)
        rintro rfl
        exact file.text_ne_up (by rw [hname, hlone]; rfl)
      · exact .inl hlone
    obtain ⟨hmove, hup⟩ := append_dot_ne_up hne hkeeps
    have hdot' : '.' ∉ kept := fun hmem => hdot (hkept.subset hmem)
    exact ⟨stem ++ '.' :: kept, idle', hpieces, by rw [splitExtension_append hne hdot'],
      hmove, hup, hidle'⟩

end NamesFile

/-! ## Another extension -/

theorem dropWhile_reverse_pieces {last : Text} (hpieces : path.pieces = front ++ last :: idle)
    (hlast : ¬ IsIdle last) (hidle : ∀ piece ∈ idle, IsIdle piece) :
    (path.pieces.reverse.dropWhile fun piece => piece = [] ∨ piece = ".")
      = last :: front.reverse := by
  rw [hpieces, List.reverse_append, List.reverse_cons, List.append_assoc,
    List.dropWhile_append_of_pos, List.singleton_append, List.dropWhile_cons_of_neg]
  · intro h
    have hor : last = [] ∨ last = "." := of_decide_eq_true h
    exact hlast hor
  · intro piece hpiece
    exact decide_eq_true (hidle piece (List.mem_reverse.mp hpiece))

/-- A path whose last piece that is not idle is not `..` is cut behind the stem
    of that piece. -/
theorem replaceExtension_of_pieces {last : Text} (hpieces : path.pieces = front ++ last :: idle)
    (hlast : ¬ IsIdle last) (hup : last ≠ "..") (hidle : ∀ piece ∈ idle, IsIdle piece) :
    path.replaceExtension extension
      = ⟨['/'].intercalate (front ++ [(splitExtension last).1 ++ suffix extension])⟩ := by
  rw [replaceExtension, dropWhile_reverse_pieces hpieces hlast hidle]
  show (if last = ".." then path else _) = _
  rw [if_neg hup, List.reverse_reverse]

/-- **Another extension.**  A path to a name keeps its pieces in front of the
    name and the stem, unless the path ends in the name and its stem is a lone
    dot. -/
theorem withExtension?_of_namesFile (h : NamesFile path front file idle)
    (hstem : (splitExtension file.text).1 ≠ "." ∨ idle ≠ []) (hextension : extension ≠ [])
    (hslash : '/' ∉ extension) :
    ∃ path' file', path.withExtension? extension = some path'
      ∧ file'.text = (splitExtension file.text).1 ++ '.' :: extension
      ∧ NamesFile path' front file' [] := by
  have hne := stem_ne_nil file.text_ne_nil
  have hstemSlash : '/' ∉ (splitExtension file.text).1 :=
    fun hmem => file.slash_notMem_text ((fst_splitExtension_begins file.text).subset hmem)
  let file' : Name := ⟨_, isEntryName_append hstemSlash hne hextension hslash⟩
  refine ⟨⟨['/'].intercalate (front ++ [file'.text])⟩, file', ?_, rfl,
    namesFile_intercalate h.slash_notMem_front⟩
  obtain ⟨last, idle', hpieces, hlast, hmove, hup, hidle'⟩ := h.exists_pieces_shorten hstem
  have hsuffix : suffix extension = '.' :: extension := if_neg hextension
  rw [withExtension?, if_neg hslash]
  show some (replaceExtension ⟨shorten _ path.text⟩ extension) = _
  rw [replaceExtension_of_pieces hpieces hmove hup hidle', hlast, hsuffix]

/-- A path that ends in a name with a lone dot as its stem is left with `..` in
    place of the name, whatever the new extension. -/
theorem withExtension?_of_lone_dot (h : NamesFile path front file [])
    (hstem : (splitExtension file.text).1 = ".") (hslash : '/' ∉ extension) :
    ∃ path', path.withExtension? extension = some path'
      ∧ path'.pieces = front ++ [['.', '.']] ∧ path'.fileName? = none := by
  rcases splitExtension_cases file.text with hsplit | ⟨stem, old, hname, hne, hdot, hsplit⟩
  · rw [hsplit] at hstem
    exact absurd hstem file.text_ne_here
  rw [hsplit] at hstem
  obtain rfl : stem = "." := hstem
  have htext : path.text = trailed front ++ ['.', '.'] ++ old := by
    rw [h.text_eq, hname]
    simp [led]
  have hshort : shorten (utf8Length (path.extension?.getD [])) path.text
      = trailed front ++ ['.', '.'] := by
    rw [h.extension?_eq, hsplit, htext]
    exact shorten_append _ old
  have hpieces : (⟨trailed front ++ ['.', '.']⟩ : Path).pieces = front ++ [['.', '.']] := by
    have hjoined : trailed front ++ ['.', '.'] = ['/'].intercalate (front ++ [['.', '.']]) := by
      rw [intercalate_eq_trailed]
      exact (List.append_nil _).symm
    rw [hjoined]
    exact pieces_intercalate h.slash_notMem_front (by decide) (List.forall_mem_nil _)
  have hmove : ¬ IsIdle ['.', '.'] := by
    rintro (h | h)
    · cases h
    · cases h
  refine ⟨⟨trailed front ++ ['.', '.']⟩, ?_, hpieces, ?_⟩
  · rw [withExtension?, if_neg hslash]
    show some (replaceExtension ⟨shorten _ path.text⟩ extension) = _
    rw [hshort, replaceExtension, dropWhile_reverse_pieces hpieces hmove (List.forall_mem_nil _)]
    rfl
  · rw [fileName?, components_eq, hpieces,
      componentsOf_move rfl rfl (List.forall_mem_nil _), List.getLast?_concat]

end Path

end Telecommand
