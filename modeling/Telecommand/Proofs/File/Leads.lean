import Telecommand.File.Walk
import Telecommand.Proofs.File.Contents
import Telecommand.Proofs.Text.Slice

/-! # Where steps lead

    A walk through a tree as a relation: `Leads` has a rule for each way to
    take a step, and holds exactly where the walk arrives
    (`walk_eq_ok_iff`).  What is proved of walks is proved by induction on
    it.

    A walk for creation passes directories and links alone, so it arrives at
    the same location in every tree with the same passages
    (`Leads.of_passages`).  If it arrives at an entry, so does the walk that
    uses what is there (`Leads.use`), and if it arrives at a vacant location,
    that walk does not arrive (`Leads.not_use`).

    A walk to a canonical path arrives only where the walk arrives that uses
    what is there (`Leads.use_of_canonicalize`), and arrives there wherever the
    canonical paths of all entries are short enough
    (`Leads.canonicalize_of_use`). -/

namespace Telecommand.File.Tree

/-- Steps from a directory lead to an arrival, through no more links than a
    number. -/
inductive Leads (tree : Tree) (limits : Limits) (intent : Intent) :
    Nat → Location → List Step → Arrival → Prop
  | arrived (links : Nat) (directory : Location) :
      Leads tree limits intent links directory [] (.existing directory)
  | here {links : Nat} {directory : Location} {rest : List Step} {arrival : Arrival}
      (h : Leads tree limits intent links directory rest arrival) :
      Leads tree limits intent links directory (.here :: rest) arrival
  | slash {links : Nat} {directory : Location} {rest : List Step} {arrival : Arrival}
      (h : Leads tree limits intent links directory rest arrival) :
      Leads tree limits intent links directory (.slash :: rest) arrival
  | up {links : Nat} {directory : Location} {rest : List Step} {arrival : Arrival}
      (h : Leads tree limits intent links directory.dropLast rest arrival) :
      Leads tree limits intent links directory (.up :: rest) arrival
  | directory {links : Nat} {directory : Location} {name : Name} {rest : List Step}
      {arrival : Arrival} (hslash : ¬ (intent = .create ∧ rest = [.slash]))
      (hname : limits.allowsEntry intent directory name = true)
      (hfind : tree.find? (directory ++ [name]) = some .directory)
      (hsteps : limits.allowsSteps intent (directory ++ [name]) rest = true)
      (h : Leads tree limits intent links (directory ++ [name]) rest arrival) :
      Leads tree limits intent links directory (.name name :: rest) arrival
  | file {links : Nat} {directory : Location} {name : Name} {contents : Bytes}
      (hname : limits.allowsEntry intent directory name = true)
      (hfind : tree.find? (directory ++ [name]) = some (.file contents)) :
      Leads tree limits intent links directory [.name name] (.existing (directory ++ [name]))
  | link {links : Nat} {directory : Location} {name : Name} {rest : List Step}
      {arrival : Arrival} {target : Path}
      (hslash : ¬ (intent = .create ∧ rest = [.slash]))
      (hname : limits.allowsEntry intent directory name = true)
      (hfind : tree.find? (directory ++ [name]) = some (.link target))
      (h : Leads tree limits intent links (if target.isAbsolute then [] else directory)
        (target.steps ++ rest) arrival) :
      Leads tree limits intent (links + 1) directory (.name name :: rest) arrival
  | vacant {links : Nat} {directory : Location} {name : Name} (hintent : intent = .create)
      (hname : limits.allowsEntry intent directory name = true)
      (hfind : tree.find? (directory ++ [name]) = none) :
      Leads tree limits intent links directory [.name name] (.vacant (directory ++ [name]))

variable {tree : Tree} {limits : Limits} {intent : Intent} {links : Nat}
  {directory : Location} {steps : List Step} {arrival : Arrival}

/-- Only creation is refused before a slash at the end. -/
theorem not_create_of_use (p : Prop) : ¬ (Intent.use = .create ∧ p) :=
  fun h => Intent.noConfusion h.1

theorem not_create_of_canonicalize (p : Prop) : ¬ (Intent.canonicalize = .create ∧ p) :=
  fun h => Intent.noConfusion h.1

/-! ## The walk arrives where the steps lead -/

/-- A walk that goes on behind links only to where they lead goes only to
    where its steps lead. -/
theorem leads_of_walkWith {follow : Location → List Step → Except OsError Arrival}
    (hfollow : ∀ {directory name target rest},
      ¬ (intent = .create ∧ rest = [.slash]) →
      limits.allowsEntry intent directory name = true →
      tree.find? (directory ++ [name]) = some (.link target) →
      follow (if target.isAbsolute then [] else directory) (target.steps ++ rest)
          = .ok arrival →
        Leads tree limits intent links directory (.name name :: rest) arrival)
    (h : walkWith tree limits intent follow directory steps = .ok arrival) :
    Leads tree limits intent links directory steps arrival := by
  induction steps generalizing directory with
  | nil =>
      cases h
      exact .arrived links directory
  | cons step rest ih =>
      cases step with
      | here => exact .here (ih h)
      | slash => exact .slash (ih h)
      | up => exact .up (ih h)
      | name name =>
          simp only [walkWith] at h
          by_cases hslash : intent = .create ∧ rest = [.slash]
          · rw [if_pos hslash] at h
            cases h
          · rw [if_neg hslash] at h
            cases hname : limits.allowsEntry intent directory name with
            | false =>
                rw [hname, if_pos rfl] at h
                cases h
            | true =>
                rw [hname, if_neg (by decide)] at h
                cases hfind : tree.find? (directory ++ [name]) with
                | none =>
                    simp only [hfind] at h
                    by_cases hvacant : intent = .create ∧ rest = []
                    · rw [if_pos hvacant] at h
                      cases h
                      rw [hvacant.2]
                      exact .vacant hvacant.1 hname hfind
                    · rw [if_neg hvacant] at h
                      cases h
                | some entry =>
                    cases entry with
                    | directory =>
                        simp only [hfind] at h
                        cases hsteps : limits.allowsSteps intent (directory ++ [name]) rest with
                        | false =>
                            rw [hsteps, if_pos rfl] at h
                            cases h
                        | true =>
                            rw [hsteps, if_neg (by decide)] at h
                            exact .directory hslash hname hfind hsteps (ih h)
                    | file contents =>
                        simp only [hfind] at h
                        by_cases hrest : rest = []
                        · rw [if_pos hrest] at h
                          cases h
                          rw [hrest]
                          exact .file hname hfind
                        · rw [if_neg hrest] at h
                          cases h
                    | link target =>
                        simp only [hfind] at h
                        exact hfollow hslash hname hfind h

/-- **Walks arrive where their steps lead**, and nowhere else. -/
theorem walk_eq_ok_iff :
    walk tree limits intent links directory steps = .ok arrival
      ↔ Leads tree limits intent links directory steps arrival := by
  constructor
  · intro h
    induction links generalizing directory steps with
    | zero =>
        refine leads_of_walkWith ?_ h
        intro _ _ _ _ _ _ _ hfollow
        cases hfollow
    | succ links ih =>
        refine leads_of_walkWith ?_ h
        intro _ _ _ _ hslash hname hfind hfollow
        exact .link hslash hname hfind (ih hfollow)
  · intro h
    induction h with
    | arrived links directory => cases links <;> rfl
    | @here links _ _ _ _ ih => cases links <;> exact ih
    | @slash links _ _ _ _ ih => cases links <;> exact ih
    | @up links _ _ _ _ ih => cases links <;> exact ih
    | @directory links _ _ _ _ hslash hname hfind hsteps _ ih =>
        cases links <;>
          simpa only [walk, walkWith, hslash, hname, hfind, hsteps, if_false,
            Bool.true_eq_false] using ih
    | @file links _ _ _ hname hfind =>
        cases links <;> simp [walk, walkWith, hname, hfind]
    | @link links _ _ _ _ _ hslash hname hfind _ ih =>
        simpa only [walk, walkWith, hslash, hname, hfind, if_false, Bool.true_eq_false] using ih
    | @vacant links _ _ hintent hname hfind =>
        subst hintent
        cases links <;> simp [walk, walkWith, hname, hfind]

namespace Leads

/-- A vacant location holds nothing, and only creation arrives there. -/
theorem find?_of_vacant {location : Location}
    (h : Leads tree limits intent links directory steps (.vacant location)) :
    tree.find? location = none ∧ intent = .create := by
  generalize harrival : Arrival.vacant location = arrival at h
  induction h with
  | arrived => cases harrival
  | file => cases harrival
  | vacant hintent hname hfind =>
      cases harrival
      exact ⟨hfind, hintent⟩
  | here _ ih => exact ih harrival
  | slash _ ih => exact ih harrival
  | up _ ih => exact ih harrival
  | directory _ _ _ _ _ ih => exact ih harrival
  | link _ _ _ _ ih => exact ih harrival

/-! ## Creation and use -/

/-- Where an entry would be created in place of another one, that entry is
    found to be used. -/
theorem use {location : Location}
    (h : Leads tree limits .create links directory steps (.existing location)) :
    Leads tree limits .use links directory steps (.existing location) := by
  generalize harrival : Arrival.existing location = arrival at h
  induction h with
  | arrived links directory => exact .arrived links directory
  | file hname hfind => exact .file hname hfind
  | vacant => cases harrival
  | here _ ih => exact .here (ih harrival)
  | slash _ ih => exact .slash (ih harrival)
  | up _ ih => exact .up (ih harrival)
  | directory _ hname hfind _ _ ih =>
      exact .directory (not_create_of_use _) hname hfind rfl (ih harrival)
  | link _ hname hfind _ ih => exact .link (not_create_of_use _) hname hfind (ih harrival)

/-- Where an entry would be created that is not there yet, nothing is found
    to be used. -/
theorem not_use {location : Location} {found : Arrival}
    (h : Leads tree limits .create links directory steps (.vacant location)) :
    ¬ Leads tree limits .use links directory steps found := by
  generalize harrival : Arrival.vacant location = arrival at h
  induction h with
  | arrived => cases harrival
  | file => cases harrival
  | vacant _ _ hfind =>
      intro huse
      cases huse with
      | directory _ _ hother => rw [hfind] at hother; cases hother
      | file _ hother => rw [hfind] at hother; cases hother
      | link _ _ hother => rw [hfind] at hother; cases hother
      | vacant hintent => cases hintent
  | here _ ih =>
      intro huse
      cases huse with
      | here huse => exact ih harrival huse
  | slash _ ih =>
      intro huse
      cases huse with
      | slash huse => exact ih harrival huse
  | up _ ih =>
      intro huse
      cases huse with
      | up huse => exact ih harrival huse
  | directory _ _ hfind _ _ ih =>
      intro huse
      cases huse with
      | directory _ _ _ _ huse => exact ih harrival huse
      | file _ hother => rw [hfind] at hother; cases hother
      | link _ _ hother => rw [hfind] at hother; cases hother
      | vacant hintent => cases hintent
  | link _ _ hfind _ ih =>
      intro huse
      cases huse with
      | directory _ _ hother => rw [hfind] at hother; cases hother
      | file _ hother => rw [hfind] at hother; cases hother
      | link _ _ hother huse =>
          rw [hfind] at hother
          cases hother
          exact ih harrival huse
      | vacant hintent => cases hintent

/-! ## Trees with the same passages -/

/-- **Passages decide where creation leads.**  In a tree with the same
    directories and links the same steps lead to the same location, be there
    a file or not. -/
theorem of_passages {other : Tree} (hpassages : ∀ l, other.passage? l = tree.passage? l)
    (h : Leads tree limits .create links directory steps arrival) :
    ∃ found, Leads other limits .create links directory steps found
      ∧ found.location = arrival.location := by
  -- at the end of the steps there may be a file in one tree and none in the other
  have hend {links : Nat} {directory : Location} {name : Name}
      (hname : limits.allowsEntry .create directory name = true)
      (hnone : tree.passage? (directory ++ [name]) = none) :
      ∃ found, Leads other limits .create links directory [.name name] found
        ∧ found.location = directory ++ [name] := by
    rw [← hpassages, passage?_eq_none_iff] at hnone
    rcases hnone with hfind | ⟨contents, hfind⟩
    · exact ⟨_, .vacant rfl hname hfind, rfl⟩
    · exact ⟨_, .file hname hfind, rfl⟩
  induction h with
  | arrived links directory => exact ⟨_, .arrived links directory, rfl⟩
  | file hname hfind => exact hend hname (passage?_eq_none_iff.mpr (.inr ⟨_, hfind⟩))
  | vacant _ hname hfind => exact hend hname (passage?_eq_none_iff.mpr (.inl hfind))
  | here _ ih =>
      obtain ⟨found, hfound, hlocation⟩ := ih
      exact ⟨found, .here hfound, hlocation⟩
  | slash _ ih =>
      obtain ⟨found, hfound, hlocation⟩ := ih
      exact ⟨found, .slash hfound, hlocation⟩
  | up _ ih =>
      obtain ⟨found, hfound, hlocation⟩ := ih
      exact ⟨found, .up hfound, hlocation⟩
  | directory hslash hname hfind hsteps _ ih =>
      obtain ⟨found, hfound, hlocation⟩ := ih
      rw [← passage?_eq_directory_iff, ← hpassages, passage?_eq_directory_iff] at hfind
      exact ⟨found, .directory hslash hname hfind hsteps hfound, hlocation⟩
  | link hslash hname hfind _ ih =>
      obtain ⟨found, hfound, hlocation⟩ := ih
      rw [← passage?_eq_link_iff, ← hpassages, passage?_eq_link_iff] at hfind
      exact ⟨found, .link hslash hname hfind hfound, hlocation⟩

/-! ## Walks to canonical paths -/

/-- A canonical path is found only of what is found to be used. -/
theorem use_of_canonicalize
    (h : Leads tree limits .canonicalize links directory steps arrival) :
    Leads tree limits .use links directory steps arrival := by
  have hallowed {directory : Location} {name : Name}
      (h : limits.allowsEntry .canonicalize directory name = true) :
      limits.allowsEntry .use directory name = true := (Bool.and_eq_true_iff.mp h).1
  induction h with
  | arrived links directory => exact .arrived links directory
  | here _ ih => exact .here ih
  | slash _ ih => exact .slash ih
  | up _ ih => exact .up ih
  | directory _ hname hfind _ _ ih =>
      exact .directory (not_create_of_use _) (hallowed hname) hfind rfl ih
  | file hname hfind => exact .file (hallowed hname) hfind
  | link _ hname hfind _ ih => exact .link (not_create_of_use _) (hallowed hname) hfind ih
  | vacant hintent => cases hintent

/-- The canonical path of what is found to be used is found, if no entry has one
    that is too long to be asked about as a directory. -/
theorem canonicalize_of_use
    (hfits : ∀ location, location ≠ [] → tree.find? location ≠ none →
      limits.allowsPath ⟨(Location.path location).text ++ ['/']⟩ = true)
    (h : Leads tree limits .use links directory steps arrival) :
    Leads tree limits .canonicalize links directory steps arrival := by
  have hentry {directory : Location} {name : Name} {entry : Entry}
      (hfind : tree.find? (directory ++ [name]) = some entry) :
      limits.allowsPath ⟨(Location.path (directory ++ [name])).text ++ ['/']⟩ = true :=
    hfits _ (by simp) (by rw [hfind]; exact Option.some_ne_none entry)
  have hallowed {directory : Location} {name : Name} {entry : Entry}
      (hname : limits.allowsEntry .use directory name = true)
      (hfind : tree.find? (directory ++ [name]) = some entry) :
      limits.allowsEntry .canonicalize directory name = true := by
    refine Bool.and_eq_true_iff.mpr ⟨hname, ?_⟩
    have hslash := of_decide_eq_true (hentry hfind)
    rw [Text.utf8Length_append] at hslash
    exact decide_eq_true (by omega)
  induction h with
  | arrived links directory => exact .arrived links directory
  | here _ ih => exact .here ih
  | slash _ ih => exact .slash ih
  | up _ ih => exact .up ih
  | directory _ hname hfind _ _ ih =>
      exact .directory (not_create_of_canonicalize _) (hallowed hname hfind) hfind
        (Bool.or_eq_true_iff.mpr (.inr (hentry hfind))) ih
  | file hname hfind => exact .file (hallowed hname hfind) hfind
  | link _ hname hfind _ ih =>
      exact .link (not_create_of_canonicalize _) (hallowed hname hfind) hfind ih
  | vacant hintent => cases hintent

/-! ## The last name -/

/-- **Steps that end in a name lead to the entry of that name**, there or still
    to be made, in the directory that the steps in front of it lead to; unless
    the name is that of a link. -/
theorem concat_name {front : List Step} {name : Name}
    (h : Leads tree limits .create links directory (front ++ [.name name]) arrival) :
    ∃ parent, Leads tree limits .use links directory front (.existing parent)
      ∧ (arrival.location = parent ++ [name]
        ∨ ∃ target, tree.find? (parent ++ [name]) = some (.link target)) := by
  generalize hsteps : front ++ [.name name] = steps at h
  induction h generalizing front with
  | arrived => exact absurd hsteps (by simp)
  | here h ih =>
      rcases List.append_eq_cons_iff.mp hsteps with ⟨-, hlast⟩ | ⟨others, rfl, hrest⟩
      · cases hlast
      · obtain ⟨parent, hparent, hlocation⟩ := ih hrest.symm
        exact ⟨parent, .here hparent, hlocation⟩
  | slash h ih =>
      rcases List.append_eq_cons_iff.mp hsteps with ⟨-, hlast⟩ | ⟨others, rfl, hrest⟩
      · cases hlast
      · obtain ⟨parent, hparent, hlocation⟩ := ih hrest.symm
        exact ⟨parent, .slash hparent, hlocation⟩
  | up h ih =>
      rcases List.append_eq_cons_iff.mp hsteps with ⟨-, hlast⟩ | ⟨others, rfl, hrest⟩
      · cases hlast
      · obtain ⟨parent, hparent, hlocation⟩ := ih hrest.symm
        exact ⟨parent, .up hparent, hlocation⟩
  | @directory links directory _ _ _ _ hname hfind _ h ih =>
      rcases List.append_eq_cons_iff.mp hsteps with ⟨hfront, hlast⟩ | ⟨others, rfl, hrest⟩
      · cases hlast
        cases h
        rw [hfront]
        exact ⟨directory, .arrived _ directory, .inl rfl⟩
      · obtain ⟨parent, hparent, hlocation⟩ := ih hrest.symm
        exact ⟨parent, .directory (not_create_of_use _) hname hfind rfl hparent, hlocation⟩
  | @link links directory name rest arrival target _ hname hfind h ih =>
      rcases List.append_eq_cons_iff.mp hsteps with ⟨hfront, hlast⟩ | ⟨others, rfl, hrest⟩
      · cases hlast
        rw [hfront]
        exact ⟨directory, .arrived _ directory, .inr ⟨target, hfind⟩⟩
      · -- behind the link the last step is still the name
        obtain ⟨parent, hparent, hlocation⟩ :=
          @ih (target.steps ++ others) (by rw [hrest, List.append_assoc])
        exact ⟨parent, .link (not_create_of_use _) hname hfind hparent, hlocation⟩
  | @file links directory _ _ _ _ =>
      obtain ⟨rfl, hlast⟩ := List.append_eq_singleton_iff.mp hsteps |>.resolve_right (by simp)
      cases hlast
      exact ⟨directory, .arrived links directory, .inl rfl⟩
  | @vacant links directory _ _ _ _ =>
      obtain ⟨rfl, hlast⟩ := List.append_eq_singleton_iff.mp hsteps |>.resolve_right (by simp)
      cases hlast
      exact ⟨directory, .arrived links directory, .inl rfl⟩

/-- Steps that stay where they are can be left out of those in use. -/
theorem filter_here {front : List Step}
    (h : Leads tree limits .use links directory (front ++ steps) arrival) :
    Leads tree limits .use links directory (front ++ steps.filter (· ≠ .here)) arrival := by
  generalize hall : front ++ steps = all at h
  induction h generalizing front steps with
  | arrived links directory =>
      obtain ⟨rfl, rfl⟩ := List.append_eq_nil_iff.mp hall
      exact .arrived links directory
  | @here _ _ rest _ h ih =>
      rcases List.append_eq_cons_iff.mp hall with ⟨rfl, rfl⟩ | ⟨others, rfl, rfl⟩
      · exact @ih rest [] rfl
      · exact .here (ih rfl)
  | @slash _ _ rest _ h ih =>
      rcases List.append_eq_cons_iff.mp hall with ⟨rfl, rfl⟩ | ⟨others, rfl, rfl⟩
      · exact .slash (@ih rest [] rfl)
      · exact .slash (ih rfl)
  | @up _ _ rest _ h ih =>
      rcases List.append_eq_cons_iff.mp hall with ⟨rfl, rfl⟩ | ⟨others, rfl, rfl⟩
      · exact .up (@ih rest [] rfl)
      · exact .up (ih rfl)
  | @directory _ _ _ rest _ _ hname hfind _ h ih =>
      rcases List.append_eq_cons_iff.mp hall with ⟨rfl, rfl⟩ | ⟨others, rfl, rfl⟩
      · exact .directory (not_create_of_use _) hname hfind rfl (@ih rest [] rfl)
      · exact .directory (not_create_of_use _) hname hfind rfl (ih rfl)
  | file hname hfind =>
      rcases List.append_eq_cons_iff.mp hall with ⟨rfl, rfl⟩ | ⟨others, rfl, hothers⟩
      · exact .file hname hfind
      · obtain ⟨rfl, rfl⟩ := List.append_eq_nil_iff.mp hothers.symm
        exact .file hname hfind
  | @link _ directory _ rest _ target _ hname hfind h ih =>
      -- behind the link its target's steps stand in front, and they are all kept
      rcases List.append_eq_cons_iff.mp hall with ⟨rfl, rfl⟩ | ⟨others, rfl, rfl⟩
      · exact .link (not_create_of_use _) hname hfind (@ih rest target.steps rfl)
      · have hfollow := @ih steps (target.steps ++ others) (List.append_assoc _ _ _)
        rw [List.append_assoc] at hfollow
        exact .link (not_create_of_use _) hname hfind hfollow
  | vacant hintent => cases hintent

end Leads

end Telecommand.File.Tree
