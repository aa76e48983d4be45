import ArchFacts.Store.Basic

/-!
# Labelling facts

When facts of another code base come into a store, those of the first get the label of its
repository, and their files a path in front, so that the two do not collide. Nothing else of a fact
ever changes. Facts are relabelled in place; the indexes of files and repositories are made anew.
-/

namespace ArchFacts

/-- A file under a path that is put in front of it. A fact without a file stays without one. -/
def underPath (path file : String) : String := if file = "" then "" else path ++ file

/-- The fact, labelled with a repository and with a path in front of its file. -/
def Fact.relocate (f : Fact) (repo path : String) : Fact :=
  { f with repo, file := underPath path f.file }

namespace Store

/-- The indexes of files and repositories, made anew from the facts. -/
def reindex (s : Store) : Store :=
  { s with
    byFile := .ofLabels (s.facts.map (·.file))
    byRepo := .ofLabels (s.facts.map (·.repo)) }

/-- Changes the facts from a position on, and tells how many these are. -/
def changeFrom (s : Store) (start : Nat) (change : Fact → Fact) : Store × Nat :=
  if s.count ≤ start then (s, 0)
  else
    let facts := s.facts.take start ++ (s.facts.drop start).map change
    (reindex { s with facts }, s.count - start)

/-- Labels the facts from a position on with a repository and puts a path in front of their files.
Tells how many facts were labelled. -/
def tagRange (s : Store) (start : Nat) (repo path : String) : Store × Nat :=
  s.changeFrom start (·.relocate repo path)

/-- Labels the facts from a position on with a repository. Tells how many facts were labelled. -/
def setRepoRange (s : Store) (start : Nat) (repo : String) : Store × Nat :=
  s.changeFrom start (·.withRepo repo)

/-- Whether a fact has no label or this one. -/
def belongs (repo : String) (f : Fact) : Bool := f.repo == "" || f.repo == repo

/-- Whether a file is to get a path in front: it has not got it yet. -/
def needsPath (path file : String) : Bool :=
  path != "" && file != "" && !Text.startsWith file path

/-- Labels a fact that has no label, or this one, and puts a path in front of its file unless it is
there already. -/
def tag (repo path : String) (f : Fact) : Fact :=
  if belongs repo f then
    { f with repo, file := if needsPath path f.file then path ++ f.file else f.file }
  else f

/-- Whether labelling changes a fact. -/
def pending (repo path : String) (f : Fact) : Bool :=
  belongs repo f && (f.repo != repo || needsPath path f.file)

/-- Whether labelling changes the file of a fact. -/
def renames (repo path : String) (f : Fact) : Bool := belongs repo f && needsPath path f.file

/-- Labels the facts that have no label, or this one, and puts a path in front of their files unless
it is there already. Tells how many files changed. -/
def tagUntagged (s : Store) (repo path : String) : Store × Nat :=
  if s.facts.any (pending repo path) then
    (reindex { s with facts := s.facts.map (tag repo path) }, s.facts.countP (renames repo path))
  else (s, 0)

end Store

end ArchFacts
