import Stencil.Path

/-!
# Stores of files

The files that templates are read from. Paths are compared by their components. A file may exist and
yet not be readable.

* `has_of_load`: what can be read exists.
-/

namespace Stencil

/-- Files with their texts, or with the reason why they cannot be read. Of two files at one path the
later one counts. -/
structure FileStore where
  files : List (Path × Except String String) := []

namespace FileStore

/-- The store without files. -/
def empty : FileStore := {}

/-- The file at a path. -/
def find? (s : FileStore) (p : Path) : Option (Except String String) :=
  (s.files.reverse.find? fun file => file.1.same p).map (·.2)

/-- The text at a path, or the reason why there is none. -/
def load (s : FileStore) (p : Path) : Except String String :=
  (s.find? p).getD (.error "no such file")

/-- Whether a path is a file or leads to one. -/
def has (s : FileStore) (p : Path) : Bool := s.files.any fun file => p.leadsTo file.1

theorem exists_file_of_load {s : FileStore} {p : Path} {text : String} (h : s.load p = .ok text) :
    ∃ file ∈ s.files, file.1.same p = true := by
  unfold load find? at h
  cases hf : s.files.reverse.find? fun file => file.1.same p with
  | none => rw [hf] at h; cases h
  | some file =>
    have hmem : file ∈ s.files := List.mem_reverse.1 (List.mem_of_find?_eq_some hf)
    exact ⟨file, hmem, by simpa using List.find?_some hf⟩

theorem has_of_load {s : FileStore} {p : Path} {text : String} (h : s.load p = .ok text) :
    s.has p = true := by
  obtain ⟨file, hmem, hsame⟩ := exists_file_of_load h
  exact List.any_eq_true.2 ⟨file, hmem, Path.leadsTo_of_same (Path.same_symm hsame)⟩

end FileStore

end Stencil
