import BenoStreamDB.Manifest.Load

/-!
# Data files and delete files

What the objects that a manifest refers to hold. A data file or a delete file is written once,
under a name with a fresh UUID, and never changed, so that its content is a function of the name.
A row can be of any type.
-/

namespace BenoStreamDB

variable {ρ : Type}

/-- The content of the data files and of the position-delete files. -/
structure Lake (ρ : Type) where
  rows : Path → List ρ
  /-- The pairs `(file_path, pos)` of a position-delete file. -/
  marks : Path → List (Path × ℕ)

/-- The comparison of paths in `filter_map_to_bitmap`: the two may be given relative to different
directories. -/
def namesTarget (fp target : Path) : Bool :=
  let fp := stripScheme fp
  let target := stripScheme target
  decide (fp = target) || fp.isSuffixOf target || target.isSuffixOf fp

/-- The rows at other positions than the given ones. -/
def rowsExcept (rows : List ρ) (ns : List ℕ) : List ρ :=
  (rows.zipIdx.filter fun r => !ns.contains r.2).map Prod.fst

namespace Lake

variable (L : Lake ρ)

/-- The positions that the position-delete files of an entry mark, see `mem_deleted_iff`. -/
def deleted (e : ManifestEntry) : List ℕ :=
  (e.deleteFiles.filter (·.content = .position)).flatMap fun d =>
    ((L.marks d.filePath).filter fun m => namesTarget m.1 (stripScheme e.filePath)).map Prod.snd

/-- The rows a reader of the entry returns. -/
def live (e : ManifestEntry) : List ρ := rowsExcept (L.rows e.filePath) (L.deleted e)

end Lake

end BenoStreamDB
