import Cyanide.Vfs.Layers

/-!
# Files and their directories

Reading changes nothing but the recorded operations.  What `mkdir_p` and `mkfile` do is said for contents and for the
directory that `mkfile` asks for: `mkdir_p` leaves all contents but those of the files that it makes directories of
(`content_mkdirP`), and finds or makes the directory of a path (`hasParent_mkdirP`).
-/

namespace Cyanide

open PosixPath

namespace FakeFilesystem

variable {s : FakeFilesystem}

/-- The bytes of a file, none if there is no file. -/
def bytesAt (s : FakeFilesystem) (path : Str) : List UInt8 := (s.getContent path).1.encode

/-- The same filesystem but for the recorded operations. -/
def SameFiles (s s' : FakeFilesystem) : Prop := ∃ ops, s' = { s with fileOps := ops }

theorem SameFiles.refl (s : FakeFilesystem) : SameFiles s s := ⟨s.fileOps, rfl⟩

theorem SameFiles.getContent {s' : FakeFilesystem} (h : SameFiles s s') (path : Str) :
    (s'.getContent path).1 = (s.getContent path).1 ∧ SameFiles s (s'.getContent path).2 := by
  obtain ⟨ops, rfl⟩ := h
  unfold FakeFilesystem.getContent
  by_cases hd : resolve path ∈ s.deletedPaths
  · simp only [hd, if_true]
    exact ⟨trivial, ops, rfl⟩
  · simp only [hd, if_false]
    exact ⟨rfl, _, rfl⟩

theorem SameFiles.layer {s' : FakeFilesystem} (h : SameFiles s s') (q : Str) : s'.layer q = s.layer q := by
  obtain ⟨ops, rfl⟩ := h
  rfl

theorem SameFiles.hasParent {s' : FakeFilesystem} (h : SameFiles s s') (q : Str) :
    s'.HasParent q ↔ s.HasParent q := by
  unfold HasParent
  rw [pathExists_eq, pathExists_eq, isDir_eq, isDir_eq, h.layer]

/-- `mkdir_p` makes a directory of what stands in for the parent of a path, a file or nothing. -/
def MakesParent (s : FakeFilesystem) (dir q : Str) : Prop :=
  resolve (dirname q) ∈ walkFrom ['/'] (mkdirParts dir) ∧
    (s.pathExists (dirname q) = false ∨ s.isFile (dirname q) = true)

instance (s : FakeFilesystem) (dir q : Str) : Decidable (s.MakesParent dir q) := inferInstanceAs (Decidable (_ ∧ _))

theorem SameFiles.makesParent {s' : FakeFilesystem} (h : SameFiles s s') (dir q : Str) :
    s'.MakesParent dir q ↔ s.MakesParent dir q := by
  unfold MakesParent
  rw [pathExists_eq, pathExists_eq, isFile_eq, isFile_eq, h.layer]

theorem hasParent_mkdirP (dir owner q : Str) :
    (s.mkdirP dir owner).HasParent q ↔ s.HasParent q ∨ s.MakesParent dir q := by
  have hlayer := layer_mkdirP (s := s) dir owner root "drwxr-xr-x".toList (resolve_resolve (dirname q))
  rw [pathExists_resolve, isFile_eq, resolve_resolve, ← isFile_eq] at hlayer
  unfold HasParent
  rw [pathExists_eq (s.mkdirP dir owner), isDir_eq (s.mkdirP dir owner)]
  by_cases hmakes : s.MakesParent dir q
  · have hdir : (s.mkdirP dir owner).layer (resolve (dirname q)) =
        .overlay (s.dirConfig owner root "drwxr-xr-x".toList) := hlayer.trans (if_pos hmakes)
    rw [hdir]
    simp [Layer.present, Layer.dir, dirConfig, hmakes]
  · have hsame : (s.mkdirP dir owner).layer (resolve (dirname q)) = s.layer (resolve (dirname q)) :=
      hlayer.trans (if_neg hmakes)
    rw [hsame, ← pathExists_eq, ← isDir_eq]
    simp [hmakes]

theorem content_mkdirP (dir owner path : Str) :
    ((s.mkdirP dir owner).getContent path).1 =
      if resolve path ∈ walkFrom ['/'] (mkdirParts dir) ∧ (s.pathExists path = false ∨ s.isFile path = true) then
        .text []
      else (s.getContent path).1 := by
  have hlayer := layer_mkdirP (s := s) dir owner root "drwxr-xr-x".toList (resolve_resolve path)
  rw [pathExists_resolve, isFile_eq, resolve_resolve, ← isFile_eq] at hlayer
  rw [content_eq, content_eq, hlayer, profile_mkdirP]
  split <;> rfl

theorem content_of_not_exists {path : Str} (h : s.pathExists path = false) : (s.getContent path).1 = .text [] := by
  rw [content_eq]
  rw [pathExists_eq] at h
  generalize s.layer (resolve path) = l at h
  cases l <;> simp_all [Layer.present, Layer.content]

theorem content_mkfile (path : Str) (content : Content) (owner : Str) :
    ((s.mkfile path content owner).2.getContent path).1 =
      if s.HasParent (resolve path) then content else (s.getContent path).1 := by
  rw [content_eq, content_eq, layer_mkfile, profile_mkfile]
  by_cases h : s.HasParent (resolve path)
  · simp [h, Layer.content, fileConfig]
  · simp [h]

/-- A file does not take the place of its directory. -/
theorem hasParent_mkfile {path : Str} (h : s.HasParent (resolve path)) (content : Content) (owner : Str) :
    (s.mkfile path content owner).2.HasParent (resolve path) := by
  by_cases hself : dirname (resolve path) = resolve path
  · exact .inl hself
  · have hne : resolve (dirname (resolve path)) ≠ resolve path := by
      refine parent_ne_self (resolve_resolve path) fun hroot => hself ?_
      rw [hroot]
      decide
    have hlayer := layer_mkfile (s := s) path content owner root "-rw-r--r--".toList (resolve (dirname (resolve path)))
    rw [if_neg fun hq => hne hq.1] at hlayer
    refine h.imp_right fun hdir => ?_
    rw [pathExists_eq, isDir_eq] at hdir ⊢
    rw [hlayer]
    exact hdir

end FakeFilesystem

end Cyanide
