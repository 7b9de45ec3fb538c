import PerfGate.FileTree.Basic
import PerfGate.Proofs.Except

/-!
# FileTree — what writing leaves alone

A path is followed through directories only, and a file is never written in the place of one. So a
file that is written changes what stands at one place (`node?_write`), it is read back
(`read_write_self`), and every other file is read as before (`read_write_of_ne`).
-/

namespace PerfGate.FileTree

variable {t t' : FileTree} {place start names : List String} {target : Target}
  {content : List UInt8} {path : String}

/-- The place of a file that a path leads to, or where a file can be made. -/
def Target.filePlace? : Target → Option (List String)
  | .file place _ => some place
  | .vacant place => some place
  | .directory _ => none

/-- The place where a path leads to a file, or to a free name in a directory. -/
def filePlace? (t : FileTree) (path : String) : Option (List String) :=
  (t.resolve path).toOption.bind Target.filePlace?

theorem filePlace?_eq_some_iff :
    t.filePlace? path = some place ↔
      ∃ target, t.resolve path = .ok target ∧ target.filePlace? = some place := by
  unfold filePlace?
  simp only [Option.bind_eq_some_iff, toOption_eq_some_iff]

/-! ## Nodes -/

theorem node?_put (hplace : t.node? place ≠ some .directory) (node : FileNode)
    (other : List String) :
    (t.put place node).node? other = if other = place then some node else t.node? other := by
  split
  · rename_i h
    subst h
    apply node?_put_self
    -- the directories above the working directory are always there
    rw [Bool.eq_false_iff]
    intro hprefix
    exact hplace (if_pos hprefix)
  · rename_i h
    exact t.node?_put_of_ne node h

/-! ## Following names -/

/-- A name that is looked up leads on from a directory, and from anything else only if it is the
last. -/
theorem follow_name {name : String} {rest : List String} (hdot : name ≠ ".") (hup : name ≠ "..")
    (hsize : ¬ Path.maxNameSize < name.utf8ByteSize) :
    t.follow start (name :: rest) =
      match t.node? (start ++ [name]) with
      | some .directory => t.follow (start ++ [name]) rest
      | some (.file content) =>
        if rest.isEmpty then .ok (.file (start ++ [name]) content) else .error .notDirectory
      | none => if rest.isEmpty then .ok (.vacant (start ++ [name])) else .error .notFound := by
  rw [follow, if_neg hdot, if_neg hup]
  exact if_neg hsize

/-- No directory stands where a path leads to a file or to a free name. -/
theorem node?_ne_directory (h : t.follow start names = .ok target)
    (hplace : target.filePlace? = some place) : t.node? place ≠ some .directory := by
  fun_induction t.follow start names with
  | case1 start =>
      cases h
      cases hplace
  | case2 start rest ih => exact ih h
  | case3 start rest _ ih => exact ih h
  | case4 => cases h
  | case5 start name rest _ _ _ _ ih => exact ih h
  | case6 start name rest _ _ _ content hnode =>
      cases h
      cases hplace
      simp [hnode]
  | case7 => cases h
  | case8 start name rest _ _ _ hnode =>
      cases h
      cases hplace
      simp [hnode]
  | case9 => cases h

/-- Names lead to the same target after a file is put anywhere but in the place of a directory,
unless that target is what is put. -/
theorem follow_put (hdirectory : t.node? place ≠ some .directory)
    (h : t.follow start names = .ok target) :
    (t.put place (.file content)).follow start names =
      .ok (if target.filePlace? = some place then .file place content else target) := by
  have hput := node?_put hdirectory (.file content)
  fun_induction t.follow start names with
  | case1 start =>
      cases h
      rfl
  | case2 start rest ih =>
      rw [follow, if_pos rfl]
      exact ih h
  | case3 start rest hdot ih =>
      rw [follow, if_neg hdot, if_pos rfl]
      exact ih h
  | case4 => cases h
  | case5 start name rest hdot hup hsize hnode ih =>
      -- what is put stands in no directory's place, so the way on is still there
      have hne : start ++ [name] ≠ place := fun heq => hdirectory (heq ▸ hnode)
      rw [follow_name hdot hup hsize, hput, if_neg hne, hnode]
      exact ih h
  | case6 start name rest hdot hup hsize old hnode hlast =>
      cases h
      rw [follow_name hdot hup hsize, hput, hnode]
      by_cases heq : start ++ [name] = place
      · simp [heq, hlast, Target.filePlace?]
      · simp [heq, hlast, Target.filePlace?]
  | case7 => cases h
  | case8 start name rest hdot hup hsize hnode hlast =>
      cases h
      rw [follow_name hdot hup hsize, hput, hnode]
      by_cases heq : start ++ [name] = place
      · simp [heq, hlast, Target.filePlace?]
      · simp [heq, hlast, Target.filePlace?]
  | case9 => cases h

theorem resolve_eq_ok_iff :
    t.resolve path = .ok target ↔
      checkPath path = .ok () ∧ t.follow (t.start path) (Path.names path) = .ok target := by
  unfold resolve
  rw [bind_eq_ok_iff]
  exact ⟨fun ⟨(), hcheck, hfollow⟩ => ⟨hcheck, hfollow⟩,
    fun ⟨hcheck, hfollow⟩ => ⟨(), hcheck, hfollow⟩⟩

theorem resolve_put (hdirectory : t.node? place ≠ some .directory)
    (h : t.resolve path = .ok target) :
    (t.put place (.file content)).resolve path =
      .ok (if target.filePlace? = some place then .file place content else target) := by
  rw [resolve_eq_ok_iff] at h ⊢
  exact ⟨h.1, follow_put hdirectory h.2⟩

/-! ## Writing -/

/-- A file that is written is put where its path leads. -/
theorem eq_put_of_write (h : t.write path content = .ok t') :
    ∃ place, t.filePlace? path = some place ∧ t.node? place ≠ some .directory ∧
      t' = t.put place (.file content) := by
  simp only [write, bind_eq_ok_iff] at h
  obtain ⟨⟨⟩, _, h⟩ := h
  split at h
  · split at h <;> cases h
  · split at h
    · rename_i place _ hresolve
      have hplace := filePlace?_eq_some_iff.2 ⟨_, hresolve, rfl⟩
      cases h
      exact ⟨place, hplace, node?_ne_directory (resolve_eq_ok_iff.1 hresolve).2 rfl, rfl⟩
    · rename_i place hresolve
      have hplace := filePlace?_eq_some_iff.2 ⟨_, hresolve, rfl⟩
      cases h
      exact ⟨place, hplace, node?_ne_directory (resolve_eq_ok_iff.1 hresolve).2 rfl, rfl⟩
    · cases h
    · cases h

/-- **Writing changes one place**: that of the file that is written. -/
theorem node?_write (h : t.write path content = .ok t') (other : List String) :
    t'.node? other =
      if t.filePlace? path = some other then some (.file content) else t.node? other := by
  obtain ⟨place, hplace, hdirectory, rfl⟩ := eq_put_of_write h
  rw [node?_put hdirectory, hplace]
  simp only [Option.some.injEq, eq_comm]

/-- What is written is read back. -/
theorem read_write_self (h : t.write path content = .ok t') : t'.read path = .ok content := by
  obtain ⟨place, hplace, hdirectory, rfl⟩ := eq_put_of_write h
  obtain ⟨target, hresolve, htarget⟩ := filePlace?_eq_some_iff.1 hplace
  rw [read, resolve_put hdirectory hresolve, if_pos htarget]

/-- A file in another place is read as before. -/
theorem read_write_of_ne {other : String} {old : List UInt8}
    (h : t.write path content = .ok t') (hread : t.read other = .ok old)
    (hne : t.filePlace? other ≠ t.filePlace? path) : t'.read other = .ok old := by
  obtain ⟨place, hplace, hdirectory, rfl⟩ := eq_put_of_write h
  unfold read at hread
  split at hread
  · rename_i source _ hresolve
    cases hread
    have hsource : t.filePlace? other = some source :=
      filePlace?_eq_some_iff.2 ⟨_, hresolve, rfl⟩
    have hother : (Target.file source old).filePlace? ≠ some place := by
      rwa [hsource, hplace] at hne
    rw [read, resolve_put hdirectory hresolve, if_neg hother]
  · cases hread
  · cases hread
  · cases hread

end PerfGate.FileTree
