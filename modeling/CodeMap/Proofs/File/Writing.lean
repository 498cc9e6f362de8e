import CodeMap.File.Tree

/-! # Files written and read

A file that is written is there afterwards, under the same path and with what was written last. The
folders stay as they were, and no file but the one written changes.
-/

namespace CodeMap.FileTree

variable {t : FileTree} {path : String} {place : Place}

/-- The tree with a file put at a place. -/
def put (t : FileTree) (place : Place) (content : Text.Bytes) : FileTree :=
  { t with files := (place, content) :: t.files.filter (·.1 != place) }

/-! ## One place -/

@[simp] theorem device?_put (content : Text.Bytes) (q : Place) :
    (t.put place content).device? q = t.device? q := rfl

theorem file?_put (h : t.device? place = none) (content : Text.Bytes) :
    (t.put place content).file? place = some content := by
  rw [file?, device?_put, h]
  exact List.lookup_cons_self

theorem file?_put_of_ne {q : Place} (h : q ≠ place) (content : Text.Bytes) :
    (t.put place content).file? q = t.file? q := by
  have hq : (q == place) = false := beq_eq_false_iff_ne.mpr h
  have hlookup (files : List (Place × Text.Bytes)) :
      (files.filter (·.1 != place)).lookup q = files.lookup q := by
    induction files with
    | nil => rfl
    | cons f rest ih =>
      by_cases hf : f.1 = place
      · rw [List.filter_cons_of_neg (by simp [hf]), List.lookup_cons, hf, hq, ih]
      · rw [List.filter_cons_of_pos (by simp [hf]), List.lookup_cons, List.lookup_cons, ih]
  rw [file?, file?, device?_put, put, List.lookup_cons, hq, hlookup]

@[simp] theorem put_put (content later : Text.Bytes) :
    (t.put place content).put place later = t.put place later := by
  simp [put]

theorem mem_places_put {content : Text.Bytes} {q : Place} :
    q ∈ (t.put place content).places ↔ q = place ∨ q ∈ t.places := by
  by_cases h : q = place <;> simp [places, put, h]

/-! ## Folders -/

theorem isFolder_iff {q : Place} :
    t.isFolder q ↔
      (q.isTop ∨ ∃ r ∈ t.folders, q.isPrefixOf r) ∨ ∃ r ∈ t.places, q.isPrefixOf r ∧ q ≠ r := by
  simp [isFolder]

theorem isFolder_put {content : Text.Bytes} {q : Place} (h : t.isFolder q) :
    (t.put place content).isFolder q := by
  rw [isFolder_iff] at h ⊢
  refine h.imp id ?_
  rintro ⟨r, hr, hprefix⟩
  exact ⟨r, mem_places_put.mpr (.inr hr), hprefix⟩

theorem isFolder_put_self (content : Text.Bytes) :
    (t.put place content).isFolder place = t.isFolder place := by
  rw [Bool.eq_iff_iff]
  constructor
  · intro h
    rw [isFolder_iff] at h ⊢
    refine h.imp id ?_
    rintro ⟨r, hr, hprefix, hne⟩
    rcases mem_places_put.mp hr with rfl | hr
    · exact absurd rfl hne
    · exact ⟨r, hr, hprefix, hne⟩
  · exact isFolder_put

/-- Names that lead to a place lead there after more files have come. -/
theorem walk_put {content : Text.Bytes} {names : List String} {p q : Place}
    (h : t.walk p names = .ok q) : (t.put place content).walk p names = .ok q := by
  induction names generalizing p with
  | nil => exact h
  | cons name rest ih =>
    rw [walk] at h ⊢
    split at h
    · cases h
    · next hfolder =>
      have hput : (t.put place content).isFolder p := isFolder_put (by simpa using hfolder)
      split at h
      · cases h
      · next hlong => rw [if_neg (by simp [hput]), if_neg hlong, ih h]

theorem find_put {content : Text.Bytes} (h : t.find path = .ok place) :
    (t.put place content).find path = .ok place := by
  rw [find, follow] at h ⊢
  split at h
  · cases h
  · next hempty =>
    split at h
    · cases h
    · next hlong => rw [if_neg hempty, if_neg hlong, walk_put h]

/-! ## Paths -/

/-- A file can be written at a path that leads to a place which is no folder and no full device. -/
theorem target_eq_ok :
    t.target path = .ok place ↔
      String.ofList (Text.dropTrailing (· == '/') path.toList) = path ∧ t.find path = .ok place ∧
        t.isFolder place = false ∧ t.device? place ≠ some .full := by
  simp only [target]
  constructor
  · intro h
    split at h
    · next hstem =>
      split at h
      · cases h
      · next p hfind =>
        split at h
        · cases h
        · next hfolder =>
          split at h
          · cases h
          · next hfull =>
            cases h
            exact ⟨hstem, hfind, by simpa using hfolder, hfull⟩
    · split at h <;> cases h
  · rintro ⟨hstem, hfind, hfolder, hfull⟩
    rw [if_pos hstem, hfind]
    simp only [hfolder, if_neg hfull, Bool.false_eq_true, if_false]

theorem write_eq_put (h : t.target path = .ok place) (hd : t.device? place = none)
    (content : Text.Bytes) : t.write path content = t.put place content := by
  rw [write, h]
  simp [hd, put]

theorem refusal?_eq_none : t.refusal? path = none ↔ ∃ place, t.target path = .ok place := by
  rw [refusal?]
  cases t.target path with
  | error e => exact ⟨nofun, nofun⟩
  | ok place => exact ⟨fun _ => ⟨place, rfl⟩, fun _ => rfl⟩

/-- No file changes but the one that is written. -/
theorem file?_write_of_ne {q : Place} (h : t.target path = .ok place) (hq : q ≠ place)
    (content : Text.Bytes) : (t.write path content).file? q = t.file? q := by
  cases hd : t.device? place with
  | none => rw [write_eq_put h hd, file?_put_of_ne hq]
  | some d => rw [write, h]; simp [hd]

/-- A path where a file was written leads to this file. -/
theorem target_put (h : t.target path = .ok place) (content : Text.Bytes) :
    (t.put place content).target path = .ok place := by
  obtain ⟨hstem, hfind, hfolder, hfull⟩ := target_eq_ok.mp h
  exact target_eq_ok.mpr ⟨hstem, find_put hfind, (isFolder_put_self content).trans hfolder, hfull⟩

/-- What was written is read. -/
theorem read_put (h : t.target path = .ok place) (hd : t.device? place = none)
    (content : Text.Bytes) : (t.put place content).read path = .ok content := by
  obtain ⟨-, hfind, -⟩ := target_eq_ok.mp h
  rw [read, contents, find_put hfind]
  simp only [file?_put hd]
  rfl

/-- A device is read as an empty file. -/
theorem read_of_device {d : Device} (h : t.target path = .ok place)
    (hd : t.device? place = some d) : t.read path = .ok [] := by
  obtain ⟨-, hfind, -⟩ := target_eq_ok.mp h
  rw [read, contents, hfind]
  simp only [file?, hd]
  rfl

end CodeMap.FileTree
