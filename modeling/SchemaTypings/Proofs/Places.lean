import SchemaTypings.Run.Job

/-!
# Writing and reading files

A file is known by its key, the text of the place that a path leads to.  Whether and where a path
leads depends on the directories alone, so writing files moves no path.  A path that ends in an
extension never leads to the empty device, so what is written there can be read again.
-/

namespace SchemaTypings.Text

/-- What is added at the end of a text prolongs its last piece. -/
theorem exists_split_append (mark : Char) (cs : List Char) :
    ∃ before last, ∀ ds, mark ∉ ds → split mark (cs ++ ds) = before ++ [last ++ ds] := by
  induction cs with
  | nil => exact ⟨[], [], fun ds h => split_of_not_mem h⟩
  | cons c rest ih =>
    obtain ⟨before, last, happend⟩ := ih
    by_cases hc : c = mark
    · refine ⟨[] :: before, last, fun ds h => ?_⟩
      rw [List.cons_append, split, if_pos hc, happend ds h, List.cons_append]
    · cases before with
      | nil =>
        refine ⟨[], c :: last, fun ds h => ?_⟩
        rw [List.cons_append, split, if_neg hc, happend ds h]
        rfl
      | cons piece more =>
        refine ⟨(c :: piece) :: more, last, fun ds h => ?_⟩
        rw [List.cons_append, split, if_neg hc, happend ds h]
        rfl

end SchemaTypings.Text

namespace SchemaTypings.Run

open SchemaTypings.Text

/-! ### Names with an extension -/

/-- What ends a path so that its last step is the name of a file. -/
def IsExtension (ending : String) : Prop :=
  '/' ∉ ending.toList ∧ '.' ∈ ending.toList ∧ ∃ c ∈ ending.toList, c ≠ '.'

theorem isExtension_json : IsExtension ".json" :=
  ⟨by simp, by simp, 'j', by simp, by decide⟩

theorem isExtension_ts : IsExtension ".ts" :=
  ⟨by simp, by simp, 't', by simp, by decide⟩

/-- A name with an extension is that of a step down, and not that of the empty device. -/
theorem IsExtension.name {ending : String} (h : IsExtension ending) (last : String) :
    ¬ (last ++ ending = "" ∨ last ++ ending = ".") ∧ last ++ ending ≠ ".." ∧
      last ++ ending ≠ "null" := by
  obtain ⟨-, hdot, c, hc, hne⟩ := h
  have hmem {text : String} (htext : last ++ ending = text) :
      '.' ∈ text.toList ∧ c ∈ text.toList := by
    simp [← htext, hdot, hc]
  refine ⟨?_, fun htext => ?_, fun htext => ?_⟩
  · rintro (htext | htext)
    · exact absurd (hmem htext).2 (by simp)
    · exact hne (by simpa using (hmem htext).2)
  · exact hne (by simpa using (hmem htext).2)
  · exact absurd (hmem htext).1 (by decide)

namespace Path

/-- What is added at the end of a path prolongs its last step. -/
theorem exists_steps_append (path : String) : ∃ before last, ∀ ending : String,
    '/' ∉ ending.toList → steps (path ++ ending) = before ++ [last ++ ending] := by
  obtain ⟨before, last, happend⟩ := exists_split_append '/' path.toList
  refine ⟨before.map String.ofList, String.ofList last, fun ending h => ?_⟩
  simp [steps, happend _ h, String.ofList_append]

theorem isAbsolute_append (path : String) {ending : String} (h : '/' ∉ ending.toList) :
    isAbsolute (path ++ ending) = isAbsolute path := by
  unfold isAbsolute
  rw [String.toList_append]
  cases path.toList with
  | cons c rest => rfl
  | nil =>
    cases hending : ending.toList with
    | nil => rfl
    | cons c rest =>
      rw [hending, List.mem_cons, not_or] at h
      simpa using Ne.symm h.1

/-- A name below a directory is the end of its path. -/
theorem exists_join_append (directory name ending : String) :
    ∃ base, join directory (name ++ ending) = base ++ ending := by
  unfold join
  split
  · exact ⟨name, rfl⟩
  · split
    · exact ⟨directory ++ name, (String.append_assoc ..).symm⟩
    · exact ⟨directory ++ "/" ++ name, (String.append_assoc ..).symm⟩

/-- Below a directory plain names are put after the same text. -/
theorem exists_join_plain (directory : String) :
    ∃ base, ∀ name : String, '/' ∉ name.toList → join directory name = base ++ name := by
  have hrelative : ∀ name : String, '/' ∉ name.toList → isAbsolute name = false := by
    intro name hname
    have happend := isAbsolute_append "" hname
    rwa [String.empty_append] at happend
  unfold join
  by_cases hempty : directory = ""
  · exact ⟨"", fun name hname => by simp [hempty]⟩
  · by_cases hlast : directory.toList.getLast? = some '/'
    · exact ⟨directory, fun name hname => by simp [hrelative name hname, hempty, hlast]⟩
    · exact ⟨directory ++ "/", fun name hname => by simp [hrelative name hname, hempty, hlast]⟩

end Path

/-- What comes last in a joined text is its end. -/
theorem exists_intercalate_concat (mark : String) (before : List String) :
    ∃ front, ∀ last, mark.intercalate (before ++ [last]) = front ++ last := by
  induction before with
  | nil => exact ⟨"", fun last => by simp⟩
  | cons piece more ih =>
    obtain ⟨front, hfront⟩ := ih
    refine ⟨piece ++ mark ++ front, fun last => ?_⟩
    rw [List.cons_append, String.intercalate_cons_of_ne_nil (by simp), hfront]
    simp only [String.append_assoc]

/-- The text of a place below another one ends in its name. -/
theorem Place.exists_text_child (folder : Place) :
    ∃ front, ∀ name, (folder.child name).text = front ++ name := by
  obtain ⟨front, hfront⟩ := exists_intercalate_concat "/" folder.names.reverse
  refine ⟨(if folder.absolute then "/" else "") ++ front, fun name => ?_⟩
  rw [Place.text, Place.child, List.reverse_cons, hfront, String.append_assoc]

namespace FileSystem

/-! ### Where paths lead -/

/-- The key of the file that a path may name. -/
def key? (fs : FileSystem) (path : String) : Option String :=
  (fs.filePlace path).toOption.map Place.text

theorem key?_eq_some_iff {fs : FileSystem} {path key : String} :
    fs.key? path = some key ↔ ∃ place, fs.filePlace path = .ok place ∧ place.text = key := by
  rw [key?, Option.map_eq_some_iff]
  cases fs.filePlace path <;> simp [Except.toOption]

/-- The place that a path starts from. -/
def startOf (fs : FileSystem) (path : String) : Place :=
  if Path.isAbsolute path then ⟨true, []⟩ else fs.current

/-- A path that may name a file leads to it step by step. -/
theorem walk_of_filePlace {fs : FileSystem} {path : String} {place : Place}
    (h : fs.filePlace path = .ok place) :
    fs.walk (fs.startOf path) (Path.steps path) = .ok place := by
  have hlocate : fs.locate path = .ok place := by
    unfold filePlace at h
    split at h
    · split at h
      · cases h
      · cases h
        assumption
    · cases h
  unfold locate at hlocate
  split at hlocate
  · cases hlocate
  · split at hlocate
    · cases hlocate
    · split at hlocate
      · cases hlocate
      · exact hlocate

/-- Steps are gone one after another. -/
theorem walk_append (fs : FileSystem) (place : Place) (steps more : List String) :
    fs.walk place (steps ++ more) = (fs.walk place steps).bind fun next => fs.walk next more := by
  induction steps generalizing place with
  | nil => rfl
  | cons step rest ih =>
    rw [List.cons_append, walk, walk]
    split
    · split
      · exact ih place
      · split
        · exact ih place.up
        · split
          · rfl
          · exact ih (place.child step)
    · split <;> rfl

/-- A step to a name leads down. -/
theorem walk_name {fs : FileSystem} {folder place : Place} {name : String}
    (hname : ¬ (name = "" ∨ name = ".") ∧ name ≠ "..") (h : fs.walk folder [name] = .ok place) :
    place = folder.child name := by
  rw [walk, if_neg hname.1, if_neg hname.2] at h
  split at h
  · split at h
    · cases h
    · exact (Except.ok.inj h).symm
  · split at h <;> cases h

/-- Paths that differ in their extensions lead to places that differ in them. -/
theorem exists_text_filePlace (fs : FileSystem) (path : String) : ∃ front, ∀ ending place,
    IsExtension ending → fs.filePlace (path ++ ending) = .ok place →
      place ≠ .null ∧ place.text = front ++ ending := by
  obtain ⟨before, last, hsteps⟩ := Path.exists_steps_append path
  have hwalk : ∀ ending place, IsExtension ending → fs.filePlace (path ++ ending) = .ok place →
      (fs.walk (fs.startOf path) before).bind (fs.walk · [last ++ ending]) = .ok place := by
    intro ending place hending hplace
    have hwalk := walk_of_filePlace hplace
    rwa [startOf, Path.isAbsolute_append path hending.1, hsteps ending hending.1,
      walk_append] at hwalk
  -- the folder is the same for all extensions, since it comes from the steps before the last
  cases hfolder : fs.walk (fs.startOf path) before with
  | error problem =>
    refine ⟨"", fun ending place hending hplace => ?_⟩
    have hnone := hwalk ending place hending hplace
    rw [hfolder] at hnone
    cases hnone
  | ok folder =>
    obtain ⟨front, hfront⟩ := folder.exists_text_child
    refine ⟨front ++ last, fun ending place hending hplace => ?_⟩
    obtain ⟨hdown, hup, hnull⟩ := hending.name last
    have hlast := hwalk ending place hending hplace
    rw [hfolder] at hlast
    obtain rfl := walk_name ⟨hdown, hup⟩ hlast
    exact ⟨fun h => hnull (List.cons.inj (congrArg Place.names h)).1,
      by rw [hfront, String.append_assoc]⟩

/-- The key of a path with an extension ends in it. -/
theorem exists_key?_append {fs : FileSystem} {path ending key : String}
    (hending : IsExtension ending) (h : fs.key? (path ++ ending) = some key) :
    ∃ front, key = front ++ ending := by
  obtain ⟨front, hfront⟩ := fs.exists_text_filePlace path
  obtain ⟨place, hplace, rfl⟩ := key?_eq_some_iff.1 h
  exact ⟨front, (hfront ending place hending hplace).2⟩

/-- Names with an extension below one directory have keys of their own. -/
theorem key?_append_inj {fs : FileSystem} {path a b key : String} (ha : IsExtension a)
    (hb : IsExtension b) (h : fs.key? (path ++ a) = some key)
    (h' : fs.key? (path ++ b) = some key) : a = b := by
  obtain ⟨front, hfront⟩ := fs.exists_text_filePlace path
  obtain ⟨place, hplace, rfl⟩ := key?_eq_some_iff.1 h
  obtain ⟨place', hplace', htext⟩ := key?_eq_some_iff.1 h'
  rw [(hfront a place ha hplace).2, (hfront b place' hb hplace').2] at htext
  exact (String.append_right_inj front).1 htext.symm

/-! ### Directories -/

/-- A file system has the directories of another one. -/
structure SameFolders (fs after : FileSystem) : Prop where
  directories : after.directories = fs.directories
  current : after.current = fs.current

namespace SameFolders

theorem refl (fs : FileSystem) : SameFolders fs fs := ⟨rfl, rfl⟩

variable {fs after : FileSystem}

theorem trans {next : FileSystem} (h : SameFolders fs next) (h' : SameFolders next after) :
    SameFolders fs after :=
  ⟨h'.directories.trans h.directories, h'.current.trans h.current⟩

theorem put (fs : FileSystem) (place : Place) (content : Content) :
    SameFolders fs (fs.put place content) := by
  unfold FileSystem.put
  split <;> exact ⟨rfl, rfl⟩

theorem write? {path text : String} (h : fs.write? path text = some after) :
    SameFolders fs after := by
  obtain ⟨place, -, rfl⟩ := write?_eq_some_iff.1 h
  exact .put fs place _

theorem hasDirectory (h : SameFolders fs after) : after.hasDirectory = fs.hasDirectory := by
  funext place
  rw [FileSystem.hasDirectory, FileSystem.hasDirectory, h.directories]

/-- With the same directories the same steps lead to the same place. -/
theorem walk (h : SameFolders fs after) (place : Place) (steps : List String) :
    (after.walk place steps).toOption = (fs.walk place steps).toOption := by
  induction steps generalizing place with
  | nil => rfl
  | cons step rest ih =>
    -- the files decide only which problem a missing directory is, and that is forgotten here
    rw [FileSystem.walk, FileSystem.walk, h.hasDirectory]
    by_cases hdirectory : fs.hasDirectory place = true
    · rw [if_pos hdirectory, if_pos hdirectory]
      split
      · exact ih place
      · split
        · exact ih place.up
        · split
          · rfl
          · exact ih (place.child step)
    · rw [if_neg hdirectory, if_neg hdirectory]
      split <;> split <;> rfl

theorem locate? (h : SameFolders fs after) (path : String) :
    after.locate? path = fs.locate? path := by
  rw [FileSystem.locate?, FileSystem.locate?, FileSystem.locate, FileSystem.locate, h.current]
  split
  · rfl
  · split
    · rfl
    · split
      · rfl
      · exact h.walk _ _

/-- The same paths lead to directories. -/
theorem isDirectory (h : SameFolders fs after) (path : String) :
    after.isDirectory path = fs.isDirectory path := by
  rw [FileSystem.isDirectory, FileSystem.isDirectory, h.locate?, h.hasDirectory]

end SameFolders

/-- A path may name a file if it leads to a place without a directory. -/
theorem toOption_filePlace (fs : FileSystem) (path : String) : (fs.filePlace path).toOption =
    (fs.locate? path).bind fun place => if fs.hasDirectory place then none else some place := by
  rw [filePlace, locate?]
  cases fs.locate path with
  | error problem => rfl
  | ok place =>
    show (if _ then _ else _ : Except PathProblem Place).toOption = if _ then _ else _
    split <;> rfl

/-- With the same directories a path may name the same file. -/
theorem SameFolders.key? {fs after : FileSystem} (h : SameFolders fs after) (path : String) :
    after.key? path = fs.key? path := by
  rw [FileSystem.key?, FileSystem.key?, toOption_filePlace, toOption_filePlace, h.locate?,
    h.hasDirectory]

/-! ### Contents -/

/-- A path that ends in an extension. -/
def IsExtended (path : String) : Prop := ∃ base ending, IsExtension ending ∧ path = base ++ ending

/-- Nothing can be written at a path that cannot name a file. -/
theorem write?_eq_none_iff {fs : FileSystem} {path : String} (text : String) :
    fs.write? path text = none ↔ fs.key? path = none := by
  rw [write?, key?, Option.map_eq_none_iff, Option.map_eq_none_iff]

/-- A write changes the file of its path and nothing else. -/
theorem write?_spec {fs after : FileSystem} {path text : String} (hpath : IsExtended path)
    (h : fs.write? path text = some after) :
    ∃ key, fs.key? path = some key ∧ ∀ other,
      after.files.get? other = if key = other then some (.text text) else fs.files.get? other := by
  obtain ⟨base, ending, hending, rfl⟩ := hpath
  obtain ⟨place, hplace, rfl⟩ := write?_eq_some_iff.1 h
  obtain ⟨front, hfront⟩ := fs.exists_text_filePlace base
  obtain ⟨hnull, -⟩ := hfront ending place hending hplace
  exact ⟨place.text, key?_eq_some_iff.2 ⟨place, hplace, rfl⟩,
    fun other => get?_files_put fs _ other hnull⟩

/-- At a path with an extension the file is read that has the path's key. -/
theorem read_of_key? {fs : FileSystem} {path key : String} {content : Content}
    (hpath : IsExtended path) (hkey : fs.key? path = some key)
    (hcontent : fs.files.get? key = some content) : fs.read path = .ok content := by
  obtain ⟨base, ending, hending, rfl⟩ := hpath
  obtain ⟨place, hplace, rfl⟩ := key?_eq_some_iff.1 hkey
  obtain ⟨front, hfront⟩ := fs.exists_text_filePlace base
  obtain ⟨hnull, -⟩ := hfront ending place hending hplace
  simp only [read, hplace, content?, if_neg hnull, hcontent]

/-- What was written is read. -/
theorem read_write? {fs after : FileSystem} {path text : String} (hpath : IsExtended path)
    (h : fs.write? path text = some after) : after.read path = .ok (.text text) := by
  obtain ⟨key, hkey, hget⟩ := write?_spec hpath h
  exact read_of_key? hpath (((SameFolders.write? h).key? path).trans hkey)
    (by rw [hget, if_pos rfl])

end FileSystem

end SchemaTypings.Run
