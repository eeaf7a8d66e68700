import SchemaTypings.Proofs.Places

/-!
# Writing files one after another

Files are formatted and written up to the first that cannot be.  What is left of them is told by
what each path holds: the last text that was written where it leads, and everything else is as it
was.  The dump of a schema lies where no generated file does.
-/

namespace SchemaTypings.Run

open SchemaTypings.Generation

/-! ### The last of its kind -/

/-- The last member of a list that has a property. -/
def IsLast {α : Type} (p : α → Prop) (items : List α) (a : α) : Prop :=
  ∃ earlier later, items = earlier ++ a :: later ∧ p a ∧ ∀ b ∈ later, ¬ p b

namespace IsLast

variable {α β : Type}

/-- If a member has a property, one is the last of them. -/
theorem exists_of_mem {p : α → Prop} {items : List α} {a : α} (ha : a ∈ items) (hp : p a) :
    ∃ last, IsLast p items last := by
  induction items generalizing a with
  | nil => exact absurd ha List.not_mem_nil
  | cons first rest ih =>
    by_cases hrest : ∃ b ∈ rest, p b
    · obtain ⟨b, hb, hpb⟩ := hrest
      obtain ⟨last, earlier, later, rfl, hlast, hlater⟩ := ih hb hpb
      exact ⟨last, first :: earlier, later, rfl, hlast, hlater⟩
    · have hnone : ∀ b ∈ rest, ¬ p b := fun b hb hpb => hrest ⟨b, hb, hpb⟩
      rcases List.mem_cons.1 ha with rfl | hmem
      · exact ⟨a, [], rest, rfl, hp, hnone⟩
      · exact absurd hp (hnone a hmem)

theorem append {p : α → Prop} {items : List α} {a : α} (before : List α) (h : IsLast p items a) :
    IsLast p (before ++ items) a := by
  obtain ⟨earlier, later, rfl, hp, hlater⟩ := h
  exact ⟨before ++ earlier, later, (List.append_assoc ..).symm, hp, hlater⟩

theorem map {p : β → Prop} {f : α → β} {items : List α} {a : α}
    (h : IsLast (fun a => p (f a)) items a) : IsLast p (items.map f) (f a) := by
  obtain ⟨earlier, later, rfl, hp, hlater⟩ := h
  refine ⟨earlier.map f, later.map f, by simp, hp, fun b hb => ?_⟩
  obtain ⟨a, ha, rfl⟩ := List.mem_map.1 hb
  exact hlater a ha

/-- The last member is the same for properties that agree on the members. -/
theorem congr {p q : α → Prop} {items : List α} {a : α} (h : IsLast p items a)
    (hpq : ∀ b ∈ items, p b ↔ q b) : IsLast q items a := by
  obtain ⟨earlier, later, rfl, hp, hlater⟩ := h
  refine ⟨earlier, later, rfl, (hpq a (by simp)).1 hp, fun b hb hq => ?_⟩
  exact hlater b hb ((hpq b (by simp [hb])).2 hq)

end IsLast

/-! ### Texts written one after another -/

/-- Texts were written at paths, one after another. -/
inductive Wrote : FileSystem → List (String × String) → FileSystem → Prop where
  | nil (fs : FileSystem) : Wrote fs [] fs
  | cons {fs next after : FileSystem} {path text : String} {more : List (String × String)}
      (written : fs.write? path text = some next) (rest : Wrote next more after) :
      Wrote fs ((path, text) :: more) after

namespace Wrote

variable {fs after : FileSystem} {writes : List (String × String)}

theorem append {next : FileSystem} {more : List (String × String)} (h : Wrote fs writes next)
    (h' : Wrote next more after) : Wrote fs (writes ++ more) after := by
  induction h with
  | nil => exact h'
  | cons written _ ih => exact .cons written (ih h')

theorem exists_of_append {more : List (String × String)} (h : Wrote fs (writes ++ more) after) :
    ∃ next, Wrote fs writes next ∧ Wrote next more after := by
  induction writes generalizing fs with
  | nil => exact ⟨fs, .nil fs, h⟩
  | cons write rest ih =>
    cases h with
    | cons written hrest =>
      obtain ⟨next, hwrote, hmore⟩ := ih hrest
      exact ⟨next, .cons written hwrote, hmore⟩

/-- Writing changes no directory. -/
theorem sameFolders (h : Wrote fs writes after) : fs.SameFolders after := by
  induction h with
  | nil => exact .refl _
  | cons written _ ih => exact (FileSystem.SameFolders.write? written).trans ih

/-- What was written had a key. -/
theorem exists_key? (h : Wrote fs writes after) : ∀ write ∈ writes, ∃ key,
    fs.key? write.1 = some key := by
  induction h with
  | nil => exact fun write hwrite => absurd hwrite List.not_mem_nil
  | @cons fs next after path text more written _ ih =>
    refine List.forall_mem_cons.2 ⟨?_, fun write hwrite => ?_⟩
    · refine Option.ne_none_iff_exists'.1 fun hnone => ?_
      rw [(FileSystem.write?_eq_none_iff text).2 hnone] at written
      cases written
    · obtain ⟨key, hkey⟩ := ih write hwrite
      exact ⟨key, ((FileSystem.SameFolders.write? written).key? _).symm.trans hkey⟩

/-- A file at whose key nothing is written stays as it is. -/
theorem frame (h : Wrote fs writes after) (hpaths : ∀ write ∈ writes, FileSystem.IsExtended write.1)
    {key : String} (hkey : ∀ write ∈ writes, fs.key? write.1 ≠ some key) :
    after.files.get? key = fs.files.get? key := by
  induction h with
  | nil => rfl
  | @cons fs next after path text more written _ ih =>
    rw [List.forall_mem_cons] at hpaths hkey
    obtain ⟨own, hown, hget⟩ := FileSystem.write?_spec hpaths.1 written
    have hsame := FileSystem.SameFolders.write? written
    have hne : own ≠ key := fun he => hkey.1 (he ▸ hown)
    rw [ih hpaths.2 fun write hwrite => by rw [hsame.key?]; exact hkey.2 write hwrite, hget,
      if_neg hne]

/-- At a path the last text is read that was written at its key. -/
theorem read (h : Wrote fs writes after) (hpaths : ∀ write ∈ writes, FileSystem.IsExtended write.1)
    {path : String} (hpath : FileSystem.IsExtended path) {last : String × String}
    (hlast : IsLast (fun write => fs.key? write.1 = fs.key? path) writes last) :
    after.read path = .ok (.text last.2) := by
  obtain ⟨earlier, later, rfl, hkey, hlater⟩ := hlast
  obtain ⟨before, hearlier, hrest⟩ := h.exists_of_append
  cases hrest with
  | @cons _ next _ own text _ written hwrote =>
    rw [List.forall_mem_append, List.forall_mem_cons] at hpaths
    obtain ⟨key, hown, hget⟩ := FileSystem.write?_spec hpaths.2.1 written
    have hbefore := hearlier.sameFolders
    have hnext := hbefore.trans (FileSystem.SameFolders.write? written)
    have hpathKey : fs.key? path = some key := by rw [← hkey, ← hown, hbefore.key?]
    -- what comes later is written at other keys, so it frames the last write at this one
    have hframe : after.files.get? key = next.files.get? key :=
      hwrote.frame hpaths.2.2 fun write hwrite => by
        rw [hnext.key?, ← hpathKey]
        exact hlater write hwrite
    refine FileSystem.read_of_key? hpath (((h.sameFolders).key? path).trans hpathKey) ?_
    rw [hframe, hget, if_pos rfl]

end Wrote

/-! ### Formatting and writing files -/

/-- The texts that formatted files put at their paths. -/
def writesOf (directory : String) (formatted : List (RenderedFile × String)) :
    List (String × String) :=
  formatted.map fun entry => (Path.join directory entry.1.fileName, entry.2)

/-- How formatting and writing files into a directory ends: with the files that are written before
that, each with its formatted text, and a result. -/
inductive FilesEnd (format : String → Except Failure String) (fs : FileSystem)
    (directory : String) (files : List RenderedFile) (formatted : List (RenderedFile × String)) :
    Except Failure (List String) → Prop where
  | unformatted {file : RenderedFile} {rest : List RenderedFile} {failure : Failure}
      (files_eq : files = formatted.map Prod.fst ++ file :: rest)
      (formats : ∀ entry ∈ formatted, format entry.1.content = .ok entry.2)
      (fails : format file.content = .error failure) :
      FilesEnd format fs directory files formatted (.error failure)
  | unwritable {file : RenderedFile} {rest : List RenderedFile} {text : String}
      (files_eq : files = formatted.map Prod.fst ++ file :: rest)
      (formats : ∀ entry ∈ formatted, format entry.1.content = .ok entry.2)
      (formatsToo : format file.content = .ok text)
      (nowhere : fs.key? (Path.join directory file.fileName) = none) :
      FilesEnd format fs directory files formatted
        (.error (.output (.unwritable (Path.join directory file.fileName))))
  | done (files_eq : files = formatted.map Prod.fst)
      (formats : ∀ entry ∈ formatted, format entry.1.content = .ok entry.2) :
      FilesEnd format fs directory files formatted
        (.ok (files.map fun file => Path.join directory file.fileName))

section Files

variable {formatter : Formatter} {format : String → Except Failure String} {fs : FileSystem}

/-- How writing files ends depends on the directories alone. -/
theorem FilesEnd.congr {next : FileSystem} {directory : String} {files : List RenderedFile}
    {formatted : List (RenderedFile × String)} {result : Except Failure (List String)}
    (hsame : fs.SameFolders next) (h : FilesEnd format next directory files formatted result) :
    FilesEnd format fs directory files formatted result := by
  cases h with
  | unformatted files_eq formats fails => exact .unformatted files_eq formats fails
  | unwritable files_eq formats formatsToo nowhere =>
    exact .unwritable files_eq formats formatsToo ((hsame.key? _).symm.trans nowhere)
  | done files_eq formats => exact .done files_eq formats

/-- A file that can be formatted and written comes before the others. -/
theorem FilesEnd.cons {directory text : String} {file : RenderedFile} {files : List RenderedFile}
    {formatted : List (RenderedFile × String)} {result : Except Failure (List String)}
    (hformat : format file.content = .ok text)
    (h : FilesEnd format fs directory files formatted result) :
    FilesEnd format fs directory (file :: files) ((file, text) :: formatted)
      (result.map fun more => Path.join directory file.fileName :: more) := by
  have hformats (hrest : ∀ entry ∈ formatted, format entry.1.content = .ok entry.2) :
      ∀ entry ∈ (file, text) :: formatted, format entry.1.content = .ok entry.2 :=
    List.forall_mem_cons.2 ⟨hformat, hrest⟩
  cases h with
  | unformatted files_eq formats fails =>
    exact .unformatted (congrArg (List.cons file) files_eq) (hformats formats) fails
  | unwritable files_eq formats formatsToo nowhere =>
    exact .unwritable (congrArg (List.cons file) files_eq) (hformats formats) formatsToo nowhere
  | done files_eq formats => exact .done (congrArg (List.cons file) files_eq) (hformats formats)

/-- Only files are written. -/
theorem FilesEnd.mem_files {directory : String} {files : List RenderedFile}
    {formatted : List (RenderedFile × String)} {result : Except Failure (List String)}
    (h : FilesEnd format fs directory files formatted result) :
    ∀ entry ∈ formatted, entry.1 ∈ files := by
  intro entry hentry
  have hmem := List.mem_map_of_mem (f := Prod.fst) hentry
  cases h with
  | unformatted files_eq => exact files_eq ▸ List.mem_append_left _ hmem
  | unwritable files_eq => exact files_eq ▸ List.mem_append_left _ hmem
  | done files_eq => exact files_eq ▸ hmem

/-- A file is written, or it cannot be and nothing changes. -/
theorem on_writeFile (path text : String) (fs : FileSystem) :
    (writeFile path text).on fs =
      match fs.write? path text with
      | some after => (.ok (), after)
      | none => (.error (.output (.unwritable path)), fs) := by
  simp only [writeFile, Running.on_bind, Running.on_get]
  cases fs.write? path text <;> rfl

/-- The first file is formatted and written before the others, or nothing changes. -/
theorem on_writeFiles_cons (hformatter : ∀ text fs, (formatter text).on fs = (format text, fs))
    (directory : String) (file : RenderedFile) (rest : List RenderedFile) (fs : FileSystem) :
    (writeFiles formatter directory (file :: rest)).on fs =
      match format file.content with
      | .error failure => (.error failure, fs)
      | .ok text =>
        match fs.write? (Path.join directory file.fileName) text with
        | none => (.error (.output (.unwritable (Path.join directory file.fileName))), fs)
        | some next =>
          let (result, after) := (writeFiles formatter directory rest).on next
          (result.map fun more => Path.join directory file.fileName :: more, after) := by
  rw [writeFiles, Running.on_bind, hformatter]
  cases format file.content with
  | error failure => rfl
  | ok text =>
    simp only [Running.on_bind, on_writeFile]
    cases fs.write? (Path.join directory file.fileName) text with
    | none => rfl
    | some next =>
      simp only
      rcases (writeFiles formatter directory rest).on next with ⟨_ | _, _⟩ <;> rfl

/-- Files are written up to the first that cannot be formatted or written. -/
theorem on_writeFiles (hformatter : ∀ text fs, (formatter text).on fs = (format text, fs))
    (directory : String) (files : List RenderedFile) (fs : FileSystem) : ∃ formatted,
      FilesEnd format fs directory files formatted
        ((writeFiles formatter directory files).on fs).1 ∧
      Wrote fs (writesOf directory formatted) ((writeFiles formatter directory files).on fs).2 := by
  induction files generalizing fs with
  | nil => exact ⟨[], .done rfl (by simp), .nil fs⟩
  | cons file rest ih =>
    rw [on_writeFiles_cons hformatter]
    cases hformat : format file.content with
    | error failure => exact ⟨[], .unformatted rfl (by simp) hformat, .nil fs⟩
    | ok text =>
      cases hwrite : fs.write? (Path.join directory file.fileName) text with
      | none =>
        simp only [hwrite]
        exact ⟨[], .unwritable rfl (by simp) hformat ((FileSystem.write?_eq_none_iff _).1 hwrite),
          .nil fs⟩
      | some next =>
        -- the others are written after the file, among the same directories
        simp only [hwrite]
        obtain ⟨formatted, hends, hwrote⟩ := ih next
        exact ⟨(file, text) :: formatted,
          (hends.congr (FileSystem.SameFolders.write? hwrite)).cons hformat, .cons hwrite hwrote⟩

end Files

/-! ### What is left -/

/-- What is left of a run that has written the dump, if there is one, and some formatted files. -/
structure Leaves (fs : FileSystem) (directory : String) (dump : Option String)
    (formatted : List (RenderedFile × String)) (after : FileSystem) : Prop where
  folders : fs.SameFolders after
  /-- The dump is what it shall be. -/
  dumped : ∀ text ∈ dump, after.read (dumpPath directory) = .ok (.text text)
  /-- A path holds the text of the last file that is written there. -/
  file : ∀ entry ∈ formatted, ∃ last,
    IsLast (fun other => fs.key? (Path.join directory other.1.fileName) =
      fs.key? (Path.join directory entry.1.fileName)) formatted last ∧
    after.read (Path.join directory entry.1.fileName) = .ok (.text last.2)
  /-- If no file name is a path, a file is written where another one is if they have one name. -/
  named : (∀ entry ∈ formatted, '/' ∉ entry.1.fileName.toList) → ∀ entry ∈ formatted, ∃ last,
    IsLast (fun other => other.1.fileName = entry.1.fileName) formatted last ∧
    after.read (Path.join directory entry.1.fileName) = .ok (.text last.2)
  /-- Everything else is as it was. -/
  frame : ∀ key, (∀ text ∈ dump, fs.key? (dumpPath directory) ≠ some key) →
    (∀ entry ∈ formatted, fs.key? (Path.join directory entry.1.fileName) ≠ some key) →
    after.files.get? key = fs.files.get? key

/-- The text that a dump puts at its path, if there is a dump. -/
def dumpsOf (directory : String) (dump : Option String) : List (String × String) :=
  dump.toList.map fun text => (dumpPath directory, text)

/-- A file name that ends like those of generated files. -/
def IsFileName (name : String) : Prop := ∃ base, name = base ++ ".ts"

section Paths

variable {fs : FileSystem} {directory name : String}

theorem isExtended_dumpPath (directory : String) : FileSystem.IsExtended (dumpPath directory) :=
  ⟨directory, ".json", isExtension_json, rfl⟩

theorem IsFileName.exists_join (h : IsFileName name) (directory : String) :
    ∃ base, Path.join directory name = base ++ ".ts" := by
  obtain ⟨base, rfl⟩ := h
  exact Path.exists_join_append directory base ".ts"

theorem IsFileName.isExtended (h : IsFileName name) (directory : String) :
    FileSystem.IsExtended (Path.join directory name) := by
  obtain ⟨base, hbase⟩ := h.exists_join directory
  exact ⟨base, ".ts", isExtension_ts, hbase⟩

/-- The dump is written where no file is. -/
theorem IsFileName.key?_ne (h : IsFileName name) {key : String}
    (hdump : fs.key? (dumpPath directory) = some key) :
    fs.key? (Path.join directory name) ≠ some key := by
  intro hfile
  obtain ⟨base, hbase⟩ := h.exists_join directory
  rw [hbase] at hfile
  obtain ⟨front, rfl⟩ := FileSystem.exists_key?_append isExtension_ts hfile
  obtain ⟨front', hkey⟩ := FileSystem.exists_key?_append isExtension_json hdump
  have hlast := congrArg (fun key => key.toList.getLast?) hkey
  simp at hlast

/-- Plain names that are written at one place are one name. -/
theorem IsFileName.eq_of_key? {other key : String} (h : IsFileName name)
    (h' : IsFileName other) (hplain : '/' ∉ name.toList) (hplain' : '/' ∉ other.toList)
    (hkey : fs.key? (Path.join directory name) = some key)
    (hkey' : fs.key? (Path.join directory other) = some key) : name = other := by
  have hextension {name : String} (h : IsFileName name) (hplain : '/' ∉ name.toList) :
      IsExtension name := by
    obtain ⟨base, rfl⟩ := h
    exact ⟨hplain, by simp, 't', by simp, by decide⟩
  obtain ⟨base, hbase⟩ := Path.exists_join_plain directory
  rw [hbase _ hplain] at hkey
  rw [hbase _ hplain'] at hkey'
  exact FileSystem.key?_append_inj (hextension h hplain) (hextension h' hplain') hkey hkey'

end Paths

section Leaving

variable {fs after : FileSystem} {directory : String} {dump : Option String}
  {formatted : List (RenderedFile × String)}

theorem forall_mem_dumpsOf {p : String × String → Prop} :
    (∀ write ∈ dumpsOf directory dump, p write) ↔ ∀ text ∈ dump, p (dumpPath directory, text) := by
  simp [dumpsOf]

theorem forall_mem_writesOf {p : String × String → Prop} :
    (∀ write ∈ writesOf directory formatted, p write) ↔
      ∀ entry ∈ formatted, p (Path.join directory entry.1.fileName, entry.2) :=
  List.forall_mem_map

/-- What was written after the dump is left. -/
theorem Wrote.leaves
    (h : Wrote fs (dumpsOf directory dump ++ writesOf directory formatted) after)
    (hnames : ∀ entry ∈ formatted, IsFileName entry.1.fileName) :
    Leaves fs directory dump formatted after := by
  have hpaths : ∀ write ∈ dumpsOf directory dump ++ writesOf directory formatted,
      FileSystem.IsExtended write.1 := by
    rw [List.forall_mem_append, forall_mem_dumpsOf, forall_mem_writesOf]
    exact ⟨fun _ _ => isExtended_dumpPath directory,
      fun entry hentry => (hnames entry hentry).isExtended directory⟩
  have hkeys := h.exists_key?
  rw [List.forall_mem_append, forall_mem_dumpsOf, forall_mem_writesOf] at hkeys
  have hread : ∀ entry ∈ formatted, ∀ last,
      IsLast (fun other => fs.key? (Path.join directory other.1.fileName) =
        fs.key? (Path.join directory entry.1.fileName)) formatted last →
      after.read (Path.join directory entry.1.fileName) = .ok (.text last.2) := by
    intro entry hentry last hlast
    have hmapped : IsLast (fun write => fs.key? write.1 =
        fs.key? (Path.join directory entry.1.fileName)) (writesOf directory formatted)
        (Path.join directory last.1.fileName, last.2) := IsLast.map hlast
    exact h.read hpaths ((hnames entry hentry).isExtended directory)
      (hmapped.append (dumpsOf directory dump))
  refine ⟨h.sameFolders, fun text htext => ?_, fun entry hentry => ?_,
    fun hplain entry hentry => ?_, fun key hdump hfiles => ?_⟩
  · obtain rfl : dump = some text := htext
    obtain ⟨key, hkey⟩ := hkeys.1 text rfl
    have hlast : IsLast (fun write => fs.key? write.1 = fs.key? (dumpPath directory))
        (dumpsOf directory (some text) ++ writesOf directory formatted)
        (dumpPath directory, text) := by
      refine ⟨[], writesOf directory formatted, rfl, rfl, ?_⟩
      rw [forall_mem_writesOf, hkey]
      exact fun entry hentry => (hnames entry hentry).key?_ne hkey
    exact h.read hpaths (isExtended_dumpPath directory) hlast
  · obtain ⟨last, hlast⟩ := IsLast.exists_of_mem (p := fun other : RenderedFile × String =>
      fs.key? (Path.join directory other.1.fileName) =
        fs.key? (Path.join directory entry.1.fileName)) hentry rfl
    exact ⟨last, hlast, hread entry hentry last hlast⟩
  · obtain ⟨last, hlast⟩ := IsLast.exists_of_mem (p := fun other : RenderedFile × String =>
      other.1.fileName = entry.1.fileName) hentry rfl
    refine ⟨last, hlast, hread entry hentry last (hlast.congr fun other hother => ?_)⟩
    constructor
    · intro hname
      rw [hname]
    · intro hkey
      obtain ⟨key, hkey'⟩ := hkeys.2 entry hentry
      exact (hnames other hother).eq_of_key? (hnames entry hentry) (hplain other hother)
        (hplain entry hentry) (hkey.trans hkey') hkey'
  · refine h.frame hpaths ?_
    rw [List.forall_mem_append, forall_mem_dumpsOf, forall_mem_writesOf]
    exact ⟨hdump, hfiles⟩

end Leaving

end SchemaTypings.Run
