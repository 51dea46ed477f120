import DotGraph.Project
import DotGraph.Proofs.FileWalks
import DotGraph.Proofs.JsonRoundTrip

/-!
Options that are saved.  Whatever was in the file of a project before, options that are saved there
are the options that are loaded from then on.
-/

namespace DotGraph

theorem ConfigFile.givenOf_text (s : String) :
    ConfigFile.givenOf (.text s) = RenderConfig.Given.ofText s := rfl

open Json in
/-- What is written for options is read as these options. -/
theorem ConfigFile.read_text (c : RenderConfig) : ConfigFile.read (ConfigFile.text c) = .ok c := by
  have hblank : (Layout.broken "  ").Blank := by
    simp [Layout.Blank, isBlankChar]
  have hfits : (ConfigFile.toJson c).Fits .lenient := by
    simp [ConfigFile.toJson, Fits, MembersFit]
  have hread : Json.read (ConfigFile.text c) = .ok (ConfigFile.toJson c) :=
    readIn_toText hblank hfits "" "\n" (by simp) (by simp [isBlankChar])
      (by simp [ConfigFile.text])
  have hindent : Entries.get? "indent" [("indent", Json.text c.indent),
      ("port_separator", Json.text c.portSeparator.text)] = some (.text c.indent) := rfl
  have hseparator : Entries.get? "port_separator" [("indent", Json.text c.indent),
      ("port_separator", Json.text c.portSeparator.text)] = some (.text c.portSeparator.text) := rfl
  rw [ConfigFile.read, hread]
  simp only [ConfigFile.toJson, ConfigFile.ofJson, hindent, hseparator, Option.map_some,
    ConfigFile.givenOf_text, RenderConfig.ofOptions, Option.getD_some, RenderConfig.ofGiven_text]

namespace Project

open Files

/-- The path to the folder of the options. -/
def folderPath (p : Project) : List String :=
  parts p.path ++ [ConfigFile.folder]

/-- Where the file of the options is. -/
def filePlace (p : Project) : List String :=
  p.folderPath.foldl step [] ++ [ConfigFile.name]

/-- A project that can keep options: its path is one that leads somewhere, nothing but directories
stands on the way to the file, and no directory in its place. -/
structure Usable (p : Project) (files : Files) : Prop where
  noNull : hasNull p.file = false
  fits : p.file.utf8ByteSize ≤ pathLimit
  short : ∀ part ∈ parts p.path, IsShort part
  clear : files.Clear [] p.folderPath
  free : files.node? p.filePlace ≠ some .directory ∧ p.filePlace ∉ visited [] p.folderPath

/-- A project whose directory is there, with a path that leads on to the file and no file in place
of the folder. -/
structure Present (p : Project) (files : Files) : Prop where
  noNull : hasNull p.file = false
  fits : p.file.utf8ByteSize ≤ pathLimit
  short : ∀ part ∈ parts p.path, IsShort part
  directories : ∀ v ∈ visited [] (parts p.path), files.node? v = some .directory
  folder : ∀ text, files.node? (p.folderPath.foldl step []) ≠ some (.file text)

variable {p : Project} {files : Files}

/-! ### The path of the file -/

theorem isName_folder : IsName ConfigFile.folder :=
  ⟨by decide, by decide, by decide⟩

theorem isName_name : IsName ConfigFile.name :=
  ⟨by decide, by decide, by decide⟩

theorem file_eq (p : Project) : p.file = pathText (p.folderPath ++ [ConfigFile.name]) := by
  rw [file, folderPath, List.append_assoc, List.singleton_append]

theorem arePartsOf_file (p : Project) : ArePartsOf (p.folderPath ++ [ConfigFile.name]) := by
  rw [folderPath, List.append_assoc]
  refine (arePartsOf_parts p.path).append ?_
  simpa using ⟨isName_folder, isName_name⟩

theorem parts_file (p : Project) : parts p.file = p.folderPath ++ [ConfigFile.name] := by
  rw [file_eq, p.arePartsOf_file.parts_pathText isName_name]

theorem endsAsDirectory_file (p : Project) : endsAsDirectory p.file = false := by
  rw [file_eq, p.arePartsOf_file.endsAsDirectory_pathText isName_name]

theorem file_ne_empty (p : Project) : p.file ≠ "" := by
  intro heq
  have hparts := p.parts_file
  rw [heq, show parts "" = [] by decide] at hparts
  simp at hparts

theorem step_name (here : List String) : step here ConfigFile.name = here ++ [ConfigFile.name] :=
  if_neg (by decide)

theorem short_parts (h : ∀ part ∈ parts p.path, IsShort part) :
    ∀ part ∈ p.folderPath ++ [ConfigFile.name], IsShort part := by
  have hown : IsShort ConfigFile.folder ∧ IsShort ConfigFile.name := by
    unfold IsShort
    decide
  simpa [folderPath, or_imp, forall_and, hown] using h

/-! ### Writing the file -/

theorem short_folderPath (h : ∀ part ∈ parts p.path, IsShort part) :
    ∀ part ∈ p.folderPath, IsShort part :=
  fun part hpart => short_parts h part (List.mem_append_left _ hpart)

theorem Usable.write (h : p.Usable files) (text : String) : ∃ files',
    p.write files text = (files', .ok ()) ∧ files'.node? p.filePlace = some (.file text) ∧
      ∀ v ∈ visited [] p.folderPath, files'.node? v = some .directory := by
  obtain ⟨hnull, hfits, hshort, hclear, hdirectory, hway⟩ := h
  obtain ⟨hok, hnodes⟩ := makeDirectories_spec files [] (p.folderPath.foldl step []) p.folderPath
  have hmade := hok.2 ⟨short_folderPath hshort, hclear, rfl⟩
  replace hnodes := hnodes hmade
  rcases hresult : files.makeDirectories [] p.folderPath with ⟨made, result⟩
  rw [hresult] at hmade hnodes
  dsimp only at hmade hnodes
  subst hmade
  have hplace : made.node? p.filePlace ≠ some .directory := by
    rwa [hnodes, if_neg hway]
  refine ⟨Entries.put p.filePlace (.file text) made, ?_, ?_, ?_⟩
  · rw [Project.write, if_neg (by simp [hnull]), if_neg (Nat.not_lt.2 hfits)]
    rw [folderPath] at hresult
    rw [hresult]
    dsimp only
    split
    · rename_i hnode
      exact absurd hnode hplace
    · rfl
  · exact node?_put_self (isAbove_of_ne_directory hplace)
  · intro v hv
    have hne : v ≠ p.filePlace := by
      rintro rfl
      exact hway hv
    rw [node?_put_of_ne hne, hnodes, if_pos hv]

theorem usable_of_write {text : String} (h : (p.write files text).2 = .ok ()) : p.Usable files := by
  rw [Project.write] at h
  split at h
  · cases h
  rename_i hnull
  split at h
  · cases h
  rename_i hfits
  split at h
  · cases h
  rename_i made here hresult
  dsimp only at h
  split at h
  · cases h
  rename_i hnode
  obtain ⟨hok, hnodes⟩ := makeDirectories_spec files [] here p.folderPath
  rw [folderPath, hresult] at hok hnodes
  obtain ⟨hshort, hclear, rfl⟩ := hok.1 rfl
  have hplace : made.node? p.filePlace ≠ some .directory := hnode
  rw [hnodes rfl] at hplace
  refine ⟨by simpa using hnull, Nat.not_lt.1 hfits, fun part hp => hshort part (by simp [hp]),
    hclear, ?_⟩
  split at hplace
  · exact absurd rfl hplace
  · rename_i hway
    exact ⟨hplace, hway⟩

/-! ### Finding the file -/

theorem place_eq_file_iff {text : String} : files.place p.file = .file text ↔
    p.file.utf8ByteSize ≤ pathLimit ∧ (∀ part ∈ parts p.path, IsShort part) ∧
      (∀ v ∈ visited [] p.folderPath, files.node? v = some .directory) ∧
      files.node? p.filePlace = some (.file text) := by
  have hend : step (p.folderPath.foldl step []) ConfigFile.name = p.filePlace := step_name _
  rw [Files.place, if_neg p.file_ne_empty, parts_file, p.endsAsDirectory_file]
  by_cases hfits : p.file.utf8ByteSize ≤ pathLimit
  · rw [if_neg (Nat.not_lt.2 hfits)]
    constructor
    · intro h
      cases hwalk : files.walk [] (p.folderPath ++ [ConfigFile.name]) with
      | error e =>
        rw [hwalk] at h
        exact absurd (hwalk.trans (congrArg _ h)) walk_ne_file
      | ok there =>
        obtain ⟨hshort, hdirs, rfl⟩ := walk_concat_eq_ok_iff.1 hwalk
        rw [hwalk] at h
        dsimp only at h
        rw [hend] at h
        have hnode : files.node? p.filePlace = some (.file text) := by
          split at h
          · cases h
          · cases h
          · rename_i found hfound
            rw [hfound]
            simpa using h
        exact ⟨hfits, fun part hp => hshort part (by simp [folderPath, hp]), hdirs, hnode⟩
    · rintro ⟨-, hshort, hdirs, hnode⟩
      have hwalk := walk_concat_eq_ok_iff.2 ⟨short_parts hshort, hdirs, hend.symm⟩
      rw [hwalk]
      dsimp only
      rw [hnode]
      rfl
  · rw [if_pos (Nat.not_le.1 hfits)]
    simp [hfits]

theorem content_eq_some_iff {text : String} : p.content files = .ok (some text) ↔
    hasNull p.file = false ∧ files.place p.file = .file text := by
  rw [content, place]
  cases hnull : hasNull p.file with
  | true => simp [bind, Except.bind, pure, Except.pure]
  | false =>
    cases hplace : files.place p.file <;>
      simp [bind, Except.bind, pure, Except.pure, throw, throwThe, MonadExceptOf.throw]

theorem usable_of_content {text : String} (h : p.content files = .ok (some text)) :
    p.Usable files := by
  obtain ⟨hnull, hplace⟩ := content_eq_some_iff.1 h
  obtain ⟨hfits, hshort, hdirs, hnode⟩ := place_eq_file_iff.1 hplace
  refine ⟨hnull, hfits, hshort, fun v hv text => by simp [hdirs v hv], by simp [hnode],
    fun hway => ?_⟩
  rw [hdirs _ hway] at hnode
  cases hnode

theorem Present.usable (h : p.Present files) (hfile : files.node? p.filePlace ≠ some .directory) :
    p.Usable files := by
  obtain ⟨hnull, hfits, hshort, hdirs, hfolder⟩ := h
  have hvisited : visited [] p.folderPath =
      visited [] (parts p.path) ++ [p.folderPath.foldl step []] := by
    rw [folderPath, visited_concat, List.foldl_append]
    rfl
  refine ⟨hnull, hfits, hshort, fun v hv text => ?_, hfile, fun hway => ?_⟩
  · rw [hvisited] at hv
    rcases List.mem_append.1 hv with hv | hv
    · simp [hdirs v hv]
    · rw [List.mem_singleton.1 hv]
      exact hfolder text
  · rw [hvisited] at hway
    rcases List.mem_append.1 hway with hway | hway
    · exact hfile (hdirs _ hway)
    · have hlength := congrArg List.length (List.mem_singleton.1 hway)
      simp [filePlace] at hlength

/-! ### Options saved and loaded -/

/-- A file with a content: it is there, and its options are loaded either way. -/
theorem loaded_of_content {text : String} (h : p.content files = .ok (some text)) :
    p.isInitialized files = .ok true ∧ p.load files = liftRead (ConfigFile.read text) ∧
      p.loadOrDefault files = liftRead (ConfigFile.read text) := by
  obtain ⟨hnull, hplace⟩ := content_eq_some_iff.1 h
  have hp : p.place files = .ok (.file text) := by
    simp [place, hnull, hplace]
  refine ⟨?_, ?_, ?_⟩
  · simp [isInitialized, hp, bind, Except.bind, pure, Except.pure]
  · simp [load, h, bind, Except.bind]
  · simp [loadOrDefault, h, bind, Except.bind, ConfigFile.readOrDefault]

theorem Usable.save (h : p.Usable files) (c : RenderConfig) : ∃ files',
    p.save files c = (files', .ok ()) ∧ p.isInitialized files' = .ok true ∧
      p.load files' = .ok c ∧ p.loadOrDefault files' = .ok c := by
  obtain ⟨files', hwrite, hnode, hdirs⟩ := h.write (ConfigFile.text c)
  have hcontent : p.content files' = .ok (some (ConfigFile.text c)) :=
    content_eq_some_iff.2 ⟨h.noNull, place_eq_file_iff.2 ⟨h.fits, h.short, hdirs, hnode⟩⟩
  obtain ⟨hinit, hload, hdefault⟩ := loaded_of_content hcontent
  rw [ConfigFile.read_text] at hload hdefault
  exact ⟨files', hwrite, hinit, hload, hdefault⟩

theorem content_of_load {c : RenderConfig} (h : p.load files = .ok c) :
    ∃ text, p.content files = .ok (some text) := by
  rw [load] at h
  cases hcontent : p.content files with
  | error e =>
    rw [hcontent] at h
    cases h
  | ok content =>
    rw [hcontent] at h
    cases content with
    | none => cases h
    | some text => exact ⟨text, rfl⟩

/-- Saving succeeds for the same projects whatever the options are: for those that have a text in
their file, and for those whose directory is there with nothing in place of the file, among others.
The options saved are then there, and loaded with and without a default.  Options that a text of the
file gives are loaded again when they are saved. -/
theorem saved_options_are_loaded (p : Project) (files : Files) :
    (p.Usable files → ∀ c, ∃ files', p.save files c = (files', .ok ()) ∧
      p.isInitialized files' = .ok true ∧ p.load files' = .ok c ∧ p.loadOrDefault files' = .ok c) ∧
    (∀ c, (p.save files c).2 = .ok () → p.Usable files) ∧
    (∀ text, p.content files = .ok (some text) → p.Usable files) ∧
    (p.Present files → files.node? p.filePlace = none → p.Usable files) ∧
    (∀ c, p.load files = .ok c → ∃ files', p.save files c = (files', .ok ()) ∧
      p.load files' = .ok c ∧ p.loadOrDefault files' = .ok c) := by
  refine ⟨Usable.save, fun c h => usable_of_write h, fun text => usable_of_content,
    fun h hfile => h.usable (by simp [hfile]), fun c h => ?_⟩
  obtain ⟨text, hcontent⟩ := content_of_load h
  obtain ⟨files', hsave, -, hload, hdefault⟩ := (usable_of_content hcontent).save c
  exact ⟨files', hsave, hload, hdefault⟩

/-- A project in a directory below the working directory. -/
def ownProject : Project :=
  ⟨"/", "work"⟩

def ownDirectory : Files :=
  [(["work"], .directory)]

/-- The directory with a text in the file of the options that is cut off. -/
def cutOff : Files :=
  [(["work"], .directory), (["work", ".dot-builder"], .directory),
    (["work", ".dot-builder", "config.json"], .file "\x7b\"indent")]

def tabbed : RenderConfig :=
  ⟨"\t", .colon, by decide⟩

theorem saved_options_are_loaded_tabbed :
    (∃ files, ownProject.save ownDirectory tabbed = (files, .ok ()) ∧
      ownProject.isInitialized files = .ok true ∧ ownProject.load files = .ok tabbed ∧
      ownProject.loadOrDefault files = .ok tabbed) ∧
    (∃ files, ownProject.save cutOff tabbed = (files, .ok ()) ∧
      ownProject.load files = .ok tabbed) := by
  obtain ⟨hsave, -, -, hpresent, -⟩ := saved_options_are_loaded ownProject ownDirectory
  obtain ⟨hsave', -, hcontent, -⟩ := saved_options_are_loaded ownProject cutOff
  have hthere : ownProject.Present ownDirectory := by
    refine ⟨by decide, by decide, by unfold IsShort; decide, by decide, fun text => ?_⟩
    have hnode : ownDirectory.node? (ownProject.folderPath.foldl step []) = none := by decide
    simp [hnode]
  have htext : ownProject.content cutOff = .ok (some "\x7b\"indent") :=
    content_eq_some_iff.2 ⟨by decide, by decide⟩
  obtain ⟨files', hok, -, hload, -⟩ := hsave' (hcontent _ htext) tabbed
  exact ⟨hsave (hpresent hthere (by decide)) tabbed, files', hok, hload⟩

end Project

end DotGraph
