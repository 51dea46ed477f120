import DotGraph.Proofs.BundledExamples
import DotGraph.Proofs.Conversion
import DotGraph.Proofs.FileWalks

/-!
Rendering an example.  Whatever the file of options holds, its options are used or what is wrong
with it is reported; only then is anything printed or written, and that is the text of the graph.
-/

namespace DotGraph

variable {s : Setting} {content output : Option String}

/-- The files behind a command: each text that it writes replaces what was there. -/
def Outcome.leaves (o : Outcome) (files : Files) : Files :=
  o.writes.foldl (fun files write => files.put write.1 (.file write.2)) files

namespace Outcome

/-- The command succeeds, and a text is all that is printed, or all that the file then holds to
which output goes. -/
structure Emits (o : Outcome) (files : Files) (text : String) (output : Option String) : Prop where
  success : o.ending = .success ∧ o.ending.exitCode = 0
  printed : output = none → o.output = text ∧ o.leaves files = files
  written : ∀ path, output = some path → ∃ here, Command.target files path = .ok here ∧
    (o.leaves files).node? here = some (.file text) ∧
    ∀ there, there ≠ here → (o.leaves files).node? there = files.node? there

/-- The command fails, says what is wrong with the file of options, and leaves all files alone. -/
structure Reports (o : Outcome) (files : Files) (e : ConfigFile.ReadError) : Prop where
  failure : o.ending = .failure ∧ o.ending.exitCode = 1
  printed : o.output = "Error: Invalid config file: " ++ Text.printed (e.message ++ "\n")
  files_eq : o.leaves files = files

end Outcome

namespace Command

/-! ### The place of the output -/

/-- A text can be written there, if output is to go anywhere but to the terminal. -/
def Writable (files : Files) (output : Option String) : Prop :=
  ∀ path, output = some path → ∃ here, target files path = .ok here

variable {files : Files} {path : String} {here : List String}

theorem walk_of_target (h : target files path = .ok here) :
    files.walk [] (Files.parts path) = .ok here ∧ files.node? here ≠ some .directory := by
  unfold target at h
  split at h
  · cases h
  · split at h
    · cases h
    · cases h
    · cases h
    · rename_i there hwalk
      split at h
      · cases h
      · rename_i hnode
        cases h
        exact ⟨hwalk, hnode⟩

theorem isAbove_of_target (h : target files path = .ok here) : Files.isAbove here = false := by
  obtain ⟨-, hnode⟩ := walk_of_target h
  refine Bool.eq_false_iff.2 fun habove => hnode ?_
  rw [Files.node?, habove]
  rfl

theorem ne_empty_of_target (h : target files path = .ok here) : path ≠ "" := by
  rintro rfl
  obtain ⟨hwalk, -⟩ := walk_of_target h
  have hparts : Files.parts "" = [] := by decide
  rw [hparts] at hwalk
  cases hwalk
  have habove := isAbove_of_target h
  simp [Files.isAbove] at habove

theorem place_ne_directory (h : target files path = .ok here) : files.place path ≠ .directory := by
  obtain ⟨hwalk, hnode⟩ := walk_of_target h
  unfold Files.place
  rw [if_neg (ne_empty_of_target h), hwalk]
  split
  · simp
  · dsimp only
    split
    · simp
    · rename_i hdirectory
      exact absurd hdirectory hnode
    · split <;> simp

theorem refusesOutput_eq_false (h : Writable files output) :
    refusesOutput files output = false := by
  cases output with
  | none => rfl
  | some path =>
    obtain ⟨here, hhere⟩ := h path rfl
    simp [refusesOutput, place_ne_directory hhere]

/-! ### Options -/

theorem loadOrDefault_eq (hcontent : s.project.content s.files = .ok content) :
    s.project.loadOrDefault s.files =
      Project.liftRead (ConfigFile.readOrDefault content) := by
  unfold Project.loadOrDefault
  rw [hcontent]
  rfl

theorem config_of_ok {c : RenderConfig} (hcontent : s.project.content s.files = .ok content)
    (h : ConfigFile.readOrDefault content = .ok c) : config s = .ok c := by
  rw [config, loadOrDefault_eq hcontent, h]
  rfl

theorem config_of_error {e : ConfigFile.ReadError}
    (hcontent : s.project.content s.files = .ok content)
    (h : ConfigFile.readOrDefault content = .error e) :
    config s = .error (.report ("Invalid config file: " ++ e.message)) := by
  rw [config, loadOrDefault_eq hcontent, h]
  rfl

/-! ### What comes out -/

theorem named?_name (e : Example) : Example.named? e.name = some e := by
  cases e <;> decide

theorem run_render (hout : Writable s.files output) {e : Example} {σ : Store} {r : RootId}
    (hgraph : e.graph Example.defaultCount = .ok (σ, r)) :
    run s (.render e.name .dot output) =
      writeDot s σ r output (σ.creations.map creationLine) := by
  have hrefuses := refusesOutput_eq_false hout
  show (if refusesOutput s.files output then Outcome.usage else render s e.name .dot output) = _
  rw [hrefuses, if_neg (by decide), render, named?_name]
  dsimp only
  rw [hgraph]

theorem emits_deliver {text : String} (hout : Writable files output)
    (hprinted : Text.printed text = text) (log : List String) :
    let o := deliver files text output log
    ({ o with output := Text.printed o.output } : Outcome).Emits files text output := by
  cases output with
  | none => exact ⟨⟨rfl, rfl⟩, fun _ => ⟨hprinted, rfl⟩, by simp⟩
  | some path =>
    obtain ⟨here, hhere⟩ := hout path rfl
    have hne := ne_empty_of_target hhere
    have hdeliver : deliver files text (some path) log =
        ⟨.success, "Wrote " ++ path ++ "\n", log, [(here, text)]⟩ := by
      unfold deliver
      split
      · rename_i heq
        cases heq
      · rename_i heq
        exact absurd (Option.some.inj heq) hne
      · rename_i heq
        cases heq
        rw [hhere]
    rw [hdeliver]
    refine ⟨⟨rfl, rfl⟩, by simp, fun path' hpath => ?_⟩
    cases hpath
    exact ⟨here, hhere, Files.node?_put_self (isAbove_of_target hhere),
      fun there hne => Files.node?_put_of_ne hne⟩

theorem printed_report (message : String) :
    Text.printed ("Error: " ++ ("Invalid config file: " ++ message) ++ "\n") =
      "Error: Invalid config file: " ++ Text.printed (message ++ "\n") := by
  have hfront : Text.escape ∉ "Invalid config file: ".toList := by decide
  rw [printed_error, String.append_assoc, Text.printed_append hfront, ← String.append_assoc]
  rfl

/-- Where the state of the file of options is known, every example is rendered alike: its text under
the options that the file gives, blank and with a space or a colon before a port, is printed or
written, or else the error in the file is reported and nothing is written. -/
theorem render_emits_or_reports (e : Example)
    (hcontent : s.project.content s.files = .ok content) :
    (∃ c σ r text, ConfigFile.readOrDefault content = .ok c ∧ isBlank c.indent = true ∧
      (c.portSeparator.text = " " ∨ c.portSeparator.text = ":") ∧
      e.graph Example.defaultCount = .ok (σ, r) ∧ σ.dot? r c = some text ∧
      ∀ words verbose output, Invocation.read words = .ok (verbose, .render e.name .dot output) →
        Writable s.files output → (runLine s words).Emits s.files text output) ∨
    ∃ err, ConfigFile.readOrDefault content = .error err ∧
      ∀ words verbose output, Invocation.read words = .ok (verbose, .render e.name .dot output) →
        Writable s.files output → (runLine s words).Reports s.files err := by
  obtain ⟨σ, r, hgraph, hreach, hcalm, g, hg⟩ := e.exists_graph Example.defaultCount
  cases hc : ConfigFile.readOrDefault content with
  | ok c =>
    left
    obtain ⟨text, htext⟩ := hreach.exists_dot? hg c
    have hseparator : c.portSeparator.text = " " ∨ c.portSeparator.text = ":" := by
      cases c.portSeparator <;> simp [PortSeparator.text]
    refine ⟨c, σ, r, text, rfl, c.blank, hseparator, hgraph, htext, ?_⟩
    intro words verbose output hwords hout
    have hwrite : writeDot s σ r output (σ.creations.map creationLine) =
        deliver s.files text output (σ.creations.map creationLine ++ [exportLine σ r]) := by
      delta writeDot
      rw [config_of_ok hcontent hc]
      dsimp only
      rw [htext]
    obtain ⟨hsuccess, hprinted, hwritten⟩ := emits_deliver hout (hreach.printed_dot? hcalm htext)
      (σ.creations.map creationLine ++ [exportLine σ r])
    simp only [runLine, hwords, run_render hout hgraph, hwrite]
    exact ⟨hsuccess, hprinted, hwritten⟩
  | error err =>
    right
    refine ⟨err, rfl, fun words verbose output hwords hout => ?_⟩
    have hreport : writeDot s σ r output (σ.creations.map creationLine) =
        .report ("Invalid config file: " ++ err.message) (σ.creations.map creationLine) := by
      delta writeDot
      rw [config_of_error hcontent hc]
      rfl
    simp only [runLine, hwords, run_render hout hgraph, hreport]
    exact ⟨⟨rfl, rfl⟩, printed_report err.message, rfl⟩

/-! ### A directory with a file of options -/

def configured (content : String) : Setting :=
  ⟨"/", [([".dot-builder"], .directory), ([".dot-builder", "config.json"], .file content)]⟩

theorem content_configured (content : String) :
    (configured content).project.content (configured content).files = .ok (some content) := by
  have hplace : (configured content).files.place ".dot-builder/config.json" = .file content := rfl
  unfold Project.content Project.place
  rw [file_project, if_neg (by decide), hplace]
  rfl

def tabText : String := "\x7b\"indent\": \"\\t\"\x7d"

def numberText : String := "\x7b\"indent\": 4\x7d"

theorem isOk_tabText : (ConfigFile.read tabText).toBool = true := by cbv

theorem isOk_numberText : (ConfigFile.read numberText).toBool = false := by cbv

theorem read_toFile : Invocation.read ["render", "basic", "--output", "out.dot"] =
    .ok (false, .render Example.basic.name .dot (some "out.dot")) := rfl

theorem read_toTerminal : Invocation.read ["--verbose", "render", "numbered"] =
    .ok (true, .render Example.numbered.name .dot none) := rfl

/-- Tabs are used, and a number in their place is reported. -/
theorem render_emits_or_reports_configured :
    (∃ text, (runLine (configured tabText) ["render", "basic", "--output", "out.dot"]).Emits
      (configured tabText).files text (some "out.dot")) ∧
    ∃ err, (runLine (configured numberText) ["--verbose", "render", "numbered"]).Reports
      (configured numberText).files err := by
  constructor
  · have hout : Writable (configured tabText).files (some "out.dot") := by
      intro path hpath
      cases hpath
      exact ⟨["out.dot"], rfl⟩
    rcases render_emits_or_reports .basic (content_configured tabText) with
      ⟨c, σ, r, text, -, -, -, -, -, hall⟩ | ⟨err, herr, -⟩
    · exact ⟨text, hall _ _ _ read_toFile hout⟩
    · have herror : ConfigFile.read tabText = .error err := herr
      have hok := isOk_tabText
      rw [herror] at hok
      cases hok
  · have hout : Writable (configured numberText).files none := by simp [Writable]
    rcases render_emits_or_reports .numbered (content_configured numberText) with
      ⟨c, σ, r, text, hc, -⟩ | ⟨err, -, hall⟩
    · have hread : ConfigFile.read numberText = .ok c := hc
      have hfails := isOk_numberText
      rw [hread] at hfails
      cases hfails
    · exact ⟨err, hall _ _ _ read_toTerminal hout⟩

end Command

end DotGraph
