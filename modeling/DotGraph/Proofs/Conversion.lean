import Mathlib
import DotGraph.Command
import DotGraph.Proofs.Exports
import DotGraph.Proofs.ImportedGraphs
import DotGraph.Proofs.NodeLinkErrors
import DotGraph.Proofs.TextCharacters

/-!
Converting a file.  Whatever text the file holds, the graph in it is printed or what is wrong with
it is reported, unless a node of it is null or the data of the graph are no record: these two, and
whole numbers that are too long, end a conversion without a report.  Torn texts are left out.
-/

namespace DotGraph

namespace Command

variable {s : Setting} {file content : String}

/-! ### Steps of a conversion -/

theorem file_project (s : Setting) : s.project.file = ".dot-builder/config.json" := by
  have hparts : Files.parts s.project.path = [] := rfl
  unfold Project.file
  rw [hparts]
  simp [Files.pathText, ConfigFile.folder, ConfigFile.name]

theorem config_of_isInitialized (h : s.project.isInitialized s.files = .ok false) :
    config s = .ok .default := by
  have hcontent : s.project.content s.files = .ok none := by
    obtain ⟨place, hplace, h⟩ := bind_eq_ok_iff.1 h
    unfold Project.content
    rw [hplace]
    cases place with
    | file text => cases h
    | directory => cases h
    | missing => rfl
    | blocked => rfl
    | tooLong => rfl
  unfold config Project.loadOrDefault
  rw [hcontent]
  rfl

theorem run_convert (name : Option String) (strict : Bool)
    (hfile : s.files.place file = .file content) (hpath : Files.hasNull file = false) :
    run s (.convert file name strict none) = convert s file content name strict none := by
  simp [run, refusesOutput, hpath, hfile]

/-- A network is read, or what is wrong with the text is reported, but for three things. -/
theorem readNetwork_cases (file content : String) :
    (∃ value n, Json.read content = .ok value ∧ Network.ofNodeLink value = .ok n ∧
      readNetwork file content = .ok n) ∨
    (∃ message, readNetwork file content = .error (.report message)) ∨
    (∃ count, Json.read content = .error (.tooManyDigits count)) ∨
    ∃ value e, Json.read content = .ok value ∧ Network.ofNodeLink value = .error e ∧
      (e = .key .null ∨ e = .torn) := by
  unfold readNetwork
  cases hread : Json.read content with
  | error e =>
    cases e with
    | tooManyDigits count => exact .inr (.inr (.inl ⟨count, rfl⟩))
    | _ => exact .inr (.inl ⟨_, rfl⟩)
  | ok value =>
    cases hn : Network.ofNodeLink value with
    | ok n => exact .inl ⟨value, n, rfl, hn, by simp only [hn]⟩
    | error e =>
      cases e with
      | key e =>
        cases e with
        | null => exact .inr (.inr (.inr ⟨value, _, rfl, hn, .inl rfl⟩))
        | notAKey given => exact .inr (.inl ⟨_, by simp only [hn]; rfl⟩)
      | torn => exact .inr (.inr (.inr ⟨value, _, rfl, hn, .inr rfl⟩))
      | _ => exact .inr (.inl ⟨_, by simp only [hn]; rfl⟩)

theorem graphOf_cases (n : Network) (name : Option String) (strict : Bool) :
    (∃ σ r, n.toGraph (.ofName name) (.flag strict) = .ok (σ, r) ∧
      graphOf n name strict = .ok (σ, r)) ∨
    (∃ message, graphOf n name strict = .error (.report message)) ∨ n.data = none := by
  have hname : (name.map Datum.text).getD .absent = .ofName name := by cases name <;> rfl
  unfold graphOf
  rw [hname]
  rcases n.toGraph_cases (.ofName name) (.flag strict) with
    ⟨e, he⟩ | ⟨hdata, -⟩ | ⟨data, r, σ₁, σ, -, -, -, he⟩
  · exact .inr (.inl ⟨e.message, by rw [he]⟩)
  · exact .inr (.inr hdata)
  · exact .inl ⟨σ, r, he, by rw [he]⟩

theorem writeDot_of_toGraph (hconfig : s.project.isInitialized s.files = .ok false) {n : Network}
    {name : Option String} {strict : Bool} {σ : Store} {r : RootId}
    (h : n.toGraph (.ofName name) (.flag strict) = .ok (σ, r)) :
    ∃ text, σ.dot? r .default = some text ∧
      writeDot s σ r none [] = ⟨.success, text, [exportLine σ r], []⟩ := by
  obtain ⟨hreach, g, hg⟩ := Network.reachable_of_toGraph h
  obtain ⟨text, htext⟩ := hreach.exists_dot? hg .default
  refine ⟨text, htext, ?_⟩
  delta writeDot
  rw [config_of_isInitialized hconfig]
  dsimp only
  rw [htext]
  rfl

theorem printed_error (message : String) :
    Text.printed ("Error: " ++ message ++ "\n") = "Error: " ++ Text.printed (message ++ "\n") := by
  have hfront : Text.escape ∉ "Error: ".toList := by decide
  rw [String.append_assoc, Text.printed_append hfront]

/-- Where there is no file of options, whatever text a file holds and under whatever name: the graph
in it is printed, or a report says what is wrong with it.  The text must not hold a number that is
too long, a torn text, a node that is null, or data of the graph that are no record. -/
theorem convert_prints_or_reports {words : List String} {verbose strict : Bool}
    {name : Option String}
    (hwords : Invocation.read words = .ok (verbose, .convert file name strict none))
    (hfile : s.files.place file = .file content) (hpath : Files.hasNull file = false)
    (hconfig : s.project.isInitialized s.files = .ok false)
    (hdigits : ∀ count, Json.read content ≠ .error (.tooManyDigits count))
    (hwhole : ∀ value, Json.read content = .ok value → value.IsWhole)
    (hnull : ∀ value, Json.read content = .ok value → ¬ value.HasNullNode)
    (hdata : ∀ value, Json.read content = .ok value → value.DataAreRecord) :
    let o := runLine s words
    (o.ending = .success ∧ o.ending.exitCode = 0 ∧
      ∃ value n σ r text, Json.read content = .ok value ∧ Network.ofNodeLink value = .ok n ∧
        n.toGraph (.ofName name) (.flag strict) = .ok (σ, r) ∧ σ.dot? r .default = some text ∧
        o.output = Text.printed text) ∨
    (o.ending = .failure ∧ o.ending.exitCode = 1 ∧
      ∃ message, o.output = "Error: " ++ Text.printed (message ++ "\n")) := by
  intro o
  have ho : o = { convert s file content name strict none with
      output := Text.printed (convert s file content name strict none).output
      log := if verbose then (convert s file content name strict none).log else [] } := by
    simp only [o, runLine, hwords, run_convert name strict hfile hpath]
  have hreports {message : String}
      (h : convert s file content name strict none = .report message []) :
      o.ending = .failure ∧ o.ending.exitCode = 1 ∧
        ∃ message, o.output = "Error: " ++ Text.printed (message ++ "\n") := by
    rw [ho, h]
    exact ⟨rfl, rfl, message, printed_error message⟩
  rcases readNetwork_cases file content with
    ⟨value, n, hread, hn, hnetwork⟩ | ⟨message, he⟩ | ⟨count, he⟩ | ⟨value, e, hread, he, hcase⟩
  · rcases graphOf_cases n name strict with ⟨σ, r, hgraph, hok⟩ | ⟨message, he⟩ | hnone
    · obtain ⟨text, htext, hwrite⟩ := writeDot_of_toGraph hconfig hgraph
      have hconvert : convert s file content name strict none =
          ⟨.success, text, [exportLine σ r], []⟩ := by
        simp only [convert, hnetwork, hok, hwrite]
      left
      rw [ho, hconvert]
      exact ⟨rfl, rfl, value, n, σ, r, text, hread, hn, hgraph, htext, rfl⟩
    · exact .inr (hreports (by simp only [convert, hnetwork, he]; rfl))
    · exact absurd hnone (Network.data_ne_none_of_ofNodeLink hn (hdata value hread))
  · exact .inr (hreports (by simp only [convert, he]; rfl))
  · exact absurd he (hdigits count)
  · obtain ⟨hblamesNull, hblamesTorn⟩ := Network.blames_ofNodeLink he
    rcases hcase with hnullError | htornError
    · exact absurd (hblamesNull hnullError) (hnull value hread)
    · exact absurd (hwhole value hread) (hblamesTorn htornError)

/-! ### A directory with one file -/

def graphFile (content : String) : Setting :=
  ⟨"/", [(["g.json"], .file content)]⟩

theorem place_graphFile (content : String) :
    (graphFile content).files.place "g.json" = .file content := rfl

theorem isInitialized_graphFile (content : String) :
    (graphFile content).project.isInitialized (graphFile content).files = .ok false := by
  have hplace : (graphFile content).files.place ".dot-builder/config.json" = .missing := rfl
  unfold Project.isInitialized Project.place
  rw [file_project, if_neg (by decide), hplace]
  rfl

/-- Two nodes, of which one is known by its position, and a link between them. -/
def linkedText : String :=
  "\x7b\"graph\": \x7b\x7d, \"nodes\": [\x7b\"id\": \"a\"\x7d, \x7b\x7d], " ++
    "\"links\": [\x7b\"source\": \"a\", \"target\": 1\x7d]\x7d"

def linkedValue : Json :=
  .object [("graph", .object []), ("nodes", .array [.object [("id", .text "a")], .object []]),
    ("links", .array [.object [("source", .text "a"), ("target", .integer 1)]])]

theorem read_linkedText : Json.read linkedText = .ok linkedValue := by cbv

theorem convert_prints_or_reports_linked :
    (∃ value, Json.read linkedText = .ok value ∧ value.IsWhole ∧ ¬ value.HasNullNode ∧
        value.DataAreRecord) ∧
      let o := runLine (graphFile linkedText) ["convert", "g.json", "--name", "G", "--strict"]
      (o.ending = .success ∧ o.ending.exitCode = 0 ∧
        ∃ value n σ r text, Json.read linkedText = .ok value ∧ Network.ofNodeLink value = .ok n ∧
          n.toGraph (.ofName (some "G")) (.flag true) = .ok (σ, r) ∧
          σ.dot? r .default = some text ∧ o.output = Text.printed text) ∨
      (o.ending = .failure ∧ o.ending.exitCode = 1 ∧
        ∃ message, o.output = "Error: " ++ Text.printed (message ++ "\n")) := by
  have hnull : ¬ linkedValue.HasNullNode := by
    simp [Json.HasNullNode, Json.listed, Json.member?, Json.elements, linkedValue,
      Entries.get?]
  have hdata : linkedValue.DataAreRecord := by
    intro data h
    cases h
    exact ⟨[], rfl⟩
  have hwhole : linkedValue.IsWhole := rfl
  have hwords : Invocation.read ["convert", "g.json", "--name", "G", "--strict"] =
      .ok (false, .convert "g.json" (some "G") true none) := rfl
  have heq : ∀ value, Json.read linkedText = .ok value → value = linkedValue := fun value h =>
    Except.ok.inj (h.symm.trans read_linkedText)
  refine ⟨⟨linkedValue, read_linkedText, hwhole, hnull, hdata⟩, ?_⟩
  refine convert_prints_or_reports hwords (place_graphFile linkedText) (by decide)
    (isInitialized_graphFile linkedText) (fun count h => ?_) (fun value h => ?_)
    (fun value h => ?_) fun value h => ?_
  · cases h.symm.trans read_linkedText
  · rw [heq value h]
    exact hwhole
  · rw [heq value h]
    exact hnull
  · rw [heq value h]
    exact hdata

def nullNodeText : String :=
  "\x7b\"nodes\": [\x7b\"id\": null\x7d], \"links\": []\x7d"

def listedDataText : String :=
  "\x7b\"graph\": [], \"nodes\": [], \"links\": []\x7d"

/-- A node that is null is not reported, nor are data of the graph that are a list. -/
theorem convert_aborts :
    runLine (graphFile nullNodeText) ["convert", "g.json"] = .abort .nullNode [] ∧
      runLine (graphFile listedDataText) ["convert", "g.json"] = .abort .noRecord [] := by
  have hwords : Invocation.read ["convert", "g.json"] =
      .ok (false, .convert "g.json" none false none) := rfl
  have habort {content : String} {a : Abort}
      (h : convert (graphFile content) "g.json" content none false none = .abort a []) :
      runLine (graphFile content) ["convert", "g.json"] = .abort a [] := by
    have hrun := run_convert none false (place_graphFile content) (by decide)
    have hprinted : Text.printed "" = "" := Text.printed_eq_self (by decide)
    simp only [runLine, hwords, hrun, h, Outcome.abort, hprinted, ite_self]
  have hnull : Json.read nullNodeText =
      .ok (.object [("nodes", .array [.object [("id", .null)]]), ("links", .array [])]) := by cbv
  have hlist : Json.read listedDataText =
      .ok (.object [("graph", .array []), ("nodes", .array []), ("links", .array [])]) := by cbv
  constructor
  · refine habort ?_
    rw [convert, readNetwork, hnull]
    rfl
  · refine habort ?_
    rw [convert, readNetwork, hlist]
    rfl

end Command

end DotGraph
