import DotGraph.Files
import DotGraph.Proofs.EntryLists
import Mathlib.Data.List.Basic

/-!
Walks among files.  A path is taken apart into the names that it was put together from, a walk comes
to its end if all is a directory on the way, and directories can be made on the way if nothing else
stands there.
-/

namespace DotGraph.Files

/-! ### Pieces between slashes -/

theorem exists_cons_pieces (text : List Char) : ∃ first others, pieces text = first :: others := by
  cases text with
  | nil => exact ⟨[], [], rfl⟩
  | cons c rest =>
    rw [pieces]
    split
    · exact ⟨_, _, rfl⟩
    · split <;> exact ⟨_, _, rfl⟩

theorem pieces_slash (rest : List Char) : pieces ('/' :: rest) = [] :: pieces rest := by
  obtain ⟨first, others, hpieces⟩ := exists_cons_pieces rest
  rw [pieces, hpieces]
  rfl

theorem pieces_cons {c : Char} (hc : c ≠ '/') {rest first : List Char} {others : List (List Char)}
    (h : pieces rest = first :: others) : pieces (c :: rest) = (c :: first) :: others := by
  rw [pieces, h]
  exact if_neg hc

theorem pieces_append_slash {w : List Char} (h : '/' ∉ w) (rest : List Char) :
    pieces (w ++ '/' :: rest) = w :: pieces rest := by
  induction w with
  | nil => exact pieces_slash rest
  | cons c w ih =>
    obtain ⟨hc, hw⟩ : c ≠ '/' ∧ '/' ∉ w := by simpa [eq_comm] using h
    exact pieces_cons hc (ih hw)

theorem pieces_of_noSlash {w : List Char} (h : '/' ∉ w) : pieces w = [w] := by
  induction w with
  | nil => rfl
  | cons c w ih =>
    obtain ⟨hc, hw⟩ : c ≠ '/' ∧ '/' ∉ w := by simpa [eq_comm] using h
    exact pieces_cons hc (ih hw)

theorem noSlash_of_mem_pieces {text w : List Char} (h : w ∈ pieces text) : '/' ∉ w := by
  induction text generalizing w with
  | nil =>
    obtain rfl : w = [] := by simpa [pieces] using h
    simp
  | cons c text ih =>
    obtain ⟨first, others, hpieces⟩ := exists_cons_pieces text
    by_cases hc : c = '/'
    · rw [hc, pieces_slash] at h
      rcases List.mem_cons.1 h with rfl | h
      · simp
      · exact ih h
    · rw [pieces_cons hc hpieces] at h
      rcases List.mem_cons.1 h with rfl | h
      · have hfirst : '/' ∉ first := ih (by simp [hpieces])
        simp [hfirst, Ne.symm hc]
      · exact ih (by simp [hpieces, h])

theorem pieces_intercalate {texts : List (List Char)} (hne : texts ≠ [])
    (h : ∀ w ∈ texts, '/' ∉ w) : pieces (['/'].intercalate texts) = texts := by
  induction texts with
  | nil => exact absurd rfl hne
  | cons w texts ih =>
    have hw : '/' ∉ w := h w (by simp)
    cases texts with
    | nil =>
      rw [List.intercalate_singleton]
      exact pieces_of_noSlash hw
    | cons next texts =>
      rw [List.intercalate_cons_cons, List.append_assoc, List.singleton_append,
        pieces_append_slash hw, ih (by simp) fun w hmem => h w (by simp [hmem])]

/-! ### Names along a path -/

/-- A name that leads somewhere. -/
structure IsName (part : String) : Prop where
  ne_empty : part ≠ ""
  ne_point : part ≠ "."
  noSlash : '/' ∉ part.toList

/-- A path has names for parts, behind the top of the file system if it starts there. -/
inductive ArePartsOf : List String → Prop
  | below {names : List String} (h : ∀ n ∈ names, IsName n) : ArePartsOf names
  | top {names : List String} (h : ∀ n ∈ names, IsName n) : ArePartsOf ("/" :: names)

theorem arePartsOf_parts (path : String) : ArePartsOf (parts path) := by
  have hnames : ∀ n ∈ ((pieces path.toList).map String.ofList).filter fun p => p ≠ "" ∧ p ≠ ".",
      IsName n := by
    intro n hn
    obtain ⟨hmem, hkept⟩ := List.mem_filter.1 hn
    obtain ⟨w, hw, rfl⟩ := List.mem_map.1 hmem
    obtain ⟨hempty, hpoint⟩ : String.ofList w ≠ "" ∧ String.ofList w ≠ "." := by simpa using hkept
    exact ⟨hempty, hpoint, by simpa using noSlash_of_mem_pieces hw⟩
  rw [parts]
  split
  · exact .top hnames
  · exact .below hnames

theorem ArePartsOf.append {names more : List String} (h : ArePartsOf names)
    (hmore : ∀ n ∈ more, IsName n) : ArePartsOf (names ++ more) := by
  cases h with
  | below h => exact .below (List.forall_mem_append.2 ⟨h, hmore⟩)
  | top h => exact .top (List.forall_mem_append.2 ⟨h, hmore⟩)

theorem pieces_joined {names : List String} (hne : names ≠ []) (h : ∀ n ∈ names, IsName n) :
    pieces ("/".intercalate names).toList = names.map String.toList := by
  have hslash : ∀ w ∈ names.map String.toList, '/' ∉ w := by
    intro w hw
    obtain ⟨n, hn, rfl⟩ := List.mem_map.1 hw
    exact (h n hn).noSlash
  rw [String.toList_intercalate]
  exact pieces_intercalate (by simpa using hne) hslash

theorem filter_names {names : List String} (h : ∀ n ∈ names, IsName n) :
    ((names.map String.toList).map String.ofList).filter (fun p => p ≠ "" ∧ p ≠ ".") = names := by
  have hid : (names.map String.toList).map String.ofList = names := by
    simp [Function.comp_def]
  rw [hid, List.filter_eq_self]
  exact fun n hn => decide_eq_true ⟨(h n hn).ne_empty, (h n hn).ne_point⟩

/-- The text of a path: its pieces are the names that were put together, and it starts at the top if
they do. -/
theorem ArePartsOf.pieces_pathText {ps : List String} {last : String}
    (h : ArePartsOf (ps ++ [last])) (hlast : IsName last) :
    ∃ names, (∀ n ∈ names, IsName n) ∧ names.getLast? = some last ∧
      ((ps ++ [last] = names ∧ (pathText (ps ++ [last])).toList.head? ≠ some '/' ∧
          pieces (pathText (ps ++ [last])).toList = names.map String.toList) ∨
        (ps ++ [last] = "/" :: names ∧ (pathText (ps ++ [last])).toList.head? = some '/' ∧
          pieces (pathText (ps ++ [last])).toList = [] :: names.map String.toList)) := by
  have hend : (ps ++ [last]).getLast? = some last := List.getLast?_concat
  generalize ps ++ [last] = all at h hend ⊢
  cases h with
  | below h =>
    obtain ⟨first, others, rfl⟩ := List.exists_cons_of_ne_nil (l := all) (by rintro rfl; cases hend)
    obtain ⟨hempty, -, hslash⟩ := h first (by simp)
    have htext : pathText (first :: others) = "/".intercalate (first :: others) := by
      unfold pathText
      split
      · rename_i heq
        simp [(List.cons.inj heq).1] at hslash
      · rfl
    have hhead : ("/".intercalate (first :: others)).toList.head? ≠ some '/' := by
      obtain ⟨c, rest, hc⟩ := List.exists_cons_of_ne_nil (l := first.toList) (by simpa using hempty)
      have hne : c ≠ '/' := by
        rintro rfl
        simp [hc] at hslash
      rw [String.toList_intercalate, List.map_cons, hc, List.intercalate_cons_cons_left,
        List.head?_cons]
      simpa using hne
    rw [htext]
    exact ⟨_, h, hend, .inl ⟨rfl, hhead, pieces_joined (by simp) h⟩⟩
  | @top names h =>
    have hne : names ≠ [] := by
      rintro rfl
      obtain rfl : "/" = last := by simpa using hend
      exact absurd hlast.noSlash (by decide)
    have htext : (pathText ("/" :: names)).toList = '/' :: ("/".intercalate names).toList := by
      rw [pathText, String.toList_append]
      rfl
    rw [htext]
    refine ⟨names, h, ?_, .inr ⟨rfl, rfl, by rw [pieces_slash, pieces_joined hne h]⟩⟩
    rwa [List.getLast?_cons_of_ne_nil hne] at hend

theorem ArePartsOf.parts_pathText {ps : List String} {last : String} (h : ArePartsOf (ps ++ [last]))
    (hlast : IsName last) : parts (pathText (ps ++ [last])) = ps ++ [last] := by
  obtain ⟨names, hnames, -, ⟨hall, hhead, hpieces⟩ | ⟨hall, hhead, hpieces⟩⟩ :=
    h.pieces_pathText hlast
  · rw [parts, if_neg hhead, hpieces, filter_names hnames, hall]
  · rw [parts, if_pos hhead, hpieces, List.map_cons, List.filter_cons_of_neg (by simp),
      filter_names hnames, hall]

theorem ArePartsOf.endsAsDirectory_pathText {ps : List String} {last : String}
    (h : ArePartsOf (ps ++ [last])) (hlast : IsName last) :
    endsAsDirectory (pathText (ps ++ [last])) = false := by
  obtain ⟨names, -, hend, hpieces⟩ := h.pieces_pathText hlast
  have hmap : (names.map String.toList).getLast? = some last.toList := by
    rw [List.getLast?_map, hend]
    rfl
  have hlastPiece : (pieces (pathText (ps ++ [last])).toList).getLast? = some last.toList := by
    rcases hpieces with ⟨-, -, hpieces⟩ | ⟨-, -, hpieces⟩
    · rw [hpieces, hmap]
    · rw [hpieces, List.getLast?_cons, hmap]
      rfl
  rw [endsAsDirectory, hlastPiece]
  split
  · rename_i heq
    exact absurd (String.toList_inj.1 (Option.some.inj heq)) hlast.ne_empty
  · rename_i heq
    exact absurd (String.toList_inj.1 (Option.some.inj heq)) hlast.ne_point
  · rfl

/-! ### Nodes -/

variable {files : Files} {here there : List String} {node : FileNode}

theorem node?_put_self (h : isAbove here = false) :
    node? (Entries.put here node files) here = some node := by
  rw [node?, h, Entries.get?_put_self]
  rfl

theorem node?_put_of_ne (h : there ≠ here) :
    node? (Entries.put here node files) there = node? files there := by
  rw [node?, node?, Entries.get?_put_of_ne (Ne.symm h)]

theorem isAbove_of_ne_directory (h : files.node? here ≠ some .directory) :
    isAbove here = false := by
  refine Bool.eq_false_iff.2 fun habove => h ?_
  rw [node?, habove]
  rfl

/-! ### Walks -/

def IsShort (part : String) : Prop :=
  part.utf8ByteSize ≤ nameLimit

theorem stepTo_of_short {part : String} (h : IsShort part) :
    stepTo here part = .ok (step here part) :=
  if_neg (Nat.not_lt.2 h)

theorem stepTo_of_not_short {part : String} (h : ¬ IsShort part) :
    stepTo here part = .error .tooLong :=
  if_pos (Nat.not_le.1 h)

/-- The places that a walk comes by, its end included. -/
def visited (here : List String) : List String → List (List String)
  | [] => []
  | part :: rest => step here part :: visited (step here part) rest

theorem visited_concat (here path : List String) (last : String) :
    visited here (path ++ [last]) = visited here path ++ [step (path.foldl step here) last] := by
  induction path generalizing here with
  | nil => rfl
  | cons part path ih => simp only [List.cons_append, visited, ih, List.foldl_cons]

/-- A walk comes to its end if no name is too long and all on the way are directories. -/
theorem walk_concat_eq_ok_iff {rest : List String} {last : String} :
    files.walk here (rest ++ [last]) = .ok there ↔
      (∀ part ∈ rest ++ [last], IsShort part) ∧
      (∀ v ∈ visited here rest, files.node? v = some .directory) ∧
      there = step (rest.foldl step here) last := by
  induction rest generalizing here with
  | nil =>
    rw [List.nil_append, walk]
    by_cases hlast : IsShort last
    · simp [stepTo_of_short hlast, hlast, visited, eq_comm]
    · simp [stepTo_of_not_short hlast, hlast]
  | cons part rest ih =>
    obtain ⟨next, more, hnext⟩ := List.exists_cons_of_ne_nil (l := rest ++ [last]) (by simp)
    rw [hnext] at ih
    rw [List.cons_append, hnext, walk]
    by_cases hpart : IsShort part
    · rw [stepTo_of_short hpart]
      simp only [bind, Except.bind, visited, List.forall_mem_cons, hpart, true_and,
        List.foldl_cons]
      rcases hnode : files.node? (step here part) with _ | _ | text
      · simp [throw, throwThe, MonadExceptOf.throw]
      · simp only [true_and]
        rw [ih, List.forall_mem_cons]
      · simp [throw, throwThe, MonadExceptOf.throw]
    · rw [stepTo_of_not_short hpart]
      simp [bind, Except.bind, hpart]

theorem walk_ne_file {path : List String} {text : String} :
    files.walk here path ≠ .error (.file text) := by
  fun_induction walk files here path with
  | case1 => simp
  | case2 here part =>
    by_cases hpart : IsShort part
    · simp [stepTo_of_short hpart]
    · simp [stepTo_of_not_short hpart]
  | case3 here part next rest ih =>
    by_cases hpart : IsShort part
    · rw [stepTo_of_short hpart]
      simp only [bind, Except.bind]
      split
      · exact ih _
      · simp [throw, throwThe, MonadExceptOf.throw]
      · simp [throw, throwThe, MonadExceptOf.throw]
    · rw [stepTo_of_not_short hpart]
      simp [bind, Except.bind]

/-- Nothing but directories stands on the way. -/
def Clear (files : Files) (here : List String) (path : List String) : Prop :=
  ∀ v ∈ visited here path, ∀ text, files.node? v ≠ some (.file text)

theorem node?_put_directory (h : files.node? here = none) (v : List String) :
    node? (Entries.put here .directory files) v =
      if v = here then some .directory else files.node? v := by
  split
  · rename_i heq
    have hne : files.node? here ≠ some .directory := by simp [h]
    rw [heq, node?_put_self (isAbove_of_ne_directory hne)]
  · rename_i hne
    exact node?_put_of_ne hne

theorem clear_put_directory (h : files.node? here = none) (start path : List String) :
    Clear (Entries.put here .directory files) start path ↔ Clear files start path := by
  refine forall_congr' fun v => forall_congr' fun _ => forall_congr' fun text => ?_
  rw [node?_put_directory h]
  split
  · rename_i heq
    simp [heq, h]
  · rfl

/-- Directories can be made along a path if no name is too long and no file stands on the way; then
they are all that is made. -/
theorem makeDirectories_spec (files : Files) (here there path : List String) :
    ((files.makeDirectories here path).2 = .ok there ↔
      (∀ part ∈ path, IsShort part) ∧ files.Clear here path ∧ there = path.foldl step here) ∧
    ((files.makeDirectories here path).2 = .ok there → ∀ v,
      (files.makeDirectories here path).1.node? v =
        if v ∈ visited here path then some .directory else files.node? v) := by
  induction path generalizing files here with
  | nil => simp [makeDirectories, Clear, visited, eq_comm]
  | cons part rest ih =>
    by_cases hpart : IsShort part
    · have hclear : files.Clear here (part :: rest) ↔
          (∀ text, files.node? (step here part) ≠ some (.file text)) ∧
            files.Clear (step here part) rest := by
        simp only [Clear, visited, List.forall_mem_cons]
      rw [makeDirectories, stepTo_of_short hpart]
      dsimp only
      rw [hclear, List.forall_mem_cons, List.foldl_cons]
      simp only [visited, List.mem_cons]
      rcases hnode : files.node? (step here part) with _ | _ | text
      · obtain ⟨hok, hmade⟩ := ih (Entries.put (step here part) .directory files)
          (step here part)
        rw [hok, clear_put_directory hnode]
        refine ⟨by simp [hpart], fun h v => ?_⟩
        rw [hmade (hok.2 (by simpa [clear_put_directory hnode] using h)), node?_put_directory hnode]
        by_cases hv : v = step here part <;> simp [hv]
      · obtain ⟨hok, hmade⟩ := ih files (step here part)
        rw [hok]
        refine ⟨by simp [hpart], fun h v => ?_⟩
        rw [hmade (hok.2 h)]
        by_cases hv : v = step here part
        · simp [hv, hnode]
        · simp [hv]
      · simp
    · rw [makeDirectories, stepTo_of_not_short hpart]
      simp [hpart]

end DotGraph.Files
