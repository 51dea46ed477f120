import DotGraph.Proofs.EntryLists
import DotGraph.Proofs.JsonNumbers
import DotGraph.Proofs.JsonQuotedTexts

/-!
Reading back what is printed.  In every layout that is made of blanks, the text of a value is read
as this value, with the kind of each number and the order of all members.
-/

namespace DotGraph.Json

open Text

mutual

/-- The values that a reader takes back from their texts: floating-point numbers are finite, no text
is torn, no object has two members with one key, and no whole number is beyond the limit. -/
def Fits (d : Dialect) : Json → Prop
  | null => True
  | flag _ => True
  | integer n => ∀ limit ∈ d.digitLimit, (Nat.toDigits 10 n.natAbs).length ≤ limit
  | float x => ∃ y, x = .finite y
  | text _ => True
  | torn _ => False
  | array items => ItemsFit d items
  | object members => (members.map Prod.fst).Nodup ∧ MembersFit d members

def ItemsFit (d : Dialect) : List Json → Prop
  | [] => True
  | item :: rest => item.Fits d ∧ ItemsFit d rest

def MembersFit (d : Dialect) : List (String × Json) → Prop
  | [] => True
  | (_, value) :: rest => value.Fits d ∧ MembersFit d rest

end

/-! ### Layouts -/

namespace Layout

def Blank : Layout → Prop
  | line => True
  | broken unit => ∀ c ∈ unit.toList, isBlankChar c = true

variable {layout : Layout}

theorem Blank.lineBreak (h : layout.Blank) (level : Nat) :
    ∀ c ∈ (layout.lineBreak level).toList, isBlankChar c = true := by
  cases layout with
  | line => simp [Layout.lineBreak]
  | broken unit =>
    intro c hc
    simp only [Layout.lineBreak, times_eq_join, String.toList_append, String.toList_join] at hc
    rcases List.mem_append.1 hc with hc | hc
    · rw [List.mem_singleton.1 hc]
      rfl
    · obtain ⟨chars, hchars, hc⟩ := List.mem_flatten.1 hc
      obtain ⟨copy, hcopy, rfl⟩ := List.mem_map.1 hchars
      rw [List.eq_of_mem_replicate hcopy] at hc
      exact h c hc

theorem Blank.separator (h : layout.Blank) (level : Nat) : ∃ blanks,
    (layout.separator level).toList = ',' :: blanks ∧ ∀ c ∈ blanks, isBlankChar c = true := by
  cases layout with
  | line => exact ⟨[' '], by simp [Layout.separator], by simp [isBlankChar]⟩
  | broken unit =>
    exact ⟨((broken unit).lineBreak level).toList, by simp [Layout.separator], h.lineBreak level⟩

end Layout

theorem skipBlanks_append {blanks : List Char} (h : ∀ c ∈ blanks, isBlankChar c = true)
    (rest : List Char) : skipBlanks (blanks ++ rest) = skipBlanks rest :=
  List.dropWhile_append_of_pos h

theorem skipBlanks_cons_blank {c : Char} (h : isBlankChar c = true) (rest : List Char) :
    skipBlanks (c :: rest) = skipBlanks rest :=
  List.dropWhile_cons_of_pos h

theorem skipBlanks_cons {c : Char} (h : isBlankChar c = false) (rest : List Char) :
    skipBlanks (c :: rest) = c :: rest := by
  simp [skipBlanks, h]

/-! ### Texts of values -/

variable {layout : Layout}

/-- What stands between two brackets, with a separator behind each piece but the last. -/
def joined (layout : Layout) (level : Nat) (pieces : List String) : List Char :=
  ((layout.separator level).intercalate pieces).toList

theorem joined_singleton (level : Nat) (piece : String) :
    joined layout level [piece] = piece.toList := by
  simp [joined]

theorem joined_cons_cons (level : Nat) (piece next : String) (pieces : List String) :
    joined layout level (piece :: next :: pieces) =
      piece.toList ++ (layout.separator level).toList ++ joined layout level (next :: pieces) := by
  simp only [joined, String.toList_intercalate, List.map_cons, List.intercalate_cons_cons]

theorem toList_enclosed_cons (level : Nat) (left right piece : String) (pieces : List String) :
    (enclosed layout level left right (piece :: pieces)).toList =
      left.toList ++ ((layout.lineBreak (level + 1)).toList ++
        (joined layout (level + 1) (piece :: pieces) ++
          ((layout.lineBreak level).toList ++ right.toList))) := by
  simp only [enclosed, joined, String.toList_append, List.append_assoc]

theorem toList_quoted (text : String) :
    (quoted text).toList = '\x22' :: (text.toList.flatMap escaped ++ ['\x22']) := by
  simp [quoted]

theorem exists_cons_shown (x : Finite64) :
    ∃ c rest, x.shown.toList = c :: rest ∧ (isDigit c = true ∨ c = '-') := by
  unfold Finite64.shown
  rw [String.toList_ofList]
  split
  · obtain ⟨n, -, ht⟩ := x.exists_numeral_plain
    rw [← ht, ← List.append_nil n.text]
    exact exists_cons_text n []
  · obtain ⟨n, -, -, -, -, -, ht⟩ := x.shortest.exists_mantissa
    rw [Decimal.scientific, ← ht]
    exact exists_cons_text n _

theorem exists_cons_integer (k : Int) :
    ∃ c rest, (toString k).toList = c :: rest ∧ (isDigit c = true ∨ c = '-') := by
  rw [Numeral.text_ofInt, ← List.append_nil (Numeral.text _)]
  exact exists_cons_text _ []

theorem not_blank_of_number {c : Char} (h : isDigit c = true ∨ c = '-') :
    isBlankChar c = false ∧ c ≠ ']' ∧ c ≠ '\x22' ∧ c ≠ '[' ∧ c ≠ '\x7b' := by
  rcases h with hdigit | rfl
  · have hne (ch : Char) (hch : isDigit ch = false) : c ≠ ch := Numeral.ne_of_isDigit hdigit hch
    refine ⟨?_, hne _ (by decide), hne _ (by decide), hne _ (by decide), hne _ (by decide)⟩
    simp [isBlankChar, hne ' ' (by decide), hne '\t' (by decide), hne '\n' (by decide),
      hne '\r' (by decide)]
  · decide

/-- A text that starts with a character that is no blank and not the one that closes. -/
def Opens (close : Char) (text : List Char) : Prop :=
  ∃ c rest, text = c :: rest ∧ isBlankChar c = false ∧ c ≠ close

theorem Opens.append {close : Char} {text : List Char} (h : Opens close text) (tail : List Char) :
    Opens close (text ++ tail) := by
  obtain ⟨c, rest, rfl, hblank, hclose⟩ := h
  exact ⟨c, rest ++ tail, rfl, hblank, hclose⟩

theorem Opens.skipBlanks_append {close : Char} {blanks text : List Char} (h : Opens close text)
    (hb : ∀ c ∈ blanks, isBlankChar c = true) : skipBlanks (blanks ++ text) = text := by
  obtain ⟨c, rest, rfl, hblank, -⟩ := h
  rw [Json.skipBlanks_append hb, skipBlanks_cons hblank]

theorem Opens.joined {close : Char} {piece : String} (h : Opens close piece.toList) (level : Nat)
    (pieces : List String) : Opens close (joined layout level (piece :: pieces)) := by
  cases pieces with
  | nil =>
    rw [joined_singleton]
    exact h
  | cons next pieces =>
    rw [joined_cons_cons, List.append_assoc]
    exact h.append _

theorem opens_print {d : Dialect} {v : Json} (hv : v.Fits d) (layout : Layout) (level : Nat) :
    Opens ']' (v.print layout level).toList := by
  cases v with
  | null => exact ⟨'n', ['u', 'l', 'l'], by simp [print], rfl, by decide⟩
  | flag b =>
    cases b with
    | false => exact ⟨'f', ['a', 'l', 's', 'e'], by simp [print], rfl, by decide⟩
    | true => exact ⟨'t', ['r', 'u', 'e'], by simp [print], rfl, by decide⟩
  | integer k =>
    obtain ⟨c, rest, hc, hfirst⟩ := exists_cons_integer k
    obtain ⟨hblank, hclose, -⟩ := not_blank_of_number hfirst
    exact ⟨c, rest, by rw [print, hc], hblank, hclose⟩
  | float x =>
    obtain ⟨y, rfl⟩ := hv
    obtain ⟨c, rest, hc, hfirst⟩ := exists_cons_shown y
    exact ⟨c, rest, by rw [print, floatText, hc], (not_blank_of_number hfirst).1,
      (not_blank_of_number hfirst).2.1⟩
  | text s => exact ⟨'\x22', _, by rw [print, toList_quoted], rfl, by decide⟩
  | torn pieces => exact hv.elim
  | array items =>
    cases items with
    | nil => exact ⟨'[', _, by rw [print, printItems, enclosed]; rfl, rfl, by decide⟩
    | cons item items =>
      exact ⟨'[', _, by rw [print, printItems, toList_enclosed_cons]; rfl, rfl, by decide⟩
  | object members =>
    cases members with
    | nil => exact ⟨'\x7b', _, by rw [print, printMembers, enclosed]; rfl, rfl, by decide⟩
    | cons entry members =>
      exact ⟨'\x7b', _, by rw [print, printMembers, toList_enclosed_cons]; rfl, rfl, by decide⟩

/-! ### Reading a text -/

variable {d : Dialect}

theorem stops_cons {c : Char} (h : isBlankChar c = true ∨ c = ',' ∨ c = ']' ∨ c = '\x7d')
    (rest : List Char) : Stops (c :: rest) := by
  rintro _ ⟨⟩
  exact h

theorem Stops.append {blanks rest : List Char} (hb : ∀ c ∈ blanks, isBlankChar c = true)
    (h : Stops rest) : Stops (blanks ++ rest) := by
  cases blanks with
  | nil => exact h
  | cons c blanks => exact stops_cons (.inl (hb c (by simp))) _

theorem value_number (fuel : Nat) {input : List Char} {c : Char} {more : List Char}
    (h : input = c :: more) (hc : isDigit c = true ∨ c = '-') :
    value d (fuel + 1) input = scalar d input := by
  obtain ⟨-, -, hquote, hbracket, hbrace⟩ := not_blank_of_number hc
  subst h
  refine value.eq_5 d _ fuel ?_ ?_ ?_
  · exact fun rest heq => hquote (List.cons.inj heq).1
  · exact fun rest heq => hbracket (List.cons.inj heq).1
  · exact fun rest heq => hbrace (List.cons.inj heq).1

theorem value_text (fuel : Nat) (s : String) (rest : List Char) :
    value d (fuel + 1) ((quoted s).toList ++ rest) = .ok (text s, rest) := by
  rw [toList_quoted, List.cons_append, List.append_assoc, List.singleton_append, value.eq_2,
    quotedRest?_escaped]
  simp only [orMalformed, bind, Except.bind, pure, Except.pure, ofPieces_char, String.ofList_toList]

theorem mended_char (text : List Char) : Piece.mended (text.map .char) = String.ofList text := by
  simp [Piece.mended, Piece.char?, Function.comp_def]

theorem key?_quoted (key : String) {rest : List Char} {c : Char} {more : List Char}
    (hrest : rest = c :: more) (hc : isBlankChar c = false) :
    key? ((quoted key).toList ++ ([':', ' '] ++ rest)) = some (key, rest) := by
  subst hrest
  have hskip : skipBlanks (' ' :: c :: more) = c :: more :=
    (skipBlanks_cons_blank rfl _).trans (skipBlanks_cons hc more)
  have hcolon : skipBlanks (':' :: ' ' :: c :: more) = ':' :: ' ' :: c :: more :=
    skipBlanks_cons rfl _
  rw [toList_quoted, List.cons_append, List.append_assoc, List.singleton_append]
  simp only [key?, quotedRest?_escaped, List.cons_append, List.nil_append, hcolon, hskip,
    mended_char, String.ofList_toList, bind, Option.bind, pure]

/-- The text of a value is read as the value, and what stands behind it is left.  A value needs two
units of fuel for each of its characters. -/
def ReadsBack (d : Dialect) (layout : Layout) (v : Json) : Prop :=
  ∀ level fuel rest, Stops rest → 2 * (v.print layout level).toList.length ≤ fuel →
    value d fuel ((v.print layout level).toList ++ rest) = .ok (v, rest)

def ItemsReadBack (d : Dialect) (layout : Layout) (values : List Json) : Prop :=
  values ≠ [] → ∀ level fuel blanks rest, (∀ c ∈ blanks, isBlankChar c = true) →
    2 * (joined layout level (printItems layout level values)).length + 1 ≤ fuel →
    items d fuel (joined layout level (printItems layout level values) ++ (blanks ++ ']' :: rest)) =
      .ok (values, rest)

def MembersReadBack (d : Dialect) (layout : Layout) (entries : List (String × Json)) : Prop :=
  entries ≠ [] → ∀ level fuel blanks rest, (∀ c ∈ blanks, isBlankChar c = true) →
    2 * (joined layout level (printMembers layout level entries)).length + 1 ≤ fuel →
    members d fuel
      (joined layout level (printMembers layout level entries) ++ (blanks ++ '\x7d' :: rest)) =
        .ok (entries, rest)

theorem exists_fuel {v : Json} (hv : v.Fits d) {level fuel : Nat}
    (h : 2 * (v.print layout level).toList.length ≤ fuel) : ∃ more, fuel = more + 1 := by
  obtain ⟨c, rest, hc, -⟩ := opens_print hv layout level
  rw [hc, List.length_cons] at h
  exact ⟨fuel - 1, by omega⟩

theorem readsBack_word {v : Json} (hv : v.Fits d) (word : List Char)
    (hprint : ∀ level, (v.print layout level).toList = word)
    (hread : ∀ fuel rest, value d (fuel + 1) (word ++ rest) = .ok (v, rest)) :
    ReadsBack d layout v := by
  intro level fuel rest _ hfuel
  obtain ⟨more, rfl⟩ := exists_fuel hv hfuel
  rw [hprint]
  exact hread more rest

theorem readsBack_null : ReadsBack d layout null :=
  readsBack_word (by simp [Fits]) ['n', 'u', 'l', 'l'] (fun _ => by simp [print])
    fun _ _ => rfl

theorem readsBack_flag (b : Bool) : ReadsBack d layout (flag b) := by
  have hfits : (flag b).Fits d := by simp [Fits]
  cases b with
  | false =>
    exact readsBack_word hfits ['f', 'a', 'l', 's', 'e'] (fun _ => by simp [print])
      fun _ _ => rfl
  | true =>
    exact readsBack_word hfits ['t', 'r', 'u', 'e'] (fun _ => by simp [print])
      fun _ _ => rfl

theorem readsBack_text (s : String) : ReadsBack d layout (text s) :=
  readsBack_word (by simp [Fits]) _ (fun _ => by rw [print]) fun fuel rest => value_text fuel s rest

theorem readsBack_integer {k : Int} (hk : (integer k).Fits d) : ReadsBack d layout (integer k) := by
  intro level fuel rest hrest hfuel
  obtain ⟨more, rfl⟩ := exists_fuel hk hfuel
  obtain ⟨c, tail, hc, hfirst⟩ := exists_cons_integer k
  rw [print, value_number more (by rw [hc]; rfl) hfirst]
  exact scalar_integer d hk hrest

theorem readsBack_float {x : Binary64} (hx : (float x).Fits d) : ReadsBack d layout (float x) := by
  intro level fuel rest hrest hfuel
  obtain ⟨more, rfl⟩ := exists_fuel hx hfuel
  obtain ⟨y, rfl⟩ := hx
  obtain ⟨c, tail, hc, hfirst⟩ := exists_cons_shown y
  rw [print, floatText, value_number more (by rw [hc]; rfl) hfirst]
  exact scalar_shown d y hrest

/-! ### Arrays and objects -/

theorem Layout.Blank.exists_joined (hl : layout.Blank) (level : Nat) (piece next : String)
    (pieces : List String) : ∃ gap, (∀ c ∈ gap, isBlankChar c = true) ∧
      joined layout level (piece :: next :: pieces) =
        piece.toList ++ ',' :: (gap ++ joined layout level (next :: pieces)) := by
  obtain ⟨gap, hgap, hblank⟩ := hl.separator level
  exact ⟨gap, hblank, by rw [joined_cons_cons, hgap, List.append_assoc, List.cons_append]⟩

theorem readsBack_array (hl : layout.Blank) {values : List Json} (hfits : (array values).Fits d)
    (h : ItemsReadBack d layout values) : ReadsBack d layout (array values) := by
  intro level fuel rest _ hfuel
  obtain ⟨more, rfl⟩ := exists_fuel hfits hfuel
  cases values with
  | nil =>
    rw [print, printItems, enclosed]
    rfl
  | cons item others =>
    have hitem : item.Fits d := by
      simp only [Fits, ItemsFit] at hfits
      exact hfits.1
    have hopens : Opens ']'
        (joined layout (level + 1) (printItems layout (level + 1) (item :: others)) ++
          ((layout.lineBreak level).toList ++ ']' :: rest)) := by
      rw [printItems]
      exact ((opens_print hitem layout (level + 1)).joined _ _).append _
    have hskip := hopens.skipBlanks_append (hl.lineBreak (level + 1))
    have htext : (print layout level (array (item :: others))).toList = '[' ::
        ((layout.lineBreak (level + 1)).toList ++
          (joined layout (level + 1) (printItems layout (level + 1) (item :: others)) ++
            ((layout.lineBreak level).toList ++ [']']))) := by
      rw [print, printItems, toList_enclosed_cons]
      rfl
    rw [htext] at hfuel ⊢
    simp only [List.length_cons, List.length_append, List.length_nil] at hfuel
    have hread := h (by simp) (level + 1) more _ rest (hl.lineBreak level) (by omega)
    simp only [List.cons_append, List.append_assoc, List.nil_append, value.eq_3, hskip]
    obtain ⟨c, tail, hc, -, hclose⟩ := hopens
    rw [hc] at hread ⊢
    split
    · rename_i heq
      exact absurd (List.cons.inj heq).1 hclose
    · rw [hread]
      rfl

theorem itemsReadBack_cons (hl : layout.Blank) {item : Json} {others : List Json}
    (hfits : ItemsFit d (item :: others)) (hitem : ReadsBack d layout item)
    (hothers : ItemsReadBack d layout others) : ItemsReadBack d layout (item :: others) := by
  intro _ level fuel blanks rest hb hfuel
  obtain ⟨more, rfl⟩ : ∃ more, fuel = more + 1 := ⟨fuel - 1, by omega⟩
  rw [items.eq_2]
  cases others with
  | nil =>
    rw [printItems, printItems, joined_singleton] at hfuel ⊢
    have hskip : skipBlanks (blanks ++ ']' :: rest) = ']' :: rest := by
      rw [skipBlanks_append hb, skipBlanks_cons rfl]
    rw [hitem level more _ (.append hb (stops_cons (by simp) rest)) (by omega)]
    simp only [bind, Except.bind, hskip]
    rfl
  | cons next others =>
    have hnext : next.Fits d := by
      simp only [ItemsFit] at hfits
      exact hfits.2.1
    obtain ⟨gap, hgap, hsplit⟩ := hl.exists_joined level (item.print layout level)
      (next.print layout level) (printItems layout level others)
    rw [printItems, printItems, hsplit] at hfuel ⊢
    rw [← printItems] at hfuel ⊢
    simp only [List.length_append, List.length_cons] at hfuel
    have hread := hothers (by simp) level more blanks rest hb (by omega)
    have hopens : Opens ']' (joined layout level (printItems layout level (next :: others)) ++
        (blanks ++ ']' :: rest)) := by
      rw [printItems]
      exact ((opens_print hnext layout level).joined _ _).append _
    have hskip := hopens.skipBlanks_append hgap
    have hcomma (r : List Char) : skipBlanks (',' :: r) = ',' :: r := skipBlanks_cons rfl r
    simp only [List.append_assoc, List.cons_append]
    rw [hitem level more _ (stops_cons (by simp) _) (by omega)]
    simp only [bind, Except.bind, hcomma, hskip, hread]
    rfl

/-- The text of a member. -/
def memberText (layout : Layout) (level : Nat) (entry : String × Json) : String :=
  quoted entry.1 ++ ": " ++ entry.2.print layout level

theorem printMembers_cons (level : Nat) (entry : String × Json) (others : List (String × Json)) :
    printMembers layout level (entry :: others) =
      memberText layout level entry :: printMembers layout level others := by
  obtain ⟨key, v⟩ := entry
  rw [printMembers, memberText]

theorem opens_member (level : Nat) (entry : String × Json) :
    Opens '\x7d' (memberText layout level entry).toList := by
  have hquoted : Opens '\x7d' (quoted entry.1).toList := by
    rw [toList_quoted]
    exact ⟨'\x22', _, rfl, rfl, by decide⟩
  rw [memberText, String.toList_append, String.toList_append]
  exact (hquoted.append _).append _

theorem key?_member {entry : String × Json} (hv : entry.2.Fits d) (level : Nat) (tail : List Char) :
    key? ((memberText layout level entry).toList ++ tail) =
      some (entry.1, (entry.2.print layout level).toList ++ tail) := by
  obtain ⟨c, rest, hc, hblank, -⟩ := (opens_print hv layout level).append tail
  have hcolon : ": ".toList = [':', ' '] := rfl
  rw [memberText, String.toList_append, String.toList_append, hcolon, List.append_assoc,
    List.append_assoc]
  exact key?_quoted entry.1 hc hblank

theorem readsBack_object (hl : layout.Blank) {entries : List (String × Json)}
    (hfits : (object entries).Fits d) (h : MembersReadBack d layout entries) :
    ReadsBack d layout (object entries) := by
  intro level fuel rest _ hfuel
  obtain ⟨more, rfl⟩ := exists_fuel hfits hfuel
  have hkeys : Entries.ofList entries = entries := by
    rw [Fits] at hfits
    exact Entries.ofList_eq hfits.1
  cases entries with
  | nil =>
    rw [print, printMembers, enclosed]
    rfl
  | cons entry others =>
    have hopens : Opens '\x7d' (joined layout (level + 1)
        (printMembers layout (level + 1) (entry :: others)) ++
          ((layout.lineBreak level).toList ++ '\x7d' :: rest)) := by
      rw [printMembers_cons]
      exact ((opens_member (level + 1) entry).joined _ _).append _
    have hskip := hopens.skipBlanks_append (hl.lineBreak (level + 1))
    have htext : (print layout level (object (entry :: others))).toList = '\x7b' ::
        ((layout.lineBreak (level + 1)).toList ++
          (joined layout (level + 1) (printMembers layout (level + 1) (entry :: others)) ++
            ((layout.lineBreak level).toList ++ ['\x7d']))) := by
      rw [print, printMembers_cons, toList_enclosed_cons]
      rfl
    rw [htext] at hfuel ⊢
    simp only [List.length_cons, List.length_append, List.length_nil] at hfuel
    have hread := h (by simp) (level + 1) more _ rest (hl.lineBreak level) (by omega)
    simp only [List.cons_append, List.append_assoc, List.nil_append, value.eq_4, hskip]
    obtain ⟨c, tail, hc, -, hclose⟩ := hopens
    rw [hc] at hread ⊢
    split
    · rename_i heq
      exact absurd (List.cons.inj heq).1 hclose
    · rw [hread]
      simp only [bind, Except.bind, hkeys]
      rfl

theorem membersReadBack_cons (hl : layout.Blank) {entry : String × Json}
    {others : List (String × Json)} (hfits : entry.2.Fits d)
    (hentry : ReadsBack d layout entry.2) (hothers : MembersReadBack d layout others) :
    MembersReadBack d layout (entry :: others) := by
  intro _ level fuel blanks rest hb hfuel
  obtain ⟨more, rfl⟩ : ∃ more, fuel = more + 1 := ⟨fuel - 1, by omega⟩
  have hlength : (entry.2.print layout level).toList.length + 1 ≤
      (memberText layout level entry).toList.length := by
    simp only [memberText, String.toList_append, List.length_append, toList_quoted,
      List.length_cons]
    omega
  rw [members.eq_2]
  cases others with
  | nil =>
    rw [printMembers_cons, printMembers, joined_singleton] at hfuel ⊢
    have hskip : skipBlanks (blanks ++ '\x7d' :: rest) = '\x7d' :: rest := by
      rw [skipBlanks_append hb, skipBlanks_cons rfl]
    rw [key?_member hfits]
    simp only [orMalformed, bind, Except.bind]
    rw [hentry level more _ (.append hb (stops_cons (by simp) rest)) (by omega)]
    simp only [hskip]
    rfl
  | cons next others =>
    obtain ⟨gap, hgap, hsplit⟩ := hl.exists_joined level (memberText layout level entry)
      (memberText layout level next) (printMembers layout level others)
    rw [printMembers_cons, printMembers_cons, hsplit] at hfuel ⊢
    rw [← printMembers_cons] at hfuel ⊢
    simp only [List.length_append, List.length_cons] at hfuel
    have hread := hothers (by simp) level more blanks rest hb (by omega)
    have hopens : Opens '\x7d' (joined layout level (printMembers layout level (next :: others)) ++
        (blanks ++ '\x7d' :: rest)) := by
      rw [printMembers_cons]
      exact ((opens_member level next).joined _ _).append _
    have hskip := hopens.skipBlanks_append hgap
    have hcomma (r : List Char) : skipBlanks (',' :: r) = ',' :: r := skipBlanks_cons rfl r
    simp only [List.append_assoc, List.cons_append]
    rw [key?_member hfits]
    simp only [orMalformed, bind, Except.bind]
    rw [hentry level more _ (stops_cons (by simp) _) (by omega)]
    simp only [hcomma, hskip, hread]
    rfl

/-! ### All values -/

mutual

theorem readsBack (hl : layout.Blank) : ∀ v : Json, v.Fits d → ReadsBack d layout v
  | .null, _ => readsBack_null
  | .flag b, _ => readsBack_flag b
  | .integer _, h => readsBack_integer h
  | .float _, h => readsBack_float h
  | .text s, _ => readsBack_text s
  | .torn _, h => by simp [Fits] at h
  | .array values, h => readsBack_array hl h (itemsReadBack hl values (by simpa [Fits] using h))
  | .object entries, h =>
    readsBack_object hl h (membersReadBack hl entries (by simp only [Fits] at h; exact h.2))

theorem itemsReadBack (hl : layout.Blank) : ∀ values : List Json, ItemsFit d values →
    ItemsReadBack d layout values
  | [], _ => fun hne => absurd rfl hne
  | item :: others, h =>
    itemsReadBack_cons hl h (readsBack hl item (by simp only [ItemsFit] at h; exact h.1))
      (itemsReadBack hl others (by simp only [ItemsFit] at h; exact h.2))

theorem membersReadBack (hl : layout.Blank) : ∀ entries : List (String × Json),
    MembersFit d entries → MembersReadBack d layout entries
  | [], _ => fun hne => absurd rfl hne
  | (key, v) :: others, h =>
    membersReadBack_cons hl (by simp only [MembersFit] at h; exact h.1)
      (readsBack hl v (by simp only [MembersFit] at h; exact h.1))
      (membersReadBack hl others (by simp only [MembersFit] at h; exact h.2))

end

/-- The text of a value is read as the value, also with blanks around it. -/
theorem readIn_toText (hl : layout.Blank) {v : Json} (hv : v.Fits d) (before behind : String)
    {text : String}
    (hbefore : ∀ c ∈ before.toList, isBlankChar c = true)
    (hbehind : ∀ c ∈ behind.toList, isBlankChar c = true)
    (htext : text = before ++ v.toText layout ++ behind) : readIn d text = .ok v := by
  have hopens := (opens_print hv layout 0).append behind.toList
  have hskip := hopens.skipBlanks_append hbefore
  have hstops : Stops behind.toList := by
    rw [← List.append_nil behind.toList]
    exact .append hbehind (by simp [Stops])
  have hread := readsBack hl v hv 0 (fuelFor ((v.print layout 0).toList ++ behind.toList))
    behind.toList hstops (by simp only [fuelFor, List.length_append]; omega)
  have hrest : skipBlanks behind.toList = [] := by
    rw [← List.append_nil behind.toList, skipBlanks_append hbehind]
    rfl
  simp only [readIn, htext, toText, String.toList_append, List.append_assoc, hskip, hread, bind,
    Except.bind, hrest]
  rfl

end DotGraph.Json
