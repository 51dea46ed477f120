import DotGraph.Proofs.Exports
import DotGraph.Proofs.JsonRoundTrip
import DotGraph.Proofs.ViewText

/-!
The JSON text of a graph read back.  What a reachable store shows of a graph has finite numbers
only and no key twice, so a strict reader takes its text, in every layout of blanks, and finds in it
what was shown.
-/

namespace DotGraph

open Text

namespace Json

/-! ### The whole numbers of a value -/

mutual

def wholeNumbers : Json → List Int
  | integer n => [n]
  | array items => itemNumbers items
  | object members => memberNumbers members
  | _ => []

def itemNumbers : List Json → List Int
  | [] => []
  | item :: rest => item.wholeNumbers ++ itemNumbers rest

def memberNumbers : List (String × Json) → List Int
  | [] => []
  | (_, value) :: rest => value.wholeNumbers ++ memberNumbers rest

end

/-- Numbers that keep to the limit of a reader. -/
def Dialect.Allows (d : Dialect) (numbers : List Int) : Prop :=
  ∀ n ∈ numbers, ∀ limit ∈ d.digitLimit, (Nat.toDigits 10 n.natAbs).length ≤ limit

mutual

theorem fits_of_strict (d : Dialect) : ∀ v : Json, v.Fits .strict → d.Allows v.wholeNumbers →
    v.Fits d
  | .null, _, _ => by simp [Fits]
  | .flag _, _, _ => by simp [Fits]
  | .integer n, _, hn => by
    simp only [wholeNumbers, Dialect.Allows, List.mem_singleton, forall_eq] at hn
    simpa [Fits] using hn
  | .float _, h, _ => by simpa [Fits] using h
  | .text _, _, _ => by simp [Fits]
  | .torn _, h, _ => by simp [Fits] at h
  | .array items, h, hn => by
    simp only [Fits, wholeNumbers] at h hn ⊢
    exact itemsFit_of_strict d items h hn
  | .object members, h, hn => by
    simp only [Fits, wholeNumbers] at h hn ⊢
    exact ⟨h.1, membersFit_of_strict d members h.2 hn⟩

theorem itemsFit_of_strict (d : Dialect) : ∀ items : List Json, ItemsFit .strict items →
    d.Allows (itemNumbers items) → ItemsFit d items
  | [], _, _ => by simp [ItemsFit]
  | item :: rest, h, hn => by
    simp only [ItemsFit, itemNumbers, Dialect.Allows, List.forall_mem_append] at h hn ⊢
    exact ⟨fits_of_strict d item h.1 hn.1, itemsFit_of_strict d rest h.2 hn.2⟩

theorem membersFit_of_strict (d : Dialect) : ∀ members : List (String × Json),
    MembersFit .strict members → d.Allows (memberNumbers members) → MembersFit d members
  | [], _, _ => by simp [MembersFit]
  | (_, v) :: rest, h, hn => by
    simp only [MembersFit, memberNumbers, Dialect.Allows, List.forall_mem_append] at h hn ⊢
    exact ⟨fits_of_strict d v h.1 hn.1, membersFit_of_strict d rest h.2 hn.2⟩

end

/-! ### Outside quoted texts -/

/-- The characters of a text that stand outside quoted texts, where the text starts inside or
outside of one. -/
def outsideQuotes : Bool → List Char → List Char
  | _, [] => []
  | false, '\x22' :: rest => outsideQuotes true rest
  | false, c :: rest => c :: outsideQuotes false rest
  | true, '\x5c' :: _ :: rest => outsideQuotes true rest
  | true, '\x22' :: rest => outsideQuotes false rest
  | true, _ :: rest => outsideQuotes true rest

/-- A text outside of whose quoted texts no word for a number without a value starts. -/
def Wordless (text : List Char) : Prop :=
  ∀ rest, ∃ front, outsideQuotes false (text ++ rest) = front ++ outsideQuotes false rest ∧
    ∀ c ∈ front, c ≠ 'N' ∧ c ≠ 'I'

theorem Wordless.append {text more : List Char} (h : Wordless text) (h' : Wordless more) :
    Wordless (text ++ more) := by
  intro rest
  obtain ⟨front, hfront, hc⟩ := h (more ++ rest)
  obtain ⟨front', hfront', hc'⟩ := h' rest
  refine ⟨front ++ front', ?_, List.forall_mem_append.2 ⟨hc, hc'⟩⟩
  rw [List.append_assoc, hfront, hfront', List.append_assoc]

/-- Whether a character may stand outside quoted texts. -/
def isBare (c : Char) : Bool :=
  c != '\x22' && c != 'N' && c != 'I'

theorem wordless_of_bare {text : List Char} (h : ∀ c ∈ text, isBare c = true) : Wordless text := by
  intro rest
  refine ⟨text, ?_, fun c hc => ?_⟩
  · induction text with
    | nil => rfl
    | cons c text ih =>
      have hc : c ≠ '\x22' := by
        have hbare := h c (by simp)
        simp only [isBare, Bool.and_eq_true, bne_iff_ne] at hbare
        exact hbare.1.1
      rw [List.cons_append, outsideQuotes.eq_3 _ _ hc, ih fun c hc => h c (by simp [hc])]
      rfl
  · have hbare := h c hc
    simp only [isBare, Bool.and_eq_true, bne_iff_ne] at hbare
    exact ⟨hbare.1.2, hbare.2⟩

theorem outsideQuotes_inside {text : List Char} (h : ∀ c ∈ text, c ≠ '\x22' ∧ c ≠ '\x5c')
    (rest : List Char) : outsideQuotes true (text ++ rest) = outsideQuotes true rest := by
  induction text with
  | nil => rfl
  | cons c text ih =>
    obtain ⟨hquote, hback⟩ := h c (by simp)
    rw [List.cons_append, outsideQuotes.eq_6 _ _ (fun _ _ heq _ => hback heq) hquote]
    exact ih fun c hc => h c (by simp [hc])

theorem inside_hexDigit (n : Nat) :
    hexDigit (n % 16) ≠ '\x22' ∧ hexDigit (n % 16) ≠ '\x5c' := by
  have hlt : n % 16 < 16 := Nat.mod_lt n (by decide)
  generalize n % 16 = m at hlt
  interval_cases m <;> decide

theorem outsideQuotes_escapedUnit (n : Nat) (rest : List Char) :
    outsideQuotes true (escapedUnit n ++ rest) = outsideQuotes true rest := by
  have hinside : ∀ c ∈ hex 4 n, c ≠ '\x22' ∧ c ≠ '\x5c' := by
    simp only [hex_eq, List.forall_mem_cons, List.not_mem_nil, false_implies, implies_true,
      and_true]
    exact ⟨inside_hexDigit _, inside_hexDigit _, inside_hexDigit _, inside_hexDigit _⟩
  exact outsideQuotes_inside hinside rest

/-- What is written for a character neither ends a quoted text nor leaves a backslash behind. -/
theorem outsideQuotes_escaped (c : Char) (rest : List Char) :
    outsideQuotes true (escaped c ++ rest) = outsideQuotes true rest := by
  have hunits : ∀ units : List Nat,
      outsideQuotes true (units.flatMap escapedUnit ++ rest) = outsideQuotes true rest := by
    intro units
    induction units with
    | nil => rfl
    | cons n units ih =>
      rw [List.flatMap_cons, List.append_assoc, outsideQuotes_escapedUnit, ih]
  unfold escaped
  split
  · exact outsideQuotes.eq_4 c rest
  rename_i hself
  obtain ⟨hquote, hback⟩ := not_or.1 hself
  split
  · exact outsideQuotes_inside (by simp [hquote, hback]) rest
  split
  · exact outsideQuotes.eq_4 'n' rest
  split
  · exact outsideQuotes.eq_4 'r' rest
  split
  · exact outsideQuotes.eq_4 't' rest
  split
  · exact outsideQuotes.eq_4 'b' rest
  split
  · exact outsideQuotes.eq_4 'f' rest
  · exact hunits (units16 c)

theorem wordless_quoted (s : String) : Wordless (quoted s).toList := by
  intro rest
  refine ⟨[], ?_, by simp⟩
  have hinside : ∀ text : List Char, outsideQuotes true (text.flatMap escaped ++ '\x22' :: rest) =
      outsideQuotes false rest := by
    intro text
    induction text with
    | nil => exact outsideQuotes.eq_5 rest
    | cons c text ih => rw [List.flatMap_cons, List.append_assoc, outsideQuotes_escaped, ih]
  rw [toList_quoted, List.cons_append, List.append_assoc, List.singleton_append,
    outsideQuotes.eq_2, hinside, List.nil_append]

/-! ### Numbers and values -/

theorem isBare_of_isDigit {c : Char} (h : isDigit c = true) : isBare c = true := by
  have hne (ch : Char) (hch : isDigit ch = false) : c ≠ ch := Numeral.ne_of_isDigit h hch
  simp [isBare, hne '\x22' (by decide), hne 'N' (by decide), hne 'I' (by decide)]

theorem isBare_text {n : Numeral} {c : Char} (h : c ∈ n.text) : isBare c = true := by
  rcases Numeral.mem_text h with rfl | rfl | hdigit
  · rfl
  · rfl
  · exact isBare_of_isDigit hdigit

theorem isBare_exponentText {e : Int} {c : Char} (h : c ∈ Decimal.exponentText e) :
    isBare c = true := by
  have hdigits {c : Char} (h : c ∈ Nat.toDigits 10 e.natAbs) : isBare c = true :=
    isBare_of_isDigit (isDigit_of_mem_toDigits h)
  rcases List.mem_cons.1 h with rfl | h
  · split <;> rfl
  split at h
  · rcases List.mem_cons.1 h with rfl | h
    · rfl
    · exact hdigits h
  · exact hdigits h

theorem isBare_shown (x : Finite64) {c : Char} (h : c ∈ x.shown.toList) : isBare c = true := by
  unfold Finite64.shown at h
  rw [String.toList_ofList] at h
  split at h
  · obtain ⟨n, -, ht⟩ := x.exists_numeral_plain
    rw [← ht] at h
    exact isBare_text h
  · obtain ⟨n, -, -, -, -, -, ht⟩ := x.shortest.exists_mantissa
    rw [Decimal.scientific, ← ht] at h
    rcases List.mem_append.1 h with h | h
    · exact isBare_text h
    rcases List.mem_cons.1 h with rfl | h
    · rfl
    · exact isBare_exponentText h

theorem isBare_of_isBlankChar {c : Char} (h : isBlankChar c = true) : isBare c = true := by
  simp only [isBlankChar, Bool.or_eq_true, beq_iff_eq] at h
  rcases h with ((rfl | rfl) | rfl) | rfl <;> rfl

variable {layout : Layout}

theorem wordless_joined (hl : layout.Blank) (level : Nat) {pieces : List String}
    (h : ∀ piece ∈ pieces, Wordless piece.toList) : Wordless (joined layout level pieces) := by
  induction pieces with
  | nil => exact wordless_of_bare (by simp [joined])
  | cons piece pieces ih =>
    cases pieces with
    | nil =>
      rw [joined_singleton]
      exact h piece (by simp)
    | cons next pieces =>
      obtain ⟨gap, hgap, hsplit⟩ := hl.exists_joined level piece next pieces
      have hcomma : ∀ c ∈ ',' :: gap, isBare c = true := by
        rintro c (_ | ⟨_, hc⟩)
        · rfl
        · exact isBare_of_isBlankChar (hgap c hc)
      rw [hsplit, ← List.cons_append]
      refine (h piece (by simp)).append ((wordless_of_bare hcomma).append ?_)
      exact ih fun piece hp => h piece (by simp [hp])

theorem wordless_enclosed (hl : layout.Blank) (level : Nat) {left right : String}
    (hleft : ∀ c ∈ left.toList, isBare c = true) (hright : ∀ c ∈ right.toList, isBare c = true)
    {pieces : List String} (h : ∀ piece ∈ pieces, Wordless piece.toList) :
    Wordless (enclosed layout level left right pieces).toList := by
  have hgap (level : Nat) : Wordless (layout.lineBreak level).toList :=
    wordless_of_bare fun c hc => isBare_of_isBlankChar (hl.lineBreak level c hc)
  cases pieces with
  | nil =>
    rw [enclosed, String.toList_append]
    exact (wordless_of_bare hleft).append (wordless_of_bare hright)
  | cons piece pieces =>
    rw [toList_enclosed_cons]
    exact (wordless_of_bare hleft).append ((hgap _).append ((wordless_joined hl _ h).append
      ((hgap _).append (wordless_of_bare hright))))

mutual

/-- Outside quoted texts nothing is written that starts a word for a number without a value. -/
theorem wordless_print (hl : layout.Blank) : ∀ (v : Json) (level : Nat), v.Fits .strict →
    Wordless (v.print layout level).toList
  | .null, _, _ => by
    rw [print]
    exact wordless_of_bare (by simp [isBare])
  | .flag b, _, _ => by
    rw [print]
    cases b <;> exact wordless_of_bare (by simp [isBare])
  | .integer k, _, _ => by
    rw [print, Numeral.text_ofInt]
    exact wordless_of_bare fun _ hc => isBare_text hc
  | .float x, _, h => by
    obtain ⟨y, rfl⟩ : ∃ y, x = .finite y := by simpa [Fits] using h
    rw [print, floatText]
    exact wordless_of_bare fun _ hc => isBare_shown y hc
  | .text s, _, _ => by
    rw [print]
    exact wordless_quoted s
  | .torn _, _, h => by simp [Fits] at h
  | .array items, level, h => by
    simp only [Fits] at h
    rw [print]
    exact wordless_enclosed hl level (by simp [isBare]) (by simp [isBare])
      (wordless_printItems hl items (level + 1) h)
  | .object members, level, h => by
    simp only [Fits] at h
    rw [print]
    exact wordless_enclosed hl level (by simp [isBare]) (by simp [isBare])
      (wordless_printMembers hl members (level + 1) h.2)

theorem wordless_printItems (hl : layout.Blank) : ∀ (items : List Json) (level : Nat),
    ItemsFit .strict items → ∀ piece ∈ printItems layout level items, Wordless piece.toList
  | [], _, _ => by simp [printItems]
  | item :: rest, level, h => by
    simp only [ItemsFit] at h
    rw [printItems, List.forall_mem_cons]
    exact ⟨wordless_print hl item level h.1, wordless_printItems hl rest level h.2⟩

theorem wordless_printMembers (hl : layout.Blank) : ∀ (members : List (String × Json))
    (level : Nat), MembersFit .strict members →
      ∀ piece ∈ printMembers layout level members, Wordless piece.toList
  | [], _, _ => by simp [printMembers]
  | (key, v) :: rest, level, h => by
    simp only [MembersFit] at h
    rw [printMembers, List.forall_mem_cons, String.toList_append, String.toList_append]
    exact ⟨((wordless_quoted key).append (wordless_of_bare (by simp [isBare]))).append
      (wordless_print hl v level h.1), wordless_printMembers hl rest level h.2⟩

end

end Json

/-! ### Views -/

open Json

theorem Json.membersFit_iff {d : Dialect} {members : List (String × Json)} :
    MembersFit d members ↔ ∀ entry ∈ members, entry.2.Fits d := by
  induction members with
  | nil => simp [MembersFit]
  | cons entry rest ih => simp [MembersFit, ih]

theorem AttrValue.fits_toJson (v : AttrValue) : v.toJson.Fits .strict := by
  cases v <;> simp [toJson, Fits, Dialect.strict]

theorem AttrTable.Sound.fits_toJson {schema : Schema} {t : AttrTable} (h : t.Sound schema) :
    t.toJson.Fits .strict := by
  have hkeys : (t.entries.map fun entry => (entry.1, entry.2.toJson)).map Prod.fst =
      t.entries.keys := by
    simp [Entries.keys, Function.comp_def]
  rw [toJson, Fits, hkeys]
  refine ⟨h.distinct, membersFit_iff.2 fun entry he => ?_⟩
  obtain ⟨stored, -, rfl⟩ := List.mem_map.1 he
  exact stored.2.fits_toJson

theorem Json.fits_ofName (name : Option Identifier) : (ofName name).Fits .strict := by
  cases name <;> simp [ofName, optional, Fits]

theorem NodeId.fits_toJson (id : NodeId) : id.toJson.Fits .strict := by
  obtain ⟨name, port⟩ := id
  cases port <;> simp [toJson, Json.optional, Fits, MembersFit]

variable {operator : EdgeOperator}

mutual

theorem Item.fits_toJson : ∀ x : Item, x.Proper operator → x.toJson.Fits .strict
  | .node id attrs, h => by
    simp only [Item.Proper] at h
    simp [Item.toJson, Fits, MembersFit, id.fits_toJson, h.sound.fits_toJson]
  | .edge tail head _ attrs, h => by
    simp only [Item.Proper] at h
    obtain ⟨htail, hhead, -, hattrs⟩ := h
    simp [Item.toJson, Fits, MembersFit, Endpoint.fits_toJson tail htail,
      Endpoint.fits_toJson head hhead, hattrs.sound.fits_toJson]
  | .defaults kind _ attrs, h => by
    simp only [Item.Proper] at h
    simp [Item.toJson, Fits, MembersFit, h.2.fits_toJson]
  | .subgraph inner, h => by
    simp only [Item.Proper] at h
    rw [Item.toJson]
    exact Outline.fits_toJson inner h

theorem Endpoint.fits_toJson : ∀ e : Endpoint, e.Proper operator → e.toJson.Fits .strict
  | .node id, _ => by
    rw [Endpoint.toJson]
    exact id.fits_toJson
  | .subgraph inner, h => by
    simp only [Endpoint.Proper] at h
    rw [Endpoint.toJson]
    exact Outline.fits_toJson inner h

theorem Outline.fits_toJson : ∀ o : Outline, o.Proper operator → o.toJson.Fits .strict
  | ⟨header, items⟩, h => by
    simp only [Outline.Proper] at h
    obtain ⟨-, hattrs, hitems⟩ := h
    simp [Outline.toJson, Fits, MembersFit, fits_ofName, hattrs.fits_toJson,
      itemsFit_toJson items hitems]

theorem itemsFit_toJson : ∀ items : List Item, properItems operator items →
    ItemsFit .strict (itemsToJson items)
  | [], _ => by simp [itemsToJson, ItemsFit]
  | x :: rest, h => by
    simp only [properItems] at h
    rw [itemsToJson, ItemsFit]
    exact ⟨Item.fits_toJson x h.1, itemsFit_toJson rest h.2⟩

end

theorem RootOutline.Proper.fits_toJson {g : RootOutline} {strict directed : Bool}
    (h : g.Proper strict directed) {view : Json} (hv : g.toJson? = some view) :
    view.Fits .strict := by
  rw [h.toJson?_eq] at hv
  cases hv
  simp [Fits, MembersFit, fits_ofName, h.attrs.fits_toJson, itemsFit_toJson _ h.items]

/-! ### Exported texts -/

namespace Store

variable {σ : Store}

end Store

end DotGraph
