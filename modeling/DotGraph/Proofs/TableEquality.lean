import DotGraph.Proofs.Rounding
import DotGraph.Proofs.TableHistory
import Mathlib.Data.List.Perm.Subperm

/-!
Equality of tables.  Numbers and flags are compared by the rational number that each of them is, and
all other values only with themselves; so equality of values is an equivalence, and so is that of
tables, which looks for equal values under the same keys and not at the order of the keys.
-/

namespace DotGraph

/-! ### Values -/

theorem cast_nat_two_pow (n : Nat) : ((Nat.pow 2 n : Nat) : ℚ) = 2 ^ (n : Int) := by
  rw [zpow_natCast]
  exact Nat.cast_pow 2 n

namespace Finite64

theorem cast_unitsPerOne : (unitsPerOne : ℚ) = 2 ^ (1074 : Int) := by
  show (unitsPerOne : ℚ) = 2 ^ ((1074 : Nat) : Int)
  unfold unitsPerOne
  generalize 1074 = n
  exact cast_nat_two_pow n

theorem cast_unitsPerOne_ne_zero : (unitsPerOne : ℚ) ≠ 0 :=
  Nat.cast_ne_zero.2 (Nat.ne_of_gt unitsPerOne_pos)

theorem cast_units (x : Finite64) : (x.units : ℚ) = x.value * unitsPerOne := by
  have hleast : 0 ≤ x.exponent + 1074 := by
    have := x.canonical.2.1
    omega
  have hmagnitude : ((x.significand * Nat.pow 2 (x.exponent + 1074).toNat : Nat) : ℚ) =
      x.magnitude * unitsPerOne := by
    rw [Nat.cast_mul, cast_nat_two_pow, Int.toNat_of_nonneg hleast, zpow_add₀ two_ne_zero,
      ← cast_unitsPerOne, magnitude, mul_assoc]
  unfold units value
  split
  · rw [Int.cast_neg, Int.cast_natCast, hmagnitude, neg_mul]
  · rw [Int.cast_natCast, hmagnitude]

end Finite64

namespace AttrValue

/-- The number that a value is; flags are one and zero. -/
def number? : AttrValue → Option ℚ
  | integer n => some n
  | float x => some x.value
  | flag b => some (if b then 1 else 0)
  | _ => none

/-- Values that count as equal: the very same value, or the same number. -/
inductive Equals : AttrValue → AttrValue → Prop
  | refl (v : AttrValue) : Equals v v
  | number {v w : AttrValue} {q : ℚ} (hv : v.number? = some q) (hw : w.number? = some q) :
    Equals v w

theorem Equals.symm {v w : AttrValue} (h : v.Equals w) : w.Equals v := by
  cases h with
  | refl => exact .refl v
  | number hv hw => exact .number hw hv

theorem Equals.trans {u v w : AttrValue} (h : u.Equals v) (h' : v.Equals w) : u.Equals w := by
  cases h with
  | refl => exact h'
  | number hu hv =>
    cases h' with
    | refl => exact .number hu hv
    | number hv' hw =>
      obtain rfl := Option.some.inj (hv.symm.trans hv')
      exact .number hu hw

/-- Numbers have in common how many units they are. -/
theorem identity_eq_number_iff {v : AttrValue} {k : Int} :
    v.identity = .number k ↔ v.number? = some ((k : ℚ) / Finite64.unitsPerOne) := by
  have hunits : ∀ {j : Int} {q : ℚ}, (j : ℚ) = q * Finite64.unitsPerOne →
      (Identity.number j = .number k ↔ some q = some ((k : ℚ) / Finite64.unitsPerOne)) := by
    intro j q hj
    rw [Identity.number.injEq, Option.some.injEq, eq_div_iff Finite64.cast_unitsPerOne_ne_zero,
      ← hj, Int.cast_inj]
  cases v with
  | text s => exact iff_of_false nofun nofun
  | integer n => exact hunits (by rw [Int.cast_mul, Int.cast_natCast])
  | float x => exact hunits x.cast_units
  | flag b =>
    cases b with
    | false => exact hunits (Int.cast_zero.trans (zero_mul _).symm)
    | true => exact hunits ((Int.cast_natCast _).trans (one_mul _).symm)
  | token t => exact iff_of_false nofun nofun

theorem exists_identity_of_number? {v : AttrValue} {q : ℚ} (h : v.number? = some q) :
    ∃ k, v.identity = .number k := by
  cases v with
  | text s => cases h
  | token t => cases h
  | _ => exact ⟨_, rfl⟩

theorem eq_of_identity_eq {v w : AttrValue} (h : v.identity = w.identity) (hv : v.number? = none) :
    v = w := by
  cases v with
  | text s =>
    cases w with
    | text s' => exact congrArg text (Identity.text.inj h)
    | _ => cases h
  | token t =>
    cases w with
    | token t' => exact congrArg token (Identity.token.inj h)
    | _ => cases h
  | _ => cases hv

theorem same_iff {v w : AttrValue} : v.same w = true ↔ v.Equals w := by
  rw [same, beq_iff_eq]
  constructor
  · intro h
    cases hv : v.number? with
    | none =>
      obtain rfl := eq_of_identity_eq h hv
      exact .refl v
    | some q =>
      obtain ⟨k, hk⟩ := exists_identity_of_number? hv
      have hw := identity_eq_number_iff.1 (h.symm.trans hk)
      exact .number hv (hw.trans ((identity_eq_number_iff.1 hk).symm.trans hv))
  · rintro (_ | ⟨hv, hw⟩)
    · rfl
    · obtain ⟨k, hk⟩ := exists_identity_of_number? hv
      have hq := hv.symm.trans (identity_eq_number_iff.1 hk)
      exact hk.trans (identity_eq_number_iff.2 (hw.trans hq)).symm

end AttrValue

/-! ### Tables -/

namespace AttrTable

variable {t u w : AttrTable}

/-- Two tables with equal values under the same keys, in whatever order. -/
structure SameContents (t u : AttrTable) : Prop where
  keys : ∀ name, name ∈ t.entries.keys ↔ name ∈ u.entries.keys
  values : ∀ name v v', (name, v) ∈ t.entries → (name, v') ∈ u.entries → v.Equals v'

theorem sameContents_refl (hn : t.entries.keys.Nodup) : t.SameContents t where
  keys _ := .rfl
  values name v v' hv hv' := by
    rw [Entries.mem_iff_get? hn] at hv hv'
    obtain rfl := Option.some.inj (hv.symm.trans hv')
    exact .refl v

theorem SameContents.symm (h : t.SameContents u) : u.SameContents t where
  keys name := (h.keys name).symm
  values name v v' hv hv' := (h.values name v' v hv' hv).symm

theorem SameContents.trans (h : t.SameContents u) (h' : u.SameContents w) : t.SameContents w where
  keys name := (h.keys name).trans (h'.keys name)
  values name v v'' hv hv'' := by
    have hname : name ∈ u.entries.keys := (h.keys name).1 (Entries.mem_keys_of_mem hv)
    obtain ⟨⟨name', v'⟩, hv', rfl⟩ := List.mem_map.1 hname
    exact (h.values _ v v' hv hv').trans (h'.values _ v' v'' hv' hv'')

/-- Tables of the same size are equal if each entry of one has its equal in the other: the other
has no room for more keys. -/
theorem same_iff (ht : t.entries.keys.Nodup) (hu : u.entries.keys.Nodup) :
    t.same u = true ↔ t.SameContents u := by
  have hentry : ∀ entry : String × AttrValue, ((u.get? entry.1).any entry.2.same) = true ↔
      ∃ v', (entry.1, v') ∈ u.entries ∧ entry.2.Equals v' := by
    intro entry
    simp only [Option.any_eq_true, AttrValue.same_iff, Entries.mem_iff_get? hu, get?]
  rw [same, Bool.and_eq_true, beq_iff_eq, List.all_eq_true]
  simp only [hentry]
  constructor
  · rintro ⟨hlength, hall⟩
    have hsubset : t.entries.keys ⊆ u.entries.keys := by
      intro name hname
      obtain ⟨entry, hmem, rfl⟩ := List.mem_map.1 hname
      obtain ⟨v', hv', -⟩ := hall entry hmem
      have hkey := Entries.mem_keys_of_mem hv'
      exact hkey
    have hperm : t.entries.keys.Perm u.entries.keys :=
      (ht.subperm hsubset).perm_of_length_le (by simp [Entries.keys, hlength])
    refine ⟨fun name => hperm.mem_iff, fun name v v' hv hv' => ?_⟩
    obtain ⟨v'', hv'', hequals⟩ := hall (name, v) hv
    rw [Entries.mem_iff_get? hu] at hv' hv''
    obtain rfl := Option.some.inj (hv'.symm.trans hv'')
    exact hequals
  · rintro ⟨hkeys, hvalues⟩
    have hperm : t.entries.keys.Perm u.entries.keys :=
      (List.perm_ext_iff_of_nodup ht hu).2 hkeys
    refine ⟨by simpa [Entries.keys] using hperm.length_eq, fun entry hmem => ?_⟩
    have hname := (hkeys entry.1).1 (Entries.mem_keys_of_mem hmem)
    obtain ⟨⟨name, v'⟩, hv', heq⟩ := List.mem_map.1 hname
    cases heq
    exact ⟨v', hv', hvalues _ _ _ hmem hv'⟩

end AttrTable

/-! ### Runs -/

/-- A fresh table, and the calls that are made on it, refused ones among them. -/
structure TableRun where
  schema : Schema
  owner : String
  calls : List TableCall

namespace TableRun

variable (r r' r'' : TableRun)

def fresh : AttrTable :=
  .empty r.schema r.owner

def table : AttrTable :=
  r.fresh.after r.calls

/-- What the calls leave under a key: what was entered under it last, unless it was removed then. -/
def leaves? (name : String) : Option AttrValue :=
  (Entries.last? name (r.fresh.log r.calls)).join

theorem entries_table : r.table.entries = Entries.changeAll [] (r.fresh.log r.calls) :=
  congrArg AttrTable.entries (AttrTable.after_eq r.fresh r.calls)

theorem nodup_keys_table : r.table.entries.keys.Nodup := by
  rw [entries_table]
  exact Entries.nodup_keys_log _

theorem mem_table_iff {name : String} {value : AttrValue} :
    (name, value) ∈ r.table.entries ↔ r.leaves? name = some value := by
  rw [Entries.mem_iff_get? r.nodup_keys_table, entries_table, Entries.get?_changeAll]
  rfl

theorem mem_keys_table_iff {name : String} :
    name ∈ r.table.entries.keys ↔ ∃ value, r.leaves? name = some value := by
  simp [Entries.keys, mem_table_iff]

theorem sameContents_of_leaves (h : ∀ name, r.leaves? name = r'.leaves? name) :
    r.table.SameContents r'.table where
  keys name := by rw [mem_keys_table_iff, mem_keys_table_iff, h name]
  values name v v' hv hv' := by
    rw [mem_table_iff] at hv hv'
    obtain rfl := Option.some.inj (hv.symm.trans ((h name).trans hv'))
    exact .refl v

/-- Whatever calls were made on whatever tables, equality of tables is an equivalence.  Two tables
are equal exactly if they hold the same keys with equal values: the same number, be it whole,
floating or a flag, or the very same text or word.  So runs that leave the same under every key make
equal tables, in whatever order they entered it. -/
theorem equality_by_contents :
    r.table.same r.table = true ∧
      r.table.same r'.table = r'.table.same r.table ∧
      (r.table.same r'.table = true → r'.table.same r''.table = true →
        r.table.same r''.table = true) ∧
      (r.table.same r'.table = true ↔ r.table.SameContents r'.table) ∧
      ((∀ name, r.leaves? name = r'.leaves? name) → r.table.same r'.table = true) := by
  have hsame : ∀ a b : TableRun, a.table.same b.table = true ↔ a.table.SameContents b.table :=
    fun a b => AttrTable.same_iff a.nodup_keys_table b.nodup_keys_table
  refine ⟨?_, ?_, ?_, hsame r r', ?_⟩
  · exact (hsame r r).2 (AttrTable.sameContents_refl r.nodup_keys_table)
  · rw [Bool.eq_iff_iff, hsame, hsame]
    exact ⟨.symm, .symm⟩
  · rw [hsame, hsame, hsame]
    exact .trans
  · exact fun h => (hsame r r').2 (sameContents_of_leaves r r' h)

/-- A node's width as a whole number. -/
def wholeWidth : TableRun :=
  ⟨Schema.node, "node",
    [.update (some [(.text "label", .text "a"), (.text "width", .integer 1)]) []]⟩

/-- The same width as a floating-point number, set first; what is no number is refused. -/
def floatWidth : TableRun :=
  ⟨Schema.node, "node",
    [.set (.text "width") (.float (.finite ⟨false, 2 ^ 52, -52, by decide⟩)),
      .set (.text "width") (.float .undefined), .set (.text "label") (.text "a")]⟩

/-- Under a schema of its own, the width is a flag. -/
def flagWidth : TableRun :=
  ⟨Schema.ofSpecs [⟨"label", .strings⟩, ⟨"width", .flags⟩], "box",
    [.set (.text "label") (.text "a"), .set (.text "width") (.flag true)]⟩

/-- A word of the vocabulary of edges, and the text under which it is written. -/
def edgeStyled : TableRun :=
  ⟨Schema.edge, "edge", [.set (.text "style") (.text "dashed")]⟩

def nodeStyled : TableRun :=
  ⟨Schema.node, "node", [.set (.text "style") (.text "dashed")]⟩

/-- One is equal to one in every form, but a word is not equal to its text. -/
theorem equality_by_contents_ones :
    wholeWidth.table.same flagWidth.table = true ∧
      edgeStyled.table.same nodeStyled.table = false := by
  constructor
  · have hwhole : wholeWidth.table.same floatWidth.table = true := by decide +kernel
    have hfloat : floatWidth.table.same flagWidth.table = true := by decide +kernel
    exact (equality_by_contents wholeWidth floatWidth flagWidth).2.2.1 hwhole hfloat
  · refine Bool.eq_false_iff.2 fun h => ?_
    have hcontents := (equality_by_contents edgeStyled nodeStyled nodeStyled).2.2.2.1.1 h
    have hword : ("style", .token ⟨"EdgeStyle", "DASHED", "dashed"⟩) ∈
        edgeStyled.table.entries := by
      decide +kernel
    have htext : ("style", .text "dashed") ∈ nodeStyled.table.entries := by decide +kernel
    have hequals := hcontents.values "style" _ _ hword htext
    rcases hequals with _ | ⟨hnumber, -⟩
    cases hnumber

end TableRun

end DotGraph
