import FirstRow.Proofs.Sql.Definition
import FirstRow.Proofs.Sql.Resolution

/-!
# Tables as they are declared

`TableDeclaration.ofClauses` puts together what the clauses of a definition declare: the columns with their types and
defaults, and the keys with the columns that they name. `Draft.Core.DeclaredAs` is what every clause preserves: the draft is what
has been declared so far, and a column stands for the row number exactly if the primary key is declared on it alone and
its type is `INTEGER`.
-/
namespace FirstRow.Sql

/-! ## Declarations -/

/-- A column as it is declared. -/
structure ColumnDeclaration where
  name : List UInt8
  type : List UInt8
  default : Option Expr
  /-- The expression of a computed column, and the word behind it. -/
  computed : Option (Term × Option (List UInt8))

/-- A primary key as it is declared: the column that each of its terms names, if it names one, and whether the key stands
on a column itself, with `DESC`. -/
structure KeyDeclaration where
  columns : List (Option Nat)
  descending : Bool
deriving DecidableEq

/-- A table as it is declared. -/
structure TableDeclaration where
  columns : List ColumnDeclaration
  keys : List KeyDeclaration
  withoutRowid : Bool
  strict : Bool

/-- The name that a term of a key is, whatever collation is around it. A string counts as a name. -/
def KeyTerm.name? (k : KeyTerm) : Option (List UInt8) :=
  match k.term.expr.deepAsName.withoutCollation with
  | .name n => some n.text
  | _ => none

namespace TableDeclaration

/-- Nothing is declared yet. -/
def empty : TableDeclaration := ⟨[], [], false, false⟩

/-- The column of a name, in any letter case. -/
def named? (D : TableDeclaration) (name : List UInt8) : Option Nat :=
  D.columns.findIdx? fun c => Text.Octet.same c.name name

/-- The number of the last column. -/
def last (D : TableDeclaration) : Nat :=
  D.columns.length - 1

/-- Declare something of the last column. -/
def modifyLast (D : TableDeclaration) (f : ColumnDeclaration → ColumnDeclaration) : TableDeclaration :=
  { D with columns := D.columns.modify D.last f }

/-- Declare what a clause says. Clauses that neither add a column or a key nor say where values come from do not
matter here. -/
def extend (D : TableDeclaration) : Clause → TableDeclaration
  | .column name type => { D with columns := D.columns ++ [⟨name, type, none, none⟩] }
  | .default t => D.modifyLast fun c => { c with default := some t.expr }
  | .generated t storage => D.modifyLast fun c => { c with computed := some (t, storage) }
  | .primaryKey descending _ _ => { D with keys := D.keys ++ [⟨[some D.last], descending⟩] }
  | .tablePrimaryKey terms _ _ =>
    { D with keys := D.keys ++ [⟨terms.map fun k => k.name?.bind D.named?, false⟩] }
  | .withoutRowid => { D with withoutRowid := true }
  | .strict => { D with strict := true }
  | _ => D

/-- What clauses declare. -/
def ofClauses (ks : List Clause) : TableDeclaration :=
  ks.foldl extend empty

theorem ofClauses_concat (ks : List Clause) (k : Clause) : ofClauses (ks ++ [k]) = (ofClauses ks).extend k := by
  simp [ofClauses]

/-- There is one primary key, and it is declared on a column alone: on the column itself without `DESC`, or on the
table. -/
def KeyOn (D : TableDeclaration) (i : Nat) : Prop :=
  D.keys = [⟨[some i], false⟩]

end TableDeclaration

/-! ## Drafts -/

/-- A column is what is declared of it so far. -/
structure Column.DeclaredAs (column : Column) (c : ColumnDeclaration) : Prop where
  name : column.name = c.name
  type : column.type = .ofText c.type
  plain : c.computed = none → column.generation = none ∧ column.value = c.default
  computed : ∀ t storage, c.computed = some (t, storage) →
    column.generation = Draft.generationOf? storage ∧ column.generation.isSome ∧
      column.value = some (Draft.computing t).expr

namespace Draft

/-- What a draft is apart from its indexes and its checks. -/
structure Core where
  columns : List Column
  rowidColumn : Option Nat
  withoutRowid : Bool
  hasKey : Bool
  strict : Bool
  computed : List (Nat × Term)

def core (d : Draft) : Core :=
  ⟨d.table.columns, d.table.rowidColumn, d.table.withoutRowid, d.hasKey, d.strict, d.computed⟩

@[simp] theorem core_addIndex (d : Draft) (key : List IndexColumn) (conflict : Option Conflict) (origin : IndexOrigin) :
    (d.addIndex key conflict origin).1.core = d.core := by
  unfold addIndex
  split <;> rfl

@[simp] theorem core_addKey (d : Draft) (terms : List KeyTerm) (conflict : Option Conflict) (origin : IndexOrigin) :
    (d.addKey terms conflict origin).1.core = d.core := by
  unfold addKey
  split
  · rfl
  · split
    · rfl
    · split
      · rfl
      · exact d.core_addIndex _ _ _

/-- A draft is what is declared so far. -/
structure Core.DeclaredAs (d : Core) (D : TableDeclaration) : Prop where
  length_eq : d.columns.length = D.columns.length
  column : ∀ (i : Nat) c (column : Column), D.columns[i]? = some c → d.columns[i]? = some column → column.DeclaredAs c
  noKey : d.hasKey = false → D.keys = []
  key_lt : ∀ i, D.KeyOn i → i < D.columns.length
  rowidColumn : ∀ i, d.rowidColumn = some i ↔
    D.KeyOn i ∧ ∃ column, d.columns[i]? = some column ∧ column.type.standard = some .integer
  withoutRowid : d.withoutRowid = D.withoutRowid
  strict : d.strict = D.strict
  computed : ∀ p, p ∈ d.computed ↔ ∃ c t storage, D.columns[p.1]? = some c ∧ c.computed = some (t, storage) ∧
    p.2 = computing t

variable {D : TableDeclaration} {d : Core}

theorem Core.DeclaredAs.start (name : List UInt8) (root : Nat) (keepsChecks : Bool) (taken : List (List UInt8)) :
    (start name root keepsChecks taken).core.DeclaredAs .empty where
  length_eq := rfl
  column i c column h := by cases h
  noKey _ := rfl
  key_lt i h := by cases h
  rowidColumn i := by simp [core, Draft.start, TableDeclaration.KeyOn, TableDeclaration.empty]
  withoutRowid := rfl
  strict := rfl
  computed p := by simp [core, Draft.start, TableDeclaration.empty]

theorem getElem?_concat_eq_some {α : Type} {l : List α} {a b : α} {i : Nat} (h : (l ++ [a])[i]? = some b) :
    l[i]? = some b ∨ i = l.length ∧ b = a := by
  rw [List.getElem?_append] at h
  split at h
  · exact .inl h
  · rw [List.getElem?_singleton] at h
    split at h
    · cases h
      exact .inr ⟨by omega, rfl⟩
    · cases h

/-- Which column is an `INTEGER` does not change with what else is known of columns. -/
theorem exists_integer_modify {columns : List Column} {i j : Nat} {g : Column → Column}
    (hg : ∀ column, (g column).type = column.type) :
    (∃ column, (columns.modify i g)[j]? = some column ∧ column.type.standard = some .integer) ↔
      ∃ column, columns[j]? = some column ∧ column.type.standard = some .integer := by
  simp only [List.getElem?_modify, Option.map_eq_map, Option.map_eq_some_iff]
  constructor
  · rintro ⟨_, ⟨column, hcolumn, rfl⟩, hinteger⟩
    refine ⟨column, hcolumn, ?_⟩
    split at hinteger
    · rwa [hg] at hinteger
    · exact hinteger
  · rintro ⟨column, hcolumn, hinteger⟩
    refine ⟨_, ⟨column, hcolumn, rfl⟩, ?_⟩
    split
    · rwa [hg]
    · exact hinteger

namespace Core.DeclaredAs

/-- Every declared column is there. -/
theorem exists_column (h : d.DeclaredAs D) {i : Nat} {c : ColumnDeclaration} (hc : D.columns[i]? = some c) :
    ∃ column, d.columns[i]? = some column ∧ column.DeclaredAs c := by
  obtain ⟨hlt, -⟩ := List.getElem?_eq_some_iff.mp hc
  have hcolumn := List.getElem?_eq_getElem (show i < d.columns.length by rw [h.length_eq]; exact hlt)
  exact ⟨_, hcolumn, h.column i c _ hc hcolumn⟩

/-- Both know the same names. -/
theorem named?_eq (h : d.DeclaredAs D) (name : List UInt8) :
    d.columns.findIdx? (fun c => Text.Octet.same c.name name) = D.named? name := by
  have hnames : d.columns.map Column.name = D.columns.map ColumnDeclaration.name := by
    refine List.ext_getElem (by simp [h.length_eq]) fun i hi hi' => ?_
    rw [List.length_map] at hi hi'
    rw [List.getElem_map, List.getElem_map]
    exact (h.column i _ _ (List.getElem?_eq_getElem hi') (List.getElem?_eq_getElem hi)).name
  have hleft := List.findIdx?_map (f := Column.name) (p := fun n => Text.Octet.same n name) (l := d.columns)
  have hright := List.findIdx?_map (f := ColumnDeclaration.name) (p := fun n => Text.Octet.same n name) (l := D.columns)
  rw [hnames] at hleft
  exact hleft.symm.trans hright

/-- The last column changes as what is declared of it does. -/
theorem modifyLast (h : d.DeclaredAs D) {f : ColumnDeclaration → ColumnDeclaration} {g : Column → Column}
    {computed : List (Nat × Term)} (hg : ∀ column, (g column).type = column.type)
    (hfg : ∀ c column, d.columns[D.last]? = some column → column.DeclaredAs c → (g column).DeclaredAs (f c))
    (hcomputed : ∀ p, p ∈ computed ↔ ∃ c t storage, (D.columns.modify D.last f)[p.1]? = some c ∧
      c.computed = some (t, storage) ∧ p.2 = computing t) :
    Core.DeclaredAs { d with columns := d.columns.modify D.last g, computed } (D.modifyLast f) where
  length_eq := by simpa [TableDeclaration.modifyLast] using h.length_eq
  column i c column hc hcolumn := by
    simp only [TableDeclaration.modifyLast, List.getElem?_modify, Option.map_eq_map, Option.map_eq_some_iff]
      at hc hcolumn
    obtain ⟨c₀, hc₀, rfl⟩ := hc
    obtain ⟨column₀, hcolumn₀, rfl⟩ := hcolumn
    have hdeclared := h.column i c₀ column₀ hc₀ hcolumn₀
    by_cases hi : D.last = i
    · subst hi
      simp only [if_true]
      exact hfg c₀ column₀ hcolumn₀ hdeclared
    · simp only [if_neg hi]
      exact hdeclared
  noKey := h.noKey
  key_lt i hi := by simpa [TableDeclaration.modifyLast] using h.key_lt i hi
  rowidColumn i := (h.rowidColumn i).trans (and_congr_right fun _ => (exists_integer_modify hg).symm)
  withoutRowid := h.withoutRowid
  strict := h.strict
  computed := hcomputed

/-- What is not declared here can change in any column. -/
theorem modify (h : d.DeclaredAs D) (i : Nat) {g : Column → Column} (hname : ∀ column, (g column).name = column.name)
    (htype : ∀ column, (g column).type = column.type) (hvalue : ∀ column, (g column).value = column.value)
    (hgeneration : ∀ column, (g column).generation = column.generation) :
    Core.DeclaredAs { d with columns := d.columns.modify i g } D where
  length_eq := by simpa using h.length_eq
  column j c column hc hcolumn := by
    simp only [List.getElem?_modify, Option.map_eq_map, Option.map_eq_some_iff] at hcolumn
    obtain ⟨column₀, hcolumn₀, rfl⟩ := hcolumn
    have hdeclared := h.column j c column₀ hc hcolumn₀
    split
    · exact ⟨by rw [hname, hdeclared.name], by rw [htype, hdeclared.type], by rw [hgeneration, hvalue]; exact hdeclared.plain,
        by rw [hgeneration, hvalue]; exact hdeclared.computed⟩
    · exact hdeclared
  noKey := h.noKey
  key_lt := h.key_lt
  rowidColumn j := (h.rowidColumn j).trans (and_congr_right fun _ => (exists_integer_modify htype).symm)
  withoutRowid := h.withoutRowid
  strict := h.strict
  computed := h.computed

/-- A column is added behind the others. -/
theorem addColumn (h : d.DeclaredAs D) (name type : List UInt8) :
    Core.DeclaredAs { d with columns := d.columns ++ [⟨name, .ofText type, none, none, none, false, false⟩] }
      { D with columns := D.columns ++ [⟨name, type, none, none⟩] } where
  length_eq := by simpa using h.length_eq
  column i c column hc hcolumn := by
    rcases getElem?_concat_eq_some hc with hc | ⟨rfl, rfl⟩
    · rw [List.getElem?_append_left (by rw [h.length_eq]; exact (List.getElem?_eq_some_iff.mp hc).1)] at hcolumn
      exact h.column i c column hc hcolumn
    · rw [← h.length_eq, List.getElem?_concat_length, Option.some.injEq] at hcolumn
      subst hcolumn
      exact ⟨rfl, rfl, fun _ => ⟨rfl, rfl⟩, nofun⟩
  noKey := h.noKey
  key_lt i hi := by
    have := h.key_lt i hi
    simp only [List.length_append, List.length_singleton]
    omega
  rowidColumn i := by
    refine (h.rowidColumn i).trans (and_congr_right fun hi => ?_)
    rw [List.getElem?_append_left (by rw [h.length_eq]; exact h.key_lt i hi)]
  withoutRowid := h.withoutRowid
  strict := h.strict
  computed p := by
    refine (h.computed p).trans ⟨?_, ?_⟩
    · rintro ⟨c, t, storage, hc, hrest⟩
      exact ⟨c, t, storage, by rwa [List.getElem?_append_left (List.getElem?_eq_some_iff.mp hc).1], hrest⟩
    · rintro ⟨c, t, storage, hc, hcomputed, hterm⟩
      rcases getElem?_concat_eq_some hc with hc | ⟨-, rfl⟩
      · exact ⟨c, t, storage, hc, hcomputed, hterm⟩
      · cases hcomputed

/-- The primary key is declared, and the draft says which column it makes the row number. -/
theorem addKey (h : d.DeclaredAs D) (hkeys : D.keys = []) (hkey : d.hasKey = true) {key : KeyDeclaration}
    {rowidColumn : Option Nat} (hlt : ∀ i, key = ⟨[some i], false⟩ → i < D.columns.length)
    (hrowid : ∀ i, rowidColumn = some i ↔
      key = ⟨[some i], false⟩ ∧ ∃ column, d.columns[i]? = some column ∧ column.type.standard = some .integer) :
    Core.DeclaredAs { d with rowidColumn } { D with keys := D.keys ++ [key] } :=
  { h with
    noKey := fun hnone => by
      rw [hkey] at hnone
      cases hnone
    key_lt := fun i hi => by
      rw [TableDeclaration.KeyOn, hkeys, List.nil_append, List.singleton_inj] at hi
      exact hlt i hi
    rowidColumn := fun i => by
      rw [TableDeclaration.KeyOn, hkeys, List.nil_append, List.singleton_inj]
      exact hrowid i }

/-- As long as no key is declared, no column is the row number. -/
theorem rowidColumn_eq_none (h : d.DeclaredAs D) (hkeys : D.keys = []) : d.rowidColumn = none := by
  cases hrowid : d.rowidColumn with
  | none => rfl
  | some i =>
    have hkeyOn := ((h.rowidColumn i).mp hrowid).1
    rw [TableDeclaration.KeyOn, hkeys] at hkeyOn
    cases hkeyOn

/-- The primary key is declared, and it makes no column the row number. -/
theorem addOtherKey (h : d.DeclaredAs D) (hkeys : D.keys = []) (hkey : d.hasKey = true) {key : KeyDeclaration}
    (hlt : ∀ i, key = ⟨[some i], false⟩ → i < D.columns.length)
    (hother : ∀ i, key = ⟨[some i], false⟩ →
      ¬∃ column, d.columns[i]? = some column ∧ column.type.standard = some .integer) :
    d.DeclaredAs { D with keys := D.keys ++ [key] } := by
  have hnone := h.rowidColumn_eq_none hkeys
  rw [show d = { d with rowidColumn := none } by rw [← hnone]]
  exact h.addKey hkeys hkey hlt fun i => ⟨nofun, fun hi => absurd hi.2 (hother i hi.1)⟩

/-- That a key is declared is known first. -/
theorem keyed (h : d.DeclaredAs D) : Core.DeclaredAs { d with hasKey := true } D :=
  { h with noKey := fun hnone => by cases hnone }

end Core.DeclaredAs

/-! ## Clauses -/

variable {d d' : Draft}

theorem isRowid_iff {i : Nat} :
    d.isRowid i = true ↔ ∃ column, d.core.columns[i]? = some column ∧ column.type.standard = some .integer := by
  unfold isRowid
  cases h : d.table.columns[i]? <;> simp [core, h]

theorem core_addColumn {name type : List UInt8} (h : d.addColumn name type = (d', none)) :
    d'.core =
      { d.core with columns := d.core.columns ++ [⟨name, .ofText type, none, none, none, false, false⟩] } := by
  unfold addColumn at h
  simp only at h
  split at h
  · cases h
  · split at h
    · cases h
    · cases h
      rfl

theorem core_setDefault {e : Expr} (h : d.setDefault e = (d', none)) :
    (∀ column, d.core.columns[d.last]? = some column → column.generation = none) ∧
      d'.core = { d.core with columns := d.core.columns.modify d.last fun c => { c with value := some e } } := by
  unfold setDefault at h
  simp only at h
  split at h
  · cases h
  · split at h
    · cases h
    · next hplain =>
      cases h
      refine ⟨fun column hcolumn => ?_, rfl⟩
      rw [List.getLast?_eq_getElem?] at hplain
      rw [show d.table.columns[d.table.columns.length - 1]? = some column from hcolumn] at hplain
      simpa using hplain

theorem core_setGenerated {t : Term} {storage : Option (List UInt8)} (h : d.setGenerated t storage = (d', none)) :
    (∀ column, d.core.columns[d.last]? = some column → column.value = none) ∧
      ∃ g, generationOf? storage = some g ∧
        d'.core = { d.core with
          computed := d.core.computed ++ [(d.last, computing t)]
          columns := d.core.columns.modify d.last fun c =>
            { c with value := some (computing t).expr, generation := some g } } := by
  unfold setGenerated at h
  simp only at h
  split at h
  · next g hg =>
    split at h
    · cases h
    · next hplain =>
      split at h
      · cases h
      · cases h
        refine ⟨fun column hcolumn => ?_, g, hg, rfl⟩
        rw [List.getLast?_eq_getElem?] at hplain
        rw [show d.table.columns[d.table.columns.length - 1]? = some column from hcolumn] at hplain
        simpa using hplain
  · cases h

/-- A column of the primary key is marked, which changes nothing that is declared. -/
theorem Core.DeclaredAs.markKey (h : d.core.DeclaredAs D) (i : Nat) : (d.markKey i).1.core.DeclaredAs D :=
  h.modify i (fun _ => rfl) (fun _ => rfl) (fun _ => rfl) fun _ => rfl

theorem Core.DeclaredAs.markKeys (h : d.core.DeclaredAs D) (columns : List Nat) :
    (d.markKeys columns).1.core.DeclaredAs D ∧ (d.markKeys columns).1.hasKey = d.hasKey := by
  unfold Draft.markKeys
  generalize (none : Option String) = fault
  induction columns generalizing d fault with
  | nil => exact ⟨h, rfl⟩
  | cons i rest ih => exact ih (h.markKey i) _

/-- A key on the last column makes it the row number if it is an `INTEGER` and the key is not written with `DESC`. -/
theorem Core.DeclaredAs.columnPrimaryKey (h : d.core.DeclaredAs D) (hne : D.columns ≠ []) {descending counts : Bool}
    {conflict : Option Conflict} (happly : d.columnPrimaryKey descending conflict counts = (d', none)) :
    d'.core.DeclaredAs { D with keys := D.keys ++ [⟨[some D.last], descending⟩] } := by
  unfold Draft.columnPrimaryKey at happly
  split at happly
  · cases happly
  · next hkey =>
    have hkeys := h.noKey (show d.hasKey = false by simpa using hkey)
    have hpos : 0 < D.columns.length := List.length_pos_iff.mpr hne
    have hlt (i : Nat) (hi : (⟨[some D.last], descending⟩ : KeyDeclaration) = ⟨[some i], false⟩) :
        i < D.columns.length := by
      cases hi
      unfold TableDeclaration.last
      omega
    have hmarked := h.keyed.markKey (d := { d with hasKey := true }) d.last
    have hmarkedKey : (({ d with hasKey := true } : Draft).markKey d.last).1.hasKey = true := rfl
    simp only at happly
    generalize ({ d with hasKey := true } : Draft).markKey d.last = step at happly hmarked hmarkedKey
    obtain ⟨marked, fault⟩ := step
    have hlast : marked.last = D.last := congrArg (· - 1) hmarked.length_eq
    simp only [hlast] at happly hmarked hmarkedKey
    split at happly
    · next hrowid =>
      simp only [Bool.and_eq_true, Bool.not_eq_true'] at hrowid
      cases happly
      refine hmarked.addKey hkeys hmarkedKey hlt fun i => ⟨fun hi => ?_, fun hi => ?_⟩
      · cases hi
        exact ⟨by rw [hrowid.2], isRowid_iff.mp hrowid.1⟩
      · cases hi.1
        rfl
    · next hrowid =>
      split at happly
      · cases happly
      · split at happly
        · cases happly
        · obtain rfl := congrArg Prod.fst happly
          rw [core_addIndex]
          refine hmarked.addOtherKey hkeys hmarkedKey hlt fun i hi hinteger => ?_
          cases hi
          rw [isRowid_iff.mpr hinteger] at hrowid
          simp at hrowid

/-- A term that names a column is a name. -/
theorem namedColumns_eq (h : d.core.DeclaredAs D) (terms : List KeyTerm) :
    namedColumns d.table terms = terms.filterMap fun k => k.name?.bind D.named? := by
  unfold namedColumns
  congr 1
  funext k
  unfold KeyTerm.name?
  cases k.term.expr.deepAsName.withoutCollation with
  | name n => exact h.named?_eq n.text
  | _ => rfl

/-- A key on the table makes a column the row number if it names that column alone, and only once, and the column is an
`INTEGER`. -/
theorem Core.DeclaredAs.tablePrimaryKey (h : d.core.DeclaredAs D) {terms : List KeyTerm} {counts : Bool}
    {conflict : Option Conflict} (happly : d.tablePrimaryKey terms conflict counts = (d', none)) :
    d'.core.DeclaredAs { D with keys := D.keys ++ [⟨terms.map fun k => k.name?.bind D.named?, false⟩] } := by
  unfold Draft.tablePrimaryKey at happly
  split at happly
  · cases happly
  · next hkey =>
    have hkeys := h.noKey (show d.hasKey = false by simpa using hkey)
    have hlt (i : Nat) (hi : (⟨terms.map fun k => k.name?.bind D.named?, false⟩ : KeyDeclaration) = ⟨[some i], false⟩) :
        i < D.columns.length := by
      obtain ⟨k, rfl, hk⟩ := List.map_eq_singleton_iff.mp (congrArg KeyDeclaration.columns hi)
      obtain ⟨name, -, hname⟩ := Option.bind_eq_some_iff.mp hk
      exact (List.findIdx?_eq_some_iff_getElem.mp hname).1
    obtain ⟨hmarked, hmarkedKey⟩ := Core.DeclaredAs.markKeys (d := { d with hasKey := true }) h.keyed (namedColumns d.table terms)
    simp only [namedColumns_eq h] at happly hmarked hmarkedKey
    generalize ({ d with hasKey := true } : Draft).markKeys _ = step at happly hmarked hmarkedKey
    obtain ⟨marked, fault⟩ := step
    simp only at happly hmarked hmarkedKey
    split at happly
    · next i hsingle =>
      split at hsingle
      · next k j hnamed =>
        have hk : k.name?.bind D.named? = some j := by
          cases hbind : k.name?.bind D.named? <;> simp_all
        split at hsingle
        · next hrowid =>
          cases hsingle
          obtain rfl := congrArg Prod.fst happly
          refine hmarked.addKey hkeys hmarkedKey hlt fun i => ⟨fun hi => ?_, fun hi => ?_⟩
          · cases hi
            exact ⟨by rw [List.map_singleton, hk], isRowid_iff.mp hrowid⟩
          · rw [List.map_singleton, hk] at hi
            cases hi.1
            rfl
        · cases hsingle
      · cases hsingle
    · next hsingle =>
      split at happly
      · cases happly
      · split at happly
        · cases happly
        · obtain rfl := congrArg Prod.fst happly
          rw [core_addKey]
          refine hmarked.addOtherKey hkeys hmarkedKey hlt fun i hi hinteger => ?_
          obtain ⟨k, rfl, hk⟩ := List.map_eq_singleton_iff.mp (congrArg KeyDeclaration.columns hi)
          simp only [List.filterMap_cons, hk, List.filterMap_nil, isRowid_iff.mpr hinteger, if_true] at hsingle
          cases hsingle

/-- A default is declared of a column that is not computed. -/
theorem Core.DeclaredAs.setDefault (h : d.core.DeclaredAs D) {e : Expr} (happly : d.setDefault e = (d', none)) :
    d'.core.DeclaredAs (D.modifyLast fun c => { c with default := some e }) := by
  obtain ⟨hplain, hcore⟩ := core_setDefault happly
  rw [show d.last = D.last from congrArg (· - 1) h.length_eq] at hplain hcore
  rw [hcore]
  refine h.modifyLast (fun _ => rfl) (fun c column hcolumn hdeclared => ?_) fun p => (h.computed p).trans ?_
  · have hgeneration := hplain column hcolumn
    refine ⟨hdeclared.name, hdeclared.type, fun _ => ⟨hgeneration, rfl⟩, fun t storage hcomputed => ?_⟩
    obtain ⟨-, hsome, -⟩ := hdeclared.computed t storage hcomputed
    rw [hgeneration] at hsome
    cases hsome
  · simp only [List.getElem?_modify, Option.map_eq_map, Option.map_eq_some_iff]
    constructor
    · rintro ⟨c, t, storage, hc, hcomputed, hterm⟩
      refine ⟨_, t, storage, ⟨c, hc, rfl⟩, ?_, hterm⟩
      split <;> exact hcomputed
    · rintro ⟨_, t, storage, ⟨c, hc, rfl⟩, hcomputed, hterm⟩
      refine ⟨c, t, storage, hc, ?_, hterm⟩
      split at hcomputed <;> exact hcomputed

/-- A column is computed that has no default. -/
theorem Core.DeclaredAs.setGenerated (h : d.core.DeclaredAs D) (hne : D.columns ≠ []) {t : Term}
    {storage : Option (List UInt8)} (happly : d.setGenerated t storage = (d', none)) :
    d'.core.DeclaredAs (D.modifyLast fun c => { c with computed := some (t, storage) }) := by
  obtain ⟨hplain, g, hg, hcore⟩ := core_setGenerated happly
  rw [show d.last = D.last from congrArg (· - 1) h.length_eq] at hplain hcore
  rw [hcore]
  have hlt : D.last < D.columns.length := by
    have := List.length_pos_iff.mpr hne
    unfold TableDeclaration.last
    omega
  refine h.modifyLast (fun _ => rfl) (fun c column hcolumn hdeclared => ?_) fun p => ?_
  · refine ⟨hdeclared.name, hdeclared.type, nofun, fun t' s hcomputed => ?_⟩
    cases hcomputed
    exact ⟨hg.symm, rfl, rfl⟩
  · -- the last column was not computed before
    have hfresh : ∀ c, D.columns[D.last]? = some c → c.computed = none := by
      intro c hc
      obtain ⟨column, hcolumn, hdeclared⟩ := h.exists_column hc
      cases hcomputed : c.computed with
      | none => rfl
      | some p =>
        obtain ⟨-, -, hvalue⟩ := hdeclared.computed p.1 p.2 hcomputed
        rw [hplain column hcolumn] at hvalue
        cases hvalue
    rw [List.mem_append, h.computed, List.mem_singleton]
    simp only [List.getElem?_modify, Option.map_eq_map, Option.map_eq_some_iff]
    constructor
    · rintro (⟨c, t', s, hc, hcomputed, hterm⟩ | rfl)
      · refine ⟨_, t', s, ⟨c, hc, rfl⟩, ?_, hterm⟩
        rw [if_neg (fun hi => ?_)]
        · exact hcomputed
        · rw [← hi] at hc
          rw [hfresh c hc] at hcomputed
          cases hcomputed
      · refine ⟨_, t, storage, ⟨_, List.getElem?_eq_getElem hlt, rfl⟩, ?_, rfl⟩
        rw [if_pos rfl]
    · rintro ⟨_, t', s, ⟨c, hc, rfl⟩, hcomputed, hterm⟩
      split at hcomputed
      · next hi =>
        cases hcomputed
        exact .inr (Prod.ext hi.symm hterm)
      · exact .inl ⟨c, t', s, hc, hcomputed, hterm⟩

/-- The draft behind a clause is what is declared then. Only a column can come first. -/
theorem Core.DeclaredAs.extend (h : d.core.DeclaredAs D) {k : Clause} (hk : k ≠ .finish)
    (hfirst : D.columns ≠ [] ∨ ∃ name type, k = .column name type) (happly : d.apply none k = (d', none)) :
    d'.core.DeclaredAs (D.extend k) := by
  have hne (hother : ∀ name type, k ≠ .column name type) : D.columns ≠ [] :=
    hfirst.resolve_right fun ⟨name, type, hcolumn⟩ => hother name type hcolumn
  cases k with
  | inert =>
    cases happly
    exact h
  | column name type =>
    rw [core_addColumn happly]
    exact h.addColumn name type
  | notNull =>
    cases happly
    exact h.modify _ (fun _ => rfl) (fun _ => rfl) (fun _ => rfl) fun _ => rfl
  | default t => exact h.setDefault happly
  | primaryKey descending conflict counts => exact h.columnPrimaryKey (hne nofun) happly
  | unique conflict =>
    obtain rfl := congrArg Prod.fst happly
    exact (d.core_addIndex _ _ _).symm ▸ h
  | check t =>
    obtain rfl := congrArg Prod.fst happly
    unfold Draft.apply
    simp only
    split <;> exact h
  | collate collation =>
    cases happly
    exact h.modify _ (fun _ => rfl) (fun _ => rfl) (fun _ => rfl) fun _ => rfl
  | generated t storage => exact h.setGenerated (hne nofun) happly
  | references table columns =>
    simp only [apply, reference] at happly
    split at happly <;> cases happly <;> exact h
  | tablePrimaryKey terms conflict counts => exact h.tablePrimaryKey happly
  | tableUnique terms conflict =>
    obtain rfl := congrArg Prod.fst happly
    exact (d.core_addKey _ _ _).symm ▸ h
  | foreignKey own columns =>
    simp only [apply, foreignKey] at happly
    split at happly
    · cases happly
    · split at happly <;> cases happly
      exact h
  | withoutRowid =>
    cases happly
    exact { h with withoutRowid := rfl }
  | strict =>
    cases happly
    exact { h with strict := rfl }
  | unknownOption text => cases happly
  | finish => exact absurd rfl hk
  | finishQuery => cases happly

end Draft
end FirstRow.Sql
