import FirstRow.Proofs.Decimal.Digits
import FirstRow.Proofs.Sql.Declared
import FirstRow.Proofs.Sql.Draft
import FirstRow.Proofs.Text.Utf8
import Mathlib.Data.List.Induction
import Mathlib.Data.List.Nodup

/-!
# Keys of tables whose rows have no number

Such rows are stored in the index of the primary key: the columns of the key first, in key order, and behind them the
other columns in declared order. `Draft.Keyed` is what every clause preserves: an index of the primary key has the
columns that the key is declared on, whether it was made for the key or was there already for a constraint on the same
columns. What the last step makes of it is `Table.KeyedAs`.
-/
namespace FirstRow.Sql

/-! ## The order in which rows are stored -/

namespace Key

variable {columns : List Column} {key : List IndexColumn} {ks : List Nat}

/-- The columns that are behind a key. -/
def restOf (columns : List Column) (ks : List Nat) : List Nat :=
  (List.range columns.length).filter fun i => (columns[i]?.map Column.isStored).getD false && !ks.contains i

/-- The columns of the key come first and then the others in declared order. -/
theorem storageOrder_columns (h : key.map IndexColumn.column = ks.map some) :
    (storageOrder columns key).map IndexColumn.column = (ks ++ restOf columns ks).map some := by
  have hany (i : Nat) : key.any (·.column = some i) = ks.contains i := by
    have hmap : (key.map IndexColumn.column).any (· = some i) = (ks.map some).any (· = some i) := by rw [h]
    rw [List.any_map, List.any_map] at hmap
    refine hmap.trans ?_
    rw [Bool.eq_iff_iff]
    simp
  rw [storageOrder, List.map_append, List.map_append, h, others, List.map_map, restOf]
  simp only [hany]
  rfl

/-- Where all columns are stored, those behind a key are the ones that it does not name. -/
theorem restOf_eq (h : ∀ c ∈ columns, c.isStored = true) (ks : List Nat) :
    restOf columns ks = (List.range columns.length).filter (· ∉ ks) := by
  refine List.filter_congr fun i hi => ?_
  rw [List.mem_range] at hi
  rw [List.getElem?_eq_getElem hi, Option.map_some, Option.getD_some, h _ (List.getElem_mem hi)]
  simp

/-- A key on distinct columns with the others behind it is a permutation of all columns. -/
theorem perm_range {n : Nat} (hnodup : ks.Nodup) (hlt : ∀ k ∈ ks, k < n) :
    (ks ++ (List.range n).filter (· ∉ ks)).Perm (List.range n) := by
  refine (List.perm_ext_iff_of_nodup ?_ List.nodup_range).mpr fun i => ?_
  · refine List.nodup_append.mpr ⟨hnodup, List.nodup_range.filter _, fun i hi j hj hsame => ?_⟩
    simp [← hsame, hi] at hj
  · simp only [List.mem_append, List.mem_filter, List.mem_range, decide_eq_true_eq]
    by_cases hi : i ∈ ks
    · simp [hi, hlt i hi]
    · simp [hi]

/-- A key on distinct columns has nothing to drop. -/
theorem distinct_eq (h : (key.map IndexColumn.column).Nodup) : distinct key = key := by
  have hfold (seen : List IndexColumn) (hnodup : ((seen ++ key).map IndexColumn.column).Nodup) :
      key.foldl (fun seen c => if seen.any (·.same c) then seen else seen ++ [c]) seen = seen ++ key := by
    clear h
    induction key generalizing seen with
    | nil => simp
    | cons c rest ih =>
      have hnew : seen.any (·.same c) = false := by
        rw [List.any_eq_false]
        intro other hother hsame
        simp only [IndexColumn.same, Bool.and_eq_true, decide_eq_true_eq] at hsame
        rw [List.map_append, List.map_cons, List.nodup_append] at hnodup
        exact hnodup.2.2 _ (List.mem_map_of_mem hother) _ List.mem_cons_self hsame.1
      rw [List.foldl_cons, hnew, if_neg (by simp), ih _ (by simpa using hnodup), List.append_assoc, List.singleton_append]
  exact hfold [] h

end Key

/-! ## Indexes that come with a table -/

/-- An index of a constraint: it has the columns of the constraint and no others yet. -/
structure Index.IsConstraint (ix : Index) : Prop where
  isPartial : ix.isPartial = false
  columns : ix.columns.map IndexColumn.column = ix.key.map IndexColumn.column
  held : ix.held = ix.key.filterMap IndexColumn.column

/-- The name of the index of a constraint by its number. -/
def Index.automaticName (table : List UInt8) (n : Nat) : List UInt8 :=
  Text.Utf8.ofString "sqlite_autoindex_" ++ table ++ 0x5F :: Text.Utf8.encode (Decimal.digits n)

theorem Index.automaticName_inj {table : List UInt8} {m n : Nat} (h : automaticName table m = automaticName table n) :
    m = n := by
  have hdigits := Text.Utf8.encode_injective (List.cons.inj (List.append_cancel_left h)).2
  rw [← Decimal.value_digits m, hdigits, Decimal.value_digits]

/-- The columns of a key are those that the one primary key is declared on, if every term of it names a column. -/
def TableDeclaration.IsKey (D : TableDeclaration) (key : List IndexColumn) : Prop :=
  ∃ k, D.keys = [k] ∧ ∀ ks : List Nat, k.columns = ks.map some → key.map IndexColumn.column = ks.map some

theorem TableDeclaration.IsKey.congr {D : TableDeclaration} {key key' : List IndexColumn} (h : D.IsKey key)
    (hsame : key'.map IndexColumn.column = key.map IndexColumn.column) : D.IsKey key' := by
  obtain ⟨k, hk, hcolumns⟩ := h
  exact ⟨k, hk, fun ks hks => hsame.trans (hcolumns ks hks)⟩

/-! ## Columns that keys name -/

namespace TableDeclaration

variable {D : TableDeclaration} {k : Clause}

/-- Keys name columns that are declared. -/
def NamesColumns (D : TableDeclaration) : Prop :=
  ∀ k ∈ D.keys, ∀ i, some i ∈ k.columns → i < D.columns.length

/-- What a clause declares keeps it so. -/
theorem NamesColumns.extend (h : D.NamesColumns) (hk : D.columns ≠ [] ∨ ∃ name type, k = .column name type) :
    (D.extend k).NamesColumns := by
  have hmodify (f : ColumnDeclaration → ColumnDeclaration) : (D.modifyLast f).NamesColumns := by
    intro key hkey i hi
    have := h key hkey i hi
    simpa [modifyLast] using this
  cases k with
  | column name type =>
    intro key hkey i hi
    have := h key hkey i hi
    simp only [TableDeclaration.extend, List.length_append, List.length_singleton]
    omega
  | default t => exact hmodify _
  | generated t storage => exact hmodify _
  | primaryKey descending conflict counts =>
    intro key hkey i hi
    rcases List.mem_append.mp hkey with hkey | hkey
    · exact h key hkey i hi
    · obtain rfl := List.mem_singleton.mp hkey
      obtain rfl : i = D.last := by simpa using hi
      have := List.length_pos_iff.mpr (hk.resolve_right (by simp))
      exact Nat.sub_lt this Nat.one_pos
  | tablePrimaryKey terms conflict counts =>
    intro key hkey i hi
    rcases List.mem_append.mp hkey with hkey | hkey
    · exact h key hkey i hi
    · obtain rfl := List.mem_singleton.mp hkey
      obtain ⟨term, -, hterm⟩ := List.mem_map.mp hi
      obtain ⟨name, -, hname⟩ := Option.bind_eq_some_iff.mp hterm
      exact (List.findIdx?_eq_some_iff_getElem.mp hname).1
  | _ => exact h

/-- What a statement declares has keys on columns that it declares. -/
theorem namesColumns {sql : List UInt8} (h : ofSql? sql = some D) : D.NamesColumns := by
  have hall (ks : List Clause) (hfirst : ∀ k ∈ ks.head?, ∃ name type, k = .column name type) :
      (ofClauses ks).NamesColumns ∧ (ks ≠ [] → (ofClauses ks).columns ≠ []) := by
    induction ks using List.reverseRecOn with
    | nil => exact ⟨fun key hkey => absurd hkey List.not_mem_nil, fun hne => absurd rfl hne⟩
    | append_singleton before k ih =>
      rw [ofClauses_concat]
      cases before with
      | nil => exact ⟨(ih (by simp)).1.extend (.inr (hfirst k rfl)), fun _ => extend_columns_ne (.inr (hfirst k rfl))⟩
      | cons first rest =>
        obtain ⟨hnamed, hne⟩ := ih hfirst
        exact ⟨hnamed.extend (.inl (hne (by simp))), fun _ => extend_columns_ne (.inl (hne (by simp)))⟩
  unfold ofSql? at h
  split at h
  · split at h
    · next hdefinition =>
      cases h
      exact (hall _ (Clause.definition_begins hdefinition)).1
    · cases h
  · cases h

end TableDeclaration

namespace Draft

/-- The indexes of a draft are those of constraints, each with its own name, and those of the primary key are on its
columns. -/
structure Indexed (d : Draft) (D : TableDeclaration) : Prop where
  constraint : ∀ ix ∈ d.table.indexes, ix.IsConstraint
  named : ∀ ix ∈ d.table.indexes, ∃ n ≤ d.table.indexes.length, ix.name = Index.automaticName d.table.name n
  distinct : ∀ ix ∈ d.table.indexes, ∀ other ∈ d.table.indexes, ix.name = other.name → ix = other
  sound : ∀ ix ∈ d.table.indexes, ix.origin = .primaryKey → D.IsKey ix.key

/-- Some index is that of the primary key. -/
def HasPrimary (d : Draft) : Prop :=
  ∃ ix ∈ d.table.indexes, ix.origin = .primaryKey

/-- The primary key has an index, unless it is the row number. -/
structure Keyed (d : Draft) (D : TableDeclaration) : Prop extends d.Indexed D where
  complete : D.keys ≠ [] → d.table.rowidColumn = none → d.HasPrimary

variable {d d' : Draft} {D D' : TableDeclaration}

theorem Keyed.start (name : List UInt8) (root : Nat) (keepsChecks : Bool) (taken : List (List UInt8)) :
    (start name root keepsChecks taken).Keyed .empty := by
  refine ⟨⟨?_, ?_, ?_, ?_⟩, ?_⟩ <;> simp [Draft.start, TableDeclaration.empty]

/-- What changes neither indexes nor keys. -/
theorem Indexed.same (h : d.Indexed D) (hindexes : d'.table.indexes = d.table.indexes)
    (hname : d'.table.name = d.table.name) (hkeys : D'.keys = D.keys) : d'.Indexed D' where
  constraint := hindexes ▸ h.constraint
  named := hindexes ▸ hname ▸ h.named
  distinct := hindexes ▸ h.distinct
  sound ix hix hkey := by
    obtain ⟨k, hk, hcolumns⟩ := h.sound ix (hindexes ▸ hix) hkey
    exact ⟨k, hkeys.trans hk, hcolumns⟩

theorem Keyed.same (h : d.Keyed D) (hindexes : d'.table.indexes = d.table.indexes)
    (hname : d'.table.name = d.table.name) (hrowid : d'.table.rowidColumn = d.table.rowidColumn) (hkeys : D'.keys = D.keys) :
    d'.Keyed D' where
  toIndexed := h.toIndexed.same hindexes hname hkeys
  complete hne hnone := by
    rw [HasPrimary, hindexes]
    exact h.complete (hkeys ▸ hne) (hrowid ▸ hnone)

theorem length_withIndexes (t : Table) (ixs : List Index) : (t.withIndexes ixs).indexes.length = ixs.length := by
  have hperm := (List.filter_append_perm (fun ix : Index => decide (ix.conflict = some .replace)) ixs).length_eq
  rw [List.length_append] at hperm
  simp only [Table.withIndexes, List.partition_eq_filter_filter, List.length_append]
  rw [Nat.add_comm]
  exact hperm

/-- Indexes are changed one by one, without their names. -/
theorem Indexed.mapIndexes (h : d.Indexed D) {f : Index → Index} (hname : ∀ ix ∈ d.table.indexes, (f ix).name = ix.name)
    (hconstraint : ∀ ix ∈ d.table.indexes, (f ix).IsConstraint)
    (hsound : ∀ ix ∈ d.table.indexes, (f ix).origin = .primaryKey → D'.IsKey (f ix).key) :
    (d.withIndexes (d.table.indexes.map f)).Indexed D' where
  constraint ix hix := by
    obtain ⟨old, hold, rfl⟩ := List.mem_map.mp (Table.mem_withIndexes.mp hix)
    exact hconstraint old hold
  named ix hix := by
    obtain ⟨old, hold, rfl⟩ := List.mem_map.mp (Table.mem_withIndexes.mp hix)
    obtain ⟨n, hn, hnamed⟩ := h.named old hold
    refine ⟨n, ?_, (hname old hold).trans hnamed⟩
    rw [withIndexes, length_withIndexes, List.length_map]
    exact hn
  distinct ix hix other hother hsame := by
    obtain ⟨old, hold, rfl⟩ := List.mem_map.mp (Table.mem_withIndexes.mp hix)
    obtain ⟨old', hold', rfl⟩ := List.mem_map.mp (Table.mem_withIndexes.mp hother)
    rw [hname old hold, hname old' hold'] at hsame
    rw [h.distinct old hold old' hold' hsame]
  sound ix hix hkey := by
    obtain ⟨old, hold, rfl⟩ := List.mem_map.mp (Table.mem_withIndexes.mp hix)
    exact hsound old hold hkey

theorem hasPrimary_mapIndexes {f : Index → Index} (h : ∃ ix ∈ d.table.indexes, (f ix).origin = .primaryKey) :
    (d.withIndexes (d.table.indexes.map f)).HasPrimary := by
  obtain ⟨ix, hix, hprimary⟩ := h
  exact ⟨f ix, Table.mem_withIndexes.mpr (List.mem_map_of_mem hix), hprimary⟩

theorem columns_of_sameKey {a b : List IndexColumn} (h : sameKey a b = true) :
    a.map IndexColumn.column = b.map IndexColumn.column := by
  simp only [sameKey, Bool.and_eq_true, decide_eq_true_eq, List.all_eq_true] at h
  obtain ⟨hlength, hall⟩ := h
  refine List.ext_getElem (by simpa using hlength) fun i hi hi' => ?_
  rw [List.length_map] at hi hi'
  have hsame := hall (a[i], b[i]) (by
    rw [List.mem_iff_getElem]
    exact ⟨i, by simp [hi, hi'], by simp⟩)
  simp only [IndexColumn.same, Bool.and_eq_true, decide_eq_true_eq] at hsame
  simpa using hsame.1

/-- An index is added for a constraint, or one serves it that is there. If the constraint is the primary key, that index
becomes its index. -/
theorem Indexed.addIndex (h : d.Indexed D) (key : List IndexColumn) (conflict : Option Conflict) {origin : IndexOrigin}
    (hold : ∀ ix ∈ d.table.indexes, ix.origin = .primaryKey → D'.IsKey ix.key)
    (hnew : origin = .primaryKey → D'.IsKey key) : (d.addIndex key conflict origin).1.Indexed D' := by
  unfold Draft.addIndex
  split
  · next ix hfind =>
    have hix := List.mem_of_find?_eq_some hfind
    have hsameKey : sameKey ix.key key = true := by
      have := List.find?_some hfind
      simpa using this
    refine h.mapIndexes (fun other hother => ?_) (fun other hother => ?_) fun other hother hprimary => ?_
    · split
      · next hname => exact hname.symm
      · rfl
    · split
      · exact ⟨(h.constraint ix hix).isPartial, (h.constraint ix hix).columns, (h.constraint ix hix).held⟩
      · exact h.constraint other hother
    · split
      · next hname =>
        rw [if_pos hname] at hprimary
        by_cases horigin : origin = .primaryKey
        · exact (hnew horigin).congr (columns_of_sameKey hsameKey)
        · exact hold ix hix (by simpa [horigin] using hprimary)
      · next hname =>
        rw [if_neg hname] at hprimary
        exact hold other hother hprimary
  · have hfresh (ix : Index) (hix : ix ∈ d.table.indexes) :
        ix.name ≠ Index.automaticName d.table.name (d.table.indexes.length + 1) := by
      intro hname
      obtain ⟨n, hn, hnamed⟩ := h.named ix hix
      have := Index.automaticName_inj (hnamed.symm.trans hname)
      omega
    simp only
    refine ⟨fun ix hix => ?_, fun ix hix => ?_, fun ix hix other hother hsame => ?_, fun ix hix hprimary => ?_⟩
    · rcases List.mem_cons.mp (Table.mem_withIndexes.mp hix) with rfl | hix
      · exact ⟨rfl, rfl, rfl⟩
      · exact h.constraint ix hix
    · rw [withIndexes, length_withIndexes, List.length_cons]
      rcases List.mem_cons.mp (Table.mem_withIndexes.mp hix) with rfl | hix
      · exact ⟨_, le_rfl, rfl⟩
      · obtain ⟨n, hn, hnamed⟩ := h.named ix hix
        exact ⟨n, hn.trans (Nat.le_succ _), hnamed⟩
    · rcases List.mem_cons.mp (Table.mem_withIndexes.mp hix) with rfl | hix <;>
        rcases List.mem_cons.mp (Table.mem_withIndexes.mp hother) with rfl | hother
      · rfl
      · exact absurd hsame.symm (hfresh other hother)
      · exact absurd hsame (hfresh ix hix)
      · exact h.distinct ix hix other hother hsame
    · rcases List.mem_cons.mp (Table.mem_withIndexes.mp hix) with rfl | hix
      · exact hnew hprimary
      · exact hold ix hix hprimary

/-- An index of the primary key stays one, and a constraint that is the primary key has one. -/
theorem Indexed.hasPrimary_addIndex (h : d.Indexed D) (key : List IndexColumn) (conflict : Option Conflict)
    {origin : IndexOrigin} (hprimary : origin = .primaryKey ∨ d.HasPrimary) :
    (d.addIndex key conflict origin).1.HasPrimary := by
  unfold Draft.addIndex
  split
  · next ix hfind =>
    have hix := List.mem_of_find?_eq_some hfind
    refine hasPrimary_mapIndexes ?_
    rcases hprimary with horigin | ⟨other, hother, hprimary⟩
    · exact ⟨ix, hix, by simp [horigin]⟩
    · refine ⟨other, hother, ?_⟩
      split
      · next hname =>
        obtain rfl := h.distinct other hother ix hix hname
        simp [hprimary]
      · exact hprimary
  · rcases hprimary with horigin | ⟨other, hother, hprimary⟩
    · exact ⟨_, Table.mem_withIndexes.mpr List.mem_cons_self, horigin⟩
    · exact ⟨other, Table.mem_withIndexes.mpr (List.mem_cons_of_mem _ hother), hprimary⟩

end Draft

/-! ## Terms of keys -/

/-- A string that was taken as a name is none any more. -/
theorem Expr.keyAsName_deepAsName (e : Expr) : e.deepAsName.keyAsName = e.deepAsName := by
  have hstring (e : Expr) : e.deepAsName.stringAsName = e.deepAsName := by
    cases e <;> rfl
  cases e with
  | collate e c => exact congrArg (Expr.collate · c) (hstring e)
  | _ => rfl

/-- A name of a column is found, whatever collations are around it. -/
theorem Table.resolve_key {t : Table} {e : Expr} {n : Name} {i : Nat} (he : e.withoutCollation = .name n)
    (hi : t.column? n.text = some i) :
    (t.resolve .key none e).result.withoutCollation = .column (some i) ∧ (t.resolve .key none e).fault = none := by
  induction e using Expr.withoutCollation.induct with
  | case1 e c ih =>
    obtain ⟨hcolumn, hnone⟩ := ih he
    rw [resolve]
    exact ⟨hcolumn, hnone⟩
  | case2 e hother =>
    rw [Expr.withoutCollation] at he
    · subst he
      have hnamed : t.named? .key n.text = some (some i) := by
        unfold named?
        rw [hi]
      simp [resolve, resolveName, hnamed, Expr.withoutCollation]
    · exact hother

namespace Draft

variable {d d' : Draft} {D D' : TableDeclaration}

/-- The term of a key that names a column gives that column. -/
theorem column_of_keyColumn {t : Table} {k : KeyTerm} {c : IndexColumn} {name : List UInt8} {i : Nat}
    (hname : k.name? = some name) (hi : t.column? name = some i) (h : keyColumn t (k.map Expr.deepAsName) = .ok c) :
    c.column = some i := by
  obtain ⟨n, hn, rfl⟩ : ∃ n, k.term.expr.deepAsName.withoutCollation = .name n ∧ n.text = name := by
    unfold KeyTerm.name? at hname
    split at hname
    · next n hn => exact ⟨n, hn, Option.some.inj hname⟩
    · cases hname
  obtain ⟨hcolumn, -⟩ := Table.resolve_key hn hi
  unfold keyColumn at h
  simp only [bind, Except.bind] at h
  split at h
  · cases h
  · next found hfound =>
    split at h
    · cases h
    · cases h
      unfold Table.indexColumn at hfound
      simp only at hfound
      split at hfound
      · cases hfound
      · next hnone =>
        cases hfound
        rw [(Table.resolveTerm_ok hnone).2]
        simp only [KeyTerm.map, Expr.keyAsName_deepAsName, hcolumn]

/-- Terms that name columns give those columns. -/
theorem columns_of_mapM {t : Table} {terms : List KeyTerm} {key : List IndexColumn} {ks : List Nat}
    (hks : (terms.map fun k => k.name?.bind t.column?) = ks.map some)
    (h : (terms.map fun k => k.map Expr.deepAsName).mapM (keyColumn t) = .ok key) :
    key.map IndexColumn.column = ks.map some := by
  induction terms generalizing key ks with
  | nil =>
    cases h
    exact hks
  | cons k rest ih =>
    cases ks with
    | nil => cases hks
    | cons i is =>
      obtain ⟨hi, his⟩ := List.cons.inj hks
      obtain ⟨name, hname, hi⟩ := Option.bind_eq_some_iff.mp hi
      rw [List.map_cons, List.mapM_cons] at h
      simp only [bind, Except.bind] at h
      split at h
      · cases h
      · next c hc =>
        split at h
        · cases h
        · next cs hcs =>
          cases h
          rw [List.map_cons, List.map_cons, column_of_keyColumn hname hi hc, ih his hcs]

/-! ## Clauses -/

theorem indexes_markKeys (d : Draft) (columns : List Nat) :
    (d.markKeys columns).1.table.indexes = d.table.indexes ∧ (d.markKeys columns).1.table.name = d.table.name ∧
      (d.markKeys columns).1.table.rowidColumn = d.table.rowidColumn := by
  unfold Draft.markKeys
  generalize (none : Option String) = fault
  induction columns generalizing d fault with
  | nil => exact ⟨rfl, rfl, rfl⟩
  | cons i rest ih => exact ih (d.markKey i).1 _

theorem Keyed.addUnique (h : d.Keyed D) (key : List IndexColumn) (conflict : Option Conflict) :
    (d.addIndex key conflict .unique).1.Keyed D where
  toIndexed := h.toIndexed.addIndex key conflict h.sound nofun
  complete hne hnone := by
    refine h.hasPrimary_addIndex key conflict (.inr (h.complete hne ?_))
    exact (congrArg Core.rowidColumn (d.core_addIndex key conflict .unique)).symm.trans hnone

/-- No index is that of the primary key before there is one. -/
theorem Keyed.not_primary (h : d.Keyed D) (hkeys : D.keys = []) {ix : Index} (hix : ix ∈ d.table.indexes) :
    ix.origin ≠ .primaryKey := by
  intro hprimary
  obtain ⟨k, hk, -⟩ := h.sound ix hix hprimary
  rw [hkeys] at hk
  cases hk

/-- The primary key gets an index. -/
theorem Keyed.addPrimary {key : List IndexColumn} (h : d.Keyed D) (hkeys : D.keys = []) (hkey : D'.IsKey key)
    (conflict : Option Conflict) : (d.addIndex key conflict .primaryKey).1.Keyed D' where
  toIndexed := h.toIndexed.addIndex key conflict (fun _ hix hprimary => absurd hprimary (h.not_primary hkeys hix))
    fun _ => hkey
  complete _ _ := h.hasPrimary_addIndex key conflict (.inl rfl)

/-- The primary key is the row number and has no index. -/
theorem Keyed.numbered (h : d.Keyed D) (hkeys : D.keys = []) (hindexes : d'.table.indexes = d.table.indexes)
    (hname : d'.table.name = d.table.name) (hrowid : d'.table.rowidColumn ≠ none) : d'.Keyed D' where
  constraint := hindexes ▸ h.constraint
  named := hindexes ▸ hname ▸ h.named
  distinct := hindexes ▸ h.distinct
  sound _ hix hprimary := absurd hprimary (h.not_primary hkeys (hindexes ▸ hix))
  complete _ hnone := absurd hnone hrowid

theorem Keyed.columnPrimaryKey (h : d.Keyed D) (hcore : d.core.DeclaredAs D) {descending counts : Bool}
    {conflict : Option Conflict} (happly : d.columnPrimaryKey descending conflict counts = (d', none)) :
    d'.Keyed { D with keys := D.keys ++ [⟨[some D.last], descending⟩] } := by
  unfold Draft.columnPrimaryKey at happly
  split at happly
  · cases happly
  · next hkey =>
    have hkeys := hcore.noKey (show d.hasKey = false by simpa using hkey)
    have hmarked : (({ d with hasKey := true } : Draft).markKey d.last).1.Keyed D := h.same rfl rfl rfl rfl
    have hmarkedCore := hcore.keyed.markKey (d := { d with hasKey := true }) d.last
    simp only at happly
    generalize ({ d with hasKey := true } : Draft).markKey d.last = step at happly hmarked hmarkedCore
    obtain ⟨marked, fault⟩ := step
    simp only at happly hmarked hmarkedCore
    have hlast : marked.last = D.last := congrArg (· - 1) hmarkedCore.length_eq
    split at happly
    · obtain rfl := congrArg Prod.fst happly
      exact hmarked.numbered hkeys rfl rfl (by simp)
    · split at happly
      · cases happly
      · split at happly
        · cases happly
        · obtain rfl := congrArg Prod.fst happly
          refine hmarked.addPrimary hkeys ⟨_, by rw [hkeys, List.nil_append], fun ks hks => ?_⟩ conflict
          rw [← hks, ← hlast]
          rfl

theorem Keyed.addKey (h : d.Keyed D) (terms : List KeyTerm) (conflict : Option Conflict) :
    (d.addKey terms conflict .unique).1.Keyed D := by
  unfold Draft.addKey
  split
  · exact h
  · split
    · exact h
    · split
      · exact h
      · exact h.addUnique _ conflict

theorem Keyed.tablePrimaryKey (h : d.Keyed D) (hcore : d.core.DeclaredAs D) {terms : List KeyTerm} {counts : Bool}
    {conflict : Option Conflict} (happly : d.tablePrimaryKey terms conflict counts = (d', none)) :
    d'.Keyed { D with keys := D.keys ++ [⟨terms.map fun k => k.name?.bind D.named?, false⟩] } := by
  unfold Draft.tablePrimaryKey at happly
  split at happly
  · cases happly
  · next hkey =>
    have hkeys := hcore.noKey (show d.hasKey = false by simpa using hkey)
    have hmarked := indexes_markKeys { d with hasKey := true } (namedColumns d.table terms)
    have hmarkedCore := (Core.DeclaredAs.markKeys (d := { d with hasKey := true }) hcore.keyed
      (namedColumns d.table terms)).1
    simp only at happly
    generalize ({ d with hasKey := true } : Draft).markKeys _ = step at happly hmarked hmarkedCore
    obtain ⟨marked, fault⟩ := step
    simp only at happly hmarked hmarkedCore
    obtain ⟨hindexes, hname, hrowid⟩ := hmarked
    have hnames : marked.table.column? = D.named? := funext hmarkedCore.named?_eq
    split at happly
    · obtain rfl := congrArg Prod.fst happly
      exact h.numbered hkeys hindexes hname (by simp)
    · split at happly
      · cases happly
      · split at happly
        · cases happly
        · unfold Draft.addKey at happly
          split at happly
          · cases happly
          · split at happly
            · cases happly
            · split at happly
              · cases happly
              · next key hmapM =>
                obtain rfl := congrArg Prod.fst happly
                have hkeyed : marked.Keyed D := h.same hindexes hname hrowid rfl
                refine hkeyed.addPrimary hkeys ⟨_, by rw [hkeys, List.nil_append], fun ks hks => ?_⟩ conflict
                exact columns_of_mapM (hnames ▸ hks) hmapM

/-- Another collation leaves the columns of all indexes as they are. -/
theorem Keyed.setCollation (h : d.Keyed D) (collation : List UInt8) : (d.setCollation collation).Keyed D := by
  have hmodified : (d.modifyColumn d.last fun c => { c with collation := some collation }).Keyed D :=
    h.same rfl rfl rfl rfl
  refine ⟨hmodified.toIndexed.mapIndexes (fun _ _ => rfl) (fun ix hix => ?_) fun ix hix hprimary => ?_, fun hne hnone => ?_⟩
  · obtain ⟨hpartial, hcolumns, hheld⟩ := h.constraint ix hix
    refine ⟨hpartial, Eq.trans ?_ (hcolumns.trans (Eq.symm ?_)), hheld.trans (Eq.symm ?_)⟩
    · cases ix.columns with
      | nil => rfl
      | cons c rest =>
        simp only
        split <;> rfl
    all_goals
      cases ix.key with
      | nil => rfl
      | cons c rest =>
        simp only
        split <;> rfl
  · refine (h.sound ix hix hprimary).congr ?_
    cases ix.key with
    | nil => rfl
    | cons c rest =>
      simp only
      split <;> rfl
  · exact hasPrimary_mapIndexes (h.complete hne hnone)

/-- What every clause keeps. -/
theorem Keyed.extend (h : d.Keyed D) (hcore : d.core.DeclaredAs D) {k : Clause} (hk : k ≠ .finish)
    (happly : d.apply none k = (d', none)) : d'.Keyed (D.extend k) := by
  cases k with
  | inert =>
    cases happly
    exact h
  | column name type =>
    simp only [apply, Draft.addColumn] at happly
    split at happly
    · cases happly
    · split at happly <;> cases happly
      exact h.same rfl rfl rfl rfl
  | notNull =>
    cases happly
    exact h.same rfl rfl rfl rfl
  | default t =>
    simp only [apply, Draft.setDefault] at happly
    split at happly
    · cases happly
    · split at happly <;> cases happly
      exact h.same rfl rfl rfl rfl
  | primaryKey descending conflict counts => exact h.columnPrimaryKey hcore happly
  | unique conflict =>
    obtain rfl := congrArg Prod.fst happly
    exact h.addUnique _ conflict
  | check t =>
    obtain rfl := congrArg Prod.fst happly
    unfold Draft.apply
    simp only
    split
    · exact h.same rfl rfl rfl rfl
    · exact h
  | collate collation =>
    cases happly
    exact h.setCollation collation
  | generated t storage =>
    simp only [apply, Draft.setGenerated] at happly
    split at happly
    · split at happly
      · cases happly
      · obtain rfl := congrArg Prod.fst happly
        exact h.same rfl rfl rfl rfl
    · cases happly
  | references table columns =>
    simp only [apply, reference] at happly
    split at happly <;> cases happly <;> exact h
  | tablePrimaryKey terms conflict counts => exact h.tablePrimaryKey hcore happly
  | tableUnique terms conflict =>
    obtain rfl := congrArg Prod.fst happly
    exact h.addKey terms conflict
  | foreignKey own columns =>
    simp only [apply, foreignKey] at happly
    split at happly
    · cases happly
    · split at happly <;> cases happly
      exact h
  | withoutRowid | strict =>
    cases happly
    exact h.same rfl rfl rfl rfl
  | unknownOption text => cases happly
  | finish => exact absurd rfl hk
  | finishQuery => cases happly

theorem Follows.concat {ks : List Clause} {k : Clause} {d₁ d₂ : Draft} (h : Follows d ks d₁) (hk : k ≠ .finish)
    (happly : d₁.apply none k = (d₂, none)) : Follows d (ks ++ [k]) d₂ := by
  induction h with
  | nil => exact .cons hk happly .nil
  | cons hk' happly' _ ih => exact .cons hk' happly' (ih happly)

/-- What clauses make of the start of a table has the indexes that they declare. -/
theorem Follows.keyed {name : List UInt8} {root : Nat} {keepsChecks : Bool} {taken : List (List UInt8)}
    {ks : List Clause} (h : Follows (start name root keepsChecks taken) ks d)
    (hfirst : ∀ k ∈ ks.head?, ∃ name type, k = .column name type) : d.Keyed (.ofClauses ks) := by
  have hall := h.induction (P := fun ks d => Follows (start name root keepsChecks taken) ks d ∧
      ((∀ k ∈ ks.head?, ∃ name type, k = .column name type) → d.Keyed (.ofClauses ks)))
    ⟨.nil, fun _ => .start name root keepsChecks taken⟩ fun before d k d' ih hk happly =>
      ⟨ih.1.concat hk happly, fun hfirst => ?_⟩
  · exact hall.2 hfirst
  · obtain ⟨hbefore, ih⟩ := ih
    have hfirst : ∀ k ∈ before.head?, ∃ name type, k = .column name type := by
      cases before with
      | nil => simp
      | cons first rest => exact hfirst
    rw [TableDeclaration.ofClauses_concat]
    exact (ih hfirst).extend (hbefore.declaredAs hfirst) hk happly

end Draft

/-! ## Tables -/

/-- An index holds whole rows: the columns of the key first and then the others in declared order. -/
structure Index.HoldsRows (ix : Index) (columns : List Column) (ks : List Nat) : Prop where
  isPartial : ix.isPartial = false
  held : ix.held = List.range columns.length
  columns : ∃ key, key.map IndexColumn.column = ks.map some ∧ ix.columns = Key.storageOrder columns key

/-- An index has all stored columns that it is known to hold. -/
def Index.Has (ix : Index) (columns : List Column) : Prop :=
  ∀ i ∈ ix.held, ∀ c, columns[i]? = some c → c.isStored = true → some i ∈ ix.columns.map IndexColumn.column

/-- A table whose rows have no number has them in the index of its primary key. -/
structure Table.KeyedAs (t : Table) (D : TableDeclaration) : Prop where
  has : ∀ ix ∈ t.indexes, ix.Has t.columns
  rowidColumn : t.withoutRowid = true → t.rowidColumn = none
  key : t.withoutRowid = true → ∀ ks descending, D.keys = [⟨ks.map some, descending⟩] → ks.Nodup →
    (∃ ix ∈ t.indexes, ix.origin = .primaryKey) ∧ ∀ ix ∈ t.indexes, ix.origin = .primaryKey → ix.HoldsRows t.columns ks

namespace Draft

variable {d d' : Draft} {D : TableDeclaration}

theorem insistOnTypes_keyed (h : d.Keyed D) (hstep : (if d.strict then d.insistOnTypes else (d, none)) = (d', none)) :
    d'.Keyed D ∧ d'.table.rowidColumn = d.table.rowidColumn := by
  split at hstep
  · unfold insistOnTypes at hstep
    split at hstep
    · cases hstep
    · cases hstep
      exact ⟨h.same rfl rfl rfl rfl, rfl⟩
  · cases hstep
    exact ⟨h, rfl⟩

/-- The columns of an index of a constraint are there, also behind the key. -/
theorem has_extend {ix : Index} (h : ix.IsConstraint) (key : List IndexColumn) (columns : List Column) :
    (ix.extend key).Has columns := by
  intro i hi c _ _
  rw [show (ix.extend key).held = ix.held from rfl, h.held] at hi
  obtain ⟨column, hcolumn, hnumber⟩ := List.mem_filterMap.mp hi
  exact List.mem_map.mpr ⟨column, List.mem_append_left _ hcolumn, hnumber⟩

theorem has_constraint {ix : Index} (h : ix.IsConstraint) (columns : List Column) : ix.Has columns := by
  intro i hi c _ _
  rw [h.held] at hi
  obtain ⟨column, hcolumn, hnumber⟩ := List.mem_filterMap.mp hi
  rw [h.columns]
  exact List.mem_map.mpr ⟨column, hcolumn, hnumber⟩

/-- In the order of storage every stored column has a place. -/
theorem mem_storageOrder {columns : List Column} {i : Nat} {c : Column} (key : List IndexColumn)
    (hc : columns[i]? = some c) (hstored : c.isStored = true) :
    some i ∈ (Key.storageOrder columns key).map IndexColumn.column := by
  rw [Key.storageOrder, List.map_append, List.mem_append]
  by_cases hkey : key.any (·.column = some i) = true
  · obtain ⟨column, hcolumn, hnumber⟩ := List.any_eq_true.mp hkey
    exact .inl (List.mem_map.mpr ⟨column, hcolumn, by simpa using hnumber⟩)
  · refine .inr (List.mem_map.mpr ⟨⟨some i, Text.Utf8.ofString "BINARY"⟩, ?_, rfl⟩)
    refine List.mem_map.mpr ⟨i, List.mem_filter.mpr ⟨?_, ?_⟩, rfl⟩
    · rw [List.mem_range]
      exact (List.getElem?_eq_some_iff.mp hc).1
    · rw [Bool.not_eq_true] at hkey
      simp [hc, hstored, hkey]

/-- The index of the primary key gets all columns, and other indexes get those of its key. -/
theorem Indexed.holdRows (h : d.Indexed D) (hprimary : D.keys ≠ [] → d.HasPrimary) (hrowid : d.table.rowidColumn = none)
    {key : List IndexColumn} (hkey : key = match d.table.primaryKey? with
      | some pk => Key.distinct pk.key
      | none => []) (root : Nat) :
    Table.KeyedAs { d.table with
      indexes := d.table.indexes.map fun ix =>
        if ix.origin = .primaryKey then
          { ix with
            key
            columns := Key.storageOrder d.table.columns key
            held := List.range d.table.columns.length
            root }
        else ix.extend key } D where
  has ix hix := by
    obtain ⟨old, hold, rfl⟩ := List.mem_map.mp hix
    split
    · exact fun i _ c hc hstored => mem_storageOrder key hc hstored
    · exact has_extend (h.constraint old hold) key _
  rowidColumn _ := hrowid
  key _ ks descending hkeys hnodup := by
    obtain ⟨primary, hmem, horigin⟩ := hprimary (by rw [hkeys]; simp)
    refine ⟨⟨_, List.mem_map_of_mem hmem, by simp [horigin]⟩, fun ix hix hix' => ?_⟩
    obtain ⟨old, hold, rfl⟩ := List.mem_map.mp hix
    split at hix'
    · next hprimary =>
      rw [if_pos hprimary]
      refine ⟨(h.constraint old hold).isPartial, rfl, key, ?_, rfl⟩
      cases hfind : d.table.primaryKey? with
      | none =>
        have := List.find?_eq_none.mp hfind primary hmem
        simp [horigin] at this
      | some pk =>
        obtain ⟨k, hk, hcolumns⟩ := h.sound pk (List.mem_of_find?_eq_some hfind) (by simpa using List.find?_some hfind)
        have hcolumns := hcolumns ks (by
          rw [hkeys] at hk
          rw [← (List.cons.inj hk).1])
        rw [hkey, hfind]
        simp only
        rw [Key.distinct_eq, hcolumns]
        rw [hcolumns]
        exact List.Nodup.map (Option.some_injective _) hnodup
    · next hother => exact absurd hix' hother

/-- Without row numbers, the index of the primary key holds the rows. -/
theorem dropRowids_keyedAs (h : d.Keyed D) (hkeyOn : ∀ i, d.table.rowidColumn = some i → D.KeyOn i) :
    (d.dropRowids none).1.table.KeyedAs D := by
  have hindexed : Indexed { d with
      table := { d.table with
        columns := d.table.columns.map fun c => { c with notNull := c.notNull || c.inKey }, rowidColumn := none } } D :=
    h.toIndexed.same rfl rfl rfl
  unfold Draft.dropRowids
  simp only
  split
  · next i hrowid _ =>
    have hkey (order : List UInt8) : D.IsKey [⟨some i, order⟩] := ⟨_, hkeyOn i hrowid, fun ks hks => hks⟩
    refine Indexed.holdRows (hindexed.addIndex _ _ hindexed.sound fun _ => hkey _)
      (fun _ => hindexed.hasPrimary_addIndex _ _ (.inl rfl)) ?_ rfl _
    exact congrArg Core.rowidColumn (core_addIndex _ _ _ _)
  · next hrowid =>
    refine hindexed.holdRows (fun hne => h.complete hne ?_) rfl rfl _
    cases hcolumn : d.table.rowidColumn with
    | none => rfl
    | some i => exact absurd rfl (hrowid i hcolumn)

end Draft

/-- What is stored where does not change with the values of columns. -/
theorem Table.KeyedAs.congr {t u : Table} {D : TableDeclaration} (h : t.KeyedAs D) (hindexes : u.indexes = t.indexes)
    (hrowid : u.rowidColumn = t.rowidColumn) (hwithout : u.withoutRowid = t.withoutRowid)
    (hcolumns : u.columns.map Column.isStored = t.columns.map Column.isStored) : u.KeyedAs D := by
  have hstored (i : Nat) : u.columns[i]?.map Column.isStored = t.columns[i]?.map Column.isStored := by
    have := congrArg (·[i]?) hcolumns
    simpa using this
  have hlength : u.columns.length = t.columns.length := by
    simpa using congrArg List.length hcolumns
  have horder (key : List IndexColumn) : Key.storageOrder u.columns key = Key.storageOrder t.columns key := by
    simp only [Key.storageOrder, Key.others, hstored, hlength]
  refine ⟨fun ix hix i hi c hc hcstored => ?_, fun hrows => ?_, fun hrows ks descending hkeys hnodup => ?_⟩
  · have hsame := hstored i
    rw [hc, Option.map_some, hcstored] at hsame
    obtain ⟨c', hc', hcstored'⟩ := Option.map_eq_some_iff.mp hsame.symm
    exact h.has ix (hindexes ▸ hix) i hi c' hc' hcstored'
  · rw [hrowid]
    exact h.rowidColumn (hwithout ▸ hrows)
  · rw [hindexes]
    obtain ⟨hsome, hall⟩ := h.key (hwithout ▸ hrows) ks descending hkeys hnodup
    refine ⟨hsome, fun ix hix hprimary => ?_⟩
    obtain ⟨hpartial, hheld, key, hkey, horder'⟩ := hall ix hix hprimary
    exact ⟨hpartial, hheld.trans (congrArg List.range hlength.symm), key, hkey, horder'.trans (horder key).symm⟩

namespace Draft

variable {d d' : Draft} {D : TableDeclaration}

theorem resolveComputed_keyedAs (h : d.table.KeyedAs D) (f : Findings) : (d.resolveComputed f).1.table.KeyedAs D := by
  unfold Draft.resolveComputed
  generalize d.computed = computed
  induction computed generalizing d f with
  | nil => exact h
  | cons p rest ih =>
    refine ih (d := d.modifyColumn _ _) (h.congr rfl rfl rfl ?_) _
    refine List.ext_getElem? fun i => ?_
    simp only [modifyColumn, List.getElem?_map, List.getElem?_modify]
    cases d.table.columns[i]? with
    | none => rfl
    | some c =>
      simp only [Option.map_eq_map, Option.map_some]
      split <;> rfl

/-- What the last step makes of a draft has its rows where its key says. -/
theorem finish_keyedAs (hcore : d.core.DeclaredAs D) (h : d.Keyed D) (hfinish : d.finish none = (d', none)) :
    d'.table.KeyedAs D := by
  unfold finish at hfinish
  simp only at hfinish
  have hstrict := fun e (he : (if d.strict then d.insistOnTypes else (d, none)) = (e, none)) => insistOnTypes_keyed h he
  generalize (if d.strict then d.insistOnTypes else (d, none)) = step at hfinish hstrict
  obtain ⟨e, fault⟩ := step
  simp only at hfinish
  split at hfinish
  · next hsome =>
    rw [show fault = none from congrArg Prod.snd hfinish] at hsome
    cases hsome
  · next hnone =>
    obtain ⟨hkeyed, hrowid⟩ := hstrict e (Prod.ext rfl (by simpa using hnone))
    split at hfinish
    · cases hfinish
    split at hfinish
    · cases hfinish
    have hdropped : (if e.table.withoutRowid then e.dropRowids none else (e, none)).1.table.KeyedAs D := by
      split
      · exact dropRowids_keyedAs hkeyed fun i hi => ((hcore.rowidColumn i).mp (hrowid.symm.trans hi)).1
      · next hrows =>
        exact ⟨fun ix hix => has_constraint (hkeyed.constraint ix hix) _, fun hwithout => absurd hwithout hrows,
          fun hwithout => absurd hwithout hrows⟩
    generalize (if e.table.withoutRowid then e.dropRowids none else (e, none)) = step at hfinish hdropped
    split at hfinish
    · cases hfinish
    · obtain ⟨rfl, -⟩ := Prod.mk.inj hfinish
      exact resolveComputed_keyedAs hdropped _

/-- A definition that is read makes a table that has its rows where its key says. -/
theorem read_keyedAs {sql name : List UInt8} {root : Nat} {keepsChecks : Bool} {taken : List (List UInt8)}
    {head : Head} {c c' : Cursor} {e : Draft}
    (hstatement : Reader.statement.run (.start (Source.ofText sql).lexemes) = .ok (.table head, c))
    (hread : (read (some (start name root keepsChecks taken))).run c = .ok (some e, c')) {D : TableDeclaration}
    (hsql : TableDeclaration.ofSql? sql = some D) : e.table.KeyedAs D := by
  obtain ⟨-, ks, c'', hdefinition, hbuilt⟩ := read_ok hread
  have hfirst := Clause.definition_begins hdefinition
  obtain rfl : D = .ofClauses ks := by
    unfold TableDeclaration.ofSql? at hsql
    rw [hstatement] at hsql
    simp only [hdefinition, Option.some.injEq] at hsql
    exact hsql.symm
  cases hbuilt with
  | table hfollows hfinish => exact finish_keyedAs (hfollows.declaredAs hfirst) (hfollows.keyed hfirst) hfinish

end Draft

namespace Table.KeyedAs

variable {t : Table} {D : TableDeclaration}

/-- An index of its own leaves the rows of a table where they are. -/
theorem withIndex (h : t.KeyedAs D) {ix : Index} (horigin : ix.origin = .statement) (hix : ix.Has t.columns) :
    (t.withIndexes (ix :: t.indexes)).KeyedAs D where
  has other hother := by
    rcases List.mem_cons.mp (mem_withIndexes.mp hother) with rfl | hother
    · exact hix
    · exact h.has other hother
  rowidColumn := h.rowidColumn
  key hrows ks descending hkeys hnodup := by
    obtain ⟨⟨pk, hpk, hprimary⟩, hall⟩ := h.key hrows ks descending hkeys hnodup
    refine ⟨⟨pk, mem_withIndexes.mpr (List.mem_cons_of_mem _ hpk), hprimary⟩, fun other hother hother' => ?_⟩
    rcases List.mem_cons.mp (mem_withIndexes.mp hother) with rfl | hother
    · rw [horigin] at hother'
      cases hother'
    · exact hall other hother hother'

/-- Where the indexes are rooted does not matter. -/
theorem rooted (h : t.KeyedAs D) (p : Index → Bool) (root : Nat) :
    KeyedAs { t with indexes := t.indexes.map fun ix => if p ix then { ix with root } else ix } D where
  has ix hix := by
    obtain ⟨old, hold, rfl⟩ := List.mem_map.mp hix
    split <;> exact h.has old hold
  rowidColumn := h.rowidColumn
  key hrows ks descending hkeys hnodup := by
    obtain ⟨⟨pk, hpk, hprimary⟩, hall⟩ := h.key hrows ks descending hkeys hnodup
    refine ⟨⟨_, List.mem_map_of_mem hpk, ?_⟩, fun ix hix hix' => ?_⟩
    · split <;> exact hprimary
    · obtain ⟨old, hold, rfl⟩ := List.mem_map.mp hix
      split at hix'
      · next hp =>
        rw [if_pos hp]
        obtain ⟨hpartial, hheld, hcolumns⟩ := hall old hold hix'
        exact ⟨hpartial, hheld, hcolumns⟩
      · next hp =>
        rw [if_neg hp]
        exact hall old hold hix'

end Table.KeyedAs
end FirstRow.Sql
