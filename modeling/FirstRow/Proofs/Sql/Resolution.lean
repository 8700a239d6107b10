import FirstRow.Sql.Resolution

/-!
# Names that were looked up

Expressions are gone through in turn, and a fault that was found before stays one. So where no fault is left in the end,
every expression was gone through behind none. What is found depends on no indexes and on no values of columns.
-/
namespace FirstRow.Sql

theorem Resolved.fault_of_unlessFault {α : Type} {r : Resolved α} {fault : Option String}
    (h : (r.unlessFault fault).fault = none) : fault = none := by
  unfold unlessFault at h
  split at h
  · exact h
  · next hnone => simpa using hnone

theorem Resolved.fault_of_andThen {α β : Type} {r : Resolved α} {b : β} {f : Option String → Resolved β}
    (h : (r.andThen b f).fault = none) (hf : ∀ fault, (f fault).fault = none → fault = none) : r.fault = none := by
  unfold andThen at h
  split at h
  · exact h
  · exact hf _ h

namespace Table

variable {t : Table} {place : Place}

theorem fault_of_widthFault {fault : Option String} {a : Expr} {others : List Expr}
    (h : widthFault fault a others = none) : fault = none := by
  unfold widthFault at h
  split at h
  · exact h
  · cases h

theorem fault_of_callFault {fault : Option String} {form : CallForm} {order args : List Expr}
    (h : callFault place fault form order args = none) : fault = none := by
  unfold callFault at h
  simp only at h
  split at h
  · cases h
  split at h
  · cases h
  split at h
  · cases h
  split at h
  · cases h
  split at h
  · cases h
  split at h
  · cases h
  split at h
  · cases h
  · exact h

theorem fault_of_resolveName {fault : Option String} {n : Name} (h : (t.resolveName place fault n).fault = none) :
    fault = none := by
  unfold resolveName at h
  split at h
  · exact h
  · exact h
  · exact h
  · cases h

theorem fault_of_resolvePath {fault : Option String} {owners : List (List UInt8)} {n : List UInt8}
    (h : (t.resolvePath place fault owners n).fault = none) : fault = none := by
  unfold resolvePath at h
  simp only at h
  split at h
  · simp only at h
    split at h
    · exact h
    · cases h
  · cases h

/-- A fault that was found before stays one. -/
theorem fault_of_resolve (fault : Option String) (e : Expr) :
    (t.resolve place fault e).fault = none → fault = none := by
  revert fault e
  refine resolve.induct t place (fun fault e => (t.resolve place fault e).fault = none → fault = none)
    (fun fault es => (t.resolveAll place fault es).fault = none → fault = none) ?name ?path ?parameter ?query ?nonempty
    ?member ?isNull ?notNull ?call ?negative ?positive ?cast ?collate ?operation ?vector ?compare ?between ?unknown
    ?truthName ?named ?truth ?same ?leaf ?nil ?cons
  case name => exact fun _ _ => fault_of_resolveName
  case path => exact fun _ _ _ => fault_of_resolvePath
  case parameter | query | nonempty | member =>
    intros
    rename_i h
    cases h
  case isNull | notNull =>
    intro fault negated e r hnull ih h
    simp only [resolve] at h
    split at h <;> exact ih h
  case call => exact fun _ _ _ _ ih h => fault_of_callFault (ih h)
  case negative | positive | cast | collate | operation | vector =>
    intros
    rename_i h
    rw [resolve] at h
    exact Resolved.fault_of_unlessFault h
  case compare =>
    intro fault a b _ _ h
    rw [resolve] at h
    exact fault_of_widthFault (Resolved.fault_of_unlessFault h)
  case between =>
    intro fault e low high _ _ _ h
    rw [resolve] at h
    exact fault_of_widthFault (Resolved.fault_of_unlessFault h)
  case unknown =>
    intro fault a b n hname r hended h
    simp only [resolve, hname] at h
    split at h
    · exact fault_of_resolveName h
    · next hopen _ => exact absurd (hended.symm.trans hopen) (by simp)
    · next hopen _ => exact absurd (hended.symm.trans hopen) (by simp)
  case truthName =>
    intro fault a b n hname r value hvalue hopen ih h
    simp only [resolve, hname] at h
    split at h
    · exact fault_of_resolveName h
    · exact fault_of_resolveName (ih (Resolved.fault_of_andThen h fun _ hleaf => hleaf))
    · exact fault_of_resolveName (fault_of_widthFault (Resolved.fault_of_unlessFault h))
  case named =>
    intro fault a b n hname r hopen hvalue ih h
    simp only [resolve, hname] at h
    split at h
    · exact fault_of_resolveName h
    · next htruth => exact absurd htruth (hvalue _)
    · exact fault_of_resolveName (fault_of_widthFault (Resolved.fault_of_unlessFault h))
  case truth =>
    intro fault a b value hvalue _ h
    simp only [resolve, hvalue] at h
    exact Resolved.fault_of_unlessFault h
  case same =>
    intro fault a b hname htruth _ _ h
    simp only [resolve] at h
    exact fault_of_widthFault (Resolved.fault_of_unlessFault h)
  case leaf =>
    intro fault e
    intros
    rename_i h
    simp only [resolve] at h
    exact h
  case nil => exact fun _ h => h
  case cons =>
    intro fault e es ih ihs h
    rw [resolveAll] at h
    exact ih (Resolved.fault_of_andThen h ihs)

/-- Where no fault is left, an expression was gone through behind none. -/
theorem resolveTerm_ok {f : Findings} {term : Term} (h : (t.resolveTerm place f term).1.fault = none) :
    f.fault = none ∧ (t.resolveTerm place f term).2 = (t.resolve place none term.expr).result := by
  unfold resolveTerm at h ⊢
  split at h
  · cases h
  · next hlow =>
    have hnone := fault_of_resolve f.fault term.expr h
    rw [if_neg hlow]
    simp only [hnone, true_and]

/-! ## Tables -/

/-- Two tables have the same names of their own and of their columns, and know of the same columns that they can be
null. -/
structure LooksLike (t u : Table) : Prop where
  column? : ∀ n, t.column? n = u.column? n
  isNullable : ∀ i, t.isNullable i = u.isNullable i
  isNamed : ∀ n, t.isNamed n = u.isNamed n
  withoutRowid : t.withoutRowid = u.withoutRowid

namespace LooksLike

variable {u : Table}

theorem named? (h : t.LooksLike u) (n : List UInt8) : t.named? place n = u.named? place n := by
  rw [Table.named?, Table.named?, h.column?, h.withoutRowid]

theorem canBeNull (h : t.LooksLike u) (e : Expr) : t.canBeNull e = u.canBeNull e := by
  fun_induction t.canBeNull e <;> simp_all [Table.canBeNull, h.isNullable]

/-- Names are looked up alike. -/
theorem resolve (h : t.LooksLike u) (fault : Option String) (e : Expr) :
    t.resolve place fault e = u.resolve place fault e := by
  have hname (fault : Option String) (n : Name) : t.resolveName place fault n = u.resolveName place fault n := by
    rw [resolveName, resolveName, h.named?]
  have hpath (fault : Option String) (owners : List (List UInt8)) (n : List UInt8) :
      t.resolvePath place fault owners n = u.resolvePath place fault owners n := by
    unfold resolvePath
    simp only [h.named?, h.isNamed]
  revert fault e
  refine resolve.induct u place (fun fault e => t.resolve place fault e = u.resolve place fault e)
    (fun fault es => t.resolveAll place fault es = u.resolveAll place fault es) ?name ?path ?parameter ?query ?nonempty
    ?member ?isNull ?notNull ?call ?negative ?positive ?cast ?collate ?operation ?vector ?compare ?between ?unknown
    ?truthName ?named ?truth ?same ?leaf ?nil ?cons
  case unknown =>
    intro fault a b n hb r hended
    simp only [Table.resolve, hb, hname]
    split
    · rfl
    · next hopen _ => exact absurd (hended.symm.trans hopen) (by simp)
    · next hopen _ => exact absurd (hended.symm.trans hopen) (by simp)
  case truthName =>
    intro fault a b n hb r value hvalue hopen ih
    change (u.resolveName place fault n).result = _ at hvalue
    change (u.resolveName place fault n).ended = false at hopen
    change t.resolve place (u.resolveName place fault n).fault a =
      u.resolve place (u.resolveName place fault n).fault a at ih
    simp only [Table.resolve, hb, hname, hvalue, hopen, ih]
  case named =>
    intro fault a b n hb r hopen hvalue ih
    simp only [Table.resolve, hb, hname, ih]
    split
    · rfl
    · next htruth => exact absurd htruth (hvalue _)
    · rfl
  all_goals
    intros
    simp only [Table.resolve, resolveAll, h.canBeNull, *]

end LooksLike

/-- A table without its indexes and without the values of its columns, which names have nothing to do with. -/
def bare (t : Table) : Table :=
  { t with columns := t.columns.map fun c => { c with value := none }, indexes := [] }

theorem bare_looksLike (t : Table) : t.bare.LooksLike t where
  column? n := by
    simp only [column?, bare, List.findIdx?_map]
    rfl
  isNullable i := by
    cases i with
    | none => rfl
    | some i =>
      simp only [isNullable, bare, List.getElem?_map, Option.any_map]
      rfl
  isNamed _ := rfl
  withoutRowid := rfl

/-- Names are looked up alike. -/
theorem resolve_bare (fault : Option String) (e : Expr) :
    t.bare.resolve place fault e = t.resolve place fault e :=
  t.bare_looksLike.resolve fault e

end Table
end FirstRow.Sql
