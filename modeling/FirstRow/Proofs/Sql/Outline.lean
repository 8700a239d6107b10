import FirstRow.Proofs.Sql.Default
import FirstRow.Proofs.Sql.Resolution

/-!
# Outlines of expressions

The outline of an expression is what is left of it when the letter case of words is left out, of casts all but the
affinity, and of the names of columns the quotation marks. Two expressions of one outline have equally many values, are
constant alike, have the same value as a default, and their names are looked up alike in a table that has the columns.
-/
namespace FirstRow.Text.Octet

/-- A text in lower case. -/
def fold (s : List UInt8) : List UInt8 := s.map lower

@[simp] theorem lower_lower (b : UInt8) : lower (lower b) = lower b := by
  unfold lower
  split
  · next h =>
    rw [if_neg]
    simp only [Bool.and_eq_true, decide_eq_true_eq, UInt8.le_iff_toNat_le, UInt8.reduceToNat, UInt8.toNat_add] at h ⊢
    omega
  · rfl

@[simp] theorem lower_comp_lower : lower ∘ lower = lower := funext lower_lower

@[simp] theorem fold_fold (s : List UInt8) : fold (fold s) = fold s := by
  simp [fold]

@[simp] theorem same_fold_left (s t : List UInt8) : same (fold s) t = same s t := by
  simp [fold, same]

@[simp] theorem same_fold_right (s t : List UInt8) : same s (fold t) = same s t := by
  simp [fold, same]

@[simp] theorem spells_fold (w : String) (s : List UInt8) : spells w (fold s) = spells w s := by
  simp [fold, spells]

theorem fold_eq_iff {s t : List UInt8} : fold s = fold t ↔ same s t = true :=
  same_iff.symm

end FirstRow.Text.Octet

namespace FirstRow.Sql

open Text.Octet (fold)

variable (names : List (List UInt8))

/-- Whether a text is one of several names, in any letter case. -/
def isAmong (n : List UInt8) : Bool := names.any (Text.Octet.same · n)

@[simp] theorem isAmong_fold (n : List UInt8) : isAmong names (fold n) = isAmong names n := by
  simp [isAmong]

/-- A name without its letter case. Of the names of columns it does not matter in which quotation marks they stand. Any
other name in double quotation marks may be a string. -/
def Name.outline (n : Name) : Name :=
  if n.truth?.isNone && isAmong names n.text then ⟨fold n.text, some 0x60⟩
  else if n.inDoubleQuotes then n
  else ⟨fold n.text, n.mark⟩

/-- A type that stands for all types of an affinity. -/
def Affinity.exemplar : Affinity → List UInt8
  | .blob => Text.Utf8.ofString "blob"
  | .text => Text.Utf8.ofString "text"
  | .numeric => []
  | .integer => Text.Utf8.ofString "int"
  | .real => Text.Utf8.ofString "real"

/-- What a cast to a type makes of values. -/
def castAffinity (type : List UInt8) : Affinity :=
  (Affinity.ofText (ColumnType.unquoteFirst type)).1

@[simp] theorem castAffinity_exemplar (a : Affinity) : castAffinity a.exemplar = a := by
  cases a <;> decide

/-- A call without the letter case of the name. -/
def CallForm.outline (form : CallForm) : CallForm := { form with name := fold form.name }

@[simp] theorem CallForm.outline_outline (form : CallForm) : form.outline.outline = form.outline := by
  simp [outline]

namespace Expr

mutual

/-- What an expression is apart from how it is spelled. -/
def outline : Expr → Expr
  | name n => name (n.outline names)
  | path owners n => path (owners.map fold) (fold n)
  | negative e => negative e.outline
  | positive e => positive e.outline
  | isNull negated e => isNull negated e.outline
  | cast e type => cast e.outline (castAffinity type).exemplar
  | collate e c => collate e.outline c
  | compare a b => compare a.outline b.outline
  | same a b => same a.outline b.outline
  | between e low high => between e.outline low.outline high.outline
  | operation es => operation (outlineAll es)
  | vector es => vector (outlineAll es)
  | call form order args => call form.outline (outlineAll order) (outlineAll args)
  | member e => member e.outline
  | e => e

/-- What expressions are apart from how they are spelled. -/
def outlineAll : List Expr → List Expr
  | [] => []
  | e :: es => e.outline :: outlineAll es

end

variable {names}

@[simp] theorem outlineAll_eq_map (es : List Expr) : outlineAll names es = es.map (outline names) := by
  induction es with
  | nil => rfl
  | cons e es ih => rw [outlineAll, ih, List.map_cons]

end Expr

namespace Name

variable {names}

@[simp] theorem fold_text_outline (n : Name) : fold (n.outline names).text = fold n.text := by
  unfold outline
  split
  · exact Text.Octet.fold_fold _
  · split
    · rfl
    · exact Text.Octet.fold_fold _

@[simp] theorem isAmong_text_outline (n : Name) : isAmong names (n.outline names).text = isAmong names n.text := by
  rw [← isAmong_fold, fold_text_outline, isAmong_fold]

/-- A name that is not that of a column keeps its mark. -/
theorem mark_outline {n : Name} (h : (n.truth?.isNone && isAmong names n.text) = false) :
    (n.outline names).mark = n.mark := by
  rw [outline, h]
  simp only [Bool.false_eq_true, if_false]
  split <;> rfl

theorem isBare_congr {n n' : Name} (hmark : n.mark = n'.mark) (htext : fold n.text = fold n'.text) (w : String) :
    n.isBare w = n'.isBare w := by
  rw [isBare, isBare, hmark, ← Text.Octet.spells_fold, htext, Text.Octet.spells_fold]

theorem truth?_eq_none {n : Name} (h : n.mark.isSome = true) : n.truth? = none := by
  have hbare (w : String) : n.isBare w = false := by
    cases hmark : n.mark <;> simp_all [isBare]
  simp [truth?, hbare]

@[simp] theorem truth?_outline (n : Name) : (n.outline names).truth? = n.truth? := by
  cases h : n.truth?.isNone && isAmong names n.text with
  | true =>
    rw [outline, h, if_pos rfl, truth?_eq_none rfl]
    simp only [Bool.and_eq_true, Option.isNone_iff_eq_none] at h
    exact h.1.symm
  | false => simp only [truth?, isBare_congr (mark_outline h) (fold_text_outline n)]

@[simp] theorem outline_outline (n : Name) : (n.outline names).outline names = n.outline names := by
  rw [outline, truth?_outline, isAmong_text_outline, fold_text_outline]
  cases h : n.truth?.isNone && isAmong names n.text with
  | true => rw [if_pos rfl, outline, h, if_pos rfl]
  | false =>
    rw [if_neg (by simp), inDoubleQuotes, mark_outline h, ← inDoubleQuotes]
    split
    · rfl
    · next hquotes => rw [outline, h, if_neg (by simp), if_neg hquotes]

/-- Whether a bare word is a truth value does not depend on its letter case. -/
theorem truth?_eq_of_fold {n n' : List UInt8} (h : fold n = fold n') :
    (Name.mk n none).truth? = (Name.mk n' none).truth? := by
  simp only [truth?, isBare_congr (show (Name.mk n none).mark = (Name.mk n' none).mark from rfl) h]

theorem outline_eq_of_fold {n n' : List UInt8} (h : fold n = fold n') :
    (Name.mk n none).outline names = (Name.mk n' none).outline names := by
  have htruth := truth?_eq_of_fold h
  have hamong : isAmong names n = isAmong names n' := by rw [← isAmong_fold, h, isAmong_fold]
  simp [outline, htruth, hamong, inDoubleQuotes, h]

/-- The names of columns have one outline in all quotation marks. -/
theorem outline_eq_of_isAmong {n : List UInt8} {mark : Option UInt8} (h : isAmong names n = true)
    (htruth : (Name.mk n mark).truth? = none) : (Name.mk n mark).outline names = ⟨fold n, some 0x60⟩ := by
  simp [outline, htruth, h]

end Name

namespace Expr

variable {names}

section

variable (e : Expr)

@[simp] theorem width_outline : (e.outline names).width = e.width := by
  cases e <;> simp [outline, width]

@[simp] theorem isVector_outline : (e.outline names).isVector = e.isVector := by
  cases e <;> simp [outline, isVector]

@[simp] theorem isFalse_outline : (e.outline names).isFalse = e.isFalse := by
  cases e <;> simp [outline, isFalse]

@[simp] theorem withoutCollation_outline : (e.outline names).withoutCollation = e.withoutCollation.outline names := by
  fun_induction withoutCollation e with
  | case1 e c ih => rw [outline, withoutCollation, ih]
  | case2 e h =>
    cases e with
    | collate e c => exact absurd rfl (h e c)
    | _ => rfl

@[simp] theorem collation?_outline : (e.outline names).collation? = e.collation? := by
  cases e <;> simp [outline, collation?]

end

mutual

@[simp] theorem outline_outline (e : Expr) : (e.outline names).outline names = e.outline names := by
  cases e with
  | name n => simp [outline]
  | path owners n => simp [outline, Function.comp_def]
  | call form order args =>
    have horder := outline_outlineAll order
    have hargs := outline_outlineAll args
    simp_all [outline, CallForm.outline]
  | operation es | vector es =>
    have hes := outline_outlineAll es
    simp_all [outline]
  | compare a b | same a b => simp [outline, outline_outline a, outline_outline b]
  | between e low high => simp [outline, outline_outline e, outline_outline low, outline_outline high]
  | negative e | positive e | isNull _ e | cast e _ | collate e _ | member e => simp [outline, outline_outline e]
  | _ => rfl

theorem outline_outlineAll (es : List Expr) : (es.map (outline names)).map (outline names) = es.map (outline names) := by
  cases es with
  | nil => rfl
  | cons e es => rw [List.map_cons, List.map_cons, outline_outline e, outline_outlineAll es]

end

mutual

@[simp] theorem isConstant_outline (calls : Bool) (e : Expr) :
    (e.outline names).isConstant calls = e.isConstant calls := by
  cases e with
  | name n => simp [outline, isConstant]
  | call form order args =>
    simp [outline, isConstant, CallForm.outline, allConstant_outline calls order, allConstant_outline calls args]
  | operation es | vector es => simp [outline, isConstant, allConstant_outline calls es]
  | compare a b | same a b => simp [outline, isConstant, isConstant_outline calls a, isConstant_outline calls b]
  | between e low high =>
    simp [outline, isConstant, isConstant_outline calls e, isConstant_outline calls low, isConstant_outline calls high]
  | negative e | positive e | isNull _ e | cast e _ | collate e _ | member e =>
    simp [outline, isConstant, isConstant_outline calls e]
  | _ => simp [outline, isConstant]

theorem allConstant_outline (calls : Bool) (es : List Expr) :
    allConstant calls (es.map (outline names)) = allConstant calls es := by
  cases es with
  | nil => rfl
  | cons e es => rw [List.map_cons, allConstant, allConstant, isConstant_outline calls e, allConstant_outline calls es]

end

mutual

@[simp] theorem settled_outline (e : Expr) : (e.outline names).settled = e.settled.outline names := by
  cases e with
  | name n =>
    rw [outline, settled, Name.truth?_outline, settled]
    cases n.truth? <;> simp [outline]
  | operation es | vector es => simp [outline, settled, settledAll_outline es]
  | compare a b | same a b => simp [outline, settled, settled_outline a, settled_outline b]
  | between e low high => simp [outline, settled, settled_outline e, settled_outline low, settled_outline high]
  | negative e | positive e | isNull _ e | cast e _ | collate e _ => simp [outline, settled, settled_outline e]
  | _ => simp [outline, settled]

theorem settledAll_outline (es : List Expr) :
    settledAll (es.map (outline names)) = (settledAll es).map (outline names) := by
  cases es with
  | nil => rfl
  | cons e es => simp only [List.map_cons, settledAll, settled_outline e, settledAll_outline es]

end

/-! ## Strings as names -/

theorem eq_truth_of_outline {e : Expr} {b : Bool} (h : e.outline names = truth b) : e = truth b := by
  cases e <;> simp_all [outline]

theorem stringAsName_outline (e : Expr) : (e.outline names).stringAsName.outline names = e.stringAsName.outline names := by
  cases e with
  | string s => rfl
  | _ => exact outline_outline _

theorem keyAsName_outline (e : Expr) : (e.outline names).keyAsName.outline names = e.keyAsName.outline names := by
  cases e with
  | collate e c => simp only [outline, keyAsName, stringAsName_outline]
  | _ => simp [outline, keyAsName, stringAsName, Function.comp_def, CallForm.outline]

theorem deepAsName_outline (e : Expr) : (e.outline names).deepAsName.outline names = e.deepAsName.outline names := by
  fun_induction deepAsName e with
  | case1 e c ih => simp only [outline, deepAsName, ih]
  | case2 e h =>
    cases e with
    | collate e c => exact absurd rfl (h e c)
    | _ => simp [outline, deepAsName, stringAsName, Function.comp_def, CallForm.outline]

end Expr

/-! ## Defaults -/

open FirstRow.Store (Encoding)

variable {names}

theorem Default.value?_cast (enc : Encoding) (a : Affinity) (e : Expr) (type : List UInt8) :
    value? enc a (.cast e type) =
      (value? enc (castAffinity type) e).map fun v => (castTo enc (castAffinity type) v).apply a := rfl

@[simp] theorem Default.value?_outline (enc : Encoding) (a : Affinity) (e : Expr) :
    value? enc a (e.outline names) = value? enc a e := by
  fun_induction value? enc a e with
  | case13 a e type b ih =>
    change value? enc (castAffinity type) _ = value? enc (castAffinity type) _ at ih
    rw [Expr.outline, value?_cast, castAffinity_exemplar, ih]
    rfl
  | case12 a e => cases e <;> simp_all [Expr.outline, value?]
  | case14 e => cases e <;> simp_all [Expr.outline, value?]
  | _ => simp_all [Expr.outline, value?]

/-- Expressions of one outline have the same value as a default. -/
theorem defaultValue_eq_of_outline {e e' : Expr} (h : e.outline names = e'.outline names) (enc : Encoding) (a : Affinity) :
    defaultValue enc a e = defaultValue enc a e' := by
  rw [defaultValue, defaultValue, ← Default.value?_outline _ _ e, h, Default.value?_outline]

/-! ## Names that are looked up -/

/-- What was found of two expressions is the same apart from their spelling and from what the faults say. -/
structure Resolved.Alike {α β : Type} (f : α → β) (r r' : Resolved α) : Prop where
  result : f r.result = f r'.result
  fault : r.fault.isSome = r'.fault.isSome
  ended : r.ended = r'.ended

namespace Resolved.Alike

variable {α β γ δ : Type} {f : α → β} {r r' r'' : Resolved α}

theorem symm (h : r.Alike f r') : r'.Alike f r := ⟨h.result.symm, h.fault.symm, h.ended.symm⟩

theorem trans (h : r.Alike f r') (h' : r'.Alike f r'') : r.Alike f r'' :=
  ⟨h.result.trans h'.result, h.fault.trans h'.fault, h.ended.trans h'.ended⟩

theorem map {g : γ → δ} {k k' : α → γ} (h : r.Alike f r') (hk : ∀ a b, f a = f b → g (k a) = g (k' b)) :
    (r.map k).Alike g (r'.map k') :=
  ⟨hk _ _ h.result, h.fault, h.ended⟩

theorem unlessFault {x x' : Option String} (h : r.Alike f r') (hx : x.isSome = x'.isSome) :
    (r.unlessFault x).Alike f (r'.unlessFault x') := by
  unfold Resolved.unlessFault
  rw [← hx]
  split
  · exact ⟨h.result, hx, rfl⟩
  · exact h

theorem andThen {g : γ → δ} {b b' : γ} {k k' : Option String → Resolved γ} (h : r.Alike f r') (hb : g b = g b')
    (hk : ∀ x x' : Option String, x.isSome = x'.isSome → (k x).Alike g (k' x')) :
    (r.andThen b k).Alike (Prod.map f g) (r'.andThen b' k') := by
  unfold Resolved.andThen
  rw [← h.ended]
  split
  · exact ⟨by simp [h.result, hb], h.fault, rfl⟩
  · have hrest := hk _ _ h.fault
    exact ⟨by simp [h.result, Resolved.map, hrest.result], hrest.fault, hrest.ended⟩

end Resolved.Alike

namespace Table

variable {t : Table} {place : Place}

/-- The columns of a table have the names whose quotation marks are left out. -/
abbrev HasNames (t : Table) (names : List (List UInt8)) : Prop :=
  ∀ n ∈ names, (t.column? n).isSome

@[simp] theorem column?_fold (n : List UInt8) : t.column? (fold n) = t.column? n := by
  simp [column?]

theorem column?_congr {n n' : List UInt8} (h : Text.Octet.same n n' = true) : t.column? n = t.column? n' := by
  rw [← column?_fold, Text.Octet.fold_eq_iff.mpr h, column?_fold]

theorem HasNames.isSome_column? (h : t.HasNames names) {n : List UInt8} (hn : isAmong names n = true) :
    (t.column? n).isSome := by
  obtain ⟨m, hm, hsame⟩ := List.any_eq_true.mp hn
  rw [← column?_congr hsame]
  exact h m hm

@[simp] theorem named?_fold (n : List UInt8) : t.named? place (fold n) = t.named? place n := by
  simp [named?, isRowidName]

@[simp] theorem canBeNull_outline (e : Expr) : t.canBeNull (e.outline names) = t.canBeNull e := by
  fun_induction t.canBeNull e with
  | case8 e => cases e <;> simp_all [Expr.outline, canBeNull]
  | _ => simp_all [Expr.outline, canBeNull]

@[simp] theorem named?_outline (n : Name) : t.named? place (n.outline names).text = t.named? place n.text := by
  rw [← named?_fold, Name.fold_text_outline, named?_fold]

theorem resolveName_outline (h : t.HasNames names) {x x' : Option String} (hx : x.isSome = x'.isSome) (n : Name) :
    (t.resolveName place x (n.outline names)).Alike (Expr.outline names) (t.resolveName place x' n) := by
  unfold resolveName
  rw [named?_outline, Name.truth?_outline]
  cases hcolumn : t.named? place n.text with
  | some i => exact ⟨rfl, hx, rfl⟩
  | none =>
    -- a name that names nothing is not one of the columns, so it keeps its mark
    have hother : isAmong names n.text = false := by
      rw [Bool.eq_false_iff]
      intro hamong
      have hsome := HasNames.isSome_column? h hamong
      rw [named?] at hcolumn
      split at hcolumn
      · cases hcolumn
      · next hnone => simp [hnone] at hsome
    have hquotes : (n.outline names).inDoubleQuotes = n.inDoubleQuotes := by
      rw [Name.inDoubleQuotes, Name.mark_outline (by simp [hother]), Name.inDoubleQuotes]
    rw [hquotes]
    cases hdouble : n.inDoubleQuotes with
    | true =>
      have hsame : n.outline names = n := by simp [Name.outline, hother, hdouble]
      rw [hsame]
      exact ⟨rfl, hx, rfl⟩
    | false =>
      cases n.truth? with
      | some b => exact ⟨rfl, hx, rfl⟩
      | none => exact ⟨by simp [Expr.outline], rfl, rfl⟩

@[simp] theorem isNamed_fold (n : List UInt8) : t.isNamed (fold n) = t.isNamed n := by
  simp [isNamed]

/-- What is found of a path, or the path itself where nothing is found. -/
theorem foundPath_congr {x x' m m' : Option String} {e e' : Expr} (hx : x.isSome = x'.isSome)
    (he : e.outline names = e'.outline names) (hm : m.isSome = m'.isSome) {found found' : Option (Option Nat)} :
    found = found' → Resolved.Alike (Expr.outline names)
      (match found with
        | some i => ⟨.column i, x, false⟩
        | none => ⟨e, m, true⟩)
      (match found' with
        | some i => ⟨.column i, x', false⟩
        | none => ⟨e', m', true⟩) := by
  rintro rfl
  cases found with
  | some i => exact ⟨rfl, hx, rfl⟩
  | none => exact ⟨he, hm, rfl⟩

theorem resolvePath_outline {x x' : Option String} (hx : x.isSome = x'.isSome) (owners : List (List UInt8))
    (n : List UInt8) :
    (t.resolvePath place x (owners.map fold) (fold n)).Alike (Expr.outline names)
      (t.resolvePath place x' owners n) := by
  have hdrop : (if place.seesRows then (owners.map fold).drop ((owners.map fold).length - 1) else owners.map fold) =
      (if place.seesRows then owners.drop (owners.length - 1) else owners).map fold := by
    split <;> simp
  have hfault : (if place.seesRows then x else place.prohibits "the \".\" operator").isSome =
      (if place.seesRows then x' else place.prohibits "the \".\" operator").isSome := by
    split
    · exact hx
    · rfl
  have hpath : Expr.outline names (.path (owners.map fold) (fold n)) = Expr.outline names (.path owners n) := by
    simp [Expr.outline, Function.comp_def]
  unfold resolvePath
  simp only [hdrop, named?_fold]
  generalize (if place.seesRows then owners.drop (owners.length - 1) else owners) = os
  refine foundPath_congr hfault hpath (by rfl) ?_
  rcases os with - | ⟨a, - | ⟨b, - | ⟨c, rest⟩⟩⟩ <;> simp

theorem isProbability_outline (e : Expr) : isProbability (e.outline names) = isProbability e := by
  cases e <;> rfl

theorem callFault_outline {x x' : Option String} (hx : x.isSome = x'.isSome) (form : CallForm) (order args : List Expr) :
    (callFault place x form.outline (order.map (Expr.outline names)) (args.map (Expr.outline names))).isSome =
      (callFault place x' form order args).isSome := by
  have hnamed : Function.named form.outline.name = Function.named form.name := by
    simp [Function.named, CallForm.outline]
  have hprobability : (args.map (Expr.outline names))[1]?.any isProbability = args[1]?.any isProbability := by
    rw [List.getElem?_map, Option.any_map]
    congr 1
    exact funext isProbability_outline
  have hwindowed : form.outline.windowed = form.windowed := rfl
  have hfilter : form.outline.filter = form.filter := rfl
  unfold callFault
  simp only [hnamed, hprobability, List.length_map, List.isEmpty_map, hwindowed, hfilter]
  repeat' split
  all_goals first | rfl | exact hx

theorem widthFault_congr {x x' : Option String} (hx : x.isSome = x'.isSome) {a a' : Expr} {others others' : List Expr}
    (ha : a.outline names = a'.outline names)
    (hothers : others.map (Expr.outline names) = others'.map (Expr.outline names)) :
    (widthFault x a others).isSome = (widthFault x' a' others').isSome := by
  have hwidth (a : Expr) (es : List Expr) : es.all (·.width = a.width) =
      (es.map (Expr.outline names)).all (·.width = (a.outline names).width) := by
    simp [List.all_map, Function.comp_def]
  rw [widthFault, widthFault, hwidth a, hwidth a', ha, hothers]
  split
  · exact hx
  · rfl

theorem withCore_outline (core e : Expr) :
    (withCore core e).outline names = withCore (core.outline names) (e.outline names) := by
  fun_induction withCore core e with
  | case1 e c ih => rw [Expr.outline, ih, Expr.outline, withCore]
  | case2 e h =>
    cases e with
    | collate e c => exact absurd rfl (h e c)
    | _ => rfl

/-- In a table that has the columns, the names in an expression are looked up as those in its outline. -/
theorem resolve_outline (h : t.HasNames names) (fault : Option String) (e : Expr) :
    ∀ x : Option String, x.isSome = fault.isSome →
      (t.resolve place x (e.outline names)).Alike (Expr.outline names) (t.resolve place fault e) := by
  have hsides {r r' : Resolved Expr} {b b' : Expr} (hr : r.Alike (Expr.outline names) r')
      (hb : b.outline names = b'.outline names) :
      ((r.andThen b fun fault => leaf fault b).map fun p => Expr.same p.1 p.2).Alike (Expr.outline names)
        ((r'.andThen b' fun fault => leaf fault b').map fun p => Expr.same p.1 p.2) := by
    have hpair : (r.andThen b fun fault => leaf fault b).Alike (Prod.map (Expr.outline names) (Expr.outline names))
        (r'.andThen b' fun fault => leaf fault b') := hr.andThen hb fun x x' hx => ⟨hb, hx, hx⟩
    refine hpair.map fun p q hpq => ?_
    simp only [Prod.map, Prod.mk.injEq] at hpq
    simp [Expr.outline, hpq]
  revert fault e
  refine resolve.induct t place
    (fun fault e => ∀ x : Option String, x.isSome = fault.isSome →
      (t.resolve place x (e.outline names)).Alike (Expr.outline names) (t.resolve place fault e))
    (fun fault es => ∀ x : Option String, x.isSome = fault.isSome →
      (t.resolveAll place x (es.map (Expr.outline names))).Alike (List.map (Expr.outline names))
        (t.resolveAll place fault es))
    ?name ?path ?parameter ?query ?nonempty ?member ?isNull ?notNull ?call ?negative ?positive ?cast ?collate ?operation
    ?vector ?compare ?between ?unknown ?truthName ?named ?truth ?same ?leaf ?nil ?cons
  case name =>
    intro fault n x hx
    simp only [Expr.outline, resolve]
    exact resolveName_outline h hx n
  case path =>
    intro fault owners n x hx
    simp only [Expr.outline, resolve]
    exact resolvePath_outline hx owners n
  case parameter | query | nonempty | member =>
    intros
    simp only [Expr.outline, resolve]
    exact ⟨by simp [Expr.outline], rfl, rfl⟩
  case isNull | notNull =>
    intro fault negated e r hnull ih x hx
    have hr := ih x hx
    have hsame : t.canBeNull (t.resolve place x (e.outline names)).result = t.canBeNull (t.resolve place fault e).result := by
      rw [← canBeNull_outline, hr.result, canBeNull_outline]
    simp only [Expr.outline, resolve, hsame]
    cases t.canBeNull (t.resolve place fault e).result with
    | true => exact ⟨by simp [Expr.outline, hr.result], hr.fault, rfl⟩
    | false => exact ⟨rfl, hr.fault, rfl⟩
  case call =>
    intro fault form order args ih x hx
    have hfault : (callFault place x form.outline (order.map (Expr.outline names))
        (args.map (Expr.outline names))).isSome = (callFault place fault form order args).isSome :=
      callFault_outline hx form order args
    have hr := ih _ hfault
    simp only [Expr.outline, resolve, Expr.outlineAll_eq_map]
    exact ⟨by simp [Expr.outline, hr.result, Function.comp_def], hr.fault, rfl⟩
  case negative | positive =>
    intro fault e ih x hx
    simp only [Expr.outline, resolve]
    exact ((ih none rfl).map fun a b hab => by simp [Expr.outline, hab]).unlessFault hx
  case cast | collate =>
    intro fault e c ih x hx
    simp only [Expr.outline, resolve]
    exact ((ih none rfl).map fun a b hab => by simp [Expr.outline, hab]).unlessFault hx
  case operation | vector =>
    intro fault es ih x hx
    simp only [Expr.outline, resolve, Expr.outlineAll_eq_map]
    exact ((ih none rfl).map fun a b hab => by simp [Expr.outline, hab]).unlessFault hx
  case compare =>
    intro fault a b iha ihb x hx
    simp only [Expr.outline, resolve]
    refine (((iha none rfl).andThen (Expr.outline_outline b) fun y y' hy => ihb y' y hy).map ?_).unlessFault
      (widthFault_congr hx (Expr.outline_outline a) (by simp))
    intro p q hpq
    simp only [Prod.map, Prod.mk.injEq] at hpq
    simp [Expr.outline, hpq]
  case between =>
    intro fault e low high ihlow ihhigh ihe x hx
    simp only [Expr.outline, resolve]
    refine (((ihe none rfl).andThen ?_ fun y y' hy => (ihlow y' y hy).andThen (Expr.outline_outline high)
      fun z z' hz => ihhigh z' z hz).map ?_).unlessFault (widthFault_congr hx (Expr.outline_outline e) (by simp))
    · simp
    · intro p q hpq
      simp only [Prod.map, Prod.mk.injEq] at hpq
      simp [Expr.outline, hpq]
  case unknown =>
    intro fault a b n hb r hended x hx
    have hr : (t.resolveName place x (n.outline names)).Alike (Expr.outline names) (t.resolveName place fault n) :=
      resolveName_outline h hx n
    have hended : (t.resolveName place fault n).ended = true := hended
    simp only [Expr.outline, resolve, Expr.withoutCollation_outline, hb, hr.ended, hended]
    exact ⟨by simp [Expr.outline, withCore_outline, hr.result], hr.fault, rfl⟩
  case truthName =>
    intro fault a b n hb r value hvalue hopen iha x hx
    have hr : (t.resolveName place x (n.outline names)).Alike (Expr.outline names) (t.resolveName place fault n) :=
      resolveName_outline h hx n
    have hopen : (t.resolveName place fault n).ended = false := hopen
    have hvalue : (t.resolveName place fault n).result = .truth value := hvalue
    have hvalue' : (t.resolveName place x (n.outline names)).result = .truth value :=
      Expr.eq_truth_of_outline (hr.result.trans (by rw [hvalue]; rfl))
    simp only [Expr.outline, resolve, Expr.withoutCollation_outline, hb, hr.ended, hopen, hvalue, hvalue']
    exact hsides (iha _ hr.fault) (by simp [withCore_outline])
  case named =>
    intro fault a b n hb r hopen hvalue iha x hx
    have hr : (t.resolveName place x (n.outline names)).Alike (Expr.outline names) (t.resolveName place fault n) :=
      resolveName_outline h hx n
    have hopen : (t.resolveName place fault n).ended = false := hopen
    have hopen' : (t.resolveName place x (n.outline names)).ended = false := hr.ended.trans hopen
    simp only [Expr.outline, resolve, Expr.withoutCollation_outline, hb]
    split
    · next hended => rw [hopen'] at hended; cases hended
    · next value _ htruth =>
      exact absurd (Expr.eq_truth_of_outline (hr.result.symm.trans (by rw [htruth]; rfl))) (hvalue value)
    · split
      · next hended => rw [hopen] at hended; cases hended
      · next value _ htruth => exact absurd htruth (hvalue value)
      · exact (hsides (iha none rfl) (by simp [withCore_outline, hr.result])).unlessFault
          (widthFault_congr hr.fault (Expr.outline_outline a) (by simp [withCore_outline, hr.result]))
  case truth =>
    intro fault a b value hb iha x hx
    simp only [Expr.outline, resolve, Expr.withoutCollation_outline, hb]
    exact (hsides (iha none rfl) (Expr.outline_outline b)).unlessFault hx
  case same =>
    intro fault a b hname htruth iha ihb x hx
    have hname' (n : Name) : (b.outline names).withoutCollation ≠ .name n := by
      rw [Expr.withoutCollation_outline]
      cases hcore : b.withoutCollation <;> simp_all [Expr.outline]
    have htruth' (value : Bool) : (b.outline names).withoutCollation ≠ .truth value := by
      rw [Expr.withoutCollation_outline]
      cases hcore : b.withoutCollation <;> simp_all [Expr.outline]
    rw [Expr.outline, resolve, resolve]
    split
    · next n hn => exact absurd hn (hname' n)
    · next value hvalue => exact absurd hvalue (htruth' value)
    · refine (((iha none rfl).andThen (Expr.outline_outline b) fun y y' hy => ihb y' y hy).map ?_).unlessFault
        (widthFault_congr hx (Expr.outline_outline a) (by simp))
      intro p q hpq
      simp only [Prod.map, Prod.mk.injEq] at hpq
      simp [Expr.outline, hpq]
  case leaf =>
    intro fault e
    intros
    rename_i hx
    have hleaf (e : Expr) (x y : Option String) (h : x.isSome = y.isSome) :
        Resolved.Alike (Expr.outline names) (leaf x e) (leaf y e) := ⟨rfl, h, h⟩
    cases e <;> first | exact hleaf _ _ _ hx | simp_all
  case nil => exact fun fault x hx => ⟨rfl, hx, rfl⟩
  case cons =>
    intro fault e es ih ihs x hx
    simp only [List.map_cons, resolveAll]
    refine ((ih x hx).andThen (by simp) fun y y' hy => ihs y' y hy).map ?_
    intro p q hpq
    simp only [Prod.map, Prod.mk.injEq] at hpq
    simp [hpq]

/-- Names are looked up alike in expressions of one outline. -/
theorem resolve_congr (h : t.HasNames names) {e e' : Expr} (he : e.outline names = e'.outline names)
    {x x' : Option String} (hx : x.isSome = x'.isSome) :
    (t.resolve place x e).Alike (Expr.outline names) (t.resolve place x' e') :=
  (resolve_outline h x e x rfl).symm.trans (he ▸ resolve_outline h x' e' x hx)

end Table

end FirstRow.Sql
