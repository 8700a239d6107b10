import FirstRow.Proofs.Sql.Respelling

/-!
# Types in other letter case

What a declared type means does not depend on its letter case: which affinity it gives, whether it is a standard type,
and how wide its values are taken to be. Every step that takes a type apart does the same to its text in lower case.
-/
namespace FirstRow.Text.Octet

/-- Nothing but a letter changes its case. -/
theorem lower_eq_iff {b m : UInt8} (hupper : ¬(0x41 ≤ m ∧ m ≤ 0x5A)) (hlower : ¬(0x61 ≤ m ∧ m ≤ 0x7A)) :
    lower b = m ↔ b = m := by
  unfold lower
  split
  · next h =>
    simp only [Bool.and_eq_true, decide_eq_true_eq, UInt8.le_iff_toNat_le, UInt8.reduceToNat] at h hupper hlower
    constructor
    · rintro rfl
      simp only [UInt8.toNat_add, UInt8.reduceToNat] at hlower
      omega
    · rintro rfl
      omega
  · exact Iff.rfl

/-- A range in front of the letters has no letter. -/
theorem lower_between_iff (low : UInt8) {high : UInt8} (hhigh : high < 0x41) (b : UInt8) :
    low ≤ lower b ∧ lower b ≤ high ↔ low ≤ b ∧ b ≤ high := by
  unfold lower
  split
  · next h =>
    simp only [Bool.and_eq_true, decide_eq_true_eq, UInt8.le_iff_toNat_le, UInt8.lt_iff_toNat_lt, UInt8.reduceToNat,
      UInt8.toNat_add] at h hhigh ⊢
    omega
  · exact Iff.rfl

@[simp] theorem isBlank_lower (b : UInt8) : isBlank (lower b) = isBlank b := by
  have hrange := lower_between_iff 0x09 (show (0x0D : UInt8) < 0x41 by decide) b
  have hspace := lower_eq_iff (b := b) (show ¬((0x41 : UInt8) ≤ 0x20 ∧ 0x20 ≤ (0x5A : UInt8)) by decide) (by decide)
  rw [Bool.eq_iff_iff]
  simp only [isBlank, Bool.or_eq_true, Bool.and_eq_true, decide_eq_true_eq, hrange, hspace]

@[simp] theorem isDigit_lower (b : UInt8) : isDigit (lower b) = isDigit b := by
  have hrange := lower_between_iff 0x30 (show (0x39 : UInt8) < 0x41 by decide) b
  rw [Bool.eq_iff_iff]
  simp only [isDigit, Bool.and_eq_true, decide_eq_true_eq, hrange]

@[simp] theorem length_fold (s : List UInt8) : (fold s).length = s.length := List.length_map _

theorem lower_of_isDigit {b : UInt8} (h : isDigit b = true) : lower b = b := by
  unfold lower
  rw [if_neg]
  simp only [isDigit, Bool.and_eq_true, decide_eq_true_eq, UInt8.le_iff_toNat_le, UInt8.reduceToNat] at h ⊢
  omega

end FirstRow.Text.Octet

namespace FirstRow.Sql

open Text.Octet (fold lower)

/-! ## Quotation marks -/

theorem Lexeme.quotedContent_fold {mark : UInt8} (hupper : ¬(0x41 ≤ mark ∧ mark ≤ 0x5A))
    (hlower : ¬(0x61 ≤ mark ∧ mark ≤ 0x7A)) (s : List UInt8) :
    quotedContent mark (fold s) = (quotedContent mark s).map fun p => (fold p.1, p.2) := by
  have hmark (b : UInt8) : lower b = mark ↔ b = mark := Text.Octet.lower_eq_iff hupper hlower
  have hsame : lower mark = mark := (hmark mark).mpr rfl
  unfold fold
  fun_induction quotedContent mark s with
  | case1 => rfl
  | case2 rest ih => simp [quotedContent, hsame, ih, Function.comp_def]
  | case3 c rest hc => simp [quotedContent, hsame, hmark, hc]
  | case4 => simp [quotedContent, hsame]
  | case5 b rest hb ih =>
    rw [List.map_cons, quotedContent.eq_def]
    simp only [if_neg (mt (hmark b).mp hb), ih]
    simp [Function.comp_def]

namespace ColumnType

@[simp] theorem isQuotationMark_lower (b : UInt8) : isQuotationMark (lower b) = isQuotationMark b := by
  simp [isQuotationMark, Text.Octet.lower_eq_iff]

theorem unquoteWhole_fold (s : List UInt8) : unquoteWhole (fold s) = fold (unquoteWhole s) := by
  cases s with
  | nil => rfl
  | cons b rest =>
    cases rest with
    | nil => rfl
    | cons c rest =>
      have hinner : (lower c :: rest.map lower).dropLast = (c :: rest).dropLast.map lower := by
        rw [List.map_dropLast, List.map_cons]
      simp only [fold, List.map_cons, unquoteWhole, hinner, isQuotationMark_lower, List.any_map, Function.comp_def]
      split <;> rfl

theorem unquoteFirst_fold (s : List UInt8) : unquoteFirst (fold s) = fold (unquoteFirst s) := by
  cases s with
  | nil => rfl
  | cons b rest =>
    have hcontent : isQuotationMark b = true →
        Lexeme.quotedContent (if lower b = 0x5B then 0x5D else lower b) (fold rest) =
          (Lexeme.quotedContent (if b = 0x5B then 0x5D else b) rest).map fun p => (fold p.1, p.2) := by
      intro hb
      simp only [isQuotationMark, Bool.or_eq_true, decide_eq_true_eq] at hb
      rcases hb with ((rfl | rfl) | rfl) | rfl <;> exact Lexeme.quotedContent_fold (by decide) (by decide) rest
    by_cases hb : isQuotationMark b = true
    · have hfirst : fold (b :: rest) = lower b :: fold rest := rfl
      rw [hfirst, unquoteFirst, unquoteFirst, isQuotationMark_lower, if_pos hb, if_pos hb, hcontent hb]
      cases Lexeme.quotedContent (if b = 0x5B then 0x5D else b) rest with
      | none => rfl
      | some p => rfl
    · simp [fold, unquoteFirst, hb]

/-! ## Words at the end -/

theorem withoutLast_fold (word : String) (s : List UInt8) :
    withoutLast word (fold s) = (withoutLast word s).map fold := by
  have hdrop (n : Nat) : (fold s).drop n = fold (s.drop n) := by rw [fold, fold, List.map_drop]
  have hblank : Text.Octet.isBlank ∘ lower = Text.Octet.isBlank := funext Text.Octet.isBlank_lower
  have hkept (n : Nat) : (((fold s).take n).reverse.dropWhile Text.Octet.isBlank).reverse =
      fold ((s.take n).reverse.dropWhile Text.Octet.isBlank).reverse := by
    rw [fold, fold, ← List.map_take, ← List.map_reverse, List.dropWhile_map, hblank, ← List.map_reverse]
  unfold withoutLast
  simp only [hkept, hdrop, Text.Octet.spells_fold, Text.Octet.length_fold]
  split <;> rfl

theorem withoutGenerated_fold (s : List UInt8) : withoutGenerated (fold s) = fold (withoutGenerated s) := by
  unfold withoutGenerated
  rw [withoutLast_fold, Text.Octet.length_fold]
  split
  · rfl
  · cases withoutLast "always" s with
    | none => rfl
    | some s =>
      simp only [Option.map_some, withoutLast_fold]
      cases withoutLast "generated" s <;> rfl

end ColumnType

/-! ## Affinities -/

theorem Affinity.scan_fold (a : Affinity) (size : Option (List UInt8)) (part s : List UInt8) :
    scan a (size.map fold) part (fold s) = ((scan a size part s).1, (scan a size part s).2.map fold) := by
  induction s generalizing a size part with
  | nil => rfl
  | cons b rest ih =>
    have hhead : (fold rest).head? = some 0x28 ↔ rest.head? = some 0x28 := by
      cases rest with
      | nil => simp [fold]
      | cons c rest => simp [fold, Text.Octet.lower_eq_iff]
    have hfirst : fold (b :: rest) = lower b :: fold rest := rfl
    rw [hfirst]
    unfold scan
    simp only [Text.Octet.lower_lower]
    split
    · rfl
    · rw [← ih]
      congr 1
      simp only [hhead]
      split
      · rfl
      · split <;> rfl

namespace ColumnType

theorem sizeIn_fold (s : List UInt8) : sizeIn (fold s) = sizeIn s := by
  have hdigit : Text.Octet.isDigit ∘ lower = Text.Octet.isDigit := funext Text.Octet.isDigit_lower
  have hnot : (fun b => !Text.Octet.isDigit b) ∘ lower = fun b => !Text.Octet.isDigit b :=
    funext fun b => congrArg not (Text.Octet.isDigit_lower b)
  have hdigits : (((fold s).dropWhile fun b => !Text.Octet.isDigit b).takeWhile Text.Octet.isDigit) =
      (s.dropWhile fun b => !Text.Octet.isDigit b).takeWhile Text.Octet.isDigit := by
    rw [fold, List.dropWhile_map, hnot, List.takeWhile_map, hdigit]
    exact (List.map_congr_left fun b hb => Text.Octet.lower_of_isDigit (List.mem_takeWhile_imp hb)).trans
      (List.map_id' _)
  unfold sizeIn
  rw [hdigits]

theorem widthOf_fold (a : Affinity) (size : Option (List UInt8)) : widthOf a (size.map fold) = widthOf a size := by
  cases size with
  | none => rfl
  | some s => cases a <;> simp [widthOf, sizeIn_fold]

/-- What a type means does not depend on its letter case. -/
theorem outline_ofText_fold (s : List UInt8) : (ofText (fold s)).outline = (ofText s).outline := by
  have hwhole : (if 3 ≤ (withoutGenerated (fold s)).length then unquoteWhole (withoutGenerated (fold s))
      else withoutGenerated (fold s)) =
      fold (if 3 ≤ (withoutGenerated s).length then unquoteWhole (withoutGenerated s) else withoutGenerated s) := by
    rw [withoutGenerated_fold, Text.Octet.length_fold, unquoteWhole_fold]
    split <;> rfl
  unfold ofText
  simp only [hwhole]
  generalize (if 3 ≤ (withoutGenerated s).length then unquoteWhole (withoutGenerated s) else withoutGenerated s) = t
  have hname : StandardType.ofName? (fold t) = StandardType.ofName? t := by simp [StandardType.ofName?]
  have hscan : Affinity.ofText (unquoteFirst (fold t)) =
      ((Affinity.ofText (unquoteFirst t)).1, (Affinity.ofText (unquoteFirst t)).2.map fold) := by
    rw [unquoteFirst_fold]
    exact Affinity.scan_fold .numeric .none [] (unquoteFirst t)
  have hempty : (fold t).isEmpty = t.isEmpty := by cases t <;> rfl
  rw [Text.Octet.length_fold, hname, hempty, hscan]
  cases (if 3 ≤ t.length then StandardType.ofName? t else .none) with
  | some standard => rfl
  | none => cases t.isEmpty <;> simp [outline, widthOf_fold]

theorem outline_ofText_congr {s s' : List UInt8} (h : fold s = fold s') : (ofText s).outline = (ofText s').outline := by
  rw [← outline_ofText_fold s, h, outline_ofText_fold]

end ColumnType

theorem castAffinity_fold (s : List UInt8) : castAffinity (fold s) = castAffinity s := by
  have hscan (s : List UInt8) : (Affinity.ofText (fold s)).1 = (Affinity.ofText s).1 :=
    (Prod.ext_iff.mp (Affinity.scan_fold .numeric none [] s)).1
  simp only [castAffinity, ColumnType.unquoteFirst_fold, hscan]

theorem castAffinity_congr {s s' : List UInt8} (h : fold s = fold s') : castAffinity s = castAffinity s' := by
  rw [← castAffinity_fold s, h, castAffinity_fold]

end FirstRow.Sql
