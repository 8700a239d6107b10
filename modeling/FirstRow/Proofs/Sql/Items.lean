import FirstRow.Proofs.Sql.Clauses
import FirstRow.Proofs.Sql.Declaration
import Mathlib.Data.List.TakeWhile

/-!
# Items of definitions

The items of a definition stand between its parentheses with commas between them: an item ends at the first comma or
closing parenthesis outside of the parentheses within it. `Enclosed` counts parentheses of lexemes, and nothing else is
looked at, so that no comma, parenthesis or keyword counts that is part of another lexeme. A definition is read item by
item: what is read of an item is read of it alone, without what stands behind it.
-/
namespace FirstRow.Sql

/-- Lexemes within which `d` parentheses are closed that were open in front of them, and that have no comma where none
is open. -/
inductive Enclosed : Nat → List Lexeme → Prop where
  | nil : Enclosed 0 []
  | opening {d : Nat} {l : Lexeme} {ls : List Lexeme} : l.isSymbol "(" = true → Enclosed (d + 1) ls →
      Enclosed d (l :: ls)
  | closing {d : Nat} {l : Lexeme} {ls : List Lexeme} : l.isSymbol ")" = true → Enclosed d ls →
      Enclosed (d + 1) (l :: ls)
  | other {d : Nat} {l : Lexeme} {ls : List Lexeme} : l.isSymbol "(" = false → l.isSymbol ")" = false →
      (d = 0 → l.isSymbol "," = false) → Enclosed d ls → Enclosed d (l :: ls)

/-- Lexemes that are an item of a definition. -/
abbrev IsItem (ls : List Lexeme) : Prop := Enclosed 0 ls

namespace Enclosed

variable {d : Nat} {ls : List Lexeme}

/-- What is open is closed. -/
theorem exists_closing (h : Enclosed d ls) (hd : 0 < d) : ∃ l ∈ ls, l.isSymbol ")" = true := by
  induction h with
  | nil => exact absurd hd (Nat.lt_irrefl 0)
  | opening _ _ ih =>
    obtain ⟨l, hl, hclose⟩ := ih (Nat.succ_pos _)
    exact ⟨l, List.mem_cons_of_mem _ hl, hclose⟩
  | closing hl _ _ => exact ⟨_, List.mem_cons_self, hl⟩
  | other _ _ _ _ ih =>
    obtain ⟨l, hl, hclose⟩ := ih hd
    exact ⟨l, List.mem_cons_of_mem _ hl, hclose⟩

/-- Names at the front close nothing. -/
theorem of_names {ws : List Lexeme} (hws : ∀ w ∈ ws, w.plainName?.isSome = true) (h : Enclosed d (ws ++ ls)) :
    Enclosed d ls := by
  induction ws with
  | nil => exact h
  | cons w ws ih =>
    have hname : ∃ n, w.name? = some n := by
      have hsome := hws w List.mem_cons_self
      unfold Lexeme.plainName? at hsome
      split at hsome
      · cases hsome
      · exact Option.isSome_iff_exists.mp hsome
    obtain ⟨n, hn⟩ := hname
    have hsymbol := Lexeme.isSymbol_of_name? hn
    cases h with
    | opening hw => simp [hsymbol] at hw
    | closing hw => simp [hsymbol] at hw
    | other _ _ _ h => exact ih (fun w hw => hws w (List.mem_cons_of_mem _ hw)) h

/-- What is taken up to a lexeme that is there is not all. -/
theorem length_takeWhile_lt {p : Lexeme → Bool} (h : ∃ l ∈ ls, p l = false) : (ls.takeWhile p).length < ls.length := by
  obtain ⟨l, hl, hp⟩ := h
  refine lt_of_le_of_ne (List.takeWhile_prefix p).length_le fun hlength => ?_
  have hall := List.takeWhile_eq_self_iff.mp ((List.takeWhile_prefix p).eq_of_length hlength)
  simp [hall l hl] at hp

/-- The type that comes next is a part of the item. -/
theorem typeAhead_append (h : Enclosed d ls) {e : Lexeme} (he : e.endsItem = true) (rest : List Lexeme) :
    typeAhead (ls ++ e :: rest) = typeAhead ls := by
  have hname : e.plainName?.isSome = false := by
    simp [Lexeme.plainName?, Reader.Agrees.name?_of_endsItem he]
  have hopen : e.isSymbol "(" = false :=
    Reader.Agrees.isSymbol_of_endsItem (κ := ⟨[], some []⟩) (s := .item) (fun _ _ => by decide) rfl rfl he
  obtain ⟨ws, more, rfl, hwords⟩ : ∃ ws more, ls = ws ++ more ∧ ls.takeWhile (·.plainName?.isSome) = ws :=
    ⟨_, _, (List.takeWhile_append_dropWhile (p := fun l : Lexeme => l.plainName?.isSome)).symm, rfl⟩
  have hplain : ∀ w ∈ ws, w.plainName?.isSome = true := by
    intro w hw
    rw [← hwords] at hw
    exact List.mem_takeWhile_imp (p := fun l : Lexeme => l.plainName?.isSome) hw
  have hwords' : (ws ++ more ++ e :: rest).takeWhile (·.plainName?.isSome) = ws := by
    rw [List.append_assoc, List.takeWhile_append_of_pos hplain]
    rw [List.takeWhile_append_of_pos hplain] at hwords
    cases more with
    | nil => simp [hname]
    | cons m more =>
      rw [List.cons_append, List.takeWhile_cons]
      rw [List.takeWhile_cons] at hwords
      split
      · next hm => simp [hm] at hwords
      · rw [List.append_nil]
  unfold typeAhead
  simp only [hwords, hwords']
  rw [List.append_assoc, List.drop_left, List.drop_left]
  cases more with
  | nil => simp [hopen]
  | cons m more =>
    have hhead (ls : List Lexeme) : (m :: ls).head?.any (·.isSymbol "(") = m.isSymbol "(" := rfl
    rw [List.cons_append, hhead, hhead, ← List.cons_append]
    by_cases hm : m.isSymbol "(" = true
    · rw [if_pos hm, if_pos hm]
      -- the parenthesis behind the words is closed within the item
      have hclosed : ∃ l ∈ m :: more, (!l.isSymbol ")") = false := by
        cases h.of_names hplain with
        | opening _ h =>
          obtain ⟨l, hl, hclose⟩ := h.exists_closing (Nat.succ_pos _)
          exact ⟨l, List.mem_cons_of_mem _ hl, by simp [hclose]⟩
        | closing hclose => exact ⟨m, List.mem_cons_self, by simp [hclose]⟩
        | other hopen => simp [hopen] at hm
      have htake := length_takeWhile_lt hclosed
      rw [List.takeWhile_append, if_neg htake.ne, List.take_append_of_le_length htake]
    · rw [if_neg hm, if_neg hm]

end Enclosed

/-! ## Permitted lexemes -/

/-- Every lexeme can stand where it does, from a spot on. -/
inductive Permitted : Spot → List Lexeme → Prop where
  | nil {s : Spot} : Permitted s []
  | cons {s : Spot} {l : Lexeme} {ls : List Lexeme} : s.permits l = true → Permitted (s.behind l) ls →
      Permitted s (l :: ls)

namespace Spot

variable {s : Spot} {l : Lexeme}

theorem depth_behindWord (w : String) : (s.behindWord w).depth = s.depth := by
  unfold behindWord behindOutside behindClause behindInner
  repeat' split
  all_goals rfl

/-- Parentheses alone change how many of them are open. -/
theorem depth_behind (hopen : l.isSymbol "(" = false) (hclose : l.isSymbol ")" = false) :
    (s.behind l).depth = s.depth := by
  unfold behind
  cases htoken : l.token with
  | keyword w v => exact depth_behindWord w
  | symbol t =>
    simp only [Lexeme.isSymbol, htoken, beq_eq_false_iff_ne] at hopen hclose
    simp only [behindSymbol, if_neg hopen, if_neg hclose]
    repeat' split
    all_goals first | rfl | (symm; assumption)
  | _ => rfl

theorem depth_behind_open (hopen : l.isSymbol "(" = true) : (s.behind l).depth = s.depth + 1 := by
  simp [behind_of_isSymbol hopen, behindSymbol]

theorem depth_behind_close (hclose : l.isSymbol ")" = true) : (s.behind l).depth = s.depth - 1 := by
  simp [behind_of_isSymbol hclose, behindSymbol]

/-- A parenthesis that does not end the item closes one that was opened within it. -/
theorem one_lt_depth (hs : 1 ≤ s.depth) (hinner : s.depth = 1 → l.endsItem = false) (hclose : l.isSymbol ")" = true) :
    1 < s.depth := by
  refine lt_of_le_of_ne hs fun h => ?_
  simpa [Lexeme.endsItem, hclose] using hinner h.symm

/-- Behind what does not end the item, the item goes on. -/
theorem one_le_depth_behind (hs : 1 ≤ s.depth) (hinner : s.depth = 1 → l.endsItem = false) :
    1 ≤ (s.behind l).depth := by
  cases hopen : l.isSymbol "(" with
  | true =>
    rw [depth_behind_open hopen]
    omega
  | false =>
    cases hclose : l.isSymbol ")" with
    | true =>
      have hlt := one_lt_depth hs hinner hclose
      rw [depth_behind_close hclose]
      omega
    | false => rwa [depth_behind hopen hclose]

end Spot

/-- What is enclosed behind a lexeme of an item, is with it. -/
theorem Enclosed.of_behind {s : Spot} {l : Lexeme} {ls : List Lexeme} (hs : 1 ≤ s.depth)
    (hinner : s.depth = 1 → l.endsItem = false) (h : Enclosed ((s.behind l).depth - 1) ls) :
    Enclosed (s.depth - 1) (l :: ls) := by
  cases hopen : l.isSymbol "(" with
  | true =>
    refine .opening hopen ?_
    rwa [Spot.depth_behind_open hopen, Nat.sub_add_comm hs] at h
  | false =>
    cases hclose : l.isSymbol ")" with
    | true =>
      have hlt := Spot.one_lt_depth hs hinner hclose
      rw [Spot.depth_behind_close hclose] at h
      rw [show s.depth - 1 = s.depth - 1 - 1 + 1 by omega]
      exact .closing hclose h
    | false =>
      rw [Spot.depth_behind hopen hclose] at h
      refine .other hopen hclose (fun hzero => ?_) h
      have hcut := hinner (by omega)
      simp only [Lexeme.endsItem, Bool.or_eq_false_iff] at hcut
      exact hcut.1

theorem Respells.permitted {κ : Licence} (hκ : κ.ends = false) {s : Spot} {ls ls' : List Lexeme}
    (h : Respells κ s ls ls') : Permitted s ls := by
  induction h with
  | nil => exact .nil
  | cut hrest => simp [Licence.ends_of_rest hrest] at hκ
  | cons hpermits _ _ _ _ ih => exact .cons hpermits ih

/-- Of every definition the text is a respelling itself. -/
theorem Permitted.respells {s : Spot} {ls : List Lexeme} (h : Permitted s ls) : Respells ⟨[], none⟩ s ls ls := by
  induction h with
  | nil => exact .nil
  | @cons s l ls hpermits _ ih =>
    refine .cons hpermits (.same (.refl l) fun _ => .inl rfl) (fun _ => ?_) ih fun h => by cases h
    unfold TypesAgree
    split <;> rfl

/-- What lies ahead begins with an item: the item alone is a respelling of it that ends there. -/
theorem Permitted.exists_item {s : Spot} {ls : List Lexeme} (h : Permitted s ls) (hs : 1 ≤ s.depth) :
    ∃ item tail, ls = item ++ tail ∧ Respells ⟨[], some tail⟩ s ls item ∧
      ∀ e rest, tail = e :: rest → e.endsItem = true ∧ Enclosed (s.depth - 1) item ∧
        ∃ s₁ : Spot, s₁.depth = 1 ∧ Permitted s₁ tail := by
  induction h with
  | nil => exact ⟨[], [], rfl, .nil, nofun⟩
  | @cons s l ls hpermits hrest ih =>
    by_cases hends : s.depth = 1 ∧ l.endsItem = true
    · refine ⟨[], l :: ls, rfl, .cut rfl hends.1 hends.2, fun e rest htail => ?_⟩
      cases htail
      rw [hends.1]
      exact ⟨hends.2, .nil, s, hends.1, .cons hpermits hrest⟩
    · have hinner : s.depth = 1 → l.endsItem = false := fun h => by simpa [h] using hends
      obtain ⟨item, tail, rfl, hrespells, htail⟩ := ih (Spot.one_le_depth_behind hs hinner)
      refine ⟨l :: item, tail, rfl, .cons hpermits (.same (.refl l) fun _ => .inl rfl) (fun _ => ?_) hrespells
        fun _ => hinner, fun e rest hcons => ?_⟩
      · have htype : typeAhead (l :: (item ++ tail)) = typeAhead (l :: item) := by
          cases tail with
          | nil => rw [List.append_nil]
          | cons e rest =>
            obtain ⟨hend, henclosed, -⟩ := htail e rest rfl
            exact (henclosed.of_behind hs hinner).typeAhead_append hend rest
        unfold TypesAgree typeText
        rw [htype]
        split <;> rfl
      · obtain ⟨hend, henclosed, hspot⟩ := htail e rest hcons
        exact ⟨hend, henclosed.of_behind hs hinner, hspot⟩

end FirstRow.Sql
