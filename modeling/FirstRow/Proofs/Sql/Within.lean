import FirstRow.Proofs.Sql.Parallel
import FirstRow.Sql.Query

/-!
# Within parentheses

Within the parentheses of an item all that is known of a place is what can be written there in other quotation marks:
an expression begins, or its operators follow, or a type or a collation. The lemmas here say what stands behind the
symbols and the words of expressions, and which of them are not permitted.
-/
namespace FirstRow.Sql

open Text.Octet (fold)

variable {κ : Licence} {s : Spot}

/-! ## Spots within parentheses -/

namespace Spot

/-- The same place with something else looked for. -/
def wants (s : Spot) (m : Mode) : Spot := { s with mode := m }

/-- The place behind one more parenthesis. -/
def deeper (s : Spot) (m : Mode) : Spot := { s with depth := s.depth + 1, mode := m }

@[simp] theorem depth_wants (m : Mode) : (s.wants m).depth = s.depth := rfl

@[simp] theorem mode_wants (m : Mode) : (s.wants m).mode = m := rfl

@[simp] theorem listing_wants (m : Mode) : (s.wants m).listing = s.listing := rfl

@[simp] theorem wants_wants (m m' : Mode) : (s.wants m).wants m' = s.wants m' := rfl

@[simp] theorem shut_wants (m : Mode) : (s.wants m).shut = s.shut := rfl

@[simp] theorem wants_shut (m : Mode) : s.shut.wants m = s.wants m := rfl

theorem wants_of_mode {m : Mode} (h : s.mode = m) : s.wants m = s := h ▸ rfl

theorem shut_of_plain (h : s.mode = .plain) : s.shut = s := wants_of_mode h

@[simp] theorem depth_shut : s.shut.depth = s.depth := rfl

@[simp] theorem mode_shut : s.shut.mode = .plain := rfl

@[simp] theorem depth_deeper (m : Mode) : (s.deeper m).depth = s.depth + 1 := rfl

@[simp] theorem mode_deeper (m : Mode) : (s.deeper m).mode = m := rfl

@[simp] theorem deeper_wants (m m' : Mode) : (s.wants m).deeper m' = s.deeper m' := rfl

@[simp] theorem deeper_shut (m : Mode) : s.shut.deeper m = s.deeper m := rfl

/-- An expression begins within parentheses. -/
structure Begins (s : Spot) : Prop where
  inner : 2 ≤ s.depth
  mode : s.mode = .operand ∨ s.mode = .opening

theorem begins_operand (hs : 2 ≤ s.depth) : (s.wants .operand).Begins := ⟨hs, .inl rfl⟩

theorem begins_deeper (hs : 1 ≤ s.depth) {m : Mode} (hm : m = .operand ∨ m = .opening) : (s.deeper m).Begins :=
  ⟨by simp only [depth_deeper]; omega, hm⟩

namespace Begins

theorem isOperand (hs : s.Begins) : s.mode.isOperand = true := by
  rcases hs.mode with h | h <;> rw [h] <;> rfl

theorem isName (hs : s.Begins) : s.mode.isName = false := by
  rcases hs.mode with h | h <;> rw [h] <;> rfl

theorem ne_key (hs : s.Begins) : s.mode ≠ .key := by
  rcases hs.mode with h | h <;> rw [h] <;> decide

theorem ne_path (hs : s.Begins) : s.mode ≠ .path := by
  rcases hs.mode with h | h <;> rw [h] <;> decide

theorem ne_plain (hs : s.Begins) : s.mode ≠ .plain := by
  rcases hs.mode with h | h <;> rw [h] <;> decide

theorem behindName (hs : s.Begins) : s.mode.behindName = .plain := by
  rcases hs.mode with h | h <;> rw [h] <;> rfl

theorem behindOther (hs : s.Begins) : s.behindOther = s.shut := by
  rw [Spot.behindOther, hs.behindName]
  rfl

theorem keeps (hs : s.Begins) {w : String} (hw : (Lexeme.reserved ++ Lexeme.operandWords).contains w = true) :
    s.mode.keeps w = true := by
  rw [List.contains_iff_mem, List.mem_append] at hw
  rw [Mode.keeps, hs.isName, hs.isOperand]
  rcases hw with hw | hw <;> simp [hw]

end Begins

theorem behindSymbol_open (hs : 2 ≤ s.depth) :
    s.behindSymbol "(" = s.deeper (if s.mode.isOperand || s.mode = .members then .opening else .operand) := by
  simp only [behindSymbol, if_pos]
  rw [if_neg (by omega), if_neg (by omega)]
  rfl

theorem behindSymbol_close (hs : 2 ≤ s.depth) (m : Mode) : (s.deeper m).behindSymbol ")" = s.shut := by
  have hdepth : ¬s.depth + 1 ≤ 2 := by omega
  simp [behindSymbol, deeper, shut, hdepth]

/-- What closes a parenthesis, whatever was looked for in front of it. -/
theorem behindSymbol_close_wants (hs : 2 ≤ s.depth) (m m' : Mode) :
    ((s.deeper m).wants m').behindSymbol ")" = s.shut := behindSymbol_close hs m'

/-- An opening parenthesis within an item. -/
theorem exists_behindSymbol_open (hs : 1 ≤ s.depth) : ∃ m, s.behindSymbol "(" = s.deeper m := by
  simp only [behindSymbol, if_pos]
  rw [if_neg (by omega)]
  exact ⟨_, rfl⟩

/-- What closes the outermost parenthesis of an item that holds expressions. -/
theorem behindSymbol_close_item (hs : s.depth = 1) (hlisting : s.listing = .expressions) (m : Mode) :
    (s.deeper m).behindSymbol ")" = s.shut := by
  simp [behindSymbol, deeper, shut, hs, hlisting]

theorem exists_behindSymbol_comma (hs : 2 ≤ s.depth) : ∃ m, s.behindSymbol "," = s.wants m := by
  have hzero : s.depth ≠ 0 := by omega
  have hone : s.depth ≠ 1 := by omega
  exact ⟨_, by simp [behindSymbol, wants, hzero, hone]; rfl⟩

theorem behindSymbol_comma (hs : 3 ≤ s.depth) : s.behindSymbol "," = s.wants .operand := by
  have hzero : s.depth ≠ 0 := by omega
  have hone : s.depth ≠ 1 := by omega
  have htwo : s.depth ≠ 2 := by omega
  simp [behindSymbol, wants, hzero, hone, htwo]

theorem behindSymbol_dot (hs : 2 ≤ s.depth) : s.behindSymbol "." = s.wants .path := by
  have hzero : s.depth ≠ 0 := by omega
  have hone : s.depth ≠ 1 := by omega
  simp [behindSymbol, wants, hzero, hone]

/-- Behind an operator an expression begins. -/
theorem behindSymbol_operator (hs : 2 ≤ s.depth) {t : String} (ht : t ∉ ["(", ")", ",", "."]) :
    s.behindSymbol t = s.wants .operand := by
  have hzero : s.depth ≠ 0 := by omega
  have hone : s.depth ≠ 1 := by omega
  simp only [List.mem_cons, List.not_mem_nil, or_false, not_or] at ht
  simp [behindSymbol, wants, hzero, hone, ht]

theorem behindWord_inner (hs : 2 ≤ s.depth) {w : String} (hw : Lexeme.reserved.contains w = true) :
    s.behindWord w = s.behindInner w := by
  simp only [behindWord, hw]
  rw [if_neg (by simp), if_neg (by omega), if_neg (by omega)]

/-- What a spot within parentheses does not permit. -/
theorem permits_inner (hs : 2 ≤ s.depth) {l : Lexeme} (h : s.permits l = true) :
    l.isOneOf queryWords = false ∧ (s.mode.isOperand = true → s.mode ≠ .path → l.isWord "raise" = false) ∧
      (s.mode = .opening → l.isWord "with" = false) := by
  have hzero : s.depth ≠ 0 := by omega
  have hone : s.depth ≠ 1 := by omega
  simp only [permits, hzero, hone, if_false, decide_false, Bool.false_or, Bool.and_eq_true, Bool.not_eq_true', Bool.and_eq_false_imp,
    decide_eq_true_eq] at h
  exact ⟨h.1.1, fun hoperand hpath => h.1.2 ⟨hoperand, hpath⟩, h.2⟩

/-- Behind some words an expression begins. -/
theorem behindWord_opener (hs : 2 ≤ s.depth) {w : String} (hw : w ∈ openers) : s.behindWord w = s.wants .operand := by
  have hreserved : ∀ w ∈ openers, Lexeme.reserved.contains w = true := by decide
  rw [behindWord_inner hs (hreserved w hw), behindInner, if_pos (List.contains_iff_mem.mpr hw)]
  rfl

/-- Behind some words there is nothing that can be written in other quotation marks. -/
theorem behindWord_closer (hs : 2 ≤ s.depth) {w : String} (hw : w ∈ ["null", "isnull", "notnull", "exists", "order"]) :
    s.behindWord w = s.shut := by
  have hwords : ∀ w ∈ ["null", "isnull", "notnull", "exists", "order"], Lexeme.reserved.contains w = true ∧
      openers.contains w = false ∧ w ≠ "in" ∧ w ≠ "as" ∧ w ≠ "collate" ∧ w ≠ "not" := by decide
  obtain ⟨hreserved, hopener, hin, has, hcollate, hnot⟩ := hwords w hw
  rw [behindWord_inner hs hreserved]
  simpa [behindInner, hin, has, hcollate, hnot, shut] using hopener

theorem behindWord_as (hs : 2 ≤ s.depth) : s.behindWord "as" = s.wants .type := by
  rw [behindWord_inner hs (by decide)]
  rfl

theorem behindWord_in (hs : 2 ≤ s.depth) : s.behindWord "in" = s.wants .members := by
  rw [behindWord_inner hs (by decide)]
  rfl

theorem behindWord_collate (hs : 2 ≤ s.depth) : s.behindWord "collate" = s.wants .collation := by
  rw [behindWord_inner hs (by decide)]
  rfl

theorem behindWord_not (hs : 2 ≤ s.depth) :
    s.behindWord "not" = s.wants (if s.mode.isOperand then .operand else .plain) := by
  rw [behindWord_inner hs (by decide)]
  simp [behindInner, openers, wants]

/-- Behind a word that is not reserved nothing changes but where such a word is an operator. -/
theorem behindWord_free {w : String} (hreserved : Lexeme.reserved.contains w = false)
    (hoperator : (w == "by" || Reader.matchers.contains w) = false) :
    s.behindWord w = s.wants s.mode.behindName := by
  have hnot : ¬((decide (s.mode = .plain) && decide (2 ≤ s.depth) &&
      (decide (w = "by") || Reader.matchers.contains w)) = true) := by
    rw [show decide (w = "by") = (w == "by") from rfl, hoperator, Bool.and_false]
    exact Bool.false_ne_true
  rw [behindWord, hreserved, if_pos (by simp), if_neg hnot]
  rfl

/-- Behind a word that compares with a pattern an expression begins, and so it does behind `BY`. -/
theorem behindWord_operator (hs : 2 ≤ s.depth) (hmode : s.mode = .plain) {w : String}
    (hw : w ∈ "by" :: Reader.matchers) : s.behindWord w = s.wants .operand := by
  have hreserved : ∀ w ∈ "by" :: Reader.matchers, Lexeme.reserved.contains w = false := by decide
  simp only [behindWord, hreserved w hw, hmode]
  rw [if_pos (by simp), if_pos]
  · rfl
  · simpa [hs] using hw

end Spot

/-! ## Lexemes within parentheses -/

theorem Mode.keeps_of_reserved (m : Mode) {w : String} (hw : Lexeme.reserved.contains w = true) : m.keeps w = true := by
  rw [keeps, hw, Bool.true_or]

namespace Pair

variable {l l' : Lexeme} {next : Option Lexeme}

/-- A lexeme that begins an expression is the same, or a name. -/
theorem same_or_operandName? (h : Pair κ s l l' next) (hs : s.Begins) :
    l.Same l' ∨ ∃ n, l.operandName? = some n ∧ l'.operandName? = some n ∧
      ((s.mode = .path ∨ next.any (·.isSymbol ".") = true) ∨
        isAmong κ.names n = true ∧ l.isTruth = false ∧ l'.isTruth = false) := by
  cases h with
  | same hsame => exact .inl hsame
  | name hmode => simp [hs.isName] at hmode
  | operand n _ hn hn' hwhy => exact .inr ⟨n, hn, hn', hwhy⟩
  | key n hmode => exact absurd hmode hs.ne_key

/-- What is not a name is the same. -/
theorem same_of_operandName? (h : Pair κ s l l' next) (hs : s.Begins) (hl : l.operandName? = none) : l.Same l' := by
  rcases h.same_or_operandName? hs with hsame | ⟨n, hn, -⟩
  · exact hsame
  · rw [hl] at hn
    cases hn

/-- Nothing but a name is replaced by something else. -/
theorem same_of_name? (h : Pair κ s l l' next) (hl : l.name? = none) : l.Same l' := by
  cases h with
  | same hsame => exact hsame
  | name _ hsome => simp [hl] at hsome
  | operand n _ hn => simp [Lexeme.name?_of_operandName? hn] at hl
  | key n _ hn => simp [Lexeme.name?_of_keyName? hn] at hl

/-- Names are the same up to letter case, whatever quotation marks they stand in. -/
theorem fold_name? (h : Pair κ s l l' next) : l.name?.map fold = l'.name?.map fold := by
  cases h with
  | same hsame => exact hsame.name?
  | name _ _ heq => rw [heq]
  | operand n _ hn hn' => rw [Lexeme.name?_of_operandName? hn, Lexeme.name?_of_operandName? hn']
  | key n _ hn hn' => rw [Lexeme.name?_of_keyName? hn, Lexeme.name?_of_keyName? hn']

end Pair

theorem Lexeme.Same.beginsExpr {l l' : Lexeme} (h : l.Same l') : Reader.beginsExpr l = Reader.beginsExpr l' := by
  unfold Reader.beginsExpr
  rcases h.token_cases with htoken | ⟨k, w, w', htoken, htoken', -⟩ | ⟨w, w', htoken, htoken', -⟩
  · simp only [htoken, h.name?_isSome, h.isOneOf]
  · simp only [htoken, htoken', h.name?_isSome, h.isOneOf]
  · simp only [htoken, htoken', h.name?_isSome, h.isOneOf]

theorem Lexeme.beginsExpr_of_operandName? {l : Lexeme} {n : List UInt8} (h : l.operandName? = some n) :
    Reader.beginsExpr l = true := by
  have hname := name?_of_operandName? h
  rcases token_of_operandName? h with ⟨k, htoken, -⟩ | htoken | ⟨m, htoken⟩ <;>
    simp [Reader.beginsExpr, htoken, hname]

/-- A name that is no truth value as a bare word is none in the quotation marks that it stands in. -/
theorem Lexeme.truth?_of_operandName? {l : Lexeme} {n : List UInt8} (hn : l.operandName? = some n)
    (hl : l.isTruth = false) : (Name.mk n l.mark?).truth? = none := by
  rcases token_of_operandName? hn with ⟨k, htoken, -⟩ | htoken | ⟨m, htoken⟩
  · simpa [isTruth, mark?, htoken] using hl
  · simpa [isTruth, mark?, htoken] using hl
  · exact Name.truth?_eq_none (by simp [mark?, htoken])

/-! ## Reading -/

namespace Reader

/-- Both readers come to a place within the same parentheses. -/
def Near {α β : Type} (t : Spot) (R : α → β → Prop) (s : Spot) (a : α) (b : β) : Prop := (∃ m, s = t.wants m) ∧ R a b

namespace Agrees

variable {α β γ δ : Type}

/-- What is read behind a reader that comes to a place within the same parentheses. -/
theorem nearby {r : Reader α} {r' : Reader β} {f : α → Reader γ} {f' : β → Reader δ} {t : Spot} {A : α → β → Prop}
    {R : Spot → γ → δ → Prop} (hr : Agrees κ s r r' (Near t A))
    (hf : ∀ m a b, A a b → Agrees κ (t.wants m) (f a) (f' b) R) : Agrees κ s (r >>= f) (r' >>= f') R :=
  hr.bind fun _ a b ⟨⟨m, hs⟩, hab⟩ => hs ▸ hf m a b hab

/-- An opening parenthesis where no expression begins. -/
theorem openPlain (hs : 2 ≤ s.depth) :
    Agrees κ s.shut (Reader.symbol "(") (Reader.symbol "(") (At (s.deeper .operand) fun _ _ => True) := by
  have hsymbol := symbol (κ := κ) (s := s.shut) "(" fun _ h => absurd h (by simp only [Spot.depth_shut]; omega)
  rwa [Spot.behindSymbol_open (s := s.shut) hs] at hsymbol

/-- An opening parenthesis where an expression begins. -/
theorem openOperand (hs : s.Begins) :
    Agrees κ s (Reader.symbol "(") (Reader.symbol "(") (At (s.deeper .opening) fun _ _ => True) := by
  have hsymbol := symbol (κ := κ) (s := s) "(" fun _ h => absurd h (by have := hs.inner; omega)
  rwa [Spot.behindSymbol_open hs.inner, hs.isOperand] at hsymbol

/-- A closing parenthesis. -/
theorem close (hs : 2 ≤ s.depth) (m m' : Mode) :
    Agrees κ ((s.deeper m).wants m') (Reader.symbol ")") (Reader.symbol ")") (At s.shut fun _ _ => True) := by
  rw [← Spot.behindSymbol_close_wants hs m m']
  exact symbol ")" fun _ h => absurd h (by simp only [Spot.depth_wants, Spot.depth_deeper]; omega)

/-- A word behind which an expression begins. -/
theorem opener (hs : 2 ≤ s.depth) (w : String) (hw : w ∈ Spot.openers) (hkeeps : s.mode.keeps w = true) :
    Agrees κ s (Reader.word w) (Reader.word w) (At (s.wants .operand) fun _ _ => True) := by
  rw [← Spot.behindWord_opener hs hw]
  exact word w hkeeps

theorem seesBeginsExpr (hs : s.Begins) :
    Agrees κ s (Reader.sees Reader.beginsExpr) (Reader.sees Reader.beginsExpr) (At s (· = ·)) := by
  refine sees (fun l l' next hpair _ => ?_) fun _ h => absurd h (by have := hs.inner; omega)
  rcases hpair.same_or_operandName? hs with hsame | ⟨n, hn, hn', -⟩
  · exact hsame.beginsExpr
  · rw [Lexeme.beginsExpr_of_operandName? hn, Lexeme.beginsExpr_of_operandName? hn']

/-- A word that the spot does not permit is in neither text. -/
theorem unseenOneOf (hs : 2 ≤ s.depth) {ws : List String} (hkeeps : ws.all s.mode.keeps = true)
    (hpermits : ∀ l, s.permits l = true → l.isOneOf ws = false) :
    Agrees κ s (Reader.seesOneOf ws) (Reader.seesOneOf ws) (At s fun a b => a = false ∧ b = false) := by
  refine unseen (fun l l' next hpair hl => ?_) fun _ h => absurd h (by omega)
  have hnone := hpermits l hl
  exact ⟨hnone, hpair.isOneOf hkeeps ▸ hnone⟩

/-- A query does not begin behind a parenthesis. -/
theorem unseenQuery (hs : 2 ≤ s.depth) (hmode : s.mode = .opening) :
    Agrees κ s (Reader.sees Reader.beginsQuery) (Reader.sees Reader.beginsQuery)
      (At s fun a b => a = false ∧ b = false) := by
  refine unseenOneOf hs (by rw [hmode]; decide) fun l hl => ?_
  obtain ⟨hquery, -, hwith⟩ := Spot.permits_inner hs hl
  rw [Lexeme.isOneOf_eq_any] at hquery ⊢
  simp_all [Spot.queryWords]

end Agrees
end Reader
end FirstRow.Sql
