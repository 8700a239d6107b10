import FirstRow.Proofs.Sql.Within

/-!
# The text of a type

A type is read word by word, and its text is what stands between its first and its last lexeme. `typeText` says of the
lexemes ahead, without reading them, what this text is. In a respelling the type is read up to the same place.
-/
namespace FirstRow.Sql

variable {κ : Licence} {s : Spot}

/-! ## What is taken -/

namespace Reader

variable {α β : Type}

theorem take_ok {g : Lexeme → Option α} {c c' : Cursor} {a : α} (h : (take g).run c = .ok (a, c')) :
    ∃ l, g l = some a ∧ c.ahead = l :: c'.ahead ∧ c'.place = c.place + 1 ∧ c'.size = c.size := by
  change Reader.take g c = _ at h
  unfold Reader.take at h
  split at h
  · cases h
  next l rest hahead =>
  split at h
  · cases h
  next found hfound =>
  split at h
  · cases h
  split at h
  · cases h
  cases h
  exact ⟨l, hfound, hahead, rfl, rfl⟩

theorem phrase_ok {r : Reader α} {c c' : Cursor} {a : α} (h : (phrase r).run c = .ok (a, c')) :
    ∃ c₁, r.run c = .ok (a, c₁) ∧ c' = { c₁ with height := c.height + 1 } := by
  obtain ⟨_, c₁, hget, h⟩ := bind_ok h
  cases hget
  obtain ⟨a, c₂, ha, h⟩ := bind_ok h
  obtain ⟨_, c₃, hset, h⟩ := bind_ok h
  cases hset
  obtain ⟨rfl, rfl⟩ := pure_ok h
  exact ⟨c₂, ha, rfl⟩

theorem run_phrase {r : Reader α} {c c₁ : Cursor} {a : α} (h : r.run c = .ok (a, c₁)) :
    (phrase r).run c = .ok (a, { c₁ with height := c.height + 1 }) := by
  change (r >>= fun a => do modify ({ · with height := c.height + 1 }); return a : Reader α).run c = _
  rw [StateT.run_bind, h]
  rfl

theorem joined_ok {r : Reader α} {c c' : Cursor} {a : α} (h : (joined r).run c = .ok (a, c')) :
    ∃ c₁, r.run c = .ok (a, c₁) ∧ c' = { c₁ with height := c.height } := by
  obtain ⟨_, c₁, hget, h⟩ := bind_ok h
  cases hget
  obtain ⟨a, c₂, ha, h⟩ := bind_ok h
  obtain ⟨_, c₃, hset, h⟩ := bind_ok h
  cases hset
  obtain ⟨rfl, rfl⟩ := pure_ok h
  exact ⟨c₂, ha, rfl⟩

/-- A reader takes lexemes from the front, and what it takes and leaves has a property. -/
def Takes (r : Reader α) (P : α → List Lexeme → List Lexeme → Prop) : Prop :=
  ∀ c a c', c.ahead.length ≤ c.size → r.run c = .ok (a, c') →
    ∃ taken, c.ahead = taken ++ c'.ahead ∧ c'.place = c.place + taken.length ∧ c'.size = c.size ∧ P a taken c'.ahead

namespace Takes

variable {r : Reader α} {f : α → Reader β} {P P' : α → List Lexeme → List Lexeme → Prop}
  {Q : β → List Lexeme → List Lexeme → Prop}

theorem pure {a : α} (h : ∀ left, P a [] left) : Takes (Pure.pure a) P := by
  intro c b c' _ hrun
  obtain ⟨rfl, rfl⟩ := pure_ok hrun
  exact ⟨[], rfl, rfl, rfl, h _⟩

theorem mono (hr : Takes r P) (h : ∀ a taken left, P a taken left → P' a taken left) : Takes r P' := by
  intro c a c' hlength hrun
  obtain ⟨taken, hahead, hplace, hsize, hP⟩ := hr c a c' hlength hrun
  exact ⟨taken, hahead, hplace, hsize, h _ _ _ hP⟩

theorem bind (hr : Takes r P)
    (hf : ∀ a, Takes (f a) fun b taken' left => ∀ taken, P a taken (taken' ++ left) → Q b (taken ++ taken') left) :
    Takes (r >>= f) Q := by
  intro c b c'' hlength hrun
  obtain ⟨a, c', hr', hf'⟩ := bind_ok hrun
  obtain ⟨taken, hahead, hplace, hsize, hP⟩ := hr c a c' hlength hr'
  have hlength' : c'.ahead.length ≤ c'.size := by
    rw [hahead, List.length_append] at hlength
    omega
  obtain ⟨taken', hahead', hplace', hsize', hQ⟩ := hf a c' b c'' hlength' hf'
  refine ⟨taken ++ taken', ?_, ?_, hsize'.trans hsize, hQ taken (hahead' ▸ hP)⟩
  · rw [hahead, hahead', List.append_assoc]
  · rw [hplace', hplace, List.length_append]
    omega

theorem discard {O : Unit → List Lexeme → List Lexeme → Prop} (hr : Takes r P)
    (h : ∀ a taken left, P a taken left → O () taken left) : Takes (Functor.discard r) O := by
  have hmap : Functor.discard r = r >>= fun _ => Pure.pure () := by
    rw [bind_pure_comp]
    rfl
  rw [hmap]
  refine bind hr fun a => pure fun left taken hP => ?_
  rw [List.append_nil]
  exact h a taken left hP

theorem take {g : Lexeme → Option α} (h : ∀ l a left, g l = some a → P a [l] left) : Takes (Reader.take g) P := by
  intro c a c' _ hrun
  obtain ⟨l, hl, hahead, hplace, hsize⟩ := take_ok hrun
  exact ⟨[l], hahead, hplace, hsize, h l a _ hl⟩

theorem takeThat {p : Lexeme → Bool} {P : Lexeme → List Lexeme → List Lexeme → Prop}
    (h : ∀ l left, p l = true → P l [l] left) : Takes (Reader.takeThat p) P :=
  take fun l a left hl => by
    split at hl
    · next hp =>
      cases hl
      exact h l left hp
    · cases hl

/-- What depends on the next lexeme alone. -/
theorem sees {p : Lexeme → Bool} {f : Bool → Reader β}
    (hf : ∀ x, Takes (f x) fun b taken left => (taken ++ left).head?.any p = x → Q b taken left) :
    Takes (Reader.sees p >>= f) Q := by
  intro c b c' hlength hrun
  obtain ⟨x, c₁, hsees, hrun⟩ := bind_ok hrun
  obtain ⟨rfl, rfl⟩ : c.ahead.head?.any p = x ∧ c = c₁ := by
    cases hsees
    exact ⟨rfl, rfl⟩
  obtain ⟨taken, hahead, hplace, hsize, hQ⟩ := hf _ c b c' hlength hrun
  exact ⟨taken, hahead, hplace, hsize, hQ (by rw [hahead])⟩

/-- What is taken does not depend on the height of the stack. -/
theorem phrase (hr : Takes r P) : Takes (Reader.phrase r) P := by
  intro c b c' hlength hrun
  obtain ⟨c₁, hrun', rfl⟩ := phrase_ok hrun
  exact hr c b c₁ hlength hrun'

theorem vacant {P : Unit → List Lexeme → List Lexeme → Prop} (h : ∀ left, P () [] left) : Takes Reader.vacant P := by
  intro c a c' _ hrun
  change Reader.vacant c = _ at hrun
  unfold Reader.vacant at hrun
  split at hrun
  · cases hrun
  · cases hrun
    exact ⟨[], rfl, rfl, rfl, h _⟩

/-- A lexeme that is taken if it comes next. -/
theorem takes (p : Lexeme → Bool) : Takes (Reader.takes p) fun x taken left =>
    if x then ∃ l, taken = [l] ∧ p l = true else taken = [] ∧ left.head?.any p = false := by
  refine .sees fun x => ?_
  cases x with
  | true =>
    refine .bind (P := fun _ taken _ => ∃ l, taken = [l] ∧ p l = true) ?_ fun _ => .pure ?_
    · exact .discard (.takeThat fun l _ hl => ⟨l, rfl, hl⟩) fun _ _ _ h => h
    · rintro left taken ⟨l, rfl, hl⟩ -
      exact ⟨l, rfl, hl⟩
  | false => exact .pure fun left hnone => ⟨rfl, hnone⟩

/-- As many lexemes with a property as there are. -/
theorem many {p : Lexeme → Bool} {g : Lexeme → Option α} (hg : ∀ l, (g l).isSome = p l) :
    Takes (Reader.many p (Reader.take g)) fun _ taken left => (taken ++ left).takeWhile p = taken := by
  have hloop (n : Nat) : ∀ c a c', c.ahead.length ≤ n → (Reader.loop p (Reader.take g) n).run c = .ok (a, c') →
      ∃ taken, c.ahead = taken ++ c'.ahead ∧ c'.place = c.place + taken.length ∧ c'.size = c.size ∧
        (taken ++ c'.ahead).takeWhile p = taken := by
    induction n with
    | zero =>
      intro c a c' hlength hrun
      obtain ⟨-, rfl⟩ := pure_ok hrun
      rw [List.length_eq_zero_iff.mp (Nat.le_zero.mp hlength)]
      exact ⟨[], rfl, rfl, rfl, rfl⟩
    | succ n ih =>
      intro c a c' hlength hrun
      obtain ⟨x, c₁, hsees, hrun⟩ := bind_ok hrun
      obtain ⟨rfl, rfl⟩ : c.ahead.head?.any p = x ∧ c = c₁ := by
        cases hsees
        exact ⟨rfl, rfl⟩
      split at hrun
      · obtain ⟨b, c₁, hone, hrun⟩ := bind_ok hrun
        obtain ⟨bs, c₂, hrest, hrun⟩ := bind_ok hrun
        obtain ⟨-, rfl⟩ := pure_ok hrun
        obtain ⟨c₃, hone', rfl⟩ := joined_ok hone
        obtain ⟨l, hl, hahead, hplace, hsize⟩ := take_ok hone'
        have hlength' : c₃.ahead.length ≤ n := by
          rw [hahead, List.length_cons] at hlength
          omega
        obtain ⟨taken, hahead', hplace', hsize', hwhile⟩ := ih { c₃ with height := c.height } bs c₂ hlength' hrest
        have hp : p l = true := by rw [← hg, hl, Option.isSome_some]
        refine ⟨l :: taken, by rw [hahead, hahead', List.cons_append], ?_, hsize'.trans hsize, ?_⟩
        · rw [hplace', hplace, List.length_cons]
          omega
        · rw [List.cons_append, List.takeWhile_cons_of_pos hp, hwhile]
      · next hnot =>
        obtain ⟨-, rfl⟩ := pure_ok hrun
        refine ⟨[], rfl, rfl, rfl, ?_⟩
        cases hahead : c.ahead with
        | nil => rfl
        | cons l ls =>
          rw [hahead] at hnot
          exact List.takeWhile_cons_of_neg hnot
  intro c a c' hlength hrun
  obtain ⟨_, c₁, hget, hrun⟩ := bind_ok hrun
  cases hget
  exact hloop _ c a c' hlength hrun

end Takes

/-! ## Types -/

/-- Lexemes without a closing parenthesis. -/
def Unclosed (ls : List Lexeme) : Prop := ∀ l ∈ ls, l.isSymbol ")" = false

theorem Unclosed.nil : Unclosed [] := fun _ h => absurd h List.not_mem_nil

theorem Unclosed.append {ls ms : List Lexeme} (hls : Unclosed ls) (hms : Unclosed ms) : Unclosed (ls ++ ms) :=
  List.forall_mem_append.mpr ⟨hls, hms⟩

theorem Unclosed.singleton {l : Lexeme} (h : l.isSymbol ")" = false) : Unclosed [l] :=
  List.forall_mem_singleton.mpr h

theorem Unclosed.symbol {l : Lexeme} {t : String} (h : l.isSymbol t = true) (ht : t ≠ ")") : Unclosed [l] := by
  refine .singleton ?_
  unfold Lexeme.isSymbol at *
  split at h
  · rw [beq_iff_eq] at h
    simpa [h] using ht
  · cases h

/-- The lexemes of a type are its words and, behind an opening parenthesis, all up to the closing one. -/
theorem typeAhead_of_words {ws left : List Lexeme} (hne : ws ≠ [])
    (hwords : (ws ++ left).takeWhile (·.plainName?.isSome) = ws) (hleft : left.head?.any (·.isSymbol "(") = false) :
    typeAhead (ws ++ left) = ws := by
  unfold typeAhead
  simp only [hwords, List.drop_left]
  rw [if_neg (by simpa using hne), if_neg (by simp [hleft])]

theorem typeAhead_of_parentheses {ws ls left : List Lexeme} {l close : Lexeme} (hne : ws ≠ [])
    (hwords : (ws ++ l :: (ls ++ close :: left)).takeWhile (·.plainName?.isSome) = ws) (hl : l.isSymbol "(" = true)
    (hls : Unclosed ls) (hclose : close.isSymbol ")" = true) :
    typeAhead (ws ++ l :: (ls ++ close :: left)) = ws ++ l :: (ls ++ [close]) := by
  have hunclosed : ∀ x ∈ l :: ls, (!x.isSymbol ")") = true := by
    intro x hx
    rw [Bool.not_eq_true']
    exact (Unclosed.symbol hl (by decide)).append hls x hx
  have hwhile : (l :: (ls ++ close :: left)).takeWhile (!·.isSymbol ")") = l :: ls := by
    rw [← List.cons_append, List.takeWhile_append_of_pos hunclosed, List.takeWhile_cons_of_neg (by simp [hclose]),
      List.append_nil]
  unfold typeAhead
  simp only [hwords, List.drop_left, List.head?_cons, Option.any_some, hl, hwhile]
  rw [if_neg (by simpa using hne), if_pos trivial]
  simp [List.take_length_add_append]

theorem typeAhead_of_not_name {left : List Lexeme} (h : left.head?.any (·.plainName?.isSome) = false) :
    typeAhead left = [] := by
  have hwords : left.takeWhile (·.plainName?.isSome) = [] := by
    cases left with
    | nil => rfl
    | cons l ls => exact List.takeWhile_cons_of_neg (by simpa using h)
  simp [typeAhead, hwords]

/-- A number in the parentheses of a type is no parenthesis. -/
theorem signedNumber_takes : Takes signedNumber fun _ taken _ => Unclosed taken := by
  refine .phrase (.bind (.discard (O := fun _ taken _ => Unclosed taken) (.takes _) ?_) fun _ => .take ?_)
  · intro x taken _ h
    split at h
    · obtain ⟨l, rfl, hl⟩ := h
      rw [Bool.or_eq_true] at hl
      exact hl.elim (.symbol · (by decide)) (.symbol · (by decide))
    · exact h.1 ▸ .nil
  · intro l _ left hl taken htaken
    refine htaken.append (.singleton ?_)
    unfold Lexeme.isSymbol
    split at hl <;> simp_all

/-- What stands in the parentheses of a type ends with the first closing one. -/
theorem typeNumbers_takes :
    Takes (do
      signedNumber
      if ← takesSymbol "," then signedNumber
      Reader.symbol ")") fun _ taken _ => ∃ ls close, taken = ls ++ [close] ∧ Unclosed ls ∧ close.isSymbol ")" = true := by
  have hclose : Takes (Reader.symbol ")") fun _ taken _ => ∃ l, taken = [l] ∧ l.isSymbol ")" = true :=
    .discard (.takeThat fun l _ hl => ⟨l, rfl, hl⟩) fun _ _ _ h => h
  refine .bind signedNumber_takes fun _ => .bind (.takes _) fun x => ?_
  cases x with
  | true =>
    refine .bind signedNumber_takes fun _ => hclose.mono ?_
    rintro _ _ left ⟨close, rfl, hc⟩ second hsecond _ ⟨comma, rfl, hcomma⟩ first hfirst
    exact ⟨first ++ ([comma] ++ second), close, by simp, hfirst.append ((Unclosed.symbol hcomma (by decide)).append hsecond),
      hc⟩
  | false =>
    refine hclose.mono ?_
    rintro _ _ left ⟨close, rfl, hc⟩ _ ⟨rfl, -⟩ first hfirst
    exact ⟨first, close, rfl, hfirst, hc⟩

theorem typeWords_takes : Takes typeWords fun _ taken left => taken = typeAhead (taken ++ left) := by
  have hwords : Takes (Reader.phrase do
      discard plainName
      discard (Reader.many (·.plainName?.isSome) plainName)) fun _ taken left =>
        taken ≠ [] ∧ (taken ++ left).takeWhile (·.plainName?.isSome) = taken := by
    refine .phrase (.bind (P := fun _ taken _ => ∃ l, taken = [l] ∧ l.plainName?.isSome = true) ?_ fun _ => ?_)
    · exact .discard (.take fun l a left hl => ⟨l, rfl, by rw [hl]; rfl⟩) fun _ _ _ h => h
    · refine .discard (.many fun _ => rfl) ?_
      rintro _ taken left hwhile _ ⟨l, rfl, hl⟩
      refine ⟨by simp, ?_⟩
      simp [hl, hwhile]
  refine .bind hwords fun _ => .bind (.takes _) fun x => ?_
  cases x with
  | true =>
    refine typeNumbers_takes.mono ?_
    rintro _ _ left ⟨ls, close, rfl, hls, hclose⟩ _ ⟨l, rfl, hl⟩ ws ⟨hne, hwhile⟩
    have := typeAhead_of_parentheses hne (by simpa using hwhile) hl hls hclose
    simpa using this.symm
  | false =>
    refine .pure ?_
    rintro left _ ⟨rfl, hnone⟩ ws ⟨hne, hwhile⟩
    have := typeAhead_of_words hne (by simpa using hwhile) hnone
    simpa using this.symm

/-- The text that is read as a type is the one of the lexemes ahead. -/
theorem type_ok {c c' : Cursor} {t : List UInt8} (hlength : c.ahead.length ≤ c.size)
    (h : type.run c = .ok (t, c')) : t = typeText c.ahead := by
  have hwords : Takes (Reader.optional (·.plainName?.isSome) typeWords) fun _ taken left =>
      taken = typeAhead (taken ++ left) := by
    refine .sees fun x => ?_
    cases x with
    | true =>
      refine .bind typeWords_takes.phrase fun _ => .pure fun left taken htaken _ => ?_
      simpa using htaken
    | false =>
      refine .bind (.vacant (P := fun _ taken _ => taken = []) fun _ => rfl) fun _ => .pure ?_
      rintro left _ rfl hnone
      exact (typeAhead_of_not_name hnone).symm
  obtain ⟨_, c₁, hget, h⟩ := bind_ok h
  cases hget
  obtain ⟨_, c₂, hoptional, h⟩ := bind_ok h
  obtain ⟨_, c₃, hget, h⟩ := bind_ok h
  cases hget
  obtain ⟨rfl, -⟩ := pure_ok h
  have hdiscard := hwords.discard (O := fun _ taken left => taken = typeAhead (taken ++ left)) fun _ _ _ h => h
  obtain ⟨taken, hahead, hplace, -, htaken⟩ := hdiscard c _ c₂ hlength hoptional
  rw [typeText, hahead, ← htaken, hplace]
  simp

/-! ## Types of two texts -/

namespace Agrees

/-- A word of a type. -/
theorem typeWord (hs : s.mode = .type ∨ s.mode = .typed) :
    Agrees κ s plainName plainName (At (s.wants .typed) fun _ _ => True) := by
  have hbehind : s.mode.behindName = .typed := by rcases hs with h | h <;> rw [h] <;> rfl
  have hne : s.mode ≠ .plain := by rcases hs with h | h <;> rw [h] <;> decide
  refine take (fun l l' next n hpair _ hl => ?_) fun _ _ l hend => ?_
  · have hsame : l.Same l' := by
      rcases hs with h | h <;> exact hpair.toSame (by rw [h]; rfl) (by rw [h]; rfl)
    have hsome := hsame.plainName?_isSome
    rw [hl, Option.isSome_some] at hsome
    obtain ⟨n', hn'⟩ := Option.isSome_iff_exists.mp hsome.symm
    refine ⟨n', hn', ?_, trivial⟩
    have hname : l.name?.isSome = true := by
      unfold Lexeme.plainName? at hl
      split at hl
      · cases hl
      · rw [hl]
        rfl
    rw [Spot.behind_of_name? hname (.inl hne), hbehind]
    rfl
  · have hnone := name?_of_endsItem hend
    unfold Lexeme.plainName?
    rw [hnone, ite_self]

/-- A number in the parentheses of a type. -/
theorem signedNumber (hs : 2 ≤ s.depth) :
    Agrees κ s Reader.signedNumber Reader.signedNumber (Near s fun _ _ => True) := by
  have hends : s.depth = 1 → False := by omega
  refine .phrase (nearby (t := s) (A := fun _ _ => True) ?_ fun m _ _ _ => ?_)
  · have hsign (l : Lexeme) (h : (l.isSymbol "+" || l.isSymbol "-") = true) : s.behind l = s.wants .operand := by
      rcases Bool.or_eq_true _ _ ▸ h with h | h <;> rw [Spot.behind_of_isSymbol h] <;>
        exact Spot.behindSymbol_operator hs (by decide)
    refine discard (takes (fun l l' next hpair _ => ?_) (fun _ h => (hends h).elim) hsign) ?_
    · rw [hpair.isSymbol, hpair.isSymbol]
    · rintro _ x _ ⟨-, rfl⟩
      cases x with
      | true => exact ⟨⟨_, rfl⟩, trivial⟩
      | false => exact ⟨⟨s.mode, rfl⟩, trivial⟩
  · refine take (fun l l' next u hpair _ hl => ?_) fun _ h => (hends h).elim
    have hname : l.name? = none := by
      unfold Lexeme.name?
      split at hl <;> simp_all
    refine ⟨(), ?_, ⟨m.behindName, ?_⟩, trivial⟩
    · rcases (hpair.same_of_name? hname).token_cases with htoken | ⟨k, w, w', htoken, -⟩ | ⟨w, w', htoken, -⟩
      · rw [htoken]
        exact hl
      · simp [htoken] at hl
      · simp [htoken] at hl
    · unfold Spot.behind
      split at hl <;> simp_all [Spot.behindOther, Spot.wants]

/-- The words of a type and the numbers in its parentheses. -/
theorem typeWords (hs : s.mode = .type) (hdepth : 1 ≤ s.depth) (hlisting : s.depth = 1 → s.listing = .expressions) :
    Agrees κ s Reader.typeWords Reader.typeWords fun s₁ _ _ => s₁ = s.wants .typed ∨ s₁ = s.shut := by
  have hwords : Agrees κ s
      (Reader.phrase do
        Functor.discard plainName
        Functor.discard (Reader.many (·.plainName?.isSome) plainName))
      (Reader.phrase do
        Functor.discard plainName
        Functor.discard (Reader.many (·.plainName?.isSome) plainName)) (At (s.wants .typed) fun _ _ => True) := by
    refine .phrase (next (t := s.wants .typed) (A := fun _ _ => True) ?_ fun _ _ _ => ?_)
    · exact discard (typeWord (.inl hs)) fun _ _ _ h => h
    · refine discard (many ?_ (typeWord (.inr rfl))) fun _ _ _ h => ⟨h.1, trivial⟩
      refine sees (fun l l' next hpair _ => (hpair.toSame rfl rfl).plainName?_isSome) fun _ _ l hend => ?_
      simp [Lexeme.plainName?, name?_of_endsItem hend]
  obtain ⟨m, hopen⟩ := Spot.exists_behindSymbol_open (s := s.wants .typed) hdepth
  have hclose (m' : Mode) : ((s.deeper m).wants m').behindSymbol ")" = s.shut := by
    rcases Nat.lt_or_eq_of_le hdepth with h | h
    · exact Spot.behindSymbol_close_wants h m m'
    · exact Spot.behindSymbol_close_item h.symm (hlisting h.symm) m'
  have hinner (m' : Mode) : 2 ≤ ((s.deeper m).wants m').depth := Nat.succ_le_succ hdepth
  have hend (m' : Mode) : Agrees κ ((s.deeper m).wants m') (Reader.symbol ")") (Reader.symbol ")")
      fun s₁ _ _ => s₁ = s.wants .typed ∨ s₁ = s.shut := by
    refine (symbol ")" fun _ h => absurd (hinner m') (by omega)).mono fun s₁ _ _ h => .inr ?_
    exact h.1.trans (hclose m')
  refine hwords.next fun _ _ _ => takesElse (takesSymbol "(" fun _ _ => by decide) ?_ (pure (.inl rfl))
  rw [hopen, Spot.deeper_wants]
  refine nearby (signedNumber (hinner m)) fun m₁ _ _ _ => ?_
  refine takesElse (takesSymbol "," fun _ h => absurd (hinner m₁) (by rw [h]; omega)) ?_ (hend m₁)
  obtain ⟨m₂, hcomma⟩ := Spot.exists_behindSymbol_comma (hinner m₁)
  rw [hcomma, Spot.wants_wants]
  exact nearby (signedNumber (hinner m₂)) fun m₃ _ _ _ => hend m₃

/-- The types that come next in two texts mean the same where a type is looked for. -/
theorem typesAgree {ls ls' : List Lexeme} (hs : s.mode = .type) (h : Respells κ s ls ls') : TypesAgree s ls ls' := by
  cases h with
  | nil =>
    unfold TypesAgree
    split <;> rfl
  | @cut _ l ls _ _ hend =>
    have htext : typeText (l :: ls) = typeText [] := by
      rw [typeText, typeAhead_of_not_name]
      · rfl
      · simp [Lexeme.plainName?, name?_of_endsItem hend]
    unfold TypesAgree
    rw [htext]
    split <;> rfl
  | cons _ _ htypes => exact htypes hs

/-- A type is read up to the same place, and means the same. -/
theorem type (hs : s.mode = .type) (hdepth : 1 ≤ s.depth) (hlisting : s.depth = 1 → s.listing = .expressions) :
    Agrees κ s Reader.type Reader.type fun s₁ t t' =>
      (∃ m, (m = .type ∨ m = .typed ∨ m = .plain) ∧ s₁ = s.wants m) ∧
        if s.depth ≤ 1 then (ColumnType.ofText t).outline = (ColumnType.ofText t').outline
        else castAffinity t = castAffinity t' := by
  have hread : Agrees κ s (Reader.optional (·.plainName?.isSome) Reader.typeWords)
      (Reader.optional (·.plainName?.isSome) Reader.typeWords)
      fun s₁ _ _ => ∃ m, (m = .type ∨ m = .typed ∨ m = .plain) ∧ s₁ = s.wants m := by
    refine optional ?_ (typeWords hs hdepth hlisting) ?_ ⟨.type, .inl rfl, by rw [← hs]; rfl⟩
    · refine sees (fun l l' next hpair _ => ?_) fun _ _ l hend => by simp [Lexeme.plainName?, name?_of_endsItem hend]
      exact (hpair.toSame (by rw [hs]; rfl) (by rw [hs]; rfl)).plainName?_isSome
    · rintro _ _ _ (rfl | rfl)
      · exact ⟨_, .inr (.inl rfl), rfl⟩
      · exact ⟨_, .inr (.inr rfl), rfl⟩
  intro c c' t c₁ hc hrun
  have htext := type_ok hc.length_le hrun
  obtain ⟨_, _, hget, hrun⟩ := bind_ok hrun
  cases hget
  obtain ⟨_, c₂, hwords, hrun⟩ := bind_ok hrun
  obtain ⟨_, _, hget, hrun⟩ := bind_ok hrun
  cases hget
  obtain ⟨-, rfl⟩ := pure_ok hrun
  have hdiscard := discard (P := fun s₁ _ _ => ∃ m, (m = .type ∨ m = .typed ∨ m = .plain) ∧ s₁ = s.wants m) hread
    fun _ _ _ h => h
  obtain ⟨_, c₁', s₁, hwords', hc₁, hs₁⟩ := hdiscard c c' _ _ hc hwords
  have hrun' : Reader.type.run c' = .ok (Lexeme.stretch (c'.ahead.take (c₁'.place - c'.place)), c₁') := by
    change ((Functor.discard (Reader.optional (·.plainName?.isSome) Reader.typeWords)).run c' >>= _) = _
    rw [hwords']
    rfl
  refine ⟨_, c₁', s₁, hrun', hc₁, hs₁, ?_⟩
  rw [htext, type_ok hc.length_le' hrun']
  exact typesAgree hs hc.ahead

end Agrees
end Reader
end FirstRow.Sql
