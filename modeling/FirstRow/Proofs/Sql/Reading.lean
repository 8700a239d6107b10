import FirstRow.Sql.Statement

/-!
# Readers that come to an end

What is known of a reader that comes to an end: `Reader.Returns` says what it gives, `Reader.Strict` that no fault was
pending when it began, and `Reader.Idle` that it did nothing if one was. A reader that takes a lexeme at once is
strict.
-/
namespace FirstRow.Sql.Reader

variable {α β : Type}

/-- A reader that comes to an end behind another one has two parts that do. -/
theorem bind_ok {r : Reader α} {f : α → Reader β} {b : β} {c c'' : Cursor} (h : (r >>= f).run c = .ok (b, c'')) :
    ∃ a c', r.run c = .ok (a, c') ∧ (f a).run c' = .ok (b, c'') := by
  rw [StateT.run_bind] at h
  cases hr : r.run c with
  | error e =>
    rw [hr] at h
    cases h
  | ok ac =>
    rw [hr] at h
    exact ⟨ac.1, ac.2, rfl, h⟩

theorem pure_ok {a b : α} {c c' : Cursor} (h : (pure a : Reader α).run c = .ok (b, c')) : a = b ∧ c = c' := by
  cases h
  exact ⟨rfl, rfl⟩

/-- A reader whose result alone is wanted leaves a cursor all the same. -/
theorem run'_ok {r : Reader α} {c : Cursor} {a : α} (h : r.run' c = .ok a) : ∃ c', r.run c = .ok (a, c') := by
  rw [StateT.run'_eq] at h
  cases hr : r.run c with
  | error e =>
    rw [hr] at h
    cases h
  | ok ac =>
    rw [hr] at h
    cases h
    exact ⟨ac.2, rfl⟩

/-! ## What is given -/

/-- What a reader gives has a property. -/
def Returns (P : α → Prop) (r : Reader α) : Prop :=
  ∀ c a c', r.run c = .ok (a, c') → P a

namespace Returns

variable {P : β → Prop}

theorem mono {Q : β → Prop} {r : Reader β} (hr : Returns Q r) (h : ∀ b, Q b → P b) : Returns P r :=
  fun c b c' hrun => h b (hr c b c' hrun)

theorem pure {b : β} (h : P b) : Returns P (Pure.pure b) := by
  intro c a c' hrun
  obtain ⟨rfl, -⟩ := pure_ok hrun
  exact h

theorem bind {r : Reader α} {f : α → Reader β} (h : ∀ a, Returns P (f a)) : Returns P (r >>= f) := by
  intro c b c'' hrun
  obtain ⟨a, c', -, hf⟩ := bind_ok hrun
  exact h a c' b c'' hf

/-- What is given behind something that is known. -/
theorem behind {Q : α → Prop} {r : Reader α} {f : α → Reader β} (hr : Returns Q r) (hf : ∀ a, Q a → Returns P (f a)) :
    Returns P (r >>= f) := by
  intro c b c'' hrun
  obtain ⟨a, c', ha, hrest⟩ := bind_ok hrun
  exact hf a (hr c a c' ha) c' b c'' hrest

theorem ite {p : Prop} [Decidable p] {r s : Reader β} (hr : Returns P r) (hs : Returns P s) :
    Returns P (if p then r else s) := by
  split
  · exact hr
  · exact hs

theorem phrase {r : Reader β} (hr : Returns P r) : Returns P (phrase r) := by
  intro c b c'' hrun
  obtain ⟨_, c₁, -, hrun⟩ := bind_ok hrun
  obtain ⟨a, c₂, ha, hrun⟩ := bind_ok hrun
  obtain ⟨_, c₃, -, hrun⟩ := bind_ok hrun
  obtain ⟨rfl, -⟩ := pure_ok hrun
  exact hr _ _ _ ha

end Returns

/-! ## Faults -/

/-- A reader that does not come to an end behind a fault. -/
def Strict (r : Reader α) : Prop :=
  ∀ c a c', r.run c = .ok (a, c') → c.fault = none

/-- A reader that comes to an end behind a fault only if it does nothing. -/
def Idle (r : Reader α) : Prop :=
  ∀ c a c', r.run c = .ok (a, c') → c.fault = none ∨ c' = c

theorem Strict.idle {r : Reader α} (h : Strict r) : Idle r :=
  fun c a c' hrun => .inl (h c a c' hrun)

namespace Idle

theorem pure (a : α) : Idle (Pure.pure a) := by
  intro c b c' h
  exact .inr (pure_ok h).2.symm

theorem get : Idle (MonadState.get : Reader Cursor) := by
  intro c b c' h
  cases h
  exact .inr rfl

theorem bind {r : Reader α} {f : α → Reader β} (hr : Idle r) (hf : ∀ a, Idle (f a)) : Idle (r >>= f) := by
  intro c b c'' hrun
  obtain ⟨a, c', h, hrest⟩ := bind_ok hrun
  rcases hr c a c' h with hnone | rfl
  · exact .inl hnone
  · exact hf a _ b c'' hrest

theorem ite {p : Prop} [Decidable p] {r s : Reader β} (hr : Idle r) (hs : Idle s) : Idle (if p then r else s) := by
  split
  · exact hr
  · exact hs

theorem sees (p : Lexeme → Bool) : Idle (sees p) :=
  get.bind fun _ => pure _

end Idle

namespace Strict

theorem take (f : Lexeme → Option α) : Strict (take f) := by
  intro c a c' h
  change Reader.take f c = _ at h
  unfold Reader.take at h
  split at h
  · cases h
  · split at h
    · cases h
    · split at h
      · cases h
      · split at h
        · cases h
        · assumption

theorem bind {r : Reader α} (h : Strict r) (f : α → Reader β) : Strict (r >>= f) := by
  intro c b c'' hrun
  obtain ⟨a, c', hr, -⟩ := bind_ok hrun
  exact h c a c' hr

/-- What goes on strictly behind something idle is strict. -/
theorem behind {r : Reader α} {f : α → Reader β} (hr : Idle r) (hf : ∀ a, Strict (f a)) : Strict (r >>= f) := by
  intro c b c'' hrun
  obtain ⟨a, c', h, hrest⟩ := bind_ok hrun
  rcases hr c a c' h with hnone | rfl
  · exact hnone
  · exact hf a _ b c'' hrest

theorem ite {p : Prop} [Decidable p] {r s : Reader β} (hr : Strict r) (hs : Strict s) :
    Strict (if p then r else s) := by
  split
  · exact hr
  · exact hs

theorem discard {r : Reader α} (h : Strict r) : Strict (Functor.discard r) := by
  have hmap : Functor.discard r = r >>= fun _ => pure () := by
    rw [bind_pure_comp]
    rfl
  rw [hmap]
  exact h.bind _

theorem word (w : String) : Strict (word w) := (take _).discard

theorem symbol (s : String) : Strict (symbol s) := (take _).discard

theorem nameLexeme : Strict nameLexeme := take _

end Strict

/-- Whether the next lexeme is taken: if it is not, nothing changes. -/
theorem takes_ok {p : Lexeme → Bool} {b : Bool} {c c' : Cursor} (h : (takes p).run c = .ok (b, c')) :
    c.fault = none ∨ c' = c ∧ b = false := by
  obtain ⟨seen, c₁, hsees, h⟩ := bind_ok h
  obtain ⟨c₂, c₃, hget, hsees⟩ := bind_ok hsees
  cases hget
  obtain ⟨-, rfl⟩ := pure_ok hsees
  cases seen with
  | true => exact .inl ((Strict.take _).discard.bind _ _ _ _ h)
  | false =>
    obtain ⟨rfl, rfl⟩ := pure_ok h
    exact .inr ⟨rfl, rfl⟩

theorem Idle.takes (p : Lexeme → Bool) : Idle (takes p) :=
  fun _ _ _ h => (takes_ok h).imp_right And.left

/-- What takes a lexeme if it comes next, and else goes on strictly, is strict. -/
theorem Strict.takes {p : Lexeme → Bool} {f : Bool → Reader α} (h : Strict (f false)) : Strict (takes p >>= f) := by
  intro c a c'' hrun
  obtain ⟨b, c', htakes, hf⟩ := bind_ok hrun
  rcases takes_ok htakes with hnone | ⟨rfl, rfl⟩
  · exact hnone
  · exact h _ _ _ hf

theorem Strict.takesElse {p : Lexeme → Bool} {r s : Reader α} (h : Strict s) :
    Strict (do if ← Reader.takes p then r else s) :=
  .takes h

end FirstRow.Sql.Reader
