import FirstRow.Proofs.Sql.Respelling
import Mathlib.Data.List.Forall2

/-!
# Reading two texts side by side

`Reader.Agrees` says of two readers that what the first one makes of a text the second one makes of a respelling of it:
where the first one comes to an end, the second one does, with a result like that of the first, and what lies ahead of
both is respelled still. There is one lemma for each way in which readers are put together.
-/
namespace FirstRow.Sql

variable (κ : Licence)

/-- Two readers stand at the same spot, one in a text and the other in a respelling of it. -/
structure Cursor.Alike (s : Spot) (c c' : Cursor) : Prop where
  ahead : Respells κ s c.ahead c'.ahead
  size : c.size = c'.size
  height : c.height = c'.height
  fault : c.fault.isSome = c'.fault.isSome
  parameters : c.parameters = c'.parameters
  length_le : c.ahead.length ≤ c.size
  length_le' : c'.ahead.length ≤ c'.size

namespace Reader

variable {α β γ δ : Type}

/-- What the first reader makes of a text from a spot on, the second one makes of every respelling. -/
def Agrees (s : Spot) (r : Reader α) (r' : Reader β) (Q : Spot → α → β → Prop) : Prop :=
  ∀ c c' a c₁, Cursor.Alike κ s c c' → r.run c = .ok (a, c₁) →
    ∃ b c₁' s₁, r'.run c' = .ok (b, c₁') ∧ Cursor.Alike κ s₁ c₁ c₁' ∧ Q s₁ a b

/-- Both readers come to the same spot with results that are related. -/
def At (t : Spot) (R : α → β → Prop) (s : Spot) (a : α) (b : β) : Prop := s = t ∧ R a b

variable {κ}

/-- Where the first reader takes a lexeme, the second one can take what it was replaced by. -/
theorem take_alike {s : Spot} {g : Lexeme → Option α} {c c' c₁ : Cursor} {a : α} (hc : Cursor.Alike κ s c c')
    (hrun : (take g).run c = .ok (a, c₁)) (hends : κ.ends = true → s.depth = 1 → ∀ l, l.endsItem = true → g l = none) :
    ∃ l l', c.ahead = l :: c₁.ahead ∧ c'.ahead.head? = some l' ∧ Pair κ s l l' c₁.ahead.head? ∧ s.permits l = true ∧
      g l = some a ∧
      ∀ (g' : Lexeme → Option β) b, g' l' = some b →
        ∃ c₁', (take g').run c' = .ok (b, c₁') ∧ Cursor.Alike κ (s.behind l) c₁ c₁' := by
  change Reader.take g c = _ at hrun
  unfold Reader.take at hrun
  split at hrun
  · cases hrun
  next l rest hahead =>
  split at hrun
  · cases hrun
  next found hfound =>
  split at hrun
  · cases hrun
  next hheight =>
  split at hrun
  · cases hrun
  next hfault =>
  cases hrun
  have hrespells := hc.ahead
  rw [hahead] at hrespells
  cases hahead' : c'.ahead with
  | nil =>
    rw [hahead'] at hrespells
    cases hrespells with
    | cut hκ hdepth hend =>
      rw [hends (Licence.ends_of_rest hκ) hdepth l hend] at hfound
      cases hfound
  | cons l' rest' =>
    rw [hahead'] at hrespells
    cases hrespells with
    | cons hpermits hpair _ hrest =>
      refine ⟨l, l', hahead, rfl, hpair, hpermits, hfound, fun g' b hb => ?_⟩
      have hfault' : c'.fault = none := by
        have := hc.fault
        rw [hfault] at this
        simpa using this.symm
      have hlength := hc.length_le
      have hlength' := hc.length_le'
      rw [hahead, List.length_cons] at hlength
      rw [hahead', List.length_cons] at hlength'
      refine ⟨{ c' with ahead := rest', place := c'.place + 1, height := c'.height + 1 }, ?_,
        hrest, hc.size, by simp [hc.height], hc.fault, hc.parameters, by simp only; omega, by simp only; omega⟩
      change Reader.take g' c' = _
      simp only [Reader.take, hahead', hb, ← hc.height, if_neg hheight, hfault']

namespace Agrees

variable {s t : Spot} {r : Reader α} {r' : Reader β} {f : α → Reader γ} {f' : β → Reader δ}
  {Q Q' : Spot → α → β → Prop} {R : Spot → γ → δ → Prop} {A : α → β → Prop}

/-! ## Putting readers together -/

theorem mono (h : Agrees κ s r r' Q) (hQ : ∀ s₁ a b, Q s₁ a b → Q' s₁ a b) : Agrees κ s r r' Q' := by
  intro c c' a c₁ hc hrun
  obtain ⟨b, c₁', s₁, hrun', hc₁, hab⟩ := h c c' a c₁ hc hrun
  exact ⟨b, c₁', s₁, hrun', hc₁, hQ _ _ _ hab⟩

theorem pure {a : α} {b : β} (h : Q s a b) : Agrees κ s (Pure.pure a) (Pure.pure b) Q := by
  intro c c' a' c₁ hc hrun
  obtain ⟨rfl, rfl⟩ := pure_ok hrun
  exact ⟨b, c', s, rfl, hc, h⟩

theorem bind (hr : Agrees κ s r r' Q) (hf : ∀ s₁ a b, Q s₁ a b → Agrees κ s₁ (f a) (f' b) R) :
    Agrees κ s (r >>= f) (r' >>= f') R := by
  intro c c' d c₂ hc hrun
  obtain ⟨a, c₁, hrun, hrest⟩ := bind_ok hrun
  obtain ⟨b, c₁', s₁, hrun', hc₁, hab⟩ := hr c c' a c₁ hc hrun
  obtain ⟨e, c₂', s₂, hrest', hc₂, hde⟩ := hf s₁ a b hab c₁ c₁' d c₂ hc₁ hrest
  refine ⟨e, c₂', s₂, ?_, hc₂, hde⟩
  rw [StateT.run_bind, hrun']
  exact hrest'

/-- What is read behind a reader that comes to a certain spot. -/
theorem next (hr : Agrees κ s r r' (At t A)) (hf : ∀ a b, A a b → Agrees κ t (f a) (f' b) R) :
    Agrees κ s (r >>= f) (r' >>= f') R :=
  hr.bind fun _ a b ⟨hs, hab⟩ => hs ▸ hf a b hab

theorem map {g : α → γ} {g' : β → δ} (hr : Agrees κ s r r' Q) (h : ∀ s₁ a b, Q s₁ a b → R s₁ (g a) (g' b)) :
    Agrees κ s (g <$> r) (g' <$> r') R := by
  rw [← bind_pure_comp, ← bind_pure_comp]
  exact hr.bind fun s₁ a b hab => pure (h s₁ a b hab)

theorem discard {P : Spot → Unit → Unit → Prop} (hr : Agrees κ s r r' Q) (h : ∀ s₁ a b, Q s₁ a b → P s₁ () ()) :
    Agrees κ s (Functor.discard r) (Functor.discard r') P :=
  hr.map h

theorem stop {reason : StopReason} : Agrees κ s (Reader.stop reason : Reader α) r' Q := by
  intro c c' a c₁ _ hrun
  cases hrun

/-! ## Cursors -/

theorem get {f : Cursor → Reader γ} {f' : Cursor → Reader δ}
    (h : ∀ c c', Cursor.Alike κ s c c' → Agrees κ s (f c) (f' c') R) :
    Agrees κ s (MonadState.get >>= f) (MonadState.get >>= f') R := by
  intro c c' d c₁ hc hrun
  obtain ⟨_, _, hget, hrest⟩ := bind_ok hrun
  cases hget
  obtain ⟨e, c₁', s₁, hrun', hrest'⟩ := h c c' hc c c' d c₁ hc hrest
  exact ⟨e, c₁', s₁, hrun', hrest'⟩

theorem modify {g g' : Cursor → Cursor} {P : Spot → Unit → Unit → Prop}
    (h : ∀ c c', Cursor.Alike κ s c c' → Cursor.Alike κ s (g c) (g' c')) (hP : P s () ()) :
    Agrees κ s (modify g) (modify g') P := by
  intro c c' a c₁ hc hrun
  cases hrun
  exact ⟨(), g' c', s, rfl, h c c' hc, hP⟩

/-- What lies ahead is the same behind a change of height. -/
theorem setHeight {n : Nat} {P : Spot → Unit → Unit → Prop} (hP : P s () ()) :
    Agrees κ s (MonadStateOf.modifyGet fun c : Cursor => ((), { c with height := n }))
      (MonadStateOf.modifyGet fun c : Cursor => ((), { c with height := n })) P :=
  modify (fun _ _ hc => { hc with height := rfl }) hP

theorem raise {m m' : String} {P : Spot → Unit → Unit → Prop} (hP : P s () ()) :
    Agrees κ s (Reader.raise m) (Reader.raise m') P :=
  modify (fun _ _ hc => { hc with fault := rfl }) hP

theorem raiseIf {m m' : Option String} {P : Spot → Unit → Unit → Prop} (h : m.isSome = m'.isSome) (hP : P s () ()) :
    Agrees κ s (Reader.raiseIf m) (Reader.raiseIf m') P := by
  cases m with
  | none =>
    cases m' with
    | none => exact pure hP
    | some m' => cases h
  | some m =>
    cases m' with
    | none => cases h
    | some m' => exact raise hP

theorem vacant {P : Spot → Unit → Unit → Prop} (hP : P s () ()) : Agrees κ s Reader.vacant Reader.vacant P := by
  intro c c' a c₁ hc hrun
  change Reader.vacant c = _ at hrun
  unfold Reader.vacant at hrun
  split at hrun
  · cases hrun
  · next hheight =>
    cases hrun
    refine ⟨(), { c' with height := c'.height + 1 }, s, ?_, { hc with height := by rw [hc.height] }, hP⟩
    change Reader.vacant c' = _
    rw [Reader.vacant, ← hc.height, if_neg hheight]

theorem phrase (hr : Agrees κ s r r' Q) : Agrees κ s (Reader.phrase r) (Reader.phrase r') Q := by
  refine get fun c c' hc => ?_
  simp only [hc.height]
  refine hr.bind fun s₁ a b hab => ?_
  refine bind (Q := fun t _ _ => t = s₁) (setHeight rfl) ?_
  rintro _ _ _ rfl
  exact pure hab

theorem joined (hr : Agrees κ s r r' Q) : Agrees κ s (Reader.joined r) (Reader.joined r') Q := by
  refine get fun c c' hc => ?_
  simp only [hc.height]
  refine hr.bind fun s₁ a b hab => ?_
  refine bind (Q := fun t _ _ => t = s₁) (setHeight rfl) ?_
  rintro _ _ _ rfl
  exact pure hab

/-! ## Lexemes -/

/-- A lexeme is taken. -/
theorem take {g : Lexeme → Option α} {g' : Lexeme → Option β}
    (h : ∀ l l' next a, Pair κ s l l' next → s.permits l = true → g l = some a →
      ∃ b, g' l' = some b ∧ Q (s.behind l) a b)
    (hends : κ.ends = true → s.depth = 1 → ∀ l, l.endsItem = true → g l = none) :
    Agrees κ s (Reader.take g) (Reader.take g') Q := by
  intro c c' a c₁ hc hrun
  obtain ⟨l, l', -, -, hpair, hpermits, hl, htake⟩ := take_alike hc hrun hends
  obtain ⟨b, hb, hQ⟩ := h l l' _ a hpair hpermits hl
  obtain ⟨c₁', hrun', hc₁⟩ := htake g' b hb
  exact ⟨b, c₁', _, hrun', hc₁, hQ⟩

/-- What is seen of the next lexemes is related if there are none, and if one is a replacement of the other. -/
theorem seesRelated {p p' : Lexeme → Bool} {B : Bool → Bool → Prop} (hnone : B false false)
    (hp : ∀ l l' next, Pair κ s l l' next → s.permits l = true → B (p l) (p' l'))
    (hends : κ.ends = true → s.depth = 1 → ∀ l, l.endsItem = true → p l = false) :
    Agrees κ s (Reader.sees p) (Reader.sees p') (At s B) := by
  refine get fun c c' hc => pure ⟨rfl, ?_⟩
  have hrespells := hc.ahead
  generalize c.ahead = ls at hrespells
  generalize c'.ahead = ls' at hrespells
  cases hrespells with
  | nil => exact hnone
  | @cut _ l _ hκ hdepth hend => simpa [hends (Licence.ends_of_rest hκ) hdepth l hend] using hnone
  | @cons _ l l' _ _ hpermits hpair => simpa using hp l l' _ hpair hpermits

/-- Whether a property holds of the next lexeme. -/
theorem sees {p p' : Lexeme → Bool} (hp : ∀ l l' next, Pair κ s l l' next → s.permits l = true → p l = p' l')
    (hends : κ.ends = true → s.depth = 1 → ∀ l, l.endsItem = true → p l = false) :
    Agrees κ s (Reader.sees p) (Reader.sees p') (At s (· = ·)) :=
  seesRelated rfl hp hends

/-- A property that no lexeme has there, neither in the text nor in the respelling. -/
theorem unseen {p p' : Lexeme → Bool}
    (hp : ∀ l l' next, Pair κ s l l' next → s.permits l = true → p l = false ∧ p' l' = false)
    (hends : κ.ends = true → s.depth = 1 → ∀ l, l.endsItem = true → p l = false) :
    Agrees κ s (Reader.sees p) (Reader.sees p') (At s fun a b => a = false ∧ b = false) :=
  seesRelated ⟨rfl, rfl⟩ hp hends

/-- Two readers, of which the next lexeme chooses one. -/
theorem choose {p p' : Lexeme → Bool} {q : Reader α} {q' : Reader β} (hsees : Agrees κ s (Reader.sees p) (Reader.sees p') (At s (· = ·)))
    (hr : Agrees κ s r r' Q) (hq : Agrees κ s q q' Q) :
    Agrees κ s (do if ← Reader.sees p then r else q) (do if ← Reader.sees p' then r' else q') Q := by
  refine hsees.next fun a b hab => ?_
  subst hab
  cases a with
  | true => exact hr
  | false => exact hq

/-- A reader that is never chosen. -/
theorem pass {p p' : Lexeme → Bool} {q : Reader α} {q' : Reader β}
    (hsees : Agrees κ s (Reader.sees p) (Reader.sees p') (At s fun a b => a = false ∧ b = false))
    (hq : Agrees κ s q q' Q) :
    Agrees κ s (do if ← Reader.sees p then r else q) (do if ← Reader.sees p' then r' else q') Q := by
  refine hsees.next fun a b hab => ?_
  obtain ⟨rfl, rfl⟩ := hab
  exact hq

/-- A lexeme with a property is taken. -/
theorem takeThat {p p' : Lexeme → Bool} {P : Spot → Lexeme → Lexeme → Prop}
    (h : ∀ l l' next, Pair κ s l l' next → s.permits l = true → p l = true → p' l' = true ∧ P (s.behind l) l l')
    (hends : κ.ends = true → s.depth = 1 → ∀ l, l.endsItem = true → p l = false) :
    Agrees κ s (Reader.takeThat p) (Reader.takeThat p') P := by
  refine take (fun l l' next a hpair hpermits hl => ?_) fun hκ hdepth l hend => by simp [hends hκ hdepth l hend]
  split at hl
  · next htrue =>
    cases hl
    obtain ⟨hp', hP⟩ := h _ _ _ hpair hpermits htrue
    exact ⟨l', by simp [hp'], hP⟩
  · cases hl

/-- A lexeme with a property is taken if it comes next. -/
theorem takes {p p' : Lexeme → Bool} (hp : ∀ l l' next, Pair κ s l l' next → s.permits l = true → p l = p' l')
    (hends : κ.ends = true → s.depth = 1 → ∀ l, l.endsItem = true → p l = false) (ht : ∀ l, p l = true → s.behind l = t) :
    Agrees κ s (Reader.takes p) (Reader.takes p') fun s₁ a b => a = b ∧ s₁ = if a then t else s := by
  refine choose (sees hp hends) ?_ (pure ⟨rfl, rfl⟩)
  refine next (t := t) (A := fun _ _ => True) ?_ fun _ _ _ => pure ⟨rfl, rfl⟩
  refine discard (takeThat (P := fun s₁ _ _ => s₁ = t) (fun l l' next hpair hpermits hl => ?_) hends)
    fun _ _ _ h => ⟨h, trivial⟩
  exact ⟨hp l l' next hpair hpermits ▸ hl, ht l hl⟩

/-- Two readers, of which one goes on behind a lexeme with a property. -/
theorem takesElse {p p' : Lexeme → Bool} {q : Reader α} {q' : Reader β}
    (htakes : Agrees κ s (Reader.takes p) (Reader.takes p') fun s₁ a b => a = b ∧ s₁ = if a then t else s)
    (hr : Agrees κ t r r' Q) (hq : Agrees κ s q q' Q) :
    Agrees κ s (do if ← Reader.takes p then r else q) (do if ← Reader.takes p' then r' else q') Q := by
  refine htakes.bind fun s₁ a b ⟨hab, hs⟩ => ?_
  subst hab hs
  cases a with
  | true => exact hr
  | false => exact hq

/-- Something that may be left out. -/
theorem optional {p p' : Lexeme → Bool} {P : Spot → Option α → Option β → Prop}
    (hsees : Agrees κ s (Reader.sees p) (Reader.sees p') (At s (· = ·))) (hr : Agrees κ s r r' Q)
    (hsome : ∀ s₁ a b, Q s₁ a b → P s₁ (some a) (some b)) (hnone : P s none none) :
    Agrees κ s (Reader.optional p r) (Reader.optional p' r') P := by
  refine choose hsees ?_ ?_
  · exact hr.phrase.bind fun s₁ a b hab => pure (hsome s₁ a b hab)
  · exact bind (vacant (P := fun t _ _ => t = s) rfl) fun _ _ _ ht => ht ▸ pure hnone

/-- Things that follow each other without a change of the spot. -/
theorem loop {p p' : Lexeme → Bool} (hsees : Agrees κ s (Reader.sees p) (Reader.sees p') (At s (· = ·)))
    (hr : Agrees κ s r r' (At s A)) (n : Nat) :
    Agrees κ s (Reader.loop p r n) (Reader.loop p' r' n) (At s (List.Forall₂ A)) := by
  induction n with
  | zero => exact pure ⟨rfl, .nil⟩
  | succ n ih =>
    refine choose hsees ?_ (pure ⟨rfl, .nil⟩)
    exact hr.joined.next fun a b hab => ih.next fun as bs hrest => pure ⟨rfl, .cons hab hrest⟩

theorem many {p p' : Lexeme → Bool} (hsees : Agrees κ s (Reader.sees p) (Reader.sees p') (At s (· = ·)))
    (hr : Agrees κ s r r' (At s A)) : Agrees κ s (Reader.many p r) (Reader.many p' r') (At s (List.Forall₂ A)) := by
  refine get fun c c' hc => ?_
  rw [← hc.size]
  exact loop hsees hr _

/-! ## Symbols and words -/

/-- A symbol does not end an item. -/
abbrev Stays (κ : Licence) (s : Spot) (w : String) : Prop := κ.ends = true → s.depth = 1 → w ≠ "," ∧ w ≠ ")"

theorem isSymbol_of_endsItem {w : String} (hw : Stays κ s w) (hκ : κ.ends = true) (hdepth : s.depth = 1) {l : Lexeme} (h : l.endsItem = true) :
    l.isSymbol w = false := by
  obtain ⟨hcomma, hclose⟩ := hw hκ hdepth
  unfold Lexeme.endsItem Lexeme.isSymbol at h
  unfold Lexeme.isSymbol
  cases htoken : l.token with
  | symbol t =>
    simp only [htoken, Bool.or_eq_true, beq_iff_eq] at h
    simp only [beq_eq_false_iff_ne]
    rintro rfl
    exact h.elim hcomma hclose
  | _ => rfl

theorem isWord_of_endsItem {l : Lexeme} (h : l.endsItem = true) (w : String) : l.isWord w = false := by
  unfold Lexeme.endsItem Lexeme.isSymbol at h
  unfold Lexeme.isWord
  cases htoken : l.token with
  | keyword k v => simp [htoken] at h
  | _ => rfl

theorem isOneOf_of_endsItem {l : Lexeme} (h : l.endsItem = true) (ws : List String) : l.isOneOf ws = false := by
  simp [Lexeme.isOneOf_eq_any, isWord_of_endsItem h]

theorem name?_of_endsItem {l : Lexeme} (h : l.endsItem = true) : l.name? = none := by
  unfold Lexeme.endsItem Lexeme.isSymbol at h
  unfold Lexeme.name?
  cases htoken : l.token with
  | symbol t => rfl
  | _ => simp [htoken] at h

theorem literal?_of_endsItem {l : Lexeme} (h : l.endsItem = true) : literal? l = none := by
  unfold Lexeme.endsItem Lexeme.isSymbol at h
  unfold literal?
  cases htoken : l.token <;> simp_all

theorem seesSymbol (w : String) (hw : Stays κ s w) :
    Agrees κ s (Reader.seesSymbol w) (Reader.seesSymbol w) (At s (· = ·)) :=
  sees (fun _ _ _ hpair _ => hpair.isSymbol w) fun hκ hdepth _ => isSymbol_of_endsItem hw hκ hdepth

theorem takesSymbol (w : String) (hw : Stays κ s w) :
    Agrees κ s (Reader.takesSymbol w) (Reader.takesSymbol w) fun s₁ a b =>
      a = b ∧ s₁ = if a then s.behindSymbol w else s :=
  takes (fun _ _ _ hpair _ => hpair.isSymbol w) (fun hκ hdepth _ => isSymbol_of_endsItem hw hκ hdepth)
    fun _ => Spot.behind_of_isSymbol

theorem symbol (w : String) (hw : Stays κ s w) :
    Agrees κ s (Reader.symbol w) (Reader.symbol w) (At (s.behindSymbol w) fun _ _ => True) :=
  discard (takeThat (P := At (s.behindSymbol w) fun _ _ => True)
    (fun _ _ _ hpair _ hl => ⟨hpair.isSymbol w ▸ hl, Spot.behind_of_isSymbol hl, trivial⟩)
    fun hκ hdepth _ => isSymbol_of_endsItem hw hκ hdepth) fun _ _ _ h => h

theorem seesWord (w : String) (hw : s.mode.keeps w = true) :
    Agrees κ s (Reader.seesWord w) (Reader.seesWord w) (At s (· = ·)) :=
  sees (fun _ _ _ hpair _ => hpair.isWord hw) fun _ _ _ h => isWord_of_endsItem h w

theorem takesWord (w : String) (hw : s.mode.keeps w = true) :
    Agrees κ s (Reader.takesWord w) (Reader.takesWord w) fun s₁ a b => a = b ∧ s₁ = if a then s.behindWord w else s :=
  takes (fun _ _ _ hpair _ => hpair.isWord hw) (fun _ _ _ h => isWord_of_endsItem h w) fun _ => Spot.behind_of_isWord

theorem word (w : String) (hw : s.mode.keeps w = true) :
    Agrees κ s (Reader.word w) (Reader.word w) (At (s.behindWord w) fun _ _ => True) :=
  discard (takeThat (P := At (s.behindWord w) fun _ _ => True)
    (fun _ _ _ hpair _ hl => ⟨hpair.isWord hw ▸ hl, Spot.behind_of_isWord hl, trivial⟩)
    fun _ _ _ h => isWord_of_endsItem h w) fun _ _ _ h => h

theorem seesOneOf (ws : List String) (hws : ws.all s.mode.keeps = true) :
    Agrees κ s (Reader.seesOneOf ws) (Reader.seesOneOf ws) (At s (· = ·)) :=
  sees (fun _ _ _ hpair _ => hpair.isOneOf hws) fun _ _ _ h => isOneOf_of_endsItem h ws

/-- One of several words is taken. -/
theorem oneOf (ws : List String) (hws : ws.all s.mode.keeps = true) :
    Agrees κ s (Reader.oneOf ws) (Reader.oneOf ws) fun s₁ l l' =>
      l.Same l' ∧ ∃ w ∈ ws, l.isWord w = true ∧ s₁ = s.behindWord w := by
  refine takeThat (fun l l' _ hpair _ hl => ?_) fun _ _ _ h => isOneOf_of_endsItem h ws
  obtain ⟨w, hmem, hw⟩ := Lexeme.isWord_of_isOneOf hl
  have hsame := hpair.same_of_isWord (List.all_eq_true.mp hws w hmem) hw
  exact ⟨hsame.isOneOf ws ▸ hl, hsame, w, hmem, hw, Spot.behind_of_isWord hw⟩

/-! ## Lists -/

/-- Things with commas between them. -/
theorem separated (hdepth : t.depth ≠ 1) (hr : Agrees κ s r r' (At t A))
    (hrest : Agrees κ (t.behindSymbol ",") r r' (At t A)) :
    Agrees κ s (Reader.separated r) (Reader.separated r') (At t (List.Forall₂ A)) := by
  have hcomma : Stays κ t "," := fun _ h => absurd h hdepth
  refine hr.phrase.next fun a b hab => ?_
  refine (many (seesSymbol "," hcomma) ?_).next fun as bs hrest => pure ⟨rfl, .cons hab hrest⟩
  exact (symbol "," hcomma).next fun _ _ _ => hrest

/-- Something in parentheses. -/
theorem parenthesized {P : Spot → α → β → Prop} (hr : Agrees κ (s.behindSymbol "(") r r' Q)
    (hdepth : ∀ s₁ a b, Q s₁ a b → s₁.depth ≠ 1) (hP : ∀ s₁ a b, Q s₁ a b → P (s₁.behindSymbol ")") a b) :
    Agrees κ s (Reader.parenthesized r) (Reader.parenthesized r') P := by
  refine (symbol "(" fun _ _ => by decide).next fun _ _ _ => hr.bind fun s₁ a b hab => ?_
  exact (symbol ")" fun _ h => absurd h (hdepth s₁ a b hab)).next fun _ _ _ => pure (hP s₁ a b hab)

end Agrees

/-! ## Readers that look ahead -/

/-- The same of texts of which it is known what lies ahead. -/
def AgreesWhere (κ : Licence) (s : Spot) (P : List Lexeme → Prop) (r : Reader α) (r' : Reader β)
    (Q : Spot → α → β → Prop) : Prop :=
  ∀ c c' a c₁, Cursor.Alike κ s c c' → P c.ahead → r.run c = .ok (a, c₁) →
    ∃ b c₁' s₁, r'.run c' = .ok (b, c₁') ∧ Cursor.Alike κ s₁ c₁ c₁' ∧ Q s₁ a b

namespace AgreesWhere

variable {s t : Spot} {P : List Lexeme → Prop} {r : Reader α} {r' : Reader β} {f : α → Reader γ} {f' : β → Reader δ}
  {Q : Spot → α → β → Prop} {R : Spot → γ → δ → Prop} {A : α → β → Prop}

theorem of (h : Agrees κ s r r' Q) : AgreesWhere κ s P r r' Q :=
  fun c c' a c₁ hc _ => h c c' a c₁ hc

theorem mono {P' : List Lexeme → Prop} (h : AgreesWhere κ s P' r r' Q) (hP : ∀ ls, P ls → P' ls) :
    AgreesWhere κ s P r r' Q :=
  fun c c' a c₁ hc hahead => h c c' a c₁ hc (hP _ hahead)

theorem weaken {Q' : Spot → α → β → Prop} (h : AgreesWhere κ s P r r' Q) (hQ : ∀ s₁ a b, Q s₁ a b → Q' s₁ a b) :
    AgreesWhere κ s P r r' Q' := by
  intro c c' a c₁ hc hP hrun
  obtain ⟨b, c₁', s₁, hrun', hc₁, hab⟩ := h c c' a c₁ hc hP hrun
  exact ⟨b, c₁', s₁, hrun', hc₁, hQ _ _ _ hab⟩

/-- A lexeme is taken of which something is known. -/
theorem takeThat {p p' : Lexeme → Bool} {O : Spot → Lexeme → Lexeme → Prop}
    (hends : κ.ends = true → s.depth = 1 → ∀ l, l.endsItem = true → p l = false)
    (h : ∀ l l' ls, P (l :: ls) → Pair κ s l l' ls.head? → p l = true → p' l' = true ∧ O (s.behind l) l l') :
    AgreesWhere κ s P (Reader.takeThat p) (Reader.takeThat p') O := by
  intro c c' a c₁ hc hP hrun
  obtain ⟨l, l', hahead, -, hpair, -, hl, htake⟩ := take_alike (β := Lexeme) hc hrun fun hκ hd l hend => by simp [hends hκ hd l hend]
  obtain ⟨hp, rfl⟩ : p l = true ∧ a = l := by
    split at hl
    · next hp => exact ⟨hp, (Option.some.inj hl).symm⟩
    · cases hl
  obtain ⟨hp', hO⟩ := h a l' _ (hahead ▸ hP) hpair hp
  obtain ⟨c₁', hrun', hc₁⟩ := htake (fun l => if p' l then some l else none) l' (by rw [if_pos hp'])
  exact ⟨l', c₁', _, hrun', hc₁, hO⟩

/-- A lexeme is taken of which something is known, and the next one looked at. -/
theorem takeThatThenSees {p p' q q' : Lexeme → Bool} {f : Lexeme → Bool → Reader γ} {f' : Lexeme → Bool → Reader δ}
    (hends : κ.ends = true → s.depth = 1 → ∀ l, l.endsItem = true → p l = false)
    (h : ∀ l l' ls, P (l :: ls) → Pair κ s l l' ls.head? → p l = true →
      p' l' = true ∧ Agrees κ (s.behind l) (Reader.sees q) (Reader.sees q') (At (s.behind l) (· = ·)) ∧
        Agrees κ (s.behind l) (f l (ls.head?.any q)) (f' l' (ls.head?.any q)) R) :
    AgreesWhere κ s P (do let l ← Reader.takeThat p; f l (← Reader.sees q))
      (do let l ← Reader.takeThat p'; f' l (← Reader.sees q')) R := by
  intro c c' d c₂ hc hP hrun
  obtain ⟨a, c₁, hrun, hrest⟩ := bind_ok hrun
  obtain ⟨x, c₃, hx, hrest⟩ := bind_ok hrest
  obtain ⟨l, l', hahead, -, hpair, -, hl, htake⟩ := take_alike (β := Lexeme) hc hrun fun hκ hd l hend => by simp [hends hκ hd l hend]
  obtain ⟨hp, rfl⟩ : p l = true ∧ a = l := by
    split at hl
    · next hp => exact ⟨hp, (Option.some.inj hl).symm⟩
    · cases hl
  obtain ⟨hp', hsees, hf⟩ := h a l' _ (hahead ▸ hP) hpair hp
  obtain ⟨c₁', hrun', hc₁⟩ := htake (fun l => if p' l then some l else none) l' (by rw [if_pos hp'])
  obtain ⟨x', c₃', _, hx', hc₃, rfl, rfl⟩ := hsees c₁ c₁' x c₃ hc₁ hx
  obtain ⟨rfl, rfl⟩ : x = c₁.ahead.head?.any q ∧ c₃ = c₁ := by
    cases hx
    exact ⟨rfl, rfl⟩
  obtain ⟨e, c₂', s₂, hrest', hc₂, hde⟩ := hf c₃ c₃' d c₂ hc₃ hrest
  refine ⟨e, c₂', s₂, ?_, hc₂, hde⟩
  rw [StateT.run_bind]
  change ((Reader.take fun l => if p' l then some l else none).run c' >>= _) = _
  rw [hrun']
  change (StateT.run (Reader.sees q' >>= f' l') c₁') = _
  rw [StateT.run_bind, hx']
  exact hrest'

theorem bind (hr : AgreesWhere κ s P r r' Q) (hf : ∀ s₁ a b, Q s₁ a b → Agrees κ s₁ (f a) (f' b) R) :
    AgreesWhere κ s P (r >>= f) (r' >>= f') R := by
  intro c c' d c₂ hc hP hrun
  obtain ⟨a, c₁, hrun, hrest⟩ := bind_ok hrun
  obtain ⟨b, c₁', s₁, hrun', hc₁, hab⟩ := hr c c' a c₁ hc hP hrun
  obtain ⟨e, c₂', s₂, hrest', hc₂, hde⟩ := hf s₁ a b hab c₁ c₁' d c₂ hc₁ hrest
  refine ⟨e, c₂', s₂, ?_, hc₂, hde⟩
  rw [StateT.run_bind, hrun']
  exact hrest'

theorem joined (hr : AgreesWhere κ s P r r' Q) : AgreesWhere κ s P (Reader.joined r) (Reader.joined r') Q := by
  intro c c' a c₁ hc hP hrun
  obtain ⟨_, _, hget, hrun⟩ := bind_ok hrun
  cases hget
  obtain ⟨a', c₂, hr', hrun⟩ := bind_ok hrun
  obtain ⟨_, c₃, hset, hrun⟩ := bind_ok hrun
  cases hset
  obtain ⟨rfl, rfl⟩ := pure_ok hrun
  obtain ⟨b, c₂', s₁, hrun', hc₂, hab⟩ := hr c c' a' c₂ hc hP hr'
  refine ⟨b, { c₂' with height := c'.height }, s₁, ?_, { hc₂ with height := hc.height }, hab⟩
  change (do let a ← r'; modify ({ · with height := c'.height }); return a : Reader β).run c' = _
  rw [StateT.run_bind, hrun']
  rfl

end AgreesWhere

/-- Nothing need be known of what lies ahead. -/
theorem Agrees.of_where {s : Spot} {r : Reader α} {r' : Reader β} {Q : Spot → α → β → Prop}
    (h : AgreesWhere κ s (fun _ => True) r r' Q) : Agrees κ s r r' Q :=
  fun c c' a c₁ hc => h c c' a c₁ hc trivial

/-- What is read depends on the next lexeme, which is not taken. -/
theorem Agrees.peek {s : Spot} {f : Option Lexeme → Reader γ} {f' : Option Lexeme → Reader δ}
    {R : Spot → γ → δ → Prop} (hdepth : s.depth ≠ 1) (hnone : Agrees κ s (f none) (f' none) R)
    (hsome : ∀ l l' next, Pair κ s l l' next → AgreesWhere κ s (·.head? = some l) (f (some l)) (f' (some l')) R) :
    Agrees κ s (Reader.peek >>= f) (Reader.peek >>= f') R := by
  intro c c' d c₁ hc hrun
  change (f c.ahead.head?).run c = _ at hrun
  change ∃ b c₁' s₁, (f' c'.ahead.head?).run c' = _ ∧ _
  have hrespells := hc.ahead
  cases hahead : c.ahead with
  | nil =>
    rw [hahead] at hrespells hrun
    cases hahead' : c'.ahead with
    | nil => exact hnone c c' d c₁ hc hrun
    | cons l' ls' =>
      rw [hahead'] at hrespells
      cases hrespells
  | cons l ls =>
    rw [hahead] at hrespells hrun
    cases hahead' : c'.ahead with
    | nil =>
      rw [hahead'] at hrespells
      cases hrespells with
      | cut _ h => exact absurd h hdepth
    | cons l' ls' =>
      rw [hahead'] at hrespells
      cases hrespells with
      | cons _ hpair => exact hsome l l' _ hpair c c' d c₁ hc (by rw [hahead]; rfl) hrun

/-- Two readers, of which the next lexeme chooses one, and then it is known what it is. -/
theorem Agrees.chooseWhere {s : Spot} {p p' : Lexeme → Bool} {r q : Reader α} {r' q' : Reader β}
    {Q : Spot → α → β → Prop} (hsees : Agrees κ s (Reader.sees p) (Reader.sees p') (At s (· = ·)))
    (hr : AgreesWhere κ s (·.head?.any p = true) r r' Q) (hq : AgreesWhere κ s (·.head?.any p = false) q q' Q) :
    Agrees κ s (do if ← Reader.sees p then r else q) (do if ← Reader.sees p' then r' else q') Q := by
  intro c c' d c₂ hc hrun
  obtain ⟨x, c₁, hx, hrest⟩ := bind_ok hrun
  obtain ⟨x', c₁', _, hx', hc₁, rfl, rfl⟩ := hsees c c' x c₁ hc hx
  obtain ⟨rfl, rfl⟩ : x = c.ahead.head?.any p ∧ c₁ = c := by
    cases hx
    exact ⟨rfl, rfl⟩
  rw [StateT.run_bind, hx']
  change ∃ b c₁'' s₁, StateT.run (if c₁.ahead.head?.any p then r' else q') c₁' = _ ∧ _
  cases hp : c₁.ahead.head?.any p with
  | true =>
    rw [hp] at hrest
    exact hr c₁ c₁' d c₂ hc₁ hp hrest
  | false =>
    rw [hp] at hrest
    exact hq c₁ c₁' d c₂ hc₁ hp hrest

end Reader
end FirstRow.Sql
