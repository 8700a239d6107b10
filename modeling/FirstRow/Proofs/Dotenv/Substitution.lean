import FirstRow.Proofs.Dotenv.Effect
import Mathlib.Data.List.TakeWhile

/-!
# What names stand for

The text that a name stands for goes into the value that is read and nowhere else. So whether a line can be read, and
which key it assigns, is the same in every environment: `Reading.Alike` relates two readings that differ in their
output alone, and every character keeps it. A line is malformed if no environment can make sense of it.

The values that a file has assigned so far are never asked for. Each of their names has a text in the environment by
then, its own or the one that was assigned, and the environment is asked first: the table is `Settled`, and lines can
be carried out one at a time, by `carryOut`, without it.
-/
namespace FirstRow

theorem Environment.behind?_eq_get? (env : Environment) {name : List Char} (h : '=' ∉ name) :
    env.behind? name = env.get? (String.ofList name) := by
  have hd : name.dropWhile (· ≠ '=') = [] := by
    rw [List.dropWhile_eq_nil_iff]
    intro c hc
    have hne : c ≠ '=' := fun e => h (e ▸ hc)
    simpa using hne
  rw [behind?, hd]

namespace Dotenv

/-! ## Reading values -/

namespace Reading
variable {r r' : Reading}

/-- Two readings that differ in what they put out so far, and in nothing else. -/
structure Alike (r r' : Reading) : Prop where
  weak : r'.weak = r.weak
  mode : r'.mode = r.mode

theorem Alike.emit (h : Alike r r') (s s' : List Char) : Alike (r.emit s) (r'.emit s') :=
  ⟨h.weak, rfl⟩

theorem Alike.plainStep (h : Alike r r') (c : Char) : Alike (r.plainStep c) (r'.plainStep c) := by
  obtain ⟨weak, mode, output⟩ := r
  obtain ⟨weak', mode', output'⟩ := r'
  obtain ⟨rfl, rfl⟩ := h
  unfold Reading.plainStep
  repeat' split
  all_goals exact ⟨rfl, rfl⟩

theorem Alike.nameStep (h : Alike r r') (subst subst' : List Char → List Char) (braced : Bool) (read : List Char)
    (c : Char) : Alike (r.nameStep subst braced read c) (r'.nameStep subst' braced read c) := by
  obtain ⟨weak, mode, output⟩ := r
  obtain ⟨weak', mode', output'⟩ := r'
  obtain ⟨rfl, rfl⟩ := h
  unfold Reading.nameStep
  repeat' split
  all_goals exact ⟨rfl, rfl⟩

/-- Alike readings succeed on the same texts, whatever the names stand for in each. -/
theorem Alike.isSome_run (h : Alike r r') (subst subst' : List Char → List Char) (s : List Char) :
    (r'.run subst' s).isSome = (r.run subst s).isSome := by
  induction s generalizing r r' with
  | nil =>
    simp only [run, h.mode, h.weak]
    cases r.mode with
    | name braced read => cases braced <;> cases r.weak <;> rfl
    | plain => cases r.weak <;> rfl
    | escaped => cases r.weak <;> rfl
    | strong => rfl
    | ended => cases r.weak <;> rfl
  | cons c rest ih =>
    simp only [run, h.mode]
    cases hm : r.mode with
    | plain => exact ih (h.plainStep c)
    | escaped =>
      cases unescape c with
      | none => rfl
      | some d => exact ih (h.emit [d] [d])
    | strong =>
      dsimp only
      split
      · exact ih ⟨h.weak, rfl⟩
      · exact ih ⟨h.weak, rfl⟩
    | name braced read => exact ih (h.nameStep subst subst' braced read c)
    | ended =>
      dsimp only
      split
      · exact ih h
      · split <;> rfl

/-- A character class that holds of what a reading put out. -/
def Only (P : Char → Prop) (r : Reading) : Prop := ∀ c ∈ r.output, P c

variable {P : Char → Prop}

theorem Only.emit (h : Only P r) {s : List Char} (hs : ∀ c ∈ s, P c) : Only P (r.emit s) := by
  intro c hc
  rcases List.mem_append.mp hc with hc | hc
  · exact h c hc
  · exact hs c hc

theorem Only.plainStep (h : Only P r) {c : Char} (hc : P c) : Only P (r.plainStep c) := by
  have he : Only P (r.emit [c]) := h.emit (by simpa using hc)
  unfold Reading.plainStep
  repeat' split
  all_goals first | exact h | exact he

theorem Only.nameStep (h : Only P r) {subst : List Char → List Char} (hsubst : ∀ name, ∀ c ∈ subst name, P c)
    (braced : Bool) (read : List Char) {c : Char} (hc : P c) : Only P (r.nameStep subst braced read c) := by
  have he : Only P (r.emit (subst read)) := h.emit (hsubst read)
  have he' : Only P (r.emit (subst read ++ [c])) := by
    refine h.emit fun d hd => ?_
    rcases List.mem_append.mp hd with hd | hd
    · exact hsubst read d hd
    · simpa [List.mem_singleton.mp hd] using hc
  unfold Reading.nameStep
  repeat' split
  all_goals first | exact h | exact he | exact he'

theorem unescape_eq_some {c d : Char} (h : unescape c = some d) : d = c ∨ d = '\n' := by
  unfold unescape at h
  split at h
  · exact .inl (Option.some.inj h).symm
  · split at h
    · exact .inr (Option.some.inj h).symm
    · cases h

/-- The characters of a value stand in the text that writes it or in what names stand for, a line feed apart, which an
escape can write. -/
theorem Only.run (h : Only P r) {subst : List Char → List Char} (hsubst : ∀ name, ∀ c ∈ subst name, P c)
    (hline : P '\n') {s v : List Char} (hs : ∀ c ∈ s, P c) (hv : r.run subst s = some v) : ∀ c ∈ v, P c := by
  induction s generalizing r with
  | nil =>
    unfold Reading.run at hv
    repeat' split at hv
    all_goals cases hv
    all_goals first | exact h | exact h.emit (hsubst _)
  | cons c rest ih =>
    simp only [List.mem_cons, forall_eq_or_imp] at hs
    obtain ⟨hc, hrest⟩ := hs
    unfold Reading.run at hv
    split at hv
    · repeat' split at hv
      · exact ih h hrest hv
      · cases hv
        exact h
      · cases hv
    · split at hv
      · next d hd =>
        refine ih (h.emit ?_) hrest hv
        rcases unescape_eq_some hd with rfl | rfl
        · simpa using hc
        · simpa using hline
      · cases hv
    · split at hv
      · exact ih (r := { r with mode := .plain }) h hrest hv
      · exact ih (r := { r with output := r.output ++ [c] }) (h.emit (s := [c]) (by simpa using hc)) hrest hv
    · exact ih (h.nameStep hsubst _ _ hc) hrest hv
    · exact ih (h.plainStep hc) hrest hv

end Reading

/-! ## Reading lines -/

/-- The key to which a line assigns. -/
def Attempt.key? : Attempt → Option (List Char)
  | .nothing => none
  | .assign key _ => some key

/-- A line that cannot be read, whatever names stand for. -/
def Malformed (line : List Char) : Prop :=
  ∀ subst, attempt? subst line = none

/-- What a line assigns to does not depend on what names stand for, nor whether it can be read. -/
theorem attempt?_key (subst subst' : List Char → List Char) (line : List Char) :
    (attempt? subst' line).map Attempt.key? = (attempt? subst line).map Attempt.key? := by
  unfold attempt?
  cases statement? line with
  | none => rfl
  | some st =>
    cases st with
    | nothing => rfl
    | assign key text =>
      dsimp only
      split
      · rfl
      · have h : (value subst' text).isSome = (value subst text).isSome :=
          Reading.Alike.isSome_run ⟨rfl, rfl⟩ subst subst' text
        cases hv : value subst text <;> cases hv' : value subst' text <;> simp [hv, hv', Attempt.key?] at h ⊢

theorem malformed_iff (subst : List Char → List Char) {line : List Char} :
    Malformed line ↔ attempt? subst line = none := by
  constructor
  · exact fun h => h subst
  · intro h subst'
    have hk := attempt?_key subst subst' line
    rw [h] at hk
    simpa using hk

theorem attempt?_nothing_iff (subst subst' : List Char → List Char) {line : List Char} :
    attempt? subst' line = some .nothing ↔ attempt? subst line = some .nothing := by
  have hkey : ∀ subst, attempt? subst line = some .nothing ↔ (attempt? subst line).map Attempt.key? = some none := by
    intro subst
    cases attempt? subst line with
    | none => simp
    | some a => cases a <;> simp [Attempt.key?]
  rw [hkey, hkey, attempt?_key subst subst']

theorem exists_assign_iff (subst subst' : List Char → List Char) {line key : List Char} :
    (∃ value, attempt? subst' line = some (.assign key value)) ↔
      ∃ value, attempt? subst line = some (.assign key value) := by
  have hkey : ∀ subst, (∃ value, attempt? subst line = some (.assign key value)) ↔
      (attempt? subst line).map Attempt.key? = some (some key) := by
    intro subst
    cases attempt? subst line with
    | none => simp
    | some a => cases a <;> simp [Attempt.key?]
  rw [hkey, hkey, attempt?_key subst subst']

theorem isKey_of_key? {s key rest : List Char} (h : key? s = some (key, rest)) : isKey key = true := by
  unfold key? at h
  dsimp only at h
  split at h
  · next hk =>
    cases h
    exact hk
  · cases h

theorem isKey_of_statement? {line key text : List Char} (h : statement? line = some (.assign key text)) :
    isKey key = true := by
  have hafter : ∀ {k rest : List Char}, (afterEquals? rest).map (Statement.assign k) = some (.assign key text) →
      k = key := by
    intro k rest h
    obtain ⟨t, -, ht⟩ := Option.map_eq_some_iff.mp h
    cases ht
    rfl
  unfold statement? at h
  dsimp only at h
  split at h
  · cases h
  · split at h
    · cases h
    · next hk =>
      split at h
      · split at h
        · cases h
        · next hk' => exact hafter h ▸ isKey_of_key? hk'
      · exact hafter h ▸ isKey_of_key? hk

/-- An equals sign is no part of a key. -/
theorem not_mem_of_isKey {key : List Char} (h : isKey key = true) : '=' ∉ key := by
  intro hm
  cases key with
  | nil => cases hm
  | cons c rest =>
    simp only [isKey, Bool.and_eq_true, List.all_eq_true] at h
    exact absurd (h.2 _ hm) (by decide)

theorem not_mem_of_attempt? {subst : List Char → List Char} {line key : List Char} {value : Option (List Char)}
    (h : attempt? subst line = some (.assign key value)) : '=' ∉ key := by
  unfold attempt? at h
  split at h
  · cases h
  · cases h
  · next key' text hs =>
    have hkey : key' = key := by
      split at h
      · cases h
        rfl
      · obtain ⟨v, -, hv⟩ := Option.map_eq_some_iff.mp h
        cases hv
        rfl
    exact not_mem_of_isKey (isKey_of_statement? (hkey ▸ hs))

/-! ## The characters of values -/

theorem trimStart_subset (s : List Char) : trimStart s ⊆ s :=
  (List.dropWhile_sublist _).subset

theorem trimEnd_subset (s : List Char) : trimEnd s ⊆ s := by
  intro c hc
  rw [trimEnd, List.mem_reverse] at hc
  exact List.mem_reverse.mp ((List.dropWhile_sublist _).subset hc)

theorem rest_subset_of_key? {s key rest : List Char} (h : key? s = some (key, rest)) : rest ⊆ s := by
  unfold key? at h
  dsimp only at h
  split at h
  · cases h
    exact fun c hc => List.mem_of_mem_drop (trimStart_subset _ hc)
  · cases h

theorem subset_of_afterEquals? {s text : List Char} (h : afterEquals? s = some text) : text ⊆ s := by
  unfold afterEquals? at h
  split at h
  · cases h
    exact fun c hc => List.mem_cons_of_mem _ (trimStart_subset _ hc)
  · cases h

/-- The text of an assignment stands in its line. -/
theorem subset_of_statement? {line key text : List Char} (h : statement? line = some (.assign key text)) :
    text ⊆ line := by
  have hline : trimStart (trimEnd line) ⊆ line := List.Subset.trans (trimStart_subset _) (trimEnd_subset line)
  have hafter : ∀ {k rest : List Char}, rest ⊆ line →
      (afterEquals? rest).map (Statement.assign k) = some (.assign key text) → text ⊆ line := by
    intro k rest hrest h
    obtain ⟨t, ht, he⟩ := Option.map_eq_some_iff.mp h
    cases he
    exact List.Subset.trans (subset_of_afterEquals? ht) hrest
  unfold statement? at h
  dsimp only at h
  split at h
  · cases h
  · split at h
    · cases h
    · next hk =>
      have hrest := List.Subset.trans (rest_subset_of_key? hk) hline
      split at h
      · split at h
        · cases h
        · next hk' => exact hafter (List.Subset.trans (rest_subset_of_key? hk') hrest) h
      · exact hafter hrest h

/-- No value has a NUL that neither its line nor what a name stands for has. -/
theorem nul_not_mem_of_attempt? {subst : List Char → List Char} {line key : List Char} {value : Option (List Char)}
    (h : attempt? subst line = some (.assign key value)) (hline : '\x00' ∉ line)
    (hsubst : ∀ name, '\x00' ∉ subst name) : '\x00' ∉ value.getD [] := by
  unfold attempt? at h
  split at h
  · cases h
  · cases h
  · next text hs =>
    split at h
    · cases h
      simp
    · obtain ⟨v, hv, he⟩ := Option.map_eq_some_iff.mp h
      cases he
      have hout : Reading.start.Only (· ≠ '\x00') := by
        intro c hc
        cases hc
      have hall := hout.run (fun name c hc e => hsubst name (e ▸ hc)) (by decide)
        (fun c hc e => hline (subset_of_statement? hs (e ▸ hc))) hv
      exact fun hm => hall _ hm rfl

end Dotenv
end FirstRow
