import FirstRow.Proofs.Dotenv.Written

/-!
# Comments behind assignments

A comment behind an assignment has to be recognised twice: where physical lines are joined, and where the value is
read. The reading of values skips any number of spaces in front of a comment. The joining of lines does not: it takes
every second space in a row for an ordinary character. Behind an odd number of spaces a comment never matters. Behind an
even number it is read on like a part of the line, and does not matter as long as it leaves nothing open; a quote in it
joins the lines that follow to the comment, and their assignments are lost.
-/
namespace FirstRow

namespace Dotenv

/-! ## Values with something behind them -/

namespace Reading
variable {r r' : Reading} {subst subst' : List Char → List Char}

/-- How far a text takes the reading of a value; none if a fault or a comment comes first. -/
def behind (subst : List Char → List Char) : Reading → List Char → Option Reading
  | r, [] => some r
  | r, c :: rest =>
    match r.mode with
    | .ended => if c = ' ' || c = '\t' then behind subst r rest else none
    | .escaped =>
      match unescape c with
      | some d => behind subst (r.emit [d]) rest
      | none => none
    | .strong =>
      if c = '\x27' then behind subst { r with mode := .plain } rest
      else behind subst { r with output := r.output ++ [c] } rest
    | .name braced read => behind subst (r.nameStep subst braced read c) rest
    | .plain => behind subst (r.plainStep c) rest

/-- What stands behind a text is read from where the text leads. If that is nowhere, it does not count. -/
theorem run_append (subst : List Char → List Char) (r : Reading) (s t : List Char) :
    r.run subst (s ++ t) =
      match behind subst r s with
      | some r' => r'.run subst t
      | none => r.run subst s := by
  induction s generalizing r with
  | nil => rfl
  | cons c rest ih =>
    rw [List.cons_append]
    cases hm : r.mode with
    | plain => simp only [run, behind, hm, ih]
    | name braced read => simp only [run, behind, hm, ih]
    | strong =>
      by_cases hc : c = '\x27' <;> simp only [run, behind, hm, hc, if_true, if_false, ih]
    | escaped =>
      cases hu : unescape c <;> simp only [run, behind, hm, hu, ih]
    | ended =>
      by_cases hc : (c = ' ' || c = '\t') = true
      · simp only [run, behind, hm, hc, if_true, ih]
      · simp only [run, behind, hm, hc, Bool.false_eq_true, if_false]

/-- Alike readings are led to alike readings. -/
theorem Alike.behind (h : Alike r r') (subst subst' : List Char → List Char) (s : List Char) :
    Option.Rel Alike (behind subst r s) (Reading.behind subst' r' s) := by
  induction s generalizing r r' with
  | nil => exact .some h
  | cons c rest ih =>
    simp only [Reading.behind, h.mode]
    cases r.mode with
    | plain => exact ih (h.plainStep c)
    | name braced read => exact ih (h.nameStep subst subst' braced read c)
    | strong =>
      dsimp only
      split
      · exact ih ⟨h.weak, rfl⟩
      · exact ih ⟨h.weak, rfl⟩
    | escaped =>
      cases unescape c with
      | none => exact .none
      | some d => exact ih (h.emit [d] [d])
    | ended =>
      dsimp only
      split
      · exact ih h
      · exact .none

theorem mode_plainStep (r : Reading) (c : Char) :
    ((r.plainStep c).mode = .escaped → r.mode = .escaped ∨ c = '\\') ∧
      ((r.plainStep c).mode = .ended → r.mode = .ended ∨ c = ' ' ∨ c = '\t') := by
  unfold plainStep emit
  repeat' split
  all_goals simp_all

theorem mode_nameStep (r : Reading) (subst : List Char → List Char) (braced : Bool) (read : List Char) (c : Char) :
    (r.nameStep subst braced read c).mode ≠ .escaped ∧ (r.nameStep subst braced read c).mode ≠ .ended := by
  unfold nameStep emit
  repeat' split
  all_goals simp

/-- One character further. Only a backslash makes the next character an escaped one, and only white space ends a
value. -/
theorem exists_of_behind_cons {c : Char} {rest : List Char} (h : behind subst r (c :: rest) = some r') :
    ∃ r₁, behind subst r₁ rest = some r' ∧ (r₁.mode = .escaped → c = '\\') ∧
      (r₁.mode = .ended → c = ' ' ∨ c = '\t') := by
  unfold behind at h
  split at h
  · next hm =>
    split at h
    · next hc => exact ⟨r, h, by simp [hm], fun _ => by simpa using hc⟩
    · cases h
  · split at h
    · exact ⟨_, h, by simp [emit], by simp [emit]⟩
    · cases h
  · next hm =>
    split at h
    · exact ⟨_, h, by simp, by simp⟩
    · exact ⟨_, h, by simp [hm], by simp [hm]⟩
  · next braced read hm =>
    obtain ⟨hescaped, hended⟩ := r.mode_nameStep subst braced read c
    exact ⟨_, h, fun he => absurd he hescaped, fun he => absurd he hended⟩
  · next hm =>
    obtain ⟨hescaped, hended⟩ := r.mode_plainStep c
    exact ⟨_, h, fun he => (hescaped he).resolve_left (by simp [hm]),
      fun he => (hended he).resolve_left (by simp [hm])⟩

/-- Only a backslash can be pending at the end of a text, and only white space can have ended the value there. -/
theorem getLast?_of_behind {s : List Char} (hr : r.mode = .plain) (h : behind subst r s = some r') :
    (r'.mode = .escaped → s.getLast? = some '\\') ∧
      (r'.mode = .ended → s.getLast? = some ' ' ∨ s.getLast? = some '\t') := by
  cases s with
  | nil =>
    obtain rfl : r = r' := Option.some.inj h
    simp [hr]
  | cons c rest =>
    clear hr
    induction rest generalizing r c with
    | nil =>
      obtain ⟨r₁, h₁, hmodes⟩ := exists_of_behind_cons h
      obtain rfl : r₁ = r' := Option.some.inj h₁
      simpa using hmodes
    | cons d more ih =>
      obtain ⟨r₁, h₁, -⟩ := exists_of_behind_cons h
      rw [List.getLast?_cons_cons]
      exact ih d h₁

/-- What a reading that stands in plain text outside quotes puts out does not change by a comment behind spaces. -/
theorem run_comment (hmode : r.mode = .plain) (hweak : r.weak = false) (n : Nat) (comment : List Char) :
    r.run subst (List.replicate (n + 1) ' ' ++ '#' :: comment) = some r.output := by
  have hended : ∀ n, Reading.run subst { r with mode := .ended } (List.replicate n ' ' ++ '#' :: comment) =
      some r.output := by
    intro n
    induction n with
    | zero => simp [run]
    | succ n ih => simpa [List.replicate_succ, run] using ih
  simpa [List.replicate_succ, run, hmode, plainStep, hweak] using hended n

end Reading

/-! ## Lines with something behind them -/

theorem trimStart_append {s : List Char} (h : trimStart s ≠ []) (t : List Char) :
    trimStart (s ++ t) = trimStart s ++ t := by
  have hne : ¬ (s.dropWhile Text.isBlank).isEmpty = true := by rwa [List.isEmpty_iff]
  rw [trimStart, List.dropWhile_append, if_neg hne]
  rfl

/-- A number sign is no white space, so only what stands behind it is trimmed. -/
theorem trimEnd_append_mark (s t : List Char) : trimEnd (s ++ '#' :: t) = s ++ '#' :: trimEnd t := by
  have hmark : Text.isBlank '#' = false := by decide
  rw [trimEnd, trimEnd, List.reverse_append, List.reverse_cons, List.append_assoc, List.dropWhile_append]
  split
  · next h => simp [List.isEmpty_iff.mp h, hmark]
  · simp

theorem trimEnd_trimEnd (s : List Char) : trimEnd (trimEnd s) = trimEnd s := by
  rw [trimEnd, trimEnd, List.reverse_reverse, List.dropWhile_idempotent]

/-- White space at the end of a line does not count. -/
theorem attempt?_congr (subst : List Char → List Char) {a b : List Char} (h : trimEnd a = trimEnd b) :
    attempt? subst a = attempt? subst b := by
  simp only [attempt?, statement?, h]

theorem key?_append {s key rest : List Char} (h : key? s = some (key, rest)) (hne : rest ≠ []) (t : List Char) :
    key? (s ++ t) = some (key, rest ++ t) := by
  unfold key? at h
  dsimp only at h
  split at h
  · next hkey =>
    obtain ⟨rfl, rfl⟩ := Prod.mk.inj (Option.some.inj h)
    have hlength : (s.takeWhile isKeyChar).length ≠ s.length := by
      intro hall
      rw [hall, List.drop_length] at hne
      exact hne rfl
    have htake : (s ++ t).takeWhile isKeyChar = s.takeWhile isKeyChar := by
      rw [List.takeWhile_append, if_neg hlength]
    have hle : (s.takeWhile isKeyChar).length ≤ s.length := (List.takeWhile_sublist _).length_le
    simp only [key?, htake, hkey, if_true, List.drop_append_of_le_length hle, trimStart_append hne]
  · cases h

/-- What is read behind the equals sign if something stands behind the line. -/
def textBehind (text t : List Char) : List Char :=
  if text = [] then trimStart t else text ++ t

theorem afterEquals?_append {s text : List Char} (h : afterEquals? s = some text) (t : List Char) :
    afterEquals? (s ++ t) = some (textBehind text t) := by
  unfold afterEquals? at h
  split at h
  · next rest =>
    obtain rfl := Option.some.inj h
    rw [List.cons_append, afterEquals?, textBehind]
    split
    · next hempty =>
      have hrest : (rest.dropWhile Text.isBlank).isEmpty = true := by rwa [List.isEmpty_iff]
      rw [trimStart, List.dropWhile_append, if_pos hrest]
      rfl
    · next hne => rw [trimStart_append hne]
  · cases h

theorem statement?_append {line key text t : List Char} (h : statement? line = some (.assign key text))
    (hline : trimEnd line = line) (ht : trimEnd (line ++ t) = line ++ t) :
    statement? (line ++ t) = some (.assign key (textBehind text t)) := by
  have hafter : ∀ {k rest : List Char}, (afterEquals? rest).map (Statement.assign k) = some (.assign key text) →
      rest ≠ [] ∧ (afterEquals? (rest ++ t)).map (Statement.assign k) = some (.assign key (textBehind text t)) := by
    intro k rest h
    obtain ⟨u, hu, he⟩ := Option.map_eq_some_iff.mp h
    cases he
    refine ⟨?_, by simp [afterEquals?_append hu]⟩
    rintro rfl
    cases hu
  unfold statement? at h
  rw [hline] at h
  dsimp only at h
  split at h
  · cases h
  · next hsome =>
    simp only [Bool.or_eq_true, List.isEmpty_iff, decide_eq_true_eq, not_or] at hsome
    have hhead : ∀ {s : List Char}, s ≠ [] → (s ++ t).head? = s.head? := fun hne => List.head?_append_of_ne_nil _ hne
    have hfront : ¬ ((trimStart line ++ t).isEmpty || (trimStart line ++ t).head? = some '#') = true := by
      simp [hsome.1, hhead hsome.1, hsome.2]
    rw [statement?, ht, trimStart_append hsome.1, if_neg hfront]
    split at h
    · cases h
    · next key' rest hkey =>
      split at h
      · next hexport =>
        split at h
        · cases h
        · next key'' rest' hkey' =>
          obtain ⟨hne', hrest⟩ := hafter h
          have hne : rest ≠ [] := by
            rintro rfl
            cases hkey'
          simp only [key?_append hkey hne, hhead hne, hexport, if_true, key?_append hkey' hne', hrest]
      · next hexport =>
        obtain ⟨hne, hrest⟩ := hafter h
        simp only [key?_append hkey hne, hhead hne, hexport, Bool.false_eq_true, if_false, hrest]

/-- The text of an assignment stands at the end of its line. -/
theorem suffix_of_statement? {line key text : List Char} (h : statement? line = some (.assign key text)) :
    text <:+ trimEnd line := by
  have htrim : ∀ s : List Char, trimStart s <:+ s := fun s => List.dropWhile_suffix _
  have hkey : ∀ {s k rest : List Char}, key? s = some (k, rest) → rest <:+ s := by
    intro s k rest h
    unfold key? at h
    dsimp only at h
    split at h
    · cases h
      exact (htrim _).trans (List.drop_suffix _ _)
    · cases h
  have hafter : ∀ {k rest : List Char}, (afterEquals? rest).map (Statement.assign k) = some (.assign key text) →
      text <:+ rest := by
    intro k rest h
    obtain ⟨u, hu, he⟩ := Option.map_eq_some_iff.mp h
    cases he
    unfold afterEquals? at hu
    split at hu
    · cases hu
      exact (htrim _).trans (List.suffix_cons _ _)
    · cases hu
  unfold statement? at h
  dsimp only at h
  split at h
  · cases h
  · split at h
    · cases h
    · next hk =>
      have hrest := (hkey hk).trans (htrim _)
      split at h
      · split at h
        · cases h
        · next hk' => exact (hafter h).trans ((hkey hk').trans hrest)
      · exact (hafter h).trans hrest

/-! ## Joints with something behind them -/

namespace Joint
variable {j j' : Joint} {s t : List Char}

theorem scan_eq_of_some (h : (j.scan s).2 = some j') : j.scan s = (s, some j') := by
  induction s generalizing j with
  | nil => simpa [scan] using h
  | cons c rest ih =>
    cases hstep : j.step c with
    | none => simp [scan, hstep] at h
    | some j₁ =>
      rw [scan_cons hstep] at h ⊢
      rw [ih h]

/-- What stands behind a comment does not count. -/
theorem scan_append_of_none (h : (j.scan s).2 = none) (t : List Char) : j.scan (s ++ t) = j.scan s := by
  induction s generalizing j with
  | nil => cases h
  | cons c rest ih =>
    rw [List.cons_append]
    cases hstep : j.step c with
    | none => simp [scan, hstep]
    | some j₁ =>
      rw [scan_cons hstep] at h
      rw [scan_cons hstep, scan_cons hstep, ih h]

theorem eq_mark_of_step {c : Char} (h : j.step c = none) : c = '#' := by
  unfold step at h
  repeat' split at h
  all_goals simp_all

/-- A comment begins with a number sign. -/
theorem exists_mark_of_scan (h : (j.scan s).2 = none) : ∃ rest, s = (j.scan s).1 ++ '#' :: rest := by
  induction s generalizing j with
  | nil => cases h
  | cons c rest ih =>
    cases hstep : j.step c with
    | none =>
      obtain rfl := eq_mark_of_step hstep
      exact ⟨rest, by simp [scan, hstep]⟩
    | some j₁ =>
      rw [scan_cons hstep] at h
      obtain ⟨more, hmore⟩ := ih h
      refine ⟨more, ?_⟩
      rw [scan_cons hstep, List.cons_append, ← hmore]

theorem step_eq_complete {c : Char} (h : j.step c = some j') (hq : j'.inQuotes = false)
    (hblank : Text.isBlank c = false) (hc : c ≠ '\\') : j' = .complete := by
  unfold step opened at h
  repeat' split at h
  all_goals cases h
  all_goals simp_all [inQuotes, isGap]

/-- Outside quotes only white space and a backslash at the end of a text leave something open. -/
theorem scan_getLast? {c : Char} (hs : s.getLast? = some c) (h : (j.scan s).2 = some j') (hq : j'.inQuotes = false)
    (hblank : Text.isBlank c = false) (hc : c ≠ '\\') : j' = .complete := by
  induction s generalizing j with
  | nil => cases hs
  | cons d rest ih =>
    cases hstep : j.step d with
    | none => simp [scan, hstep] at h
    | some j₁ =>
      rw [scan_cons hstep] at h
      cases rest with
      | nil =>
        obtain rfl : d = c := by simpa using hs
        obtain rfl : j₁ = j' := by simpa [scan] using h
        exact step_eq_complete hstep hq hblank hc
      | cons e more => exact ih (by simpa using hs) h

/-- Spaces in a row are taken in pairs. -/
theorem scan_spaces (n : Nat) :
    Joint.complete.scan (List.replicate n ' ') =
      (List.replicate n ' ', some (if n % 2 = 1 then .blank else .complete)) := by
  induction n using Nat.twoStepInduction with
  | zero => rfl
  | one => rfl
  | more n ih _ =>
    have hpair : Joint.complete.scan [' ', ' '] = ([' ', ' '], some .complete) := by decide
    have hsplit : List.replicate (n + 2) ' ' = [' ', ' '] ++ List.replicate n ' ' := rfl
    rw [hsplit, scan_append hpair, ih, Nat.add_mod_right]

/-- Behind an odd number of spaces a number sign begins a comment. -/
theorem scan_comment {n : Nat} (hn : n % 2 = 1) (t : List Char) :
    (Joint.complete.scan (List.replicate n ' ' ++ '#' :: t)).2 = none := by
  have hspaces := scan_spaces n
  rw [if_pos hn] at hspaces
  rw [scan_append hspaces]
  rfl

end Joint

/-- Whether a line leaves something open, so that the next one is joined to it. -/
def LeavesOpen (line : List Char) : Prop :=
  ∃ j, (Joint.complete.scan line).2 = some j ∧ j ≠ .complete

/-! ## Assignments that something can stand behind -/

/-- An assignment whose line ends outside quotes, with no white space, no backslash and no name of a substitution at
its end. A line may go over several physical ones, but only in quotes. -/
structure PlainEnd (line : List Char) : Prop where
  readable : ¬ Malformed line
  continuous : ∀ front back, line = front ++ '\n' :: back →
    ∃ j, (Joint.complete.scan (front ++ ['\n'])).2 = some j ∧ j.inQuotes = true
  outside : ∀ j, (Joint.complete.scan line).2 = some j → j.inQuotes = false
  last : ∀ c, line.getLast? = some c → Text.isBlank c = false ∧ c ≠ '\\'
  assigns : ∃ key text, statement? line = some (.assign key text) ∧
    ∀ r name, Reading.start.behind (fun _ => []) text = some r → r.mode ≠ .name false name

namespace PlainEnd
variable {line : List Char}

theorem trimEnd_eq (h : PlainEnd line) : trimEnd line = line :=
  trimEnd_of_getLast? fun c hc => (h.last c hc).1

/-- Behind the text of the assignment the reading of its value stands in plain text, or is over. -/
theorem plain_of_behind (h : PlainEnd line) {key text : List Char} (hs : statement? line = some (.assign key text))
    (htext : text ≠ []) (hmark : text.head? ≠ some '#') (subst : List Char → List Char) {r : Reading}
    (hr : Reading.start.behind subst text = some r) : r.mode = .plain ∧ r.weak = false := by
  obtain ⟨key', text', hs', hname⟩ := h.assigns
  obtain ⟨rfl, rfl⟩ := Statement.assign.inj (Option.some.inj (hs.symm.trans hs'))
  -- the value can be read to its end
  have hread : (r.run subst []).isSome = true := by
    have hsome : attempt? subst line ≠ none := fun hnone => h.readable ((malformed_iff subst).mpr hnone)
    have hempty : (text.isEmpty || text.head? = some '#') = false := by simp [htext, hmark]
    have happend := Reading.run_append subst .start text []
    simp only [hr, List.append_nil] at happend
    rw [← happend]
    rw [attempt?, hs] at hsome
    simp only [hempty, Bool.false_eq_true, if_false, ne_eq, Option.map_eq_none_iff] at hsome
    exact Option.isSome_iff_ne_none.mpr hsome
  have hlast := Reading.getLast?_of_behind rfl hr
  have hend : ∀ c, text.getLast? = some c → Text.isBlank c = false ∧ c ≠ '\\' := by
    intro c hc
    obtain ⟨front, hfront⟩ := suffix_of_statement? hs
    rw [h.trimEnd_eq] at hfront
    exact h.last c (by rw [← hfront, List.getLast?_append, hc]; rfl)
  have hrel := (⟨rfl, rfl⟩ : Reading.Alike .start .start).behind subst (fun _ => []) text
  rw [hr] at hrel
  have hpending : ∀ name, r.mode ≠ .name false name := by
    intro name hn
    cases hr' : Reading.start.behind (fun _ => []) text with
    | none =>
      rw [hr'] at hrel
      cases hrel
    | some r' =>
      rw [hr'] at hrel
      cases hrel with
      | some halike => exact hname r' name hr' (halike.mode.trans hn)
  unfold Reading.run at hread
  cases hm : r.mode with
  | plain => exact ⟨rfl, by simpa [hm] using hread⟩
  | escaped => exact absurd rfl (hend _ (hlast.1 hm)).2
  | strong => simp [hm] at hread
  | name braced read =>
    cases braced with
    | true => simp [hm] at hread
    | false => exact absurd hm (hpending read)
  | ended =>
    rcases hlast.2 hm with hc | hc
    · exact absurd (hend _ hc).1 (by decide)
    · exact absurd (hend _ hc).1 (by decide)

/-- A comment behind the line changes nothing of what it assigns. -/
theorem attempt?_comment (h : PlainEnd line) (subst : List Char → List Char) (n : Nat) (comment : List Char) :
    attempt? subst (line ++ (List.replicate (n + 1) ' ' ++ '#' :: comment)) = attempt? subst line := by
  obtain ⟨key, text, hs, -⟩ := h.assigns
  -- white space at the end of the comment is trimmed with the line
  have htrim : ∀ t, trimEnd (line ++ (List.replicate (n + 1) ' ' ++ '#' :: t)) =
      line ++ (List.replicate (n + 1) ' ' ++ '#' :: trimEnd t) := by
    intro t
    rw [← List.append_assoc, trimEnd_append_mark, List.append_assoc]
  rw [attempt?_congr subst (a := line ++ (List.replicate (n + 1) ' ' ++ '#' :: comment))
    (b := line ++ (List.replicate (n + 1) ' ' ++ '#' :: trimEnd comment)) (by rw [htrim, htrim, trimEnd_trimEnd])]
  have hboth := statement?_append hs h.trimEnd_eq ((htrim (trimEnd comment)).trans (by rw [trimEnd_trimEnd]))
  simp only [attempt?, hs, hboth]
  by_cases htext : text = []
  · -- there is no value, and then only a comment
    have hspaces : trimStart (List.replicate (n + 1) ' ' ++ '#' :: trimEnd comment) = '#' :: trimEnd comment := by
      have hblank : Text.isBlank ' ' = true ∧ Text.isBlank '#' = false := by decide
      rw [trimStart, List.dropWhile_append_of_pos (fun c hc => by rw [List.eq_of_mem_replicate hc, hblank.1]),
        List.dropWhile_cons_of_neg (by simp [hblank.2])]
    simp [textBehind, htext, hspaces]
  · rw [textBehind, if_neg htext]
    by_cases hmark : text.head? = some '#'
    · simp [List.head?_append, hmark]
    · have hfront : ∀ t : List Char, ((text ++ t).isEmpty || (text ++ t).head? = some '#') = false := by
        intro t
        simp [htext, List.head?_append_of_ne_nil _ htext, hmark]
      have hfront₀ := hfront []
      rw [List.append_nil] at hfront₀
      simp only [hfront, hfront₀, Bool.false_eq_true, if_false]
      congr 1
      have hnil := Reading.run_append subst .start text []
      have hcomment := Reading.run_append subst .start text (List.replicate (n + 1) ' ' ++ '#' :: trimEnd comment)
      rw [List.append_nil] at hnil
      rw [value, value]
      cases hr : Reading.start.behind subst text with
      | none => rw [hcomment, hr]
      | some r =>
        obtain ⟨hmode, hweak⟩ := h.plain_of_behind hs htext hmark subst hr
        simp only [hr] at hnil hcomment
        rw [hcomment, hnil, Reading.run_comment hmode hweak]
        simp [Reading.run, hmode, hweak]

end PlainEnd

/-- White space behind a text is trimmed. -/
theorem trimEnd_append_of_blank (s : List Char) {t : List Char} (ht : ∀ c ∈ t, Text.isBlank c = true) :
    trimEnd (s ++ t) = trimEnd s := by
  rw [trimEnd, List.reverse_append, List.dropWhile_append_of_pos fun c hc => ht c (List.mem_reverse.mp hc)]
  rfl

theorem attempt?_spaces (subst : List Char → List Char) (line : List Char) (n : Nat) :
    attempt? subst (line ++ List.replicate n ' ') = attempt? subst line := by
  refine attempt?_congr subst (trimEnd_append_of_blank line fun c hc => ?_)
  rw [List.eq_of_mem_replicate hc]
  decide

/-! ## Where the line stands in its file -/

/-- What ends a line: a line feed, perhaps with a carriage return in front of it, or the end of the file. -/
def IsLineEnd (lineEnd back : List Char) : Prop :=
  lineEnd = ['\n'] ∨ lineEnd = ['\r', '\n'] ∨ lineEnd = [] ∧ back = []

/-- Octets that are made of complete logical lines. -/
structure Leads (front : List UInt8) : Prop where
  endsLine : EndsLine (dropMark front)
  closed : endJoint? front = some .complete

theorem isComment_append {s : List Char} (h : s.dropWhile Text.isBlank ≠ []) (t : List Char) :
    isComment (s ++ t) = isComment s := by
  have hne : ¬ (s.dropWhile Text.isBlank).isEmpty = true := by rwa [List.isEmpty_iff]
  rw [isComment, isComment, List.dropWhile_append, if_neg hne, List.head?_append_of_ne_nil _ h]

theorem isComment_of_leading {s t : List Char} (h : s <+: t) (ht : isComment t = false) : isComment s = false := by
  obtain ⟨rest, rfl⟩ := h
  by_cases hs : s.dropWhile Text.isBlank = []
  · simp [isComment, hs]
  · rwa [isComment_append hs] at ht

theorem textLines_of_isLineEnd {p lineEnd back : List Char} (hp : '\n' ∉ p) (hne : p ≠ [])
    (hend : IsLineEnd lineEnd back) : textLines (p ++ (lineEnd ++ back)) = (p ++ lineEnd) :: textLines back := by
  rcases hend with rfl | rfl | ⟨rfl, rfl⟩
  · simpa using textLines_append_feed hp back
  · have hp' : '\n' ∉ p ++ ['\r'] := by simp [hp]
    simpa using textLines_append_feed hp' back
  · simpa [textLines] using textLines_of_not_mem hp hne

theorem join_of_open {buffer line : List Char} {joint j : Joint} {rest : List (Option (List Char))}
    (hcomment : isComment (buffer ++ line) = false) (hscan : (joint.scan line).2 = some j) (hj : j ≠ .complete) :
    join buffer joint (some line :: rest) = join (buffer ++ line) j rest := by
  rw [join, if_neg (by simp [hcomment]), Joint.scan_eq_of_some hscan]
  cases j <;> first | exact absurd rfl hj | rfl

/-- Only a text that begins with a mark has octets that do. -/
theorem head?_of_marked {s : List Char} (h : byteOrderMark.isPrefixOf (Text.Utf8.encode s) = true) :
    s.head? = some '\uFEFF' := by
  obtain ⟨rest, hrest⟩ := List.isPrefixOf_iff_prefix.mp h
  have hmark : byteOrderMark = Text.Utf8.encodePoint ('\uFEFF' : Char).toNat := by decide
  have hs := Text.Utf8.decode_encode s
  rw [← hrest, Text.Utf8.decode, hmark, Text.Utf8.decodeFrom_encodePoint] at hs
  cases ht : Text.Utf8.decodeFrom (0 + (Text.Utf8.encodePoint ('\uFEFF' : Char).toNat).length) rest with
  | error e =>
    rw [ht] at hs
    cases hs
  | ok t =>
    rw [ht] at hs
    cases hs
    rfl

/-- The last physical line of a logical one. Those in front of it are joined whatever follows. The induction is on the
length of what is not joined yet. -/
theorem exists_last_line {line x s : List Char} {joint : Joint} (hline : x ++ s = line)
    (hcomment : isComment line = false)
    (hcontinuous : ∀ front back, line = front ++ '\n' :: back →
      ∃ j, (Joint.complete.scan (front ++ ['\n'])).2 = some j ∧ j.inQuotes = true)
    (hx : x = [] ∨ x.getLast? = some '\n') (hscan : Joint.complete.scan x = (x, some joint)) :
    ∃ b j p, line = b ++ p ∧ '\n' ∉ p ∧ (b = [] ∨ b.getLast? = some '\n') ∧
      Joint.complete.scan b = (b, some j) ∧
      ∀ t, join x joint ((textLines (s ++ t)).map some) = join b j ((textLines (p ++ t)).map some) := by
  obtain ⟨n, hn⟩ : ∃ n, s.length = n := ⟨_, rfl⟩
  induction n using Nat.strongRecOn generalizing x s joint with
  | ind n ih =>
    by_cases hmem : '\n' ∈ s
    · obtain ⟨p, q, rfl, hp⟩ := List.eq_append_cons_of_mem hmem
      have hsplit : line = (x ++ p) ++ '\n' :: q := by simp [← hline]
      obtain ⟨j, hj, hquotes⟩ := hcontinuous (x ++ p) q hsplit
      have hwhole := Joint.scan_eq_of_some hj
      -- the physical line by itself
      have hphysical : joint.scan (p ++ ['\n']) = (p ++ ['\n'], some j) := by
        rw [List.append_assoc, Joint.scan_append hscan] at hj
        exact Joint.scan_eq_of_some hj
      have hprefix : x ++ (p ++ ['\n']) <+: line := ⟨q, by simp [hsplit]⟩
      have hj' : j ≠ .complete := by
        rintro rfl
        cases hquotes
      obtain ⟨b, j', p', hb⟩ := ih q.length (by simp [← hn]; omega) (x := x ++ p ++ ['\n']) (s := q)
        (by simp [hsplit]) (.inr (by simp)) hwhole rfl
      refine ⟨b, j', p', hb.1, hb.2.1, hb.2.2.1, hb.2.2.2.1, fun t => ?_⟩
      rw [List.append_assoc, List.cons_append, textLines_append_feed hp, List.map_cons,
        join_of_open (isComment_of_leading hprefix hcomment) (by rw [hphysical]) hj', ← hb.2.2.2.2 t]
      simp
    · exact ⟨x, joint, s, hline.symm, hmem, hx, hscan, fun t => rfl⟩

/-- The logical line that a line with its line end makes up, where nothing is left open. -/
def logicalLine (s : List Char) : List Char :=
  match Joint.complete.scan s with
  | (kept, none) => kept
  | (_, some _) => dropLineEnd s

theorem join_of_closed {buffer line : List Char} {joint : Joint} {rest : List (Option (List Char))}
    (hscan : Joint.complete.scan buffer = (buffer, some joint)) (hcomment : isComment (buffer ++ line) = false)
    (hclosed : ¬ LeavesOpen (buffer ++ line)) :
    join buffer joint (some line :: rest) = .line (logicalLine (buffer ++ line)) :: join [] .complete rest := by
  have hboth := Joint.scan_append hscan line
  rw [logicalLine, join, if_neg (by simp [hcomment]), hboth]
  cases hs : joint.scan line with
  | mk kept last =>
    cases last with
    | none => rfl
    | some j =>
      have hj : j = .complete := by
        by_contra hne
        exact hclosed ⟨j, by rw [hboth, hs], hne⟩
      subst hj
      rfl

/-- Only characters of a line end are dropped. -/
theorem dropLineEnd_cases (s : List Char) : ∃ e, s = dropLineEnd s ++ e ∧ ∀ c ∈ e, c = '\r' ∨ c = '\n' := by
  unfold dropLineEnd
  split
  · next rest h => exact ⟨['\r', '\n'], by simpa using congrArg List.reverse h, by simp⟩
  · next rest _ h => exact ⟨['\n'], by simpa using congrArg List.reverse h, by simp⟩
  · exact ⟨[], by simp, by simp⟩

namespace PlainEnd
variable {line comment lineEnd back : List Char} {n : Nat}

theorem exists_concat (h : PlainEnd line) : ∃ front c, line = front ++ [c] ∧ Text.isBlank c = false := by
  rcases List.eq_nil_or_concat line with rfl | ⟨front, c, hlast⟩
  · obtain ⟨key, text, hs, -⟩ := h.assigns
    cases hs
  · rw [List.concat_eq_append] at hlast
    exact ⟨front, c, hlast, (h.last c (by simp [hlast])).1⟩

theorem isComment_eq (h : PlainEnd line) (t : List Char) : isComment (line ++ t) = false := by
  obtain ⟨key, text, hs, -⟩ := h.assigns
  unfold statement? at hs
  rw [h.trimEnd_eq] at hs
  dsimp only at hs
  split at hs
  · cases hs
  · next hsome =>
    simp only [Bool.or_eq_true, List.isEmpty_iff, decide_eq_true_eq, not_or] at hsome
    rw [isComment_append hsome.1]
    simpa [isComment, trimStart] using hsome.2

/-- At the end of the line a comment has begun, or nothing is open. -/
theorem scan_cases (h : PlainEnd line) :
    (Joint.complete.scan line).2 = none ∨ Joint.complete.scan line = (line, some .complete) := by
  cases hj : (Joint.complete.scan line).2 with
  | none => exact .inl rfl
  | some j =>
    obtain ⟨front, c, hline, -⟩ := h.exists_concat
    have hlast : line.getLast? = some c := by simp [hline]
    obtain ⟨hblank, hc⟩ := h.last c hlast
    obtain rfl := Joint.scan_getLast? hlast hj (h.outside j hj) hblank hc
    exact .inr (Joint.scan_eq_of_some hj)

theorem not_leavesOpen (h : PlainEnd line) (hend : IsLineEnd lineEnd back) : ¬ LeavesOpen (line ++ lineEnd) := by
  rintro ⟨j, hj, hne⟩
  rcases h.scan_cases with hs | hs
  · rw [Joint.scan_append_of_none hs, hs] at hj
    cases hj
  · rw [Joint.scan_append hs] at hj
    rcases hend with rfl | rfl | ⟨rfl, -⟩ <;> exact hne (Option.some.inj hj).symm

theorem dropLineEnd_eq (h : PlainEnd line) (hend : IsLineEnd lineEnd back) : dropLineEnd (line ++ lineEnd) = line := by
  obtain ⟨front, c, rfl, hblank⟩ := h.exists_concat
  have hfeed : c ≠ '\n' := by
    rintro rfl
    cases hblank
  have hreturn : c ≠ '\r' := by
    rintro rfl
    cases hblank
  rcases hend with rfl | rfl | ⟨rfl, -⟩
  · exact dropLineEnd_append_feed front hreturn
  · simp [dropLineEnd]
  · simpa using dropLineEnd_append_of_ne front hfeed

/-- A line with something behind it on the same physical line is one logical line, if nothing is left open. -/
theorem join_eq (h : PlainEnd line) {extra : List Char} (hextra : '\n' ∉ extra) (hend : IsLineEnd lineEnd back)
    (hclosed : ¬ LeavesOpen (line ++ (extra ++ lineEnd))) :
    join [] .complete ((textLines (line ++ (extra ++ (lineEnd ++ back)))).map some) =
      .line (logicalLine (line ++ (extra ++ lineEnd))) :: join [] .complete ((textLines back).map some) := by
  have hcomment : isComment line = false := by simpa using h.isComment_eq []
  obtain ⟨b, j, p, hline, hp, hb, hscan, hjoin⟩ :=
    exists_last_line (List.nil_append line) hcomment h.continuous (.inl rfl)
      (rfl : Joint.complete.scan [] = ([], some .complete))
  have hne : p ≠ [] := by
    rintro rfl
    obtain ⟨front, c, hlast, hblank⟩ := h.exists_concat
    rw [hlast, List.append_nil] at hline
    rcases hb with hb | hb
    · simp [hb] at hline
    · rw [← hline, List.getLast?_append] at hb
      obtain rfl : c = '\n' := by simpa using hb
      cases hblank
  have hphysical : '\n' ∉ p ++ extra := by simp [hp, hextra]
  rw [hjoin, ← List.append_assoc, textLines_of_isLineEnd hphysical (by simp [hne]) hend, List.map_cons]
  have hwhole : b ++ (p ++ extra ++ lineEnd) = line ++ (extra ++ lineEnd) := by simp [hline]
  rw [join_of_closed hscan (by rw [hwhole]; exact h.isComment_eq _) (by rwa [hwhole]), hwhole]

/-- What is kept of a comment behind spaces, if it ends in front of a number sign or only a text without one is left
out: the spaces, or more. -/
theorem kept_of_append {u m rest : List Char} (h : List.replicate n ' ' ++ '#' :: u = m ++ rest)
    (hrest : (∃ v, rest = '#' :: v) ∨ '#' ∉ rest) :
    m = List.replicate n ' ' ∨ ∃ c, m = List.replicate n ' ' ++ '#' :: c := by
  rcases List.append_eq_append_iff.mp h with ⟨a, rfl, ha⟩ | ⟨c, hc, rfl⟩
  · cases a with
    | nil => exact .inl (List.append_nil _)
    | cons d a =>
      obtain ⟨rfl, -⟩ := List.cons.inj ha
      exact .inr ⟨a, rfl⟩
  · cases c with
    | nil => exact .inl (by simpa using hc.symm)
    | cons d c =>
      have hd : d = ' ' := List.eq_of_mem_replicate (n := n) (by simp [hc])
      rcases hrest with ⟨v, hv⟩ | hmark
      · obtain ⟨rfl, -⟩ := List.cons.inj hv
        cases hd
      · simp at hmark

/-- The logical line with a comment assigns what the one without it does. -/
theorem attempt?_logicalLine (h : PlainEnd line) (hend : IsLineEnd lineEnd back) (subst : List Char → List Char) :
    attempt? subst (logicalLine (line ++ (List.replicate (n + 1) ' ' ++ '#' :: comment ++ lineEnd))) =
      attempt? subst (logicalLine (line ++ lineEnd)) := by
  rcases h.scan_cases with hs | hs
  · -- the line has a comment of its own
    simp only [logicalLine, Joint.scan_append_of_none hs]
    cases hscan : Joint.complete.scan line with
    | mk kept last =>
      obtain rfl : last = none := by simpa [hscan] using hs
      rfl
  · have hplain : logicalLine (line ++ lineEnd) = line := by
      have hlast : (Joint.complete.scan lineEnd).2 = some .complete := by
        rcases hend with rfl | rfl | ⟨rfl, -⟩ <;> rfl
      rw [logicalLine, Joint.scan_append hs, hlast]
      exact h.dropLineEnd_eq hend
    obtain ⟨m, hm, hcases⟩ : ∃ m,
        logicalLine (line ++ (List.replicate (n + 1) ' ' ++ '#' :: comment ++ lineEnd)) = line ++ m ∧
        (m = List.replicate (n + 1) ' ' ∨ ∃ c, m = List.replicate (n + 1) ' ' ++ '#' :: c) := by
      rw [logicalLine, Joint.scan_append hs]
      cases hj : (Joint.complete.scan (List.replicate (n + 1) ' ' ++ '#' :: comment ++ lineEnd)).2 with
      | none =>
        obtain ⟨rest, hrest⟩ := Joint.exists_mark_of_scan hj
        exact ⟨_, rfl, kept_of_append (by simpa using hrest) (.inl ⟨rest, rfl⟩)⟩
      | some j =>
        dsimp only
        obtain ⟨e, he, hdropped⟩ := dropLineEnd_cases
          (line ++ (List.replicate (n + 1) ' ' ++ '#' :: comment ++ lineEnd))
        have hmark : '#' ∉ e := fun hmem => by
          rcases hdropped '#' hmem with h | h <;> cases h
        rcases List.append_eq_append_iff.mp he with ⟨m, hm, hrest⟩ | ⟨c, -, hrest⟩
        · exact ⟨m, hm, kept_of_append (by simpa using hrest) (.inr hmark)⟩
        · exact absurd (by simp [hrest]) hmark
    rw [hplain, hm]
    rcases hcases with rfl | ⟨c, rfl⟩
    · exact attempt?_spaces subst line (n + 1)
    · exact h.attempt?_comment subst n c

/-- A line with an assignment does not begin with a mark. -/
theorem unmarked (h : PlainEnd line) (t : List Char) :
    byteOrderMark.isPrefixOf (Text.Utf8.encode (line ++ t)) = false := by
  by_contra hmark
  rw [Bool.not_eq_false] at hmark
  obtain ⟨front, c, hline, -⟩ := h.exists_concat
  obtain ⟨d, rest, hd⟩ : ∃ d rest, line = d :: rest := List.exists_cons_of_ne_nil (by simp [hline])
  have hhead := head?_of_marked hmark
  obtain rfl : d = '\uFEFF' := by simpa [hd] using hhead
  have hblank : Text.isBlank '\uFEFF' = false ∧ isKeyChar '\uFEFF' = false := by decide
  obtain ⟨key, text, hs, -⟩ := h.assigns
  unfold statement? at hs
  rw [h.trimEnd_eq, hd] at hs
  simp [trimStart, key?, isKey, hblank] at hs

end PlainEnd

/-- Lines that read the same leave the same, whatever stands around them. -/
theorem run_congr {a b : List Char} (h : ∀ subst, attempt? subst a = attempt? subst b) (pre post : List Logical)
    (env : Environment) (assigned : Assigned) :
    run env assigned (pre ++ .line a :: post) = run env assigned (pre ++ .line b :: post) := by
  induction pre generalizing env assigned with
  | nil => simp only [List.nil_append, run, h]
  | cons line pre ih =>
    cases line with
    | broken => rfl
    | line text => simp only [List.cons_append, run, ih]

namespace Leads
variable {front : List UInt8}

theorem dropMark_append (h : Leads front) (hne : front ≠ []) (rest : List UInt8) :
    dropMark (front ++ rest) = dropMark front ++ rest := by
  by_cases hmark : byteOrderMark.isPrefixOf front = true
  · obtain ⟨more, rfl⟩ := List.isPrefixOf_iff_prefix.mp hmark
    simp [dropMark, byteOrderMark]
  · have hends := h.endsLine
    rw [dropMark, if_neg hmark] at hends
    exact Dotenv.dropMark_append hne hends rest

/-- Behind complete logical lines a text has the lines that it has on its own. -/
theorem logicalLines_append (h : Leads front) {text : List Char}
    (hmark : byteOrderMark.isPrefixOf (Text.Utf8.encode text) = false) :
    logicalLines (front ++ Text.Utf8.encode text) =
      logicalLines front ++ join [] .complete ((textLines text).map some) := by
  rw [← physicalLines_encode]
  by_cases hne : front = []
  · subst hne
    have hdrop : dropMark (Text.Utf8.encode text) = Text.Utf8.encode text := by simp [dropMark, hmark]
    rw [List.nil_append, logicalLines, hdrop]
    rfl
  · rw [logicalLines, h.dropMark_append hne, physicalLines_append h.endsLine, join_append (fun _ => rfl) h.closed]
    rfl

end Leads

/-- A file with a comment behind one of its assignments loads like the file without it. -/
theorem load_comment {front : List UInt8} {line comment lineEnd back : List Char} {n : Nat} (hfront : Leads front)
    (hline : PlainEnd line) (hcomment : '\n' ∉ comment) (hend : IsLineEnd lineEnd back)
    (hclosed : ¬ LeavesOpen (line ++ (List.replicate (n + 1) ' ' ++ '#' :: comment ++ lineEnd)))
    (env : Environment) :
    load env (front ++ Text.Utf8.encode (line ++ (List.replicate (n + 1) ' ' ++ '#' :: comment ++ (lineEnd ++ back)))) =
      load env (front ++ Text.Utf8.encode (line ++ (lineEnd ++ back))) := by
  have hextra : '\n' ∉ List.replicate (n + 1) ' ' ++ '#' :: comment := by
    simp [List.mem_replicate, hcomment]
  have hplain := hline.join_eq (List.not_mem_nil : '\n' ∉ []) hend (by simpa using hline.not_leavesOpen hend)
  simp only [List.nil_append] at hplain
  rw [load, load, hfront.logicalLines_append (hline.unmarked _), hfront.logicalLines_append (hline.unmarked _),
    hline.join_eq hextra hend hclosed, hplain]
  exact run_congr (hline.attempt?_logicalLine hend) _ _ env []

end Dotenv

namespace World

open Dotenv

/-- A comment behind an assignment, with spaces in front of it, leaves the environment and the settings as they are, if
the number of spaces is odd, or if the comment leaves nothing open when it is read like a part of the line. -/
theorem configure_comment {w v : World} {front : List UInt8} {line comment lineEnd back : List Char} {n : Nat}
    (hfront : Leads front) (hline : PlainEnd line) (hn : 0 < n) (hcomment : '\n' ∉ comment)
    (hend : IsLineEnd lineEnd back) (hw : w.Finds (front ++ Text.Utf8.encode (line ++ (lineEnd ++ back))))
    (hv : v.Finds (front ++
      Text.Utf8.encode (line ++ (List.replicate n ' ' ++ '#' :: comment ++ (lineEnd ++ back)))))
    (henv : v.environment = w.environment)
    (hclosed : n % 2 = 1 ∨ ¬ LeavesOpen (line ++ (List.replicate n ' ' ++ '#' :: comment ++ lineEnd))) :
    v.configure.1.environment = w.configure.1.environment ∧ v.configure.2 = w.configure.2 := by
  obtain ⟨n, rfl⟩ : ∃ m, n = m + 1 := ⟨n - 1, by omega⟩
  have hclosed : ¬ LeavesOpen (line ++ (List.replicate (n + 1) ' ' ++ '#' :: comment ++ lineEnd)) := by
    rcases hclosed with hodd | hclosed
    · rintro ⟨j, hj, -⟩
      have hnone : (Joint.complete.scan (line ++ (List.replicate (n + 1) ' ' ++ '#' :: comment ++ lineEnd))).2 =
          none := by
        rcases hline.scan_cases with hs | hs
        · rw [Joint.scan_append_of_none hs, hs]
        · rw [Joint.scan_append hs]
          simpa using Joint.scan_comment hodd (comment ++ lineEnd)
      rw [hnone] at hj
      cases hj
    · exact hclosed
  rw [configure_of_finds hw, configure_of_finds hv, henv, load_comment hfront hline hcomment hend hclosed]
  cases load w.environment (front ++ Text.Utf8.encode (line ++ (lineEnd ++ back))) with
  | mk env outcome => cases outcome <;> exact ⟨rfl, rfl⟩

/-- A value over two lines that ends behind its quotes. -/
private theorem plainEnd_quoted : PlainEnd "FASTN_DB_URL=\"a\n#\"b".toList := by
  refine ⟨fun h => absurd (h fun _ => []) (by decide +kernel), fun front back h => ?_, fun j h => ?_, fun c h => ?_,
    "FASTN_DB_URL".toList, "\"a\n#\"b".toList, by decide +kernel, fun r name h => ?_⟩
  · have hfront : front = "FASTN_DB_URL=\"a\n#\"b".toList.take front.length := by simp [h]
    have hfeed : "FASTN_DB_URL=\"a\n#\"b".toList[front.length]? = some '\n' := by simp [h]
    have hplace : ∀ i < 19, "FASTN_DB_URL=\"a\n#\"b".toList[i]? = some '\n' → i = 15 := by decide
    have hlength : front.length = 15 := by
      refine hplace _ ?_ hfeed
      have := congrArg List.length h
      simp at this
      omega
    rw [hfront, hlength]
    exact ⟨.weak, by decide, rfl⟩
  · have hscan : (Joint.complete.scan "FASTN_DB_URL=\"a\n#\"b".toList).2 = some .complete := by decide
    rw [hscan] at h
    cases h
    rfl
  · obtain rfl : 'b' = c := by simpa using h
    decide
  · have hbehind : Reading.start.behind (fun _ => []) "\"a\n#\"b".toList =
        some ⟨false, .plain, "a\n#b".toList⟩ := by decide +kernel
    rw [hbehind] at h
    cases h
    nofun

/-- Behind one space a comment may hold a quote. Behind two it may hold anything that leaves nothing open. -/
theorem configure_comment_quoted :
    ∃ w v v' : World,
      w.Finds (Text.Utf8.ofString "A=1\n" ++
        Text.Utf8.encode ("FASTN_DB_URL=\"a\n#\"b".toList ++ (['\r', '\n'] ++ "B=2".toList))) ∧
      v.Finds (Text.Utf8.ofString "A=1\n" ++ Text.Utf8.encode ("FASTN_DB_URL=\"a\n#\"b".toList ++
        (List.replicate 1 ' ' ++ '#' :: " it's".toList ++ (['\r', '\n'] ++ "B=2".toList)))) ∧
      v'.Finds (Text.Utf8.ofString "A=1\n" ++ Text.Utf8.encode ("FASTN_DB_URL=\"a\n#\"b".toList ++
        (List.replicate 2 ' ' ++ '#' :: " its".toList ++ (['\r', '\n'] ++ "B=2".toList)))) ∧
      v.configure.2 = w.configure.2 ∧ v'.configure.2 = w.configure.2 ∧
      w.configure.1.settings.databaseUrl = some "a\n#b" ∧ w.configure.1.environment.octets? "B" = some [0x32] := by
  have hfront : Leads (Text.Utf8.ofString "A=1\n") := ⟨.inr (by decide), by decide +kernel⟩
  have hend : IsLineEnd ['\r', '\n'] "B=2".toList := .inr (.inl rfl)
  have hw := finds_holding .empty (Text.Utf8.ofString "A=1\n" ++
    Text.Utf8.encode ("FASTN_DB_URL=\"a\n#\"b".toList ++ (['\r', '\n'] ++ "B=2".toList)))
  have hv := finds_holding .empty (Text.Utf8.ofString "A=1\n" ++
    Text.Utf8.encode ("FASTN_DB_URL=\"a\n#\"b".toList ++
      (List.replicate 1 ' ' ++ '#' :: " it's".toList ++ (['\r', '\n'] ++ "B=2".toList))))
  have hv' := finds_holding .empty (Text.Utf8.ofString "A=1\n" ++
    Text.Utf8.encode ("FASTN_DB_URL=\"a\n#\"b".toList ++
      (List.replicate 2 ' ' ++ '#' :: " its".toList ++ (['\r', '\n'] ++ "B=2".toList))))
  have hclosed : ¬ LeavesOpen ("FASTN_DB_URL=\"a\n#\"b".toList ++
      (List.replicate 2 ' ' ++ '#' :: " its".toList ++ ['\r', '\n'])) := by
    rintro ⟨j, hj, hne⟩
    have hscan : (Joint.complete.scan ("FASTN_DB_URL=\"a\n#\"b".toList ++
        (List.replicate 2 ' ' ++ '#' :: " its".toList ++ ['\r', '\n']))).2 = some .complete := by decide
    rw [hscan] at hj
    exact hne (Option.some.inj hj).symm
  have h := configure_comment hfront plainEnd_quoted (by decide) (by decide) hend hw hv rfl (.inl rfl)
  have h' := configure_comment hfront plainEnd_quoted (by decide) (by decide) hend hw hv' rfl (.inr hclosed)
  exact ⟨_, _, _, hw, hv, hv', h.2, h'.2, by decide +kernel, by decide +kernel⟩

/-- Behind two spaces a quote in a comment joins the next line to it: no variable is set any more, and the location of
the store is lost. -/
theorem comment_joins_lines :
    ∃ w v : World,
      w.Finds (Text.Utf8.encode ("A=1".toList ++ ("\n".toList ++ "FASTN_DB_URL=x\n".toList))) ∧
      v.Finds (Text.Utf8.encode ("A=1".toList ++
        (List.replicate 2 ' ' ++ '#' :: " it's".toList ++ ("\n".toList ++ "FASTN_DB_URL=x\n".toList)))) ∧
      Complete (Text.Utf8.encode ("A=1".toList ++ ("\n".toList ++ "FASTN_DB_URL=x\n".toList))) ∧
      PlainEnd "A=1".toList ∧ v.environment = w.environment ∧
      w.configure.1.settings.databaseUrl = some "x" ∧ w.configure.1.environment.octets? "A" = some [0x31] ∧
      v.configure.1.settings.databaseUrl = none ∧ v.configure.1.environment.octets? "A" = none := by
  let w := holding .empty (Text.Utf8.encode ("A=1".toList ++ ("\n".toList ++ "FASTN_DB_URL=x\n".toList)))
  let v := holding .empty (Text.Utf8.encode ("A=1".toList ++
    (List.replicate 2 ' ' ++ '#' :: " it's".toList ++ ("\n".toList ++ "FASTN_DB_URL=x\n".toList))))
  have hlocation : w.configure.1.settings.databaseUrl = some "x" := by decide +kernel
  have hset : w.configure.1.environment.octets? "A" = some [0x31] := by decide +kernel
  have hlost : v.configure.1.settings.databaseUrl = none := by decide +kernel
  have hunset : v.configure.1.environment.octets? "A" = none := by decide +kernel
  refine ⟨w, v, finds_holding _ _, finds_holding _ _, ?_, ?_, rfl, hlocation, hset, hlost, hunset⟩
  · refine ⟨⟨_, Text.Utf8.decode_encode _⟩, .inr (by decide), fun j hj => ?_⟩
    have hend : endJoint? (Text.Utf8.encode ("A=1".toList ++ ("\n".toList ++ "FASTN_DB_URL=x\n".toList))) =
        some .complete := by decide +kernel
    rw [hend] at hj
    cases hj
    rfl
  · refine ⟨fun h => absurd (h fun _ => []) (by decide +kernel), fun front back h => ?_, fun j h => ?_,
      fun c h => ?_, "A".toList, "1".toList, by decide +kernel, fun r name h => ?_⟩
    · have hfeed : '\n' ∈ "A=1".toList := by simp [h]
      exact absurd hfeed (by decide)
    · have hscan : (Joint.complete.scan "A=1".toList).2 = some .complete := by decide
      rw [hscan] at h
      cases h
      rfl
    · obtain rfl : '1' = c := by simpa using h
      decide
    · have hbehind : Reading.start.behind (fun _ => []) "1".toList = some ⟨false, .plain, ['1']⟩ := by decide +kernel
      rw [hbehind] at h
      cases h
      nofun

end World
end FirstRow
