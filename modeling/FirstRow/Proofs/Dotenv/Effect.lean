import FirstRow.Dotenv.Load
import FirstRow.Proofs.Environment
import FirstRow.Session

/-!
# What loading an environment file does

`Effect` says what assignments make of an environment without carrying them out: a variable that had a text keeps it,
another one that is assigned has the value of its first assignment, and the rest stays as it was. `History` splits the
lines of a file into moments, each with the environment in which its line stood, and the lines at which reading stops.
The environment at every moment is the effect of the assignments before it; `overlay` computes that effect, and is what
one line carries on.
-/
namespace FirstRow

namespace Dotenv

/-- An environment after assignments, given the one before them. Of several assignments to a variable the first counts,
and none of them does if the variable had a text. -/
structure Effect (env₀ : Environment) (as : Assigned) (env : Environment) : Prop where
  kept : ∀ name, (env₀.get? name).isSome = true → env.octets? name = env₀.octets? name
  assigned : ∀ name, env₀.get? name = none → ∀ a, as.find? (fun a => String.ofList a.1 = name) = some a →
    env.octets? name = some (Text.Utf8.encode (a.2.getD []))
  untouched : ∀ name, (∀ a ∈ as, String.ofList a.1 ≠ name) → env.octets? name = env₀.octets? name
  none_removed : ∀ name, (env₀.octets? name).isSome = true → (env.octets? name).isSome = true

/-- What an environment is like once assignments were made, as far as a variable is concerned. -/
def overlay (env : Environment) (as : Assigned) (name : String) : Option (List UInt8) :=
  if (env.get? name).isSome then env.octets? name
  else match as.find? fun a => String.ofList a.1 = name with
    | some a => some (Text.Utf8.encode (a.2.getD []))
    | none => env.octets? name

/-- A line that was carried out, what it assigns, and the environment as it stood at the line. -/
structure Moment where
  environment : Environment
  line : List Char
  attempt : Attempt

/-- The assignment of a line, if it makes one. -/
def Attempt.assignment? : Attempt → Option (List Char × Option (List Char))
  | .nothing => none
  | .assign key value => some (key, value)

/-- The assignments of some moments, in the order of the lines. -/
def assignments (ms : List Moment) : Assigned :=
  ms.filterMap fun m => m.attempt.assignment?

/-- The lines of some moments. -/
def linesOf (ms : List Moment) : List Logical :=
  ms.map fun m => .line m.line

/-- Reading stops in front of these lines: none is left, or the first one is malformed in the environment as it stands,
or no line can be made of what follows. -/
def Stops (env : Environment) (as : Assigned) : List Logical → Prop
  | [] => True
  | .broken :: _ => True
  | .line text :: _ => attempt? (substitute env as.reverse) text = none

/-- What holds at a moment, where `env` is the environment in the beginning and `before` are the moments so far: the
environment is that of the assignments so far, and the line assigns what it says there. -/
structure Moment.Follows (env : Environment) (before : List Moment) (m : Moment) : Prop where
  environment : Effect env (assignments before) m.environment
  attempt : attempt? (substitute m.environment (assignments before).reverse) m.line = some m.attempt

/-- The moments of a loading, and the lines at which reading stops. Such lines have no effect, whatever they are. -/
structure History (env₀ : Environment) (file : List UInt8) (env : Environment) (ms : List Moment)
    (rest : List Logical) : Prop where
  lines : logicalLines file = linesOf ms ++ rest
  stops : Stops env (assignments ms) rest
  follows : ∀ pre m post, ms = pre ++ m :: post → m.Follows env₀ pre
  inert : ∀ rest', Stops env (assignments ms) rest' → run env₀ [] (linesOf ms ++ rest') = (env, .finished)

@[simp] theorem assignments_nil : assignments [] = [] := rfl

@[simp] theorem assignments_append (ms ns : List Moment) :
    assignments (ms ++ ns) = assignments ms ++ assignments ns := by
  simp [assignments]

/-- The overlay is the effect. -/
theorem Effect.of_overlay {env₀ env : Environment} {as : Assigned}
    (h : ∀ name, env.octets? name = overlay env₀ as name) : Effect env₀ as env where
  kept name hset := by rw [h, overlay, if_pos hset]
  assigned name hset a ha := by
    rw [h, overlay, hset, ha]
    simp
  untouched name hne := by
    have hf : as.find? (fun a => String.ofList a.1 = name) = none := by simpa using hne
    rw [h, overlay, hf]
    simp
  none_removed name hsome := by
    rw [h, overlay]
    split
    · exact hsome
    · split
      · rfl
      · exact hsome

theorem overlay_nil (env : Environment) (name : String) : overlay env [] name = env.octets? name := by
  simp [overlay]

/-- A variable that has a text is left alone, and another one is set. -/
theorem setUnlessSet?_eq_some {env env' : Environment} {key value : List Char}
    (h : setUnlessSet? env key value = some env') :
    (env.get? (String.ofList key)).isSome = true ∧ env' = env ∨
      env.get? (String.ofList key) = none ∧ env' = env.set (String.ofList key) value := by
  unfold setUnlessSet? at h
  cases hg : env.get? (String.ofList key) with
  | some v =>
    simp only [hg, Option.some.injEq] at h
    exact .inl ⟨rfl, h.symm⟩
  | none =>
    simp only [hg] at h
    split at h
    · cases h
    · exact .inr ⟨rfl, (Option.some.inj h).symm⟩

/-- A variable of the overlay has a text if it had one, or was assigned. -/
theorem get?_overlay {env₀ env : Environment} {as : Assigned} {name : String}
    (h : env.octets? name = overlay env₀ as name) :
    (env.get? name).isSome = ((env₀.get? name).isSome || (as.find? fun a => String.ofList a.1 = name).isSome) := by
  unfold overlay at h
  split at h
  · next hset => rw [Environment.get?_congr h, hset, Bool.true_or]
  · next hset =>
    cases hf : as.find? fun a => String.ofList a.1 = name with
    | some a =>
      rw [hf] at h
      rw [Environment.get?_of_octets? h]
      simp
    | none =>
      rw [hf] at h
      rw [Environment.get?_congr h]
      simp

/-- Setting a variable unless it is set carries the overlay on by one assignment. -/
theorem octets?_setUnlessSet? {env₀ env env' : Environment} {as : Assigned} {key : List Char}
    {value : Option (List Char)} (h : ∀ name, env.octets? name = overlay env₀ as name)
    (hs : setUnlessSet? env key (value.getD []) = some env') (name : String) :
    env'.octets? name = overlay env₀ (as ++ [(key, value)]) name := by
  have hset := get?_overlay (h (String.ofList key))
  have hn := h name
  unfold overlay at hn ⊢
  rw [List.find?_append]
  by_cases hname : name = String.ofList key
  · subst hname
    rcases setUnlessSet?_eq_some hs with ⟨hg, rfl⟩ | ⟨hg, rfl⟩
    · -- it had a text from the beginning, or from an earlier line
      rw [hg] at hset
      rw [hn]
      by_cases h₀ : (env₀.get? (String.ofList key)).isSome = true
      · simp [h₀]
      · cases hf : as.find? fun a => String.ofList a.1 = String.ofList key with
        | some a => simp [h₀]
        | none => simp [h₀, hf] at hset
    · rw [hg] at hset
      simp only [Option.isSome_none, Bool.false_eq, Bool.or_eq_false_iff] at hset
      have hf : (as.find? fun a => String.ofList a.1 = String.ofList key) = none := by simpa using hset.2
      simp [hset.1, hf]
  · have hne : ¬ String.ofList key = name := fun e => hname e.symm
    have hkeep : env'.octets? name = env.octets? name := by
      rcases setUnlessSet?_eq_some hs with ⟨-, rfl⟩ | ⟨-, rfl⟩
      · rfl
      · simp [hname]
    rw [hkeep, hn]
    simp [hne]

/-- A line in front of a run that ends in order: it is malformed and ends the run, or it is carried out. -/
private theorem run_line {env₀ env final : Environment} {as : Assigned} {text : List Char} {rest : List Logical}
    (h : ∀ name, env.octets? name = overlay env₀ as name)
    (hrun : run env as.reverse (.line text :: rest) = (final, .finished)) :
    attempt? (substitute env as.reverse) text = none ∧ final = env ∨
      ∃ a env', attempt? (substitute env as.reverse) text = some a ∧
        (∀ name, env'.octets? name = overlay env₀ (as ++ a.assignment?.toList) name) ∧
        ∀ tail, run env as.reverse (.line text :: tail) = run env' (as ++ a.assignment?.toList).reverse tail := by
  cases ha : attempt? (substitute env as.reverse) text with
  | none => simp_all [run]
  | some a =>
    right
    cases a with
    | nothing =>
      refine ⟨.nothing, env, rfl, ?_, ?_⟩
      · simpa [Attempt.assignment?] using h
      · intro tail
        simp [run, ha, Attempt.assignment?]
    | assign key value =>
      cases hs : setUnlessSet? env key (value.getD []) with
      | none => simp [run, ha, hs] at hrun
      | some env' =>
        refine ⟨.assign key value, env', rfl, octets?_setUnlessSet? h hs, ?_⟩
        intro tail
        simp [run, ha, hs, Attempt.assignment?]

/-- The history of a run that ends in order. The moments so far are `before`, and their assignments are those that the
run is given. Behind the moments of the history any lines can follow. -/
theorem exists_history {env₀ env final : Environment} {before : List Moment} {lines : List Logical}
    (henv : ∀ name, env.octets? name = overlay env₀ (assignments before) name)
    (hrun : run env (assignments before).reverse lines = (final, .finished)) :
    ∃ ms rest, lines = linesOf ms ++ rest ∧ Stops final (assignments (before ++ ms)) rest ∧
      (∀ pre m post, ms = pre ++ m :: post → m.Follows env₀ (before ++ pre)) ∧
      (∀ name, final.octets? name = overlay env₀ (assignments (before ++ ms)) name) ∧
      ∀ tail, run env (assignments before).reverse (linesOf ms ++ tail) =
        run final (assignments (before ++ ms)).reverse tail := by
  induction lines generalizing env before with
  | nil =>
    obtain rfl : env = final := by simpa [run] using hrun
    exact ⟨[], [], rfl, trivial, by simp, by simpa using henv, by simp [linesOf]⟩
  | cons l rest ih =>
    cases l with
    | broken =>
      obtain rfl : env = final := by simpa [run] using hrun
      exact ⟨[], .broken :: rest, rfl, trivial, by simp, by simpa using henv, by simp [linesOf]⟩
    | line text =>
      rcases run_line henv hrun with ⟨hbad, rfl⟩ | ⟨a, env', ha, henv', hstep⟩
      · exact ⟨[], .line text :: rest, rfl, by simpa [Stops] using hbad, by simp, by simpa using henv,
          by simp [linesOf]⟩
      · have hbefore : assignments (before ++ [⟨env, text, a⟩]) = assignments before ++ a.assignment?.toList := by
          cases hq : a.assignment? <;> simp [assignments, hq]
        rw [hstep rest, ← hbefore] at hrun
        rw [← hbefore] at henv'
        obtain ⟨ms, tail, hlines, hstop, hfollow, hfinal, hagain⟩ := ih henv' hrun
        refine ⟨⟨env, text, a⟩ :: ms, tail, by rw [hlines]; rfl, by simpa using hstop, ?_, by simpa using hfinal, ?_⟩
        · rintro (_ | ⟨p, pre⟩) m post hms
          · rw [List.nil_append, List.cons.injEq] at hms
            rw [← hms.1]
            exact ⟨by simpa using Effect.of_overlay henv, by simpa using ha⟩
          · rw [List.cons_append, List.cons.injEq] at hms
            rw [← hms.1]
            simpa using hfollow pre m post hms.2
        · intro tail
          rw [hbefore] at hagain
          refine (hstep _).trans ((hagain tail).trans ?_)
          simp

/-- Where reading stops, nothing is changed any more. -/
theorem run_of_stops {env : Environment} {as : Assigned} {lines : List Logical} (h : Stops env as lines) :
    run env as.reverse lines = (env, .finished) := by
  unfold Stops at h
  split at h
  · rfl
  · rfl
  · simp [run, h]

/-- Loading a file that can be loaded has a history. -/
theorem load_history {env₀ env : Environment} {file : List UInt8} (h : load env₀ file = (env, .finished)) :
    ∃ ms rest, History env₀ file env ms rest ∧ Effect env₀ (assignments ms) env := by
  have hnone : ∀ name, env₀.octets? name = overlay env₀ (assignments []) name := fun name =>
    (overlay_nil env₀ name).symm
  obtain ⟨ms, rest, hlines, hstops, hfollows, hfinal, hagain⟩ := exists_history hnone h
  refine ⟨ms, rest, ⟨hlines, hstops, hfollows, ?_⟩, Effect.of_overlay hfinal⟩
  intro rest' hstops'
  exact (hagain rest').trans (run_of_stops hstops')

end Dotenv

/-- Reading the settings succeeds if the file can be loaded. -/
theorem World.configure_of_finished {w : World} {file : List UInt8}
    (hfile : findEnvironmentFile w.disk w.workingDirectory.length w.workingDirectory = some file)
    (h : (Dotenv.load w.environment file).2 = .finished) :
    w.configure =
      ({ w with
          environment := (Dotenv.load w.environment file).1
          settings := .ofEnvironment (Dotenv.load w.environment file).1 },
        .settings (.ofEnvironment (Dotenv.load w.environment file).1) (Dotenv.load w.environment file).1) := by
  unfold World.configure
  rw [hfile]
  dsimp only
  rw [h]

/-- The exact effect of reading the settings where that succeeds: the environment is that of the lines in front of the
first malformed one, each carried out in the environment as it stood, and the settings are what it says then. -/
theorem World.configure_effect {w w' : World} {file : List UInt8} {s : Settings} {env : Environment}
    (hfile : findEnvironmentFile w.disk w.workingDirectory.length w.workingDirectory = some file)
    (h : w.configure = (w', .settings s env)) :
    (∃ ms rest, Dotenv.History w.environment file env ms rest ∧
      Dotenv.Effect w.environment (Dotenv.assignments ms) env) ∧
    w' = { w with environment := env, settings := s } ∧
      s.databaseUrl = (env.get? "FASTN_DB_URL").map String.ofList ∧
      s.logFilter = ((env.get? "RUST_LOG").map String.ofList).getD "info" := by
  unfold World.configure at h
  rw [hfile] at h
  dsimp only at h
  cases hload : Dotenv.load w.environment file with
  | mk env' outcome =>
    rw [hload] at h
    cases outcome with
    | nulInValue => cases h
    | finished =>
      cases h
      exact ⟨Dotenv.load_history hload, rfl, rfl, rfl⟩

/-- The file assigns a variable that has a text, then twice one that has none, and then has a malformed line. -/
theorem World.configure_effect_first :
    ∃ (w w' : World) (file : List UInt8) (s : Settings) (env : Environment),
      w.environment.bindings = [("A", [0x31]), ("FASTN_DB_URL", [0xFF])] ∧
      findEnvironmentFile w.disk w.workingDirectory.length w.workingDirectory = some file ∧
      w.configure = (w', .settings s env) ∧
      env.bindings = [("A", [0x31]), ("FASTN_DB_URL", [0x31, 0x2F, 0x62])] ∧
      (∃ ms rest, Dotenv.History w.environment file env ms rest ∧
        Dotenv.Effect w.environment (Dotenv.assignments ms) env) ∧
      s.databaseUrl = (env.get? "FASTN_DB_URL").map String.ofList := by
  have hfile : findEnvironmentFile
      ⟨[([environmentFile],
        .file ⟨(Text.Utf8.ofString "A=x\nFASTN_DB_URL=\"$A/b\"\nFASTN_DB_URL=no\n=bad\nB=2").toArray⟩)]⟩ 0 [] =
        some (Text.Utf8.ofString "A=x\nFASTN_DB_URL=\"$A/b\"\nFASTN_DB_URL=no\n=bad\nB=2") := by
    decide +kernel
  have hload : (Dotenv.load ⟨[("A", [0x31]), ("FASTN_DB_URL", [0xFF])]⟩
      (Text.Utf8.ofString "A=x\nFASTN_DB_URL=\"$A/b\"\nFASTN_DB_URL=no\n=bad\nB=2")).2 = .finished := by
    decide +kernel
  have h := World.configure_of_finished
    (w := ⟨_, ⟨[("A", [0x31]), ("FASTN_DB_URL", [0xFF])]⟩, .unconfigured, []⟩) hfile hload
  obtain ⟨hm, -, hs, -⟩ := World.configure_effect
    (w := ⟨_, ⟨[("A", [0x31]), ("FASTN_DB_URL", [0xFF])]⟩, .unconfigured, []⟩) hfile h
  exact ⟨_, _, _, _, _, rfl, hfile, h, by decide +kernel, hm, hs⟩

end FirstRow
