import FirstRow.Proofs.Dotenv.Joining
import FirstRow.Proofs.Dotenv.Substitution

/-!
# Files loaded in succession

`carryOut` is what one line does to an environment. It needs no table of the values assigned so far, and a run over
lines is the succession of what each line does; all statements go by induction on the lines from what holds of one.

Two laws follow. A file that is complete can be loaded alone, and the file behind it then: the environment and the
settings are those of the one file that both make up. And reading the settings a second time changes nothing. The
values that are computed then may well be other ones, since names that were assigned late have a text by now; but they
are not set, because every variable that was assigned has a text, and reading stops where it did, because where that
is does not depend on values.
-/
namespace FirstRow

namespace Dotenv
variable {env env' : Environment} {assigned : Assigned}

/-! ## Lines without a table -/

/-- Every name assigned so far has a text in the environment. -/
def Settled (env : Environment) (assigned : Assigned) : Prop :=
  ∀ a ∈ assigned, '=' ∉ a.1 ∧ (env.get? (String.ofList a.1)).isSome = true

theorem Settled.nil (env : Environment) : Settled env [] := by
  simp [Settled]

/-- A variable that has a text keeps it. -/
theorem get?_setUnlessSet? {key value : List Char} (h : setUnlessSet? env key value = some env') {name : String}
    (hname : (env.get? name).isSome = true) : env'.get? name = env.get? name := by
  rcases setUnlessSet?_eq_some h with ⟨-, rfl⟩ | ⟨hnone, rfl⟩
  · rfl
  · have hne : name ≠ String.ofList key := by
      rintro rfl
      simp [hnone] at hname
    exact Environment.get?_congr (by simp [hne])

/-- A variable that was set, or was not because it had a text, has a text. -/
theorem isSome_setUnlessSet? {key value : List Char} (h : setUnlessSet? env key value = some env') :
    (env'.get? (String.ofList key)).isSome = true := by
  rcases setUnlessSet?_eq_some h with ⟨hsome, rfl⟩ | ⟨-, rfl⟩
  · exact hsome
  · have hget : (env.set (String.ofList key) value).get? (String.ofList key) = some value :=
      Environment.get?_of_octets? (by simp)
    rw [hget]
    rfl

theorem Settled.cons (h : Settled env assigned) {key value : List Char} (hkey : '=' ∉ key)
    (hset : setUnlessSet? env key value = some env') (entry : Option (List Char)) :
    Settled env' ((key, entry) :: assigned) := by
  intro a ha
  rcases List.mem_cons.mp ha with rfl | ha
  · exact ⟨hkey, isSome_setUnlessSet? hset⟩
  · obtain ⟨hne, hsome⟩ := h a ha
    exact ⟨hne, by rw [get?_setUnlessSet? hset hsome, hsome]⟩

/-- The table is not asked: what it has, the environment has before it. -/
theorem Settled.substitute_eq (h : Settled env assigned) : substitute env assigned = substitute env [] := by
  funext name
  unfold substitute
  cases hb : env.behind? name with
  | some v => rfl
  | none =>
    have hl : assigned.lookup name = none := by
      rw [List.lookup_eq_none_iff]
      intro a ha
      obtain ⟨hne, hsome⟩ := h a ha
      have hna : name ≠ a.1 := by
        rintro rfl
        rw [← env.behind?_eq_get? hne, hb] at hsome
        cases hsome
      simpa using hna
    rw [hl]
    rfl

theorem Settled.run_eq (h : Settled env assigned) (lines : List Logical) :
    run env assigned lines = run env [] lines := by
  induction lines generalizing env assigned with
  | nil => rfl
  | cons line rest ih =>
    cases line with
    | broken => rfl
    | line text =>
      simp only [run, h.substitute_eq]
      cases ha : attempt? (substitute env []) text with
      | none => rfl
      | some a =>
        cases a with
        | nothing => exact ih h
        | assign key value =>
          have hkey := not_mem_of_attempt? ha
          cases hs : setUnlessSet? env key (value.getD []) with
          | none => simp [hs]
          | some env' => simp [hs, ih (h.cons hkey hs value), ih ((Settled.nil env).cons hkey hs value)]

/-- Carry out one line: the environment behind it, or how loading ends there. -/
def carryOut (env : Environment) (line : List Char) : Except Outcome Environment :=
  match attempt? (substitute env []) line with
  | none => .error .finished
  | some .nothing => .ok env
  | some (.assign key value) =>
    match setUnlessSet? env key (value.getD []) with
    | none => .error .nulInValue
    | some env => .ok env

theorem run_cons (env : Environment) (text : List Char) (rest : List Logical) :
    run env [] (.line text :: rest) =
      match carryOut env text with
      | .error outcome => (env, outcome)
      | .ok env' => run env' [] rest := by
  unfold carryOut
  cases ha : attempt? (substitute env []) text with
  | none => simp [run, ha]
  | some a =>
    cases a with
    | nothing => simp [run, ha]
    | assign key value =>
      cases hs : setUnlessSet? env key (value.getD []) with
      | none => simp [run, ha, hs]
      | some env' => simp [run, ha, hs, ((Settled.nil env).cons (not_mem_of_attempt? ha) hs value).run_eq]

/-! ## What one line does -/

theorem carryOut_finished_iff {line : List Char} : carryOut env line = .error .finished ↔ Malformed line := by
  rw [malformed_iff (substitute env [])]
  unfold carryOut
  cases attempt? (substitute env []) line with
  | none => simp
  | some a =>
    cases a with
    | nothing => simp
    | assign key value => cases hs : setUnlessSet? env key (value.getD []) <;> simp [hs]

/-- A value cannot be set because of a NUL in it. -/
theorem mem_of_setUnlessSet?_eq_none {key value : List Char} (h : setUnlessSet? env key value = none) :
    '\x00' ∈ value := by
  unfold setUnlessSet? at h
  dsimp only at h
  split at h
  · cases h
  · split at h
    · next hc => simpa using hc
    · cases h

/-- A line leaves alone what has a text. -/
theorem get?_carryOut {line : List Char} (h : carryOut env line = .ok env') {name : String}
    (hname : (env.get? name).isSome = true) : env'.get? name = env.get? name := by
  unfold carryOut at h
  split at h
  · cases h
  · cases h
    rfl
  · split at h
    · cases h
    · next hs =>
      cases h
      exact get?_setUnlessSet? hs hname

/-- A line that was carried out does nothing in an environment where everything has a text that has one behind it. -/
theorem carryOut_again {final : Environment} {line : List Char} (h : carryOut env line = .ok env')
    (hfinal : ∀ name, (env'.get? name).isSome = true → (final.get? name).isSome = true) :
    carryOut final line = .ok final := by
  unfold carryOut at h ⊢
  cases ha : attempt? (substitute env []) line with
  | none => simp [ha] at h
  | some a =>
    cases a with
    | nothing => simp [(attempt?_nothing_iff (substitute env []) (substitute final [])).mpr ha]
    | assign key value =>
      obtain ⟨value', ha'⟩ := (exists_assign_iff (substitute env []) (substitute final [])).mpr ⟨value, ha⟩
      cases hs : setUnlessSet? env key (value.getD []) with
      | none => simp [ha, hs] at h
      | some env₁ =>
        obtain rfl : env₁ = env' := by simpa [ha, hs] using h
        obtain ⟨v, hv⟩ := Option.isSome_iff_exists.mp (hfinal _ (isSome_setUnlessSet? hs))
        simp [ha', setUnlessSet?, hv]

/-- A line without a NUL can be carried out in an environment without one, and brings none into it. -/
theorem carryOut_nulFree (henv : env.NulFree) {line : List Char} (hline : '\x00' ∉ line) :
    carryOut env line ≠ .error .nulInValue ∧ ∀ env', carryOut env line = .ok env' → env'.NulFree := by
  have hsubst : ∀ name, '\x00' ∉ substitute env [] name := by
    intro name
    unfold substitute
    cases hb : env.behind? name with
    | none => simp
    | some v => exact henv.behind? hb
  unfold carryOut
  cases ha : attempt? (substitute env []) line with
  | none => simp
  | some a =>
    cases a with
    | nothing => simpa using henv
    | assign key value =>
      have hv := nul_not_mem_of_attempt? ha hline hsubst
      cases hs : setUnlessSet? env key (value.getD []) with
      | none => exact absurd (mem_of_setUnlessSet?_eq_none hs) hv
      | some env₁ =>
        have henv₁ : env₁.NulFree := by
          rcases setUnlessSet?_eq_some hs with ⟨-, rfl⟩ | ⟨-, rfl⟩
          · exact henv
          · exact henv.set _ hv
        simpa [hs] using henv₁

/-! ## What lines do -/

theorem isSome_run {name : String} (h : (env.get? name).isSome = true) (lines : List Logical) :
    ((run env [] lines).1.get? name).isSome = true := by
  induction lines generalizing env with
  | nil => exact h
  | cons line rest ih =>
    cases line with
    | broken => exact h
    | line text =>
      rw [run_cons]
      cases hc : carryOut env text with
      | error outcome => exact h
      | ok env' => exact ih (by rw [get?_carryOut hc h, h])

/-- Lines that were carried out change nothing the second time, and end in the same way. -/
theorem run_again {final : Environment} {outcome : Outcome} {lines : List Logical}
    (h : run env [] lines = (final, outcome)) : run final [] lines = (final, outcome) := by
  induction lines generalizing env with
  | nil =>
    cases h
    rfl
  | cons line rest ih =>
    cases line with
    | broken =>
      cases h
      rfl
    | line text =>
      rw [run_cons] at h
      cases hc : carryOut env text with
      | error outcome' =>
        rw [hc] at h
        cases h
        rw [run_cons, hc]
      | ok env' =>
        replace h : run env' [] rest = (final, outcome) := by simpa only [hc] using h
        have hfinal : ∀ name, (env'.get? name).isSome = true → (final.get? name).isSome = true := by
          intro name hname
          have hrun := isSome_run hname rest
          rwa [h] at hrun
        rw [run_cons, carryOut_again hc hfinal]
        exact ih h

/-- Behind lines that can all be read, other lines go on in the environment that those leave. -/
theorem run_append {lines : List Logical} (hbroken : .broken ∉ lines)
    (hread : ∀ text, .line text ∈ lines → ¬ Malformed text) (rest : List Logical) :
    run env [] (lines ++ rest) =
      match run env [] lines with
      | (env', .finished) => run env' [] rest
      | (env', .nulInValue) => (env', .nulInValue) := by
  induction lines generalizing env with
  | nil => rfl
  | cons line lines ih =>
    cases line with
    | broken => exact absurd List.mem_cons_self hbroken
    | line text =>
      rw [List.cons_append, run_cons, run_cons]
      cases hc : carryOut env text with
      | error outcome =>
        cases outcome with
        | finished => exact absurd (carryOut_finished_iff.mp hc) (hread text List.mem_cons_self)
        | nulInValue => rfl
      | ok env' =>
        exact ih (fun h => hbroken (List.mem_cons_of_mem _ h)) fun t ht => hread t (List.mem_cons_of_mem _ ht)

/-- What stands behind a malformed line has no effect. -/
theorem run_append_of_malformed {lines : List Logical} {text : List Char} (hmem : .line text ∈ lines)
    (hbad : Malformed text) (rest : List Logical) : run env [] (lines ++ rest) = run env [] lines := by
  induction lines generalizing env with
  | nil => cases hmem
  | cons line lines ih =>
    cases line with
    | broken => rfl
    | line text' =>
      rw [List.cons_append, run_cons, run_cons]
      cases hc : carryOut env text' with
      | error outcome => rfl
      | ok env' =>
        rcases List.mem_cons.mp hmem with he | hmem
        · cases he
          rw [carryOut_finished_iff.mpr hbad] at hc
          cases hc
        · exact ih hmem

/-- Lines without a NUL are carried out to the end in an environment without one. -/
theorem run_nulFree (henv : env.NulFree) {lines : List Logical} (hlines : ∀ text, .line text ∈ lines → '\x00' ∉ text) :
    (run env [] lines).2 = .finished ∧ (run env [] lines).1.NulFree := by
  induction lines generalizing env with
  | nil => exact ⟨rfl, henv⟩
  | cons line rest ih =>
    cases line with
    | broken => exact ⟨rfl, henv⟩
    | line text =>
      obtain ⟨hne, hok⟩ := carryOut_nulFree henv (hlines text List.mem_cons_self)
      rw [run_cons]
      cases hc : carryOut env text with
      | error outcome =>
        cases outcome with
        | finished => exact ⟨rfl, henv⟩
        | nulInValue => exact absurd hc hne
      | ok env' => exact ih (hok env' hc) fun t ht => hlines t (List.mem_cons_of_mem _ ht)

/-- A file without a NUL can always be loaded. -/
theorem load_nulFree (henv : env.NulFree) {file : List UInt8} (hfile : 0 ∉ file) :
    (load env file).2 = .finished ∧ (load env file).1.NulFree :=
  run_nulFree henv fun _ htext hnul => hfile (zero_mem_of_mem_logicalLines htext hnul)

end Dotenv

/-! ## Worlds with an environment file -/

private theorem toList_loop (bs : ByteArray) (i : Nat) (read : List UInt8) :
    ByteArray.toList.loop bs i read = read.reverse ++ bs.data.toList.drop i := by
  fun_induction ByteArray.toList.loop bs i read with
  | case1 i read h ih =>
    have hi : i < bs.data.toList.length := by rw [Array.length_toList]; exact h
    have hg : bs.get! i = bs.data.toList[i] := by
      rw [Array.getElem_toList]
      exact getElem!_pos bs.data i h
    rw [ih, List.drop_eq_getElem_cons hi, hg]
    simp
  | case2 i read h =>
    have hi : bs.data.toList.length ≤ i := by rw [Array.length_toList]; exact Nat.le_of_not_lt h
    simp [List.drop_eq_nil_of_le hi]

/-- The octets of a file are those that were put into it. -/
theorem toList_file (bs : List UInt8) : (ByteArray.mk bs.toArray).toList = bs := by
  rw [ByteArray.toList, toList_loop]
  simp

namespace World

/-- The content of the environment file that a world finds. -/
def Finds (w : World) (file : List UInt8) : Prop :=
  findEnvironmentFile w.disk w.workingDirectory.length w.workingDirectory = some file

/-- A world that holds an environment file and nothing else. -/
def holding (environment : Environment) (file : List UInt8) : World :=
  ⟨⟨[([environmentFile], .file ⟨file.toArray⟩)]⟩, environment, .unconfigured, []⟩

theorem finds_holding (environment : Environment) (file : List UInt8) : (holding environment file).Finds file := by
  simp [Finds, findEnvironmentFile, findEnvironmentFile.here, holding, Disk.node?, toList_file]

/-! ## Reading the settings twice -/

/-- The world and the answer once a file was loaded. -/
def loaded (w : World) : Environment × Dotenv.Outcome → World × Answer
  | (env, .finished) =>
    ({ w with environment := env, settings := .ofEnvironment env }, .settings (.ofEnvironment env) env)
  | (env, .nulInValue) => ({ w with environment := env }, .panic)

theorem configure_of_finds {w : World} {file : List UInt8} (h : w.Finds file) :
    w.configure = w.loaded (Dotenv.load w.environment file) := by
  rw [Finds] at h
  unfold configure loaded
  rw [h]
  dsimp only
  cases Dotenv.load w.environment file with
  | mk env outcome => cases outcome <;> rfl

/-- Reading the settings a second time leaves the world as it is and has the same answer, be it settings or a panic. -/
theorem configure_again (w : World) : w.configure.1.configure = w.configure := by
  cases hfind : findEnvironmentFile w.disk w.workingDirectory.length w.workingDirectory with
  | none => simp [configure, hfind]
  | some file =>
    rw [configure_of_finds hfind]
    cases hload : Dotenv.load w.environment file with
    | mk env outcome =>
      have hagain : Dotenv.load env file = (env, outcome) := Dotenv.run_again hload
      cases outcome with
      | finished =>
        have hfind' : (w.loaded (env, .finished)).1.Finds file := hfind
        rw [configure_of_finds hfind']
        simp only [loaded, hagain]
      | nulInValue =>
        have hfind' : (w.loaded (env, .nulInValue)).1.Finds file := hfind
        rw [configure_of_finds hfind']
        simp only [loaded, hagain]

/-- Two files in a row. If the first is complete, without a malformed line, then both in one are as good as the first
alone and then the second in the environment that it leaves; a mark at the start of the second would count there only.
If the first is complete and has a malformed line, the second has no effect, whatever it is. -/
theorem configure_append {w v : World} {first second : List UInt8} (hw : w.Finds (first ++ second))
    (hv : v.Finds first) (henv : v.environment = w.environment) (hc : Dotenv.Complete first) :
    ((∀ text, .line text ∈ Dotenv.logicalLines first → ¬ Dotenv.Malformed text) →
      Dotenv.byteOrderMark.isPrefixOf second = false →
      w.environment.NulFree → 0 ∉ first → 0 ∉ second →
      ∃ s₁ env₁, v.configure = ({ v with environment := env₁, settings := s₁ }, .settings s₁ env₁) ∧
        ∀ u : World, u.Finds second → u.environment = env₁ →
          ∃ s env, u.configure = ({ u with environment := env, settings := s }, .settings s env) ∧
            w.configure = ({ w with environment := env, settings := s }, .settings s env)) ∧
    ((∃ text, .line text ∈ Dotenv.logicalLines first ∧ Dotenv.Malformed text) →
      w.configure.1.environment = v.configure.1.environment ∧ w.configure.2 = v.configure.2) := by
  rw [configure_of_finds hw, configure_of_finds hv, henv]
  constructor
  · intro hread hmark hnul hfirst hsecond
    obtain ⟨hfin, hnul₁⟩ := Dotenv.load_nulFree hnul hfirst
    cases hload : Dotenv.load w.environment first with
    | mk env₁ outcome =>
      rw [hload] at hfin hnul₁
      obtain rfl : outcome = .finished := hfin
      refine ⟨_, env₁, rfl, ?_⟩
      intro u hu henv₁
      have hboth : Dotenv.load w.environment (first ++ second) = Dotenv.load env₁ second := by
        rw [Dotenv.load, hc.logicalLines_append_unmarked hmark, Dotenv.run_append hc.broken_not_mem hread]
        rw [Dotenv.load] at hload
        rw [hload]
        rfl
      obtain ⟨hfin₂, -⟩ := Dotenv.load_nulFree hnul₁ hsecond
      cases hload₂ : Dotenv.load env₁ second with
      | mk env outcome =>
        rw [hload₂] at hfin₂
        obtain rfl : outcome = .finished := hfin₂
        rw [configure_of_finds hu, henv₁, hboth, hload₂]
        exact ⟨_, env, rfl, rfl⟩
  · rintro ⟨text, hmem, hbad⟩
    have hne : first ≠ [] := by
      rintro rfl
      cases hmem
    have hboth : Dotenv.load w.environment (first ++ second) = Dotenv.load w.environment first := by
      rw [Dotenv.load, hc.logicalLines_append hne, Dotenv.run_append_of_malformed hmem hbad]
      rfl
    rw [hboth]
    cases Dotenv.load w.environment first with
    | mk env outcome => cases outcome <;> exact ⟨rfl, rfl⟩

/-- A value over two lines, and a substitution of it in the other file; then a malformed line in front of the same
substitution. -/
theorem configure_append_quoted :
    (∃ s env,
      (holding (holding .empty (Text.Utf8.ofString "A='x\n#'\n")).configure.1.environment
        (Text.Utf8.ofString "FASTN_DB_URL=$A")).configure.2 = .settings s env ∧
      (holding .empty (Text.Utf8.ofString "A='x\n#'\n" ++ Text.Utf8.ofString "FASTN_DB_URL=$A")).configure.2 =
        .settings s env ∧
      env.bindings = [("A", [0x78, 0x0A, 0x23]), ("FASTN_DB_URL", [0x78, 0x0A, 0x23])]) ∧
    (holding .empty (Text.Utf8.ofString "=x\n" ++ Text.Utf8.ofString "FASTN_DB_URL=$A")).configure.2 =
      (holding .empty (Text.Utf8.ofString "=x\n")).configure.2 := by
  have hcomplete : ∀ s : String, (Text.Utf8.ofString s).getLast? = some 0x0A →
      Dotenv.endJoint? (Text.Utf8.ofString s) = some .complete → Dotenv.Complete (Text.Utf8.ofString s) := by
    intro s hlast hend
    refine ⟨⟨_, Text.Utf8.decode_encode _⟩, .inr hlast, fun joint hj => ?_⟩
    rw [hend] at hj
    cases hj
    rfl
  constructor
  · have hread : ∀ text, .line text ∈ Dotenv.logicalLines (Text.Utf8.ofString "A='x\n#'\n") →
        ¬ Dotenv.Malformed text := by
      have hl : Dotenv.logicalLines (Text.Utf8.ofString "A='x\n#'\n") = [.line "A='x\n#'".toList] := by
        decide +kernel
      intro text htext hbad
      rw [hl, List.mem_singleton, Dotenv.Logical.line.injEq] at htext
      subst htext
      exact absurd (hbad fun _ => []) (by decide +kernel)
    have hempty : Environment.empty.NulFree := by
      intro name bs h
      cases h
    have hboth := finds_holding .empty (Text.Utf8.ofString "A='x\n#'\n" ++ Text.Utf8.ofString "FASTN_DB_URL=$A")
    obtain ⟨s₁, env₁, hv, hu⟩ := (configure_append hboth (finds_holding .empty _) rfl
      (hcomplete "A='x\n#'\n" (by decide) (by decide +kernel))).1 hread (by decide) hempty (by decide) (by decide)
    obtain ⟨s, env, hu, hw⟩ := hu (holding env₁ (Text.Utf8.ofString "FASTN_DB_URL=$A")) (finds_holding _ _) rfl
    refine ⟨s, env, by rw [hv, hu], by rw [hw], ?_⟩
    have h := configure_of_finished hboth (by decide +kernel)
    rw [hw] at h
    rw [(Answer.settings.inj (Prod.mk.inj h).2).2]
    decide +kernel
  · have hbad : Dotenv.Malformed "=x".toList := (Dotenv.malformed_iff fun _ => []).mpr (by decide +kernel)
    exact ((configure_append (finds_holding .empty _) (finds_holding .empty _) rfl
      (hcomplete "=x\n" (by decide) (by decide +kernel))).2 ⟨_, by decide +kernel, hbad⟩).2

end World

end FirstRow
