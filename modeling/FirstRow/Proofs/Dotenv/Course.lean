import FirstRow.Proofs.Dotenv.Succession
import Mathlib.Logic.Relation

/-!
# The course of a loading

A loading goes from point to point. At each it stands in front of the lines that are left, in an environment and with
a table of the values assigned so far, and `Point.Next` carries out one line. What holds of every point is proved of
one line: each name in the table has a text in the environment, no variable has a NUL, and the environment is that of
the assignments so far. A loading ends at a point where reading stops, or at one that assigns a value that cannot be
set.

Three laws follow. The table is never asked, and a loader without one does the same. A loading panics at the first
assignment of a NUL to a variable without a text and nowhere else, and the NUL stands in the line of that assignment.
And in two environments a file without a NUL goes through points that differ in values alone, so the variables that it
assigns are the same in all of them.
-/
namespace FirstRow

namespace Dotenv

/-- Where a loading stands: the environment, the values assigned so far, and the lines that are left. -/
structure Point where
  environment : Environment
  assigned : Assigned
  lines : List Logical

namespace Point

/-- In front of the first line. -/
def start (env : Environment) (file : List UInt8) : Point :=
  ⟨env, [], logicalLines file⟩

/-- One line is carried out. -/
inductive Next : Point → Point → Prop where
  | nothing {env : Environment} {assigned : Assigned} {text : List Char} {rest : List Logical}
      (attempt : attempt? (substitute env assigned) text = some .nothing) :
      Next ⟨env, assigned, .line text :: rest⟩ ⟨env, assigned, rest⟩
  | assign {env env' : Environment} {assigned : Assigned} {text key : List Char} {value : Option (List Char)}
      {rest : List Logical} (attempt : attempt? (substitute env assigned) text = some (.assign key value))
      (set : setUnlessSet? env key (value.getD []) = some env') :
      Next ⟨env, assigned, .line text :: rest⟩ ⟨env', (key, value) :: assigned, rest⟩

/-- The points of a loading. -/
def Reached (env : Environment) (file : List UInt8) : Point → Prop :=
  Relation.ReflTransGen Next (start env file)

/-- How loading ends from a point on. -/
def run (p : Point) : Environment × Outcome :=
  Dotenv.run p.environment p.assigned p.lines

/-- Reading stops at a point: no line is left, or the next one is malformed. -/
def Ends (p : Point) : Prop :=
  Stops p.environment p.assigned.reverse p.lines

/-- The next line assigns a value with a NUL to a variable that has no text. -/
structure Refuses (p : Point) (text key : List Char) (value : Option (List Char)) : Prop where
  line : ∃ rest, p.lines = .line text :: rest
  attempt : attempt? (substitute p.environment p.assigned) text = some (.assign key value)
  unset : p.environment.get? (String.ofList key) = none
  nul : '\x00' ∈ value.getD []

/-- Two points that differ in values alone. -/
structure Alike (p q : Point) : Prop where
  lines : q.lines = p.lines
  keys : q.assigned.map Prod.fst = p.assigned.map Prod.fst

variable {p q : Point} {env : Environment} {file : List UInt8}

/-! ## One line -/

theorem Next.run_eq (h : p.Next q) : p.run = q.run := by
  cases h with
  | nothing ha => simp [run, Dotenv.run, ha]
  | assign ha hs => simp [run, Dotenv.run, ha, hs]

theorem Next.settled (h : p.Next q) (hp : Settled p.environment p.assigned) :
    Settled q.environment q.assigned := by
  cases h with
  | nothing => exact hp
  | assign ha hs => exact hp.cons (not_mem_of_attempt? ha) hs _

/-- A value that was set has no NUL. -/
theorem nul_not_mem_of_setUnlessSet? {env env' : Environment} {key value : List Char}
    (h : setUnlessSet? env key value = some env') (hunset : env.get? (String.ofList key) = none) :
    '\x00' ∉ value := by
  intro hnul
  simp [setUnlessSet?, hunset, hnul] at h

/-- Only a variable without a text can be refused its value. -/
theorem unset_of_setUnlessSet?_eq_none {env : Environment} {key value : List Char}
    (h : setUnlessSet? env key value = none) : env.get? (String.ofList key) = none := by
  by_contra hset
  obtain ⟨v, hv⟩ := Option.ne_none_iff_exists'.mp hset
  simp [setUnlessSet?, hv] at h

theorem Next.nulFree (h : p.Next q) (hp : p.environment.NulFree) : q.environment.NulFree := by
  cases h with
  | nothing => exact hp
  | assign _ hs =>
    rcases setUnlessSet?_eq_some hs with ⟨-, rfl⟩ | ⟨hunset, rfl⟩
    · exact hp
    · exact hp.set _ (nul_not_mem_of_setUnlessSet? hs hunset)

theorem Next.octets? {env₀ : Environment} (h : p.Next q)
    (hp : ∀ name, p.environment.octets? name = overlay env₀ p.assigned.reverse name) (name : String) :
    q.environment.octets? name = overlay env₀ q.assigned.reverse name := by
  cases h with
  | nothing => exact hp name
  | assign _ hs =>
    rw [List.reverse_cons]
    exact octets?_setUnlessSet? hp hs name

theorem Next.lines_eq (h : p.Next q) : ∃ text, p.lines = .line text :: q.lines := by
  cases h <;> exact ⟨_, rfl⟩

/-- A NUL that cannot be set stands in its line. It comes from no substitution, since a name stands for what the
environment has and never for a value of the table, which may have one. -/
theorem Refuses.nul_mem {text key : List Char} {value : Option (List Char)} (h : p.Refuses text key value)
    (hp : Settled p.environment p.assigned) (hnul : p.environment.NulFree) : '\x00' ∈ text := by
  by_contra hline
  have hsubst : ∀ name, '\x00' ∉ substitute p.environment p.assigned name := by
    intro name
    rw [hp.substitute_eq]
    unfold substitute
    cases hb : p.environment.behind? name with
    | none => simp
    | some v => exact hnul.behind? hb
  exact nul_not_mem_of_attempt? h.attempt hline hsubst h.nul

/-- From every point loading goes on, or it ends there. -/
theorem next_or_ends (p : Point) : (∃ q, p.Next q) ∨ p.Ends ∨ ∃ text key value, p.Refuses text key value := by
  obtain ⟨env, assigned, lines⟩ := p
  match lines with
  | [] => exact .inr (.inl trivial)
  | .broken :: rest => exact .inr (.inl trivial)
  | .line text :: rest =>
    cases ha : attempt? (substitute env assigned) text with
    | none =>
      refine .inr (.inl ?_)
      simpa [Ends, Stops] using ha
    | some a =>
      cases a with
      | nothing => exact .inl ⟨_, .nothing ha⟩
      | assign key value =>
        cases hs : setUnlessSet? env key (value.getD []) with
        | some env' => exact .inl ⟨_, .assign ha hs⟩
        | none =>
          exact .inr (.inr ⟨text, key, value, ⟨rest, rfl⟩, ha, unset_of_setUnlessSet?_eq_none hs,
            mem_of_setUnlessSet?_eq_none hs⟩)

/-! ## Where loading ends -/

theorem Ends.run_eq (h : p.Ends) : p.run = (p.environment, .finished) := by
  simpa [run] using run_of_stops h

theorem Refuses.run_eq {text key : List Char} {value : Option (List Char)} (h : p.Refuses text key value) :
    p.run = (p.environment, .nulInValue) := by
  obtain ⟨rest, hlines⟩ := h.line
  have hset : setUnlessSet? p.environment key (value.getD []) = none := by
    simp [setUnlessSet?, h.unset, h.nul]
  simp [run, hlines, Dotenv.run, h.attempt, hset]

theorem Refuses.not_next {text key : List Char} {value : Option (List Char)} (h : p.Refuses text key value) :
    ¬ p.Next q := by
  intro hnext
  obtain ⟨rest, hlines⟩ := h.line
  cases hnext with
  | nothing ha =>
    obtain ⟨rfl, rfl⟩ := by simpa using hlines
    simp [h.attempt] at ha
  | assign ha hs =>
    obtain ⟨rfl, rfl⟩ := by simpa using hlines
    obtain ⟨rfl, rfl⟩ := Attempt.assign.inj (Option.some.inj (h.attempt.symm.trans ha))
    exact nul_not_mem_of_setUnlessSet? hs h.unset h.nul

/-- One line has one outcome. -/
theorem next_unique : Relator.RightUnique Next := by
  intro p q q' h h'
  cases h with
  | nothing ha =>
    cases h' with
    | nothing => rfl
    | assign ha' _ => simp [ha] at ha'
  | assign ha hs =>
    cases h' with
    | nothing ha' => simp [ha] at ha'
    | assign ha' hs' =>
      obtain ⟨rfl, rfl⟩ := Attempt.assign.inj (Option.some.inj (ha.symm.trans ha'))
      obtain rfl := Option.some.inj (hs.symm.trans hs')
      rfl

/-- Every loading comes to its last point. -/
theorem exists_last (p : Point) :
    ∃ q, Relation.ReflTransGen Next p q ∧ (q.Ends ∨ ∃ text key value, q.Refuses text key value) := by
  obtain ⟨n, hn⟩ : ∃ n, p.lines.length = n := ⟨_, rfl⟩
  induction n generalizing p with
  | zero =>
    rcases p.next_or_ends with ⟨q, hq⟩ | hend
    · obtain ⟨text, hlines⟩ := hq.lines_eq
      simp [hlines] at hn
    · exact ⟨p, .refl, hend⟩
  | succ n ih =>
    rcases p.next_or_ends with ⟨q, hq⟩ | hend
    · obtain ⟨text, hlines⟩ := hq.lines_eq
      obtain ⟨last, hreach, hend⟩ := ih q (by simpa [hlines] using hn)
      exact ⟨last, .head hq hreach, hend⟩
    · exact ⟨p, .refl, hend⟩

/-! ## What holds at every point -/

theorem Reached.load_eq (h : Reached env file p) : load env file = p.run := by
  induction h with
  | refl => rfl
  | tail _ hnext ih => rw [ih, hnext.run_eq]

theorem Reached.settled (h : Reached env file p) : Settled p.environment p.assigned := by
  induction h with
  | refl => exact .nil env
  | tail _ hnext ih => exact hnext.settled ih

theorem Reached.nulFree (h : Reached env file p) (henv : env.NulFree) : p.environment.NulFree := by
  induction h with
  | refl => exact henv
  | tail _ hnext ih => exact hnext.nulFree ih

theorem Reached.octets? (h : Reached env file p) (name : String) :
    p.environment.octets? name = overlay env p.assigned.reverse name := by
  induction h generalizing name with
  | refl => exact (overlay_nil env name).symm
  | tail _ hnext ih => exact hnext.octets? ih name

/-- The environment at a point is that of the assignments so far. -/
theorem Reached.effect (h : Reached env file p) : Effect env p.assigned.reverse p.environment :=
  .of_overlay h.octets?

/-- The variables that have a text at a point are those that had one and those that were assigned. -/
theorem Reached.get?_isSome (h : Reached env file p) (name : String) :
    (p.environment.get? name).isSome = true ↔
      (env.get? name).isSome = true ∨ ∃ key ∈ p.assigned.reverse.map Prod.fst, String.ofList key = name := by
  rw [get?_overlay (h.octets? name), Bool.or_eq_true, List.find?_isSome]
  simp

theorem Reached.mem_lines (h : Reached env file p) {line : Logical} (hline : line ∈ p.lines) :
    line ∈ logicalLines file := by
  induction h with
  | refl => exact hline
  | tail _ hnext ih =>
    obtain ⟨text, hlines⟩ := hnext.lines_eq
    exact ih (by simp [hlines, hline])

/-- A loading is refused at one point only. -/
theorem Reached.eq_of_refuses (hp : Reached env file p) (hq : Reached env file q)
    {text key text' key' : List Char} {value value' : Option (List Char)} (h : p.Refuses text key value)
    (h' : q.Refuses text' key' value') : q = p := by
  rcases Relation.ReflTransGen.total_of_right_unique next_unique hp hq with hpq | hqp
  · rcases hpq.cases_head with rfl | ⟨r, hnext, -⟩
    · rfl
    · exact absurd hnext h.not_next
  · rcases hqp.cases_head with rfl | ⟨r, hnext, -⟩
    · rfl
    · exact absurd hnext h'.not_next

/-- A file without a NUL is never refused. -/
theorem Reached.not_refuses (h : Reached env file p) (henv : env.NulFree) (hfile : 0 ∉ file)
    {text key : List Char} {value : Option (List Char)} : ¬ p.Refuses text key value := by
  intro hr
  obtain ⟨rest, hlines⟩ := hr.line
  have htext := hr.nul_mem h.settled (h.nulFree henv)
  exact hfile (zero_mem_of_mem_logicalLines (h.mem_lines (by simp [hlines])) htext)

theorem Reached.exists_ends (henv : env.NulFree) (hfile : 0 ∉ file) : ∃ p, Reached env file p ∧ p.Ends := by
  obtain ⟨p, hreach, hend⟩ := exists_last (start env file)
  refine ⟨p, hreach, hend.resolve_right ?_⟩
  rintro ⟨text, key, value, hr⟩
  exact Reached.not_refuses hreach henv hfile hr

/-! ## Two environments -/

/-- Where reading stops does not depend on values. -/
theorem Alike.ends (h : p.Alike q) (hp : p.Ends) : q.Ends := by
  obtain ⟨env, assigned, lines⟩ := p
  obtain ⟨env', assigned', lines'⟩ := q
  obtain rfl : lines' = lines := h.lines
  match lines', hp with
  | [], _ => trivial
  | .broken :: rest, _ => trivial
  | .line text :: rest, hp =>
    exact (malformed_iff (substitute env assigned.reverse.reverse)).mpr hp _

/-- A line that is carried out in one environment is carried out in the other, and assigns the same variable, unless
its value cannot be set there. -/
theorem Alike.next {p' : Point} (h : p.Alike q) (hnext : p.Next p')
    (hq : ∀ text key value, ¬ q.Refuses text key value) : ∃ q', q.Next q' ∧ p'.Alike q' := by
  obtain ⟨env', assigned', lines'⟩ := q
  cases hnext with
  | nothing ha =>
    obtain rfl := h.lines
    exact ⟨_, .nothing ((attempt?_nothing_iff _ (substitute env' assigned')).mpr ha), rfl, h.keys⟩
  | @assign env _ assigned text key value rest ha _ =>
    obtain rfl := h.lines
    obtain ⟨value', ha'⟩ := (exists_assign_iff _ (substitute env' assigned')).mpr ⟨value, ha⟩
    rcases next_or_ends ⟨env', assigned', .line text :: rest⟩ with ⟨q', hnext'⟩ | hend | ⟨t, k, v, hr⟩
    · refine ⟨q', hnext', ?_⟩
      cases hnext' with
      | nothing hn => simp [ha'] at hn
      | assign hv _ =>
        obtain ⟨rfl, rfl⟩ := Attempt.assign.inj (Option.some.inj (ha'.symm.trans hv))
        exact ⟨rfl, by simpa using h.keys⟩
    · simp [Ends, Stops, ha'] at hend
    · exact absurd hr (hq t k v)

/-- Where no value is refused, a loading in another environment comes to a point that differs in values alone. -/
theorem Reached.alike {env' : Environment} (h : Reached env file p) (henv' : env'.NulFree) (hfile : 0 ∉ file) :
    ∃ q, Reached env' file q ∧ p.Alike q := by
  induction h with
  | refl => exact ⟨start env' file, .refl, rfl, rfl⟩
  | tail _ hnext ih =>
    obtain ⟨q, hq, halike⟩ := ih
    obtain ⟨q', hnext', halike'⟩ := halike.next hnext fun _ _ _ => hq.not_refuses henv' hfile
    exact ⟨q', hq.tail hnext', halike'⟩

end Point

/-! ## A loader without a table -/

/-- Carry out logical lines, where a name stands for what the environment has behind it, or for nothing. -/
def runByEnvironment (env : Environment) : List Logical → Environment × Outcome
  | [] => (env, .finished)
  | .broken :: _ => (env, .finished)
  | .line text :: rest =>
    match attempt? (fun name => (env.behind? name).getD []) text with
    | none => (env, .finished)
    | some .nothing => runByEnvironment env rest
    | some (.assign key value) =>
      match setUnlessSet? env key (value.getD []) with
      | none => (env, .nulInValue)
      | some env => runByEnvironment env rest

/-- Load a file without keeping what it assigns. -/
def loadByEnvironment (env : Environment) (file : List UInt8) : Environment × Outcome :=
  runByEnvironment env (logicalLines file)

theorem substitute_nil (env : Environment) : substitute env [] = fun name => (env.behind? name).getD [] := by
  funext name
  unfold substitute
  cases env.behind? name <;> rfl

theorem run_eq_runByEnvironment (env : Environment) (lines : List Logical) :
    run env [] lines = runByEnvironment env lines := by
  induction lines generalizing env with
  | nil => rfl
  | cons line rest ih =>
    cases line with
    | broken => rfl
    | line text =>
      rw [run_cons, runByEnvironment, carryOut, substitute_nil]
      cases attempt? (fun name => (env.behind? name).getD []) text with
      | none => rfl
      | some a =>
        cases a with
        | nothing => exact ih env
        | assign key value =>
          cases hs : setUnlessSet? env key (value.getD []) with
          | none => simp [hs]
          | some env' => simpa [hs] using ih env'

end Dotenv

namespace World

open Dotenv

/-- A loading is what it leaves and how it ends. -/
private theorem load_eq_of {env : Environment} {file : List UInt8} {bindings : List (String × List UInt8)}
    {outcome : Outcome} (hb : (load env file).1.bindings = bindings) (ho : (load env file).2 = outcome) :
    load env file = (⟨bindings⟩, outcome) := by
  rw [← hb, ← ho]

/-- An environment with one variable, which has no NUL. -/
private theorem nulFree_single {name : String} {value : List UInt8} (h : 0 ∉ value) :
    (⟨[(name, value)]⟩ : Environment).NulFree := by
  intro other bs hbs
  rw [Environment.octets?, List.lookup_cons] at hbs
  split at hbs
  · rwa [← Option.some.inj hbs]
  · cases hbs

private theorem nulFree_empty : Environment.empty.NulFree := by
  intro name bs h
  cases h

/-- The values that a file has assigned so far never matter: reading the settings does the same with a loader that
asks the environment alone, because at every point each name assigned so far has a text there. -/
theorem configure_byEnvironment {w : World} {file : List UInt8} (hw : w.Finds file) :
    w.configure = w.loaded (loadByEnvironment w.environment file) ∧
      ∀ p, Point.Reached w.environment file p →
        (∀ a ∈ p.assigned, (p.environment.get? (String.ofList a.1)).isSome = true) ∧
          ∀ name, substitute p.environment p.assigned name = (p.environment.behind? name).getD [] := by
  refine ⟨?_, fun p hp => ⟨fun a ha => (hp.settled a ha).2, fun name => ?_⟩⟩
  · rw [configure_of_finds hw, load, run_eq_runByEnvironment, loadByEnvironment]
  · rw [hp.settled.substitute_eq, substitute_nil]

/-- The file assigns a variable that has a text, twice one whose octets are no text, and asks for both and for a name
that nothing has assigned. -/
theorem configure_byEnvironment_overwritten :
    ∃ w : World, w.Finds (Text.Utf8.ofString "A=1\nB=$A\nB=2\nFASTN_DB_URL=$B/$A$Z") ∧
      w.environment.bindings = [("A", [0x78]), ("B", [0xFF])] ∧
      w.configure = w.loaded (⟨[("A", [0x78]), ("B", [0x78]), ("FASTN_DB_URL", [0x78, 0x2F, 0x78])]⟩, .finished) ∧
      ∀ p, Point.Reached w.environment (Text.Utf8.ofString "A=1\nB=$A\nB=2\nFASTN_DB_URL=$B/$A$Z") p →
        ∀ name, substitute p.environment p.assigned name = (p.environment.behind? name).getD [] := by
  let w := holding ⟨[("A", [0x78]), ("B", [0xFF])]⟩ (Text.Utf8.ofString "A=1\nB=$A\nB=2\nFASTN_DB_URL=$B/$A$Z")
  have hw : w.Finds (Text.Utf8.ofString "A=1\nB=$A\nB=2\nFASTN_DB_URL=$B/$A$Z") := finds_holding _ _
  obtain ⟨hconfigure, hpoints⟩ := configure_byEnvironment hw
  refine ⟨w, hw, rfl, ?_, fun p hp => (hpoints p hp).2⟩
  rw [hconfigure, loadByEnvironment, ← run_eq_runByEnvironment]
  exact congrArg w.loaded (load_eq_of (by decide +kernel) (by decide +kernel))

/-- Reading the settings panics exactly where an assignment in front of the first malformed line has a NUL in its value
and nothing has given its variable a text. The environment is then that of the assignments in front of it, all else is
as it was, and the NUL stands in the line itself. A file without a NUL never panics. -/
theorem configure_panics {w : World} {file : List UInt8} (hw : w.Finds file) :
    (w.configure.2 = .panic ↔
      ∃ p text key value, Point.Reached w.environment file p ∧ p.Refuses text key value) ∧
    (∀ p text key value, Point.Reached w.environment file p → p.Refuses text key value →
      w.configure = ({ w with environment := p.environment }, .panic) ∧
        Effect w.environment p.assigned.reverse p.environment ∧
        (∀ q, Point.Reached w.environment file q → ∀ text' key' value', q.Refuses text' key' value' → q = p) ∧
        (w.environment.NulFree → '\x00' ∈ text)) ∧
    (w.environment.NulFree → 0 ∉ file → w.configure.2 ≠ .panic) := by
  have hpanic : ∀ p text key value, Point.Reached w.environment file p → p.Refuses text key value →
      w.configure = ({ w with environment := p.environment }, .panic) := by
    intro p text key value hp hr
    rw [configure_of_finds hw, hp.load_eq, hr.run_eq]
    rfl
  have hends : ∀ p, Point.Reached w.environment file p → p.Ends → w.configure.2 ≠ .panic := by
    intro p hp hend
    rw [configure_of_finds hw, hp.load_eq, hend.run_eq]
    nofun
  refine ⟨⟨fun h => ?_, ?_⟩, fun p text key value hp hr => ?_, fun henv hfile => ?_⟩
  · obtain ⟨p, hp, hend | ⟨text, key, value, hr⟩⟩ := Point.exists_last (.start w.environment file)
    · exact absurd h (hends p hp hend)
    · exact ⟨p, text, key, value, hp, hr⟩
  · rintro ⟨p, text, key, value, hp, hr⟩
    rw [hpanic p text key value hp hr]
  · exact ⟨hpanic p text key value hp hr, hp.effect,
      fun q hq _ _ _ hr' => hp.eq_of_refuses hq hr hr',
      fun henv => hr.nul_mem hp.settled (hp.nulFree henv)⟩
  · obtain ⟨p, hp, hend⟩ := Point.Reached.exists_ends henv hfile
    exact hends p hp hend

/-- A value with a NUL gets into the table under a name that has a text, and a substitution of that name gets the text;
the next value with a NUL cannot be set. Without a NUL the same lines are read to their end. -/
theorem configure_panics_once :
    ∃ (w v : World) (text : List Char),
      w.Finds (Text.Utf8.ofString "A=\x00\nB=$A\nC=$B\x00\nD=1") ∧ w.environment.bindings = [("A", [0x78])] ∧
      w.configure = ({ w with environment := ⟨[("A", [0x78]), ("B", [0x78])]⟩ }, .panic) ∧ '\x00' ∈ text ∧
      v.Finds (Text.Utf8.ofString "A=\nB=$A\nC=$B\nD=1") ∧ v.configure.2 ≠ .panic := by
  let w := holding ⟨[("A", [0x78])]⟩ (Text.Utf8.ofString "A=\x00\nB=$A\nC=$B\x00\nD=1")
  let v := holding ⟨[("A", [0x78])]⟩ (Text.Utf8.ofString "A=\nB=$A\nC=$B\nD=1")
  have hw : w.Finds (Text.Utf8.ofString "A=\x00\nB=$A\nC=$B\x00\nD=1") := finds_holding _ _
  have hv : v.Finds (Text.Utf8.ofString "A=\nB=$A\nC=$B\nD=1") := finds_holding _ _
  have hnul : w.environment.NulFree := nulFree_single (by decide)
  have hload : load w.environment (Text.Utf8.ofString "A=\x00\nB=$A\nC=$B\x00\nD=1") =
      (⟨[("A", [0x78]), ("B", [0x78])]⟩, .nulInValue) := load_eq_of (by decide +kernel) (by decide +kernel)
  have hconfigure : w.configure = ({ w with environment := ⟨[("A", [0x78]), ("B", [0x78])]⟩ }, .panic) := by
    rw [configure_of_finds hw, hload]
    rfl
  obtain ⟨p, text, key, value, hp, hr⟩ := (configure_panics hw).1.mp (by rw [hconfigure])
  obtain ⟨-, -, -, htext⟩ := (configure_panics hw).2.1 p text key value hp hr
  exact ⟨w, v, text, hw, rfl, hconfigure, htext hnul, hv, (configure_panics hv).2.2 hnul (by decide)⟩

/-- What a file without a NUL assigns does not depend on the environment. There are keys and lines at which reading
stops, the same in all environments, such that the variables with a text are in the end those that had one and the
keys; and any two loadings go through points with the same lines and the same keys. -/
theorem configure_keys {file : List UInt8} (hfile : 0 ∉ file) :
    ∃ (keys : List (List Char)) (stop : List Logical),
      (∀ text rest, stop = .line text :: rest → Malformed text) ∧
      (∀ w : World, w.Finds file → w.environment.NulFree →
        ∃ env assigned,
          w.configure =
            ({ w with environment := env, settings := .ofEnvironment env }, .settings (.ofEnvironment env) env) ∧
          Point.Reached w.environment file ⟨env, assigned, stop⟩ ∧ assigned.reverse.map Prod.fst = keys ∧
          ∀ name, (env.get? name).isSome = true ↔
            (w.environment.get? name).isSome = true ∨ ∃ key ∈ keys, String.ofList key = name) ∧
      ∀ env env' : Environment, env.NulFree → env'.NulFree → ∀ p, Point.Reached env file p →
        ∃ q, Point.Reached env' file q ∧ p.Alike q := by
  have hempty : Environment.empty.NulFree := by
    intro name bs h
    cases h
  obtain ⟨last, hlast, hend⟩ := Point.Reached.exists_ends hempty hfile
  refine ⟨last.assigned.reverse.map Prod.fst, last.lines, ?_, fun w hw henv => ?_, fun env env' _ henv' p hp =>
    hp.alike henv' hfile⟩
  · intro text rest hlines
    rw [malformed_iff (substitute last.environment last.assigned)]
    simpa [Point.Ends, Stops, hlines] using hend
  · obtain ⟨⟨env, assigned, lines⟩, hp, halike⟩ := hlast.alike henv hfile
    obtain rfl : lines = last.lines := halike.lines
    have hkeys : assigned.reverse.map Prod.fst = last.assigned.reverse.map Prod.fst := by
      rw [List.map_reverse, List.map_reverse, halike.keys]
    refine ⟨env, assigned, ?_, hp, hkeys, fun name => ?_⟩
    · rw [configure_of_finds hw, hp.load_eq, (halike.ends hend).run_eq]
      rfl
    · rw [← hkeys]
      exact hp.get?_isSome name

/-- In one of the environments the substituted text has all that could mean something to a reader. -/
theorem configure_keys_substituted :
    ∃ (v w : World) (keys : List (List Char)) (env env' : Environment),
      v.environment = .empty ∧
      w.environment.bindings = [("B", Text.Utf8.ofString "\"'\\ #\n=")] ∧
      v.configure.2 = .settings (.ofEnvironment env) env ∧ w.configure.2 = .settings (.ofEnvironment env') env' ∧
      env.bindings = [("A", []), ("C", [0x23])] ∧
      (∀ name, (env.get? name).isSome = true ↔ ∃ key ∈ keys, String.ofList key = name) ∧
      ∀ name, (env'.get? name).isSome = true ↔ name = "B" ∨ ∃ key ∈ keys, String.ofList key = name := by
  let file := Text.Utf8.ofString "A=$B\nC=\"$B#\"\n=x\nD=1"
  let v := holding .empty file
  let w := holding ⟨[("B", Text.Utf8.ofString "\"'\\ #\n=")]⟩ file
  have hv : v.Finds file := finds_holding _ _
  have hw : w.Finds file := finds_holding _ _
  have hB : ∀ name, (w.environment.get? name).isSome = true ↔ name = "B" := by
    intro name
    by_cases h : name = "B"
    · subst h
      exact iff_of_true (by decide +kernel) rfl
    · have hne : (name == "B") = false := by simpa using h
      simp [w, holding, Environment.get?, Environment.octets?, List.lookup_cons, hne, h]
  obtain ⟨keys, stop, -, hall, -⟩ := configure_keys (by decide : 0 ∉ file)
  obtain ⟨env, -, hconfigure, -, -, hset⟩ := hall v hv nulFree_empty
  obtain ⟨env', -, hconfigure', -, -, hset'⟩ := hall w hw (nulFree_single (by decide))
  refine ⟨v, w, keys, env, env', rfl, rfl, by rw [hconfigure], by rw [hconfigure'], ?_, fun name => ?_, fun name => ?_⟩
  · have hload : load v.environment file = (⟨[("A", []), ("C", [0x23])]⟩, .finished) :=
      load_eq_of (by decide +kernel) (by decide +kernel)
    rw [configure_of_finds hv, hload] at hconfigure
    exact congrArg (fun a : World × Answer => a.1.environment.bindings) hconfigure.symm
  · rw [hset name]
    simp [v, holding, Environment.get?, Environment.octets?, Environment.empty]
  · rw [hset' name, hB name]

end World
end FirstRow
