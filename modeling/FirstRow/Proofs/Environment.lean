import FirstRow.Environment
import FirstRow.Proofs.Text.Utf8
import Mathlib.Data.List.Basic

/-!
# Variables after one of them was set

Setting a variable changes what is found under its name and nothing else. The statements hold of every list of
bindings, also of one that is out of order.
-/
namespace FirstRow.Environment

private theorem lookup_cons_eq (k : String) (v : List UInt8) (rest : List (String × List UInt8)) (name : String) :
    ((k, v) :: rest).lookup name = if name = k then some v else rest.lookup name := by
  by_cases h : name = k
  · simp [h]
  · have hb : (name == k) = false := by simpa using h
    simp [List.lookup_cons, hb, h]

theorem lookup_insert (name : String) (value : List UInt8) (bindings : List (String × List UInt8)) (other : String) :
    (insert name value bindings).lookup other = if other = name then some value else bindings.lookup other := by
  induction bindings with
  | nil => exact lookup_cons_eq name value [] other
  | cons b rest ih =>
    obtain ⟨k, v⟩ := b
    unfold insert
    split
    · exact lookup_cons_eq name value _ other
    · split
      · next hk =>
        subst hk
        rw [lookup_cons_eq, lookup_cons_eq]
        split <;> rfl
      · next hk =>
        rw [lookup_cons_eq, lookup_cons_eq, ih]
        by_cases h : other = k
        · subst h
          simp [Ne.symm hk]
        · simp [h]

@[simp] theorem octets?_set (env : Environment) (name : String) (value : List Char) (other : String) :
    (env.set name value).octets? other = if other = name then some (Text.Utf8.encode value) else env.octets? other :=
  lookup_insert name _ env.bindings other

/-- Whether a variable has a text depends on its octets alone. -/
theorem get?_congr {env env' : Environment} {name : String} (h : env'.octets? name = env.octets? name) :
    env'.get? name = env.get? name := by
  rw [get?, get?, h]

theorem get?_of_octets? {env : Environment} {name : String} {value : List Char}
    (h : env.octets? name = some (Text.Utf8.encode value)) : env.get? name = some value := by
  rw [get?, h]
  simp [Except.toOption]

/-! ## Values without a NUL -/

/-- No value has a NUL. The variables of a process never do. -/
def NulFree (env : Environment) : Prop :=
  ∀ name bs, env.octets? name = some bs → 0 ∉ bs

namespace NulFree
variable {env : Environment}

theorem set (h : env.NulFree) (name : String) {value : List Char} (hv : '\x00' ∉ value) :
    (env.set name value).NulFree := by
  intro other bs hbs
  rw [octets?_set] at hbs
  split at hbs
  · cases hbs
    rwa [Text.Utf8.zero_mem_encode]
  · exact h other bs hbs

/-- Octets that are read as text without a NUL have none. -/
private theorem not_mem_of_toOption {bs : List UInt8} {s : List Char} (h : (Text.Utf8.decode bs).toOption = some s)
    (hbs : 0 ∉ bs) : '\x00' ∉ s := by
  cases hd : Text.Utf8.decode bs with
  | error e => simp [hd, Except.toOption] at h
  | ok t =>
    obtain rfl : t = s := by simpa [hd, Except.toOption] using h
    rw [← Text.Utf8.decode_eq_ok_iff.mp hd, Text.Utf8.zero_mem_encode] at hbs
    exact hbs

theorem get? (h : env.NulFree) {name : String} {value : List Char} (hv : env.get? name = some value) :
    '\x00' ∉ value := by
  unfold Environment.get? at hv
  cases ho : env.octets? name with
  | none => simp [ho] at hv
  | some bs =>
    rw [ho] at hv
    exact not_mem_of_toOption hv (h name bs ho)

theorem behind? (h : env.NulFree) {name value : List Char} (hv : env.behind? name = some value) :
    '\x00' ∉ value := by
  unfold Environment.behind? at hv
  split at hv
  · exact h.get? hv
  · simp only [Option.bind_eq_bind, Option.bind_eq_some_iff] at hv
    obtain ⟨bs, hbs, rest, hrest, hv⟩ := hv
    refine not_mem_of_toOption hv fun hz => h _ bs hbs ?_
    obtain rfl := List.isPrefixOf?_eq_some_iff_append_eq.mp hrest
    exact List.mem_append_right _ hz

end NulFree

end FirstRow.Environment
