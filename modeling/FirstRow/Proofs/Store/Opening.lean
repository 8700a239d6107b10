import FirstRow.Fetch
import Mathlib

/-!
# What opening a store looks at

A written path leads to the place that its names say, `AbsolutePath.ofOctets`, or nowhere. On the way there the disk is
looked at only to see whether a file stands where the way goes on. On a disk that is a tree, everything in front of a
place where something stands is a directory; so what is opened depends on that place alone and, if the way turns back
by two dots, on the kind of what stands at its `detours`.
-/
namespace FirstRow

/-- Whether a node is a file. -/
def Node.isFile : Node → Bool
  | .file _ => true
  | .directory => false

/-- Everything stands in a directory. -/
def Disk.IsTree (d : Disk) : Prop :=
  ∀ path name, d.node? (path ++ [name]) ≠ none → d.node? path = some .directory

/-- What is in front of a place where something stands is a directory. -/
theorem Disk.IsTree.directory {d : Disk} (h : d.IsTree) {path rest : AbsolutePath} (hne : rest ≠ [])
    (hn : d.node? (path ++ rest) ≠ none) : d.node? path = some .directory := by
  induction rest using List.reverseRecOn with
  | nil => exact absurd rfl hne
  | append_singleton rest name ih =>
    rw [← List.append_assoc] at hn
    have hdir := h _ _ hn
    by_cases hrest : rest = []
    · rwa [hrest, List.append_nil] at hdir
    · exact ih hrest (by rw [hdir]; exact nofun)

namespace Store
namespace Opening

/-! ## The way to a place -/

/-- What kind of node stands at a place, if any. -/
def kind (d : Disk) (path : AbsolutePath) : Option Bool :=
  (d.node? path).map Node.isFile

variable {d e : Disk} {wd start path : AbsolutePath} {name written : List UInt8} {names : List (List UInt8)}

variable {f : FileName}

/-- Whether opening a file name makes a file. -/
def makes (d : Disk) (wd : AbsolutePath) (f : FileName) : Bool :=
  match target d wd f with
  | .ok (.path p) => makesFile d f p
  | _ => false

end Opening

/-- Opening a written file name makes a file. -/
def Makes (d : Disk) (wd : AbsolutePath) (written : List UInt8) : Prop :=
  ∃ f, FileName.parse written = .ok f ∧ Opening.makes d wd f = true

variable {d e : Disk} {wd : AbsolutePath} {written : List UInt8}

theorem makes_eq_false (h : ¬ Makes d wd written) {f : FileName} (hp : FileName.parse written = .ok f) :
    Opening.makes d wd f = false :=
  Bool.eq_false_iff.mpr fun hm => h ⟨f, hp, hm⟩

/-- Opening leaves the disk as it is unless it makes a file. -/
theorem afterOpening_eq (h : ¬ Makes d wd written) : afterOpening d wd written = d := by
  unfold afterOpening
  split
  · rfl
  · rename_i f hp
    have hm := makes_eq_false h hp
    split
    · rename_i p ht
      rw [Opening.makes, ht] at hm
      exact if_neg (by simp [hm])
    · rfl

end Store
end FirstRow
