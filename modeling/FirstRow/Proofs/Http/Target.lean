import FirstRow.Http.Uri
import Mathlib

/-!
# The parts of request targets

A `Target` is a request target in parts: the asterisk, an authority alone, a path, or a path behind a scheme and an
authority; behind a path there may be a query and a fragment. `Target.chars` writes it, and `Target.path` is its raw
path. Reading accepts what can be written in this way, up to a limit on its length, and gives the raw path:
`Uri.path_eq_ok_iff`. So the path of an accepted target is a matter of its characters up to the first question mark or
number sign, and of nothing else.
-/
namespace FirstRow.Http

/-- What stands behind a path. -/
structure Tail where
  query? : Option (List Char)
  fragment? : Option (List Char)

namespace Tail

/-- A part with the mark in front of it; nothing if there is none. -/
def marked (mark : Char) : Option (List Char) → List Char
  | none => []
  | some s => mark :: s

/-- The characters of a tail. -/
def chars (t : Tail) : List Char :=
  marked '?' t.query? ++ marked '#' t.fragment?

/-- A query has characters of its own; a fragment may be anything. -/
def Valid (t : Tail) : Prop :=
  ∀ query, t.query? = some query → ∀ c ∈ query, Uri.isQueryChar c = true

theorem chars_some (query : List Char) (fragment? : Option (List Char)) :
    chars ⟨some query, fragment?⟩ = '?' :: (query ++ marked '#' fragment?) := rfl

theorem head_chars {t : Tail} {c : Char} (h : t.chars.head? = some c) : c = '?' ∨ c = '#' := by
  obtain ⟨query?, fragment?⟩ := t
  cases query? with
  | some query => exact .inl (by simpa [chars, marked] using h.symm)
  | none =>
    cases fragment? with
    | some fragment => exact .inr (by simpa [chars, marked] using h.symm)
    | none => cases h

end Tail

/-- A request target in parts. -/
inductive Target where
  | asterisk
  | authority (name : List Char)
  | origin (path : List Char) (tail : Tail)
  | absolute (scheme name path : List Char) (tail : Tail)

namespace Uri

/-- The marker between a scheme and an authority. -/
def schemeMarker : List Char := [':', '/', '/']

/-- The text of a scheme. It may even be empty. -/
def IsScheme (s : List Char) : Prop :=
  (∀ c ∈ s, isSchemeChar c = true) ∧ s.length ≤ maxSchemeLength

/-- The text of an authority: all of it is one. -/
def IsAuthority (s : List Char) : Prop :=
  authority s = .ok (s, [])

/-- The text of a path, which may be left out. -/
def IsPath (s : List Char) : Prop :=
  (∀ c ∈ s, isPathChar c = true) ∧ (s = [] ∨ s.head? = some '/')

end Uri

namespace Target

/-- The characters of a target. -/
def chars : Target → List Char
  | .asterisk => ['*']
  | .authority name => name
  | .origin path tail => path ++ tail.chars
  | .absolute scheme name path tail => scheme ++ Uri.schemeMarker ++ (name ++ (path ++ tail.chars))

/-- The raw path. An authority alone has none, and behind a scheme the root stands for a path that is left out. -/
def path : Target → List Char
  | .asterisk => ['*']
  | .authority _ => []
  | .origin path _ => path
  | .absolute _ _ path _ => if path.isEmpty then ['/'] else path

/-- The parts are what they should be. The asterisk alone is no authority. -/
def Valid : Target → Prop
  | .asterisk => True
  | .authority name => Uri.IsAuthority name ∧ name ≠ [] ∧ name ≠ ['*']
  | .origin path tail => Uri.IsPath path ∧ path ≠ [] ∧ tail.Valid
  | .absolute scheme name path tail =>
    Uri.IsScheme scheme ∧ Uri.IsAuthority name ∧ name ≠ [] ∧ Uri.IsPath path ∧ tail.Valid

end Target

namespace Uri

/-! ## Cutting a text in two -/

/-- What is taken while a condition holds ends where the condition fails. -/
theorem takeWhile_append_of_head {p : Char → Bool} {s rest : List Char} (hs : ∀ c ∈ s, p c = true)
    (hrest : ∀ c, rest.head? = some c → p c = false) : (s ++ rest).takeWhile p = s := by
  rw [List.takeWhile_append_of_pos hs]
  cases rest with
  | nil => simp
  | cons c t => simp [hrest c rfl]

/-- What stands behind a part that was taken begins where the condition fails. -/
theorem head?_drop_takeWhile {p : Char → Bool} {s : List Char} {c : Char}
    (h : (s.drop (s.takeWhile p).length).head? = some c) : p c = false := by
  induction s with
  | nil => cases h
  | cons d t ih =>
    cases hd : p d with
    | true => exact ih (by simpa [List.takeWhile_cons, hd] using h)
    | false =>
      obtain rfl : d = c := by simpa [List.takeWhile_cons, hd] using h
      exact hd

theorem takeWhile_append_drop (p : Char → Bool) (s : List Char) :
    s.takeWhile p ++ s.drop (s.takeWhile p).length = s := by
  conv => rhs; rw [← List.take_append_drop (s.takeWhile p).length s]
  rw [← List.prefix_iff_eq_take.mp (List.takeWhile_prefix p)]

/-! ## Paths, queries and fragments -/

theorem ne_of_isPathChar {c : Char} (h : isPathChar c = true) : (c ≠ '?' && c ≠ '#') = true := by
  rw [Bool.and_eq_true, decide_eq_true_iff, decide_eq_true_iff]
  constructor
  · rintro rfl
    revert h
    decide
  · rintro rfl
    revert h
    decide

theorem ne_of_isQueryChar {c : Char} (h : isQueryChar c = true) : c ≠ '#' := by
  rintro rfl
  revert h
  decide

/-- What begins with a number sign, or is nothing, is a fragment with its mark. -/
theorem exists_fragment {s : List Char} (h : ∀ c, s.head? = some c → c = '#') :
    ∃ fragment? : Option (List Char), s = Tail.marked '#' fragment? := by
  cases s with
  | nil => exact ⟨none, rfl⟩
  | cons c rest => exact ⟨some rest, by rw [h c rfl]; rfl⟩

/-- A path is read with its tail: it ends at the first question mark or number sign. -/
theorem pathOf_eq_ok_iff {s path : List Char} :
    pathOf s = .ok path ↔ (∀ c ∈ path, isPathChar c = true) ∧ ∃ tail : Tail, tail.Valid ∧ path ++ tail.chars = s := by
  constructor
  · intro h
    have hs := takeWhile_append_drop (fun c => c ≠ '?' && c ≠ '#') s
    have hrest : ∀ c, (s.drop (s.takeWhile fun c => c ≠ '?' && c ≠ '#').length).head? = some c → c ≠ '?' → c = '#' := by
      intro c hc hq
      simpa [hq] using head?_drop_takeWhile hc
    simp only [pathOf] at h
    generalize s.drop (s.takeWhile fun c => c ≠ '?' && c ≠ '#').length = rest at h hs hrest
    generalize (s.takeWhile fun c => c ≠ '?' && c ≠ '#') = p at h hs
    cases hall : p.all isPathChar with
    | false => simp [hall] at h
    | true =>
      simp only [hall, Bool.not_true, Bool.false_eq_true, if_false] at h
      split at h
      · rename_i query
        split at h
        · rename_i hq
          cases h
          obtain ⟨fragment?, hf⟩ := exists_fragment (s := query.drop (query.takeWhile (· ≠ '#')).length) fun c hc => by
            simpa using head?_drop_takeWhile hc
          refine ⟨List.all_eq_true.mp hall, ⟨some (query.takeWhile (· ≠ '#')), fragment?⟩, ?_, ?_⟩
          · rintro _ ⟨rfl⟩
            exact List.all_eq_true.mp hq
          · rw [Tail.chars_some, ← hf, takeWhile_append_drop, hs]
        · cases h
      · rename_i hne
        cases h
        obtain ⟨fragment?, rfl⟩ := exists_fragment (s := rest) fun c hc => by
          refine hrest c hc ?_
          rintro rfl
          obtain ⟨query, rfl⟩ := List.head?_eq_some_iff.mp hc
          exact hne query rfl
        exact ⟨List.all_eq_true.mp hall, ⟨none, fragment?⟩, nofun, hs⟩
  · rintro ⟨hp, ⟨query?, fragment?⟩, hv, rfl⟩
    have ht : (path ++ (Tail.mk query? fragment?).chars).takeWhile (fun c => c ≠ '?' && c ≠ '#') = path := by
      refine takeWhile_append_of_head (fun c hc => ne_of_isPathChar (hp c hc)) fun c hc => ?_
      obtain rfl | rfl := Tail.head_chars hc <;> rfl
    have hall : path.all isPathChar = true := List.all_eq_true.mpr hp
    simp only [pathOf, ht, hall, Bool.not_true, Bool.false_eq_true, if_false, List.drop_left]
    cases query? with
    | none => cases fragment? <;> rfl
    | some query =>
      have hq : (query ++ Tail.marked '#' fragment?).takeWhile (· ≠ '#') = query := by
        refine takeWhile_append_of_head (fun c hc => ?_) fun c hc => ?_
        · exact decide_eq_true (ne_of_isQueryChar (hv query rfl c hc))
        · cases fragment? with
          | none => cases hc
          | some fragment =>
            obtain rfl : '#' = c := by simpa [Tail.marked] using hc
            rfl
      have hall : query.all isQueryChar = true := List.all_eq_true.mpr (hv query rfl)
      simp only [Tail.chars_some, hq, hall, if_true]

/-! ## Authorities -/

/-- An authority is over where its end is. -/
theorem authority_append {name rest : List Char} (hn : ∀ c ∈ name, endsAuthority c = false)
    (hr : ∀ c, rest.head? = some c → endsAuthority c = true) :
    authority (name ++ rest) = (authority name).map fun _ => (name, rest) := by
  have hn : ∀ c ∈ name, (!endsAuthority c) = true := fun c hc => by rw [hn c hc]; rfl
  have ht : name.takeWhile (fun c => !endsAuthority c) = name := by
    rw [List.takeWhile_eq_self_iff]
    exact hn
  have hta : (name ++ rest).takeWhile (fun c => !endsAuthority c) = name :=
    takeWhile_append_of_head hn fun c hc => by rw [hr c hc]; rfl
  simp only [authority, ht, hta, List.drop_left]
  cases name.foldlM Scan.step {} with
  | error e => rfl
  | ok st =>
    simp only [bind, Except.bind]
    split <;> rfl

/-- Nothing in an authority ends it. -/
theorem IsAuthority.not_end {name : List Char} (h : IsAuthority name) : ∀ c ∈ name, endsAuthority c = false := by
  have ht : name.takeWhile (fun c => !endsAuthority c) = name := by
    unfold IsAuthority authority at h
    simp only [bind, Except.bind] at h
    split at h
    · cases h
    · split at h
      · cases h
      · exact (Prod.mk.inj (Except.ok.inj h)).1
  intro c hc
  simpa using List.takeWhile_eq_self_iff.mp ht c hc

/-- An authority is split off as far as it goes. -/
theorem authority_eq_ok_iff {s name rest : List Char} :
    authority s = .ok (name, rest) ↔
      name ++ rest = s ∧ IsAuthority name ∧ ∀ c, rest.head? = some c → endsAuthority c = true := by
  constructor
  · intro h
    have hs := takeWhile_append_drop (fun c => !endsAuthority c) s
    have hn : ∀ c ∈ s.takeWhile (fun c => !endsAuthority c), endsAuthority c = false :=
      fun c hc => by simpa using List.mem_takeWhile_imp hc
    have hr : ∀ c, (s.drop (s.takeWhile fun c => !endsAuthority c).length).head? = some c → endsAuthority c = true :=
      fun c hc => by simpa using head?_drop_takeWhile hc
    rw [← hs, authority_append hn hr] at h
    cases ha : authority (s.takeWhile fun c => !endsAuthority c) with
    | error e => simp [ha, Except.map] at h
    | ok r =>
      simp only [ha, Except.map, Except.ok.injEq, Prod.mk.injEq] at h
      obtain ⟨rfl, rfl⟩ := h
      refine ⟨hs, ?_, hr⟩
      have h2 : authority (_ ++ []) = _ := authority_append hn nofun
      rw [List.append_nil, ha] at h2
      rw [IsAuthority, ha, h2]
      rfl
  · rintro ⟨rfl, ha, hr⟩
    rw [authority_append ha.not_end hr, ha]
    rfl

/-! ## Schemes -/

/-- The two common schemes. -/
def http : List Char := ['h', 't', 't', 'p']

def https : List Char := ['h', 't', 't', 'p', 's']

theorem isScheme_http : IsScheme http := by
  simp [IsScheme, http, maxSchemeLength, isSchemeChar]

theorem isScheme_https : IsScheme https := by
  simp [IsScheme, https, maxSchemeLength, isSchemeChar]

/-- In front of the marker a scheme ends. -/
theorem takeWhile_isSchemeChar {scheme : List Char} (hs : ∀ c ∈ scheme, isSchemeChar c = true) (rest : List Char) :
    (scheme ++ schemeMarker ++ rest).takeWhile isSchemeChar = scheme := by
  rw [List.append_assoc]
  refine takeWhile_append_of_head hs fun c hc => ?_
  obtain rfl : ':' = c := Option.some.inj hc
  rfl

/-- Small letters come from letters, and the characters of the marker from themselves. -/
theorem of_toLower (c : Char) : (isSchemeChar c.toLower = true → isSchemeChar c = true) ∧
    (c.toLower ∈ schemeMarker → c.toLower = c) := by
  cases hu : c.isUpper with
  | true =>
    have ha : c.isAlpha = true := by rw [Char.isAlpha, hu, Bool.true_or]
    refine ⟨fun _ => by rw [isSchemeChar, Char.isAlphanum, ha, Bool.true_or, Bool.true_or], fun h => ?_⟩
    -- what a capital letter becomes is a small one, and there is none in the marker
    have hl : c.toLower.isLower = true := by rw [Char.isLower_toLower_eq_isAlpha, ha]
    have hn : ∀ d ∈ schemeMarker, d.isLower = false := by simp [schemeMarker]
    rw [hn _ h] at hl
    cases hl
  | false =>
    rw [Char.toLower_eq_of_not_isUpper (by simp [hu])]
    exact ⟨id, fun _ => rfl⟩

/-- A text that begins with a scheme and the marker, letter case aside, has a scheme of this length. -/
theorem exists_of_beginsWith {word s : List Char} (hw : IsScheme word)
    (h : beginsWith (word ++ schemeMarker) s = true) :
    ∃ scheme rest, scheme ++ schemeMarker ++ rest = s ∧ IsScheme scheme ∧ scheme.length = word.length := by
  obtain ⟨scheme, marker, ht, rfl, hm⟩ := List.map_eq_append_iff.mp (of_decide_eq_true h)
  obtain rfl : marker = schemeMarker :=
    calc marker = marker.map id := (List.map_id marker).symm
      _ = marker.map Char.toLower :=
        List.map_congr_left fun c hc => ((of_toLower c).2 (hm ▸ List.mem_map_of_mem hc)).symm
      _ = schemeMarker := hm
  refine ⟨scheme, s.drop (scheme.map Char.toLower ++ schemeMarker).length, ?_, ⟨fun c hc => ?_, ?_⟩, ?_⟩
  · rw [← ht, List.take_append_drop]
  · exact (of_toLower c).1 (hw.1 _ (List.mem_map_of_mem hc))
  · simpa using hw.2
  · rw [List.length_map]

/-- A scheme is found, and the two common ones are found in the same way as all others. -/
theorem schemeLength?_append {scheme rest : List Char} (hs : IsScheme scheme) (hr : rest ≠ []) :
    schemeLength? (scheme ++ schemeMarker ++ rest) = .ok (some scheme.length) := by
  have same : ∀ word, IsScheme word →
      beginsWith (word ++ schemeMarker) (scheme ++ schemeMarker ++ rest) = true → word.length = scheme.length := by
    intro word hw h
    obtain ⟨scheme', rest', heq, hs', hlen⟩ := exists_of_beginsWith hw h
    rw [← hlen, ← takeWhile_isSchemeChar hs'.1 rest', heq, takeWhile_isSchemeChar hs.1 rest]
  have hlen : 3 < (scheme ++ schemeMarker ++ rest).length := by
    have := List.length_pos_iff.mpr hr
    simp only [List.length_append, schemeMarker, List.length_cons, List.length_nil]
    omega
  have hmark : ((scheme ++ schemeMarker ++ rest).drop scheme.length).take 3 = "://".toList := by
    rw [List.append_assoc, List.drop_left]
    rfl
  unfold schemeLength?
  split
  · rename_i h
    exact congrArg (Except.ok ∘ some) (same http isScheme_http h)
  · split
    · rename_i h
      exact congrArg (Except.ok ∘ some) (same https isScheme_https h)
    · simp only [takeWhile_isSchemeChar hs.1, hlen, hmark, Nat.not_lt.mpr hs.2, decide_true, Bool.and_self, if_true,
        if_false]

/-- A scheme that is found stands in front of the marker. -/
theorem exists_of_schemeLength? {s : List Char} {n : Nat} (h : schemeLength? s = .ok (some n)) :
    ∃ scheme rest, scheme ++ schemeMarker ++ rest = s ∧ IsScheme scheme ∧ scheme.length = n := by
  unfold schemeLength? at h
  split at h
  · rename_i hb
    cases h
    exact exists_of_beginsWith isScheme_http hb
  · split at h
    · rename_i hb
      cases h
      exact exists_of_beginsWith isScheme_https hb
    · dsimp only at h
      split at h
      · rename_i hm
        have hm : (s.drop (s.takeWhile isSchemeChar).length).take 3 = schemeMarker := by
          rw [Bool.and_eq_true] at hm
          exact of_decide_eq_true hm.2
        split at h
        · cases h
        · rename_i hle
          cases h
          refine ⟨s.takeWhile isSchemeChar, (s.drop (s.takeWhile isSchemeChar).length).drop 3, ?_,
            ⟨fun c hc => List.mem_takeWhile_imp hc, Nat.not_lt.mp hle⟩, rfl⟩
          rw [← hm, List.append_assoc, List.take_append_drop, takeWhile_append_drop]
      · cases h

/-- Without a slash there is no scheme. -/
theorem schemeLength?_of_not_mem {s : List Char} (h : '/' ∉ s) : schemeLength? s = .ok none := by
  have hm : ∀ u v : List Char, u ++ schemeMarker ++ v ≠ s := by
    rintro u v rfl
    exact h (by simp [schemeMarker])
  have common : ∀ word, IsScheme word → ¬ beginsWith (word ++ schemeMarker) s = true := by
    intro word hw hb
    obtain ⟨scheme, rest, heq, -⟩ := exists_of_beginsWith hw hb
    exact hm _ _ heq
  refine (if_neg (common http isScheme_http)).trans ((if_neg (common https isScheme_https)).trans (if_neg ?_))
  rw [Bool.and_eq_true]
  rintro ⟨-, hmark⟩
  refine hm (s.takeWhile isSchemeChar) ((s.drop (s.takeWhile isSchemeChar).length).drop 3) ?_
  rw [show schemeMarker = _ from (of_decide_eq_true hmark).symm, List.append_assoc, List.take_append_drop,
    takeWhile_append_drop]

/-! ## Request targets -/

/-- A target that begins with a slash is a path with its tail. -/
theorem path_slash {rest : List Char} (hl : (Text.Utf8.encode ('/' :: rest)).length ≤ maxLength) :
    path ('/' :: rest) = pathOf ('/' :: rest) := by
  simp only [path, Nat.not_lt.mpr hl, if_false]
  cases rest with
  | nil => rfl
  | cons c t => rfl

/-- Read an authority alone. -/
def alone (otherwise : UriError) (s : List Char) : Except UriError (List Char) := do
  let (_, rest) ← authority s
  if rest.isEmpty then .ok [] else .error otherwise

/-- Read an authority and what follows it, behind a scheme. -/
def behindScheme (s : List Char) : Except UriError (List Char) := do
  if s.isEmpty then .error .empty
  else
    let (name, rest) ← authority s
    if name.isEmpty then .error .invalidFormat
    else
      let path ← pathOf rest
      .ok (if path.isEmpty then ['/'] else path)

theorem path_single {c : Char} (hl : (Text.Utf8.encode [c]).length ≤ maxLength) (hs : c ≠ '/') (ha : c ≠ '*') :
    path [c] = alone .invalidCharacter [c] := by
  simp only [path, Nat.not_lt.mpr hl, if_false]
  rfl

theorem path_long {c d : Char} {t : List Char} (hl : (Text.Utf8.encode (c :: d :: t)).length ≤ maxLength)
    (hs : c ≠ '/') :
    path (c :: d :: t) = (schemeLength? (c :: d :: t)).bind fun
      | none => alone .invalidFormat (c :: d :: t)
      | some n => behindScheme ((c :: d :: t).drop (n + 3)) := by
  simp only [path, Nat.not_lt.mpr hl, if_false]
  split
  case h_6 => rfl
  -- the patterns in front of the last one do not fit
  all_goals simp_all

theorem alone_eq_ok_iff {e : UriError} {s p : List Char} : alone e s = .ok p ↔ IsAuthority s ∧ p = [] := by
  constructor
  · intro h
    cases ha : authority s with
    | error e => simp [alone, ha, bind, Except.bind] at h
    | ok r =>
      obtain ⟨name, rest⟩ := r
      obtain ⟨hs, hn, -⟩ := authority_eq_ok_iff.mp ha
      simp only [alone, ha, bind, Except.bind] at h
      split at h
      · rename_i hr
        obtain rfl := List.isEmpty_iff.mp hr
        rw [List.append_nil] at hs
        exact ⟨hs ▸ hn, (Except.ok.inj h).symm⟩
      · cases h
  · rintro ⟨ha, rfl⟩
    rw [alone, show authority s = _ from ha]
    rfl

/-- Behind a scheme there is an authority, which is not empty, and then a path with its tail. -/
theorem behindScheme_eq_ok_iff {s p : List Char} :
    behindScheme s = .ok p ↔ ∃ (name path : List Char) (tail : Tail), name ++ (path ++ tail.chars) = s ∧
      IsAuthority name ∧ name ≠ [] ∧ IsPath path ∧ tail.Valid ∧ (if path.isEmpty then ['/'] else path) = p := by
  constructor
  · intro h
    unfold behindScheme at h
    split at h
    · cases h
    · cases ha : authority s with
      | error e => simp [ha, bind, Except.bind] at h
      | ok r =>
        obtain ⟨name, rest⟩ := r
        obtain ⟨rfl, hn, hr⟩ := authority_eq_ok_iff.mp ha
        simp only [ha, bind, Except.bind] at h
        split at h
        · cases h
        · rename_i hne
          cases hp : pathOf rest with
          | error e => simp [hp] at h
          | ok path =>
            obtain ⟨hc, tail, hv, rfl⟩ := pathOf_eq_ok_iff.mp hp
            simp only [hp] at h
            refine ⟨name, path, tail, rfl, hn, by simpa using hne, ⟨hc, ?_⟩, hv, Except.ok.inj h⟩
            cases path with
            | nil => exact .inl rfl
            | cons c t =>
              refine .inr ?_
              have hc := ne_of_isPathChar (hc c List.mem_cons_self)
              have he := hr c rfl
              simp_all [endsAuthority]
  · rintro ⟨name, path, tail, rfl, ha, hn, ⟨hc, hp⟩, hv, rfl⟩
    have hr : ∀ c, (path ++ tail.chars).head? = some c → endsAuthority c = true := by
      intro c hc
      rcases hp with rfl | hp
      · obtain rfl | rfl := Tail.head_chars hc <;> rfl
      · obtain ⟨t, rfl⟩ := List.head?_eq_some_iff.mp hp
        obtain rfl : '/' = c := Option.some.inj hc
        rfl
    have hne : name.isEmpty = false := by simpa using hn
    have hsne : (name ++ (path ++ tail.chars)).isEmpty = false := by simp [hn]
    simp only [behindScheme, hsne, authority_eq_ok_iff.mpr ⟨rfl, ha, hr⟩, bind, Except.bind, hne, Bool.false_eq_true,
      if_false, pathOf_eq_ok_iff.mpr ⟨hc, tail, hv, rfl⟩]

theorem drop_scheme (scheme rest : List Char) :
    (scheme ++ schemeMarker ++ rest).drop (scheme.length + 3) = rest := by
  rw [show scheme.length + 3 = (scheme ++ schemeMarker).length by simp [schemeMarker], List.drop_left]

theorem exists_origin {rest p : List Char} (h : pathOf ('/' :: rest) = .ok p) :
    ∃ tail, (Target.origin p tail).Valid ∧ (Target.origin p tail).chars = '/' :: rest := by
  obtain ⟨hc, tail, hv, heq⟩ := pathOf_eq_ok_iff.mp h
  have hp : p.head? = some '/' := by
    cases p with
    | nil =>
      have := Tail.head_chars (t := tail) (c := '/') (by rw [← List.nil_append tail.chars, heq]; rfl)
      simp at this
    | cons d q => exact congrArg some (List.cons.inj heq).1
  have hne : p ≠ [] := by
    rintro rfl
    cases hp
  exact ⟨tail, ⟨⟨hc, .inr hp⟩, hne, hv⟩, heq⟩

/-- A longer target without a slash in front is an authority alone, or has a scheme. -/
theorem exists_target_of_long {c d : Char} {t p : List Char}
    (hl : (Text.Utf8.encode (c :: d :: t)).length ≤ maxLength) (hs : c ≠ '/') (h : path (c :: d :: t) = .ok p) :
    ∃ target : Target, target.Valid ∧ target.chars = c :: d :: t ∧ target.path = p := by
  rw [path_long hl hs] at h
  cases hn : schemeLength? (c :: d :: t) with
  | error e => simp [hn, Except.bind] at h
  | ok n? =>
    rw [hn] at h
    cases n? with
    | none =>
      obtain ⟨ha, rfl⟩ := alone_eq_ok_iff.mp h
      exact ⟨.authority (c :: d :: t), ⟨ha, by simp, by simp⟩, rfl, rfl⟩
    | some n =>
      obtain ⟨scheme, rest, heq, hsch, rfl⟩ := exists_of_schemeLength? hn
      have h : behindScheme ((c :: d :: t).drop (scheme.length + 3)) = .ok p := h
      rw [← heq, drop_scheme] at h
      obtain ⟨name, path, tail, rfl, ha, hne, hp, hv, rfl⟩ := behindScheme_eq_ok_iff.mp h
      exact ⟨.absolute scheme name path tail, ⟨hsch, ha, hne, hp, hv⟩, heq, rfl⟩

/-- What is read can be written in parts. -/
theorem exists_target {s p : List Char} (h : path s = .ok p) :
    (Text.Utf8.encode s).length ≤ maxLength ∧ ∃ t : Target, t.Valid ∧ t.chars = s ∧ t.path = p := by
  have hl : (Text.Utf8.encode s).length ≤ maxLength := by
    by_contra hl
    simp [path, Nat.lt_of_not_le hl] at h
  refine ⟨hl, ?_⟩
  match s with
  | [] => simp [path] at h
  | c :: rest =>
    by_cases hs : c = '/'
    · subst hs
      rw [path_slash hl] at h
      obtain ⟨tail, hv, heq⟩ := exists_origin h
      exact ⟨.origin p tail, hv, heq, rfl⟩
    · match rest with
      | d :: t => exact exists_target_of_long hl hs h
      | [] =>
        by_cases ha : c = '*'
        · subst ha
          have h2 : path ['*'] = .ok ['*'] := by simp only [path, Nat.not_lt.mpr hl, if_false]
          exact ⟨.asterisk, trivial, rfl, Except.ok.inj (h2.symm.trans h)⟩
        · rw [path_single hl hs ha, alone_eq_ok_iff] at h
          exact ⟨.authority [c], ⟨h.1, by simp, by simpa using ha⟩, rfl, h.2.symm⟩

/-- What begins with a scheme and the marker has two characters at least, and a slash is not the first. -/
theorem exists_cons_of_scheme {scheme : List Char} (hs : IsScheme scheme) (rest : List Char) :
    ∃ c d t, scheme ++ schemeMarker ++ rest = c :: d :: t ∧ c ≠ '/' := by
  cases scheme with
  | nil => exact ⟨_, _, _, rfl, by decide⟩
  | cons c u =>
    have hc : c ≠ '/' := by
      rintro rfl
      have := hs.1 '/' List.mem_cons_self
      simp [isSchemeChar] at this
    cases u with
    | nil => exact ⟨_, _, _, rfl, hc⟩
    | cons d u => exact ⟨_, _, _, rfl, hc⟩

/-- What can be written in parts is read. -/
theorem path_chars {t : Target} (hv : t.Valid) (hl : (Text.Utf8.encode t.chars).length ≤ maxLength) :
    path t.chars = .ok t.path := by
  cases t with
  | asterisk =>
    simp only [path, Nat.not_lt.mpr hl, if_false]
    rfl
  | authority name =>
    obtain ⟨ha, hne, hast⟩ := hv
    have hmem : '/' ∉ name := fun h => by
      have := ha.not_end _ h
      simp [endsAuthority] at this
    match name with
    | [c] =>
      exact (path_single hl (by simpa [eq_comm] using hmem) (by simpa using hast)).trans (alone_eq_ok_iff.mpr ⟨ha, rfl⟩)
    | c :: d :: t =>
      refine (path_long hl ?_).trans ?_
      · rintro rfl
        exact hmem List.mem_cons_self
      · rw [schemeLength?_of_not_mem hmem]
        exact alone_eq_ok_iff.mpr ⟨ha, rfl⟩
  | origin path tail =>
    obtain ⟨⟨hc, hp⟩, hne, hv⟩ := hv
    obtain ⟨rest, rfl⟩ := List.head?_eq_some_iff.mp (hp.resolve_left hne)
    exact (path_slash hl).trans (pathOf_eq_ok_iff.mpr ⟨hc, tail, hv, rfl⟩)
  | absolute scheme name path tail =>
    obtain ⟨hs, ha, hne, hp, hv⟩ := hv
    have hrest : name ++ (path ++ tail.chars) ≠ [] := by simp [hne]
    have hsch := schemeLength?_append hs hrest
    have hd := drop_scheme scheme (name ++ (path ++ tail.chars))
    obtain ⟨c, d, t, htext, hc⟩ := exists_cons_of_scheme hs (name ++ (path ++ tail.chars))
    simp only [Target.chars, htext] at hl hsch hd ⊢
    rw [path_long hl hc, hsch]
    exact (congrArg behindScheme hd).trans
      (behindScheme_eq_ok_iff.mpr ⟨name, path, tail, rfl, ha, hne, hp, hv, rfl⟩)

/-- Reading accepts what can be written in parts, up to the limit of length, and gives the raw path. -/
theorem path_eq_ok_iff {s p : List Char} :
    path s = .ok p ↔ (Text.Utf8.encode s).length ≤ maxLength ∧ ∃ t : Target, t.Valid ∧ t.chars = s ∧ t.path = p := by
  refine ⟨exists_target, ?_⟩
  rintro ⟨hl, t, hv, rfl, rfl⟩
  exact path_chars hv hl

end Uri
end FirstRow.Http
