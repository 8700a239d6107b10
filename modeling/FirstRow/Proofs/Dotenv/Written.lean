import FirstRow.Proofs.Dotenv.Succession
import Mathlib

/-!
# Values written into an environment file

Every text without a NUL can be written: in double quotes, with a backslash in front of each backslash, double quote and
dollar sign, or as it is if none of its characters means anything outside quotes. The joining of lines and the reading
of values both stay inside the quotes until the one that closes them, over as many physical lines as the value has, so
a file of such lines sets what they say: `World.configure_written`.
-/
namespace FirstRow

namespace Dotenv

/-! ## Lines as they are written -/

/-- A character inside double quotes: a backslash in front of those that mean something there. -/
def escapedChar (c : Char) : List Char :=
  if c = '\\' ∨ c = '"' ∨ c = '$' then ['\\', c] else [c]

/-- A text inside double quotes. -/
def escaped (s : List Char) : List Char :=
  s.flatMap escapedChar

/-- A character that means nothing outside quotes. -/
structure Bare (c : Char) : Prop where
  blank : Text.isBlank c = false
  quotes : c ≠ '"' ∧ c ≠ '\x27'
  backslash : c ≠ '\\'
  dollar : c ≠ '$'

/-- A key and the value that is written for it, in quotes or as it is. -/
structure Entry where
  key : List Char
  value : List Char
  quotes : Bool
  isKey : isKey key = true
  nulFree : '\x00' ∉ value
  bare : quotes = false → (∀ c ∈ value, Bare c) ∧ value.head? ≠ some '#'

namespace Entry

/-- What stands behind the equals sign. -/
def text (e : Entry) : List Char :=
  if e.quotes then '"' :: (escaped e.value ++ ['"']) else e.value

/-- The line of an entry, without the line feed behind it. -/
def line (e : Entry) : List Char :=
  e.key ++ '=' :: e.text

/-- The lines of entries, each with its line feed. -/
def lines (es : List Entry) : List Char :=
  es.flatMap fun e => e.line ++ ['\n']

end Entry

/-! ## Physical lines of texts -/

/-- Characters cut into lines. Each keeps its line feed; the last one may have none. -/
def textLines : List Char → List (List Char)
  | [] => []
  | c :: rest =>
    if c = '\n' then ['\n'] :: textLines rest
    else (c :: (textLines rest).headD []) :: (textLines rest).tail

theorem splitLines_encode (s : List Char) : splitLines (Text.Utf8.encode s) = (textLines s).map Text.Utf8.encode := by
  induction s with
  | nil => rfl
  | cons c rest ih =>
    rw [Text.Utf8.encode_cons, textLines]
    split
    · next hc =>
      subst hc
      have hfeed : Text.Utf8.encodePoint ('\n' : Char).toNat = [0x0A] := by decide
      rw [hfeed, List.singleton_append, splitLines, if_pos rfl, ih]
      rfl
    · next hc =>
      have hp : (0x0A : UInt8) ∉ Text.Utf8.encodePoint c.toNat := by
        rw [Text.Utf8.mem_encodePoint_iff (by decide)]
        exact fun h => hc (Char.toNat_inj.mp h)
      rw [splitLines_append_of_not_mem hp (Text.Utf8.encodePoint_ne_nil _), ih, List.map_cons, List.map_tail]
      cases textLines rest with
      | nil => simp [Text.Utf8.encode_cons]
      | cons line lines => simp [Text.Utf8.encode_cons]

theorem physicalLines_encode (s : List Char) : physicalLines (Text.Utf8.encode s) = (textLines s).map some := by
  rw [physicalLines, splitLines_encode, List.map_map]
  simp [Except.toOption]

theorem textLines_append {p : List Char} (hp : '\n' ∉ p) (hne : p ≠ []) (rest : List Char) :
    textLines (p ++ rest) = (p ++ (textLines rest).headD []) :: (textLines rest).tail := by
  induction p with
  | nil => exact absurd rfl hne
  | cons c q ih =>
    simp only [List.mem_cons, not_or] at hp
    rw [List.cons_append, textLines, if_neg (Ne.symm hp.1)]
    by_cases hq : q = []
    · simp [hq]
    · simp [ih hp.2 hq]

/-- A line ends at its line feed. -/
theorem textLines_append_feed {p : List Char} (hp : '\n' ∉ p) (rest : List Char) :
    textLines (p ++ '\n' :: rest) = (p ++ ['\n']) :: textLines rest := by
  have hfeed : textLines ('\n' :: rest) = ['\n'] :: textLines rest := by rw [textLines, if_pos rfl]
  by_cases hne : p = []
  · rw [hne, List.nil_append, hfeed, List.nil_append]
  · rw [textLines_append hp hne, hfeed]
    rfl

theorem textLines_of_not_mem {p : List Char} (hp : '\n' ∉ p) (hne : p ≠ []) : textLines p = [p] := by
  simpa [textLines] using textLines_append hp hne []

/-! ## Lines that are joined -/

theorem Joint.scan_cons {j j₁ : Joint} {c : Char} (h : j.step c = some j₁) (s : List Char) :
    j.scan (c :: s) = (c :: (j₁.scan s).1, (j₁.scan s).2) := by
  simp [scan, h]

theorem Joint.scan_append {j j' : Joint} {a : List Char} (h : j.scan a = (a, some j')) (b : List Char) :
    j.scan (a ++ b) = (a ++ (j'.scan b).1, (j'.scan b).2) := by
  induction a generalizing j with
  | nil =>
    obtain rfl : j = j' := by simpa [scan] using h
    rfl
  | cons c a ih =>
    cases hstep : j.step c with
    | none => simp [scan, hstep] at h
    | some j₁ =>
      simp only [scan_cons hstep, Prod.mk.injEq, List.cons.injEq, true_and] at h
      simp only [List.cons_append, scan_cons hstep, ih (Prod.ext h.1 h.2)]

/-- Inside double quotes an escaped character leaves the quotes open. -/
theorem Joint.scan_escapedChar (c : Char) : Joint.weak.scan (escapedChar c) = (escapedChar c, some .weak) := by
  unfold escapedChar
  split
  · rfl
  · next hc =>
    simp only [not_or] at hc
    simp [scan, step, hc.1, hc.2.1]

theorem Joint.scan_bare {s : List Char} (h : ∀ c ∈ s, Bare c) : Joint.complete.scan s = (s, some .complete) := by
  induction s with
  | nil => rfl
  | cons c s ih =>
    obtain ⟨hc, hs⟩ := List.forall_mem_cons.mp h
    have hstep : Joint.complete.step c = some .complete := by
      simp [step, isGap, opened, hc.blank, hc.backslash, hc.quotes.1, hc.quotes.2]
    rw [scan_cons hstep, ih hs]

section

variable {buffer line : List Char} {joint : Joint} {rest : List (Option (List Char))}

theorem join_of_complete (hcomment : isComment (buffer ++ line) = false)
    (hscan : joint.scan line = (line, some .complete)) :
    join buffer joint (some line :: rest) = .line (dropLineEnd (buffer ++ line)) :: join [] .complete rest := by
  simp [join, hcomment, hscan]

theorem join_of_weak (hcomment : isComment (buffer ++ line) = false) (hscan : joint.scan line = (line, some .weak)) :
    join buffer joint (some line :: rest) = join (buffer ++ line) .weak rest := by
  simp [join, hcomment, hscan]

end

/-- The last character of a line, which is no part of a line end, stays. -/
theorem dropLineEnd_append_of_ne (s : List Char) {c : Char} (hc : c ≠ '\n') : dropLineEnd (s ++ [c]) = s ++ [c] := by
  simp [dropLineEnd, hc]

theorem dropLineEnd_append_feed (s : List Char) {c : Char} (hc : c ≠ '\r') :
    dropLineEnd (s ++ [c] ++ ['\n']) = s ++ [c] := by
  simp [dropLineEnd, hc]

/-- What may stand behind the last character of an entry: nothing, or a line feed and other lines. -/
def Ends (back : List Char) : Prop :=
  back = [] ∨ ∃ more, back = '\n' :: more

/-- A physical line at whose end nothing is open ends its logical line. -/
theorem join_closed {buffer p back : List Char} {c : Char} {joint : Joint} (hp : '\n' ∉ p)
    (hc : c ≠ '\n' ∧ c ≠ '\r') (hcomment : ∀ t, isComment (buffer ++ (p ++ c :: t)) = false)
    (hscan : joint.scan (p ++ [c]) = (p ++ [c], some .complete)) (hback : Ends back) :
    join buffer joint ((textLines (p ++ c :: back)).map some) =
      .line (buffer ++ (p ++ [c])) :: join [] .complete ((textLines back.tail).map some) := by
  have hp' : '\n' ∉ p ++ [c] := by simp [hp, Ne.symm hc.1]
  rcases hback with rfl | ⟨more, rfl⟩
  · rw [textLines_of_not_mem hp' (by simp), List.map_singleton, join_of_complete (hcomment []) hscan,
      ← List.append_assoc, dropLineEnd_append_of_ne _ hc.1]
    rfl
  · have hfeed : joint.scan (p ++ [c] ++ ['\n']) = (p ++ [c] ++ ['\n'], some .complete) := by
      rw [Joint.scan_append hscan]
      rfl
    have hwhole : p ++ c :: '\n' :: more = p ++ [c] ++ '\n' :: more := by simp
    rw [hwhole, textLines_append_feed hp', List.map_cons, join_of_complete (by simpa using hcomment ['\n']) hfeed,
      ← List.append_assoc, ← List.append_assoc, dropLineEnd_append_feed _ hc.2]
    simp

/-- Inside double quotes physical lines are joined up to the quote that closes them. The induction is on the value; `p`
is what its present physical line has so far. -/
theorem join_escaped {buffer p back : List Char} {joint : Joint} (s : List Char) (hp : '\n' ∉ p)
    (hcomment : ∀ t, isComment (buffer ++ (p ++ t)) = false) (hscan : joint.scan p = (p, some .weak))
    (hback : Ends back) :
    join buffer joint ((textLines (p ++ (escaped s ++ '"' :: back))).map some) =
      .line (buffer ++ (p ++ (escaped s ++ ['"']))) :: join [] .complete ((textLines back.tail).map some) := by
  induction s generalizing buffer p joint with
  | nil =>
    refine join_closed hp (by decide) (fun t => hcomment _) ?_ hback
    rw [Joint.scan_append hscan]
    rfl
  | cons c s ih =>
    have hsplit (t : List Char) : p ++ (escaped (c :: s) ++ t) = p ++ escapedChar c ++ (escaped s ++ t) := by
      simp [escaped]
    have hscan' : joint.scan (p ++ escapedChar c) = (p ++ escapedChar c, some .weak) := by
      rw [Joint.scan_append hscan, Joint.scan_escapedChar]
    have hcomment' (t : List Char) : isComment (buffer ++ (p ++ escapedChar c ++ t)) = false := by
      simpa using hcomment (escapedChar c ++ t)
    rw [hsplit, hsplit]
    by_cases hc : c = '\n'
    · -- the value goes on in the next physical line
      subst hc
      have hfeed : escapedChar '\n' = ['\n'] := rfl
      rw [hfeed] at hscan' hcomment' ⊢
      have hnext := @ih (buffer ++ (p ++ ['\n'])) [] .weak (by simp)
        (fun t => by simpa using hcomment' t) rfl
      rw [List.append_assoc, List.singleton_append, textLines_append_feed hp, List.map_cons,
        join_of_weak (by simpa using hcomment' []) hscan']
      simpa using hnext
    · refine ih ?_ hcomment' hscan'
      unfold escapedChar
      split <;> simp [hp, Ne.symm hc]

/-! ## Values that are read -/

/-- An escaped character stands for itself, whatever names stand for. -/
theorem Reading.run_escapedChar (subst : List Char → List Char) (out : List Char) (c : Char) (rest : List Char) :
    Reading.run subst ⟨true, .plain, out⟩ (escapedChar c ++ rest) =
      Reading.run subst ⟨true, .plain, out ++ [c]⟩ rest := by
  unfold escapedChar
  split
  · next hc =>
    have hletter : unescape c = some c := by
      unfold unescape
      rcases hc with rfl | rfl | rfl <;> rfl
    simp [run, plainStep, emit, hletter]
  · next hc =>
    simp only [not_or] at hc
    simp [run, plainStep, emit, hc.1, hc.2.1, hc.2.2]

theorem Reading.run_escaped (subst : List Char → List Char) (out s : List Char) :
    Reading.run subst ⟨true, .plain, out⟩ (escaped s ++ ['"']) = some (out ++ s) := by
  induction s generalizing out with
  | nil => simp [escaped, run, plainStep]
  | cons c s ih =>
    have hsplit : escaped (c :: s) ++ ['"'] = escapedChar c ++ (escaped s ++ ['"']) := by simp [escaped]
    rw [hsplit, run_escapedChar, ih]
    simp

theorem Bare.ne_space {c : Char} (h : Bare c) : c ≠ ' ' ∧ c ≠ '\t' := by
  constructor <;> rintro rfl <;> cases h.blank

theorem Reading.run_bare (subst : List Char → List Char) (out : List Char) {s : List Char} (h : ∀ c ∈ s, Bare c) :
    Reading.run subst ⟨false, .plain, out⟩ s = some (out ++ s) := by
  induction s generalizing out with
  | nil => simp [run]
  | cons c s ih =>
    obtain ⟨hc, hs⟩ := List.forall_mem_cons.mp h
    simp [run, plainStep, emit, hc.dollar, hc.quotes.1, hc.quotes.2, hc.backslash, hc.ne_space.1, hc.ne_space.2,
      ih _ hs]

/-! ## Lines that are read -/

theorem trimStart_of_head? {s : List Char} (h : ∀ c, s.head? = some c → Text.isBlank c = false) :
    trimStart s = s := by
  cases s with
  | nil => rfl
  | cons c s => simp [trimStart, h c rfl]

theorem trimEnd_of_getLast? {s : List Char} (h : ∀ c, s.getLast? = some c → Text.isBlank c = false) :
    trimEnd s = s := by
  have hreverse := trimStart_of_head? (s := s.reverse) (by simpa using h)
  rw [trimStart] at hreverse
  rw [trimEnd, hreverse, List.reverse_reverse]

/-- Characters that leave a mark in ASCII are no white space. -/
theorem isBlank_of_ascii {c : Char} (h : 0x21 ≤ c.toNat ∧ c.toNat < 0x7F) : Text.isBlank c = false := by
  rw [Text.isBlank, Bool.eq_false_iff, ne_eq, Text.Ranges.contains_iff]
  rintro ⟨r, hr, hc⟩
  simp only [Text.blankRanges, List.mem_cons, List.not_mem_nil, or_false] at hr
  obtain rfl | rfl | rfl | rfl | rfl | rfl | rfl | rfl | rfl | rfl := hr <;> simp only at hc <;> omega

theorem bare_equals : Bare '=' :=
  ⟨isBlank_of_ascii (by decide), by decide, by decide, by decide⟩

theorem ascii_of_isKeyChar {c : Char} (h : isKeyChar c = true) : 0x21 ≤ c.toNat ∧ c.toNat < 0x7F := by
  simp only [isKeyChar, Char.isAlphanum, Char.isAlpha, Char.isUpper, Char.isLower, Char.isDigit, Bool.or_eq_true,
    Bool.and_eq_true, decide_eq_true_eq, UInt32.le_iff_toNat_le, ge_iff_le, Char.toNat_val] at h
  rcases h with (((hupper | hlower) | hdigit) | rfl) | rfl
  · simp at hupper
    omega
  · simp at hlower
    omega
  · simp at hdigit
    omega
  · decide
  · decide

/-- The characters of keys mean nothing outside quotes. -/
theorem bare_of_isKeyChar {c : Char} (h : isKeyChar c = true) : Bare c := by
  refine ⟨isBlank_of_ascii (ascii_of_isKeyChar h), ⟨?_, ?_⟩, ?_, ?_⟩ <;> rintro rfl <;> cases h

namespace Entry
variable {e : Entry}

theorem isKeyChar_of_mem (e : Entry) : ∀ c ∈ e.key, isKeyChar c = true := by
  have hkey := e.isKey
  cases hk : e.key with
  | nil => simp
  | cons d rest =>
    simp only [hk, Dotenv.isKey, Bool.and_eq_true, List.all_eq_true] at hkey
    exact hkey.2

/-- The first character of a line belongs to its key. -/
theorem exists_head (e : Entry) : ∃ c rest, e.key = c :: rest ∧ isKeyChar c = true := by
  have hkey := e.isKey
  cases hk : e.key with
  | nil => simp [hk, Dotenv.isKey] at hkey
  | cons c rest => exact ⟨c, rest, rfl, e.isKeyChar_of_mem c (by simp [hk])⟩

/-- What stands in front of the value means nothing outside quotes. -/
theorem bare_front (e : Entry) : ∀ c ∈ e.key ++ ['='], Bare c := by
  intro c hc
  rcases List.mem_append.mp hc with hc | hc
  · exact bare_of_isKeyChar (e.isKeyChar_of_mem c hc)
  · exact List.mem_singleton.mp hc ▸ bare_equals

/-- No line of an entry is a comment. -/
theorem isComment_eq (e : Entry) (t : List Char) : isComment (e.key ++ t) = false := by
  obtain ⟨c, rest, hk, hstart⟩ := e.exists_head
  have hbare : Bare c := e.bare_front c (by simp [hk])
  have hne : c ≠ '#' := by
    rintro rfl
    cases hstart
  simp [isComment, hk, hbare.blank, hne]

theorem bare_value (h : e.quotes = false) : ∀ c ∈ e.value, Bare c :=
  (e.bare h).1

theorem ne_feed_of_bare {c : Char} (h : Bare c) : c ≠ '\n' ∧ c ≠ '\r' := by
  constructor <;> rintro rfl <;> cases h.blank

/-- Characters that mean nothing outside quotes have no line feed among them. -/
theorem feed_not_mem {s : List Char} (h : ∀ c ∈ s, Bare c) : '\n' ∉ s :=
  fun hmem => (ne_feed_of_bare (h _ hmem)).1 rfl

/-- An entry is one logical line, over as many physical lines as its value has. -/
theorem join_line (e : Entry) {back : List Char} (hback : Ends back) :
    join [] .complete ((textLines (e.line ++ back)).map some) =
      .line e.line :: join [] .complete ((textLines back.tail).map some) := by
  have hfront := e.bare_front
  cases hq : e.quotes with
  | true =>
    have hline (t : List Char) : e.line ++ t = e.key ++ ['=', '"'] ++ (escaped e.value ++ '"' :: t) := by
      simp [line, text, hq]
    have hscan : Joint.complete.scan (e.key ++ ['=', '"']) = (e.key ++ ['=', '"'], some .weak) := by
      have hquote : Joint.complete.scan ['"'] = (['"'], some .weak) := by decide
      have hboth := Joint.scan_append (Joint.scan_bare hfront) ['"']
      rw [hquote] at hboth
      simpa using hboth
    have hfeed : '\n' ∉ e.key ++ ['=', '"'] := by
      have := feed_not_mem hfront
      simpa using this
    rw [hline, join_escaped e.value hfeed (fun t => by simpa using e.isComment_eq _) hscan hback]
    simp [line, text, hq]
  | false =>
    have hbare : ∀ c ∈ e.line, Bare c := by
      intro c hc
      have hc : c ∈ e.key ++ ['='] ++ e.value := by simpa [line, text, hq] using hc
      rcases List.mem_append.mp hc with hc | hc
      · exact hfront c hc
      · exact bare_value hq c hc
    obtain ⟨front, last, hlast⟩ := (List.eq_nil_or_concat e.line).resolve_left (by simp [line])
    rw [List.concat_eq_append] at hlast
    have hcomment (t : List Char) : isComment (e.line ++ t) = false := by simpa [line] using e.isComment_eq _
    have hscan := Joint.scan_bare hbare
    have hfeed := feed_not_mem hbare
    have hend := ne_feed_of_bare (hbare last (by simp [hlast]))
    rw [hlast] at hcomment hscan hfeed ⊢
    have hclosed := @join_closed [] front _ last _ (fun h => hfeed (by simp [h])) hend
      (fun t => by simpa using hcomment t) hscan hback
    simpa using hclosed

/-! What an entry assigns. -/

theorem head?_text (e : Entry) (c : Char) (hc : e.text.head? = some c) : Text.isBlank c = false ∧ c ≠ '#' := by
  unfold text at hc
  split at hc
  · obtain rfl : '"' = c := by simpa using hc
    decide
  · next hq =>
    have hq : e.quotes = false := by simpa using hq
    refine ⟨(bare_value hq c (List.mem_of_mem_head? hc)).blank, ?_⟩
    rintro rfl
    exact (e.bare hq).2 hc

theorem getLast?_line (e : Entry) (c : Char) (hc : e.line.getLast? = some c) : Text.isBlank c = false := by
  unfold line text at hc
  split at hc
  · obtain rfl : '"' = c := by simpa [List.getLast?_append, List.getLast?_cons] using hc
    decide
  · next hq =>
    have hq : e.quotes = false := by simpa using hq
    have hmem := List.mem_of_getLast? hc
    have hc : c ∈ e.key ++ ['='] ++ e.value := by simpa using hmem
    rcases List.mem_append.mp hc with hc | hc
    · exact (e.bare_front c hc).blank
    · exact (bare_value hq c hc).blank

theorem key?_line (e : Entry) : key? e.line = some (e.key, '=' :: e.text) := by
  have htake : e.line.takeWhile isKeyChar = e.key := by
    rw [line, List.takeWhile_append_of_pos e.isKeyChar_of_mem, List.takeWhile_cons_of_neg (by decide), List.append_nil]
  have hdrop : e.line.drop e.key.length = '=' :: e.text := by simp [line]
  have htrim : trimStart ('=' :: e.text) = '=' :: e.text :=
    trimStart_of_head? fun c hc => Option.some.inj hc ▸ bare_equals.blank
  simp only [key?, htake, e.isKey, if_true, hdrop, htrim]

theorem statement?_line (e : Entry) : statement? e.line = some (.assign e.key e.text) := by
  obtain ⟨c, rest, hk, hstart⟩ := e.exists_head
  have hhead : e.line.head? = some c := by simp [line, hk]
  have hbare : Bare c := e.bare_front c (by simp [hk])
  have htrim : trimStart (trimEnd e.line) = e.line := by
    rw [trimEnd_of_getLast? e.getLast?_line]
    refine trimStart_of_head? fun d hd => ?_
    rw [hhead] at hd
    exact Option.some.inj hd ▸ hbare.blank
  have hnonempty : e.line.isEmpty = false := by simp [line]
  have hcomment : c ≠ '#' := by
    rintro rfl
    cases hstart
  have hafter : afterEquals? ('=' :: e.text) = some e.text := by
    rw [afterEquals?, trimStart_of_head? fun d hd => (e.head?_text d hd).1]
  simp [statement?, htrim, hnonempty, hhead, hcomment, key?_line, hafter]

/-- A line assigns its value, whatever names stand for: none is asked for. -/
theorem attempt?_line (subst : List Char → List Char) (e : Entry) :
    ∃ value, attempt? subst e.line = some (.assign e.key value) ∧ value.getD [] = e.value := by
  have hvalue : Dotenv.value subst e.text = some e.value := by
    unfold Dotenv.value Reading.start text
    cases hq : e.quotes with
    | true =>
      have hquote (s : List Char) : Reading.run subst ⟨false, .plain, []⟩ ('"' :: s) =
          Reading.run subst ⟨true, .plain, []⟩ s := by simp [Reading.run, Reading.plainStep]
      simp only [if_true, hquote, Reading.run_escaped, List.nil_append]
    | false => simpa using Reading.run_bare subst [] (bare_value hq)
  simp only [attempt?, statement?_line]
  by_cases hempty : e.text = []
  · have hnone : e.value = [] := by
      simpa [hempty, Dotenv.value, Reading.start, Reading.run] using hvalue.symm
    exact ⟨none, by simp [hempty], hnone.symm⟩
  · have hcomment : e.text.head? ≠ some '#' := fun h => (e.head?_text _ h).2 rfl
    exact ⟨some e.value, by simp [hempty, hcomment, hvalue], rfl⟩

/-- A line sets a variable that has no text, and nothing else. -/
theorem carryOut_line {env : Environment} (e : Entry) (h : env.get? (String.ofList e.key) = none) :
    carryOut env e.line = .ok (env.set (String.ofList e.key) e.value) := by
  obtain ⟨value, hattempt, hvalue⟩ := e.attempt?_line (substitute env [])
  simp [carryOut, hattempt, hvalue, setUnlessSet?, h, e.nulFree]

end Entry

/-! ## Files -/

/-- A file of entries: their lines, the last one perhaps without its line feed. -/
def Entry.File (es : List Entry) (file : List UInt8) : Prop :=
  ∃ text, file = Text.Utf8.encode text ∧ (text = Entry.lines es ∨ text ++ ['\n'] = Entry.lines es)

theorem join_lines {es : List Entry} {text : List Char}
    (h : text = Entry.lines es ∨ text ++ ['\n'] = Entry.lines es) :
    join [] .complete ((textLines text).map some) = es.map fun e => .line e.line := by
  induction es generalizing text with
  | nil =>
    obtain rfl : text = [] := by simpa [Entry.lines] using h
    simp [textLines, join]
  | cons e es ih =>
    have hback : ∃ back, text = e.line ++ back ∧ Ends back ∧
        (back.tail = Entry.lines es ∨ back.tail ++ ['\n'] = Entry.lines es) := by
      rcases h with rfl | h
      · exact ⟨'\n' :: Entry.lines es, by simp [Entry.lines], .inr ⟨_, rfl⟩, .inl rfl⟩
      · have hwhole : text ++ ['\n'] = e.line ++ '\n' :: Entry.lines es := by simpa [Entry.lines] using h
        rcases List.eq_nil_or_concat (Entry.lines es) with hnil | ⟨front, c, hlast⟩
        · rw [hnil] at hwhole ⊢
          exact ⟨[], by simpa using hwhole, .inl rfl, .inl rfl⟩
        · rw [List.concat_eq_append] at hlast
          have hsplit : text ++ ['\n'] = e.line ++ '\n' :: front ++ [c] := by simpa [hlast] using hwhole
          obtain ⟨rfl, rfl⟩ := List.append_singleton_inj.mp hsplit
          exact ⟨'\n' :: front, rfl, .inr ⟨front, rfl⟩, .inr hlast.symm⟩
    obtain ⟨back, rfl, hends, hrest⟩ := hback
    rw [e.join_line hends, ih hrest, List.map_cons]

/-- A text that begins with a key has no mark. -/
theorem dropMark_of_ascii {c : Char} (hc : c.toNat < 0x80) (rest : List Char) :
    dropMark (Text.Utf8.encode (c :: rest)) = Text.Utf8.encode (c :: rest) := by
  have hpoint : Text.Utf8.encodePoint c.toNat = [c.toNat.toUInt8] := by rw [Text.Utf8.encodePoint, if_pos hc]
  have hne : (0xEF : UInt8) ≠ c.toNat.toUInt8 := by
    intro h
    have hvalue := congrArg UInt8.toNat h
    rw [Text.Utf8.toNat_toUInt8 (by omega)] at hvalue
    simp at hvalue
    omega
  rw [dropMark, if_neg]
  simp [Text.Utf8.encode_cons, hpoint, byteOrderMark, List.isPrefixOf, hne]

theorem logicalLines_of_entries {es : List Entry} {file : List UInt8} (h : Entry.File es file) :
    logicalLines file = es.map fun e => .line e.line := by
  obtain ⟨text, rfl, htext⟩ := h
  have hmark : dropMark (Text.Utf8.encode text) = Text.Utf8.encode text := by
    cases text with
    | nil => rfl
    | cons c rest =>
      refine dropMark_of_ascii ?_ rest
      cases es with
      | nil => simp [Entry.lines] at htext
      | cons e es =>
        obtain ⟨d, more, hk, hstart⟩ := e.exists_head
        obtain rfl : c = d := by
          rcases htext with h | h <;> simp [Entry.lines, Entry.line, hk] at h <;> exact h.1
        have := ascii_of_isKeyChar hstart
        omega
  rw [logicalLines, hmark, physicalLines_encode, join_lines htext]

/-- The environment once entries were written into it. -/
def Entry.setAll (env : Environment) (es : List Entry) : Environment :=
  es.foldl (fun env e => env.set (String.ofList e.key) e.value) env

theorem Entry.octets?_setAll {env : Environment} {es : List Entry} (hkeys : (es.map Entry.key).Nodup) :
    (∀ e ∈ es, (setAll env es).octets? (String.ofList e.key) = some (Text.Utf8.encode e.value)) ∧
      ∀ name, (∀ e ∈ es, name ≠ String.ofList e.key) → (setAll env es).octets? name = env.octets? name := by
  induction es generalizing env with
  | nil => simp [setAll]
  | cons e es ih =>
    obtain ⟨hnew, hrest⟩ := List.nodup_cons.mp hkeys
    obtain ⟨hset, hother⟩ := @ih (env.set (String.ofList e.key) e.value) hrest
    refine ⟨?_, fun name hname => ?_⟩
    · rw [List.forall_mem_cons]
      refine ⟨?_, hset⟩
      have hkeep := hother (String.ofList e.key) fun f hf heq =>
        hnew (List.mem_map.mpr ⟨f, hf, (String.ofList_injective heq).symm⟩)
      exact hkeep.trans (by simp)
    · rw [List.forall_mem_cons] at hname
      exact (hother name hname.2).trans (by simp [hname.1])

theorem run_entries {env : Environment} {es : List Entry} (hkeys : (es.map Entry.key).Nodup)
    (hunset : ∀ e ∈ es, env.get? (String.ofList e.key) = none) :
    run env [] (es.map fun e => .line e.line) = (Entry.setAll env es, .finished) := by
  induction es generalizing env with
  | nil => rfl
  | cons e es ih =>
    obtain ⟨hnew, hrest⟩ := List.nodup_cons.mp hkeys
    obtain ⟨hhere, hlater⟩ := List.forall_mem_cons.mp hunset
    rw [List.map_cons, run_cons, e.carryOut_line hhere]
    refine ih hrest fun f hf => ?_
    have hne : String.ofList f.key ≠ String.ofList e.key := fun heq =>
      hnew (List.mem_map.mpr ⟨f, hf, String.ofList_injective heq⟩)
    have hkeep : (env.set (String.ofList e.key) e.value).octets? (String.ofList f.key) =
        env.octets? (String.ofList f.key) := by simp [hne]
    rw [Environment.get?_congr hkeep, hlater f hf]

end Dotenv

/-- Every value can be configured. Where none of the keys of a file has a text yet, reading the settings sets each to
its value, octet for octet, and leaves all else as it was; a location of the store arrives unchanged. -/
theorem World.configure_written {w : World} {es : List Dotenv.Entry} {file : List UInt8}
    (hfile : Dotenv.Entry.File es file) (hw : w.Finds file) (hkeys : (es.map Dotenv.Entry.key).Nodup)
    (hunset : ∀ e ∈ es, w.environment.get? (String.ofList e.key) = none) :
    ∃ s env, w.configure = ({ w with environment := env, settings := s }, .settings s env) ∧
      (∀ e ∈ es, env.octets? (String.ofList e.key) = some (Text.Utf8.encode e.value)) ∧
      (∀ name, (∀ e ∈ es, name ≠ String.ofList e.key) → env.octets? name = w.environment.octets? name) ∧
      (∀ e ∈ es, e.key = "FASTN_DB_URL".toList → s.databaseUrl = some (String.ofList e.value)) ∧
      ((∀ e ∈ es, e.key ≠ "FASTN_DB_URL".toList) →
        s.databaseUrl = (w.environment.get? "FASTN_DB_URL").map String.ofList) := by
  have hload : Dotenv.load w.environment file = (Dotenv.Entry.setAll w.environment es, .finished) := by
    rw [Dotenv.load, Dotenv.logicalLines_of_entries hfile, Dotenv.run_entries hkeys hunset]
  obtain ⟨hset, hother⟩ := @Dotenv.Entry.octets?_setAll w.environment es hkeys
  refine ⟨.ofEnvironment (Dotenv.Entry.setAll w.environment es), Dotenv.Entry.setAll w.environment es, ?_, hset,
    hother, fun e he hkey => ?_, fun hkey => ?_⟩
  · rw [configure_of_finds hw, hload]
    rfl
  · have hget := Environment.get?_of_octets? (hset e he)
    rw [hkey, String.ofList_toList] at hget
    simp [Settings.ofEnvironment, Settings.databaseVariable, hget]
  · have hkeep := hother "FASTN_DB_URL" fun e he heq => hkey e he (by rw [heq, String.toList_ofList])
    simp [Settings.ofEnvironment, Settings.databaseVariable, Environment.get?_congr hkeep]

/-- A location with a line break and every character that means something, behind octets that are no text, and a value
without quotes behind another variable, in a file whose last line has no line feed. -/
theorem World.configure_written_location :
    ∃ (w : World) (s : Settings) (env : Environment),
      w.Finds (Text.Utf8.ofString "FASTN_DB_URL=\"a\n#\\\"\\$A\\\\'\"\nb.c=d#e") ∧
      w.environment.bindings = [("A", [0x31]), ("FASTN_DB_URL", [0xFF])] ∧
      w.configure = ({ w with environment := env, settings := s }, .settings s env) ∧
      s.databaseUrl = some "a\n#\"$A\\'" ∧
      env.octets? "b.c" = some (Text.Utf8.ofString "d#e") ∧
      env.octets? "A" = some [0x31] := by
  let quoted : Dotenv.Entry :=
    ⟨"FASTN_DB_URL".toList, "a\n#\"$A\\'".toList, true, by decide, by decide, nofun⟩
  let plain : Dotenv.Entry := ⟨"b.c".toList, "d#e".toList, false, by decide, by decide, fun _ =>
    ⟨by
      intro c hc
      have hc : c = 'd' ∨ c = '#' ∨ c = 'e' := by simpa using hc
      rcases hc with rfl | rfl | rfl <;> exact ⟨by decide, by decide, by decide, by decide⟩, by decide⟩⟩
  have hfile : Dotenv.Entry.File [quoted, plain]
      (Text.Utf8.ofString "FASTN_DB_URL=\"a\n#\\\"\\$A\\\\'\"\nb.c=d#e") :=
    ⟨"FASTN_DB_URL=\"a\n#\\\"\\$A\\\\'\"\nb.c=d#e".toList, rfl, .inr (by decide)⟩
  let w := holding ⟨[("A", [0x31]), ("FASTN_DB_URL", [0xFF])]⟩
    (Text.Utf8.ofString "FASTN_DB_URL=\"a\n#\\\"\\$A\\\\'\"\nb.c=d#e")
  have hw : w.Finds _ := finds_holding _ _
  have hunset : ∀ e ∈ [quoted, plain], w.environment.get? (String.ofList e.key) = none := by decide
  obtain ⟨s, env, hconfigure, hset, hother, hurl, -⟩ := configure_written hfile hw (by decide) hunset
  refine ⟨w, s, env, hw, rfl, hconfigure, hurl quoted (by simp) rfl, hset plain (by simp), ?_⟩
  exact hother "A" (by decide)

end FirstRow
