import FirstRow.Text.Quoted
import Mathlib.Tactic.IntervalCases

/-!
# Quoted text tells where it ends

A text delimits itself if no text of another value can be taken for it, whatever follows either of them. A character
inside quotes does: it stands as it is, or a backslash and a letter stand for it, or its code point between braces. So a
quoted text does, since no character inside quotes begins with the quote that closes it.

A quote inside stands behind an odd number of backslashes, the one that closes the text behind an even number, and no
character of a quoted text ends a line.
-/
namespace FirstRow.Text

/-! ## Texts that delimit themselves -/

section

variable {α : Type} {write : α → List Char}

/-- The text of a value is that of no other value, and it tells where it ends: what follows it is not taken for a part of
it. -/
def Delimits (write : α → List Char) (a : α) : Prop :=
  ∀ ⦃b : α⦄ ⦃s t : List Char⦄, write a ++ s = write b ++ t → a = b ∧ s = t

/-- A character that neither of two texts has ends both of them. -/
theorem eq_of_append_cons {close : Char} {x y s t : List Char} (hx : close ∉ x) (hy : close ∉ y)
    (h : x ++ close :: s = y ++ close :: t) : x = y ∧ s = t := by
  induction x generalizing y with
  | nil =>
    cases y with
    | nil => simpa using h
    | cons d y =>
      obtain ⟨rfl, -⟩ := List.cons.inj h
      simp at hy
  | cons c x ih =>
    cases y with
    | nil =>
      obtain ⟨rfl, -⟩ := List.cons.inj h
      simp at hx
    | cons d y =>
      obtain ⟨rfl, hrest⟩ := List.cons.inj h
      obtain ⟨rfl, rfl⟩ := ih (fun hmem => hx (List.mem_cons_of_mem c hmem))
        (fun hmem => hy (List.mem_cons_of_mem c hmem)) hrest
      exact ⟨rfl, rfl⟩

/-- Texts in a row that delimit themselves end where a character stands with which none of them begins. -/
theorem eq_of_flatMap_append {close : Char} (hhead : ∀ a, ∃ c rest, write a = c :: rest ∧ c ≠ close) {as bs : List α}
    (has : ∀ a ∈ as, Delimits write a) {s t : List Char}
    (h : as.flatMap write ++ close :: s = bs.flatMap write ++ close :: t) : as = bs ∧ s = t := by
  induction as generalizing bs with
  | nil =>
    cases bs with
    | nil => simpa using h
    | cons b bs =>
      obtain ⟨c, rest, hwrite, hc⟩ := hhead b
      rw [List.flatMap_cons, hwrite] at h
      exact absurd (List.cons.inj h).1.symm hc
  | cons a as ih =>
    cases bs with
    | nil =>
      obtain ⟨c, rest, hwrite, hc⟩ := hhead a
      rw [List.flatMap_cons, hwrite] at h
      exact absurd (List.cons.inj h).1 hc
    | cons b bs =>
      rw [List.flatMap_cons, List.flatMap_cons, List.append_assoc, List.append_assoc] at h
      obtain ⟨rfl, hrest⟩ := has a List.mem_cons_self h
      obtain ⟨rfl, rfl⟩ := ih (fun b hb => has b (List.mem_cons_of_mem a hb)) hrest
      exact ⟨rfl, rfl⟩

end

/-! ## Code points -/

theorem toNat_digit {d : Nat} (h : d < 16) : (hexadecimal.digit d).toNat = if d < 10 then 0x30 + d else 0x57 + d := by
  interval_cases d <;> rfl

theorem digit_injective {d e : Nat} (hd : d < 16) (he : e < 16) (h : hexadecimal.digit d = hexadecimal.digit e) :
    d = e := by
  have hvalue := congrArg Char.toNat h
  rw [toNat_digit hd, toNat_digit he] at hvalue
  split at hvalue <;> split at hvalue <;> omega

theorem hexadecimal_of_lt {n : Nat} (h : n < 16) : hexadecimal n = [hexadecimal.digit n] := by
  rw [hexadecimal, if_pos h]

theorem hexadecimal_of_not_lt {n : Nat} (h : ¬n < 16) :
    hexadecimal n = hexadecimal (n / 16) ++ [hexadecimal.digit (n % 16)] := by
  rw [hexadecimal, if_neg h]

theorem hexadecimal_ne_nil (n : Nat) : hexadecimal n ≠ [] := by
  rw [hexadecimal]
  split <;> simp

/-- Hexadecimal digits are digits and letters of ASCII. -/
theorem toNat_of_mem_hexadecimal {n : Nat} {c : Char} (h : c ∈ hexadecimal n) :
    0x30 ≤ c.toNat ∧ c.toNat ≤ 0x39 ∨ 0x61 ≤ c.toNat ∧ c.toNat ≤ 0x66 := by
  have hdigit {d : Nat} (hd : d < 16) : 0x30 ≤ (hexadecimal.digit d).toNat ∧ (hexadecimal.digit d).toNat ≤ 0x39 ∨
      0x61 ≤ (hexadecimal.digit d).toNat ∧ (hexadecimal.digit d).toNat ≤ 0x66 := by
    rw [toNat_digit hd]
    split <;> omega
  induction n using hexadecimal.induct with
  | case1 n hn =>
    rw [hexadecimal_of_lt hn, List.mem_singleton] at h
    exact h ▸ hdigit hn
  | case2 n hn ih =>
    rw [hexadecimal_of_not_lt hn, List.mem_append, List.mem_singleton] at h
    rcases h with h | rfl
    · exact ih h
    · exact hdigit (Nat.mod_lt n (by decide))

/-- Several digits are not one digit. -/
theorem hexadecimal_append_ne (n : Nat) (c d : Char) : hexadecimal n ++ [c] ≠ [d] := by
  intro h
  have hlength := congrArg List.length h
  rw [List.length_append, List.length_singleton, List.length_singleton] at hlength
  exact hexadecimal_ne_nil n (List.length_eq_zero_iff.mp (by omega))

/-- Different numbers have different digits. -/
theorem hexadecimal_injective {n m : Nat} (h : hexadecimal n = hexadecimal m) : n = m := by
  induction n using hexadecimal.induct generalizing m with
  | case1 n hn =>
    rw [hexadecimal_of_lt hn] at h
    by_cases hm : m < 16
    · rw [hexadecimal_of_lt hm] at h
      exact digit_injective hn hm (List.cons.inj h).1
    · rw [hexadecimal_of_not_lt hm] at h
      exact absurd h.symm (hexadecimal_append_ne _ _ _)
  | case2 n hn ih =>
    rw [hexadecimal_of_not_lt hn] at h
    by_cases hm : m < 16
    · rw [hexadecimal_of_lt hm] at h
      exact absurd h (hexadecimal_append_ne _ _ _)
    · rw [hexadecimal_of_not_lt hm] at h
      obtain ⟨hhigh, hlow⟩ := List.append_singleton_inj.mp h
      have := ih hhigh
      have := digit_injective (Nat.mod_lt n (by decide)) (Nat.mod_lt m (by decide)) hlow
      omega

theorem codePoint_delimits (c : Char) : Delimits codePoint c := by
  intro d s t h
  simp only [codePoint, List.cons_append, List.append_assoc, List.nil_append, List.cons.injEq, true_and] at h
  have hbrace (e : Char) : '\x7d' ∉ hexadecimal e.toNat := by
    intro hmem
    have := toNat_of_mem_hexadecimal hmem
    simp only [show '\x7d'.toNat = 0x7D from rfl] at this
    omega
  obtain ⟨hdigits, rfl⟩ := eq_of_append_cons (hbrace c) (hbrace d) h
  exact ⟨Char.toNat_inj.mp (hexadecimal_injective hdigits), rfl⟩

/-! ## Characters inside quotes -/

/-- The character for which a letter stands behind a backslash. -/
def escaped? (e : Char) : Option Char :=
  if e = '0' then some '\x00'
  else if e = 't' then some '\t'
  else if e = 'r' then some '\r'
  else if e = 'n' then some '\n'
  else if e = '\\' then some '\\'
  else if e = '"' then some '"'
  else none

/-- Characters that stand as they are inside quotes. -/
def StandsBare (c : Char) : Prop :=
  c ≠ '"' ∧ c ≠ '\\' ∧ (0x20 ≤ c.toNat ∧ c.toNat < 0x7F ∨ isUnprintable c = false)

/-- A character stands behind a backslash as a letter or as its code point, or it stands as it is. -/
theorem quotedChar_cases (c : Char) :
    (∃ e, escaped? e = some c ∧ quotedChar c = ['\\', e]) ∨ quotedChar c = codePoint c ∨
      StandsBare c ∧ quotedChar c = [c] := by
  unfold quotedChar StandsBare
  split_ifs with hnul htab hreturn hfeed hbackslash hquote hascii hhidden
  · exact .inl ⟨'0', by rw [hnul]; rfl, rfl⟩
  · exact .inl ⟨'t', by rw [htab]; rfl, rfl⟩
  · exact .inl ⟨'r', by rw [hreturn]; rfl, rfl⟩
  · exact .inl ⟨'n', by rw [hfeed]; rfl, rfl⟩
  · exact .inl ⟨'\\', by rw [hbackslash]; rfl, rfl⟩
  · exact .inl ⟨'"', by rw [hquote]; rfl, rfl⟩
  · exact .inr (.inr ⟨⟨hquote, hbackslash, .inl hascii⟩, rfl⟩)
  · exact .inr (.inl rfl)
  · refine .inr (.inr ⟨⟨hquote, hbackslash, .inr ?_⟩, rfl⟩)
    simp only [Bool.or_eq_true, not_or] at hhidden
    simpa using hhidden.2

theorem escaped?_ne_unicode {e c : Char} (h : escaped? e = some c) : e ≠ 'u' := by
  rintro rfl
  cases h

theorem quotedChar_delimits (c : Char) : Delimits quotedChar c := by
  intro d s t h
  rcases quotedChar_cases c with ⟨e, he, hc⟩ | hc | ⟨⟨-, hbare, -⟩, hc⟩ <;>
    rcases quotedChar_cases d with ⟨e', he', hd⟩ | hd | ⟨⟨-, hbare', -⟩, hd⟩ <;> rw [hc, hd] at h
  · -- two letters
    simp only [List.cons_append, List.nil_append, List.cons.injEq, true_and] at h
    obtain ⟨rfl, rfl⟩ := h
    exact ⟨Option.some.inj (he.symm.trans he'), rfl⟩
  · exact absurd (List.cons.inj (List.cons.inj h).2).1 (escaped?_ne_unicode he)
  · exact absurd (List.cons.inj h).1.symm hbare'
  · exact absurd (List.cons.inj (List.cons.inj h).2).1.symm (escaped?_ne_unicode he')
  · -- two code points
    exact codePoint_delimits c h
  · exact absurd (List.cons.inj h).1.symm hbare'
  · exact absurd (List.cons.inj h).1 hbare
  · exact absurd (List.cons.inj h).1 hbare
  · -- two characters that stand as they are
    simpa using h

/-- No character inside quotes begins with a quote. -/
theorem exists_cons_quotedChar (c : Char) : ∃ d rest, quotedChar c = d :: rest ∧ d ≠ '"' := by
  rcases quotedChar_cases c with ⟨e, -, hc⟩ | hc | ⟨⟨hquote, -⟩, hc⟩
  · exact ⟨_, _, hc, by decide⟩
  · exact ⟨_, _, hc, by decide⟩
  · exact ⟨_, _, hc, hquote⟩

/-- A quoted text ends at the quote that closes it. -/
theorem quoted_delimits (s : List Char) : Delimits quoted s := by
  intro t u v h
  simp only [quoted, List.cons_append, List.append_assoc, List.nil_append, List.cons.injEq, true_and] at h
  exact eq_of_flatMap_append exists_cons_quotedChar (fun c _ => quotedChar_delimits c) h

/-! ## Backslashes in front of quotes -/

/-- How many backslashes a text ends with. -/
def backslashes (text : List Char) : Nat :=
  (text.reverse.takeWhile (· = '\\')).length

theorem backslashes_append_backslash (text : List Char) : backslashes (text ++ ['\\']) = backslashes text + 1 := by
  simp [backslashes]

theorem backslashes_append_of_ne (text : List Char) {c : Char} (hc : c ≠ '\\') : backslashes (text ++ [c]) = 0 := by
  simp [backslashes, hc]

theorem codePoint_eq_append (c : Char) : codePoint c = ('\\' :: 'u' :: '\x7b' :: hexadecimal c.toNat) ++ ['\x7d'] :=
  rfl

/-- A character inside quotes leaves an even number of backslashes behind it. -/
theorem even_backslashes_quotedChar {text : List Char} (h : Even (backslashes text)) (c : Char) :
    Even (backslashes (text ++ quotedChar c)) := by
  rcases quotedChar_cases c with ⟨e, -, hc⟩ | hc | ⟨⟨-, hbare, -⟩, hc⟩ <;> rw [hc]
  · rw [show text ++ ['\\', e] = text ++ ['\\'] ++ [e] by simp]
    by_cases he : e = '\\'
    · rw [he, backslashes_append_backslash, backslashes_append_backslash]
      simpa [Nat.even_add_one] using h
    · rw [backslashes_append_of_ne _ he]
      exact Even.zero
  · rw [codePoint_eq_append, ← List.append_assoc, backslashes_append_of_ne _ (by decide)]
    exact Even.zero
  · rw [backslashes_append_of_ne _ hbare]
    exact Even.zero

theorem quote_not_mem_codePoint (c : Char) : '"' ∉ codePoint c := by
  intro hmem
  simp only [codePoint_eq_append, List.mem_append, List.mem_cons, List.not_mem_nil, or_false] at hmem
  obtain ((h | h | h | hdigit) | h) := hmem
  · cases h
  · cases h
  · cases h
  · have := toNat_of_mem_hexadecimal hdigit
    simp only [show '"'.toNat = 0x22 from rfl] at this
    omega
  · cases h

/-- A quote among the characters that stand for one is the one behind a backslash. -/
theorem eq_backslash_of_quotedChar {c : Char} {u w : List Char} (h : quotedChar c = u ++ '"' :: w) : u = ['\\'] := by
  have hmem : '"' ∈ quotedChar c := by
    rw [h]
    simp
  rcases quotedChar_cases c with ⟨e, -, hc⟩ | hc | ⟨⟨hquote, -⟩, hc⟩ <;> rw [hc] at h hmem
  · match u with
    | [] => cases h
    | [b] =>
      obtain ⟨rfl, -⟩ := List.cons.inj h
      rfl
    | b :: b' :: u => simp at h
  · exact absurd hmem (quote_not_mem_codePoint c)
  · exact absurd (List.mem_singleton.mp hmem).symm hquote

/-- Quotes inside a quoted text stand behind an odd number of backslashes, and the one that closes it behind an even
number of them. The induction carries the number of backslashes in front. -/
theorem backslashes_flatMap_quotedChar (s : List Char) {text : List Char} (h : Even (backslashes text)) :
    (∀ u w, s.flatMap quotedChar = u ++ '"' :: w → Odd (backslashes (text ++ u))) ∧
      Even (backslashes (text ++ s.flatMap quotedChar)) := by
  induction s generalizing text with
  | nil => exact ⟨fun u w hsplit => by simp at hsplit, by simpa using h⟩
  | cons c s ih =>
    obtain ⟨hquotes, heven⟩ := ih (even_backslashes_quotedChar h c)
    rw [List.flatMap_cons, ← List.append_assoc]
    refine ⟨fun u w hsplit => ?_, heven⟩
    rcases List.append_eq_append_iff.mp hsplit with ⟨rest, rfl, hrest⟩ | ⟨rest, hchar, hrest⟩
    · rw [← List.append_assoc]
      exact hquotes rest w hrest
    · cases rest with
      | nil =>
        rw [List.append_nil] at hchar
        have := hquotes [] w (by simpa using hrest.symm)
        rwa [List.append_nil, hchar] at this
      | cons d rest =>
        obtain ⟨rfl, -⟩ := List.cons.inj hrest
        rw [eq_backslash_of_quotedChar hchar, backslashes_append_backslash]
        exact h.add_one

/-! ## Characters that could break a line -/

/-- Neither a control character nor a separator of lines or paragraphs. -/
structure KeepsLine (c : Char) : Prop where
  control : ¬c.toNat ≤ 0x1F
  delete : ¬(0x7F ≤ c.toNat ∧ c.toNat ≤ 0x9F)
  separator : c ≠ '\u2028' ∧ c ≠ '\u2029'

instance (c : Char) : Decidable (KeepsLine c) :=
  decidable_of_iff (¬c.toNat ≤ 0x1F ∧ ¬(0x7F ≤ c.toNat ∧ c.toNat ≤ 0x9F) ∧ c ≠ '\u2028' ∧ c ≠ '\u2029')
    ⟨fun ⟨h, h', h''⟩ => ⟨h, h', h''⟩, fun ⟨h, h', h''⟩ => ⟨h, h', h''⟩⟩

theorem keepsLine_of_ascii {c : Char} (h : 0x20 ≤ c.toNat ∧ c.toNat < 0x7F) : KeepsLine c where
  control := by omega
  delete := by omega
  separator := ⟨by rintro rfl; simp at h, by rintro rfl; simp at h⟩

theorem keepsLine_of_isUnprintable {c : Char} (h : isUnprintable c = false) : KeepsLine c := by
  have hrange {r : Nat × Nat} (hr : r ∈ unprintableRanges) : ¬(r.1 ≤ c.toNat ∧ c.toNat ≤ r.2) := by
    intro hc
    rw [isUnprintable, (unprintableRanges.contains_iff c.toNat).mpr ⟨r, hr, hc⟩] at h
    cases h
  have hcontrol := hrange (r := (0x0, 0x1f)) (by decide)
  have hdelete := hrange (r := (0x7f, 0xa0)) (by decide)
  have hseparator := hrange (r := (0x2028, 0x202f)) (by decide)
  exact ⟨by omega, by omega, by rintro rfl; simp at hseparator, by rintro rfl; simp at hseparator⟩

theorem keepsLine_of_escaped? {e c : Char} (h : escaped? e = some c) : KeepsLine e := by
  unfold escaped? at h
  split_ifs at h with hnul htab hreturn hfeed hbackslash hquote <;> subst e <;> decide

theorem keepsLine_of_mem_codePoint {c d : Char} (h : d ∈ codePoint c) : KeepsLine d := by
  simp only [codePoint_eq_append, List.mem_append, List.mem_cons, List.not_mem_nil, or_false] at h
  obtain ((rfl | rfl | rfl | hdigit) | rfl) := h
  · decide
  · decide
  · decide
  · have := toNat_of_mem_hexadecimal hdigit
    exact keepsLine_of_ascii (by omega)
  · decide

theorem keepsLine_quotedChar {c d : Char} (h : d ∈ quotedChar c) : KeepsLine d := by
  rcases quotedChar_cases c with ⟨e, he, hc⟩ | hc | ⟨⟨-, -, hc'⟩, hc⟩ <;> rw [hc] at h
  · rcases List.mem_cons.mp h with rfl | h
    · decide
    · exact List.mem_singleton.mp h ▸ keepsLine_of_escaped? he
  · exact keepsLine_of_mem_codePoint h
  · rw [List.mem_singleton.mp h]
    exact hc'.elim keepsLine_of_ascii keepsLine_of_isUnprintable

end FirstRow.Text
