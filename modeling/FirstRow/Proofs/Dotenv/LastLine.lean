import FirstRow.Proofs.Dotenv.Comment

/-!
# Last lines without a line feed

A file whose last line has no line feed does what it does with one, unless the joining of lines stands behind white space
or a backslash at its end. There the line feed would end the logical line; without it the line goes on, the file is over,
and nothing of the line has an effect.

What stands in front of the last physical line is the same in both files. `exists_lastLogical` splits it where the last
logical line begins, and `join_lastLine` tells the three ways in which the last physical line can end that one.
-/
namespace FirstRow

namespace Dotenv

/-! ## The last physical line -/

theorem exists_lastLine {bs : List UInt8} (hne : bs ≠ []) (hlast : bs.getLast? ≠ some 0x0A) :
    ∃ front last, bs = front ++ last ∧ EndsLine front ∧ last ≠ [] ∧ 0x0A ∉ last := by
  induction bs with
  | nil => exact absurd rfl hne
  | cons b rest ih =>
    by_cases hrest : rest = []
    · subst hrest
      exact ⟨[], [b], rfl, .inl rfl, by simp, by simpa [eq_comm] using hlast⟩
    · rw [List.getLast?_cons_of_ne_nil hrest] at hlast
      obtain ⟨front, last, rfl, hfront, hlast', hfeed⟩ := ih hrest hlast
      rcases hfront with rfl | hfront
      · by_cases hb : b = 0x0A
        · exact ⟨[b], last, rfl, .inr (by simp [hb]), hlast', hfeed⟩
        · exact ⟨[], b :: last, rfl, .inl rfl, by simp, by simp [hfeed, Ne.symm hb]⟩
      · have hne : front ≠ [] := by
          rintro rfl
          cases hfront
        exact ⟨b :: front, last, rfl, .inr (by rw [List.getLast?_cons_of_ne_nil hne, hfront]), hlast', hfeed⟩

theorem splitLines_of_not_mem {p : List UInt8} (hp : 0x0A ∉ p) (hne : p ≠ []) : splitLines p = [p] := by
  simpa [splitLines] using splitLines_append_of_not_mem hp hne []

/-- A line feed behind the last line belongs to it. -/
theorem splitLines_feed {p : List UInt8} (hp : 0x0A ∉ p) (hne : p ≠ []) :
    splitLines (p ++ [0x0A]) = [p ++ [0x0A]] := by
  simpa [splitLines] using splitLines_append_of_not_mem hp hne [0x0A]

/-- The first of some physical lines are those of the octets that they take up. -/
theorem splitLines_flatten {bs : List UInt8} {front back : List (List UInt8)} (h : splitLines bs = front ++ back) :
    splitLines front.flatten = front := by
  induction bs generalizing front back with
  | nil =>
    obtain ⟨rfl, -⟩ := List.append_eq_nil_iff.mp h.symm
    rfl
  | cons b rest ih =>
    cases front with
    | nil => rfl
    | cons first more =>
      by_cases hb : b = 0x0A
      · rw [splitLines, if_pos hb, List.cons_append, List.cons.injEq] at h
        obtain ⟨rfl, h⟩ := h
        simp [splitLines, hb, ih h]
      · rw [splitLines, if_neg hb] at h
        cases hs : splitLines rest with
        | nil =>
          rw [hs] at h
          simp only [List.cons_append, List.cons.injEq] at h
          obtain ⟨rfl, hmore⟩ := h
          obtain ⟨rfl, -⟩ := List.append_eq_nil_iff.mp hmore.symm
          simp [splitLines, hb]
        | cons line lines =>
          rw [hs] at h
          simp only [List.cons_append, List.cons.injEq] at h
          obtain ⟨rfl, rfl⟩ := h
          have hfirst : splitLines (line :: more).flatten = line :: more := ih hs
          rw [List.flatten_cons] at hfirst
          simp [splitLines, hb, hfirst]

theorem endsLine_flatten {lines : List (List UInt8)} (h : ∀ line ∈ lines, line.getLast? = some 0x0A) :
    EndsLine lines.flatten := by
  rcases List.eq_nil_or_concat lines with rfl | ⟨front, last, rfl⟩
  · exact .inl rfl
  · right
    rw [List.concat_eq_append, List.flatten_append, List.flatten_singleton, List.getLast?_append,
      h last (by simp)]
    rfl

/-- The octets of a physical line with its line feed are a text if they are one without it. -/
theorem toOption_decode_feed (bs : List UInt8) :
    (Text.Utf8.decode (bs ++ [0x0A])).toOption = (Text.Utf8.decode bs).toOption.map (· ++ ['\n']) := by
  have hfeed : Text.Utf8.encode ['\n'] = [0x0A] := by decide
  cases hbs : Text.Utf8.decode bs with
  | ok s =>
    have hboth : Text.Utf8.decode (bs ++ [0x0A]) = .ok (s ++ ['\n']) := by
      rw [Text.Utf8.decode_eq_ok_iff, Text.Utf8.encode_append, Text.Utf8.decode_eq_ok_iff.mp hbs, hfeed]
    rw [hboth]
    rfl
  | error e =>
    cases hboth : Text.Utf8.decode (bs ++ [0x0A]) with
    | error e' => rfl
    | ok t =>
      have ht := Text.Utf8.decode_eq_ok_iff.mp hboth
      have hlast : t.getLast? = some '\n' :=
        Text.Utf8.getLast?_of_encode (b := 0x0A) (by decide) rfl (by rw [ht]; simp)
      obtain ⟨s, rfl⟩ := List.getLast?_eq_some_iff.mp hlast
      rw [Text.Utf8.encode_append, hfeed, List.append_left_inj, ← Text.Utf8.decode_eq_ok_iff, hbs] at ht
      cases ht

/-! ## The mark -/

/-- An octet that no mark has, and what follows it, stand behind the mark. -/
theorem dropMark_append_of_not_mem {b : UInt8} (hb : b ∉ byteOrderMark) (file rest : List UInt8) :
    dropMark (file ++ b :: rest) = dropMark file ++ b :: rest := by
  simp only [byteOrderMark, List.mem_cons, List.not_mem_nil, or_false, not_or] at hb
  rcases file with _ | ⟨x, _ | ⟨y, _ | ⟨z, more⟩⟩⟩
  · simp [dropMark, byteOrderMark, Ne.symm hb.1]
  · simp [dropMark, byteOrderMark, Ne.symm hb.2.1]
  · simp [dropMark, byteOrderMark, Ne.symm hb.2.2]
  · exact dropMark_append_of_length (by simp) _

/-- A file is its mark, if it has one, and the rest; and with the mark in front each beginning of the rest is a file. -/
theorem exists_mark (file : List UInt8) :
    ∃ mark, file = Text.Utf8.encode mark ++ dropMark file ∧
      ∀ front, front <+: dropMark file → dropMark (Text.Utf8.encode mark ++ front) = front := by
  by_cases hmark : byteOrderMark.isPrefixOf file = true
  · obtain ⟨rest, rfl⟩ := List.isPrefixOf_iff_prefix.mp hmark
    have hencode : Text.Utf8.encode ['\uFEFF'] = byteOrderMark := by decide
    refine ⟨['\uFEFF'], ?_, fun front _ => ?_⟩
    · simp [hencode, dropMark, byteOrderMark]
    · simp [hencode, dropMark, byteOrderMark]
  · have hdrop : dropMark file = file := if_neg hmark
    refine ⟨[], hdrop.symm, fun front hfront => if_neg fun h => hmark ?_⟩
    rw [hdrop] at hfront
    exact List.isPrefixOf_iff_prefix.mpr ((List.isPrefixOf_iff_prefix.mp h).trans hfront)

theorem getLast?_dropMark {file : List UInt8} (h : file.getLast? ≠ some 0x0A) :
    (dropMark file).getLast? ≠ some 0x0A := by
  obtain ⟨mark, hfile, -⟩ := exists_mark file
  intro hlast
  rw [hfile, List.getLast?_append, hlast] at h
  exact h rfl

/-! ## The last logical line -/

/-- The place where the last logical line begins, and what is joined of it: the lines `back`. Whatever physical lines
follow, the logical lines in front of that place stay as they are. The induction is on the lines, and either the logical
line that is in the buffer at the beginning is the last one, or a later one is. -/
theorem exists_lastLogical {lines : List (Option (List Char))} {j : Joint}
    (h : joinEnd [] .complete lines = some j) :
    ∃ front, ∃ back : List (List Char), lines = front ++ back.map some ∧
      joinEnd [] .complete front = some .complete ∧ ∀ rest,
        join [] .complete (lines ++ rest) = join [] .complete front ++ join back.flatten j rest ∧
        joinEnd [] .complete (lines ++ rest) = joinEnd back.flatten j rest := by
  have hall : ∀ buffer joint, joinEnd buffer joint lines = some j →
      (∃ back : List (List Char), lines = back.map some ∧ ∀ rest,
        join buffer joint (lines ++ rest) = join (buffer ++ back.flatten) j rest ∧
        joinEnd buffer joint (lines ++ rest) = joinEnd (buffer ++ back.flatten) j rest) ∨
      ∃ front, ∃ back : List (List Char), lines = front ++ back.map some ∧
        joinEnd buffer joint front = some .complete ∧ ∀ rest,
        join buffer joint (lines ++ rest) = join buffer joint front ++ join back.flatten j rest ∧
        joinEnd buffer joint (lines ++ rest) = joinEnd back.flatten j rest := by
    clear h
    induction lines with
    | nil =>
      intro buffer joint h
      obtain rfl : joint = j := Option.some.inj h
      exact .inl ⟨[], rfl, fun rest => by simp⟩
    | cons line lines ih =>
      intro buffer joint h
      cases line with
      | none => cases h
      | some line =>
        rcases join_cases buffer joint line with ⟨text, -, hstep⟩ | ⟨j', -, -, hstep⟩
        · right
          rw [(hstep _).2] at h
          rcases ih _ _ h with ⟨back, rfl, hback⟩ | ⟨front, back, rfl, hfront, hback⟩
          · refine ⟨[some line], back, rfl, (hstep _).2, fun rest => ?_⟩
            rw [List.cons_append, (hstep _).1, (hstep _).2, (hstep _).1, (hback rest).1, (hback rest).2]
            exact ⟨rfl, rfl⟩
          · refine ⟨some line :: front, back, rfl, (hstep _).2.trans hfront, fun rest => ?_⟩
            rw [List.cons_append, (hstep _).1, (hstep _).2, (hstep _).1, (hback rest).1, (hback rest).2]
            exact ⟨rfl, rfl⟩
        · rw [(hstep _).2] at h
          rcases ih _ _ h with ⟨back, rfl, hback⟩ | ⟨front, back, rfl, hfront, hback⟩
          · refine .inl ⟨line :: back, rfl, fun rest => ?_⟩
            rw [List.cons_append, (hstep _).1, (hstep _).2, (hback rest).1, (hback rest).2, List.flatten_cons,
              List.append_assoc]
            exact ⟨rfl, rfl⟩
          · refine .inr ⟨some line :: front, back, rfl, (hstep _).2.trans hfront, fun rest => ?_⟩
            rw [List.cons_append, (hstep _).1, (hstep _).2, (hstep _).1, (hback rest).1, (hback rest).2]
            exact ⟨rfl, rfl⟩
  rcases hall [] .complete h with ⟨back, hlines, hback⟩ | hlater
  · exact ⟨[], back, hlines, rfl, hback⟩
  · exact hlater

/-- Behind a line that is not UTF-8 nothing is read. -/
theorem join_of_joinEnd_none {buffer : List Char} {joint : Joint} {lines : List (Option (List Char))}
    (h : joinEnd buffer joint lines = none) (rest : List (Option (List Char))) :
    join buffer joint (lines ++ rest) = join buffer joint lines ∧ joinEnd buffer joint (lines ++ rest) = none := by
  induction lines generalizing buffer joint with
  | nil => cases h
  | cons line lines ih =>
    cases line with
    | none => exact ⟨rfl, rfl⟩
    | some line =>
      rw [List.cons_append]
      rcases join_cases buffer joint line with ⟨text, -, hstep⟩ | ⟨j, -, -, hstep⟩
      · rw [(hstep _).2] at h
        rw [(hstep _).1, (hstep _).1, (hstep _).2, (ih h).1]
        exact ⟨rfl, (ih h).2⟩
      · rw [(hstep _).2] at h
        rw [(hstep _).1, (hstep _).1, (hstep _).2]
        exact ih h

/-- Lines that are read to their end are texts. -/
theorem exists_texts_of_joinEnd {buffer : List Char} {joint j : Joint} {lines : List (Option (List Char))}
    (h : joinEnd buffer joint lines = some j) : ∃ texts : List (List Char), lines = texts.map some := by
  induction lines generalizing buffer joint with
  | nil => exact ⟨[], rfl⟩
  | cons line lines ih =>
    cases line with
    | none => cases h
    | some line =>
      obtain ⟨texts, rfl⟩ : ∃ texts : List (List Char), lines = texts.map some := by
        rcases join_cases buffer joint line with ⟨text, -, hstep⟩ | ⟨j', -, -, hstep⟩
        · exact ih ((hstep _).2.symm.trans h)
        · exact ih ((hstep _).2.symm.trans h)
      exact ⟨line :: texts, rfl⟩

theorem isComment_feed (s : List Char) : isComment (s ++ ['\n']) = isComment s := by
  have hfeed : Text.isBlank '\n' = true := by decide
  by_cases hs : s.dropWhile Text.isBlank = []
  · have hboth : (s ++ ['\n']).dropWhile Text.isBlank = [] := by
      rw [List.dropWhile_append, if_pos (List.isEmpty_iff.mpr hs)]
      simp [hfeed]
    rw [isComment, isComment, hs, hboth]
  · exact isComment_append hs _

theorem trimEnd_dropLineEnd (s : List Char) : trimEnd (dropLineEnd s) = trimEnd s := by
  obtain ⟨e, he, hdropped⟩ := dropLineEnd_cases s
  have hblank : ∀ c ∈ e, Text.isBlank c = true := fun c hc => by
    rcases hdropped c hc with rfl | rfl <;> decide
  conv_rhs => rw [he, trimEnd_append_of_blank _ hblank]

/-- What a line feed does to a joint: it ends what is open outside quotes, and no quote. -/
theorem Joint.cases_feed (j : Joint) :
    j = .complete ∧ (j.scan ['\n']).2 = some .complete ∨
    (j = .blank ∨ j = .escape) ∧ (j.scan ['\n']).2 = some .complete ∨
    j.inQuotes = true ∧ ∃ j', (j.scan ['\n']).2 = some j' ∧ j'.inQuotes = true := by
  cases j with
  | complete => exact .inl ⟨rfl, rfl⟩
  | blank => exact .inr (.inl ⟨.inl rfl, rfl⟩)
  | escape => exact .inr (.inl ⟨.inr rfl, rfl⟩)
  | weak => exact .inr (.inr ⟨rfl, .weak, rfl, rfl⟩)
  | weakEscape => exact .inr (.inr ⟨rfl, .weak, rfl, rfl⟩)
  | strong => exact .inr (.inr ⟨rfl, .strong, rfl, rfl⟩)
  | strongEscape => exact .inr (.inr ⟨rfl, .strong, rfl, rfl⟩)

/-- Only a line feed is dropped where no carriage return stands in front of it. -/
theorem dropLineEnd_feed {buffer line : List Char} (hne : line ≠ []) (h : line.getLast? ≠ some '\r') :
    dropLineEnd (buffer ++ (line ++ ['\n'])) = buffer ++ line := by
  obtain ⟨front, c, rfl⟩ : ∃ front c, line = front ++ [c] := by
    simpa using (List.eq_nil_or_concat line).resolve_left hne
  have hc : c ≠ '\r' := by simpa using h
  rw [← List.append_assoc, ← List.append_assoc, dropLineEnd_append_feed _ hc]

section

variable {buffer line : List Char} {joint j : Joint}

theorem joinEnd_of_scan (hcomment : isComment (buffer ++ line) = false) (hscan : (joint.scan line).2 = some j) :
    joinEnd buffer joint [some line] = some j := by
  rw [joinEnd, if_neg (by simp [hcomment]), Joint.scan_eq_of_some hscan]
  cases j <;> rfl

theorem join_of_scan (hcomment : isComment (buffer ++ line) = false) (hscan : (joint.scan line).2 = some j) :
    join buffer joint [some line] = if j = .complete then [.line (dropLineEnd (buffer ++ line))] else [.broken] := by
  split
  · next hj => rw [join_of_complete hcomment (hj ▸ Joint.scan_eq_of_some hscan), join, if_pos rfl]
  · next hj => rw [join_of_open hcomment hscan hj, join, if_neg hj]

/-- The last physical line without a line feed and with one. It ends its logical line in both cases, and white space at
the end apart in the same way; or a quote is open, and it ends it in neither; or it stops behind white space or a
backslash, and the line feed makes the difference. -/
theorem join_lastLine (hne : line ≠ []) :
    (∃ a b, join buffer joint [some line] = [.line a] ∧ join buffer joint [some (line ++ ['\n'])] = [.line b] ∧
      trimEnd b = trimEnd a ∧ joinEnd buffer joint [some line] = some .complete) ∨
    (∃ j, joinEnd buffer joint [some line] = some j ∧ j.inQuotes = true ∧
      join buffer joint [some line] = [.broken] ∧ join buffer joint [some (line ++ ['\n'])] = [.broken]) ∨
    ∃ j, joinEnd buffer joint [some line] = some j ∧ (j = .blank ∨ j = .escape) ∧
      join buffer joint [some line] = [.broken] ∧
      join buffer joint [some (line ++ ['\n'])] = [.line (buffer ++ line)] := by
  have hcomment := isComment_feed (buffer ++ line)
  rw [List.append_assoc] at hcomment
  cases hmark : isComment (buffer ++ line) with
  | true =>
    rw [hmark] at hcomment
    exact .inl ⟨[], [], by simp [join, hmark], by simp [join, hcomment], rfl, by simp [joinEnd, hmark]⟩
  | false =>
    rw [hmark] at hcomment
    cases hscan : joint.scan line with
    | mk kept last =>
      cases last with
      | none =>
        have hwith : joint.scan (line ++ ['\n']) = (kept, none) := by
          rw [Joint.scan_append_of_none (by rw [hscan]), hscan]
        refine .inl ⟨buffer ++ kept, buffer ++ kept, ?_, ?_, rfl, ?_⟩
        · simp [join, hmark, hscan]
        · simp [join, hcomment, hwith]
        · simp [joinEnd, hmark, hscan]
      | some j =>
        have hlast : (joint.scan line).2 = some j := by rw [hscan]
        have hend := joinEnd_of_scan hmark hlast
        have hwithout := join_of_scan hmark hlast
        -- the line feed is one more character to scan
        have hwith {j' : Joint} (hj' : (j.scan ['\n']).2 = some j') := join_of_scan (j := j') hcomment
          (by rw [Joint.scan_append (Joint.scan_eq_of_some hlast)]; exact hj')
        rcases j.cases_feed with ⟨rfl, hstep⟩ | ⟨hopen, hstep⟩ | ⟨hquotes, j', hstep, hj'⟩
        · rw [if_pos rfl] at hwithout
          have hfeed := hwith hstep
          rw [if_pos rfl] at hfeed
          refine .inl ⟨_, _, hwithout, hfeed, ?_, hend⟩
          rw [trimEnd_dropLineEnd, trimEnd_dropLineEnd, ← List.append_assoc]
          refine trimEnd_append_of_blank _ fun c hc => ?_
          rw [List.mem_singleton.mp hc]
          decide
        · have hne' : j ≠ .complete := by rcases hopen with rfl | rfl <;> simp
          rw [if_neg hne'] at hwithout
          refine .inr (.inr ⟨j, hend, hopen, hwithout, ?_⟩)
          rw [hwith hstep, if_pos rfl, dropLineEnd_feed hne]
          rintro hreturn
          rcases Joint.scan_lineEnd (.inr rfl) hreturn hlast with rfl | hquotes
          · exact hne' rfl
          · rcases hopen with rfl | rfl <;> cases hquotes
        · have hne' {k : Joint} (hk : k.inQuotes = true) : k ≠ .complete := by
            rintro rfl
            cases hk
          rw [if_neg (hne' hquotes)] at hwithout
          refine .inr (.inl ⟨j, hend, hquotes, hwithout, ?_⟩)
          rw [hwith hstep, if_neg (hne' hj')]

end

/-! ## The two files -/

/-- A file without a line feed at its end: the physical lines that have theirs, and the last one. -/
structure Unended (file : List UInt8) (lines : List (List UInt8)) (last : List UInt8) : Prop where
  dropMark_eq : dropMark file = lines.flatten ++ last
  splitLines_eq : splitLines lines.flatten = lines
  endsLine : ∀ line ∈ lines, line.getLast? = some 0x0A
  last_ne : last ≠ []
  last_feed : 0x0A ∉ last

theorem exists_unended {file : List UInt8} (hne : dropMark file ≠ []) (hlast : file.getLast? ≠ some 0x0A) :
    ∃ lines last, Unended file lines last := by
  obtain ⟨front, last, hfile, hfront, hlast', hfeed⟩ := exists_lastLine hne (getLast?_dropMark hlast)
  exact ⟨splitLines front, last, by rw [flatten_splitLines, hfile], by rw [flatten_splitLines],
    fun line => getLast?_of_mem_splitLines hfront, hlast', hfeed⟩

/-- A physical line as text; none if it is not UTF-8. -/
def textOf? (line : List UInt8) : Option (List Char) :=
  (Text.Utf8.decode line).toOption

theorem encode_of_textOf? {line : List UInt8} {s : List Char} (h : textOf? line = some s) :
    Text.Utf8.encode s = line := by
  unfold textOf? at h
  cases hd : Text.Utf8.decode line with
  | error e => simp [hd, Except.toOption] at h
  | ok t =>
    obtain rfl : t = s := by simpa [hd, Except.toOption] using h
    exact Text.Utf8.decode_eq_ok_iff.mp hd

namespace Unended
variable {file : List UInt8} {lines : List (List UInt8)} {last : List UInt8}

/-- The last line goes on where the file does. -/
theorem append (h : Unended file lines last) {b : UInt8} {rest : List UInt8} (hb : b ∉ byteOrderMark)
    (hrest : 0x0A ∉ b :: rest) : Unended (file ++ b :: rest) lines (last ++ b :: rest) where
  dropMark_eq := by rw [dropMark_append_of_not_mem hb, h.dropMark_eq, List.append_assoc]
  splitLines_eq := h.splitLines_eq
  endsLine := h.endsLine
  last_ne := by simp
  last_feed := fun hmem => (List.mem_append.mp hmem).elim h.last_feed hrest

theorem physicalLines_eq (h : Unended file lines last) :
    physicalLines (dropMark file) = lines.map textOf? ++ [textOf? last] := by
  rw [physicalLines, h.dropMark_eq, splitLines_append (endsLine_flatten h.endsLine), h.splitLines_eq,
    splitLines_of_not_mem h.last_feed h.last_ne, List.map_append]
  rfl

theorem physicalLines_feed (h : Unended file lines last) :
    physicalLines (dropMark (file ++ [0x0A])) = lines.map textOf? ++ [(textOf? last).map (· ++ ['\n'])] := by
  rw [physicalLines, dropMark_append_of_not_mem (by decide), h.dropMark_eq, List.append_assoc,
    splitLines_append (endsLine_flatten h.endsLine), h.splitLines_eq, splitLines_feed h.last_feed h.last_ne,
    List.map_append, List.map_singleton, toOption_decode_feed]
  rfl

theorem logicalLines_eq (h : Unended file lines last) :
    logicalLines file = join [] .complete (lines.map textOf? ++ [textOf? last]) := by
  rw [logicalLines, h.physicalLines_eq]

theorem logicalLines_feed (h : Unended file lines last) :
    logicalLines (file ++ [0x0A]) = join [] .complete (lines.map textOf? ++ [(textOf? last).map (· ++ ['\n'])]) := by
  rw [logicalLines, h.physicalLines_feed]

theorem endJoint?_eq (h : Unended file lines last) :
    endJoint? file = joinEnd [] .complete (lines.map textOf? ++ [textOf? last]) := by
  rw [endJoint?, h.physicalLines_eq]

theorem text_spec (h : Unended file lines last) {s : List Char} (hs : textOf? last = some s) :
    Text.Utf8.encode s = last ∧ s ≠ [] := by
  have hlast := encode_of_textOf? hs
  refine ⟨hlast, ?_⟩
  rintro rfl
  exact h.last_ne hlast.symm

end Unended

/-- A line feed at the end makes no difference unless the joining of lines stands behind white space or a backslash. -/
theorem load_feed {file : List UInt8} (hlast : file.getLast? ≠ some 0x0A) (hblank : endJoint? file ≠ some .blank)
    (hescape : endJoint? file ≠ some .escape) (env : Environment) : load env (file ++ [0x0A]) = load env file := by
  by_cases hne : dropMark file = []
  · have hnone : logicalLines file = [] := by
      rw [logicalLines, hne]
      rfl
    have hempty : logicalLines (file ++ [0x0A]) = [.line []] := by
      rw [logicalLines, dropMark_append_of_not_mem (by decide), hne]
      decide +kernel
    rw [load, load, hnone, hempty]
    rfl
  · obtain ⟨lines, last, h⟩ := exists_unended hne hlast
    rw [h.endJoint?_eq] at hblank hescape
    rw [load, load, h.logicalLines_eq, h.logicalLines_feed]
    cases hend : joinEnd [] .complete (lines.map textOf?) with
    | none => rw [(join_of_joinEnd_none hend _).1, (join_of_joinEnd_none hend _).1]
    | some j =>
      obtain ⟨front, back, -, -, hback⟩ := exists_lastLogical hend
      rw [(hback _).1, (hback _).1]
      rw [(hback _).2] at hblank hescape
      cases hs : textOf? last with
      | none => rfl
      | some s =>
        obtain ⟨-, hsne⟩ := h.text_spec hs
        rw [hs] at hblank hescape
        rw [Option.map_some]
        rcases @join_lastLine back.flatten s j hsne with
          ⟨a, b, ha, hb, htrim, -⟩ | ⟨k, -, -, hwithout, hwith⟩ | ⟨k, hk, hopen, -⟩
        · rw [ha, hb]
          exact run_congr (fun subst => attempt?_congr subst htrim) _ [] env []
        · rw [hwithout, hwith]
        · rcases hopen with rfl | rfl
          · exact absurd hk hblank
          · exact absurd hk hescape

theorem flatten_of_textOf? {lines : List (List UInt8)} {texts : List (List Char)}
    (h : lines.map textOf? = texts.map some) : lines.flatten = Text.Utf8.encode texts.flatten := by
  induction lines generalizing texts with
  | nil =>
    obtain rfl : texts = [] := by simpa using h.symm
    rfl
  | cons line lines ih =>
    cases texts with
    | nil => cases h
    | cons text texts =>
      obtain ⟨hline, hlines⟩ := List.cons.inj h
      rw [List.flatten_cons, List.flatten_cons, Text.Utf8.encode_append, ih hlines, encode_of_textOf? hline]

/-- Where the joining of lines stands behind white space or a backslash, the file is its complete logical lines and one
more, which is lost. -/
theorem exists_lost {file : List UInt8} (hlast : file.getLast? ≠ some 0x0A)
    (hopen : endJoint? file = some .blank ∨ endJoint? file = some .escape) :
    ∃ front line, file = front ++ Text.Utf8.encode line ∧ line ≠ [] ∧ Leads front ∧
      logicalLines file = logicalLines front ++ [.broken] ∧
      logicalLines (file ++ [0x0A]) = logicalLines front ++ [.line line] := by
  have hne : dropMark file ≠ [] := by
    intro hempty
    rw [endJoint?, hempty] at hopen
    rcases hopen with h | h <;> cases h
  obtain ⟨lines, last, h⟩ := exists_unended hne hlast
  rw [h.endJoint?_eq] at hopen
  cases hend : joinEnd [] .complete (lines.map textOf?) with
  | none =>
    rw [(join_of_joinEnd_none hend _).2] at hopen
    rcases hopen with h | h <;> cases h
  | some j =>
    obtain ⟨front, back, hsplit, hfront, hback⟩ := exists_lastLogical hend
    obtain ⟨fronts, backs, rfl, rfl, hbacks⟩ := List.map_eq_append_iff.mp hsplit
    rw [(hback _).2] at hopen
    cases hs : textOf? last with
    | none =>
      rw [hs] at hopen
      rcases hopen with h | h <;> cases h
    | some s =>
      obtain ⟨hencode, hsne⟩ := h.text_spec hs
      rw [hs] at hopen
      obtain ⟨mark, hfile, hmark⟩ := exists_mark file
      have hdrop : dropMark file = fronts.flatten ++ Text.Utf8.encode (back.flatten ++ s) := by
        rw [h.dropMark_eq, List.flatten_append, flatten_of_textOf? hbacks, Text.Utf8.encode_append, hencode,
          List.append_assoc]
      have hfronts : dropMark (Text.Utf8.encode mark ++ fronts.flatten) = fronts.flatten := hmark _ ⟨_, hdrop.symm⟩
      have hlines : splitLines fronts.flatten = fronts := splitLines_flatten h.splitLines_eq
      have hphysical : physicalLines (dropMark (Text.Utf8.encode mark ++ fronts.flatten)) = fronts.map textOf? := by
        rw [hfronts, physicalLines, hlines]
        rfl
      have hlogical : logicalLines (Text.Utf8.encode mark ++ fronts.flatten) = join [] .complete (fronts.map textOf?) := by
        rw [logicalLines, hphysical]
      refine ⟨Text.Utf8.encode mark ++ fronts.flatten, back.flatten ++ s, ?_, by simp [hsne], ⟨?_, ?_⟩, ?_⟩
      · rw [List.append_assoc, ← hdrop, ← hfile]
      · rw [hfronts]
        exact endsLine_flatten fun line hline => h.endsLine line (List.mem_append_left _ hline)
      · rw [endJoint?, hphysical, hfront]
      · rw [h.logicalLines_eq, h.logicalLines_feed, (hback _).1, (hback _).1, hs, hlogical, Option.map_some]
        rcases @join_lastLine back.flatten s j hsne with
          ⟨a, b, -, -, -, hk⟩ | ⟨k, hk, hquotes, -⟩ | ⟨k, -, -, hwithout, hwith⟩
        · rw [hk] at hopen
          rcases hopen with h | h <;> cases h
        · rw [hk] at hopen
          rcases hopen with h | h <;> cases h <;> cases hquotes
        · rw [hwithout, hwith]
          exact ⟨rfl, rfl⟩

/-- Reading stops at a line that cannot be read as it does at one that cannot be joined. -/
theorem run_broken {a : Logical} (ha : a = .broken ∨ ∃ text, a = .line text ∧ Malformed text) (lines : List Logical)
    (env : Environment) (assigned : Assigned) : run env assigned (lines ++ [a]) = run env assigned lines := by
  induction lines generalizing env assigned with
  | nil =>
    rcases ha with rfl | ⟨text, rfl, hbad⟩
    · rfl
    · simp [run, (malformed_iff _).mp hbad]
  | cons line lines ih =>
    cases line with
    | broken => rfl
    | line text => simp only [List.cons_append, run, ih]

/-! ## Ends of files at which nothing is open -/

/-- A file whose joining gets to its end is a text. -/
theorem exists_text_of_endJoint? {file : List UInt8} {j : Joint} (h : endJoint? file = some j) :
    ∃ s, Text.Utf8.encode s = file := by
  obtain ⟨texts, htexts⟩ := exists_texts_of_joinEnd h
  obtain ⟨mark, hfile, -⟩ := exists_mark file
  refine ⟨mark ++ texts.flatten, ?_⟩
  rw [Text.Utf8.encode_append, ← flatten_of_textOf? htexts, flatten_splitLines, ← hfile]

/-- Behind a line feed neither white space nor a backslash counts. -/
theorem joint_of_endsLine {file : List UInt8} {j : Joint} (hends : EndsLine (dropMark file))
    (h : endJoint? file = some j) : j = .complete ∨ j.inQuotes = true := by
  have hlines : ∀ line ∈ physicalLines (dropMark file), ∃ t, line = some t ∧ t.getLast? = some '\n' := by
    intro line hline
    obtain ⟨texts, htexts⟩ := exists_texts_of_joinEnd h
    obtain ⟨t, -, rfl⟩ := List.mem_map.mp (htexts ▸ hline)
    obtain ⟨bs, hbs, ht⟩ := List.mem_map.mp hline
    have hlast := getLast?_of_mem_splitLines hends hbs
    rw [← encode_of_textOf? ht] at hlast
    exact ⟨t, rfl, Text.Utf8.getLast?_of_encode (by decide) rfl hlast⟩
  obtain ⟨j', hj', hcases⟩ := exists_joinEnd [] hlines (.inl rfl)
  obtain rfl : j' = j := Option.some.inj (hj'.symm.trans h)
  exact hcases

theorem scan_of_joinEnd {buffer line : List Char} {joint j : Joint} (h : joinEnd buffer joint [some line] = some j)
    (hj : j ≠ .complete) : (joint.scan line).2 = some j := by
  by_cases hcomment : isComment (buffer ++ line) = true
  · rw [joinEnd, if_pos hcomment] at h
    exact absurd (Option.some.inj h).symm hj
  · cases hs : joint.scan line with
    | mk kept last =>
      cases last with
      | none =>
        rw [joinEnd, if_neg hcomment, hs] at h
        exact absurd (Option.some.inj h).symm hj
      | some k =>
        rw [joinEnd_of_scan (by simpa using hcomment) (by rw [hs])] at h
        exact h

/-- A number sign in white space begins a comment, behind which nothing is open. -/
theorem joinEnd_comment {buffer line : List Char} {joint : Joint} (h : (joint.scan line).2 = some .blank)
    (comment : List Char) : joinEnd buffer joint [some (line ++ '#' :: comment)] = some .complete := by
  have hscan : (joint.scan (line ++ '#' :: comment)).2 = none := by
    rw [Joint.scan_append (Joint.scan_eq_of_some h)]
    rfl
  rw [joinEnd]
  split
  · rfl
  · cases hs : joint.scan (line ++ '#' :: comment) with
    | mk kept last =>
      rw [hs] at hscan
      obtain rfl : last = none := hscan
      rfl

namespace Unended
variable {file : List UInt8} {lines : List (List UInt8)} {last : List UInt8} {j : Joint}

/-- The joint at the end of the file is that behind the last line, which is read from where the others lead. -/
theorem ending (h : Unended file lines last) (hj : endJoint? file = some j) :
    ∃ buffer joint s, textOf? last = some s ∧ joinEnd buffer joint [some s] = some j ∧
      ∀ x, joinEnd [] .complete (lines.map textOf? ++ [x]) = joinEnd buffer joint [x] := by
  rw [h.endJoint?_eq] at hj
  cases hend : joinEnd [] .complete (lines.map textOf?) with
  | none =>
    rw [(join_of_joinEnd_none hend _).2] at hj
    cases hj
  | some joint =>
    obtain ⟨front, back, -, -, hback⟩ := exists_lastLogical hend
    rw [(hback _).2] at hj
    cases hs : textOf? last with
    | none =>
      rw [hs] at hj
      cases hj
    | some s =>
      rw [hs] at hj
      exact ⟨back.flatten, joint, s, rfl, hj, fun x => (hback [x]).2⟩

end Unended

/-- At a carriage return nothing is open outside quotes. -/
theorem joint_of_return {file : List UInt8} {j : Joint} (hreturn : file.getLast? = some 0x0D)
    (hj : endJoint? file = some j) : j = .complete ∨ j.inQuotes = true := by
  by_cases hne : dropMark file = []
  · rw [endJoint?, hne] at hj
    exact .inl (Option.some.inj hj).symm
  · obtain ⟨lines, last, h⟩ := exists_unended hne (by simp [hreturn])
    obtain ⟨buffer, joint, s, hs, hend, -⟩ := h.ending hj
    obtain ⟨mark, hfile, -⟩ := exists_mark file
    obtain ⟨hencode, -⟩ := h.text_spec hs
    have hlast : s.getLast? = some '\r' := by
      refine Text.Utf8.getLast?_of_encode (b := 0x0D) (by decide) rfl ?_
      rw [hfile, h.dropMark_eq, ← List.append_assoc, List.getLast?_append_of_ne_nil _ h.last_ne] at hreturn
      rw [hencode, hreturn]
    by_cases hcomplete : j = .complete
    · exact .inl hcomplete
    · exact Joint.scan_lineEnd (.inr rfl) hlast (scan_of_joinEnd hend hcomplete)

/-- A number sign behind these octets begins a comment: white space stands in front of it, or nothing else on its logical
line. -/
def OpensComment (front : List UInt8) : Prop :=
  endJoint? front = some .blank ∨
    ∃ lead spaces, front = lead ++ Text.Utf8.encode spaces ∧ Leads lead ∧ '\n' ∉ spaces ∧
      ∀ c ∈ spaces, Text.isBlank c = true

theorem not_mem_encode_comment {comment : List Char} (h : '\n' ∉ comment) :
    0x0A ∉ (0x23 : UInt8) :: Text.Utf8.encode comment := by
  rw [List.mem_cons, Text.Utf8.mem_encode_iff (by decide)]
  rintro (hmark | ⟨c, hc, hfeed⟩)
  · cases hmark
  · obtain rfl : c = '\n' := Char.toNat_inj.mp hfeed
    exact h hc

/-- Behind a comment nothing is open. -/
theorem endJoint?_comment {front : List UInt8} {comment : List Char} (h : endJoint? front = some .blank)
    (hcomment : '\n' ∉ comment) : endJoint? (front ++ Text.Utf8.encode ('#' :: comment)) = some .complete := by
  have hends : ¬ EndsLine (dropMark front) := fun hends => by
    rcases joint_of_endsLine hends h with h | h <;> cases h
  have hlast : front.getLast? ≠ some 0x0A := fun hlast => hends (EndsLine.dropMark (.inr hlast))
  obtain ⟨lines, last, hfront⟩ := exists_unended (fun hnil => hends (.inl hnil)) hlast
  obtain ⟨buffer, joint, s, hs, hend, hlines⟩ := hfront.ending h
  have hmark : Text.Utf8.encode ('#' :: comment) = 0x23 :: Text.Utf8.encode comment := rfl
  have htext : textOf? (last ++ 0x23 :: Text.Utf8.encode comment) = some (s ++ '#' :: comment) := by
    rw [← encode_of_textOf? hs, ← hmark, ← Text.Utf8.encode_append, textOf?, Text.Utf8.decode_encode]
    rfl
  rw [hmark, (hfront.append (by decide) (not_mem_encode_comment hcomment)).endJoint?_eq, hlines, htext]
  exact joinEnd_comment (scan_of_joinEnd hend (by simp)) comment

/-- A logical line that is a comment says nothing, with or without a line feed. -/
theorem logicalLines_comment {lead : List UInt8} {spaces comment : List Char} (hlead : Leads lead)
    (hspaces : '\n' ∉ spaces) (hblank : ∀ c ∈ spaces, Text.isBlank c = true) (hcomment : '\n' ∉ comment) :
    logicalLines (lead ++ Text.Utf8.encode (spaces ++ '#' :: comment)) = logicalLines lead ++ [.line []] ∧
      logicalLines (lead ++ Text.Utf8.encode (spaces ++ '#' :: comment ++ ['\n'])) =
        logicalLines lead ++ [.line []] := by
  have hfront : ∀ t, (spaces ++ '#' :: t).dropWhile Text.isBlank = '#' :: t := by
    intro t
    rw [List.dropWhile_append_of_pos hblank, List.dropWhile_cons_of_neg (by decide)]
  have hunmarked : ∀ t, byteOrderMark.isPrefixOf (Text.Utf8.encode (spaces ++ '#' :: t)) = false := by
    intro t
    by_contra hmark
    rw [Bool.not_eq_false] at hmark
    have hhead := head?_of_marked hmark
    cases spaces with
    | nil => cases hhead
    | cons c more =>
      obtain rfl : c = '\uFEFF' := by simpa using hhead
      have hfeff := hblank '\uFEFF' List.mem_cons_self
      have : Text.isBlank '\uFEFF' = false := by decide
      rw [this] at hfeff
      cases hfeff
  have hjoin : ∀ t, join [] .complete [some (spaces ++ '#' :: t)] = [.line []] := by
    intro t
    rw [join, if_pos (by rw [List.nil_append, isComment, hfront]; rfl)]
    rfl
  have hline : '\n' ∉ spaces ++ '#' :: comment := by simp [hspaces, hcomment]
  have happend : spaces ++ '#' :: comment ++ ['\n'] = spaces ++ '#' :: (comment ++ ['\n']) := by simp
  constructor
  · rw [hlead.logicalLines_append (hunmarked _), textLines_of_not_mem hline (by simp)]
    exact congrArg _ (hjoin comment)
  · rw [happend, hlead.logicalLines_append (hunmarked _), ← happend, textLines_append_feed hline []]
    rw [happend]
    exact congrArg _ (hjoin (comment ++ ['\n']))

/-- A comment at the end of a file makes a line feed behind it one more character of the comment. -/
theorem load_feed_comment {front : List UInt8} {comment : List Char} (hcomment : '\n' ∉ comment)
    (hopens : OpensComment front) (env : Environment) :
    load env (front ++ Text.Utf8.encode ('#' :: comment) ++ [0x0A]) =
      load env (front ++ Text.Utf8.encode ('#' :: comment)) := by
  rcases hopens with hblank | ⟨lead, spaces, rfl, hlead, hspaces, hblank⟩
  · have hend := endJoint?_comment hblank hcomment
    refine load_feed (fun hlast => ?_) (by rw [hend]; simp) (by rw [hend]; simp) env
    rw [List.getLast?_append_of_ne_nil _ (by rw [Text.Utf8.encode_cons]; simp [Text.Utf8.encodePoint_ne_nil])] at hlast
    exact not_mem_encode_comment hcomment (List.mem_of_getLast? hlast)
  · obtain ⟨hplain, hfeed⟩ := logicalLines_comment hlead hspaces hblank hcomment
    have hencode : lead ++ Text.Utf8.encode spaces ++ Text.Utf8.encode ('#' :: comment) =
        lead ++ Text.Utf8.encode (spaces ++ '#' :: comment) := by simp
    have hencode' : lead ++ Text.Utf8.encode (spaces ++ '#' :: comment) ++ [0x0A] =
        lead ++ Text.Utf8.encode (spaces ++ '#' :: comment ++ ['\n']) := by
      have : Text.Utf8.encode ['\n'] = [0x0A] := by decide
      rw [Text.Utf8.encode_append _ ['\n'], this, List.append_assoc]
    rw [hencode, load, load, hencode', hfeed, hplain]

/-- A last line that is not UTF-8 is not read, with or without a line feed. -/
theorem endJoint?_of_not_text {front last : List UInt8} (hfront : EndsLine front) (hfeed : 0x0A ∉ last)
    (hlast : ∀ s, Text.Utf8.decode last ≠ .ok s) : endJoint? (front ++ last) = none := by
  cases hj : endJoint? (front ++ last) with
  | none => rfl
  | some j =>
    obtain ⟨s, hs⟩ := exists_text_of_endJoint? hj
    have hne : last ≠ [] := by
      rintro rfl
      exact hlast [] Text.Utf8.decode_nil
    have hmem : last ∈ splitLines (Text.Utf8.encode s) := by
      rw [hs, splitLines_append hfront, splitLines_of_not_mem hfeed hne]
      simp
    obtain ⟨t, ht⟩ := exists_text_of_mem_splitLines hmem
    exact absurd (Text.Utf8.decode_eq_ok_iff.mpr ht) (hlast t)

end Dotenv

namespace World

open Dotenv

/-- Reading the settings does the same in both worlds: the environment and the settings behind it are the same, and so
is the answer. -/
structure ReadAlike (w v : World) : Prop where
  environment : v.configure.1.environment = w.configure.1.environment
  settings : v.configure.1.settings = w.configure.1.settings
  answer : v.configure.2 = w.configure.2

theorem ReadAlike.of_load {w v : World} {file file' : List UInt8} (hw : w.Finds file) (hv : v.Finds file')
    (henv : v.environment = w.environment) (hs : v.settings = w.settings)
    (h : load w.environment file' = load w.environment file) : ReadAlike w v := by
  have hconfigure := configure_of_finds hv
  rw [henv, h] at hconfigure
  constructor
  all_goals rw [hconfigure, configure_of_finds hw]
  all_goals
    cases load w.environment file with
    | mk env outcome => cases outcome <;> simp [loaded, hs]

/-- A file whose last line has no line feed, and the same file with one. Reading the settings does the same, unless the
joining of lines stands behind white space or a backslash at the end of the file. There the file is some complete logical
lines and one more, which the line feed would end: without it the file acts like the complete lines alone, and what the
last one says is lost, which makes no difference only if it is malformed. With an open quote, a comment, a carriage
return or a line that is not UTF-8 at its end the file is none of the exceptions. A comment is what the joining of lines
takes for one; a number sign that it reads like any other character, behind an even number of spaces, begins none. -/
theorem configure_lastLine {w v : World} {file : List UInt8} (hw : w.Finds file) (hv : v.Finds (file ++ [0x0A]))
    (henv : v.environment = w.environment) (hs : v.settings = w.settings) (hlast : file.getLast? ≠ some 0x0A) :
    (endJoint? file ≠ some .blank → endJoint? file ≠ some .escape → w.ReadAlike v) ∧
    (endJoint? file = some .blank ∨ endJoint? file = some .escape →
      ∃ front line, file = front ++ Text.Utf8.encode line ∧ line ≠ [] ∧ Leads front ∧
        logicalLines (file ++ [0x0A]) = logicalLines front ++ [.line line] ∧
        (∀ u : World, u.Finds front → u.environment = w.environment → u.settings = w.settings → w.ReadAlike u) ∧
        (Malformed line → w.ReadAlike v)) ∧
    (∀ joint, endJoint? file = some joint → joint.inQuotes = true → w.ReadAlike v) ∧
    (∀ front comment, file = front ++ Text.Utf8.encode ('#' :: comment) → '\n' ∉ comment → OpensComment front →
      w.ReadAlike v) ∧
    (file.getLast? = some 0x0D → w.ReadAlike v) ∧
    ∀ front last, file = front ++ last → EndsLine front → 0x0A ∉ last → (∀ s, Text.Utf8.decode last ≠ .ok s) →
      w.ReadAlike v := by
  have halike (h : load w.environment (file ++ [0x0A]) = load w.environment file) : w.ReadAlike v :=
    .of_load hw hv henv hs h
  have hclosed (hblank : endJoint? file ≠ some .blank) (hescape : endJoint? file ≠ some .escape) : w.ReadAlike v :=
    halike (load_feed hlast hblank hescape w.environment)
  -- a joint at the end that no exception has
  have hinner (h : ∀ j, endJoint? file = some j → j = .complete ∨ j.inQuotes = true) : w.ReadAlike v := by
    refine hclosed (fun hj => ?_) fun hj => ?_
    · rcases h _ hj with h | h <;> cases h
    · rcases h _ hj with h | h <;> cases h
  refine ⟨hclosed, fun hopen => ?_, fun joint hj hquotes => ?_, ?_, fun hreturn => ?_, ?_⟩
  · obtain ⟨front, line, hfile, hne, hfront, hplain, hfeed⟩ := exists_lost hlast hopen
    refine ⟨front, line, hfile, hne, hfront, hfeed, fun u hu hue hus => .of_load hw hu hue hus ?_, fun hbad => halike ?_⟩
    · rw [load, load, hplain, run_broken (.inl rfl)]
    · rw [load, load, hplain, hfeed, run_broken (.inl rfl), run_broken (.inr ⟨line, rfl, hbad⟩)]
  · refine hinner fun j h => .inr ?_
    obtain rfl : joint = j := Option.some.inj (hj.symm.trans h)
    exact hquotes
  · rintro front comment rfl hcomment hopens
    exact halike (load_feed_comment hcomment hopens w.environment)
  · exact hinner fun j => joint_of_return hreturn
  · rintro front last rfl hfront hfeed hbad
    refine hinner fun j hj => ?_
    rw [endJoint?_of_not_text hfront hfeed hbad] at hj
    cases hj

/-- A space at the end of the file loses the location of the store. A quote, a comment, a carriage return or a wrong octet
there loses nothing that a line feed would have kept. -/
theorem configure_lastLine_lost :
    (∃ w v u : World, w.Finds (Text.Utf8.ofString "A=1\nFASTN_DB_URL=x ") ∧
      v.Finds (Text.Utf8.ofString "A=1\nFASTN_DB_URL=x " ++ [0x0A]) ∧ u.Finds (Text.Utf8.ofString "A=1\n") ∧
      w.ReadAlike u ∧ w.configure.1.settings.databaseUrl = none ∧ v.configure.1.settings.databaseUrl = some "x") ∧
    (holding .empty (Text.Utf8.ofString "B='x")).ReadAlike (holding .empty (Text.Utf8.ofString "B='x" ++ [0x0A])) ∧
    (holding .empty (Text.Utf8.ofString "A=1 # it's \\")).ReadAlike
      (holding .empty (Text.Utf8.ofString "A=1 # it's \\" ++ [0x0A])) ∧
    (holding .empty (Text.Utf8.ofString "A=1\r")).ReadAlike (holding .empty (Text.Utf8.ofString "A=1\r" ++ [0x0A])) ∧
    (holding .empty [0x41, 0x3D, 0xFF]).ReadAlike (holding .empty ([0x41, 0x3D, 0xFF] ++ [0x0A])) := by
  refine ⟨?_, ?_, ?_, ?_, ?_⟩
  · let w := holding .empty (Text.Utf8.ofString "A=1\nFASTN_DB_URL=x ")
    let v := holding .empty (Text.Utf8.ofString "A=1\nFASTN_DB_URL=x " ++ [0x0A])
    let u := holding .empty (Text.Utf8.ofString "A=1\n")
    have hw : w.Finds _ := finds_holding _ _
    have hv : v.Finds _ := finds_holding _ _
    have hu : u.Finds _ := finds_holding _ _
    obtain ⟨front, line, hfile, -, -, hlines, halike, -⟩ :=
      (configure_lastLine hw hv rfl rfl (by decide)).2.1 (.inl (by decide +kernel))
    have hboth : logicalLines (Text.Utf8.ofString "A=1\nFASTN_DB_URL=x " ++ [0x0A]) =
        [.line "A=1".toList] ++ [.line "FASTN_DB_URL=x ".toList] := by decide +kernel
    obtain ⟨-, hline⟩ := List.append_inj' (hlines.symm.trans hboth) rfl
    obtain rfl : line = "FASTN_DB_URL=x ".toList := by simpa using hline
    have hsplit : Text.Utf8.ofString "A=1\nFASTN_DB_URL=x " =
        Text.Utf8.ofString "A=1\n" ++ Text.Utf8.encode "FASTN_DB_URL=x ".toList := by decide
    obtain rfl : Text.Utf8.ofString "A=1\n" = front := List.append_cancel_right (hsplit.symm.trans hfile)
    exact ⟨w, v, u, hw, hv, hu, halike u hu rfl rfl, by decide +kernel, by decide +kernel⟩
  · exact (configure_lastLine (finds_holding _ _) (finds_holding _ _) rfl rfl (by decide)).2.2.1 .strong
      (by decide +kernel) rfl
  · exact (configure_lastLine (finds_holding _ _) (finds_holding _ _) rfl rfl (by decide)).2.2.2.1
      (Text.Utf8.ofString "A=1 ") " it's \\".toList (by decide +kernel) (by decide) (.inl (by decide +kernel))
  · exact (configure_lastLine (finds_holding _ _) (finds_holding _ _) rfl rfl (by decide)).2.2.2.2.1 (by decide)
  · refine (configure_lastLine (finds_holding _ _) (finds_holding _ _) rfl rfl (by decide)).2.2.2.2.2 [] _ rfl
      (.inl rfl) (by decide) fun s h => ?_
    have hbad : (Text.Utf8.decode [0x41, 0x3D, 0xFF]).toOption = none := by decide +kernel
    rw [h] at hbad
    cases hbad

end World
end FirstRow
