import FirstRow.Dotenv.LogicalLine
import FirstRow.Proofs.Text.Utf8

/-!
# Files in a row

A file is complete if it is UTF-8, ends with a line feed or is empty, and leaves no quote open. Then the joining of
its lines ends where it began, and whatever file follows is cut into the logical lines that it has on its own.
`endJoint?` is the joint at the end of a file, and the invariant that carries the proof is that outside quotes a line
feed always leads back to `Joint.complete`.

The characters of logical lines all stand in the file: a file without a NUL has no line with one.
-/
namespace FirstRow.Dotenv

/-! ## Physical lines -/

/-- Behind these octets a physical line begins. -/
def EndsLine (bs : List UInt8) : Prop :=
  bs = [] ∨ bs.getLast? = some 0x0A

theorem EndsLine.tail {b : UInt8} {bs : List UInt8} (h : EndsLine (b :: bs)) : EndsLine bs := by
  rcases h with h | h
  · cases h
  · cases bs with
    | nil => exact .inl rfl
    | cons c rest => exact .inr (by simpa using h)

theorem EndsLine.ne_nil {b : UInt8} {bs : List UInt8} (h : EndsLine (b :: bs)) (hb : b ≠ 0x0A) : bs ≠ [] := by
  rintro rfl
  rcases h with h | h
  · cases h
  · exact hb (by simpa using h)

theorem splitLines_eq_nil_iff {bs : List UInt8} : splitLines bs = [] ↔ bs = [] := by
  cases bs with
  | nil => simp [splitLines]
  | cons b rest =>
    unfold splitLines
    split
    · simp
    · split <;> simp

/-- Nothing is lost between physical lines. -/
theorem flatten_splitLines (bs : List UInt8) : (splitLines bs).flatten = bs := by
  induction bs with
  | nil => rfl
  | cons b rest ih =>
    unfold splitLines
    split
    · simp [ih]
    · split
      · next h => simp [splitLines_eq_nil_iff.mp h]
      · next h =>
        rw [h] at ih
        simpa using ih

theorem splitLines_append {a : List UInt8} (h : EndsLine a) (b : List UInt8) :
    splitLines (a ++ b) = splitLines a ++ splitLines b := by
  induction a with
  | nil => rfl
  | cons x rest ih =>
    have ih := ih h.tail
    by_cases hx : x = 0x0A
    · simp [splitLines, hx, ih]
    · cases hs : splitLines rest with
      | nil => exact absurd (splitLines_eq_nil_iff.mp hs) (h.ne_nil hx)
      | cons line lines =>
        rw [hs] at ih
        simp [splitLines, hx, ih, hs]

/-- Each physical line of such octets has its line feed. -/
theorem getLast?_of_mem_splitLines {bs line : List UInt8} (h : EndsLine bs) (hline : line ∈ splitLines bs) :
    line.getLast? = some 0x0A := by
  induction bs generalizing line with
  | nil => cases hline
  | cons b rest ih =>
    by_cases hb : b = 0x0A
    · simp only [splitLines, hb, if_true, List.mem_cons] at hline
      rcases hline with rfl | hline
      · rfl
      · exact ih h.tail hline
    · cases hs : splitLines rest with
      | nil => exact absurd (splitLines_eq_nil_iff.mp hs) (h.ne_nil hb)
      | cons first lines =>
        simp only [splitLines, hb, if_false, hs, List.mem_cons] at hline
        rw [hs] at ih
        rcases hline with rfl | hline
        · have hf : first.getLast? = some 0x0A := ih h.tail (by simp)
          cases first with
          | nil => cases hf
          | cons c t => simpa using hf
        · exact ih h.tail (by simp [hline])

/-- Octets without a line feed join the line that follows them. -/
theorem splitLines_append_of_not_mem {p : List UInt8} (hp : 0x0A ∉ p) (hne : p ≠ []) (rest : List UInt8) :
    splitLines (p ++ rest) = (p ++ (splitLines rest).headD []) :: (splitLines rest).tail := by
  induction p with
  | nil => exact absurd rfl hne
  | cons x q ih =>
    simp only [List.mem_cons, not_or] at hp
    have hx : x ≠ 0x0A := Ne.symm hp.1
    by_cases hq : q = []
    · subst hq
      cases hs : splitLines rest <;> simp [splitLines, hx, hs]
    · simp [splitLines, hx, ih hp.2 hq]

theorem mem_splitLines_append {p rest line : List UInt8} (hp : 0x0A ∉ p) (hne : p ≠ [])
    (h : line ∈ splitLines (p ++ rest)) : line ∈ splitLines rest ∨ ∃ t ∈ [] :: splitLines rest, line = p ++ t := by
  rw [splitLines_append_of_not_mem hp hne] at h
  cases hs : splitLines rest with
  | nil => exact .inr ⟨[], by simp, by simpa [hs] using h⟩
  | cons first lines =>
    rw [hs] at h
    rcases List.mem_cons.mp h with rfl | h
    · exact .inr ⟨first, by simp, rfl⟩
    · exact .inl (List.mem_cons_of_mem _ h)

/-- The physical lines of a text are texts: a line feed is no part of another character. -/
theorem exists_text_of_mem_splitLines {s : List Char} {line : List UInt8}
    (h : line ∈ splitLines (Text.Utf8.encode s)) : ∃ t, Text.Utf8.encode t = line := by
  induction s generalizing line with
  | nil => cases h
  | cons c rest ih =>
    rw [Text.Utf8.encode_cons] at h
    by_cases hc : c = '\n'
    · subst hc
      have he : Text.Utf8.encodePoint ('\n' : Char).toNat = [0x0A] := by decide
      rw [he] at h
      simp only [List.singleton_append, splitLines, if_true, List.mem_cons] at h
      rcases h with rfl | h
      · exact ⟨['\n'], by decide⟩
      · exact ih h
    · have hp : (0x0A : UInt8) ∉ Text.Utf8.encodePoint c.toNat := by
        rw [Text.Utf8.mem_encodePoint_iff (by decide)]
        exact fun h => hc (Char.toNat_inj.mp h)
      rcases mem_splitLines_append hp (Text.Utf8.encodePoint_ne_nil _) h with h | ⟨t, ht, rfl⟩
      · exact ih h
      · rcases List.mem_cons.mp ht with rfl | ht
        · exact ⟨[c], by simp⟩
        · obtain ⟨u, rfl⟩ := ih ht
          exact ⟨c :: u, Text.Utf8.encode_cons c u⟩

theorem physicalLines_append {a : List UInt8} (h : EndsLine a) (b : List UInt8) :
    physicalLines (a ++ b) = physicalLines a ++ physicalLines b := by
  simp [physicalLines, splitLines_append h]

/-! ## The byte-order mark -/

theorem EndsLine.dropMark {bs : List UInt8} (h : EndsLine bs) : EndsLine (dropMark bs) := by
  unfold Dotenv.dropMark
  split
  · match bs, h with
    | [], _ => exact .inl rfl
    | [_], h => exact .inl rfl
    | [_, _], h => exact .inl rfl
    | _ :: _ :: _ :: _, h => exact h.tail.tail.tail
  · exact h

/-- A mark stands in the first three octets. -/
theorem dropMark_append_of_length {a : List UInt8} (h : 3 ≤ a.length) (b : List UInt8) :
    dropMark (a ++ b) = dropMark a ++ b := by
  match a, h with
  | x :: y :: z :: rest, _ =>
    by_cases hm : x = 0xEF ∧ y = 0xBB ∧ z = 0xBF
    · obtain ⟨rfl, rfl, rfl⟩ := hm
      simp [dropMark, byteOrderMark]
    · have hm' : ∀ t : List UInt8, byteOrderMark.isPrefixOf (x :: y :: z :: t) = false := by
        intro t
        simp only [byteOrderMark, List.isPrefixOf, Bool.and_true, Bool.and_eq_false_iff, beq_eq_false_iff_ne]
        grind
      simp [dropMark, hm']

/-- A mark at the start of two files stands in the first of them. -/
theorem dropMark_append {a : List UInt8} (hne : a ≠ []) (h : EndsLine a) (b : List UInt8) :
    dropMark (a ++ b) = dropMark a ++ b := by
  match a, hne, h with
  | [x], _, h =>
    have hx : x = 0x0A := by simpa [EndsLine] using h
    simp [dropMark, byteOrderMark, hx]
  | [x, y], _, h =>
    have hy : y = 0x0A := by simpa [EndsLine] using h
    simp [dropMark, byteOrderMark, hy]
  | x :: y :: z :: rest, _, _ => exact dropMark_append_of_length (by simp) b

/-- What stands behind the mark of a text is a text. -/
theorem exists_text_dropMark (s : List Char) : ∃ t, Text.Utf8.encode t = dropMark (Text.Utf8.encode s) := by
  unfold dropMark
  split
  · next h =>
    obtain ⟨rest, hrest⟩ := List.isPrefixOf_iff_prefix.mp h
    have hm : byteOrderMark = Text.Utf8.encodePoint (Char.ofNat 0xFEFF).toNat := by decide
    have hs : Text.Utf8.decode (byteOrderMark ++ rest) = .ok s := by
      rw [hrest, Text.Utf8.decode_encode]
    rw [Text.Utf8.decode, hm, Text.Utf8.decodeFrom_encodePoint] at hs
    cases ht : Text.Utf8.decodeFrom (0 + (Text.Utf8.encodePoint (Char.ofNat 0xFEFF).toNat).length) rest with
    | error e =>
      rw [ht] at hs
      cases hs
    | ok t =>
      refine ⟨t, ?_⟩
      rw [Text.Utf8.encode_of_decodeFrom ht, ← hrest]
      rfl
  · exact ⟨s, rfl⟩

/-! ## Joints -/

/-- Whether a quote is open. -/
def Joint.inQuotes : Joint → Bool
  | .weak | .weakEscape | .strong | .strongEscape => true
  | .complete | .blank | .escape => false

/-- Outside quotes, a character of a line end leads back to the beginning. -/
theorem Joint.scan_lineEnd {j j' : Joint} {s : List Char} {e : Char} (he : e = '\n' ∨ e = '\r')
    (hs : s.getLast? = some e) (h : (j.scan s).2 = some j') : j' = .complete ∨ j'.inQuotes = true := by
  induction s generalizing j with
  | nil => cases hs
  | cons c rest ih =>
    unfold Joint.scan at h
    cases hstep : j.step c with
    | none => simp [hstep] at h
    | some j₁ =>
      simp only [hstep] at h
      cases rest with
      | nil =>
        obtain rfl : c = e := by simpa using hs
        obtain rfl : j₁ = j' := by simpa [Joint.scan] using h
        rcases he with rfl | rfl <;> cases j <;> simp_all [Joint.step, Joint.opened, Joint.isGap] <;> subst hstep <;>
          simp [Joint.inQuotes]
      | cons d t => exact ih (by simpa using hs) h

/-- The joint behind physical lines; `none` if one of them is not UTF-8. -/
def joinEnd (buffer : List Char) (joint : Joint) : List (Option (List Char)) → Option Joint
  | [] => some joint
  | none :: _ => none
  | some line :: rest =>
    if isComment (buffer ++ line) then joinEnd [] .complete rest
    else match joint.scan line with
      | (_, none) => joinEnd [] .complete rest
      | (_, some .complete) => joinEnd [] .complete rest
      | (_, some joint) => joinEnd (buffer ++ line) joint rest

/-- The joint at the end of a file; `none` if the file is not UTF-8. -/
def endJoint? (file : List UInt8) : Option Joint :=
  joinEnd [] .complete (physicalLines (dropMark file))

theorem mem_of_mem_scan {j : Joint} {s : List Char} {c : Char} (h : c ∈ (j.scan s).1) : c ∈ s := by
  induction s generalizing j with
  | nil => cases h
  | cons d rest ih =>
    unfold Joint.scan at h
    cases hstep : j.step d with
    | none => simp [hstep] at h
    | some j' =>
      simp only [hstep, List.mem_cons] at h
      rcases h with rfl | h
      · exact List.mem_cons_self
      · exact List.mem_cons_of_mem _ (ih h)

theorem mem_of_mem_dropLineEnd {s : List Char} {c : Char} (h : c ∈ dropLineEnd s) : c ∈ s := by
  unfold dropLineEnd at h
  split at h
  · next rest hs =>
    rw [← List.mem_reverse, hs]
    simp_all
  · next rest _ hs =>
    rw [← List.mem_reverse, hs]
    simp_all
  · exact h

/-- What one physical line does: it ends a logical line, whose characters all stand in it or in the buffer, or leaves
one open. -/
theorem join_cases (buffer : List Char) (joint : Joint) (line : List Char) :
    (∃ text, (∀ c ∈ text, c ∈ buffer ++ line) ∧ ∀ rest,
      join buffer joint (some line :: rest) = .line text :: join [] .complete rest ∧
        joinEnd buffer joint (some line :: rest) = joinEnd [] .complete rest) ∨
    ∃ j, j ≠ .complete ∧ (joint.scan line).2 = some j ∧ ∀ rest,
      join buffer joint (some line :: rest) = join (buffer ++ line) j rest ∧
        joinEnd buffer joint (some line :: rest) = joinEnd (buffer ++ line) j rest := by
  by_cases hc : isComment (buffer ++ line) = true
  · exact .inl ⟨[], by simp, fun rest => by simp [join, joinEnd, hc]⟩
  · cases hs : joint.scan line with
    | mk kept last =>
      have hkept : ∀ c ∈ buffer ++ kept, c ∈ buffer ++ line := by
        intro c h
        rcases List.mem_append.mp h with h | h
        · exact List.mem_append_left _ h
        · exact List.mem_append_right _ (mem_of_mem_scan (by rw [hs]; exact h))
      rcases last with _ | last
      · exact .inl ⟨buffer ++ kept, hkept, fun rest => by simp [join, joinEnd, hc, hs]⟩
      · by_cases hl : last = .complete
        · subst hl
          exact .inl ⟨dropLineEnd (buffer ++ line), fun c => mem_of_mem_dropLineEnd,
            fun rest => by simp [join, joinEnd, hc, hs]⟩
        · refine .inr ⟨last, hl, rfl, fun rest => ?_⟩
          cases last <;> first | exact absurd rfl hl | simp [join, joinEnd, hc, hs]

/-- Lines in front of which nothing is open, and behind which nothing is, make up logical lines of their own. Only an
open logical line has a buffer. -/
theorem join_append {buffer : List Char} {joint : Joint} {lines : List (Option (List Char))}
    (hb : joint = .complete → buffer = []) (h : joinEnd buffer joint lines = some .complete)
    (rest : List (Option (List Char))) :
    join buffer joint (lines ++ rest) = join buffer joint lines ++ join [] .complete rest := by
  induction lines generalizing buffer joint with
  | nil =>
    obtain rfl : joint = .complete := by simpa [joinEnd] using h
    simp [hb rfl, join]
  | cons line lines ih =>
    cases line with
    | none => cases h
    | some line =>
      rw [List.cons_append]
      rcases join_cases buffer joint line with ⟨text, -, hstep⟩ | ⟨j, hj, -, hstep⟩
      · rw [(hstep _).2] at h
        rw [(hstep _).1, (hstep _).1, ih (fun _ => rfl) h, List.cons_append]
      · rw [(hstep _).2] at h
        rw [(hstep _).1, (hstep _).1, ih (fun e => absurd e hj) h]

/-- No line of a file that ends in order is broken. -/
theorem broken_not_mem_join {buffer : List Char} {joint : Joint} {lines : List (Option (List Char))}
    (h : joinEnd buffer joint lines = some .complete) : .broken ∉ join buffer joint lines := by
  induction lines generalizing buffer joint with
  | nil =>
    obtain rfl : joint = .complete := by simpa [joinEnd] using h
    simp [join]
  | cons line lines ih =>
    cases line with
    | none => cases h
    | some line =>
      rcases join_cases buffer joint line with ⟨text, -, hstep⟩ | ⟨j, -, -, hstep⟩
      · rw [(hstep _).2] at h
        rw [(hstep _).1]
        simp [ih h]
      · rw [(hstep _).2] at h
        rw [(hstep _).1]
        exact ih h

/-- Behind lines that have their line feed, either nothing is open or a quote is. -/
theorem exists_joinEnd (buffer : List Char) {joint : Joint} {lines : List (Option (List Char))}
    (hlines : ∀ line ∈ lines, ∃ t, line = some t ∧ t.getLast? = some '\n')
    (hj : joint = .complete ∨ joint.inQuotes = true) :
    ∃ j, joinEnd buffer joint lines = some j ∧ (j = .complete ∨ j.inQuotes = true) := by
  induction lines generalizing buffer joint with
  | nil => exact ⟨joint, rfl, hj⟩
  | cons line lines ih =>
    obtain ⟨t, rfl, ht⟩ := hlines line (by simp)
    have hrest : ∀ line ∈ lines, ∃ t, line = some t ∧ t.getLast? = some '\n' := fun l hl => hlines l (by simp [hl])
    rcases join_cases buffer joint t with ⟨text, -, hstep⟩ | ⟨j, -, hs, hstep⟩
    · rw [(hstep _).2]
      exact ih [] hrest (.inl rfl)
    · rw [(hstep _).2]
      exact ih (buffer ++ t) hrest (Joint.scan_lineEnd (.inl rfl) ht hs)

/-- The characters of a logical line come from the buffer and from the physical lines. -/
theorem mem_of_mem_join {buffer : List Char} {joint : Joint} {lines : List (Option (List Char))} {text : List Char}
    {c : Char} (h : .line text ∈ join buffer joint lines) (hc : c ∈ text) :
    c ∈ buffer ∨ ∃ line, some line ∈ lines ∧ c ∈ line := by
  induction lines generalizing buffer joint with
  | nil =>
    unfold join at h
    split at h <;> simp at h
  | cons line lines ih =>
    cases line with
    | none => simp [join] at h
    | some line =>
      have hnext : (∃ l, some l ∈ lines ∧ c ∈ l) → c ∈ buffer ∨ ∃ l, some l ∈ some line :: lines ∧ c ∈ l :=
        fun ⟨l, hl, hcl⟩ => .inr ⟨l, List.mem_cons_of_mem _ hl, hcl⟩
      have hhere : c ∈ buffer ++ line → c ∈ buffer ∨ ∃ l, some l ∈ some line :: lines ∧ c ∈ l := fun h =>
        (List.mem_append.mp h).imp_right fun h => ⟨line, List.mem_cons_self, h⟩
      rcases join_cases buffer joint line with ⟨t, ht, hstep⟩ | ⟨j, -, -, hstep⟩
      · rw [(hstep _).1, List.mem_cons, Logical.line.injEq] at h
        rcases h with rfl | h
        · exact hhere (ht c hc)
        · rcases ih h with h | h
          · cases h
          · exact hnext h
      · rw [(hstep _).1] at h
        rcases ih h with h | h
        · exact hhere h
        · exact hnext h

/-! ## Complete files -/

/-- A file that other files can follow. -/
structure Complete (file : List UInt8) : Prop where
  text : ∃ s, Text.Utf8.decode file = .ok s
  endsLine : EndsLine file
  closed : ∀ joint, endJoint? file = some joint → joint.inQuotes = false

namespace Complete
variable {file : List UInt8}

theorem endJoint_eq (h : Complete file) : endJoint? file = some .complete := by
  obtain ⟨s, hs⟩ := h.text
  obtain ⟨t, ht⟩ := exists_text_dropMark s
  rw [Text.Utf8.decode_eq_ok_iff.mp hs] at ht
  have hlines : ∀ line ∈ physicalLines (dropMark file), ∃ t, line = some t ∧ t.getLast? = some '\n' := by
    intro line hline
    obtain ⟨bs, hbs, rfl⟩ := List.mem_map.mp hline
    obtain ⟨u, rfl⟩ := exists_text_of_mem_splitLines (ht ▸ hbs)
    exact ⟨u, by simp [Except.toOption],
      Text.Utf8.getLast?_of_encode (by decide) rfl (getLast?_of_mem_splitLines h.endsLine.dropMark hbs)⟩
  obtain ⟨j, hj, hor⟩ := exists_joinEnd [] hlines (.inl rfl)
  rcases hor with rfl | hq
  · exact hj
  · rw [h.closed j hj] at hq
    cases hq

theorem broken_not_mem (h : Complete file) : .broken ∉ logicalLines file :=
  broken_not_mem_join h.endJoint_eq

/-- The lines behind a complete file are those of what follows it; there a mark at the start would count no more. -/
theorem logicalLines_append (h : Complete file) (hne : file ≠ []) (rest : List UInt8) :
    logicalLines (file ++ rest) = logicalLines file ++ join [] .complete (physicalLines rest) := by
  rw [logicalLines, dropMark_append hne h.endsLine, physicalLines_append h.endsLine.dropMark,
    join_append (fun _ => rfl) h.endJoint_eq]
  rfl

/-- Without a mark, what follows has the lines that it has on its own. -/
theorem logicalLines_append_unmarked (h : Complete file) {rest : List UInt8}
    (hm : byteOrderMark.isPrefixOf rest = false) :
    logicalLines (file ++ rest) = logicalLines file ++ logicalLines rest := by
  by_cases hne : file = []
  · subst hne
    rfl
  · have hd : dropMark rest = rest := by simp [dropMark, hm]
    rw [h.logicalLines_append hne, logicalLines, logicalLines, hd]

end Complete

/-- A line with a NUL stands in a file with a NUL. -/
theorem zero_mem_of_mem_logicalLines {file : List UInt8} {text : List Char} (h : .line text ∈ logicalLines file)
    (hc : '\x00' ∈ text) : 0 ∈ file := by
  rcases mem_of_mem_join h hc with h | ⟨line, hline, hc⟩
  · cases h
  · obtain ⟨bs, hbs, hd⟩ := List.mem_map.mp hline
    have hd : Text.Utf8.decode bs = .ok line := by
      cases hr : Text.Utf8.decode bs with
      | error e => simp [hr, Except.toOption] at hd
      | ok t => simpa [hr, Except.toOption] using hd
    have hz : 0 ∈ bs := by
      rw [← Text.Utf8.decode_eq_ok_iff.mp hd]
      exact Text.Utf8.zero_mem_encode.mpr hc
    have hz : 0 ∈ dropMark file := by
      rw [← flatten_splitLines (dropMark file)]
      exact List.mem_flatten.mpr ⟨bs, hbs, hz⟩
    unfold dropMark at hz
    split at hz
    · exact List.mem_of_mem_drop hz
    · exact hz

end FirstRow.Dotenv
