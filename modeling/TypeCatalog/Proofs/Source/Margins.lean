import Mathlib.Data.List.Basic
import TypeCatalog.Proofs.Path
import TypeCatalog.Source.Unit

/-! # Margins of documentation

    A documentation comment is written with a star before each line and any blanks before the star.
    What is kept of it are the lines as they are: blanks at the front of a line, empty lines and
    lines that start with a star themselves. Only blanks before the first line, blanks at the end of
    a line and empty lines at the end are lost, so texts that have none of these come back. -/

set_option autoImplicit false

namespace TypeCatalog

/-! ## Section 1: Blanks and segments -/

namespace Text

section blanks

variable {blanks s : List Char} {c : Char}

theorem trimLeft_append (h : ∀ b ∈ blanks, isBlank b = true) (s : List Char) :
    trimLeft (blanks ++ s) = trimLeft s :=
  List.dropWhile_append_of_pos h

theorem trimLeft_eq_nil (h : ∀ b ∈ blanks, isBlank b = true) : trimLeft blanks = [] := by
  have happend := trimLeft_append h []
  rwa [List.append_nil] at happend

theorem trimLeft_cons (h : isBlank c = false) (s : List Char) : trimLeft (c :: s) = c :: s :=
  List.dropWhile_cons_of_neg (by simp [h])

theorem trimRight_append (s : List Char) (h : ∀ b ∈ blanks, isBlank b = true) :
    trimRight (s ++ blanks) = trimRight s := by
  have hreverse : ∀ b ∈ blanks.reverse, isBlank b = true := by
    intro b hb
    exact h b (List.mem_reverse.1 hb)
  rw [trimRight, List.reverse_append, List.dropWhile_append_of_pos hreverse, ← trimRight]

theorem trimRight_concat (h : isBlank c = false) (s : List Char) :
    trimRight (s ++ [c]) = s ++ [c] := by
  rw [trimRight, List.reverse_append, List.reverse_singleton, List.singleton_append,
    List.dropWhile_cons_of_neg (by simp [h]), ← List.reverse_concat, List.reverse_reverse]

theorem trimRight_eq_self (h : ∀ b ∈ s.getLast?, isBlank b = false) : trimRight s = s := by
  rcases List.eq_nil_or_concat' s with rfl | ⟨front, last, rfl⟩
  · rfl
  · exact trimRight_concat (h last List.getLast?_concat) front

/-- Blanks on either side of a text are trimmed, and nothing more if it neither starts nor ends with
    a blank. -/
theorem trim_between {before after : List Char} (hbefore : ∀ b ∈ before, isBlank b = true)
    (hafter : ∀ b ∈ after, isBlank b = true) (hne : s ≠ [])
    (hfirst : ∀ b ∈ s.head?, isBlank b = false) (hlast : ∀ b ∈ s.getLast?, isBlank b = false) :
    trim (before ++ (s ++ after)) = s := by
  cases s with
  | nil => exact absurd rfl hne
  | cons c s =>
    have hc : isBlank c = false := hfirst c rfl
    rw [trim, trimLeft_append hbefore, List.cons_append, trimLeft_cons hc, ← List.cons_append,
      trimRight_append _ hafter, trimRight_eq_self hlast]

end blanks

section segments

variable {separator : Char}

/-- The first segment of a text ends at the first separator. -/
theorem segments_append_cons {a : List Char} (h : separator ∉ a) (b : List Char) :
    segments separator (a ++ separator :: b) = a :: segments separator b := by
  induction a with
  | nil => rw [List.nil_append, segments, if_pos rfl]
  | cons c a ih =>
    rw [List.mem_cons, not_or] at h
    rw [List.cons_append, segments, if_neg (Ne.symm h.1), ih h.2]

/-- The segments of texts that end with the separator, and of one without it after them. -/
theorem segments_flatMap {texts : List (List Char)} {last : List Char}
    (h : ∀ a ∈ texts, separator ∉ a) (hlast : separator ∉ last) :
    segments separator (texts.flatMap (· ++ [separator]) ++ last) = texts ++ [last] := by
  induction texts with
  | nil => exact segments_of_notMem hlast
  | cons a texts ih =>
    have hothers : ∀ b ∈ texts, separator ∉ b := by
      intro b hb
      exact h b (List.mem_cons_of_mem a hb)
    have hsplit : (a :: texts).flatMap (· ++ [separator]) ++ last =
        a ++ separator :: (texts.flatMap (· ++ [separator]) ++ last) := by simp
    rw [hsplit, segments_append_cons (h a List.mem_cons_self), ih hothers, List.cons_append]

end segments

end Text

namespace Source

open Text

/-! ## Section 2: Comments with margins -/

/-- A line of documentation with the margin that it is written with. -/
structure MarginLine where
  /-- What stands before the star. -/
  margin : String
  /-- What stands after the star and a blank. -/
  text : String

/-- The line as it is written, with the line break after it. -/
def MarginLine.written (line : MarginLine) : String := line.margin ++ "* " ++ line.text ++ "\n"

/-- A documentation comment with these lines and a margin before its end. -/
def writtenComment (lines : List MarginLine) (margin : String) : String :=
  "/**\n" ++ String.join (lines.map MarginLine.written) ++ margin ++ "*/"

/-- Any blanks but line breaks. -/
structure IsMargin (margin : String) : Prop where
  blank : ∀ c ∈ margin.toList, isBlank c = true
  unbroken : '\n' ∉ margin.toList

/-- A line with a margin. It may be empty, but it does not end with a blank. -/
structure MarginLine.IsLine (line : MarginLine) : Prop where
  margin : IsMargin line.margin
  unbroken : '\n' ∉ line.text.toList
  ends : ∀ c ∈ line.text.toList.getLast?, isBlank c = false

section comments

variable {line : MarginLine} {lines : List MarginLine} {margin : String}

/-- The marks of a comment are taken off. -/
theorem commentBody_marked (inside : List Char) :
    commentBody (['/', '*', '*'] ++ inside ++ ['*', '/']) = inside := by
  have hopening : ['/', '*', '*'].isPrefixOf (['/', '*', '*'] ++ (inside ++ ['*', '/'])) = true :=
    List.isPrefixOf_iff_prefix.2 (List.prefix_append _ _)
  have hclosing : ['*', '/'].isSuffixOf (inside ++ ['*', '/']) = true :=
    List.isSuffixOf_iff_suffix.2 (List.suffix_append _ _)
  unfold commentBody
  rw [List.append_assoc, if_pos hopening]
  show (if ['*', '/'].isSuffixOf (inside ++ ['*', '/']) then _ else _) = inside
  rw [if_pos hclosing]
  show (inside ++ ['*', '/']).dropLast.dropLast = inside
  rw [List.dropLast_append_of_ne_nil (by simp)]
  exact List.dropLast_concat

/-- The line of a text as it is written, without the line break. -/
def MarginLine.chars (line : MarginLine) : List Char :=
  line.margin.toList ++ '*' :: ' ' :: line.text.toList

theorem MarginLine.toList_written (line : MarginLine) :
    line.written.toList = line.chars ++ ['\n'] := by
  simp [written, chars]

theorem MarginLine.IsLine.notMem_chars (h : line.IsLine) : '\n' ∉ line.chars := by
  intro hmem
  rcases List.mem_append.1 hmem with hmargin | htext
  · exact h.margin.unbroken hmargin
  · simp only [List.mem_cons] at htext
    rcases htext with hstar | hblank | htext
    · cases hstar
    · cases hblank
    · exact h.unbroken htext

/-- The margin goes with its star and the blank after it, and nothing else does. -/
theorem MarginLine.IsLine.withoutMargin_chars (h : line.IsLine) :
    withoutMargin line.chars = line.text.toList := by
  have hstar : trimLeft line.chars = '*' :: ' ' :: line.text.toList :=
    (trimLeft_append h.margin.blank _).trans (trimLeft_cons (by decide) _)
  rw [withoutMargin, hstar]
  show trimRight line.text.toList = line.text.toList
  exact trimRight_eq_self h.ends

theorem IsMargin.withoutMargin_eq_nil (h : IsMargin margin) :
    withoutMargin margin.toList = [] := by
  rw [withoutMargin, trimLeft_eq_nil h.blank]
  rfl

/-- What stands between the marks: a line break, and the lines through the last margin. -/
theorem commentBody_writtenComment (lines : List MarginLine) (margin : String) :
    commentBody (writtenComment lines margin).toList =
      ([] :: lines.map MarginLine.chars).flatMap (· ++ ['\n']) ++ margin.toList := by
  have hlines : (String.join (lines.map MarginLine.written)).toList =
      (lines.map MarginLine.chars).flatMap (· ++ ['\n']) := by
    rw [String.toList_join, List.flatMap_map, List.flatMap_map]
    congr 1
    funext line
    exact line.toList_written
  have hcomment : (writtenComment lines margin).toList = ['/', '*', '*'] ++
      (([] :: lines.map MarginLine.chars).flatMap (· ++ ['\n']) ++ margin.toList) ++
        ['*', '/'] := by
    simp [writtenComment, hlines]
  rw [hcomment, commentBody_marked]

/-- Without the marks and the margins there are the lines, and an empty one on either side. -/
theorem map_withoutMargin (hlines : ∀ line ∈ lines, line.IsLine) (hmargin : IsMargin margin) :
    (segments '\n' (commentBody (writtenComment lines margin).toList)).map withoutMargin =
      [] :: (lines.map fun line => line.text.toList) ++ [[]] := by
  have hunbroken : ∀ a ∈ [] :: lines.map MarginLine.chars, '\n' ∉ a := by
    intro a ha
    rcases List.mem_cons.1 ha with rfl | ha
    · exact List.not_mem_nil
    · obtain ⟨line, hline, rfl⟩ := List.mem_map.1 ha
      exact (hlines line hline).notMem_chars
  have hkept : (lines.map MarginLine.chars).map withoutMargin =
      lines.map fun line => line.text.toList := by
    rw [List.map_map]
    apply List.map_congr_left
    intro line hline
    exact (hlines line hline).withoutMargin_chars
  rw [commentBody_writtenComment, segments_flatMap hunbroken hmargin.unbroken, List.map_append,
    List.map_cons, hkept, List.map_singleton, hmargin.withoutMargin_eq_nil]
  rfl

end comments

/-! ## Section 3: Lines put together -/

section lines

variable {text : List Char} {texts : List (List Char)}

/-- A line is put after others with a line break. -/
theorem intercalate_concat (hne : texts ≠ []) (last : List Char) :
    ['\n'].intercalate (texts ++ [last]) = ['\n'].intercalate texts ++ ['\n'] ++ last := by
  induction texts with
  | nil => exact absurd rfl hne
  | cons text texts ih =>
    cases texts with
    | nil =>
      rw [List.singleton_append, List.intercalate_cons_cons, List.intercalate_singleton,
        List.intercalate_singleton]
    | cons next texts =>
      have ih := ih (List.cons_ne_nil next texts)
      rw [List.cons_append] at ih
      rw [List.cons_append, List.cons_append, List.intercalate_cons_cons, ih,
        List.intercalate_cons_cons]
      simp only [List.append_assoc]

/-- Empty lines on either side are line breaks on either side. -/
theorem intercalate_between (hne : texts ≠ []) : ['\n'].intercalate ([] :: texts ++ [[]]) =
    ['\n'] ++ (['\n'].intercalate texts ++ ['\n']) := by
  rw [List.cons_append, List.intercalate_cons_of_ne_nil (by simp), intercalate_concat hne,
    List.append_nil, List.nil_append]

/-- The lines start as the first one does, if that is not empty. -/
theorem head?_intercalate (h : text ≠ []) (texts : List (List Char)) :
    (['\n'].intercalate (text :: texts)).head? = text.head? := by
  cases texts with
  | nil => rw [List.intercalate_singleton]
  | cons next texts =>
    rw [List.intercalate_cons_cons, List.append_assoc]
    exact List.head?_append_of_ne_nil _ h

/-- The lines end as the last one does, if that is not empty. -/
theorem getLast?_intercalate (h : text ≠ []) (texts : List (List Char)) :
    (['\n'].intercalate (texts ++ [text])).getLast? = text.getLast? := by
  cases texts with
  | nil => rw [List.nil_append, List.intercalate_singleton]
  | cons first texts =>
    rw [intercalate_concat (List.cons_ne_nil first texts)]
    exact List.getLast?_append_of_ne_nil _ h

end lines

/-- The lines of a documentation comment come back as they are, whatever their margins are: blanks
    at the front of them, empty ones between them and stars of their own stay. -/
theorem docsText_writtenComment {lines : List MarginLine} {margin : String}
    (hlines : ∀ line ∈ lines, line.IsLine) (hmargin : IsMargin margin)
    (hfirst : ∃ first ∈ lines.head?, ∃ c ∈ first.text.toList.head?, isBlank c = false)
    (hlast : ∀ last ∈ lines.getLast?, last.text ≠ "") :
    docsText (writtenComment lines margin) = "\n".intercalate (lines.map MarginLine.text) := by
  let texts := lines.map fun line => line.text.toList
  -- The lines together start and end with what is no blank, so only the line breaks on either side
  -- of them are trimmed.
  have hstart : ∃ c ∈ (['\n'].intercalate texts).head?, isBlank c = false := by
    obtain ⟨first, hhead, c, hc, hblank⟩ := hfirst
    obtain ⟨others, rfl⟩ := List.head?_eq_some_iff.1 hhead
    have hne : first.text.toList ≠ [] := by
      intro hnil
      rw [hnil] at hc
      cases hc
    refine ⟨c, ?_, hblank⟩
    exact (head?_intercalate hne _).trans hc
  have hend : ∀ c ∈ (['\n'].intercalate texts).getLast?, isBlank c = false := by
    rcases List.eq_nil_or_concat' lines with rfl | ⟨front, last, rfl⟩
    · intro c hc
      cases hc
    · have hne : last.text.toList ≠ [] := by
        intro hnil
        exact hlast last List.getLast?_concat (String.toList_eq_nil_iff.1 hnil)
      have htexts : texts = (front.map fun line => line.text.toList) ++ [last.text.toList] :=
        List.map_append
      intro c hc
      rw [htexts, getLast?_intercalate hne] at hc
      exact (hlines last (List.mem_append_right front (List.mem_singleton_self last))).ends c hc
  obtain ⟨c, hc, hblank⟩ := hstart
  have hne : ['\n'].intercalate texts ≠ [] := by
    intro hnil
    rw [hnil] at hc
    cases hc
  have htexts : texts ≠ [] := by
    intro hnil
    rw [hnil] at hne
    exact hne rfl
  have hbreak : ∀ b ∈ ['\n'], isBlank b = true := by simp [isBlank, blankRanges]
  have hfirst' : ∀ b ∈ (['\n'].intercalate texts).head?, isBlank b = false := by
    intro b hb
    rwa [Option.mem_unique hb hc]
  rw [docsText, map_withoutMargin hlines hmargin, intercalate_between htexts,
    trim_between hbreak hbreak hne hfirst' hend]
  apply String.toList_inj.1
  rw [String.toList_ofList, String.toList_intercalate, List.map_map]
  rfl

-- Margins of blanks, tabs and nothing; an empty line, and one with a star after blanks.
theorem docsText_writtenComment_list :
    docsText (writtenComment
        [⟨" ", "Either of"⟩, ⟨"\t ", ""⟩, ⟨"", "  * this"⟩, ⟨"\u3000", "* or that."⟩] " ") =
      "Either of\n\n  * this\n* or that." := by
  have hmargin (margin : String) (hblank : ∀ c ∈ margin.toList, isBlank c = true)
      (hunbroken : '\n' ∉ margin.toList) : IsMargin margin := ⟨hblank, hunbroken⟩
  have hend : IsMargin " " := hmargin _ (by simp [isBlank, blankRanges]) (by decide)
  refine docsText_writtenComment ?_ hend ⟨_, rfl, 'E', rfl, by decide⟩ (by decide)
  intro line hline
  simp only [List.mem_cons, List.not_mem_nil, or_false] at hline
  rcases hline with rfl | rfl | rfl | rfl
  all_goals
    refine ⟨hmargin _ ?_ (by decide), by decide, ?_⟩
    · simp [isBlank, blankRanges]
    · simp [isBlank, blankRanges]

end Source

end TypeCatalog
