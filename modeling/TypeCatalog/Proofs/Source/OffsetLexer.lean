import TypeCatalog.Proofs.Source.Following
import TypeCatalog.Proofs.Source.Lexing
import TypeCatalog.Proofs.Source.Offsets

/-! # The lexer by offsets

    At each step of the lexer the offset stands between two characters, and the first byte after it
    tells which branch the lexer takes. So the lexer by offsets comes to the tokens of the lexer, or
    refuses the text for the same reason, and in either case it ends. The offsets of the tokens and
    of a refusal lie within the text. -/

set_option autoImplicit false

namespace TypeCatalog.Source

open Text.Utf8 (byte encode encodeChar size Tests)

namespace TextCursor

/-! ## Section 1: What a byte tells of a character -/

/-- No character past the first 128 is one of them. -/
theorem ne_of_le {c k : Char} (hc : 0x80 ≤ c.toNat) (hk : k.toNat < 0x80) : c ≠ k := by
  rintro rfl
  omega

theorem isDigit_of_le {c : Char} (hc : 0x80 ≤ c.toNat) : c.isDigit = false := by
  have hval : c.val.toNat = c.toNat := rfl
  simp [Char.isDigit, UInt32.le_iff_toNat_le]
  omega

theorem isAlpha_of_le {c : Char} (hc : 0x80 ≤ c.toNat) : c.isAlpha = false := by
  have hval : c.val.toNat = c.toNat := rfl
  delta Char.isAlpha Char.isUpper Char.isLower
  simp [UInt32.le_iff_toNat_le]
  omega

theorem size_comment {c : Char} (h : c.toNat < 0x80) (s : List Char) :
    size ('/' :: c :: s) = 2 + size s := by
  rw [Text.Utf8.size_cons_of_lt (by decide), Text.Utf8.size_cons_of_lt h, ← Nat.add_assoc]

theorem lt_of_isSpace {c : Char} (h : Source.isSpace c = true) : c.toNat < 0x80 := by
  refine Nat.lt_of_not_le fun hc => ?_
  simp [Source.isSpace, ne_of_le hc] at h

theorem lt_of_isQuote {c : Char} (h : c = '"' ∨ c = '\'') : c.toNat < 0x80 := by
  rcases h with rfl | rfl <;> decide

theorem lt_of_isDigit {c : Char} (h : c.isDigit = true) : c.toNat < 0x80 := by
  refine Nat.lt_of_not_le fun hc => ?_
  rw [isDigit_of_le hc] at h
  cases h

theorem lt_of_not_startsWord {c : Char} (h : ¬Source.startsWord c = true) : c.toNat < 0x80 := by
  refine Nat.lt_of_not_le fun hc => h ?_
  simp [Source.startsWord, hc]

theorem tests_isSpace : Tests isSpace Source.isSpace := by
  refine Text.Utf8.tests_of false (by decide +kernel) (by decide +kernel) fun c hc => ?_
  exact Bool.eq_false_iff.2 fun h => Nat.not_lt.2 hc (lt_of_isSpace h)

theorem tests_ne {k : Char} (hk : k.toNat < 0x80) : Tests (· != byte k) (· != k) := by
  intro c b hb
  rw [Bool.eq_iff_iff, bne_iff_ne, bne_iff_ne, ne_eq, ne_eq, Text.Utf8.eq_byte_iff hk hb]

theorem tests_isDigit : Tests isDigit Char.isDigit :=
  Text.Utf8.tests_of false (by decide +kernel) (by decide +kernel) fun _ hc => isDigit_of_le hc

theorem tests_startsWord : Tests startsWord Source.startsWord := by
  refine Text.Utf8.tests_of true (by decide +kernel) (by decide +kernel) ?_
  intro c hc
  simp [Source.startsWord, hc]

theorem tests_continuesWord : Tests continuesWord Source.continuesWord := by
  intro c b hb
  rw [continuesWord, Source.continuesWord, tests_startsWord c b hb, tests_isDigit c b hb]

theorem tests_continuesNumber : Tests continuesNumber Source.continuesNumber := by
  refine Text.Utf8.tests_of false (by decide +kernel) (by decide +kernel) ?_
  intro c hc
  simp [Source.continuesNumber, Char.isAlphanum, isAlpha_of_le hc, isDigit_of_le hc, ne_of_le hc]

/-- In front of a character stands the first of its bytes. -/
theorem exists_front {text before r : List Char} {c : Char} (htext : text = before ++ c :: r) :
    ∃ b ∈ encodeChar c, (encode text)[size before]? = some b := by
  obtain ⟨b, bs, hbs, hget, -⟩ := exists_bytes htext
  exact ⟨b, by simp [hbs], hget⟩

/-- The second character of a mark is told by the byte after the first one. -/
theorem next_iff {text before r : List Char} {c k : Char} (htext : text = before ++ c :: r)
    (hk : k.toNat < 0x80) {b : UInt8} (hb : b ∈ encodeChar c) :
    (b = byte '/' ∧ (encode text)[size before + 1]? = some (byte k)) ↔
      c = '/' ∧ ∃ r', r = k :: r' := by
  rw [Text.Utf8.eq_byte_iff (by decide) hb]
  refine and_congr_right fun hc => ?_
  subst hc
  have hsplit : text = (before ++ ['/']) ++ r := by simp [htext]
  have hoffset : size before + 1 = size (before ++ ['/']) := by
    rw [Text.Utf8.size_append]
    rfl
  rw [hoffset]
  cases r with
  | nil =>
    rw [getElem?_encode_of_le (by simp [hsplit])]
    simp
  | cons c' r =>
    obtain ⟨b', hb', hget⟩ := exists_front hsplit
    rw [hget, Option.some.injEq, Text.Utf8.eq_byte_iff hk hb']
    simp

/-! ## Section 2: Pieces and tokens -/

variable {text before r : List Char} {c : Char} {b : UInt8}

theorem result_scan_space (text : List Char) (hb : b ∈ encodeChar c)
    (hspace : Source.isSpace c = true) (i : Nat) :
    (scan i b).result text i = some (.ok (.blank, i + 1)) := by
  rw [scan, result_step (result_byteAt text _ _), tests_isSpace c b hb, if_pos hspace]
  rfl

theorem result_scan_line (htext : text = before ++ '/' :: '/' :: r) (hb : b ∈ encodeChar '/') :
    (scan (size before) b).result text (size before) =
      some (.ok (.blank, size before + 2 + size (r.takeWhile (· != '\n')))) := by
  have hnext := (next_iff htext (by decide) hb).2 ⟨rfl, r, rfl⟩
  have hspace : isSpace b = false := tests_isSpace '/' b hb
  have hskip := result_skipWhile (tests_ne (by decide : '\n'.toNat < 0x80)) before ('/' :: '/' :: r)
  have htake : ('/' :: '/' :: r).takeWhile (· != '\n') = '/' :: '/' :: r.takeWhile (· != '\n') :=
    rfl
  rw [htake, size_comment (by decide), ← Nat.add_assoc, ← htext] at hskip
  rw [scan, result_step (result_byteAt text _ _), hspace, if_neg (by decide), if_pos hnext,
    result_step hskip]
  rfl

/-- A block comment is more than its four marks in bytes if it is in characters. -/
theorem isDocComment_closed (inside : List Char) :
    isDocComment ('/' :: '*' :: (inside ++ ['*', '/'])) =
      Source.isDocComment ('/' :: '*' :: (inside ++ ['*', '/'])) := by
  cases inside with
  | nil => rfl
  | cons c inside =>
    have hpos := c.utf8Size_pos
    have hsize : 4 < size ('/' :: '*' :: (c :: inside ++ ['*', '/'])) := by
      rw [size_comment (by decide), List.cons_append, Text.Utf8.size_cons, Text.Utf8.size_append]
      have hmark : size ['*', '/'] = 2 := rfl
      omega
    have hlength : 4 < ('/' :: '*' :: (c :: inside ++ ['*', '/'])).length := by simp
    rw [isDocComment, Source.isDocComment, decide_eq_true hsize, decide_eq_true hlength]

theorem result_scan_comment (htext : text = before ++ '/' :: '*' :: r) (hb : b ∈ encodeChar '/') :
    (scan (size before) b).result text (size before) =
      some (match throughMark ['*', '/'] [] r with
        | some (taken, _) => .ok (
          if Source.isDocComment ('/' :: '*' :: taken)
            then .docs (String.ofList ('/' :: '*' :: taken)) else .blank,
          size before + 2 + size taken)
        | none => .error (.refused ⟨size before, .openComment⟩)) := by
  have hnext := (next_iff htext (by decide) hb).2 ⟨rfl, r, rfl⟩
  have hspace : isSpace b = false := tests_isSpace '/' b hb
  have hline := mt (next_iff htext (k := '/') (by decide) hb).1 (by simp)
  have hthrough := result_skipThrough ['/', '*'] ['*', '/'] .openComment htext
  rw [scan, result_step (result_byteAt text _ _), hspace, if_neg (by decide), if_neg hline,
    if_pos hnext]
  obtain ⟨hnone, -⟩ | ⟨inside, left, hr, hmark, -⟩ := throughMark_cases ['*', '/'] [] r
  · rw [hnone] at hthrough ⊢
    exact result_stop hthrough
  · rw [hmark] at hthrough ⊢
    have hwhole : text = before ++ (('/' :: '*' :: (inside ++ ['*', '/'])) ++ left) := by
      simp [htext, hr]
    have hslice := result_slice before ('/' :: '*' :: (inside ++ ['*', '/'])) left
    rw [← hwhole] at hslice
    refine (result_step hthrough).trans ((result_step (result_get text _)).trans
      ((result_step (hslice _)).trans ?_))
    rw [isDocComment_closed, result_pure, List.reverse_nil, List.nil_append, List.cons_append,
      List.cons_append, List.nil_append, size_comment (by decide), ← Nat.add_assoc]

theorem result_scan_token (htext : text = before ++ c :: r) (hb : b ∈ encodeChar c)
    (hspace : ¬Source.isSpace c = true) (hline : ∀ r', c = '/' → r = '/' :: r' → False)
    (hcomment : ∀ r', c = '/' → r = '*' :: r' → False) :
    (scan (size before) b).result text (size before) =
      (scanToken (size before) b >>= fun kind => pure (.token kind)).result text (size before) := by
  have hne : ∀ {k : Char}, k.toNat < 0x80 → (∀ r', c = '/' → r = k :: r' → False) →
      ¬(b = byte '/' ∧ (encode text)[size before + 1]? = some (byte k)) := by
    intro k hk hfalse h
    obtain ⟨hc, r', hr⟩ := (next_iff htext hk hb).1 h
    exact hfalse r' hc hr
  rw [scan, result_step (result_byteAt text _ _), tests_isSpace c b hb, if_neg hspace,
    if_neg (hne (by decide) hline), if_neg (hne (by decide) hcomment)]

theorem result_scanToken_block (htext : text = before ++ '"' :: '"' :: '"' :: r)
    (hb : b ∈ encodeChar '"') :
    (scanToken (size before) b).result text (size before) =
      some (match throughMark ['"', '"', '"'] [] r with
        | some (taken, _) => .ok (.literal, size before + 3 + size taken)
        | none => .error (.refused ⟨size before, .openTextBlock⟩)) := by
  have hquote := (Text.Utf8.eq_byte_iff (by decide) hb).2 rfl
  have hslice := result_sliceFrom before ('"' :: '"' :: '"' :: r) (size before)
  rw [← htext] at hslice
  have hthrough := result_skipThrough ['"', '"', '"'] ['"', '"', '"'] .openTextBlock htext
  have hskip : skipString.result text (size before) =
      (skipThrough 3 ['"', '"', '"'] .openTextBlock).result text (size before) := by
    rw [skipString, result_step (result_get text _), result_step hslice, if_pos (by simp)]
  rw [scanToken, if_pos hquote]
  cases hmark : throughMark ['"', '"', '"'] [] r with
  | none =>
    rw [hmark] at hthrough
    exact result_stop (hskip.trans hthrough)
  | some p =>
    rw [hmark] at hthrough
    have hsize : size (['"', '"', '"'] ++ p.1) = 3 + size p.1 := Text.Utf8.size_append ..
    refine (result_step (hskip.trans hthrough)).trans ?_
    rw [result_pure, hsize, ← Nat.add_assoc]

theorem result_scanToken_quoted (htext : text = before ++ c :: r) (hb : b ∈ encodeChar c)
    (hc : c = '"' ∨ c = '\'') (hblock : ∀ r', c = '"' → r = '"' :: '"' :: r' → False) :
    (scanToken (size before) b).result text (size before) =
      some (match throughQuote c [] r with
        | some (_, left) => .ok (.literal, size text - size left)
        | none => .error (.refused ⟨size before, .openLiteral⟩)) := by
  have hlt := lt_of_isQuote hc
  have hbyte := (Text.Utf8.eq_byte_iff hlt hb).2 rfl
  have hquoted := result_skipQuoted hlt htext
  have hskip : (scanToken (size before) b).result text (size before) =
      (skipQuoted (byte c) >>= fun _ => pure .literal).result text (size before) := by
    rcases hc with rfl | rfl
    · have hslice := result_sliceFrom before ('"' :: r) (size before)
      rw [← htext] at hslice
      have hstring : skipString.result text (size before) =
          (skipQuoted (byte '"')).result text (size before) := by
        rw [skipString, result_step (result_get text _), result_step hslice, if_neg]
        intro hprefix
        obtain ⟨r', hr⟩ := List.isPrefixOf_iff_prefix.1 hprefix
        exact hblock r' rfl (List.cons.inj hr).2.symm
      rw [scanToken, if_pos hbyte, result_bind, hstring, ← result_bind]
    · rw [scanToken, if_neg (by rw [hbyte]; decide), if_pos hbyte, hbyte]
  rw [hskip]
  cases hthrough : throughQuote c [] r with
  | none =>
    rw [hthrough] at hquoted
    exact result_stop hquoted
  | some p =>
    rw [hthrough] at hquoted
    exact result_step hquoted

/-- Neither quote starts a token that is tested for later. -/
theorem scanToken_of_not_quote (hb : b ∈ encodeChar c) (hc : ¬(c = '"' ∨ c = '\'')) (start : Nat) :
    scanToken start b =
      if Char.isDigit c then do
        skipWhile continuesNumber
        return .literal
      else if Source.startsWord c then do
        skipWhile continuesWord
        let word ← slice start (← get)
        return .word (String.ofList word)
      else do
        modify (· + 1)
        return .symbol (Char.ofNat b.toNat) := by
  rw [scanToken, if_neg, if_neg, tests_isDigit c b hb, tests_startsWord c b hb]
  · intro h
    exact hc (.inr ((Text.Utf8.eq_byte_iff (by decide) hb).1 h))
  · intro h
    exact hc (.inl ((Text.Utf8.eq_byte_iff (by decide) hb).1 h))

theorem result_scanToken_number (htext : text = before ++ c :: r) (hb : b ∈ encodeChar c)
    (hquote : ¬(c = '"' ∨ c = '\'')) (hdigit : c.isDigit = true) :
    (scanToken (size before) b).result text (size before) =
      some (.ok (.literal, size before + 1 + size (r.takeWhile Source.continuesNumber))) := by
  have hcontinues : Source.continuesNumber c = true := by
    simp [Source.continuesNumber, Char.isAlphanum, hdigit]
  have hskip := result_skipWhile tests_continuesNumber before (c :: r)
  rw [List.takeWhile_cons_of_pos hcontinues, Text.Utf8.size_cons_of_lt (lt_of_isDigit hdigit),
    ← Nat.add_assoc, ← htext] at hskip
  rw [scanToken_of_not_quote hb hquote, if_pos hdigit, result_step hskip]
  rfl

theorem result_scanToken_word (htext : text = before ++ c :: r) (hb : b ∈ encodeChar c)
    (hquote : ¬(c = '"' ∨ c = '\'')) (hdigit : ¬c.isDigit = true)
    (hword : Source.startsWord c = true) :
    (scanToken (size before) b).result text (size before) =
      some (.ok (.word (String.ofList (c :: r.takeWhile Source.continuesWord)),
        size before + size (c :: r.takeWhile Source.continuesWord))) := by
  have hcontinues : Source.continuesWord c = true := by simp [Source.continuesWord, hword]
  have hskip := result_skipWhile tests_continuesWord before (c :: r)
  have hslice := result_slice before (c :: r.takeWhile Source.continuesWord)
    (r.dropWhile Source.continuesWord)
  rw [List.cons_append, List.takeWhile_append_dropWhile, ← htext] at hslice
  rw [List.takeWhile_cons_of_pos hcontinues, ← htext] at hskip
  rw [scanToken_of_not_quote hb hquote, if_neg hdigit, if_pos hword, result_step hskip,
    result_step (result_get text _), result_step (hslice _)]
  rfl

theorem result_scanToken_symbol (text : List Char) (hb : b ∈ encodeChar c)
    (hquote : ¬(c = '"' ∨ c = '\'')) (hdigit : ¬c.isDigit = true)
    (hword : ¬Source.startsWord c = true) (i : Nat) :
    (scanToken i b).result text i = some (.ok (.symbol c, i + 1)) := by
  have hlt := lt_of_not_startsWord hword
  have hchar : Char.ofNat b.toNat = c := by
    rw [(Text.Utf8.eq_byte_iff hlt hb).2 rfl, byte, Text.Utf8.toNat_byte (by omega),
      Char.ofNat_toNat]
  rw [scanToken_of_not_quote hb hquote, if_neg hdigit, if_neg hword,
    result_step (result_modify _ text i), hchar]
  rfl

/-! ## Section 3: The lexer -/

/-- A run through a mark is what the search for the mark takes. -/
theorem map_through? (mark s : List Char) :
    (Run.through? mark s).map (fun run => (run.taken, run.left)) = throughMark mark [] s := by
  unfold Run.through?
  split
  · next h => exact h.symm
  · next h => exact h.symm

theorem map_throughQuote? (quote : Char) (s : List Char) :
    (Run.throughQuote? quote s).map (fun run => (run.taken, run.left)) =
      throughQuote quote [] s := by
  unfold Run.throughQuote?
  split
  · next h => exact h.symm
  · next h => exact h.symm

/-- What the cursor comes to where the lexer comes to `x`. -/
def lexed (text : List Char) (x : Except Error (List Token)) : Except Stop (List Lexeme × Nat) :=
  match x with
  | .ok ts => .ok (lexemes text ts, size text)
  | .error e => .error (.refused e)

theorem result_lexFrom_end (found : List Lexeme) (docs : Option String) {i : Nat}
    (hend : (encode text)[i]? = none) :
    (lexFrom found docs).result text i = some (.ok (found ++ [⟨none, i, none⟩], i)) := by
  refine Cursor.result_loop_done ?_
  dsimp only
  rw [result_step (result_get text i), result_step (result_byteAt text i i), hend]
  rfl

theorem result_lexFrom_scan (found : List Lexeme) (docs : Option String) {i : Nat}
    (hget : (encode text)[i]? = some b) :
    (lexFrom found docs).result text i = Cursor.result (do
      match ← scan i b with
      | .blank => lexFrom found docs
      | .docs comment => lexFrom found (some comment)
      | .token kind => lexFrom (found ++ [⟨some kind, i, docs⟩]) none) text i := by
  conv => lhs; rw [lexFrom, Cursor.loop_eq]
  dsimp only
  rw [bind_assoc, result_step (result_get text i), bind_assoc,
    result_step (result_byteAt text i i), hget]
  dsimp only
  rw [bind_assoc, result_bind, result_bind]
  congr 1
  funext x
  rcases x with e | ⟨_ | comment | kind, j⟩ <;> rfl

theorem result_lexFrom_blank {found : List Lexeme} {docs : Option String} {i j : Nat}
    (hget : (encode text)[i]? = some b)
    (hscan : (scan i b).result text i = some (.ok (.blank, j))) :
    (lexFrom found docs).result text i = (lexFrom found docs).result text j := by
  rw [result_lexFrom_scan found docs hget, result_step hscan]

theorem result_lexFrom_docs {found : List Lexeme} {docs : Option String} {comment : String}
    {i j : Nat} (hget : (encode text)[i]? = some b)
    (hscan : (scan i b).result text i = some (.ok (.docs comment, j))) :
    (lexFrom found docs).result text i = (lexFrom found (some comment)).result text j := by
  rw [result_lexFrom_scan found docs hget, result_step hscan]

theorem result_lexFrom_stop {found : List Lexeme} {docs : Option String} {i : Nat} {e : Stop}
    (hget : (encode text)[i]? = some b) (hscan : (scan i b).result text i = some (.error e)) :
    (lexFrom found docs).result text i = some (.error e) := by
  rw [result_lexFrom_scan found docs hget, result_stop hscan]

/-- After a token the cursor goes on with the token found, or it stops where the token does. -/
theorem result_lexFrom_token {found : List Lexeme} {docs : Option String}
    {x : Except Stop (TokenKind × Nat)} (htext : text = before ++ c :: r)
    (hspace : ¬Source.isSpace c = true) (hline : ∀ r', c = '/' → r = '/' :: r' → False)
    (hcomment : ∀ r', c = '/' → r = '*' :: r' → False)
    (htoken : ∀ b ∈ encodeChar c, (scanToken (size before) b).result text (size before) = some x) :
    (lexFrom found docs).result text (size before) = match x with
      | .ok (kind, j) => (lexFrom (found ++ [⟨some kind, size before, docs⟩]) none).result text j
      | .error e => some (.error e) := by
  obtain ⟨b, hb, hget⟩ := exists_front htext
  have hscan := result_scan_token htext hb hspace hline hcomment
  cases x with
  | error e => exact result_lexFrom_stop hget (hscan.trans (result_stop (htoken b hb)))
  | ok p =>
    rw [result_lexFrom_scan found docs hget, result_step (hscan.trans (result_step (htoken b hb)))]

/-! ## Section 4: One step for each kind of piece -/

/-- A rest of a text starts at an offset. -/
def RestAt (text : List Char) (i : Nat) (s : List Char) : Prop :=
  ∃ before, text = before ++ s ∧ i = size before

theorem RestAt.append {text taken left : List Char} {i : Nat}
    (h : RestAt text i (taken ++ left)) : RestAt text (i + size taken) left := by
  obtain ⟨before, rfl, rfl⟩ := h
  exact ⟨before ++ taken, (List.append_assoc ..).symm, (Text.Utf8.size_append ..).symm⟩

theorem RestAt.past {text rest : List Char} {i : Nat} (h : RestAt text i rest) (run : Run rest) :
    RestAt text (i + size run.taken) run.left := by
  rw [← run.whole] at h
  exact h.append

/-- The rest after one of the first 128 characters is one byte further. -/
theorem RestAt.tail {text rest : List Char} {c : Char} {i : Nat} (h : RestAt text i (c :: rest))
    (hc : c.toNat < 0x80) : RestAt text (i + 1) rest := by
  have hsize : size [c] = 1 := Text.Utf8.size_cons_of_lt hc []
  have hsplit : RestAt text i ([c] ++ rest) := h
  rw [← hsize]
  exact hsplit.append

section pieces

variable {found : List Lexeme} {docs : Option String} {i : Nat} {rest : List Char} {run : Run rest}

theorem result_lexFrom_line (h : RestAt text i ('/' :: '/' :: rest)) :
    (lexFrom found docs).result text i =
      (lexFrom found docs).result text (i + 2 + size (Run.while (· != '\n') rest).taken) := by
  obtain ⟨before, htext, rfl⟩ := h
  obtain ⟨b, hb, hget⟩ := exists_front htext
  exact result_lexFrom_blank hget (result_scan_line htext hb)

theorem result_lexFrom_openComment (h : RestAt text i ('/' :: '*' :: rest))
    (hrun : Run.through? ['*', '/'] rest = none) :
    (lexFrom found docs).result text i = some (.error (.refused ⟨i, .openComment⟩)) := by
  obtain ⟨before, htext, rfl⟩ := h
  obtain ⟨b, hb, hget⟩ := exists_front htext
  have hscan := result_scan_comment htext hb
  rw [← map_through?, hrun] at hscan
  exact result_lexFrom_stop hget hscan

/-- A comment leaves the offset after it, with or without documentation for the next token. -/
theorem result_lexFrom_comment (h : RestAt text i ('/' :: '*' :: rest))
    (hrun : Run.through? ['*', '/'] rest = some run) :
    (lexFrom found docs).result text i =
      (lexFrom found (pendingDocs docs ('/' :: '*' :: run.taken))).result text
        (i + 2 + size run.taken) := by
  obtain ⟨before, htext, rfl⟩ := h
  obtain ⟨b, hb, hget⟩ := exists_front htext
  have hscan := result_scan_comment htext hb
  rw [← map_through?, hrun] at hscan
  unfold pendingDocs
  by_cases hdocs : Source.isDocComment ('/' :: '*' :: run.taken) = true
  · rw [if_pos hdocs]
    refine result_lexFrom_docs hget (hscan.trans ?_)
    simp [hdocs]
  · rw [if_neg hdocs]
    refine result_lexFrom_blank hget (hscan.trans ?_)
    simp [hdocs]

theorem result_lexFrom_openBlock (h : RestAt text i ('"' :: '"' :: '"' :: rest))
    (hrun : Run.through? ['"', '"', '"'] rest = none) :
    (lexFrom found docs).result text i = some (.error (.refused ⟨i, .openTextBlock⟩)) := by
  obtain ⟨before, htext, rfl⟩ := h
  have htoken := fun b hb => result_scanToken_block htext (b := b) hb
  rw [← map_through?, hrun] at htoken
  exact result_lexFrom_token htext (by decide) (fun _ h => absurd h (by decide))
    (fun _ h => absurd h (by decide)) htoken

theorem result_lexFrom_block (h : RestAt text i ('"' :: '"' :: '"' :: rest))
    (hrun : Run.through? ['"', '"', '"'] rest = some run) :
    (lexFrom found docs).result text i =
      (lexFrom (found ++ [⟨some .literal, i, docs⟩]) none).result text
        (i + 3 + size run.taken) := by
  obtain ⟨before, htext, rfl⟩ := h
  have htoken := fun b hb => result_scanToken_block htext (b := b) hb
  rw [← map_through?, hrun] at htoken
  exact result_lexFrom_token htext (by decide) (fun _ h => absurd h (by decide))
    (fun _ h => absurd h (by decide)) htoken

theorem result_lexFrom_space (h : RestAt text i (c :: rest)) (hspace : Source.isSpace c = true) :
    (lexFrom found docs).result text i = (lexFrom found docs).result text (i + 1) := by
  obtain ⟨before, htext, rfl⟩ := h
  obtain ⟨b, hb, hget⟩ := exists_front htext
  exact result_lexFrom_blank hget (result_scan_space text hb hspace _)

theorem result_lexFrom_openLiteral (h : RestAt text i (c :: rest)) (hstart : StartsToken c rest)
    (hquote : c = '"' ∨ c = '\'') (hrun : Run.throughQuote? c rest = none) :
    (lexFrom found docs).result text i = some (.error (.refused ⟨i, .openLiteral⟩)) := by
  obtain ⟨before, htext, rfl⟩ := h
  have htoken := fun b hb => result_scanToken_quoted htext (b := b) hb hquote hstart.block
  rw [← map_throughQuote?, hrun] at htoken
  exact result_lexFrom_token htext hstart.space hstart.line hstart.comment htoken

theorem result_lexFrom_literal (h : RestAt text i (c :: rest)) (hstart : StartsToken c rest)
    (hquote : c = '"' ∨ c = '\'') (hrun : Run.throughQuote? c rest = some run) :
    (lexFrom found docs).result text i =
      (lexFrom (found ++ [⟨some .literal, i, docs⟩]) none).result text
        (i + 1 + size run.taken) := by
  -- The token ends where as much is left of the text as of the run.
  obtain ⟨after, hwhole, hend⟩ := (h.tail (lt_of_isQuote hquote)).past run
  have hsize : size text - size run.left = i + 1 + size run.taken := by
    rw [hwhole, Text.Utf8.size_append, Nat.add_sub_cancel, hend]
  rw [← hsize]
  obtain ⟨before, htext, rfl⟩ := h
  have htoken := fun b hb => result_scanToken_quoted htext (b := b) hb hquote hstart.block
  rw [← map_throughQuote?, hrun] at htoken
  exact result_lexFrom_token htext hstart.space hstart.line hstart.comment htoken

theorem result_lexFrom_number (h : RestAt text i (c :: rest)) (hstart : StartsToken c rest)
    (hquote : ¬(c = '"' ∨ c = '\'')) (hdigit : c.isDigit = true) :
    (lexFrom found docs).result text i =
      (lexFrom (found ++ [⟨some .literal, i, docs⟩]) none).result text
        (i + 1 + size (Run.while Source.continuesNumber rest).taken) := by
  obtain ⟨before, htext, rfl⟩ := h
  have htoken := fun b hb => result_scanToken_number htext (b := b) hb hquote hdigit
  exact result_lexFrom_token htext hstart.space hstart.line hstart.comment htoken

theorem result_lexFrom_word (h : RestAt text i (c :: rest)) (hstart : StartsToken c rest)
    (hquote : ¬(c = '"' ∨ c = '\'')) (hdigit : ¬c.isDigit = true)
    (hword : Source.startsWord c = true) :
    (lexFrom found docs).result text i =
      (lexFrom (found ++ [⟨some (.word
        (String.ofList (c :: (Run.while Source.continuesWord rest).taken))), i, docs⟩])
        none).result text (i + size (c :: (Run.while Source.continuesWord rest).taken)) := by
  obtain ⟨before, htext, rfl⟩ := h
  have htoken := fun b hb => result_scanToken_word htext (b := b) hb hquote hdigit hword
  exact result_lexFrom_token htext hstart.space hstart.line hstart.comment htoken

theorem result_lexFrom_symbol (h : RestAt text i (c :: rest)) (hstart : StartsToken c rest)
    (hquote : ¬(c = '"' ∨ c = '\'')) (hdigit : ¬c.isDigit = true)
    (hword : ¬Source.startsWord c = true) :
    (lexFrom found docs).result text i =
      (lexFrom (found ++ [⟨some (.symbol c), i, docs⟩]) none).result text (i + 1) := by
  obtain ⟨before, htext, rfl⟩ := h
  have htoken := fun b hb => result_scanToken_symbol text (b := b) hb hquote hdigit hword
    (size before)
  exact result_lexFrom_token htext hstart.space hstart.line hstart.comment htoken

end pieces

theorem map_lexeme_cons (t : Token) (done : List Token) :
    (t :: done).reverse.map Token.lexeme = done.reverse.map Token.lexeme ++ [t.lexeme] := by
  rw [List.reverse_cons, List.map_append]
  rfl

/-- The cursor comes to what the lexer comes to from every place between two characters. -/
theorem result_lexFrom {done : List Token} {i : Nat} {docs : Option String} {s : List Char}
    {x : Except Error (List Token)} (hlexes : Lexes done i docs s x) (h : RestAt text i s) :
    (lexFrom (done.reverse.map Token.lexeme) docs).result text i = some (lexed text x) := by
  -- After each piece a rest of the text starts at the offset again.
  induction hlexes with
  | @nil done i docs =>
    obtain ⟨before, hwhole, rfl⟩ := h
    rw [List.append_nil] at hwhole
    subst hwhole
    rw [result_lexFrom_end _ _ (getElem?_encode_of_le (Nat.le_refl _))]
    rfl
  | line _ ih =>
    rw [result_lexFrom_line h]
    exact ih (((h.tail (by decide)).tail (by decide)).past _)
  | openComment hrun => exact result_lexFrom_openComment h hrun
  | comment hrun _ ih =>
    rw [result_lexFrom_comment h hrun]
    exact ih (((h.tail (by decide)).tail (by decide)).past _)
  | openBlock hrun => exact result_lexFrom_openBlock h hrun
  | block hrun _ ih =>
    rw [map_lexeme_cons] at ih
    rw [result_lexFrom_block h hrun]
    exact ih ((((h.tail (by decide)).tail (by decide)).tail (by decide)).past _)
  | space hspace _ ih =>
    rw [result_lexFrom_space h hspace]
    exact ih (h.tail (lt_of_isSpace hspace))
  | openLiteral hstart hquote hrun => exact result_lexFrom_openLiteral h hstart hquote hrun
  | literal hstart hquote hrun _ ih =>
    rw [map_lexeme_cons] at ih
    rw [result_lexFrom_literal h hstart hquote hrun]
    exact ih ((h.tail (lt_of_isQuote hquote)).past _)
  | number hstart hquote hdigit _ ih =>
    rw [map_lexeme_cons] at ih
    rw [result_lexFrom_number h hstart hquote hdigit]
    exact ih ((h.tail (lt_of_isDigit hdigit)).past _)
  | @word done i docs c rest x hstart hquote hdigit hword _ ih =>
    rw [map_lexeme_cons] at ih
    rw [result_lexFrom_word h hstart hquote hdigit hword]
    have hwhole : RestAt text i ((c :: (Run.while Source.continuesWord rest).taken) ++
        (Run.while Source.continuesWord rest).left) := by
      rwa [List.cons_append, Run.whole]
    exact ih hwhole.append
  | symbol hstart hquote hdigit hword _ ih =>
    rw [map_lexeme_cons] at ih
    rw [result_lexFrom_symbol h hstart hquote hdigit hword]
    exact ih (h.tail (lt_of_not_startsWord hword))

/-- Through the text from its start. -/
theorem result_lex (text : List Char) : lex.result text 0 = some (lexed text (Source.lex text)) :=
  result_lexFrom (lexes_lexOnto [] 0 none text) ⟨[], rfl, rfl⟩

end TextCursor

/-! ## Section 5: Offsets of tokens -/

/-- All tokens start by an offset, or the text is refused by it. -/
def StartBy (offset : Nat) : Except Error (List Token) → Prop
  | .ok ts => ∀ t ∈ ts, t.position ≤ offset
  | .error e => e.position ≤ offset

theorem Run.size_add {s : List Char} (run : Run s) : size run.taken + size run.left = size s := by
  rw [← Text.Utf8.size_append, run.whole]

theorem Lexes.startBy {offset position : Nat} {done : List Token} {docs : Option String}
    {s : List Char} {x : Except Error (List Token)} (h : Lexes done position docs s x)
    (hdone : ∀ t ∈ done, t.position ≤ offset) (hs : position + size s ≤ offset) :
    StartBy offset x := by
  have hcons : ∀ {done : List Token} {position : Nat} {kind : TokenKind} {docs : Option String},
      (∀ t ∈ done, t.position ≤ offset) → position ≤ offset →
      ∀ t ∈ (⟨kind, position, docs⟩ :: done : List Token), t.position ≤ offset := by
    intro done position kind docs hdone hposition
    exact List.forall_mem_cons.2 ⟨hposition, hdone⟩
  induction h with
  | nil =>
    intro t ht
    exact hdone t (List.mem_reverse.1 ht)
  | @line done position docs rest x _ ih =>
    have hrun := (Run.while (· != '\n') rest).size_add
    rw [TextCursor.size_comment (by decide)] at hs
    exact ih hdone (by omega)
  | openComment hrun => exact Nat.le_trans (Nat.le_add_right ..) hs
  | @comment done position docs rest run x hrun _ ih =>
    have hsize := run.size_add
    rw [TextCursor.size_comment (by decide)] at hs
    exact ih hdone (by omega)
  | openBlock hrun => exact Nat.le_trans (Nat.le_add_right ..) hs
  | @block done position docs rest run x hrun _ ih =>
    have hsize := run.size_add
    have hmark : size ('"' :: '"' :: '"' :: rest) = 3 + size rest :=
      Text.Utf8.size_append ['"', '"', '"'] rest
    rw [hmark] at hs
    exact ih (hcons hdone (by omega)) (by omega)
  | space hspace _ ih =>
    rw [Text.Utf8.size_cons_of_lt (TextCursor.lt_of_isSpace hspace)] at hs
    exact ih hdone (by omega)
  | openLiteral hstart hquote hrun => exact Nat.le_trans (Nat.le_add_right ..) hs
  | @literal done position docs c rest run x hstart hquote hrun _ ih =>
    have hsize := run.size_add
    rw [Text.Utf8.size_cons_of_lt (TextCursor.lt_of_isQuote hquote)] at hs
    exact ih (hcons hdone (by omega)) (by omega)
  | @number done position docs c rest x hstart hquote hdigit _ ih =>
    have hsize := (Run.while continuesNumber rest).size_add
    rw [Text.Utf8.size_cons_of_lt (TextCursor.lt_of_isDigit hdigit)] at hs
    exact ih (hcons hdone (by omega)) (by omega)
  | @word done position docs c rest x hstart hquote hdigit hword _ ih =>
    have hsize := (Run.while continuesWord rest).size_add
    rw [Text.Utf8.size_cons] at ih hs
    exact ih (hcons hdone (by omega)) (by omega)
  | symbol hstart hquote hdigit hword _ ih =>
    rw [Text.Utf8.size_cons_of_lt (TextCursor.lt_of_not_startsWord hword)] at hs
    exact ih (hcons hdone (by omega)) (by omega)

/-- The tokens of a text start within it, and a text is refused within it. -/
theorem startBy_lex (text : List Char) : StartBy (size text) (lex text) :=
  (lexes_lexOnto [] 0 none text).startBy (by simp) (by simp)

end TypeCatalog.Source
