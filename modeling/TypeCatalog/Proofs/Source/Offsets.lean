import TypeCatalog.Proofs.Source.Loops
import TypeCatalog.Proofs.Text.Offsets

/-! # Lexing by offsets

    The lexer takes lists of characters apart. A lexer that goes through the bytes of a text by an
    offset has to cut pieces out of the text, which is possible only between characters; it may
    also go round without end. Here the same tokens are found in that manner, byte by byte, and at
    each step the offset is found to stand where the lexer is. -/

set_option autoImplicit false

namespace TypeCatalog.Source

open Text.Utf8 (byte encode encodeChar size from? upTo? find? Tests)

/-! ## Section 1: The lexer on bytes -/

/-- A reading of a text by an offset in its bytes. -/
abbrev TextCursor (α : Type) := Cursor (List Char) α

namespace TextCursor

open Cursor (again done loop)

noncomputable section

/-- The byte at an offset. -/
def byteAt (i : Nat) : TextCursor (Option UInt8) := do
  return (encode (← read))[i]?

/-- The text from an offset on. -/
def sliceFrom (start : Nat) : TextCursor (List Char) := do
  match from? (← read) start with
  | some s => return s
  | none => throw .overrun

/-- The text between two offsets. -/
def slice (start stop : Nat) : TextCursor (List Char) := do
  let s ← sliceFrom start
  if stop < start then throw .overrun
  else
    match upTo? s (stop - start) with
    | some s => return s
    | none => throw .overrun

/-- Bytes are passed over as long as a test holds. -/
def skipWhile (p : UInt8 → Bool) : TextCursor Unit :=
  loop () fun _ => do
    match ← byteAt (← get) with
    | some b =>
      if p b then
        modify (· + 1)
        again ()
      else done ()
    | none => done ()

/-- A literal that starts at the given offset is passed over through its closing quote. One byte
    after a reverse solidus does not count. -/
def skipQuotedFrom (start : Nat) (quote : UInt8) : TextCursor Unit :=
  loop () fun _ => do
    match ← byteAt (← get) with
    | none => throw (.refused ⟨start, .openLiteral⟩)
    | some b =>
      modify (· + 1)
      if b = byte '\\' then
        modify (· + 1)
        again ()
      else if b = byte '\n' then throw (.refused ⟨start, .openLiteral⟩)
      else if b = quote then done ()
      else again ()

/-- A literal is passed over. -/
def skipQuoted (quote : UInt8) : TextCursor Unit := do
  let start ← get
  modify (· + 1)
  skipQuotedFrom start quote

/-- What opens with a number of bytes is passed over through its closing mark. -/
def skipThrough (opening : Nat) (mark : List Char) (fault : Fault) : TextCursor Unit := do
  let start ← get
  match find? mark (← sliceFrom (start + opening)) with
  | none => throw (.refused ⟨start, fault⟩)
  | some n => set (start + opening + n + size mark)

/-- A text block or a string is passed over. -/
def skipString : TextCursor Unit := do
  if ['"', '"', '"'].isPrefixOf (← sliceFrom (← get)) then
    skipThrough 3 ['"', '"', '"'] .openTextBlock
  else skipQuoted (byte '"')

/-- The blanks between tokens. -/
def isSpace (b : UInt8) : Bool :=
  b = byte ' ' || b = byte '\t' || b = byte '\n' || b = byte '\r' || b = byte '\x0c'

/-- The digits. -/
def isDigit (b : UInt8) : Bool := byte '0' ≤ b && b ≤ byte '9'

/-- The letters. -/
def isLetter (b : UInt8) : Bool :=
  (byte 'a' ≤ b && b ≤ byte 'z') || (byte 'A' ≤ b && b ≤ byte 'Z')

/-- What an identifier starts with: all bytes of longer characters are taken for letters. -/
def startsWord (b : UInt8) : Bool :=
  isLetter b || b = byte '_' || b = byte '$' || 0x80 ≤ b

/-- What an identifier goes on with. -/
def continuesWord (b : UInt8) : Bool := startsWord b || isDigit b

/-- What a number goes on with. -/
def continuesNumber (b : UInt8) : Bool :=
  isLetter b || isDigit b || b = byte '_' || b = byte '.'

/-- Whether a comment is documentation. -/
def isDocComment (comment : List Char) : Bool :=
  ['/', '*', '*'].isPrefixOf comment && 4 < size comment

/-- What a piece of text comes to. -/
inductive Scanned where
  /-- Nothing that stays. -/
  | blank
  /-- Documentation for the next token. -/
  | docs (comment : String)
  | token (kind : TokenKind)

/-- The token that starts with the given byte at the given offset is passed over. -/
def scanToken (start : Nat) (b : UInt8) : TextCursor TokenKind := do
  if b = byte '"' then
    skipString
    return .literal
  else if b = byte '\'' then
    skipQuoted b
    return .literal
  else if isDigit b then
    skipWhile continuesNumber
    return .literal
  else if startsWord b then
    skipWhile continuesWord
    let word ← slice start (← get)
    return .word (String.ofList word)
  else
    modify (· + 1)
    return .symbol (Char.ofNat b.toNat)

/-- The piece that starts with the given byte at the given offset is passed over. -/
def scan (start : Nat) (b : UInt8) : TextCursor Scanned := do
  let next ← byteAt (start + 1)
  if isSpace b then
    modify (· + 1)
    return .blank
  else if b = byte '/' ∧ next = some (byte '/') then
    skipWhile (· != byte '\n')
    return .blank
  else if b = byte '/' ∧ next = some (byte '*') then
    skipThrough 2 ['*', '/'] .openComment
    let comment ← slice start (← get)
    return if isDocComment comment then .docs (String.ofList comment) else .blank
  else return .token (← scanToken start b)

/-- The lexemes from the offset on, onto those found, with the given documentation waiting. -/
def lexFrom (found : List Lexeme) (docs : Option String) : TextCursor (List Lexeme) :=
  loop (found, docs) fun (found, docs) => do
    let start ← get
    match ← byteAt start with
    | none => done (found ++ [⟨none, start, none⟩])
    | some b =>
      match ← scan start b with
      | .blank => again (found, docs)
      | .docs comment => again (found, some comment)
      | .token kind => again (found ++ [⟨some kind, start, docs⟩], none)

/-- The lexemes of a text. -/
def lex : TextCursor (List Lexeme) := lexFrom [] none

end

end TextCursor

/-! ## Section 2: Passing over bytes -/

namespace TextCursor

variable {before s : List Char} {i : Nat}

theorem result_byteAt (text : List Char) (k i : Nat) :
    (byteAt k).result text i = some (.ok ((encode text)[k]?, i)) :=
  rfl

theorem result_sliceFrom (before s : List Char) (i : Nat) :
    (sliceFrom (size before)).result (before ++ s) i = some (.ok (s, i)) := by
  show (match from? (before ++ s) (size before) with
    | some s => (pure s : TextCursor (List Char))
    | none => throw Stop.overrun).result _ _ = _
  rw [Text.Utf8.from?_size]
  rfl

theorem result_slice (before s after : List Char) (i : Nat) :
    (slice (size before) (size before + size s)).result (before ++ (s ++ after)) i =
      some (.ok (s, i)) := by
  rw [slice, result_step (result_sliceFrom before (s ++ after) i), if_neg (by omega),
    Nat.add_sub_cancel_left, Text.Utf8.upTo?_size]
  rfl

theorem getElem?_of_drop {l : List UInt8} {i : Nat} {b : UInt8} {rest : List UInt8}
    (h : l.drop i = b :: rest) : l[i]? = some b ∧ l.drop (i + 1) = rest := by
  constructor
  · rw [← Nat.add_zero i, ← List.getElem?_drop, h]
    rfl
  · rw [← List.drop_drop, h]
    rfl

/-- At a byte that passes the test one byte is passed over. -/
theorem result_skipWhile_step {p : UInt8 → Bool} {text : List Char} {i : Nat} {b : UInt8}
    (hget : (encode text)[i]? = some b) (hb : p b = true) :
    (skipWhile p).result text i = (skipWhile p).result text (i + 1) := by
  refine Cursor.result_loop_again ?_
  rw [result_step (result_get text i), result_step (result_byteAt text i i), hget]
  dsimp only
  rw [if_pos hb, result_step (result_modify (· + 1) text i)]
  rfl

/-- At any other byte, and at the end of the text, nothing more is passed over. -/
theorem result_skipWhile_stay {p : UInt8 → Bool} {text : List Char} {i : Nat}
    (hstay : ∀ b, (encode text)[i]? = some b → p b = false) :
    (skipWhile p).result text i = some (.ok ((), i)) := by
  refine Cursor.result_loop_done ?_
  rw [result_step (result_get text i), result_step (result_byteAt text i i)]
  cases hget : (encode text)[i]? with
  | none => rfl
  | some b =>
    dsimp only
    rw [if_neg (by rw [hstay b hget]; exact Bool.false_ne_true)]
    rfl

/-- Bytes that pass a test are passed over one by one. -/
theorem result_skipWhile_bytes {p : UInt8 → Bool} {text : List Char} {bs rest : List UInt8}
    (hbs : ∀ b ∈ bs, p b = true) {i : Nat} (htext : (encode text).drop i = bs ++ rest) :
    (skipWhile p).result text i = (skipWhile p).result text (i + bs.length) := by
  induction bs generalizing i with
  | nil => rfl
  | cons b bs ih =>
    obtain ⟨hget, hdrop⟩ := getElem?_of_drop htext
    rw [result_skipWhile_step hget (hbs b List.mem_cons_self),
      ih (fun b' hb' => hbs b' (List.mem_cons_of_mem b hb')) hdrop, List.length_cons,
      Nat.add_assoc, Nat.add_comm 1]

/-- A run of bytes ends where the run of the characters ends. -/
theorem result_skipWhile {p : UInt8 → Bool} {q : Char → Bool} (hpq : Tests p q)
    (before s : List Char) :
    (skipWhile p).result (before ++ s) (size before) =
      some (.ok ((), size before + size (s.takeWhile q))) := by
  induction s generalizing before with
  | nil =>
    have hnone : (encode (before ++ []))[size before]? = none := by
      rw [List.append_nil, ← Text.Utf8.length_encode]
      exact List.getElem?_eq_none (Nat.le_refl _)
    rw [result_skipWhile_stay fun b hb => absurd (hnone.symm.trans hb) (Option.some_ne_none b).symm]
    rfl
  | cons c s ih =>
    have hdrop := Text.Utf8.drop_encode before (c :: s)
    rw [Text.Utf8.encode_cons] at hdrop
    by_cases hc : q c = true
    · have hbytes : ∀ b ∈ encodeChar c, p b = true := by
        intro b hb
        rw [hpq c b hb, hc]
      have hih := ih (before ++ [c])
      rw [List.append_assoc, Text.Utf8.size_append] at hih
      -- All bytes of a character pass the test if the character does.
      rw [result_skipWhile_bytes hbytes hdrop, Text.Utf8.length_encodeChar,
        List.takeWhile_cons_of_pos hc, Text.Utf8.size_cons, ← Nat.add_assoc]
      exact hih
    · obtain ⟨b, bs, hbs⟩ := List.exists_cons_of_ne_nil (Text.Utf8.encodeChar_ne_nil c)
      have hb : p b = false := by
        rw [hpq c b (by rw [hbs]; exact List.mem_cons_self)]
        simpa using hc
      rw [hbs] at hdrop
      have hstay : ∀ b', (encode (before ++ c :: s))[size before]? = some b' → p b' = false := by
        intro b' hb'
        rw [(getElem?_of_drop hdrop).1] at hb'
        cases hb'
        exact hb
      rw [result_skipWhile_stay hstay, List.takeWhile_cons_of_neg hc]
      rfl

/-! ## Section 3: Passing over literals and comments -/

theorem result_skipQuotedFrom_eq (start : Nat) (quote : UInt8) (text : List Char) (i : Nat) :
    (skipQuotedFrom start quote).result text i = match (encode text)[i]? with
      | none => some (.error (.refused ⟨start, .openLiteral⟩))
      | some b =>
        if b = byte '\\' then (skipQuotedFrom start quote).result text (i + 2)
        else if b = byte '\n' then some (.error (.refused ⟨start, .openLiteral⟩))
        else if b = quote then some (.ok ((), i + 1))
        else (skipQuotedFrom start quote).result text (i + 1) := by
  conv => lhs; rw [skipQuotedFrom, Cursor.loop_eq]
  rw [bind_assoc, result_step (result_get text i), bind_assoc, result_step (result_byteAt text i i)]
  cases (encode text)[i]? with
  | none => rfl
  | some b =>
    dsimp only
    rw [bind_assoc, result_step (result_modify (· + 1) text i)]
    by_cases hescape : b = byte '\\'
    · rw [if_pos hescape, if_pos hescape, bind_assoc,
        result_step (result_modify (· + 1) text (i + 1))]
      rfl
    rw [if_neg hescape, if_neg hescape]
    by_cases hline : b = byte '\n'
    · rw [if_pos hline, if_pos hline]
      rfl
    rw [if_neg hline, if_neg hline]
    by_cases hquote : b = quote
    · rw [if_pos hquote, if_pos hquote]
      rfl
    · rw [if_neg hquote, if_neg hquote]
      rfl

/-- Bytes of longer characters are passed over one by one. -/
theorem result_skipQuotedFrom_bytes {start : Nat} {quote : Char} (hquote : quote.toNat < 0x80)
    {text : List Char} {bs rest : List UInt8} (hbs : ∀ b ∈ bs, 0x80 ≤ b.toNat) {i : Nat}
    (htext : (encode text).drop i = bs ++ rest) :
    (skipQuotedFrom start (byte quote)).result text i =
      (skipQuotedFrom start (byte quote)).result text (i + bs.length) := by
  have hne : ∀ {b : UInt8} {k : Char}, 0x80 ≤ b.toNat → k.toNat < 0x80 → b ≠ byte k := by
    intro b k hb hk h
    rw [h, byte, Text.Utf8.toNat_byte (by omega)] at hb
    omega
  induction bs generalizing i with
  | nil => rfl
  | cons b bs ih =>
    obtain ⟨hget, hdrop⟩ := getElem?_of_drop htext
    have hb := hbs b List.mem_cons_self
    rw [result_skipQuotedFrom_eq, hget]
    show (if b = byte '\\' then _ else _) = _
    rw [if_neg (hne hb (by decide)), if_neg (hne hb (by decide)), if_neg (hne hb hquote),
      ih (fun b' hb' => hbs b' (List.mem_cons_of_mem b hb')) hdrop, List.length_cons,
      Nat.add_assoc, Nat.add_comm 1]

/-- What stands at an offset in front of a character: its first byte, and after that its others. -/
theorem exists_bytes {text before r : List Char} {c : Char} (htext : text = before ++ c :: r) :
    ∃ b bs, encodeChar c = b :: bs ∧ (encode text)[size before]? = some b ∧
      (encode text).drop (size before + 1) = bs ++ encode r ∧ (∀ b' ∈ bs, 0x80 ≤ b'.toNat) := by
  have hdrop := Text.Utf8.drop_encode before (c :: r)
  obtain ⟨b, bs, hbs⟩ := List.exists_cons_of_ne_nil (Text.Utf8.encodeChar_ne_nil c)
  rw [Text.Utf8.encode_cons, hbs, ← htext] at hdrop
  refine ⟨b, bs, hbs, (getElem?_of_drop hdrop).1, (getElem?_of_drop hdrop).2, ?_⟩
  intro b' hb'
  by_cases hc : c.toNat < 0x80
  · rw [Text.Utf8.encodeChar_of_lt hc] at hbs
    cases hbs
    cases hb'
  · have hmem : b' ∈ encodeChar c := by
      rw [hbs]
      exact List.mem_cons_of_mem b hb'
    exact Text.Utf8.le_toNat_of_mem (Nat.not_lt.1 hc) hmem

theorem getElem?_encode_of_le {text : List Char} {i : Nat} (h : size text ≤ i) :
    (encode text)[i]? = none := by
  rw [← Text.Utf8.length_encode] at h
  exact List.getElem?_eq_none h

/-- From inside a character the offset comes to its end: none of its further bytes is one of those
    that are looked for. -/
theorem result_skipQuotedFrom_inside {start : Nat} {quote c : Char} (hquote : quote.toNat < 0x80)
    {text before r : List Char} (htext : text = before ++ c :: r) :
    (skipQuotedFrom start (byte quote)).result text (size before + 1) =
      (skipQuotedFrom start (byte quote)).result text (size (before ++ [c])) := by
  obtain ⟨b, bs, hbs, -, hdrop, hhigh⟩ := exists_bytes htext
  have hlength : bs.length + 1 = c.utf8Size := by
    rw [← Text.Utf8.length_encodeChar, hbs, List.length_cons]
  have hnext : size before + 1 + bs.length = size (before ++ [c]) := by
    simp
    omega
  rw [result_skipQuotedFrom_bytes hquote hhigh hdrop, hnext]

/-- In front of a character the cursor does what the reader does at the character. -/
theorem result_skipQuotedFrom_front {start : Nat} {quote c : Char} (hquote : quote.toNat < 0x80)
    {text before r : List Char} (htext : text = before ++ c :: r) :
    (skipQuotedFrom start (byte quote)).result text (size before) =
      if c = '\\' then (skipQuotedFrom start (byte quote)).result text (size before + 2)
      else if c = '\n' then some (.error (.refused ⟨start, .openLiteral⟩))
      else if c = quote then some (.ok ((), size before + 1))
      else (skipQuotedFrom start (byte quote)).result text (size (before ++ [c])) := by
  obtain ⟨b, bs, hbs, hget, -⟩ := exists_bytes htext
  have hmem : b ∈ encodeChar c := by simp [hbs]
  rw [result_skipQuotedFrom_eq, hget, ← result_skipQuotedFrom_inside hquote htext]
  simp only [Text.Utf8.eq_byte_iff (by decide : '\\'.toNat < 0x80) hmem,
    Text.Utf8.eq_byte_iff (by decide : '\n'.toNat < 0x80) hmem, Text.Utf8.eq_byte_iff hquote hmem]

/-- A literal ends where its characters end. After a reverse solidus the first byte of a character
    is left out, and the others are passed over like any. -/
theorem result_skipQuotedFrom {start : Nat} {quote : Char} (hquote : quote.toNat < 0x80)
    {text before : List Char} (done s : List Char) (htext : text = before ++ s) :
    (skipQuotedFrom start (byte quote)).result text (size before) =
      some (match throughQuote quote done s with
        | some (_, left) => .ok ((), size text - size left)
        | none => .error (.refused ⟨start, .openLiteral⟩)) := by
  fun_induction throughQuote quote done s generalizing before with
  | case1 done =>
    rw [result_skipQuotedFrom_eq, getElem?_encode_of_le (by simp [htext])]
  | case2 done =>
    have hend : size text ≤ size before + 2 := by
      rw [htext, Text.Utf8.size_append]
      exact Nat.add_le_add_left (by decide) _
    -- A reverse solidus at the end of the text moves the offset past the end.
    rw [result_skipQuotedFrom_front hquote htext, if_pos rfl, result_skipQuotedFrom_eq,
      getElem?_encode_of_le hend]
  | case3 done c rest ih =>
    have hsplit : text = (before ++ ['\\']) ++ c :: rest := by simp [htext]
    have hoffset : size before + 2 = size (before ++ ['\\']) + 1 := by
      rw [Text.Utf8.size_append]
      rfl
    -- The offset comes to stand after the first byte of `c`, which may be inside it.
    rw [result_skipQuotedFrom_front hquote htext, if_pos rfl, hoffset,
      result_skipQuotedFrom_inside hquote hsplit]
    exact ih (by simp [htext])
  | case4 done rest =>
    rw [result_skipQuotedFrom_front hquote htext, if_neg (by decide), if_pos rfl]
  | case5 done rest hlast hescape hline =>
    have hne : quote ≠ '\\' := by
      intro h
      cases rest with
      | nil => exact hlast h rfl
      | cons c rest => exact hescape c rest h rfl
    have hsize : size before + 1 = size text - size rest := by
      rw [htext, Text.Utf8.size_append, Text.Utf8.size_cons, Text.Utf8.utf8Size_of_lt hquote]
      omega
    rw [result_skipQuotedFrom_front hquote htext, if_neg hne, if_neg hline, if_pos rfl, hsize]
  | case6 done c rest hlast hescape hline hother ih =>
    have hne : c ≠ '\\' := by
      intro h
      cases rest with
      | nil => exact hlast h rfl
      | cons c rest => exact hescape c rest h rfl
    rw [result_skipQuotedFrom_front hquote htext, if_neg hne, if_neg hline, if_neg hother]
    exact ih (by simp [htext])

theorem result_skipQuoted {quote : Char} (hquote : quote.toNat < 0x80)
    {text before rest : List Char} (htext : text = before ++ quote :: rest) :
    (skipQuoted (byte quote)).result text (size before) =
      some (match throughQuote quote [] rest with
        | some (_, left) => .ok ((), size text - size left)
        | none => .error (.refused ⟨size before, .openLiteral⟩)) := by
  have hnext : size before + 1 = size (before ++ [quote]) := by
    rw [Text.Utf8.size_append, Text.Utf8.size_cons, Text.Utf8.utf8Size_of_lt hquote]
    rfl
  rw [skipQuoted, result_step (result_get text (size before)),
    result_step (result_modify (· + 1) text (size before)), hnext]
  exact result_skipQuotedFrom hquote [] rest (by simp [htext])

/-- A mark is found where the reader through it stops, or by neither. -/
theorem throughMark_cases (mark done s : List Char) :
    (throughMark mark done s = none ∧ find? mark s = none) ∨
      ∃ inside left, s = inside ++ (mark ++ left) ∧
        throughMark mark done s = some (done.reverse ++ (inside ++ mark), left) ∧
        find? mark s = some (size inside) := by
  fun_induction throughMark mark done s with
  | case1 done => exact .inl ⟨rfl, rfl⟩
  | case2 done c rest hmark =>
    obtain ⟨left, hleft⟩ := List.isPrefixOf_iff_prefix.1 hmark
    refine .inr ⟨[], left, hleft.symm, ?_, ?_⟩
    · rw [← hleft, List.drop_left]
      rfl
    · rw [find?, if_pos hmark]
      rfl
  | case3 done c rest hmark ih =>
    rw [find?, if_neg hmark]
    obtain ⟨hnone, hfind⟩ | ⟨inside, left, hrest, hthrough, hfind⟩ := ih
    · rw [hfind]
      exact .inl ⟨hnone, rfl⟩
    · refine .inr ⟨c :: inside, left, by rw [hrest]; rfl, ?_, ?_⟩
      · rw [hthrough]
        simp
      · rw [hfind, Option.map_some, Text.Utf8.size_cons, Nat.add_comm]

theorem result_skipThrough {text before rest : List Char} (opening mark : List Char)
    (fault : Fault) (htext : text = before ++ (opening ++ rest)) :
    (skipThrough (size opening) mark fault).result text (size before) =
      some (match throughMark mark [] rest with
        | some (taken, _) => .ok ((), size before + size (opening ++ taken))
        | none => .error (.refused ⟨size before, fault⟩)) := by
  have hslice := result_sliceFrom (before ++ opening) rest (size before)
  rw [Text.Utf8.size_append, List.append_assoc, ← htext] at hslice
  rw [skipThrough, result_step (result_get text (size before)), result_step hslice]
  obtain ⟨hnone, hfind⟩ | ⟨inside, left, hrest, hthrough, hfind⟩ := throughMark_cases mark [] rest
  · rw [hfind, hnone]
    rfl
  · rw [hfind, hthrough]
    show some (Except.ok ((), size before + size opening + size inside + size mark)) = _
    simp [Nat.add_assoc]

end TextCursor

end TypeCatalog.Source
