import TypeCatalog.Proofs.Signature.Refusal
import TypeCatalog.Proofs.Source.CursorDeclarations
import TypeCatalog.Proofs.Source.OffsetLexer

/-! # Bounds of a source text

    A source text can be read along its bytes for its tokens, and then along its tokens for its
    declarations. Both readings follow readers that take lists apart. So they end on every text,
    look up nothing outside the text and its tokens, cut no text inside a character, and nest no
    more calls than there are tokens. Either they come to the end of the tokens, or they refuse the
    text at an offset within it. -/

set_option autoImplicit false

namespace TypeCatalog.Source

open Text.Utf8 (size)

/-- A source text read along its bytes and then along its tokens, each from the start: the tokens
    with the end after them, what is declared, and where the index along them comes to stand. The
    calls for nested types have room for one call for each token, and for some more. -/
noncomputable def parseAlong (more : Nat) (text : List Char) :
    ExceptT Stop Option (List Lexeme × SourceUnit × Nat) := do
  let (input, _) ← ExceptT.mk (TextCursor.lex.result text 0)
  let (u, i) ← ExceptT.mk ((TokenCursor.sourceUnit (input.length + more)).result input 0)
  return (input, u, i)

variable {text : List Char} {ts : List Token} {room : Nat}

/-- From any of the tokens on they are read along through the last of them, if they are read at
    all. -/
theorem result_sourceUnit_append (text : List Char) (before : List Token)
    (hroom : ts.length < room) :
    (TokenCursor.sourceUnit room).result (lexemes text (before ++ ts)) before.length =
      some (match sourceUnit "" ts with
        | .ok u => .ok (u, (before ++ ts).length)
        | .error h => .error (.refused (h.inText text))) := by
  have hfollows := follows_sourceUnit text (before ++ ts) "" [] ts hroom
    (List.suffix_append before ts)
  have hresult := hfollows.result_eq
  rw [List.length_append, Nat.add_sub_cancel_right] at hresult
  rw [TokenCursor.sourceUnit, hresult]
  cases sourceUnit "" ts <;> rfl

/-- They are so from the first. -/
theorem result_sourceUnit (text : List Char) (hroom : ts.length < room) :
    (TokenCursor.sourceUnit room).result (lexemes text ts) 0 = some (match sourceUnit "" ts with
      | .ok u => .ok (u, ts.length)
      | .error h => .error (.refused (h.inText text))) :=
  result_sourceUnit_append text [] hroom

/-- Reading along a text comes to what the lexer and the readers of declarations come to. -/
theorem parseAlong_eq (more : Nat) (text : List Char) :
    parseAlong more text = some (match lex text with
      | .ok ts => match sourceUnit "" ts with
        | .ok u => .ok (lexemes text ts, u, ts.length)
        | .error h => .error (.refused (h.inText text))
      | .error e => .error (.refused e)) := by
  unfold parseAlong
  rw [TextCursor.result_lex]
  cases lex text with
  | error e => rfl
  | ok ts =>
    have hroom : ts.length < (lexemes text ts).length + more := by
      simp [lexemes]
      omega
    show (ExceptT.mk ((TokenCursor.sourceUnit ((lexemes text ts).length + more)).result
      (lexemes text ts) 0) >>= _ : ExceptT Stop Option (List Lexeme × SourceUnit × Nat)) = _
    rw [result_sourceUnit text hroom]
    dsimp only
    cases sourceUnit "" ts <;> rfl

/-- What a reader of declarations halts at is one of the tokens, or nothing. -/
theorem left_suffix_of_sourceUnit {h : Halt} (hread : sourceUnit "" ts = .error h) :
    h.left <:+ ts := by
  have hfollows := follows_sourceUnit [] ts "" [] ts (Nat.lt_succ_self _) (List.suffix_refl ts)
  refine hfollows.halts h ?_
  rw [hread]
  rfl

/-- A halt at tokens that start within a text is placed within it. -/
theorem position_inText_le {h : Halt} (hts : ∀ t ∈ ts, t.position ≤ size text)
    (hleft : h.left <:+ ts) :
    (h.inText text).position ≤ size text := by
  unfold Halt.inText
  split
  · exact Nat.le_refl _
  · next t rest heq =>
    rw [heq] at hleft
    exact hts t (hleft.subset List.mem_cons_self)

/-- Reading along a text ends on every text. It gives the declarations, and then the index has come
    through all tokens to the end; or it refuses the text at an offset within it. There is no third
    outcome: nothing is looked up outside the text and its tokens, no text is cut inside a
    character, and no call is one too many, with however much more room. -/
theorem SourceUnit.parse_along (text : String) (more : Nat) :
    (∃ ts u, lex text.toList = .ok ts ∧ SourceUnit.parse text = .ok u ∧
      parseAlong more text.toList = some (.ok (lexemes text.toList ts, u, ts.length))) ∨
    (∃ e, SourceUnit.parse text = .error e ∧ e.position ≤ text.utf8ByteSize ∧
      parseAlong more text.toList = some (.error (.refused e))) := by
  have hstart := startBy_lex text.toList
  have hsize : size text.toList = text.utf8ByteSize := by
    rw [Signature.size_eq_utf8ByteSize, String.ofList_toList]
  rw [parseAlong_eq, SourceUnit.parse]
  rw [hsize] at hstart
  cases htokens : lex text.toList with
  | error e =>
    rw [htokens] at hstart
    exact .inr ⟨e, rfl, hstart, rfl⟩
  | ok ts =>
    rw [htokens] at hstart
    cases hread : sourceUnit "" ts with
    | error h =>
      have hposition := position_inText_le (hsize ▸ hstart) (left_suffix_of_sourceUnit hread)
      refine .inr ⟨h.inText text.toList, ?_, hsize ▸ hposition, by simp only [hread]⟩
      show (sourceUnit "" ts).mapError _ = _
      rw [hread]
      rfl
    | ok u =>
      refine .inl ⟨ts, u, rfl, ?_, by simp only [hread]⟩
      show (sourceUnit "" ts).mapError _ = _
      rw [hread]
      rfl

end TypeCatalog.Source
