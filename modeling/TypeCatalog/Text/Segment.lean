/-! # Segments of a text

    A text cut at a separator: all of its segments, the last one alone, and what stands before the
    last separator.
-/

set_option autoImplicit false

namespace TypeCatalog.Text

/-- What follows the last separator; the whole text if there is none. -/
def afterLast (separator : Char) (s : List Char) : List Char :=
  (s.reverse.takeWhile (· != separator)).reverse

/-- What stands before the last separator; nothing if there is none. -/
def beforeLast (separator : Char) (s : List Char) : List Char :=
  (s.reverse.dropWhile (· != separator)).tail.reverse

theorem of_mem_takeWhile {p : Char → Bool} {s : List Char} {c : Char} (h : c ∈ s.takeWhile p) :
    p c = true := by
  induction s with
  | nil => simp at h
  | cons a rest ih =>
    rw [List.takeWhile_cons] at h
    split at h
    · next ha =>
      rcases List.mem_cons.1 h with rfl | h
      · exact ha
      · exact ih h
    · simp at h

theorem of_dropWhile_eq_cons {p : Char → Bool} {s rest : List Char} {c : Char}
    (h : s.dropWhile p = c :: rest) : p c = false := by
  induction s with
  | nil => simp at h
  | cons a others ih =>
    rw [List.dropWhile_cons] at h
    split at h
    · exact ih h
    · next ha =>
      cases h
      simpa using ha

/-- A text is what stands before its last separator, the separator, and what follows. -/
theorem beforeLast_append_afterLast {separator : Char} {s : List Char} (h : separator ∈ s) :
    beforeLast separator s ++ separator :: afterLast separator s = s := by
  have split := List.takeWhile_append_dropWhile (p := (· != separator)) (l := s.reverse)
  unfold beforeLast afterLast
  cases hd : s.reverse.dropWhile (· != separator) with
  | nil =>
    rw [hd, List.append_nil] at split
    have hin : separator ∈ s.reverse.takeWhile (· != separator) := by
      rw [split]
      exact List.mem_reverse.2 h
    have := of_mem_takeWhile hin
    simp at this
  | cons a rest =>
    have ha : a = separator := by
      have := of_dropWhile_eq_cons hd
      simpa using this
    rw [hd, ha] at split
    have := congrArg List.reverse split
    simpa using this

/-- The segments between separators, at least one. -/
def segments (separator : Char) : List Char → List (List Char)
  | [] => [[]]
  | c :: rest =>
    if c = separator then [] :: segments separator rest
    else
      match segments separator rest with
      | [] => [[c]]
      | first :: others => (c :: first) :: others

/-- What stands before the first separator; the whole text if there is none. -/
def beforeFirst (separator : Char) (s : List Char) : List Char :=
  s.takeWhile (· != separator)

theorem beforeFirst_of_notMem {separator : Char} {s : List Char} (h : separator ∉ s) :
    beforeFirst separator s = s := by
  have hbefore : ∀ c ∈ s, (c != separator) = true :=
    fun c hc => bne_iff_ne.2 fun heq => h (heq ▸ hc)
  have hwhole : (s ++ []).takeWhile (· != separator) = s ++ [] :=
    List.takeWhile_append_of_pos hbefore
  rwa [List.append_nil] at hwhole

theorem beforeFirst_append {separator : Char} {s : List Char} (h : separator ∉ s)
    (rest : List Char) : beforeFirst separator (s ++ separator :: rest) = s := by
  have hbefore : ∀ c ∈ s, (c != separator) = true :=
    fun c hc => bne_iff_ne.2 fun heq => h (heq ▸ hc)
  unfold beforeFirst
  rw [List.takeWhile_append_of_pos hbefore, List.takeWhile_cons_of_neg (by simp), List.append_nil]

theorem notMem_beforeFirst (separator : Char) (s : List Char) :
    separator ∉ beforeFirst separator s := by
  intro h
  have := of_mem_takeWhile h
  simp at this

/-- A text is what stands before its first separator, or that is followed by a separator. -/
theorem beforeFirst_cases (separator : Char) (s : List Char) :
    s = beforeFirst separator s ∨
      ∃ rest, s = beforeFirst separator s ++ separator :: rest := by
  have hsplit := List.takeWhile_append_dropWhile (p := (· != separator)) (l := s)
  cases hrest : s.dropWhile (· != separator) with
  | nil =>
    rw [hrest, List.append_nil] at hsplit
    exact .inl hsplit.symm
  | cons c rest =>
    have hc : c = separator := by
      have := of_dropWhile_eq_cons hrest
      simpa using this
    rw [hrest, hc] at hsplit
    exact .inr ⟨rest, hsplit.symm⟩

/-- The text with one character in place of another. -/
def replace (old new : Char) (s : List Char) : List Char :=
  s.map fun c => if c = old then new else c

end TypeCatalog.Text
