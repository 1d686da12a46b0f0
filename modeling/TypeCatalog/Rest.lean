/-! # What a reader leaves

    A reader takes something from the front of a list and leaves a suffix of it. `Rest s` is such a
    suffix, possibly all of `s`; `Tail s` is one that is strictly shorter, left by a reader that
    took at least one item. A loop that reads on what a `Tail` leaves ends, and the text that was
    taken is what stands before the suffix.
-/

set_option autoImplicit false

namespace TypeCatalog

variable {α : Type} {s : List α}

/-- A suffix of `s`. -/
structure Rest (s : List α) where
  /-- The items left. -/
  left : List α
  /-- They end the list. -/
  isSuffix : left <:+ s

/-- A suffix of `s` shorter than `s`. -/
structure Tail (s : List α) extends Rest s where
  /-- At least one item was taken. -/
  lt : left.length < s.length

/-! ## Section 1: Suffixes that may be the whole list -/

theorem Rest.length_le (r : Rest s) : r.left.length ≤ s.length :=
  r.isSuffix.length_le

/-- Nothing is taken. -/
def Rest.all (s : List α) : Rest s := ⟨s, List.suffix_refl s⟩

/-- The items taken to leave `left`. -/
def takenBefore (s left : List α) : List α :=
  s.take (s.length - left.length)

theorem takenBefore_append {left : List α} (h : left <:+ s) : takenBefore s left ++ left = s := by
  obtain ⟨taken, rfl⟩ := h
  simp [takenBefore]

/-- What a predicate holds on is taken. -/
def Rest.dropWhile (p : α → Bool) (s : List α) : Rest s := ⟨s.dropWhile p, List.dropWhile_suffix p⟩

/-- One reader after another. -/
def Rest.append (r : Rest s) (r' : Rest r.left) : Rest s := ⟨r'.left, r'.isSuffix.trans r.isSuffix⟩

/-! ## Section 2: Strictly shorter suffixes -/

/-- One item is taken. -/
def Tail.one (a : α) (s : List α) : Tail (a :: s) := ⟨⟨s, List.suffix_cons a s⟩, by simp⟩

/-- One item is taken, then what a reader of the others takes. -/
def Tail.cons (a : α) (r : Rest s) : Tail (a :: s) :=
  ⟨⟨r.left, r.isSuffix.trans (List.suffix_cons a s)⟩, Nat.lt_succ_of_le r.length_le⟩

/-- The given items are taken, one at least. -/
def Tail.ofTaken (a : α) (taken s : List α) : Tail (a :: (taken ++ s)) :=
  ⟨⟨s, (List.suffix_append taken s).trans (List.suffix_cons a (taken ++ s))⟩, by
    simp only [List.length_cons, List.length_append]
    omega⟩

/-- A reader that takes something, then another one. -/
def Tail.append (r : Tail s) (r' : Rest r.left) : Tail s :=
  ⟨⟨r'.left, r'.isSuffix.trans r.isSuffix⟩, Nat.lt_of_le_of_lt r'.length_le r.lt⟩

/-- A reader that may take nothing, then one that takes something. -/
def Rest.before (r : Rest s) (r' : Tail r.left) : Tail s :=
  ⟨⟨r'.left, r'.isSuffix.trans r.isSuffix⟩, Nat.lt_of_lt_of_le r'.lt r.length_le⟩

@[simp]
theorem Rest.left_all : (Rest.all s).left = s := rfl

@[simp]
theorem Tail.left_one (a : α) : (Tail.one a s).left = s := rfl

@[simp]
theorem Tail.left_cons (a : α) (r : Rest s) : (Tail.cons a r).left = r.left := rfl

@[simp]
theorem Tail.left_ofTaken (a : α) (taken : List α) : (Tail.ofTaken a taken s).left = s := rfl

@[simp]
theorem Tail.left_append (r : Tail s) (r' : Rest r.left) : (r.append r').left = r'.left := rfl

@[simp]
theorem Rest.left_append (r : Rest s) (r' : Rest r.left) : (r.append r').left = r'.left := rfl

@[simp]
theorem Rest.left_before (r : Rest s) (r' : Tail r.left) : (r.before r').left = r'.left := rfl

/-- Two suffixes with the same items left are the same. -/
@[ext]
theorem Rest.ext_left {r r' : Rest s} (h : r.left = r'.left) : r = r' := by
  cases r; cases r'; cases h; rfl

@[ext]
theorem Tail.ext_left {r r' : Tail s} (h : r.left = r'.left) : r = r' := by
  obtain ⟨r, _⟩ := r
  obtain ⟨r', _⟩ := r'
  have : r = r' := Rest.ext_left h
  subst this
  rfl

end TypeCatalog
