import TypeCatalog.Proofs.Source.Cursor

/-! # What a cursor comes to

    A sequence of cursors comes to what its parts come to, one after another. A loop is defined by
    numbers of rounds, and from more rounds comes nothing else than from fewer; so it is one round
    and then the same loop again, and each loop of a reader is unfolded round by round. -/

set_option autoImplicit false

namespace TypeCatalog.Source

/-! ## Section 1: Sequences -/

variable {ι σ α β : Type}

theorem result_bind (m : Cursor ι α) (f : α → Cursor ι β) (input : ι) (i : Nat) :
    (m >>= f).result input i = (m.result input i).bind fun
      | .ok (a, j) => (f a).result input j
      | .error e => some (.error e) := by
  show Option.bind (m input i) _ = Option.bind (m input i) _
  congr 1
  funext x
  cases x <;> rfl

theorem result_pure (a : α) (input : ι) (i : Nat) :
    (pure a : Cursor ι α).result input i = some (.ok (a, i)) :=
  rfl

theorem result_step {m : Cursor ι α} {f : α → Cursor ι β} {input : ι} {i j : Nat} {a : α}
    (h : m.result input i = some (.ok (a, j))) :
    (m >>= f).result input i = (f a).result input j := by
  rw [result_bind, h]
  rfl

theorem result_stop {m : Cursor ι α} {f : α → Cursor ι β} {input : ι} {i : Nat} {e : Stop}
    (h : m.result input i = some (.error e)) :
    (m >>= f).result input i = some (.error e) := by
  rw [result_bind, h]
  rfl

theorem result_read (input : ι) (i : Nat) :
    (read : Cursor ι ι).result input i = some (.ok (input, i)) :=
  rfl

theorem result_get (input : ι) (i : Nat) :
    (get : Cursor ι Nat).result input i = some (.ok (i, i)) :=
  rfl

theorem result_modify (f : Nat → Nat) (input : ι) (i : Nat) :
    (modify f : Cursor ι Unit).result input i = some (.ok ((), f i)) :=
  rfl

/-! ## Section 2: Loops -/

namespace Cursor

variable {round : σ → Cursor ι (σ ⊕ α)} {s : σ} {input : ι} {i n l : Nat}
  {x : Except Stop (α × Nat)}

/-- Whatever a round with something after it comes to, it comes to with anything after it that comes
    to as much. -/
theorem result_after_mono {m : Cursor ι (σ ⊕ α)} {k k' : σ → Cursor ι α}
    (hk : ∀ s j, (k s).result input j = some x → (k' s).result input j = some x)
    (h : (m >>= after k).result input i = some x) : (m >>= after k').result input i = some x := by
  rw [result_bind] at h ⊢
  cases hm : m.result input i with
  | none =>
    rw [hm] at h
    cases h
  | some y =>
    rw [hm] at h
    rcases y with e | ⟨s | a, j⟩
    · exact h
    · exact hk s j h
    · exact h

/-- What comes of some rounds comes of more rounds. -/
theorem result_rounds_succ (h : (rounds round n s).result input i = some x) :
    (rounds round (n + 1) s).result input i = some x := by
  induction n generalizing s i with
  | zero => cases h
  | succ n ih => exact result_after_mono (fun _ _ => ih) h

theorem result_rounds_of_le (hle : n ≤ l) (h : (rounds round n s).result input i = some x) :
    (rounds round l s).result input i = some x := by
  induction hle with
  | refl => exact h
  | step _ ih => exact result_rounds_succ ih

/-- A loop comes to what some number of rounds comes to. -/
theorem result_loop_eq_some_iff :
    (loop s round).result input i = some x ↔
      ∃ n, (rounds round n s).result input i = some x := by
  classical
  show (if h : ∃ n, (rounds round n s).result input i ≠ none then
    (rounds round h.choose s).result input i else none) = some x ↔ _
  by_cases hends : ∃ n, (rounds round n s).result input i ≠ none
  · rw [dif_pos hends]
    constructor
    · intro h
      exact ⟨_, h⟩
    · rintro ⟨n, h⟩
      obtain ⟨y, hy⟩ := Option.ne_none_iff_exists'.1 hends.choose_spec
      -- Both numbers of rounds come to what the larger one comes to.
      have hmax := result_rounds_of_le (Nat.le_max_left n hends.choose) h
      rw [result_rounds_of_le (Nat.le_max_right n hends.choose) hy] at hmax
      rw [hy, hmax]
  · rw [dif_neg hends]
    constructor
    · intro h
      cases h
    · rintro ⟨n, h⟩
      exact (hends ⟨n, by rw [h]; exact Option.some_ne_none x⟩).elim

/-- A loop is one round and what comes after it. -/
theorem loop_eq (s : σ) (round : σ → Cursor ι (σ ⊕ α)) :
    loop s round = round s >>= after fun s => loop s round := by
  funext input i
  refine Option.ext fun x => ?_
  show (loop s round).result input i = some x ↔ (round s >>= _).result input i = some x
  rw [result_loop_eq_some_iff]
  constructor
  · rintro ⟨n, h⟩
    cases n with
    | zero => cases h
    | succ n =>
      exact result_after_mono (fun s j hn => result_loop_eq_some_iff.2 ⟨n, hn⟩) h
  · intro h
    -- Only where the loop goes on, the number of rounds depends on what comes after this one.
    rw [result_bind] at h
    cases hround : (round s).result input i with
    | none =>
      rw [hround] at h
      cases h
    | some y =>
      rw [hround] at h
      rcases y with e | ⟨s' | a, j⟩
      · exact ⟨1, by rw [rounds, result_bind, hround]; exact h⟩
      · obtain ⟨n, hn⟩ := result_loop_eq_some_iff.1 h
        exact ⟨n + 1, by rw [rounds, result_bind, hround]; exact hn⟩
      · exact ⟨1, by rw [rounds, result_bind, hround]; exact h⟩

theorem result_loop_again {s' : σ} {j : Nat}
    (h : (round s).result input i = some (.ok (.inl s', j))) :
    (loop s round).result input i = (loop s' round).result input j := by
  rw [loop_eq, result_step h]
  rfl

theorem result_loop_done {a : α} {j : Nat}
    (h : (round s).result input i = some (.ok (.inr a, j))) :
    (loop s round).result input i = some (.ok (a, j)) := by
  rw [loop_eq, result_step h]
  rfl

end Cursor

end TypeCatalog.Source
