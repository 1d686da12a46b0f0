import TypeCatalog.Proofs.ClassFile.Decoding
import TypeCatalog.Proofs.Outcome

/-! # Truncated class files

    A class is decided by the bytes it takes and by nothing after them, and no file that is cut
    short within these bytes is taken for anything else. Each reader asks for its bytes before it
    looks at them, so a reader that gives something from a file halts for want of bytes on every
    beginning of the file that is too short for it. This holds of the reader of bytes and passes on
    to every sequence of readers. -/

set_option autoImplicit false

namespace TypeCatalog.ClassFile

/-! ## Section 1: Readers that take no less than all -/

/-- The reader halts for want of bytes on each beginning of `front` that lacks some of it, and asks
    there for more than is left. -/
def Starves {α : Type} (r : Reader α) (front : List UInt8) : Prop :=
  ∀ cut more, front = cut ++ more → more ≠ [] →
    ∃ needed left, r cut = .error (.short needed left) ∧ left ≤ cut.length ∧ left < needed

/-- What the reader gives is decided by the bytes it takes, and by all of them. -/
def Sequential {α : Type} (r : Reader α) : Prop :=
  ∀ s a left, r s = .ok (a, left) → ∃ front, s = front ++ left ∧ Takes r front a ∧ Starves r front

section sequences

variable {α β : Type} {r : Reader α} {k : α → Reader β} {front after : List UInt8} {a : α}

/-- A sequence of two readers halts where the first one does, or else where the second does. -/
theorem Starves.bind (hr : Starves r front) (htakes : Takes r front a) (hk : Starves (k a) after) :
    Starves (r >>= k) (front ++ after) := by
  have hrest : ∀ rest, (r >>= k) (front ++ rest) = k a rest := by
    intro rest
    show (r (front ++ rest)).bind _ = _
    rw [htakes rest]
    rfl
  intro cut more hcut hmore
  rcases List.append_eq_append_iff.1 hcut with ⟨taken, rfl, hafter⟩ | ⟨lacking, hfront, rfl⟩
  · obtain ⟨needed, left, hshort, hleft, hneeded⟩ := hk taken more hafter hmore
    refine ⟨needed, left, (hrest taken).trans hshort, ?_, hneeded⟩
    rw [List.length_append]
    omega
  · by_cases hlacking : lacking = []
    · -- The first reader has just what it needs, and nothing is left for the second.
      rw [hlacking, List.nil_append] at hmore
      rw [hlacking, List.append_nil] at hfront
      obtain ⟨needed, left, hshort, hleft, hneeded⟩ := hk [] after rfl hmore
      have hwhole := (hrest []).trans hshort
      rw [List.append_nil, hfront] at hwhole
      exact ⟨needed, left, hwhole, Nat.le_trans hleft (Nat.zero_le _), hneeded⟩
    · obtain ⟨needed, left, hshort, hleft, hneeded⟩ := hr cut lacking hfront hlacking
      refine ⟨needed, left, ?_, hleft, hneeded⟩
      show (r cut).bind _ = _
      rw [hshort]
      rfl

theorem sequential_pure (a : α) : Sequential (pure a : Reader α) := by
  intro s b left h
  cases h
  refine ⟨[], rfl, Takes.pure a, ?_⟩
  intro cut more hcut hmore
  exact absurd (List.append_eq_nil_iff.1 hcut.symm).2 hmore

theorem Sequential.bind (hr : Sequential r) (hk : ∀ a, Sequential (k a)) :
    Sequential (r >>= k) := by
  intro s b left h
  obtain ⟨⟨a, rest⟩, hfirst, hsecond⟩ := bind_eq_ok.1 h
  obtain ⟨front, hs, htakes, hstarves⟩ := hr s a rest hfirst
  obtain ⟨after, hrest, htakes', hstarves'⟩ := hk a rest b left hsecond
  refine ⟨front ++ after, ?_, htakes.bind htakes', hstarves.bind htakes hstarves'⟩
  rw [hs, hrest, List.append_assoc]

theorem Sequential.bind_pure (hr : Sequential r) (f : α → β) :
    Sequential (r >>= fun a => pure (f a)) :=
  hr.bind fun a => sequential_pure (f a)

theorem Sequential.map (hr : Sequential r) (f : α → β) : Sequential (f <$> r) :=
  hr.bind_pure f

/-- A reader that gives nothing has nothing to be decided. -/
theorem sequential_fail (f : Fault) : Sequential (fail f : Reader α) := fun _ _ _ h => nomatch h

theorem sequential_orFail (found : Except Fault α) : Sequential (orFail found) := by
  cases found with
  | ok a => exact sequential_pure a
  | error f => exact sequential_fail f

end sequences

/-! ## Section 2: Bytes and numbers -/

theorem splitExactly_eq_some {α : Type} {n : Nat} {s front left : List α}
    (h : splitExactly n s = some (front, left)) : s = front ++ left ∧ front.length = n := by
  induction n generalizing s front with
  | zero =>
    cases h
    exact ⟨rfl, rfl⟩
  | succ n ih =>
    cases s with
    | nil => cases h
    | cons a s =>
      rw [splitExactly, Option.map_eq_some_iff] at h
      obtain ⟨⟨found, rest⟩, hfound, hpair⟩ := h
      cases hpair
      obtain ⟨hs, hlength⟩ := ih hfound
      exact ⟨congrArg (a :: ·) hs, congrArg (· + 1) hlength⟩

theorem splitExactly_eq_none {α : Type} {n : Nat} {s : List α} (h : s.length < n) :
    splitExactly n s = none := by
  induction n generalizing s with
  | zero => omega
  | succ n ih =>
    cases s with
    | nil => rfl
    | cons a s =>
      rw [splitExactly, ih (Nat.lt_of_succ_lt_succ h)]
      rfl

/-- Bytes are asked for before any of them is looked at. -/
theorem sequential_bytes (count : Nat) : Sequential (bytes count) := by
  intro s found left h
  unfold bytes at h
  split at h
  · next front rest hsplit =>
    cases h
    obtain ⟨hs, hcount⟩ := splitExactly_eq_some hsplit
    subst hcount
    refine ⟨found, hs, takes_bytes found, ?_⟩
    intro cut more hcut hmore
    have hless : cut.length < found.length := by
      have hpositive := List.length_pos_iff.2 hmore
      rw [hcut, List.length_append]
      omega
    refine ⟨found.length, cut.length, ?_, Nat.le_refl _, hless⟩
    rw [bytes, splitExactly_eq_none hless]
  · cases h

theorem sequential_u1 : Sequential u1 := (sequential_bytes 1).bind_pure _

theorem sequential_u2 : Sequential u2 := (sequential_bytes 2).bind_pure _

theorem sequential_u4 : Sequential u4 := (sequential_bytes 4).bind_pure _

theorem sequential_u8 : Sequential u8 := (sequential_bytes 8).bind_pure _

/-! ## Section 3: Tables and constants -/

theorem sequential_times {α : Type} {item : Reader α} (hitem : Sequential item) (n : Nat) :
    Sequential (times n item) := by
  induction n with
  | zero => exact sequential_pure []
  | succ n ih => exact hitem.bind fun a => ih.bind_pure (a :: ·)

theorem sequential_table {α : Type} {item : Reader α} (hitem : Sequential item) :
    Sequential (table item) :=
  sequential_u2.bind fun count => sequential_times hitem count.toNat

/-- A constant of two indices. -/
theorem sequential_two (f : UInt16 → UInt16 → Constant) :
    Sequential (do return f (← u2) (← u2)) :=
  sequential_u2.bind fun a => sequential_u2.bind_pure (f a)

theorem sequential_text :
    Sequential (do
      let length ← u2
      let text ← orFail (ModifiedUtf8.decode (← bytes length.toNat))
      return Constant.utf8 (String.ofList text)) :=
  sequential_u2.bind fun length => (sequential_bytes length.toNat).bind fun front =>
    (sequential_orFail (ModifiedUtf8.decode front)).bind_pure fun text =>
      Constant.utf8 (String.ofList text)

/-- Whatever the tag asks for. A tag that no constant has gives nothing. -/
theorem sequential_constantBody (index : Nat) (tag : UInt8) :
    Sequential (constantBody index tag) := by
  unfold constantBody
  split
  · exact sequential_text
  · exact sequential_u4.bind_pure Constant.integer
  · exact sequential_u4.bind_pure Constant.float
  · exact sequential_u8.bind_pure Constant.long
  · exact sequential_u8.bind_pure Constant.double
  · exact sequential_u2.bind_pure Constant.classRef
  · exact sequential_u2.bind_pure Constant.string
  · exact sequential_two .fieldRef
  · exact sequential_two .methodRef
  · exact sequential_two .interfaceMethodRef
  · exact sequential_two .nameAndType
  · exact sequential_u1.bind fun kind => sequential_u2.bind_pure (Constant.methodHandle kind)
  · exact sequential_u2.bind_pure Constant.methodType
  · exact sequential_two .dynamic
  · exact sequential_two .invokeDynamic
  · exact sequential_u2.bind_pure Constant.moduleRef
  · exact sequential_u2.bind_pure Constant.packageRef
  · exact sequential_fail (.unknownTag tag index)

theorem sequential_slots (index : Nat) (pending : Bool) (n : Nat) :
    Sequential (slots index pending n) := by
  induction n generalizing index pending with
  | zero => exact sequential_pure []
  | succ n ih =>
    unfold slots
    split
    · exact (ih (index + 1) false).bind_pure (none :: ·)
    · exact (sequential_u1.bind (sequential_constantBody index)).bind fun found =>
        (ih (index + 1) found.isWide).bind_pure (some found :: ·)

theorem sequential_pool : Sequential Pool.read :=
  sequential_u2.bind fun count =>
    (sequential_slots 1 false (count.toNat - 1)).bind_pure fun found =>
      (⟨(none :: found).toArray⟩ : Pool)

/-! ## Section 4: Classes -/

section references

variable (pool : Pool)

theorem sequential_textRef : Sequential (textRef pool) :=
  sequential_u2.bind fun index => sequential_orFail (pool.text index)

theorem sequential_classNameRef : Sequential (classNameRef pool) :=
  sequential_u2.bind fun index => sequential_orFail (pool.className index)

theorem sequential_superclass : Sequential (superclass pool) := by
  refine sequential_u2.bind fun index => ?_
  split
  · exact sequential_pure none
  · exact (sequential_orFail (pool.className index)).map some

/-- The body is taken whole by its length; what it says is looked up afterwards. -/
theorem sequential_attributeEntry : Sequential (attributeEntry pool) := by
  refine (sequential_textRef pool).bind fun name => ?_
  refine sequential_u4.bind fun length => ?_
  refine (sequential_bytes length.toNat).bind fun body => ?_
  by_cases hsignature : name = Attribute.signatureName
  · simp only [if_pos hsignature]
    exact ((sequential_orFail (signatureBody pool body)).map some).bind_pure _
  · simp only [if_neg hsignature]
    exact (sequential_pure none).bind_pure _

theorem sequential_attributes : Sequential (table (attributeEntry pool)) :=
  sequential_table (sequential_attributeEntry pool)

theorem sequential_fieldEntry : Sequential (fieldEntry pool) :=
  sequential_u2.bind fun _ => (sequential_textRef pool).bind fun _ =>
    (sequential_textRef pool).bind fun _ => (sequential_attributes pool).bind_pure _

theorem sequential_methodEntry : Sequential (methodEntry pool) :=
  sequential_u2.bind fun _ => (sequential_textRef pool).bind fun _ =>
    (sequential_textRef pool).bind fun _ => (sequential_attributes pool).bind_pure _

end references

theorem sequential_classFile : Sequential classFile := by
  refine (sequential_bytes 4).bind fun start => ?_
  split
  · exact fun _ _ _ h => nomatch h
  -- One step for each part, in the order of the format.
  · refine sequential_u2.bind fun minor => ?_
    refine sequential_u2.bind fun major => ?_
    refine sequential_pool.bind fun pool => ?_
    refine sequential_u2.bind fun flags => ?_
    refine (sequential_classNameRef pool).bind fun name => ?_
    refine (sequential_superclass pool).bind fun super => ?_
    refine (sequential_table (sequential_classNameRef pool)).bind fun interfaces => ?_
    refine (sequential_table (sequential_fieldEntry pool)).bind fun fields => ?_
    refine (sequential_table (sequential_methodEntry pool)).bind fun methods => ?_
    exact (sequential_attributes pool).bind_pure _

/-! ## Section 5: Cut files -/

/-- A class that is decoded from a file is decided by the first `n` bytes of the file: every file
    that begins with them gives the same class, whatever follows, and the file cut before the last
    of them is reported as truncated, by a need that starts in what is left and ends past it. -/
theorem decode_decided_by_front {file : List UInt8} {c : CompiledClass}
    (h : decode file = .ok c) :
    ∃ n ≤ file.length, (∀ other, file.take n <+: other → decode other = .ok c) ∧
      ∀ k < n, ∃ needed offset, decode (file.take k) = .error (.truncated needed offset) ∧
        offset ≤ k ∧ k < offset + needed := by
  unfold decode at h
  split at h
  · next found left hfile =>
    cases h
    obtain ⟨front, hs, htakes, hstarves⟩ := sequential_classFile file c left hfile
    have hsize : file.length = front.length + left.length := by rw [hs, List.length_append]
    have hfront : file.take front.length = front := by rw [hs, List.take_left]
    refine ⟨front.length, by omega, ?_, ?_⟩
    · rintro other ⟨rest, hother⟩
      rw [hfront] at hother
      rw [decode, ← hother, htakes rest]
    · intro k hk
      have hsplit : front = file.take k ++ front.drop k := by
        rw [hs, List.take_append_of_le_length (Nat.le_of_lt hk), List.take_append_drop]
      have hmore : front.drop k ≠ [] := by
        rw [ne_eq, List.drop_eq_nil_iff]
        omega
      have hcut : (file.take k).length = k := by
        rw [List.length_take]
        omega
      obtain ⟨needed, rest, hshort, hrest, hneeded⟩ := hstarves _ _ hsplit hmore
      rw [hcut] at hrest
      refine ⟨needed, k - rest, ?_, by omega, by omega⟩
      rw [decode, hshort]
      show Except.error (Fault.truncated needed ((file.take k).length - rest)) = _
      rw [hcut]
  · cases h

/-- A class behind which two more bytes stand. -/
theorem decode_decided_by_front_default :
    decode ((default : Image).bytes ++ [1, 2]) = .ok (default : Image).content ∧
      ∃ n ≤ ((default : Image).bytes ++ [1, 2]).length,
        (∀ other, ((default : Image).bytes ++ [1, 2]).take n <+: other →
          decode other = .ok (default : Image).content) ∧
        ∀ k < n, ∃ needed offset,
          decode (((default : Image).bytes ++ [1, 2]).take k) = .error (.truncated needed offset) ∧
            offset ≤ k ∧ k < offset + needed := by
  have hdecode : decode ((default : Image).bytes ++ [1, 2]) = .ok (default : Image).content := by
    rw [decode, takes_classFile default [1, 2]]
  exact ⟨hdecode, decode_decided_by_front hdecode⟩

end TypeCatalog.ClassFile
