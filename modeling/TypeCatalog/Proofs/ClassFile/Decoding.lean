import TypeCatalog.Proofs.ClassFile.Image
import TypeCatalog.Proofs.ClassFile.ModifiedUtf8

/-! # Decoding the bytes of an image

    The decoder reads back what an image says from its bytes, whatever bytes follow. Each reader is
    shown to take exactly the bytes of its part off the front; a sequence of readers then takes the
    bytes of its parts one after the other. -/

set_option autoImplicit false

namespace TypeCatalog.ClassFile

/-! ## Section 1: Readers that take a front -/

/-- The reader takes `front` off any bytes that start with it, and gives `a`. -/
def Takes {α : Type} (r : Reader α) (front : List UInt8) (a : α) : Prop :=
  ∀ rest, r (front ++ rest) = .ok (a, rest)

section takes

variable {α β : Type}

theorem Takes.pure (a : α) : Takes (pure a) [] a := fun _ => rfl

theorem Takes.bind {r : Reader α} {k : α → Reader β} {front after : List UInt8} {a : α} {b : β}
    (hr : Takes r front a) (hk : Takes (k a) after b) : Takes (r >>= k) (front ++ after) b := by
  intro rest
  have hfront : r (front ++ (after ++ rest)) = .ok (a, after ++ rest) := hr (after ++ rest)
  rw [List.append_assoc]
  show (r (front ++ (after ++ rest))).bind _ = _
  rw [hfront]
  exact hk rest

/-- A reader after which nothing more is taken. -/
theorem Takes.bind_nil {r : Reader α} {k : α → Reader β} {front : List UInt8} {a : α} {b : β}
    (hr : Takes r front a) (hk : Takes (k a) [] b) : Takes (r >>= k) front b := by
  have h := hr.bind hk
  rwa [List.append_nil] at h

theorem Takes.bind_pure {r : Reader α} {f : α → β} {front : List UInt8} {a : α}
    (hr : Takes r front a) : Takes (r >>= fun x => Pure.pure (f x)) front (f a) :=
  hr.bind_nil (Takes.pure (f a))

theorem Takes.map {r : Reader α} {front : List UInt8} {a : α} (f : α → β) (hr : Takes r front a) :
    Takes (f <$> r) front (f a) := hr.bind_pure

theorem takes_orFail {r : Except Fault α} {a : α} (h : r = .ok a) : Takes (orFail r) [] a := by
  rw [h]
  exact Takes.pure a

end takes

/-! ## Section 2: Numbers -/

theorem splitExactly_append {α : Type} (front rest : List α) :
    splitExactly front.length (front ++ rest) = some (front, rest) := by
  induction front with
  | nil => rfl
  | cons a front ih =>
    rw [List.length_cons, List.cons_append, splitExactly, ih]
    rfl

theorem takes_bytes (front : List UInt8) : Takes (bytes front.length) front front := by
  intro rest
  unfold bytes
  rw [splitExactly_append]

@[simp]
theorem length_bigEndian (width n : Nat) : (bigEndian width n).length = width := by
  induction width generalizing n with
  | zero => rfl
  | succ width ih =>
    rw [bigEndian, List.length_append, ih]
    rfl

/-- A number that fits is read back from its bytes. -/
theorem natOfBytes_bigEndian (width : Nat) {n : Nat} (h : n < Nat.pow 256 width) :
    natOfBytes (bigEndian width n) = n := by
  induction width generalizing n with
  | zero =>
    have hn : n = 0 := Nat.lt_one_iff.1 h
    rw [hn]
    rfl
  | succ width ih =>
    have hq : n / 256 < Nat.pow 256 width := (Nat.div_lt_iff_lt_mul (by decide)).2 h
    have hlast : natOfBytes (bigEndian width (n / 256) ++ [UInt8.ofNat n]) =
        natOfBytes (bigEndian width (n / 256)) * 256 + (UInt8.ofNat n).toNat := by
      unfold natOfBytes
      rw [List.foldl_append]
      rfl
    rw [bigEndian, hlast, ih hq, UInt8.toNat_ofNat']
    omega

theorem takes_bigEndian (width : Nat) {n : Nat} (h : n < Nat.pow 256 width) {β : Type}
    (f : Nat → β) : Takes (do return f (natOfBytes (← bytes width))) (bigEndian width n) (f n) := by
  have hread := takes_bytes (bigEndian width n)
  rw [length_bigEndian] at hread
  have hbind := hread.bind_pure (f := fun front => f (natOfBytes front))
  rwa [natOfBytes_bigEndian width h] at hbind

theorem takes_u1 (b : UInt8) : Takes u1 [b] b := by
  have h := takes_bigEndian 1 b.toNat_lt UInt8.ofNat
  rwa [UInt8.ofNat_toNat, show bigEndian 1 b.toNat = [b] by simp [bigEndian]] at h

theorem takes_count {n : Nat} (h : n ≤ 65535) : Takes u2 (bigEndian 2 n) (UInt16.ofNat n) :=
  takes_bigEndian 2 (Nat.lt_succ_of_le h) UInt16.ofNat

theorem takes_u2 (u : UInt16) : Takes u2 (bigEndian 2 u.toNat) u := by
  have h := takes_bigEndian 2 u.toNat_lt UInt16.ofNat
  rwa [UInt16.ofNat_toNat] at h

theorem takes_size {n : Nat} (h : n < 4294967296) : Takes u4 (bigEndian 4 n) (UInt32.ofNat n) :=
  takes_bigEndian 4 h UInt32.ofNat

theorem takes_u4 (u : UInt32) : Takes u4 (bigEndian 4 u.toNat) u := by
  have h := takes_bigEndian 4 u.toNat_lt UInt32.ofNat
  rwa [UInt32.ofNat_toNat] at h

theorem takes_u8 (u : UInt64) : Takes u8 (bigEndian 8 u.toNat) u := by
  have h := takes_bigEndian 8 u.toNat_lt UInt64.ofNat
  rwa [UInt64.ofNat_toNat] at h

/-! ## Section 3: Tables -/

section tables

variable {α β : Type} {item : Reader β} {front : α → List UInt8} {value : α → β}

theorem takes_times (hitem : ∀ a, Takes item (front a) (value a)) (items : List α) :
    Takes (times items.length item) (items.flatMap front) (items.map value) := by
  induction items with
  | nil => exact Takes.pure []
  | cons a items ih =>
    rw [List.length_cons, times, List.flatMap_cons, List.map_cons]
    exact (hitem a).bind ih.bind_pure

/-- A table is read item by item. -/
theorem takes_table (hitem : ∀ a, Takes item (front a) (value a)) {items : List α}
    (h : items.length ≤ 65535) :
    Takes (table item) (tableBytes front items) (items.map value) := by
  have hcount : (UInt16.ofNat items.length).toNat = items.length :=
    UInt16.toNat_ofNat_of_lt' (Nat.lt_succ_of_le h)
  unfold table tableBytes
  refine (takes_count h).bind ?_
  rw [hcount]
  exact takes_times hitem items

end tables

/-! ## Section 4: The constant pool -/

theorem takes_text {text : String} (h : (Constant.textBytes text).length ≤ 65535) (index : Nat) :
    Takes (constantBody index 1)
      (bigEndian 2 (Constant.textBytes text).length ++ Constant.textBytes text) (.utf8 text) := by
  have hsize : (UInt16.ofNat (Constant.textBytes text).length).toNat =
      (Constant.textBytes text).length := UInt16.toNat_ofNat_of_lt' (Nat.lt_succ_of_le h)
  have hdecode : ModifiedUtf8.decode (Constant.textBytes text) = .ok text.toList :=
    ModifiedUtf8.decode_encode_text text.toList
  have hfound := (takes_orFail hdecode).bind_pure (f := fun t => Constant.utf8 (String.ofList t))
  rw [String.ofList_toList] at hfound
  refine (takes_count h).bind ?_
  rw [hsize]
  exact (takes_bytes (Constant.textBytes text)).bind_nil hfound

/-- A constant of two indices is read from the bytes of the two. -/
theorem takes_two (f : UInt16 → UInt16 → Constant) (a b : UInt16) :
    Takes (do return f (← u2) (← u2)) (bigEndian 2 a.toNat ++ bigEndian 2 b.toNat) (f a b) :=
  (takes_u2 a).bind (takes_u2 b).bind_pure

/-- A constant is read back from its bytes. -/
theorem takes_constant {c : Constant} (h : c.Fits) (index : Nat) :
    Takes (constant index) c.bytes c := by
  -- The tag is read first, and then the body that the tag asks for.
  have hbody : ∀ {tag : UInt8} {body : List UInt8}, Takes (constantBody index tag) body c →
      Takes (constant index) (tag :: body) c := fun hbody => (takes_u1 _).bind hbody
  cases c with
  | utf8 text => exact hbody (takes_text h index)
  | integer bits => exact hbody (takes_u4 bits).bind_pure
  | float bits => exact hbody (takes_u4 bits).bind_pure
  | long bits => exact hbody (takes_u8 bits).bind_pure
  | double bits => exact hbody (takes_u8 bits).bind_pure
  | classRef name => exact hbody (takes_u2 name).bind_pure
  | string text => exact hbody (takes_u2 text).bind_pure
  | fieldRef owner member => exact hbody (takes_two .fieldRef owner member)
  | methodRef owner member => exact hbody (takes_two .methodRef owner member)
  | interfaceMethodRef owner member => exact hbody (takes_two .interfaceMethodRef owner member)
  | nameAndType name descriptor => exact hbody (takes_two .nameAndType name descriptor)
  | methodHandle kind reference => exact hbody ((takes_u1 kind).bind (takes_u2 reference).bind_pure)
  | methodType descriptor => exact hbody (takes_u2 descriptor).bind_pure
  | dynamic bootstrap member => exact hbody (takes_two .dynamic bootstrap member)
  | invokeDynamic bootstrap member => exact hbody (takes_two .invokeDynamic bootstrap member)
  | moduleRef name => exact hbody (takes_u2 name).bind_pure
  | packageRef name => exact hbody (takes_u2 name).bind_pure

/-- The slots of constants are read from their bytes, those of a wide constant in two steps. The
    induction is on the constants, with the index of the next one at each step. -/
theorem takes_slots (constants : List Constant) (h : ∀ c ∈ constants, c.Fits) (index : Nat) :
    Takes (slots index false (Constant.slotsOf constants).length)
      (constants.flatMap Constant.bytes) (Constant.slotsOf constants) := by
  induction constants generalizing index with
  | nil => exact Takes.pure []
  | cons c constants ih =>
    have hc := takes_constant (h c List.mem_cons_self) index
    have hrest := ih fun d hd => h d (List.mem_cons_of_mem c hd)
    have hslots : Constant.slotsOf (c :: constants) = c.slots ++ Constant.slotsOf constants := rfl
    rw [hslots, List.flatMap_cons, Constant.slots]
    -- After a wide constant one slot is skipped without reading anything.
    by_cases hwide : c.isWide = true
    · rw [if_pos hwide]
      refine hc.bind ?_
      rw [hwide]
      exact ((hrest (index + 1 + 1)).bind_pure (f := fun others => none :: others)).bind_pure
    · rw [if_neg hwide]
      refine hc.bind ?_
      rw [Bool.not_eq_true] at hwide
      rw [hwide]
      exact (hrest (index + 1)).bind_pure

/-- The pool of a list of constants. -/
def Pool.ofConstants (constants : List Constant) : Pool :=
  ⟨(none :: Constant.slotsOf constants).toArray⟩

theorem takes_pool {constants : List Constant} (h : ∀ c ∈ constants, c.Fits)
    (hcount : 1 + (Constant.slotsOf constants).length ≤ 65535) :
    Takes Pool.read (Image.poolBytes constants) (Pool.ofConstants constants) := by
  have hnat : (UInt16.ofNat (1 + (Constant.slotsOf constants).length)).toNat - 1 =
      (Constant.slotsOf constants).length := by
    rw [UInt16.toNat_ofNat_of_lt' (Nat.lt_succ_of_le hcount)]
    omega
  unfold Pool.read Image.poolBytes
  refine (takes_count hcount).bind ?_
  rw [hnat]
  exact (takes_slots constants h 1).bind_pure

theorem Pool.get_ofConstants {constants : List Constant} {index : UInt16} {c : Constant}
    (h : Constant.at? constants index = some c) :
    (Pool.ofConstants constants).get index = .ok c := by
  have hslot : (Pool.ofConstants constants).slots[index.toNat]? = some (some c) := by
    rw [Constant.at?, Option.join_eq_some_iff] at h
    rw [Pool.ofConstants, List.getElem?_toArray]
    exact h
  rw [Pool.get, hslot]

/-! ## Section 5: References and attributes -/

section references

variable {constants : List Constant}

theorem Image.TextRef.text_eq (ref : Image.TextRef constants) :
    (Pool.ofConstants constants).text ref.index = .ok ref.text := by
  rw [Pool.text, Pool.get_ofConstants ref.found]

theorem Image.ClassRef.className_eq (ref : Image.ClassRef constants) :
    (Pool.ofConstants constants).className ref.index = .ok ref.name.text := by
  rw [Pool.className, Pool.get_ofConstants ref.found]
  exact ref.name.text_eq

/-- No class has the index zero. -/
theorem Image.ClassRef.index_ne_zero (ref : Image.ClassRef constants) : ref.index ≠ 0 := by
  intro hzero
  have hfound := ref.found
  rw [hzero] at hfound
  cases hfound

theorem takes_textRef (ref : Image.TextRef constants) :
    Takes (textRef (Pool.ofConstants constants)) (bigEndian 2 ref.index.toNat) ref.text :=
  (takes_u2 ref.index).bind_nil (takes_orFail ref.text_eq)

theorem takes_classNameRef (ref : Image.ClassRef constants) :
    Takes (classNameRef (Pool.ofConstants constants)) (bigEndian 2 ref.index.toNat) ref.name.text :=
  (takes_u2 ref.index).bind_nil (takes_orFail ref.className_eq)

theorem takes_superclass (super : Option (Image.ClassRef constants)) :
    Takes (superclass (Pool.ofConstants constants)) (bigEndian 2 (Image.superIndex super).toNat)
      (super.map fun ref => ref.name.text) := by
  refine (takes_u2 (Image.superIndex super)).bind_nil ?_
  cases super with
  | none => exact Takes.pure none
  | some ref =>
    rw [Image.superIndex, if_neg ref.index_ne_zero]
    exact (takes_orFail ref.className_eq).map some

theorem signatureBody_eq (target : Image.TextRef constants) :
    signatureBody (Pool.ofConstants constants) (bigEndian 2 target.index.toNat) =
      .ok target.text := by
  have hback : natOfBytes (bigEndian 2 target.index.toNat) = target.index.toNat :=
    natOfBytes_bigEndian 2 target.index.toNat_lt
  have hbytes : bigEndian 2 target.index.toNat =
      [UInt8.ofNat (target.index.toNat / 256), UInt8.ofNat target.index.toNat] := rfl
  rw [hbytes] at hback ⊢
  rw [signatureBody, hback, UInt16.ofNat_toNat]
  exact target.text_eq

/-- The bytes of an attribute are read as what it says. Its kind is told by its name alone. -/
theorem takes_attributeEntry (e : Image.Entry constants) :
    Takes (attributeEntry (Pool.ofConstants constants)) e.bytes e.content := by
  unfold attributeEntry
  cases e with
  | signature name isSignature target =>
    have hbody := takes_bytes (bigEndian 2 target.index.toNat)
    rw [length_bigEndian] at hbody
    have hcode : Attribute.signatureName ≠ Attribute.codeName := by decide
    -- The body is kept as it is besides being looked up: its attribute holds no code.
    refine (takes_textRef name).bind ((takes_size (by decide)).bind (hbody.bind_nil ?_))
    simp only [isSignature, if_true, if_neg hcode]
    have hfound := (takes_orFail (signatureBody_eq target)).map some
    refine hfound.bind_nil ?_
    rw [Image.Entry.content, isSignature]
    exact Takes.pure _
  | other name notSignature body fits =>
    have hsize : (UInt32.ofNat body.length).toNat = body.length := UInt32.toNat_ofNat_of_lt' fits
    refine (takes_textRef name).bind ((takes_size fits).bind ?_)
    rw [hsize]
    refine (takes_bytes body).bind_nil ?_
    simp only [if_neg notSignature]
    refine (Takes.pure none).bind_nil ?_
    rw [Image.Entry.content]
    by_cases hcode : name.text = Attribute.codeName
    · rw [if_pos hcode, if_pos hcode]
      exact Takes.pure _
    · rw [if_neg hcode, if_neg hcode]
      exact Takes.pure _

theorem takes_attributes {attributes : List (Image.Entry constants)}
    (h : attributes.length ≤ 65535) :
    Takes (table (attributeEntry (Pool.ofConstants constants)))
      (tableBytes Image.Entry.bytes attributes) (attributes.map Image.Entry.content) :=
  takes_table takes_attributeEntry h

theorem takes_fieldEntry (m : Image.Member constants) :
    Takes (fieldEntry (Pool.ofConstants constants)) m.bytes m.field := by
  unfold fieldEntry Image.Member.bytes
  refine (takes_u2 m.flags).bind ?_
  refine (takes_textRef m.name).bind ?_
  refine (takes_textRef m.descriptor).bind ?_
  exact (takes_attributes m.attributesFit).bind_pure

theorem takes_methodEntry (m : Image.Member constants) :
    Takes (methodEntry (Pool.ofConstants constants)) m.bytes m.method := by
  unfold methodEntry Image.Member.bytes
  refine (takes_u2 m.flags).bind ?_
  refine (takes_textRef m.name).bind ?_
  refine (takes_textRef m.descriptor).bind ?_
  exact (takes_attributes m.attributesFit).bind_pure

end references

/-! ## Section 6: Class files -/

theorem takes_classFile (image : Image) : Takes classFile image.bytes image.content := by
  unfold classFile Image.bytes
  -- One step for each part, in the order of the format.
  refine (takes_bytes magic).bind ?_
  rw [if_neg (not_not_intro rfl)]
  refine (takes_u2 image.version.minor).bind ?_
  refine (takes_u2 image.version.major).bind ?_
  refine (takes_pool image.textsFit image.slotsFit).bind ?_
  refine (takes_u2 image.flags).bind ?_
  refine (takes_classNameRef image.name).bind ?_
  refine (takes_superclass image.superclass).bind ?_
  refine (takes_table takes_classNameRef image.interfacesFit).bind ?_
  refine (takes_table takes_fieldEntry image.fieldsFit).bind ?_
  refine (takes_table takes_methodEntry image.methodsFit).bind ?_
  exact (takes_attributes image.attributesFit).bind_pure

example : (default : Image).bytes =
    [0xCA, 0xFE, 0xBA, 0xBE, 0, 0, 0, 52, 0, 5, 5, 0, 0, 0, 0, 0, 0, 0, 7, 1, 0, 1, 0x41, 7, 0, 3,
      0, 0x21, 0, 4, 0, 0, 0, 0, 0, 0, 0, 0, 0, 0] := by decide

end TypeCatalog.ClassFile
