import TypeCatalog.Toml.Basic

/-! # Places of texts

    A text in a value is reached by steps from the value to parts of it. Another text can be put in
    its place. Nothing that adds to tables looks at texts: what is added to members with another
    text in a place is added as before, and the place is where it was. -/

set_option autoImplicit false

namespace TypeCatalog.Toml

/-! ## Section 1: Places in values -/

/-- A step from a value to a part of it. -/
inductive Step where
  /-- To the member of a name. -/
  | member (name : String)
  /-- To the item of an index. Tables with one header are counted from the first one in the file. -/
  | item (index : Nat)

/-- The members with the value of a name changed. -/
def Members.change (members : Members) (name : String) (f : Toml → Toml) : Members :=
  List.map (fun m => if m.1 = name then (m.1, f m.2) else m) members

/-- Items that were put in front of each other, with the one of an index changed. -/
def changeStacked (index : Nat) (f : Toml → Toml) : List Toml → List Toml
  | [] => []
  | t :: items =>
    if index = items.length then f t :: items else t :: changeStacked index f items

/-- The value with another text in a place. -/
def put (w : String) : List Step → Toml → Toml
  | [], _ => .text w
  | .member name :: p, .table origin members =>
    .table origin (Members.change members name (put w p))
  | .item index :: p, .array items => .array (items.modify index (put w p))
  | .item index :: p, .tables items => .tables (changeStacked index (put w p) items)
  | _ :: _, t => t

/-- A text is in a place of a value. -/
inductive HoldsText : List Step → Toml → Prop
  | here (w : String) : HoldsText [] (.text w)
  | member {name : String} {p : List Step} {origin : TableOrigin} {members : Members} {t : Toml} :
      members.get? name = some t → HoldsText p t →
      HoldsText (.member name :: p) (.table origin members)
  | item {index : Nat} {p : List Step} {items : List Toml} {t : Toml} :
      items[index]? = some t → HoldsText p t → HoldsText (.item index :: p) (.array items)
  | last {p : List Step} {items : List Toml} {t : Toml} :
      HoldsText p t → HoldsText (.item items.length :: p) (.tables (t :: items))
  | earlier {index : Nat} {p : List Step} {items : List Toml} {t : Toml} :
      HoldsText (.item index :: p) (.tables items) →
      HoldsText (.item index :: p) (.tables (t :: items))

theorem HoldsText.lt_length {index : Nat} {p : List Step} {items : List Toml}
    (h : HoldsText (.item index :: p) (.tables items)) : index < items.length := by
  induction items with
  | nil => cases h
  | cons t items ih =>
    cases h with
    | last _ => exact Nat.lt_succ_self _
    | earlier h => exact Nat.lt_succ_of_lt (ih h)

/-- The members with another text in a place of one of them. -/
def Members.put (name : String) (p : List Step) (w : String) (members : Members) : Members :=
  members.change name (Toml.put w p)

/-- A text is in a place of a member. -/
def Members.HoldsText (name : String) (p : List Step) (members : Members) : Prop :=
  ∃ t, members.get? name = some t ∧ Toml.HoldsText p t

/-! ## Section 2: Members -/

namespace Members

variable {members : Members} {name other : String} {f : Toml → Toml} {t : Toml}

theorem get?_cons (m : String × Toml) (members : Members) (name : String) :
    get? (m :: members) name = if name = m.1 then some m.2 else members.get? name := by
  unfold get?
  rw [List.lookup_cons]
  by_cases h : name = m.1
  · rw [if_pos h, beq_iff_eq.2 h]
  · rw [if_neg h, beq_false_of_ne h]

theorem get?_change (members : Members) (name other : String) (f : Toml → Toml) :
    (members.change name f).get? other =
      if other = name then (members.get? other).map f else members.get? other := by
  induction members with
  | nil =>
    show (none : Option Toml) = _
    split
    · rfl
    · rfl
  | cons m members ih =>
    show get? ((if m.1 = name then (m.1, f m.2) else m) :: change members name f) other = _
    rw [get?_cons, get?_cons, ih]
    by_cases hm : other = m.1
    · subst hm
      by_cases hname : m.1 = name
      · simp [hname]
      · simp [hname]
    · have hhead : (if m.1 = name then (m.1, f m.2) else m).1 = m.1 := by
        split
        · rfl
        · rfl
      rw [hhead, if_neg hm, if_neg hm]

theorem get?_set (members : Members) (name other : String) (t : Toml) :
    (members.set name t).get? other =
      if other = name then (members.get? other).map fun _ => t else members.get? other := by
  induction members with
  | nil =>
    show (none : Option Toml) = _
    split
    · rfl
    · rfl
  | cons m members ih =>
    show get? ((if m.1 = name then (name, t) else m) :: set members name t) other = _
    rw [get?_cons, get?_cons, ih]
    by_cases hm : other = m.1
    · subst hm
      by_cases hname : m.1 = name
      · simp [hname]
      · simp [hname]
    · by_cases hname : m.1 = name
      · subst hname
        simp [hm]
      · simp [hname, hm]

theorem get?_add (members : Members) (name other : String) (t : Toml) :
    (members.add name t).get? other =
      (members.get? other).or (if other = name then some t else none) := by
  induction members with
  | nil =>
    show get? [(name, t)] other = _
    rw [get?_cons]
    rfl
  | cons m members ih =>
    show get? (m :: add members name t) other = _
    rw [get?_cons, get?_cons, ih]
    split
    · rfl
    · rfl

theorem set_change_self (members : Members) (name : String) (f : Toml → Toml) (t : Toml) :
    (members.change name f).set name t = members.set name t := by
  unfold set change
  rw [List.map_map]
  apply List.map_congr_left
  intro m _
  by_cases h : m.1 = name
  · simp [h]
  · simp [h]

theorem change_set_self (members : Members) (name : String) (f : Toml → Toml) (t : Toml) :
    (members.set name t).change name f = members.set name (f t) := by
  unfold set change
  rw [List.map_map]
  apply List.map_congr_left
  intro m _
  by_cases h : m.1 = name
  · simp [h]
  · simp [h]

theorem change_set (h : other ≠ name) (members : Members) (f : Toml → Toml) (t : Toml) :
    (members.set other t).change name f = (members.change name f).set other t := by
  unfold set change
  rw [List.map_map, List.map_map]
  apply List.map_congr_left
  intro m _
  by_cases hm : m.1 = name
  · have hother : m.1 ≠ other := fun hm' => h (hm'.symm.trans hm)
    simp [hm, h.symm]
  · by_cases hm' : m.1 = other
    · simp [hm', h]
    · simp [hm, hm']

theorem change_add (h : other ≠ name) (members : Members) (f : Toml → Toml) (t : Toml) :
    (members.add other t).change name f = (members.change name f).add other t := by
  simp [add, change, h]

theorem change_of_get?_eq_none (h : members.get? name = none) (f : Toml → Toml) :
    members.change name f = members := by
  induction members with
  | nil => rfl
  | cons m members ih =>
    rw [get?_cons] at h
    by_cases hm : name = m.1
    · rw [if_pos hm] at h
      cases h
    · rw [if_neg hm] at h
      show (if m.1 = name then (m.1, f m.2) else m) :: change members name f = _
      rw [if_neg (Ne.symm hm), ih h]

theorem change_add_self (h : members.get? name = none) (f : Toml → Toml) (t : Toml) :
    (members.add name t).change name f = members.add name (f t) := by
  have hrest := change_of_get?_eq_none h f
  unfold change at hrest
  simp [add, change, hrest]

end Members

/-! ## Section 3: One member at a time -/

/-- Add a member, or rebuild the value of the one that is there. -/
def updateAt (name : String) (new : Option Toml) (rebuild : Toml → Option Toml)
    (members : Members) : Option Members :=
  match members.get? name with
  | none => new.map (members.add name)
  | some t => (rebuild t).map (members.set name)

/-- What changes members does not depend on the text in a place, and leaves it there. -/
def Keeps (change : Members → Option Members) : Prop :=
  ∀ (name : String) (p : List Step) (members members' : Members), members.HoldsText name p →
    change members = some members' →
    members'.HoldsText name p ∧ ∀ w, change (members.put name p w) = some (members'.put name p w)

/-- What rebuilds values does not depend on the text in a place, and leaves it there. -/
def KeepsInside (rebuild : Toml → Option Toml) : Prop :=
  ∀ (p : List Step) (t t' : Toml), HoldsText p t → rebuild t = some t' →
    HoldsText p t' ∧ ∀ w, rebuild (put w p t) = some (put w p t')

/-- `change` brings a text into a place, where `changeWith` brings any other text. -/
def Brings (change : Members → Option Members) (changeWith : String → Members → Option Members) :
    Prop :=
  ∀ members members' : Members, change members = some members' →
    ∃ name p, members'.HoldsText name p ∧
      ∀ w, changeWith w members = some (members'.put name p w)

/-- `t` is brought with a text in a place, where `with` brings any other text. -/
def BringsInside (t : Option Toml) (changed : String → Option Toml) : Prop :=
  ∀ t', t = some t' → ∃ p, HoldsText p t' ∧ ∀ w, changed w = some (put w p t')

section update

variable {name : String} {new : Option Toml} {rebuild : Toml → Option Toml}

theorem updateAt_of_none {members : Members} (h : members.get? name = none) :
    updateAt name new rebuild members = new.map (members.add name) := by
  rw [updateAt, h]

theorem updateAt_of_some {members : Members} {t : Toml} (h : members.get? name = some t) :
    updateAt name new rebuild members = (rebuild t).map (members.set name) := by
  rw [updateAt, h]

theorem updateAt_keeps (h : KeepsInside rebuild) : Keeps (updateAt name new rebuild) := by
  intro place p members members' hplace hupdate
  obtain ⟨held, hheld, htext⟩ := hplace
  -- The members with another text in the place, as they are seen from the name.
  have hget : ∀ w, (members.put place p w).get? name =
      if name = place then (members.get? name).map (put w p) else members.get? name := fun w =>
    Members.get?_change members place name (put w p)
  cases hname : members.get? name with
  | none =>
    have hne : name ≠ place := by
      rintro rfl
      rw [hname] at hheld
      cases hheld
    rw [updateAt_of_none hname] at hupdate
    obtain ⟨t, rfl, rfl⟩ := Option.map_eq_some_iff.1 hupdate
    refine ⟨⟨held, ?_, htext⟩, fun w => ?_⟩
    · rw [Members.get?_add, hheld]
      rfl
    · rw [updateAt_of_none (by rw [hget, if_neg hne, hname]), Option.map_some, Members.put,
        Members.put, Members.change_add hne]
  | some t =>
    rw [updateAt_of_some hname] at hupdate
    obtain ⟨t', ht', rfl⟩ := Option.map_eq_some_iff.1 hupdate
    by_cases hsame : name = place
    · subst hsame
      obtain rfl : t = held := Option.some.inj (hname.symm.trans hheld)
      obtain ⟨htext', hput⟩ := h p t t' htext ht'
      refine ⟨⟨t', ?_, htext'⟩, fun w => ?_⟩
      · rw [Members.get?_set, if_pos rfl, hname]
        rfl
      · rw [updateAt_of_some (by rw [hget, if_pos rfl, hname]; rfl), hput, Option.map_some,
          Members.put, Members.put, Members.set_change_self, Members.change_set_self]
    · refine ⟨⟨held, ?_, htext⟩, fun w => ?_⟩
      · rw [Members.get?_set, if_neg (Ne.symm hsame), hheld]
      · rw [updateAt_of_some (by rw [hget, if_neg hsame, hname]), ht', Option.map_some,
          Members.put, Members.put, Members.change_set hsame]

theorem updateAt_brings {newWith : String → Option Toml}
    {rebuildWith : String → Toml → Option Toml} (hnew : BringsInside new newWith)
    (hrebuild : ∀ t, BringsInside (rebuild t) fun w => rebuildWith w t) :
    Brings (updateAt name new rebuild) fun w => updateAt name (newWith w) (rebuildWith w) := by
  intro members members' hupdate
  cases hname : members.get? name with
  | none =>
    rw [updateAt_of_none hname] at hupdate
    obtain ⟨t, ht, rfl⟩ := Option.map_eq_some_iff.1 hupdate
    obtain ⟨p, htext, hput⟩ := hnew t ht
    refine ⟨name, p, ⟨t, ?_, htext⟩, fun w => ?_⟩
    · rw [Members.get?_add, hname, if_pos rfl]
      rfl
    · show updateAt name (newWith w) (rebuildWith w) members = _
      rw [updateAt_of_none hname, hput, Option.map_some, Members.put,
        Members.change_add_self hname]
  | some t =>
    rw [updateAt_of_some hname] at hupdate
    obtain ⟨t', ht', rfl⟩ := Option.map_eq_some_iff.1 hupdate
    obtain ⟨p, htext, hput⟩ := hrebuild t t' ht'
    refine ⟨name, p, ⟨t', ?_, htext⟩, fun w => ?_⟩
    · rw [Members.get?_set, if_pos rfl, hname]
      rfl
    · show updateAt name (newWith w) (rebuildWith w) members = _
      rw [updateAt_of_some hname, show rebuildWith w t = _ from hput w, Option.map_some,
        Members.put, Members.change_set_self]

end update

/-! ## Section 4: Tables that keys and headers lead to -/

/-- What is around the members of a table that keys and headers can lead to. -/
inductive Shell where
  /-- A table by itself. -/
  | single (origin : TableOrigin)
  /-- The last one of several tables with one header. -/
  | stacked (origin : TableOrigin) (items : List Toml)

namespace Shell

/-- The value with members inside. -/
def around : Shell → Members → Toml
  | single origin, inner => .table origin inner
  | stacked origin items, inner => .tables (.table origin inner :: items)

/-- How a table by itself came about. -/
def origin? : Shell → Option TableOrigin
  | single origin => some origin
  | stacked _ _ => none

/-- The steps to the table. -/
def steps : Shell → List Step
  | single _ => []
  | stacked _ items => [.item items.length]

variable {inner : Members} {name : String} {p : List Step}

theorem put_around (shell : Shell) (inner : Members) (name : String) (p : List Step) (w : String) :
    Toml.put w (shell.steps ++ .member name :: p) (shell.around inner) =
      shell.around (inner.put name p w) := by
  cases shell with
  | single origin => rfl
  | stacked origin items =>
    show Toml.tables (changeStacked items.length _ (.table origin inner :: items)) = _
    rw [changeStacked, if_pos rfl]
    rfl

theorem holdsText_around (shell : Shell) (h : inner.HoldsText name p) :
    HoldsText (shell.steps ++ .member name :: p) (shell.around inner) := by
  obtain ⟨t, hget, htext⟩ := h
  cases shell with
  | single origin => exact .member hget htext
  | stacked origin items => exact .last (.member hget htext)

/-- A place is inside of the members, or it is around them, whatever they are. -/
theorem inside_or_around {shell : Shell} (h : HoldsText p (shell.around inner)) :
    (∃ name q, p = shell.steps ++ .member name :: q ∧ inner.HoldsText name q) ∨
    ∃ others : String → Shell, (∀ w, (others w).origin? = shell.origin?) ∧
      ∀ inner', HoldsText p (shell.around inner') ∧
        ∀ w, Toml.put w p (shell.around inner') = (others w).around inner' := by
  cases shell with
  | single origin =>
    cases h with
    | member hget htext => exact .inl ⟨_, _, rfl, _, hget, htext⟩
  | stacked origin items =>
    cases h with
    | last h =>
      cases h with
      | member hget htext => exact .inl ⟨_, _, rfl, _, hget, htext⟩
    | @earlier index q _ _ h =>
      have hne : index ≠ items.length := Nat.ne_of_lt h.lt_length
      refine .inr ⟨fun w => .stacked origin (changeStacked index (Toml.put w q) items),
        fun _ => rfl, fun inner' => ⟨.earlier h, fun w => ?_⟩⟩
      show Toml.tables (changeStacked index _ (.table origin inner' :: items)) = _
      rw [changeStacked, if_neg hne]
      rfl

end Shell

/-- The members inside a value, and what is around them. -/
def opened? : Toml → Option (Shell × Members)
  | .table origin inner => some (.single origin, inner)
  | .tables (.table origin inner :: items) => some (.stacked origin items, inner)
  | _ => none

theorem opened?_around (shell : Shell) (inner : Members) :
    opened? (shell.around inner) = some (shell, inner) := by
  cases shell with
  | single origin => rfl
  | stacked origin items => rfl

theorem eq_around_of_opened? {t : Toml} {shell : Shell} {inner : Members}
    (h : opened? t = some (shell, inner)) : t = shell.around inner := by
  unfold opened? at h
  split at h
  · cases h
    rfl
  · cases h
    rfl
  · cases h

/-- Change the members inside a value, if that is allowed. -/
def changeInside (allowed : Option TableOrigin → Bool) (change : Members → Option Members)
    (t : Toml) : Option Toml :=
  match opened? t with
  | some (shell, inner) =>
    if allowed shell.origin? then (change inner).map shell.around else none
  | none => none

/-- Change the members of the table that a name leads to; it is made if it is missing. -/
def changeMember (name : String) (made : TableOrigin) (allowed : Option TableOrigin → Bool)
    (change : Members → Option Members) : Members → Option Members :=
  updateAt name ((change []).map (.table made)) (changeInside allowed change)

section inside

variable {allowed : Option TableOrigin → Bool} {change : Members → Option Members}

/-- The values that can be changed, one by one. -/
theorem changeMember_eq (name : String) (made : TableOrigin) (members : Members) :
    changeMember name made allowed change members =
      match members.get? name with
      | none => (change []).map fun inner => members.add name (.table made inner)
      | some (.table origin inner) =>
        if allowed (some origin) then
          (change inner).map fun inner => members.set name (.table origin inner)
        else none
      | some (.tables (.table origin inner :: items)) =>
        if allowed none then
          (change inner).map fun inner => members.set name (.tables (.table origin inner :: items))
        else none
      | some _ => none := by
  have hinside : ∀ shell : Shell, ∀ inner, (changeInside allowed change (shell.around inner)).map
      (members.set name) = if allowed shell.origin? then
        (change inner).map fun inner => members.set name (shell.around inner) else none := by
    intro shell inner
    unfold changeInside
    simp only [opened?_around]
    split
    · exact Option.map_map ..
    · rfl
  unfold changeMember updateAt
  cases members.get? name with
  | none => exact Option.map_map ..
  | some t =>
    cases t with
    | table origin inner => exact hinside (.single origin) inner
    | tables items =>
      cases items with
      | nil => rfl
      | cons t items =>
        cases t with
        | table origin inner => exact hinside (.stacked origin items) inner
        | _ => rfl
    | _ => rfl

theorem changeInside_eq_some_iff {t t' : Toml} :
    changeInside allowed change t = some t' ↔ ∃ (shell : Shell) (inner inner' : Members),
      t = shell.around inner ∧ allowed shell.origin? = true ∧ change inner = some inner' ∧
      t' = shell.around inner' := by
  constructor
  · intro h
    unfold changeInside at h
    split at h
    · next shell inner hopened =>
      by_cases hallowed : allowed shell.origin? = true
      · rw [if_pos hallowed] at h
        obtain ⟨inner', hinner, rfl⟩ := Option.map_eq_some_iff.1 h
        exact ⟨shell, inner, inner', eq_around_of_opened? hopened, hallowed, hinner, rfl⟩
      · rw [if_neg hallowed] at h
        cases h
    · cases h
  · rintro ⟨shell, inner, inner', rfl, hallowed, hinner, rfl⟩
    simp only [changeInside, opened?_around, if_pos hallowed, hinner, Option.map_some]

theorem changeInside_keeps (h : Keeps change) : KeepsInside (changeInside allowed change) := by
  intro p t t' htext hchange
  obtain ⟨shell, inner, inner', rfl, hallowed, hinner, rfl⟩ := changeInside_eq_some_iff.1 hchange
  obtain ⟨name, q, rfl, hplace⟩ | ⟨others, horigin, hothers⟩ := Shell.inside_or_around htext
  · obtain ⟨hplace', hput⟩ := h name q inner inner' hplace hinner
    refine ⟨shell.holdsText_around hplace', fun w => ?_⟩
    rw [shell.put_around, shell.put_around]
    exact changeInside_eq_some_iff.2 ⟨shell, _, _, rfl, hallowed, hput w, rfl⟩
  · refine ⟨(hothers inner').1, fun w => ?_⟩
    rw [(hothers inner).2, (hothers inner').2]
    exact changeInside_eq_some_iff.2
      ⟨others w, inner, inner', rfl, horigin w ▸ hallowed, hinner, rfl⟩

theorem changeInside_brings {changeWith : String → Members → Option Members}
    (h : Brings change changeWith) (t : Toml) :
    BringsInside (changeInside allowed change t)
      fun w => changeInside allowed (changeWith w) t := by
  intro t' hchange
  obtain ⟨shell, inner, inner', rfl, hallowed, hinner, rfl⟩ := changeInside_eq_some_iff.1 hchange
  obtain ⟨name, q, hplace, hput⟩ := h inner inner' hinner
  refine ⟨shell.steps ++ .member name :: q, shell.holdsText_around hplace, fun w => ?_⟩
  rw [shell.put_around]
  exact changeInside_eq_some_iff.2 ⟨shell, inner, _, rfl, hallowed, hput w, rfl⟩

theorem changeMember_keeps {name : String} {made : TableOrigin} (h : Keeps change) :
    Keeps (changeMember name made allowed change) :=
  updateAt_keeps (changeInside_keeps h)

theorem changeMember_brings {name : String} {made : TableOrigin}
    {changeWith : String → Members → Option Members} (h : Brings change changeWith) :
    Brings (changeMember name made allowed change) fun w =>
      changeMember name made allowed (changeWith w) := by
  apply updateAt_brings _ (changeInside_brings h)
  intro t hnew
  obtain ⟨inner, hinner, rfl⟩ := Option.map_eq_some_iff.1 hnew
  obtain ⟨place, q, hplace, hput⟩ := h [] inner hinner
  refine ⟨.member place :: q, (Shell.single made).holdsText_around hplace, fun w => ?_⟩
  show ((changeWith w []).map _) = _
  rw [hput]
  rfl

end inside

/-! ## Section 5: Lines -/

theorem assignNew_eq (name : String) (t : Toml) :
    assignNew name t = updateAt name (some t) fun _ => none := by
  funext members
  unfold assignNew updateAt
  cases members.get? name with
  | none => rfl
  | some _ => rfl

/-- Dotted keys lead to tables that dotted keys made, and on to others if they do not end there. -/
def passedByKey (path : List String) : Option TableOrigin → Bool
  | some .dotted => true
  | some .implied => !path.isEmpty
  | none => !path.isEmpty
  | some _ => false

theorem assign_cons (first next : String) (path : List String) (t : Toml) :
    assign first (next :: path) t =
      changeMember first .dotted (passedByKey path) (assign next path t) := by
  funext members
  rw [assign, changeMember_eq]
  cases members.get? first with
  | none => rfl
  | some found =>
    cases found with
    | table origin inner =>
      cases origin with
      | implied => cases path <;> rfl
      | _ => rfl
    | tables items =>
      cases items with
      | nil => rfl
      | cons found items =>
        cases found with
        | table origin inner => cases path <;> rfl
        | _ => rfl
    | _ => rfl

theorem assign_keeps (first : String) (path : List String) (t : Toml) :
    Keeps (assign first path t) := by
  induction path generalizing first with
  | nil =>
    show Keeps (assignNew first t)
    rw [assignNew_eq]
    exact updateAt_keeps fun _ _ _ _ h => nomatch h
  | cons next path ih =>
    rw [assign_cons]
    exact changeMember_keeps (ih next)

/-- A value is added in the same way whatever text is in it. -/
theorem assign_brings {t : Toml} {p : List Step} (ht : HoldsText p t) (first : String)
    (path : List String) : Brings (assign first path t) fun w => assign first path (put w p t) := by
  induction path generalizing first with
  | nil =>
    have hnew : ∀ t', assign first [] t' = updateAt first (some t') fun _ => none :=
      fun t' => assignNew_eq first t'
    simp only [hnew]
    apply updateAt_brings
    · intro t' h
      cases h
      exact ⟨p, ht, fun _ => rfl⟩
    · intro t' t'' h
      cases h
  | cons next path ih =>
    simp only [assign_cons]
    exact changeMember_brings (ih next)

/-- Headers lead to all tables but those between braces. -/
def passedByHeader : Option TableOrigin → Bool
  | some .braces => false
  | _ => true

theorem changeAt_cons (name : String) (path : List String) (change : Members → Option Members) :
    changeAt (name :: path) change =
      changeMember name .implied passedByHeader (changeAt path change) := by
  funext members
  rw [changeAt, changeMember_eq]
  cases members.get? name with
  | none => rfl
  | some found =>
    cases found with
    | table origin inner => cases origin <;> rfl
    | tables items =>
      cases items with
      | nil => rfl
      | cons found items => cases found <;> rfl
    | _ => rfl

theorem changeAt_keeps {change : Members → Option Members} (h : Keeps change)
    (path : List String) : Keeps (changeAt path change) := by
  induction path with
  | nil => exact h
  | cons name path ih =>
    rw [changeAt_cons]
    exact changeMember_keeps ih

theorem changeAt_brings {change : Members → Option Members}
    {changeWith : String → Members → Option Members} (h : Brings change changeWith)
    (path : List String) : Brings (changeAt path change) fun w => changeAt path (changeWith w) := by
  induction path with
  | nil => exact h
  | cons name path ih =>
    simp only [changeAt_cons]
    exact changeMember_brings ih

/-- A table that headers have implied, with a header of its own. -/
def withHeader? : Toml → Option Toml
  | .table .implied inner => some (.table .header inner)
  | _ => none

theorem defineTable_keeps (name : String) : Keeps (defineTable name) := by
  have heq : defineTable name = updateAt name (some (.table .header [])) withHeader? := by
    funext members
    unfold defineTable updateAt
    cases members.get? name with
    | none => rfl
    | some t =>
      cases t with
      | table origin inner => cases origin <;> rfl
      | _ => rfl
  rw [heq]
  apply updateAt_keeps
  intro p t t' ht h
  unfold withHeader? at h
  split at h
  · cases h
    cases ht with
    | member hget ht => exact ⟨.member hget ht, fun _ => rfl⟩
  · cases h

/-- Tables with one header, and one more of them. -/
def withItem? : Toml → Option Toml
  | .tables items => some (.tables (.table .header [] :: items))
  | _ => none

theorem defineItem_keeps (name : String) : Keeps (defineItem name) := by
  have heq : defineItem name = updateAt name (some (.tables [.table .header []])) withItem? := by
    funext members
    unfold defineItem updateAt
    cases members.get? name with
    | none => rfl
    | some t => cases t <;> rfl
  rw [heq]
  apply updateAt_keeps
  intro p t t' ht h
  unfold withItem? at h
  split at h
  · next items =>
    cases h
    -- The new table does not move those before it, which are counted from the first one.
    have hput : ∀ index q, p = .item index :: q → HoldsText p (.tables items) →
        ∀ w, put w p (.tables (.table .header [] :: items)) =
          .tables (.table .header [] :: changeStacked index (put w q) items) := by
      rintro index q rfl hitems w
      show Toml.tables (changeStacked index _ (_ :: items)) = _
      rw [changeStacked, if_neg (Nat.ne_of_lt hitems.lt_length)]
    cases ht with
    | last ht => exact ⟨.earlier (.last ht), fun w => by rw [hput _ _ rfl (.last ht)]; rfl⟩
    | earlier ht => exact ⟨.earlier (.earlier ht), fun w => by rw [hput _ _ rfl (.earlier ht)]; rfl⟩
  · cases h

/-- The draft with another text in a place. -/
def Draft.put (name : String) (p : List Step) (w : String) (d : Draft) : Draft :=
  ⟨d.members.put name p w, d.current⟩

theorem Keeps.draft {change : Members → Option Members} (h : Keeps change)
    {members : Members} {current : List String} {d : Draft} {name : String} {p : List Step}
    (hplace : members.HoldsText name p)
    (hchange : (change members).map (fun members => (⟨members, current⟩ : Draft)) = some d) :
    d.members.HoldsText name p ∧ ∀ w, (change (members.put name p w)).map
      (fun members => (⟨members, current⟩ : Draft)) = some (d.put name p w) := by
  obtain ⟨members', hmembers, rfl⟩ := Option.map_eq_some_iff.1 hchange
  obtain ⟨hplace', hput⟩ := h name p members members' hplace hmembers
  refine ⟨hplace', fun w => ?_⟩
  rw [hput]
  rfl

/-- A line is added in the same way whatever text is in a place of the lines before. -/
theorem Draft.add_keeps {d d' : Draft} {found : Line} {name : String} {p : List Step}
    (hplace : d.members.HoldsText name p) (hadd : d.add found = some d') :
    d'.members.HoldsText name p ∧ ∀ w, (d.put name p w).add found = some (d'.put name p w) := by
  cases found with
  | blank =>
    cases hadd
    exact ⟨hplace, fun _ => rfl⟩
  | header path last => exact (changeAt_keeps (defineTable_keeps last) path).draft hplace hadd
  | item path last => exact (changeAt_keeps (defineItem_keeps last) path).draft hplace hadd
  | entry first path t =>
    exact (changeAt_keeps (assign_keeps first path t) d.current).draft hplace hadd

/-- An entry is added in the same way whatever text is in a place of its value. -/
theorem Draft.add_brings {d d' : Draft} {first : String} {path : List String} {t : Toml}
    {p : List Step} (ht : HoldsText p t) (hadd : d.add (.entry first path t) = some d') :
    ∃ name q, d'.members.HoldsText name q ∧
      ∀ w, d.add (.entry first path (Toml.put w p t)) = some (d'.put name q w) := by
  obtain ⟨members, hmembers, rfl⟩ := Option.map_eq_some_iff.1 hadd
  obtain ⟨name, q, hplace, hput⟩ :=
    changeAt_brings (assign_brings ht first path) d.current d.members members hmembers
  refine ⟨name, q, hplace, fun w => ?_⟩
  exact Option.map_eq_some_iff.2 ⟨_, hput w, rfl⟩

end TypeCatalog.Toml
