import TypeCatalog.Proofs.Toml.Places
import TypeCatalog.Settings.File

/-! # Places of texts in settings

    A text in a place of the members of a settings file is one setting, or none. Another text in
    that place is another value of that setting, and all other settings are what they were. -/

set_option autoImplicit false

namespace TypeCatalog.SettingsFile

open Toml (Step HoldsText Members)

/-! ## Section 1: Settings that are texts -/

/-- Where a text is in what a settings file says. -/
inductive Place where
  | root
  | platform
  | cache
  | library (index : Nat)
  | level
  /-- Nothing of the settings depends on it. -/
  | elsewhere

/-- The text in a place. -/
def text (file : SettingsFile) : Place → Option String
  | .root => file.root
  | .platform => file.platform
  | .cache => file.cache
  | .library index => file.libraries[index]?
  | .level => file.level
  | .elsewhere => none

/-- What a settings file says, with another text in a place. -/
def put (file : SettingsFile) (place : Place) (w : String) : SettingsFile :=
  match place with
  | .root => { file with root := some w }
  | .platform => { file with platform := some w }
  | .cache => { file with cache := some w }
  | .library index => { file with libraries := file.libraries.set index w }
  | .level => { file with level := some w }
  | .elsewhere => file

theorem text_put {file : SettingsFile} {place : Place} {t : String}
    (h : file.text place = some t) (w : String) : (file.put place w).text place = some w := by
  cases place with
  | library index =>
    have hindex : index < file.libraries.length := (List.getElem?_eq_some_iff.1 h).1
    show (file.libraries.set index w)[index]? = some w
    rw [List.getElem?_set_self hindex]
  | elsewhere => cases h
  | _ => rfl

/-! ## Section 2: Lists of values -/

/-- Tables with one header are counted in the order of the file. -/
theorem reverse_changeStacked (index : Nat) (f : Toml → Toml) (items : List Toml) :
    (Toml.changeStacked index f items).reverse = items.reverse.modify index f := by
  induction items with
  | nil => rw [Toml.changeStacked, List.reverse_nil, List.modify_nil]
  | cons t items ih =>
    rw [Toml.changeStacked, List.reverse_cons]
    split
    · next h =>
      rw [List.reverse_cons, h]
      apply List.ext_getElem?
      intro i
      rw [List.getElem?_modify]
      grind
    · next h =>
      rw [List.reverse_cons, ih]
      apply List.ext_getElem?
      intro i
      rw [List.getElem?_modify]
      grind

theorem exists_item_of_holdsText {p : List Step} {items : List Toml}
    (h : HoldsText p (.tables items)) :
    ∃ index q t, p = .item index :: q ∧ items.reverse[index]? = some t ∧ HoldsText q t := by
  induction items with
  | nil => cases h
  | cons t items ih =>
    rw [List.reverse_cons]
    cases h with
    | last h => exact ⟨_, _, t, rfl, by simp, h⟩
    | earlier h =>
      obtain ⟨_, _, t', heq, hget, htext⟩ := ih h
      cases heq
      refine ⟨_, _, t', rfl, ?_, htext⟩
      rw [List.getElem?_append_left (List.getElem?_eq_some_iff.1 hget).1, hget]

/-- A list of texts with another text in a place. -/
theorem mapM_text?_modify {items : List Toml} {found : List String} {index : Nat} {p : List Step}
    {t : Toml} (h : items.mapM text? = some found) (hget : items[index]? = some t)
    (htext : HoldsText p t) :
    index < found.length ∧
      ∀ w, (items.modify index (Toml.put w p)).mapM text? = some (found.set index w) := by
  induction items generalizing found index with
  | nil => cases hget
  | cons head items ih =>
    rw [List.mapM_cons, Option.bind_eq_bind, Option.bind_eq_some_iff] at h
    obtain ⟨first, hfirst, h⟩ := h
    rw [Option.bind_eq_bind, Option.bind_eq_some_iff] at h
    obtain ⟨others, hothers, h⟩ := h
    cases h
    cases index with
    | zero =>
      cases hget
      cases htext with
      | here =>
        refine ⟨Nat.zero_lt_succ _, fun w => ?_⟩
        show (Toml.text w :: items).mapM text? = _
        rw [List.mapM_cons, hothers]
        rfl
      | _ => cases hfirst
    | succ index =>
      obtain ⟨hlt, hset⟩ := ih hothers hget
      refine ⟨Nat.succ_lt_succ hlt, fun w => ?_⟩
      show (head :: items.modify index _).mapM text? = _
      rw [List.mapM_cons, hfirst, hset]
      rfl

/-! ## Section 3: Sections -/

namespace Section

/-- The value of a field. -/
def value? (position : Nat) (name : String) : Section → Option Toml
  | named members => members.get? name
  | ordered items => items[position]?

/-- The section with another text in a place. -/
def put (w : String) (step : Step) (p : List Step) : Section → Section
  | named members =>
    match step with
    | .member name => named (members.put name p w)
    | .item _ => named members
  | ordered items =>
    match step with
    | .member _ => ordered items
    | .item index => ordered (items.modify index (Toml.put w p))

/-- A text is in a place of a section. -/
def HoldsText (step : Step) (p : List Step) : Section → Prop
  | named members => ∃ name, step = .member name ∧ members.HoldsText name p
  | ordered items => ∃ index t, step = .item index ∧ items[index]? = some t ∧ Toml.HoldsText p t

/-- Whether a step leads to a field. -/
def leadsTo (position : Nat) (name : String) : Step → Prop
  | .member other => other = name
  | .item index => index = position

variable {sec : Section} {step : Step} {p : List Step} {position : Nat} {name : String}

/-- A step leads to one field only. -/
theorem not_leadsTo {other : Nat} {otherName : String} (h : leadsTo position name step)
    (hposition : position ≠ other) (hname : name ≠ otherName) : ¬leadsTo other otherName step := by
  intro h'
  cases step with
  | member n => exact hname (Eq.trans (Eq.symm h) h')
  | item i => exact hposition (Eq.trans (Eq.symm h) h')

theorem value?_put_of_leadsTo (hplace : sec.HoldsText step p) (h : leadsTo position name step) :
    ∃ t, sec.value? position name = some t ∧ Toml.HoldsText p t ∧
      ∀ w, (sec.put w step p).value? position name = some (Toml.put w p t) := by
  cases sec with
  | named members =>
    obtain ⟨_, rfl, t, hget, htext⟩ := hplace
    cases h
    refine ⟨t, hget, htext, fun w => ?_⟩
    show (Members.change members _ _).get? _ = _
    rw [Members.get?_change, if_pos rfl, hget]
    rfl
  | ordered items =>
    obtain ⟨_, t, rfl, hget, htext⟩ := hplace
    cases h
    refine ⟨t, hget, htext, fun w => ?_⟩
    show (items.modify _ _)[_]? = _
    rw [List.getElem?_modify_eq, hget]
    rfl

theorem value?_put_of_not (hplace : sec.HoldsText step p) (h : ¬leadsTo position name step)
    (w : String) : (sec.put w step p).value? position name = sec.value? position name := by
  cases sec with
  | named members =>
    obtain ⟨_, rfl, -⟩ := hplace
    show (Members.change members _ _).get? _ = _
    rw [Members.get?_change, if_neg (Ne.symm h)]
    rfl
  | ordered items =>
    obtain ⟨_, t, rfl, -⟩ := hplace
    show (items.modify _ _)[_]? = _
    rw [List.getElem?_modify_ne _ _ h]
    rfl

/-! ## Section 4: Fields -/

section fields

variable {α : Type} {read : Toml → Option α} {t : Toml}

theorem optional_of_value? (h : sec.value? position name = some t) :
    sec.optional read position name = (read t).map some := by
  cases sec with
  | named members =>
    have h : members.get? name = some t := h
    simp only [Section.optional, h]
  | ordered items =>
    have h : items[position]? = some t := h
    simp only [Section.optional, h, Option.bind_some]

theorem texts_of_value? (h : sec.value? position name = some t) :
    sec.texts position name = texts? t := by
  cases sec with
  | named members =>
    have h : members.get? name = some t := h
    simp only [Section.texts, h]
  | ordered items =>
    have h : items[position]? = some t := h
    simp only [Section.texts, h]

/-- A field that a place is not in. -/
theorem optional_put_of_not (hplace : sec.HoldsText step p) (h : ¬leadsTo position name step)
    (w : String) : (sec.put w step p).optional read position name =
      sec.optional read position name := by
  have hvalue := value?_put_of_not hplace h w
  cases sec with
  | named members =>
    obtain ⟨other, rfl, -⟩ := hplace
    have hvalue : (members.put other p w).get? name = members.get? name := hvalue
    simp only [Section.put, Section.optional, hvalue]
  | ordered items =>
    obtain ⟨index, t, rfl, -⟩ := hplace
    have hvalue : (items.modify index (Toml.put w p))[position]? = items[position]? := hvalue
    simp only [Section.put, Section.optional, hvalue]

theorem texts_put_of_not (hplace : sec.HoldsText step p) (h : ¬leadsTo position name step)
    (w : String) : (sec.put w step p).texts position name = sec.texts position name := by
  have hvalue := value?_put_of_not hplace h w
  cases sec with
  | named members =>
    obtain ⟨other, rfl, -⟩ := hplace
    have hvalue : (members.put other p w).get? name = members.get? name := hvalue
    simp only [Section.put, Section.texts, hvalue]
  | ordered items =>
    obtain ⟨index, t, rfl, -⟩ := hplace
    have hvalue : (items.modify index (Toml.put w p))[position]? = items[position]? := hvalue
    simp only [Section.put, Section.texts, hvalue]

/-- A field that is a text is the text in the place. -/
theorem optional_text?_put (hplace : sec.HoldsText step p) (h : leadsTo position name step)
    {found : Option String} (hfound : sec.optional text? position name = some found) :
    found.isSome ∧ ∀ w, (sec.put w step p).optional text? position name = some (some w) := by
  obtain ⟨t, hvalue, htext, hput⟩ := value?_put_of_leadsTo hplace h
  rw [optional_of_value? hvalue] at hfound
  obtain ⟨value, hvalue', rfl⟩ := Option.map_eq_some_iff.1 hfound
  refine ⟨rfl, fun w => ?_⟩
  rw [optional_of_value? (hput w)]
  cases htext with
  | here => rfl
  | _ => cases hvalue'

/-- A truth value has no place for a text. -/
theorem optional_truth?_eq_none (hplace : sec.HoldsText step p) (h : leadsTo position name step) :
    sec.optional truth? position name = none := by
  obtain ⟨t, hvalue, htext, -⟩ := value?_put_of_leadsTo hplace h
  rw [optional_of_value? hvalue]
  cases htext with
  | _ => rfl

/-- A field that is a list of texts has the text in the place as one of them. -/
theorem texts_put (hplace : sec.HoldsText step p) (h : leadsTo position name step)
    {found : List String} (hfound : sec.texts position name = some found) :
    ∃ index < found.length,
      ∀ w, (sec.put w step p).texts position name = some (found.set index w) := by
  obtain ⟨t, hvalue, htext, hput⟩ := value?_put_of_leadsTo hplace h
  rw [texts_of_value? hvalue] at hfound
  simp only [texts_of_value? (hput _)]
  cases t with
  | array items =>
    cases htext with
    | @item index q items t' hget htext =>
      obtain ⟨hlt, hset⟩ := mapM_text?_modify hfound hget htext
      exact ⟨index, hlt, hset⟩
  | tables items =>
    obtain ⟨index, q, t', rfl, hget, htext⟩ := exists_item_of_holdsText htext
    obtain ⟨hlt, hset⟩ := mapM_text?_modify hfound hget htext
    refine ⟨index, hlt, fun w => ?_⟩
    show (Toml.changeStacked index _ items).reverse.mapM text? = _
    rw [reverse_changeStacked, hset]
  | _ => cases hfound

end fields

/-! ## Section 5: Files -/

/-- A text in a place of a value is in a place of the section that the value is. -/
theorem ofValue?_put {t : Toml} (htext : Toml.HoldsText p t) (h : ofValue? t = some sec) :
    ∃ step q, p = step :: q ∧ sec.HoldsText step q ∧
      ∀ w, ofValue? (Toml.put w p t) = some (sec.put w step q) := by
  cases t with
  | table origin members =>
    cases h
    cases htext with
    | member hget htext => exact ⟨_, _, rfl, ⟨_, rfl, _, hget, htext⟩, fun w => rfl⟩
  | array items =>
    cases h
    cases htext with
    | item hget htext => exact ⟨_, _, rfl, ⟨_, _, rfl, hget, htext⟩, fun w => rfl⟩
  | tables items =>
    cases h
    obtain ⟨index, q, t, rfl, hget, htext⟩ := exists_item_of_holdsText htext
    refine ⟨_, _, rfl, ⟨index, t, rfl, hget, htext⟩, fun w => ?_⟩
    show some (Section.ordered (Toml.changeStacked index _ items).reverse) = _
    rw [reverse_changeStacked]
    rfl
  | moment => cases htext
  | _ => cases h

end Section

section files

variable {members : Members} {name : String} {p : List Step}

theorem section?_put (hplace : members.HoldsText name p) {sec : Section}
    (h : section? members name = some sec) :
    ∃ step q, sec.HoldsText step q ∧
      ∀ w, section? (members.put name p w) name = some (sec.put w step q) := by
  obtain ⟨t, hget, htext⟩ := hplace
  have h : Section.ofValue? t = some sec := by
    rw [section?, hget] at h
    exact h
  obtain ⟨step, q, rfl, hplace, hput⟩ := Section.ofValue?_put htext h
  refine ⟨step, q, hplace, fun w => ?_⟩
  have hget' : (members.put name (step :: q) w).get? name = some (Toml.put w (step :: q) t) := by
    rw [Members.put, Members.get?_change, if_pos rfl, hget]
    rfl
  rw [section?, hget']
  exact hput w

theorem section?_put_of_ne (name : String) (p : List Step) {other : String} (hne : other ≠ name)
    {sec : Section} (h : section? members other = some sec) :
    ∀ w, section? (members.put name p w) other = some sec := by
  intro w
  rw [section?, Members.put, Members.get?_change, if_neg hne]
  exact h

/-- What a settings file says, setting by setting. -/
theorem ofMembers?_eq_some_iff {file : SettingsFile} :
    ofMembers? members = some file ↔ ∃ android cache logging,
      (section? members "android" = some android) ∧ (section? members "cache" = some cache) ∧
      (section? members "logging" = some logging) ∧
      android.optional text? 0 "api" = some file.platform ∧
      android.optional text? 1 "sdk_root" = some file.root ∧
      cache.optional text? 0 "path" = some file.cache ∧
      cache.texts 1 "libraries" = some file.libraries ∧
      logging.optional text? 0 "level" = some file.level ∧
      logging.optional truth? 1 "json" = some file.jsonMessages := by
  simp only [ofMembers?, Option.bind_eq_bind, Option.bind_eq_some_iff, Option.pure_def,
    Option.some.injEq]
  constructor
  · rintro ⟨android, ha, cache, hc, logging, hl, platform, hp, root, hr, path, hpath, libraries,
      hlib, level, hlevel, json, hjson, rfl⟩
    exact ⟨android, cache, logging, ha, hc, hl, hp, hr, hpath, hlib, hlevel, hjson⟩
  · rintro ⟨android, cache, logging, ha, hc, hl, hp, hr, hpath, hlib, hlevel, hjson⟩
    exact ⟨android, ha, cache, hc, logging, hl, _, hp, _, hr, _, hpath, _, hlib, _, hlevel, _,
      hjson, rfl⟩

/-- A text in a place of the members is the one in a place of what they say, or nowhere in it. -/
def Becomes (members : Members) (name : String) (p : List Step) (file : SettingsFile) : Prop :=
  ∃ place : Place, (place ≠ .elsewhere → (file.text place).isSome) ∧
    ∀ w, ofMembers? (members.put name p w) = some (file.put place w)

theorem becomes_android {file : SettingsFile} (hplace : members.HoldsText "android" p)
    (h : ofMembers? members = some file) : Becomes members "android" p file := by
  obtain ⟨android, cache, logging, ha, hc, hl, hplatform, hroot, hothers⟩ :=
    ofMembers?_eq_some_iff.1 h
  obtain ⟨step, q, hstep, hput⟩ := section?_put hplace ha
  have hc' := section?_put_of_ne "android" p (by decide) hc
  have hl' := section?_put_of_ne "android" p (by decide) hl
  by_cases hzero : Section.leadsTo 0 "api" step
  · have hone : ¬Section.leadsTo 1 "sdk_root" step :=
      Section.not_leadsTo hzero (by decide) (by decide)
    obtain ⟨hsome, htext⟩ := Section.optional_text?_put hstep hzero hplatform
    have hroot' := fun w => (Section.optional_put_of_not hstep hone w).trans hroot
    exact ⟨.platform, fun _ => hsome, fun w => ofMembers?_eq_some_iff.2
      ⟨_, _, _, hput w, hc' w, hl' w, htext w, hroot' w, hothers⟩⟩
  · have hplatform' := fun w => (Section.optional_put_of_not hstep hzero w).trans hplatform
    by_cases hone : Section.leadsTo 1 "sdk_root" step
    · obtain ⟨hsome, htext⟩ := Section.optional_text?_put hstep hone hroot
      exact ⟨.root, fun _ => hsome, fun w => ofMembers?_eq_some_iff.2
        ⟨_, _, _, hput w, hc' w, hl' w, hplatform' w, htext w, hothers⟩⟩
    · have hroot' := fun w => (Section.optional_put_of_not hstep hone w).trans hroot
      exact ⟨.elsewhere, fun hne => absurd rfl hne, fun w => ofMembers?_eq_some_iff.2
        ⟨_, _, _, hput w, hc' w, hl' w, hplatform' w, hroot' w, hothers⟩⟩

theorem becomes_cache {file : SettingsFile} (hplace : members.HoldsText "cache" p)
    (h : ofMembers? members = some file) : Becomes members "cache" p file := by
  obtain ⟨android, cache, logging, ha, hc, hl, hplatform, hroot, hpath, hlibraries, hothers⟩ :=
    ofMembers?_eq_some_iff.1 h
  obtain ⟨step, q, hstep, hput⟩ := section?_put hplace hc
  have ha' := section?_put_of_ne "cache" p (by decide) ha
  have hl' := section?_put_of_ne "cache" p (by decide) hl
  by_cases hzero : Section.leadsTo 0 "path" step
  · have hone : ¬Section.leadsTo 1 "libraries" step :=
      Section.not_leadsTo hzero (by decide) (by decide)
    obtain ⟨hsome, htext⟩ := Section.optional_text?_put hstep hzero hpath
    have hlibraries' := fun w => (Section.texts_put_of_not hstep hone w).trans hlibraries
    exact ⟨.cache, fun _ => hsome, fun w => ofMembers?_eq_some_iff.2
      ⟨_, _, _, ha' w, hput w, hl' w, hplatform, hroot, htext w, hlibraries' w, hothers⟩⟩
  · have hpath' := fun w => (Section.optional_put_of_not hstep hzero w).trans hpath
    by_cases hone : Section.leadsTo 1 "libraries" step
    · obtain ⟨index, hlt, htexts⟩ := Section.texts_put hstep hone hlibraries
      have hsome : (file.libraries[index]?).isSome := by
        rw [List.getElem?_eq_getElem hlt]
        rfl
      exact ⟨.library index, fun _ => hsome, fun w => ofMembers?_eq_some_iff.2
        ⟨_, _, _, ha' w, hput w, hl' w, hplatform, hroot, hpath' w, htexts w, hothers⟩⟩
    · have hlibraries' := fun w => (Section.texts_put_of_not hstep hone w).trans hlibraries
      exact ⟨.elsewhere, fun hne => absurd rfl hne, fun w => ofMembers?_eq_some_iff.2
        ⟨_, _, _, ha' w, hput w, hl' w, hplatform, hroot, hpath' w, hlibraries' w, hothers⟩⟩

theorem becomes_logging {file : SettingsFile} (hplace : members.HoldsText "logging" p)
    (h : ofMembers? members = some file) : Becomes members "logging" p file := by
  obtain ⟨android, cache, logging, ha, hc, hl, hplatform, hroot, hpath, hlibraries, hlevel,
    hjson⟩ := ofMembers?_eq_some_iff.1 h
  obtain ⟨step, q, hstep, hput⟩ := section?_put hplace hl
  have ha' := section?_put_of_ne "logging" p (by decide) ha
  have hc' := section?_put_of_ne "logging" p (by decide) hc
  -- A text is not in the place of a truth value.
  have hone : ¬Section.leadsTo 1 "json" step := by
    intro hone
    rw [Section.optional_truth?_eq_none hstep hone] at hjson
    cases hjson
  have hjson' := fun w => (Section.optional_put_of_not hstep hone w).trans hjson
  by_cases hzero : Section.leadsTo 0 "level" step
  · obtain ⟨hsome, htext⟩ := Section.optional_text?_put hstep hzero hlevel
    exact ⟨.level, fun _ => hsome, fun w => ofMembers?_eq_some_iff.2 ⟨_, _, _, ha' w, hc' w, hput w,
      hplatform, hroot, hpath, hlibraries, htext w, hjson' w⟩⟩
  · have hlevel' := fun w => (Section.optional_put_of_not hstep hzero w).trans hlevel
    exact ⟨.elsewhere, fun hne => absurd rfl hne, fun w => ofMembers?_eq_some_iff.2 ⟨_, _, _, ha' w,
      hc' w, hput w, hplatform, hroot, hpath, hlibraries, hlevel' w, hjson' w⟩⟩

/-- A text in a place of the members is one setting, or none. -/
theorem becomes (hplace : members.HoldsText name p) {file : SettingsFile}
    (h : ofMembers? members = some file) : Becomes members name p file := by
  by_cases handroid : name = "android"
  · subst handroid
    exact becomes_android hplace h
  · by_cases hcache : name = "cache"
    · subst hcache
      exact becomes_cache hplace h
    · by_cases hlogging : name = "logging"
      · subst hlogging
        exact becomes_logging hplace h
      · obtain ⟨android, cache, logging, ha, hc, hl, hothers⟩ := ofMembers?_eq_some_iff.1 h
        have ha' := section?_put_of_ne name p (Ne.symm handroid) ha
        have hc' := section?_put_of_ne name p (Ne.symm hcache) hc
        have hl' := section?_put_of_ne name p (Ne.symm hlogging) hl
        exact ⟨.elsewhere, fun hne => absurd rfl hne, fun w => ofMembers?_eq_some_iff.2
          ⟨_, _, _, ha' w, hc' w, hl' w, hothers⟩⟩

end files

end TypeCatalog.SettingsFile
