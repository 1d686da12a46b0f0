import TypeCatalog.Proofs.Catalog.Alike

/-! # The search for inherited members

    The search goes through the hierarchy of a class type breadth first and takes class types with
    the same short signature for one. So it ends as soon as there are finitely many short
    signatures up the hierarchy. What it finds is right whatever these are. That it finds all, and
    each method as near as it is declared, holds where class types of one short signature look
    alike; legible class types do.

    A run is followed by two lists that the search itself does not keep: the class types that had
    their turn and those that wait, each with its distance from the start. -/

set_option autoImplicit false

namespace TypeCatalog

/-! ## Section 1: Up the hierarchy -/

/-- A class type is reached from another one by so many steps to a supertype. -/
inductive Catalog.Ascends (c : Catalog) (t : ClassType) : Nat → ClassType → Prop
  | refl : Ascends c t 0 t
  | step {n : Nat} {u w : ClassType} :
      Ascends c t n u → w ∈ Search.superclasses c u → Ascends c t (n + 1) w

/-- Up the hierarchy, class types of one short signature look alike. -/
def Catalog.TellsApart (c : Catalog) (t : ClassType) : Prop :=
  ∀ m n u w, c.Ascends t m u → c.Ascends t n w → u.shortSignature = w.shortSignature → u.Alike c w

/-- A class type declares a method of a name that has a signature there. -/
def ClassType.HasMethod (t : ClassType) (name signature : String) : Prop :=
  ∃ m ∈ t.declaration.methods, m.name = name ∧ m.signatureIn t = signature

/-- The fields of a name that a class type declares. -/
def ClassType.fieldsNamed (name : String) (t : ClassType) : List FoundField :=
  (t.declaration.fields.filter fun f => f.name == name).map fun f => ⟨t, f⟩

variable {c : Catalog} {t : ClassType} {name : String}

theorem ClassType.Alike.hasMethod {u w : ClassType} (h : u.Alike c w) {signature : String}
    (hu : u.HasMethod name signature) : w.HasMethod name signature := by
  obtain ⟨m, hm, hname, hsignature⟩ := hu
  refine ⟨m, ?_, hname, ?_⟩
  · rw [← h.declaration]
    exact hm
  · rw [← h.signatureIn m hm]
    exact hsignature

/-- Supertypes of class types that look alike have the same short signatures. -/
theorem ClassType.Alike.exists_superclass {u w : ClassType} (h : u.Alike c w) {v : ClassType}
    (hv : v ∈ Search.superclasses c u) :
    ∃ v' ∈ Search.superclasses c w, v'.shortSignature = v.shortSignature := by
  have hmem := List.mem_map_of_mem (f := ClassType.shortSignature) hv
  rw [h.superclasses] at hmem
  exact List.mem_map.1 hmem

/-- Class types that hold the supertypes of each of them hold all that is up the hierarchy. -/
theorem Catalog.Ascends.mem_of_closed {types : List ClassType} (ht : t ∈ types)
    (hclosed : ∀ u ∈ types, ∀ w ∈ Search.superclasses c u, w ∈ types) {n : Nat} {u : ClassType}
    (h : c.Ascends t n u) : u ∈ types := by
  induction h with
  | refl => exact ht
  | step _ hw ih => exact hclosed _ ih _ hw

theorem Catalog.Keyed.legible_ascends (hc : c.Keyed) (ht : t.toType.Legible c) {n : Nat}
    {u : ClassType} (h : c.Ascends t n u) : u.toType.Legible c := by
  induction h with
  | refl => exact ht
  | step _ hw ih =>
    obtain ⟨r, hr, hclass⟩ := List.mem_filterMap.1 hw
    obtain ⟨text, -, htext⟩ := List.mem_map.1 hr
    rw [ResolvedType.asClass?_eq_some_iff.1 hclass] at htext
    exact c.closed_legible.resolve hc (ClassType.means_legible hc ih []) htext

/-- From a legible class type on, class types of one short signature look alike. -/
theorem Catalog.Keyed.tellsApart (hc : c.Keyed) (ht : t.toType.Legible c) : c.TellsApart t :=
  fun _ _ _ _ hu hw h => hc.alike (hc.legible_ascends ht hu) (hc.legible_ascends ht hw) h

/-! ## Section 2: What the search is to find -/

/-- The members come from the hierarchy, and no two methods have the same signature. -/
structure Declarations.Inherited (c : Catalog) (t : ClassType) (name : String)
    (d : Declarations) : Prop where
  distinct : (d.methods.map FoundMethod.signature).Nodup
  declared : ∀ f ∈ d.methods, f.method ∈ f.owner.declaration.methods ∧ f.method.name = name ∧
    f.signature = f.method.signatureIn f.owner ∧ ∃ n, c.Ascends t n f.owner
  field : ∀ f ∈ d.fields, f.field ∈ f.owner.declaration.fields ∧ f.field.name = name ∧
    ∃ n, c.Ascends t n f.owner

/-- The members are all there are: the fields of one class type for each short signature, and a
    method for each signature, from a class type that is nearest among those that declare it. -/
structure Declarations.Exhaustive (c : Catalog) (t : ClassType) (name : String)
    (d : Declarations) : Prop where
  fields : ∃ types : List ClassType, (types.map ClassType.shortSignature).Nodup ∧
    (∀ u ∈ types, ∃ n, c.Ascends t n u) ∧
    (∀ n u, c.Ascends t n u → u.shortSignature ∈ types.map ClassType.shortSignature) ∧
    d.fields = types.flatMap (ClassType.fieldsNamed name)
  methods : ∀ n u signature, c.Ascends t n u → u.HasMethod name signature →
    ∃ f ∈ d.methods, f.signature = signature
  nearest : ∀ f ∈ d.methods, ∃ n, c.Ascends t n f.owner ∧
    ∀ k u, c.Ascends t k u → u.HasMethod name f.signature → n ≤ k

namespace Search

/-! ## Section 3: The frontier -/

/-- A class type and the number of steps in which the search came to it. -/
structure Sighting where
  distance : Nat
  type : ClassType

/-- The short signature under which a class type is seen. -/
def Sighting.key (p : Sighting) : String := p.type.shortSignature

/-- The class types that had their turn and those that wait. The waiting ones are at most one step
    further away than the first of them, so they stand in the order of their distances. -/
structure Frontier (c : Catalog) (t : ClassType) (done waiting : List Sighting) : Prop where
  ascends : ∀ p ∈ done ++ waiting, c.Ascends t p.distance p.type
  nodup : (done.map Sighting.key).Nodup
  sorted : (done ++ waiting).Pairwise fun p q => p.distance ≤ q.distance
  spread : ∀ p ∈ waiting, ∀ q ∈ waiting, q.distance ≤ p.distance + 1
  started : ∃ p ∈ done ++ waiting, p.distance = 0 ∧ p.key = t.shortSignature
  closed : ∀ p ∈ done, ∀ w ∈ superclasses c p.type,
    ∃ q ∈ done ++ waiting, q.distance ≤ p.distance + 1 ∧ q.key = w.shortSignature

/-- The supertypes of a class type as they come to wait. -/
def sightings (c : Catalog) (p : Sighting) : List Sighting :=
  (superclasses c p.type).map (Sighting.mk (p.distance + 1))

namespace Frontier

variable {done waiting : List Sighting} {p : Sighting}

theorem start (c : Catalog) (t : ClassType) : Frontier c t [] [⟨0, t⟩] where
  ascends := by
    intro p hp
    rw [List.mem_singleton.1 hp]
    exact .refl
  nodup := List.nodup_nil
  sorted := List.pairwise_singleton _ _
  spread := by
    intro p hp q hq
    rw [List.mem_singleton.1 hp, List.mem_singleton.1 hq]
    exact Nat.zero_le _
  started := ⟨⟨0, t⟩, List.mem_singleton.2 rfl, rfl, rfl⟩
  closed := fun _ hp => nomatch hp

/-- What had its turn is no further away than what waits. -/
theorem distance_le (h : Frontier c t done (p :: waiting)) {q : Sighting} (hq : q ∈ done) :
    q.distance ≤ p.distance :=
  (List.pairwise_append.1 h.sorted).2.2 q hq p List.mem_cons_self

/-- What waits is no nearer than the first that waits. -/
theorem le_distance (h : Frontier c t done (p :: waiting)) {q : Sighting} (hq : q ∈ waiting) :
    p.distance ≤ q.distance := by
  have htail := (List.pairwise_append.1 h.sorted).2.1
  exact (List.pairwise_cons.1 htail).1 q hq

/-- What was seen is at most one step further away than the first that waits. -/
theorem distance_le_succ (h : Frontier c t done (p :: waiting)) {q : Sighting}
    (hq : q ∈ done ++ p :: waiting) : q.distance ≤ p.distance + 1 := by
  rcases List.mem_append.1 hq with hq | hq
  · exact Nat.le_succ_of_le (h.distance_le hq)
  · exact h.spread p List.mem_cons_self q hq

/-- Whoever was met at a class type that was seen before is met at the one seen before. -/
theorem exists_instead (h : Frontier c t done (p :: waiting))
    (hp : p.key ∈ done.map Sighting.key) {q : Sighting} {key : String} {n : Nat}
    (hq : q ∈ done ++ p :: waiting) (hn : q.distance ≤ n) (hqkey : q.key = key) :
    ∃ q ∈ done ++ waiting, q.distance ≤ n ∧ q.key = key := by
  rcases List.mem_append.1 hq with hq | hq
  · exact ⟨q, List.mem_append_left _ hq, hn, hqkey⟩
  · rcases List.mem_cons.1 hq with rfl | hq
    · obtain ⟨p', hp', hkey⟩ := List.mem_map.1 hp
      exact ⟨p', List.mem_append_left _ hp', Nat.le_trans (h.distance_le hp') hn,
        hkey.trans hqkey⟩
    · exact ⟨q, List.mem_append_right _ hq, hn, hqkey⟩

theorem sublist_cons (done waiting : List Sighting) (p : Sighting) :
    (done ++ waiting).Sublist (done ++ p :: waiting) :=
  (List.sublist_cons_self p waiting).append_left done

/-- A class type that was seen before can be dropped: the one seen before is no further away. -/
theorem skip (h : Frontier c t done (p :: waiting)) (hp : p.key ∈ done.map Sighting.key) :
    Frontier c t done waiting where
  ascends := fun q hq => h.ascends q ((sublist_cons done waiting p).subset hq)
  nodup := h.nodup
  sorted := h.sorted.sublist (sublist_cons done waiting p)
  spread := fun q hq q' hq' =>
    h.spread q (List.mem_cons_of_mem _ hq) q' (List.mem_cons_of_mem _ hq')
  started := by
    obtain ⟨q, hq, hzero, hqkey⟩ := h.started
    obtain ⟨q', hq', hle, hkey'⟩ := h.exists_instead hp hq (Nat.le_of_eq hzero) hqkey
    exact ⟨q', hq', Nat.le_zero.1 hle, hkey'⟩
  closed := by
    intro q hq w hw
    obtain ⟨q', hq', hle, hkey'⟩ := h.closed q hq w hw
    exact h.exists_instead hp hq' hle hkey'

theorem distance_of_mem_sightings {q : Sighting} (hq : q ∈ sightings c p) :
    q.distance = p.distance + 1 := by
  obtain ⟨w, -, rfl⟩ := List.mem_map.1 hq
  rfl

theorem append_sightings (done waiting : List Sighting) (p : Sighting) :
    done ++ [p] ++ (waiting ++ sightings c p) = (done ++ p :: waiting) ++ sightings c p := by
  simp

/-- A new class type has its turn, and its supertypes come to wait. -/
theorem take (h : Frontier c t done (p :: waiting)) (hp : p.key ∉ done.map Sighting.key) :
    Frontier c t (done ++ [p]) (waiting ++ sightings c p) where
  ascends := by
    intro q hq
    rw [append_sightings] at hq
    rcases List.mem_append.1 hq with hq | hq
    · exact h.ascends q hq
    · obtain ⟨w, hw, rfl⟩ := List.mem_map.1 hq
      have hself : p ∈ done ++ p :: waiting := List.mem_append_right _ List.mem_cons_self
      exact .step (h.ascends p hself) hw
  nodup := by
    rw [List.map_append, List.nodup_append]
    refine ⟨h.nodup, List.pairwise_singleton _ _, ?_⟩
    intro key hkey key' hkey' heq
    rw [heq, List.mem_singleton.1 hkey'] at hkey
    exact hp hkey
  sorted := by
    -- The supertypes come last, one step further away than the class type that has its turn.
    rw [append_sightings, List.pairwise_append]
    refine ⟨h.sorted, List.pairwise_of_forall_mem_list ?_, ?_⟩
    · intro q hq q' hq'
      have hsame := (distance_of_mem_sightings hq).trans (distance_of_mem_sightings hq').symm
      exact Nat.le_of_eq hsame
    · intro q hq q' hq'
      rw [distance_of_mem_sightings hq']
      exact h.distance_le_succ hq
  spread := by
    intro q hq q' hq'
    have hge : p.distance ≤ q.distance := by
      rcases List.mem_append.1 hq with hq | hq
      · exact h.le_distance hq
      · rw [distance_of_mem_sightings hq]
        exact Nat.le_succ _
    have hle : q'.distance ≤ p.distance + 1 := by
      rcases List.mem_append.1 hq' with hq' | hq'
      · exact h.spread p List.mem_cons_self q' (List.mem_cons_of_mem _ hq')
      · exact Nat.le_of_eq (distance_of_mem_sightings hq')
    omega
  started := by
    obtain ⟨q, hq, hq'⟩ := h.started
    rw [append_sightings]
    exact ⟨q, List.mem_append_left _ hq, hq'⟩
  closed := by
    intro q hq w hw
    rw [append_sightings]
    rcases List.mem_append.1 hq with hq | hq
    · obtain ⟨q', hq', hle⟩ := h.closed q hq w hw
      exact ⟨q', List.mem_append_left _ hq', hle⟩
    · obtain rfl := List.mem_singleton.1 hq
      exact ⟨⟨q.distance + 1, w⟩, List.mem_append_right _ (List.mem_map_of_mem hw),
        Nat.le_refl _, rfl⟩

/-- When none waits any more, all that is up the hierarchy was seen, no further away than it is. -/
theorem exists_done (h : Frontier c t done []) (htells : c.TellsApart t) {n : Nat} {u : ClassType}
    (hu : c.Ascends t n u) : ∃ p ∈ done, p.distance ≤ n ∧ p.key = u.shortSignature := by
  induction hu with
  | refl =>
    obtain ⟨p, hp, hzero, hkey⟩ := h.started
    rw [List.append_nil] at hp
    exact ⟨p, hp, Nat.le_of_eq hzero, hkey⟩
  | step hu hw ih =>
    obtain ⟨p, hp, hle, hkey⟩ := ih
    have hascends := h.ascends p (List.mem_append_left _ hp)
    -- The class type that was seen looks like the one the step starts from.
    have halike := htells _ _ _ _ hu hascends hkey.symm
    obtain ⟨w', hw', hw'key⟩ := halike.exists_superclass hw
    obtain ⟨q, hq, hqle, hqkey⟩ := h.closed p hp w' hw'
    rw [List.append_nil] at hq
    exact ⟨q, hq, by omega, hqkey.trans hw'key⟩

end Frontier

/-! ## Section 4: The methods found -/

section methods

variable {owner : ClassType} {found : List FoundMethod}

theorem addMethod_cases (owner : ClassType) (found : List FoundMethod) (m : Method) :
    ((∃ f ∈ found, f.signature = m.signatureIn owner) ∧ addMethod owner found m = found) ∨
    ((∀ f ∈ found, f.signature ≠ m.signatureIn owner) ∧
      addMethod owner found m = found ++ [⟨owner, m, m.signatureIn owner⟩]) := by
  unfold addMethod
  by_cases h : found.any fun f => f.signature == m.signatureIn owner
  · left
    obtain ⟨f, hf, hsignature⟩ := List.any_eq_true.1 h
    exact ⟨⟨f, hf, eq_of_beq hsignature⟩, if_pos h⟩
  · right
    refine ⟨fun f hf heq => h ?_, if_neg h⟩
    exact List.any_eq_true.2 ⟨f, hf, beq_iff_eq.2 heq⟩

theorem subset_foldl_addMethod (owner : ClassType) (ms : List Method) (found : List FoundMethod) :
    found ⊆ ms.foldl (addMethod owner) found := by
  induction ms generalizing found with
  | nil => exact List.Subset.refl found
  | cons m ms ih =>
    have hstep : found ⊆ addMethod owner found m := by
      rcases addMethod_cases owner found m with ⟨-, heq⟩ | ⟨-, heq⟩
      · rw [heq]
        exact List.Subset.refl found
      · rw [heq]
        exact List.subset_append_left _ _
    exact List.Subset.trans hstep (ih _)

theorem nodup_foldl_addMethod (owner : ClassType) (ms : List Method) {found : List FoundMethod}
    (h : (found.map FoundMethod.signature).Nodup) :
    ((ms.foldl (addMethod owner) found).map FoundMethod.signature).Nodup := by
  induction ms generalizing found with
  | nil => exact h
  | cons m ms ih =>
    apply ih
    rcases addMethod_cases owner found m with ⟨-, heq⟩ | ⟨hnew, heq⟩
    · rw [heq]
      exact h
    · rw [heq, List.map_append, List.nodup_append]
      refine ⟨h, List.pairwise_singleton _ _, ?_⟩
      intro signature hsignature signature' hsignature' hsame
      obtain ⟨f, hf, rfl⟩ := List.mem_map.1 hsignature
      exact hnew f hf (hsame.trans (List.mem_singleton.1 hsignature'))

/-- Each method that is added has its signature among those found. -/
theorem covered_foldl_addMethod (owner : ClassType) (found : List FoundMethod) {ms : List Method}
    {m : Method} (hm : m ∈ ms) :
    ∃ f ∈ ms.foldl (addMethod owner) found, f.signature = m.signatureIn owner := by
  induction ms generalizing found with
  | nil => exact nomatch hm
  | cons m' ms ih =>
    rcases List.mem_cons.1 hm with rfl | hm
    · have hstep : ∃ f ∈ addMethod owner found m, f.signature = m.signatureIn owner := by
        rcases addMethod_cases owner found m with ⟨hold, heq⟩ | ⟨-, heq⟩
        · rw [heq]
          exact hold
        · rw [heq]
          exact ⟨_, List.mem_append_right _ (List.mem_singleton.2 rfl), rfl⟩
      obtain ⟨f, hf, hsignature⟩ := hstep
      exact ⟨f, subset_foldl_addMethod owner ms _ hf, hsignature⟩
    · exact ih _ hm

/-- What is found after methods were added was found before, or is one of them and its signature
    was not found before. -/
theorem mem_foldl_addMethod {owner : ClassType} {ms : List Method} {found : List FoundMethod}
    {f : FoundMethod} (hf : f ∈ ms.foldl (addMethod owner) found) :
    f ∈ found ∨ ∃ m ∈ ms, f = ⟨owner, m, m.signatureIn owner⟩ ∧
      ∀ g ∈ found, g.signature ≠ f.signature := by
  induction ms generalizing found with
  | nil => exact .inl hf
  | cons m ms ih =>
    rcases ih hf with hstep | ⟨m', hm', rfl, hnew⟩
    · rcases addMethod_cases owner found m with ⟨-, heq⟩ | ⟨hnew, heq⟩
      · rw [heq] at hstep
        exact .inl hstep
      · rw [heq] at hstep
        rcases List.mem_append.1 hstep with hold | hlast
        · exact .inl hold
        · obtain rfl := List.mem_singleton.1 hlast
          exact .inr ⟨m, List.mem_cons_self, rfl, hnew⟩
    · refine .inr ⟨m', List.mem_cons_of_mem _ hm', rfl, fun g hg => hnew g ?_⟩
      exact subset_foldl_addMethod owner [m] found hg

/-- The methods found among those of the class types that had their turn: one for each signature,
    of a class type that is nearest among those that declare it. -/
structure Nearest (name : String) (done : List Sighting) (found : List FoundMethod) : Prop where
  distinct : (found.map FoundMethod.signature).Nodup
  declared : ∀ f ∈ found, f.method ∈ f.owner.declaration.methods ∧ f.method.name = name ∧
    f.signature = f.method.signatureIn f.owner
  nearest : ∀ f ∈ found, ∃ p ∈ done, p.type = f.owner ∧
    ∀ q ∈ done, q.type.HasMethod name f.signature → p.distance ≤ q.distance
  covered : ∀ p ∈ done, ∀ signature, p.type.HasMethod name signature →
    ∃ f ∈ found, f.signature = signature

theorem Nearest.nil : Nearest name [] [] where
  distinct := List.nodup_nil
  declared := fun _ hf => nomatch hf
  nearest := fun _ hf => nomatch hf
  covered := fun _ hp => nomatch hp

theorem mem_methodsNamed {u : ClassType} {m : Method}
    (hm : m ∈ u.declaration.methods.filter fun m => m.name == name) :
    m ∈ u.declaration.methods ∧ m.name = name := by
  obtain ⟨hmem, hname⟩ := List.mem_filter.1 hm
  exact ⟨hmem, eq_of_beq hname⟩

/-- The methods of a class type are added that is as far away as all before it or further. -/
theorem Nearest.collect {done : List Sighting} {found : List FoundMethod}
    (h : Nearest name done found) {p : Sighting} (hp : ∀ q ∈ done, q.distance ≤ p.distance) :
    Nearest name (done ++ [p])
      ((p.type.declaration.methods.filter fun m => m.name == name).foldl (addMethod p.type)
        found) where
  distinct := nodup_foldl_addMethod p.type _ h.distinct
  declared := by
    intro f hf
    rcases mem_foldl_addMethod hf with hold | ⟨m, hm, rfl, -⟩
    · exact h.declared f hold
    · obtain ⟨hmem, hname⟩ := mem_methodsNamed hm
      exact ⟨hmem, hname, rfl⟩
  nearest := by
    intro f hf
    rcases mem_foldl_addMethod hf with hold | ⟨m, hm, rfl, hnew⟩
    · obtain ⟨q, hq, howner, hnearest⟩ := h.nearest f hold
      refine ⟨q, List.mem_append_left _ hq, howner, fun q' hq' hmethod => ?_⟩
      rcases List.mem_append.1 hq' with hq' | hq'
      · exact hnearest q' hq' hmethod
      · rw [List.mem_singleton.1 hq']
        exact hp q hq
    · refine ⟨p, List.mem_append_right _ (List.mem_singleton.2 rfl), rfl, fun q hq hmethod => ?_⟩
      rcases List.mem_append.1 hq with hq | hq
      · -- A class type before that declares the signature would have had it found.
        obtain ⟨g, hg, hsame⟩ := h.covered q hq _ hmethod
        exact absurd hsame (hnew g hg)
      · exact Nat.le_of_eq (congrArg Sighting.distance (List.mem_singleton.1 hq).symm)
  covered := by
    intro q hq signature hmethod
    rcases List.mem_append.1 hq with hq | hq
    · obtain ⟨f, hf, hsignature⟩ := h.covered q hq signature hmethod
      exact ⟨f, subset_foldl_addMethod p.type _ found hf, hsignature⟩
    · obtain rfl := List.mem_singleton.1 hq
      obtain ⟨m, hm, hname, rfl⟩ := hmethod
      exact covered_foldl_addMethod q.type found
        (List.mem_filter.2 ⟨hm, beq_iff_eq.2 hname⟩)

/-! ## Section 5: The run -/

/-- A search has come so far: what waits, what was visited and what was found. -/
structure Follows (c : Catalog) (t : ClassType) (name : String) (done waiting : List Sighting)
    (s : Search) : Prop where
  frontier : Frontier c t done waiting
  queue : s.queue = waiting.map Sighting.type
  visited : ∀ key, key ∈ s.visited ↔ key ∈ done.map Sighting.key
  fields : s.found.fields = done.flatMap fun p => p.type.fieldsNamed name
  methods : Nearest name done s.found.methods

section follows

variable {done waiting : List Sighting} {p : Sighting} {s : Search}

theorem Follows.start (c : Catalog) (t : ClassType) (name : String) :
    Follows c t name [] [⟨0, t⟩] (.start t) where
  frontier := .start c t
  queue := rfl
  visited := fun _ => Iff.rfl
  fields := rfl
  methods := .nil

/-- One step over a class type that was visited before. -/
theorem Follows.visit_seen (h : Follows c t name done (p :: waiting) s)
    (hp : p.key ∈ done.map Sighting.key) :
    Follows c t name done waiting (s.visit c name p.type (waiting.map Sighting.type)) := by
  have hcontains : s.visited.contains p.type.shortSignature :=
    List.contains_iff_mem.2 ((h.visited _).2 hp)
  rw [visit, if_pos hcontains]
  exact ⟨h.frontier.skip hp, rfl, h.visited, h.fields, h.methods⟩

/-- One step that takes up a new class type. -/
theorem Follows.visit_new (h : Follows c t name done (p :: waiting) s)
    (hp : p.key ∉ done.map Sighting.key) :
    Follows c t name (done ++ [p]) (waiting ++ sightings c p)
      (s.visit c name p.type (waiting.map Sighting.type)) := by
  have hcontains : ¬s.visited.contains p.type.shortSignature := fun hmem =>
    hp ((h.visited _).1 (List.contains_iff_mem.1 hmem))
  rw [visit, if_neg hcontains]
  refine ⟨h.frontier.take hp, ?_, fun key => ?_, ?_, ?_⟩
  · show waiting.map Sighting.type ++ superclasses c p.type = _
    rw [List.map_append, sightings, List.map_map]
    exact congrArg _ (List.map_id _).symm
  · show key ∈ p.key :: s.visited ↔ _
    rw [List.map_append, List.mem_append, List.mem_cons, h.visited key, or_comm]
    exact or_congr_right List.mem_singleton.symm
  · show s.found.fields ++ p.type.fieldsNamed name = _
    rw [h.fields, List.flatMap_append, List.flatMap_singleton]
  · exact h.methods.collect fun q hq => h.frontier.distance_le hq

/-- A short signature that was not visited before is one of the finitely many that are left. -/
theorem Frontier.length_lt {keys : List String}
    (hkeys : ∀ n u, c.Ascends t n u → u.shortSignature ∈ keys)
    (h : Frontier c t done (p :: waiting)) (hp : p.key ∉ done.map Sighting.key) :
    done.length < keys.length := by
  have htake := h.take hp
  have hsub : (done ++ [p]).map Sighting.key ⊆ keys := by
    intro key hkey
    obtain ⟨q, hq, rfl⟩ := List.mem_map.1 hkey
    exact hkeys _ _ (htake.ascends q (List.mem_append_left _ hq))
  have hlength := htake.nodup.length_le_of_subset hsub
  rw [List.length_map, List.length_append] at hlength
  exact hlength

/-- Up a hierarchy of finitely many short signatures each search ends. Each step either takes up a
    new short signature or lets those that wait be fewer. -/
theorem Follows.exists_run {keys : List String}
    (hkeys : ∀ n u, c.Ascends t n u → u.shortSignature ∈ keys)
    (done waiting : List Sighting) (s : Search) (h : Follows c t name done waiting s) :
    ∃ steps last done', (∀ n, steps ≤ n → run c name n s = some last.found) ∧
      Follows c t name done' [] last := by
  cases waiting with
  | nil =>
    refine ⟨0, s, done, fun n _ => ?_, h⟩
    rw [run, h.queue]
    rfl
  | cons p waiting =>
    have hrun : ∀ n, run c name (n + 1) s =
        run c name n (s.visit c name p.type (waiting.map Sighting.type)) := by
      intro n
      rw [run, h.queue]
      rfl
    have hrest : ∃ steps last done', (∀ n, steps ≤ n →
        run c name n (s.visit c name p.type (waiting.map Sighting.type)) = some last.found) ∧
          Follows c t name done' [] last := by
      by_cases hp : p.key ∈ done.map Sighting.key
      · exact exists_run hkeys done waiting _ (h.visit_seen hp)
      · have hlt := h.frontier.length_lt hkeys hp
        exact exists_run hkeys (done ++ [p]) _ _ (h.visit_new hp)
    obtain ⟨steps, last, done', hlast, hfollows⟩ := hrest
    refine ⟨steps + 1, last, done', fun n hn => ?_, hfollows⟩
    obtain ⟨m, rfl⟩ := Nat.exists_eq_add_of_le' hn
    rw [← Nat.add_assoc, hrun]
    exact hlast _ (Nat.le_add_left _ _)
termination_by (keys.length - done.length, waiting.length)
decreasing_by
  · apply Prod.Lex.right
    subst_vars
    exact Nat.lt_succ_self _
  · apply Prod.Lex.left
    rw [List.length_append]
    exact Nat.sub_succ_lt_self _ _ hlt

end follows

/-- A run that ended ends in the same way if it may do more steps. -/
theorem run_of_le {s : Search} {d : Declarations} {n m : Nat} (h : run c name n s = some d)
    (hle : n ≤ m) : run c name m s = some d := by
  induction n generalizing s m with
  | zero =>
    unfold run at h ⊢
    cases hqueue : s.queue with
    | nil => rwa [hqueue] at h
    | cons t rest =>
      rw [hqueue] at h
      cases h
  | succ n ih =>
    obtain ⟨m, rfl⟩ := Nat.exists_eq_add_of_le' hle
    unfold run at h ⊢
    cases hqueue : s.queue with
    | nil => rwa [hqueue] at h
    | cons t rest =>
      rw [hqueue] at h
      exact ih h (Nat.le_add_left _ _)

/-! ## Section 6: What is found when the search ends -/

section ended

variable {done : List Sighting} {s : Search}

theorem Follows.inherited (h : Follows c t name done [] s) : s.found.Inherited c t name where
  distinct := h.methods.distinct
  declared := by
    intro f hf
    obtain ⟨hmem, hname, hsignature⟩ := h.methods.declared f hf
    obtain ⟨p, hp, howner, -⟩ := h.methods.nearest f hf
    have hascends := h.frontier.ascends p (List.mem_append_left _ hp)
    rw [howner] at hascends
    exact ⟨hmem, hname, hsignature, p.distance, hascends⟩
  field := by
    intro f hf
    rw [h.fields] at hf
    obtain ⟨p, hp, hfield⟩ := List.mem_flatMap.1 hf
    obtain ⟨field, hmem, rfl⟩ := List.mem_map.1 hfield
    obtain ⟨hmem, hname⟩ := List.mem_filter.1 hmem
    exact ⟨hmem, eq_of_beq hname, p.distance,
      h.frontier.ascends p (List.mem_append_left _ hp)⟩

theorem Follows.exhaustive (h : Follows c t name done [] s) (htells : c.TellsApart t) :
    s.found.Exhaustive c t name where
  fields := by
    refine ⟨done.map Sighting.type, ?_, ?_, ?_, ?_⟩
    · rw [List.map_map]
      exact h.frontier.nodup
    · intro u hu
      obtain ⟨p, hp, rfl⟩ := List.mem_map.1 hu
      exact ⟨p.distance, h.frontier.ascends p (List.mem_append_left _ hp)⟩
    · intro n u hu
      obtain ⟨p, hp, -, hkey⟩ := h.frontier.exists_done htells hu
      rw [List.map_map]
      exact List.mem_map.2 ⟨p, hp, hkey⟩
    · rw [h.fields, List.flatMap_map]
  methods := by
    intro n u signature hu hmethod
    obtain ⟨p, hp, -, hkey⟩ := h.frontier.exists_done htells hu
    have hascends := h.frontier.ascends p (List.mem_append_left _ hp)
    exact h.methods.covered p hp signature
      ((htells _ _ _ _ hu hascends hkey.symm).hasMethod hmethod)
  nearest := by
    intro f hf
    obtain ⟨p, hp, howner, hnearest⟩ := h.methods.nearest f hf
    refine ⟨p.distance, ?_, fun k u hu hmethod => ?_⟩
    · rw [← howner]
      exact h.frontier.ascends p (List.mem_append_left _ hp)
    · obtain ⟨q, hq, hle, hkey⟩ := h.frontier.exists_done htells hu
      have hascends := h.frontier.ascends q (List.mem_append_left _ hq)
      have hmethod' := (htells _ _ _ _ hu hascends hkey.symm).hasMethod hmethod
      exact Nat.le_trans (hnearest q hq hmethod') hle

end ended

end methods

end Search

/-! ## Section 7: The members found -/

/-- Where there are finitely many short signatures up the hierarchy, the search for the members of
    a name ends. What it finds is declared up there, each method signature once. It is all there is,
    and each method is found as near as its signature is declared, if class types of one short
    signature look alike; up from a class type that a text names where no variable has an argument
    they do. -/
theorem Catalog.search_finds_nearest (c : Catalog) (t : ClassType) (name : String)
    (keys : List String) (hkeys : ∀ n u, c.Ascends t n u → u.shortSignature ∈ keys) :
    ∃ steps found, (∀ n, steps ≤ n → Search.run c name n (.start t) = some found) ∧
      (∀ d, c.declarationsNamed t name = some d → d = found) ∧
      found.Inherited c t name ∧
      (c.TellsApart t ∨
        (c.Reachable ∧ ∃ s text, s.classArguments = [] ∧ c.resolve s text = t.toType) →
        found.Exhaustive c t name) := by
  obtain ⟨steps, last, done, hrun, hfollows⟩ :=
    (Search.Follows.start c t name).exists_run hkeys
  refine ⟨steps, last.found, hrun, ?_, hfollows.inherited, ?_⟩
  · intro d hd
    have hlate := Search.run_of_le hd (Nat.le_add_left searchLimit steps)
    rw [hrun _ (Nat.le_add_right steps searchLimit)] at hlate
    exact (Option.some.inj hlate).symm
  · rintro (htells | ⟨hc, s, text, hs, htext⟩)
    · exact hfollows.exhaustive htells
    · have hargs : ∀ r ∈ s.classArguments, r.Legible c := by
        rw [hs]
        exact List.forall_mem_nil _
      have hmeans := c.closed_legible.means hc.keyed hargs
      have hlegible := c.closed_legible.resolve hc.keyed hmeans htext
      exact hfollows.exhaustive (hc.keyed.tellsApart hlegible)

/-- A class that is its own supertype is visited once, and its method is found where it stands. -/
theorem Catalog.search_finds_nearest_cycle :
    let m : Method := ⟨⟨⟨1⟩, "", "()V", ⟨[], [], "V", []⟩, [], false⟩, "f"⟩
    let loop : ClassDeclaration := ⟨⟨"Loop"⟩, ⟨0⟩, "", [], ["LLoop;"], [], [m], []⟩
    let c := Catalog.empty.insertDeclaration loop
    let t := ClassType.raw loop
    (∀ n u, c.Ascends t n u → u.shortSignature ∈ ["Loop"]) ∧
      ∃ steps found, (∀ n, steps ≤ n → Search.run c "f" n (.start t) = some found) ∧
        ∃ f ∈ found.methods, f.signature = "()V" ∧ c.Ascends t 0 f.owner := by
  intro m loop c t
  have hread : readSignature? "LLoop;" = some (.classType "Loop" []) :=
    readSignature?_eq_some (by cbv)
  have hget : c.get? "Loop" = some t := by simp [c, Catalog.get?_insertDeclaration, loop, t]
  have hresolve : ∀ s, c.resolve s "LLoop;" = t.toType := by
    intro s
    unfold Catalog.resolve
    rw [hread]
    simp only [Catalog.resolveSignature, hget]
    rfl
  have hsuper : Search.superclasses c t = [t] := by
    show [c.resolveIn t [] "LLoop;"].filterMap ResolvedType.asClass? = _
    unfold Catalog.resolveIn
    rw [hresolve]
    rfl
  have hkeys : ∀ n u, c.Ascends t n u → u.shortSignature ∈ ["Loop"] := by
    intro n u hu
    have hmem : u ∈ [t] := by
      apply hu.mem_of_closed List.mem_cons_self
      intro v hv w hw
      rwa [List.mem_singleton.1 hv, hsuper] at hw
    rw [List.mem_singleton.1 hmem]
    decide
  have hc : c.Reachable := .insertDeclaration loop .empty
  obtain ⟨steps, found, hrun, -, -, hexhaustive⟩ := c.search_finds_nearest t "f" ["Loop"] hkeys
  have hall := hexhaustive (.inr ⟨hc, .empty, "LLoop;", rfl, hresolve _⟩)
  have hmethod : t.HasMethod "f" "()V" := ⟨m, List.mem_cons_self, rfl, rfl⟩
  obtain ⟨f, hf, hsignature⟩ := hall.methods 0 t "()V" .refl hmethod
  obtain ⟨n, hascends, hnearest⟩ := hall.nearest f hf
  rw [← hsignature] at hmethod
  rw [Nat.le_zero.1 (hnearest 0 t .refl hmethod)] at hascends
  exact ⟨hkeys, steps, found, hrun, f, hf, hsignature, hascends⟩

/-! ## Section 8: Two class types of one short signature -/

namespace Namesakes

/-- A method with a parameter of the type of a type variable. -/
def takesFirst : Method := ⟨⟨⟨1⟩, "", "(TX;)V", ⟨[], ["TX;"], "V", []⟩, [], false⟩, "f"⟩

/-- A class with two type variables that declares the method, with the first of them. -/
def pairDeclaration : ClassDeclaration :=
  ⟨⟨"Pair"⟩, ⟨0⟩, "", [⟨"X", []⟩, ⟨"Y", []⟩], [], [], [takesFirst], []⟩

/-- A class that is a pair with its variables in both orders. -/
def bothDeclaration : ClassDeclaration :=
  ⟨⟨"Both"⟩, ⟨0⟩, "", [⟨"A", []⟩, ⟨"B", []⟩], ["LPair<TA;TB;>;", "LPair<TB;TA;>;"], [], [], []⟩

/-- The two classes. -/
def catalog : Catalog :=
  (Catalog.empty.insertDeclaration pairDeclaration).insertDeclaration bothDeclaration

/-- An unknown class. -/
def single : ResolvedType := .unknownClass ⟨"a"⟩

/-- Another one, whose name looks like the first one twice. -/
def twofold : ResolvedType := .unknownClass ⟨"a;La"⟩

/-- The class that is a pair of the two in both orders. -/
def both : ClassType := ⟨bothDeclaration, [single, twofold]⟩

/-- The pair that comes first. -/
def firstPair : ClassType := ⟨pairDeclaration, [single, twofold]⟩

/-- The pair the other way round. -/
def secondPair : ClassType := ⟨pairDeclaration, [twofold, single]⟩

theorem get?_both : catalog.get? "Both" = some (.raw bothDeclaration) := by
  simp [catalog, Catalog.get?_insertDeclaration, bothDeclaration]

theorem get?_pair : catalog.get? "Pair" = some (.raw pairDeclaration) := by
  simp [catalog, Catalog.get?_insertDeclaration, bothDeclaration, pairDeclaration]

theorem resolve_single : catalog.resolve .empty "La;" = single := by
  have hread : readSignature? "La;" = some (.classType "a" []) := readSignature?_eq_some (by cbv)
  have hnone : catalog.get? "a" = none := by
    simp [catalog, Catalog.get?_insertDeclaration, bothDeclaration, pairDeclaration]
  unfold Catalog.resolve
  rw [hread]
  simp only [Catalog.resolveSignature, hnone]
  rfl

/-- A text that is no signature is the name of an unknown class. -/
theorem resolve_twofold : catalog.resolve .empty "La;La;" = twofold := by
  have hwhole : Signature.wholeType "La;La;".toList = .error ⟨.trailing, "La;".toList⟩ := by cbv
  have hinside : Signature.wholeType ("L" ++ "La;La;" ++ ";").toList =
      .error ⟨.trailing, "La;;".toList⟩ := by cbv
  unfold Catalog.resolve
  rw [readSignature?_eq_none_of_error hwhole hinside]
  exact congrArg ResolvedType.unknownClass (by decide)

theorem superclasses_both : Search.superclasses catalog both = [firstPair, secondPair] := by
  have hfirst : readSignature? "LPair<TA;TB;>;" = some (.classType "Pair"
      [.exactly (.typeVariable "A"), .exactly (.typeVariable "B")]) :=
    readSignature?_eq_some (by cbv)
  have hsecond : readSignature? "LPair<TB;TA;>;" = some (.classType "Pair"
      [.exactly (.typeVariable "B"), .exactly (.typeVariable "A")]) :=
    readSignature?_eq_some (by cbv)
  show [catalog.resolveIn both [] "LPair<TA;TB;>;",
    catalog.resolveIn both [] "LPair<TB;TA;>;"].filterMap ResolvedType.asClass? = _
  unfold Catalog.resolveIn Catalog.resolve
  rw [hfirst, hsecond]
  simp only [Catalog.resolveSignature, get?_pair]
  rfl

theorem superclasses_firstPair : Search.superclasses catalog firstPair = [] := rfl

theorem superclasses_secondPair : Search.superclasses catalog secondPair = [] := rfl

/-- In the short signature of a pair it cannot be told where its first argument ends. -/
theorem shortSignatures : [both, firstPair, secondPair].map ClassType.shortSignature =
    ["Both<La;La;La;>", "Pair<La;La;La;>", "Pair<La;La;La;>"] := by decide

theorem shortSignature_mem {n : Nat} {u : ClassType} (h : catalog.Ascends both n u) :
    u.shortSignature ∈ ["Both<La;La;La;>", "Pair<La;La;La;>"] := by
  have hmem : u ∈ [both, firstPair, secondPair] := by
    -- The three class types have no superclasses but one another.
    apply h.mem_of_closed List.mem_cons_self
    intro v hv w hw
    simp only [List.mem_cons, List.not_mem_nil, or_false] at hv
    rcases hv with rfl | rfl | rfl
    · rw [superclasses_both] at hw
      exact List.mem_cons_of_mem _ hw
    · rw [superclasses_firstPair] at hw
      cases hw
    · rw [superclasses_secondPair] at hw
      cases hw
  have hkeys := List.mem_map_of_mem (f := ClassType.shortSignature) hmem
  rw [shortSignatures] at hkeys
  simpa using hkeys

/-- What the method of the first pair is found as. -/
def firstFound : FoundMethod := ⟨firstPair, takesFirst, "(La;)V"⟩

theorem visit_both : (Search.start both).visit catalog "f" both [] =
    ⟨[firstPair, secondPair], ["Both<La;La;La;>"], ⟨[], []⟩⟩ := by
  unfold Search.visit
  rw [if_neg (by decide), superclasses_both]
  rfl

/-- The first pair is taken up. -/
theorem visit_firstPair : Search.visit catalog "f"
    ⟨[firstPair, secondPair], ["Both<La;La;La;>"], ⟨[], []⟩⟩ firstPair [secondPair] =
      ⟨[secondPair], ["Pair<La;La;La;>", "Both<La;La;La;>"], ⟨[], [firstFound]⟩⟩ := by
  have hadd : Search.addMethod firstPair [] takesFirst = [firstFound] := by
    have hsignature : takesFirst.signatureIn firstPair = "(La;)V" := by decide +kernel
    unfold Search.addMethod
    rw [hsignature]
    rfl
  unfold Search.visit
  rw [if_neg (by decide), superclasses_firstPair, ← hadd]
  rfl

/-- The second one is not. -/
theorem visit_secondPair : Search.visit catalog "f"
    ⟨[secondPair], ["Pair<La;La;La;>", "Both<La;La;La;>"], ⟨[], [firstFound]⟩⟩ secondPair [] =
      ⟨[], ["Pair<La;La;La;>", "Both<La;La;La;>"], ⟨[], [firstFound]⟩⟩ := by
  unfold Search.visit
  rw [if_pos (by decide)]

theorem run_both {n : Nat} (hn : 3 ≤ n) :
    Search.run catalog "f" n (.start both) = some ⟨[], [firstFound]⟩ := by
  obtain ⟨k, rfl⟩ := Nat.exists_eq_add_of_le' hn
  show Search.run catalog "f" (k + 2) ((Search.start both).visit catalog "f" both []) = _
  rw [visit_both]
  show Search.run catalog "f" (k + 1) (Search.visit catalog "f" ⟨[firstPair, secondPair], _, _⟩
    firstPair [secondPair]) = _
  rw [visit_firstPair]
  show Search.run catalog "f" k (Search.visit catalog "f" ⟨[secondPair], _, _⟩ secondPair []) = _
  rw [visit_secondPair, Search.run]

end Namesakes

open Namesakes in
/-- Class types that do not look alike can have one short signature. A text that is no signature
    names an unknown class, and where the signature of one argument ends and that of the next one
    begins cannot be told any more. The search takes the second class type for the first then, and
    misses a method that only the second declares. -/
theorem Catalog.search_misses_namesake :
    let m : Method := ⟨⟨⟨1⟩, "", "(TX;)V", ⟨[], ["TX;"], "V", []⟩, [], false⟩, "f"⟩
    let pair : ClassDeclaration :=
      ⟨⟨"Pair"⟩, ⟨0⟩, "", [⟨"X", []⟩, ⟨"Y", []⟩], [], [], [m], []⟩
    let both : ClassDeclaration := ⟨⟨"Both"⟩, ⟨0⟩, "", [⟨"A", []⟩, ⟨"B", []⟩],
      ["LPair<TA;TB;>;", "LPair<TB;TA;>;"], [], [], []⟩
    let c := (Catalog.empty.insertDeclaration pair).insertDeclaration both
    let t := c.specialise (.raw both) [c.resolve .empty "La;", c.resolve .empty "La;La;"]
    c.Reachable ∧ c.get? "Both" = some (.raw both) ∧
      (∀ n u, c.Ascends t n u → u.shortSignature ∈ ["Both<La;La;La;>", "Pair<La;La;La;>"]) ∧
      ∃ found, (∀ n, 3 ≤ n → Search.run c "f" n (.start t) = some found) ∧
        ∃ u, c.Ascends t 1 u ∧ u.HasMethod "f" "(La;La;)V" ∧
          ∀ f ∈ found.methods, f.signature ≠ "(La;La;)V" := by
  intro m pair both' c t
  have ht : t = both := by
    show catalog.specialise (.raw bothDeclaration)
      [catalog.resolve .empty "La;", catalog.resolve .empty "La;La;"] = _
    rw [resolve_single, resolve_twofold]
    rfl
  have hascends : catalog.Ascends both 1 secondPair := by
    apply Catalog.Ascends.step .refl
    rw [superclasses_both]
    exact List.mem_cons_of_mem _ List.mem_cons_self
  have hmethod : secondPair.HasMethod "f" "(La;La;)V" :=
    ⟨takesFirst, List.mem_cons_self, rfl, by decide +kernel⟩
  rw [ht]
  refine ⟨.insertDeclaration _ (.insertDeclaration _ .empty), get?_both,
    fun n u hu => shortSignature_mem hu, ⟨[], [firstFound]⟩, fun n hn => run_both hn,
    secondPair, hascends, hmethod, ?_⟩
  intro f hf
  rw [List.mem_singleton.1 hf]
  decide

end TypeCatalog
