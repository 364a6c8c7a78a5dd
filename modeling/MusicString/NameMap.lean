/-!
# Maps from names

A finite map from names is kept in the order of its names, so two maps with the same bindings are
equal.
-/

namespace MusicString

/-- A finite map from names, in the order of the names. -/
structure NameMap (α : Type) where
  entries : List (String × α)
  ordered : entries.Pairwise fun p q => p.1 < q.1

namespace NameMap

variable {α : Type}

/-- Puts a binding at its place in a list in the order of names, instead of one of the same name. -/
def place (name : String) (a : α) : List (String × α) → List (String × α)
  | [] => [(name, a)]
  | p :: rest =>
    if name < p.1 then (name, a) :: p :: rest
    else if name = p.1 then (name, a) :: rest
    else p :: place name a rest

theorem mem_place {name : String} {a : α} {p : String × α} {l : List (String × α)}
    (h : p ∈ place name a l) : p = (name, a) ∨ p ∈ l := by
  induction l with
  | nil => exact .inl (by simpa [place] using h)
  | cons q rest ih =>
    unfold place at h
    split at h
    · simpa using h
    · split at h
      · rcases List.mem_cons.1 h with h | h
        · exact .inl h
        · exact .inr (List.mem_cons_of_mem _ h)
      · rcases List.mem_cons.1 h with h | h
        · exact .inr (h ▸ List.mem_cons_self)
        · exact (ih h).imp_right (List.mem_cons_of_mem _)

theorem ordered_place {name : String} {a : α} {l : List (String × α)}
    (h : l.Pairwise fun p q => p.1 < q.1) : (place name a l).Pairwise fun p q => p.1 < q.1 := by
  induction l with
  | nil => simp [place]
  | cons q rest ih =>
    obtain ⟨hq, hrest⟩ := List.pairwise_cons.1 h
    unfold place
    split
    · next hlt =>
      refine List.pairwise_cons.2 ⟨fun p hp => ?_, h⟩
      rcases List.mem_cons.1 hp with rfl | hp
      · exact hlt
      · exact String.lt_trans hlt (hq p hp)
    · next hnlt =>
      split
      · next heq => exact List.pairwise_cons.2 ⟨fun p hp => heq ▸ hq p hp, hrest⟩
      · next hne =>
        refine List.pairwise_cons.2 ⟨fun p hp => ?_, ih hrest⟩
        rcases mem_place hp with rfl | hp
        · rcases Std.lt_trichotomy q.1 name with h | h | h
          · exact h
          · exact absurd h.symm hne
          · exact absurd h hnlt
        · exact hq p hp

/-- The map without bindings. -/
def empty : NameMap α :=
  ⟨[], .nil⟩

instance : Inhabited (NameMap α) := ⟨empty⟩

/-- Binds a name, instead of what it was bound to. -/
def insert (m : NameMap α) (name : String) (a : α) : NameMap α :=
  ⟨place name a m.entries, ordered_place m.ordered⟩

/-- What a list first binds a name to. -/
def find? (name : String) : List (String × α) → Option α
  | [] => none
  | p :: rest => if name = p.1 then some p.2 else find? name rest

/-- What a name is bound to. -/
def get? (m : NameMap α) (name : String) : Option α :=
  find? name m.entries

/-- Whether a name is bound. -/
def contains (m : NameMap α) (name : String) : Bool :=
  (m.get? name).isSome

/-- The number of names. -/
def size (m : NameMap α) : Nat :=
  m.entries.length

/-- The map with the bindings of a list added, in order. -/
def insertAll (m : NameMap α) (bindings : List (String × α)) : NameMap α :=
  bindings.foldl (fun m p => m.insert p.1 p.2) m

/-- The map of a list of bindings, of which later ones count. -/
def ofList (bindings : List (String × α)) : NameMap α :=
  empty.insertAll bindings

/-- The bindings of both maps, those of `other` where both have one. -/
def merge (m other : NameMap α) : NameMap α :=
  m.insertAll other.entries

/-- The bindings whose name starts with a text. -/
def startingWith (m : NameMap α) (start : String) : List (String × α) :=
  m.entries.filter fun p => start.toList.isPrefixOf p.1.toList

@[simp] theorem get?_empty (name : String) : (empty : NameMap α).get? name = none := rfl

theorem find?_place (name : String) (a : α) (l : List (String × α)) (other : String) :
    find? other (place name a l) = if other = name then some a else find? other l := by
  induction l with
  | nil => rfl
  | cons p rest ih =>
    unfold place
    split
    · rfl
    · split
      · next heq => by_cases h : other = name <;> simp [find?, h, ← heq]
      · next hne =>
        by_cases hp : other = p.1
        · simp [find?, hp, Ne.symm hne]
        · simp [find?, hp, ih]

/-- The latest binding of a name counts, and other names are not affected. -/
theorem get?_insert (m : NameMap α) (name : String) (a : α) (other : String) :
    (m.insert name a).get? other = if other = name then some a else m.get? other :=
  find?_place name a m.entries other

/-- The last of several bindings of a name counts. -/
theorem get?_insertAll (m : NameMap α) (bindings : List (String × α)) (name : String) :
    (m.insertAll bindings).get? name =
      ((bindings.reverse.find? (·.1 = name)).map (·.2)).or (m.get? name) := by
  induction bindings generalizing m with
  | nil => rfl
  | cons p rest ih =>
    show ((m.insert p.1 p.2).insertAll rest).get? name = _
    rw [ih, get?_insert, List.reverse_cons, List.find?_append]
    cases hrest : rest.reverse.find? (·.1 = name) with
    | some q => rfl
    | none =>
      by_cases hname : name = p.1
      · simp [hname]
      · simp [hname, Ne.symm hname]

theorem find?_eq_none {name : String} {l : List (String × α)} (h : ∀ p ∈ l, name < p.1) :
    find? name l = none := by
  induction l with
  | nil => rfl
  | cons p rest ih =>
    have hne : name ≠ p.1 := String.ne_of_lt (h p List.mem_cons_self)
    simp [find?, hne, ih fun q hq => h q (List.mem_cons_of_mem _ hq)]

/-- A list in the order of its names binds each name at most once. -/
theorem find?_reverse {l : List (String × α)} (h : l.Pairwise fun p q => p.1 < q.1)
    (name : String) : (l.reverse.find? (·.1 = name)).map (·.2) = find? name l := by
  induction l with
  | nil => rfl
  | cons p rest ih =>
    obtain ⟨hp, hrest⟩ := List.pairwise_cons.1 h
    rw [List.reverse_cons, List.find?_append, Option.map_or, ih hrest, find?]
    by_cases hname : name = p.1
    · rw [hname, find?_eq_none hp]
      simp
    · simp [hname, Ne.symm hname]

/-- A name is bound as in the map that is merged in, or else as before. -/
theorem get?_merge (m other : NameMap α) (name : String) :
    (m.merge other).get? name = (other.get? name).or (m.get? name) := by
  rw [merge, get?_insertAll, find?_reverse other.ordered]
  rfl

/-- A function may be applied to all that names are bound to. -/
theorem get?_ofList_map {β : Type} (m : NameMap α) (f : α → β) (name : String) :
    (ofList (m.entries.map fun p => (p.1, f p.2))).get? name = (m.get? name).map f := by
  have hordered : (m.entries.map fun p => (p.1, f p.2)).Pairwise fun p q => p.1 < q.1 :=
    List.pairwise_map.2 m.ordered
  have hfind (l : List (String × α)) :
      find? name (l.map fun p => (p.1, f p.2)) = (find? name l).map f := by
    induction l with
    | nil => rfl
    | cons p rest ih => by_cases hname : name = p.1 <;> simp [find?, hname, ih]
  rw [ofList, get?_insertAll, find?_reverse hordered, hfind, get?_empty, Option.or_none, get?]

/-- Lists in the order of their names that bind each name alike are equal. -/
theorem eq_of_find?_eq {l l' : List (String × α)} (hl : l.Pairwise fun p q => p.1 < q.1)
    (hl' : l'.Pairwise fun p q => p.1 < q.1) (h : ∀ name, find? name l = find? name l') :
    l = l' := by
  induction l generalizing l' with
  | nil =>
    cases l' with
    | nil => rfl
    | cons q rest' => simpa [find?] using h q.1
  | cons p rest ih =>
    obtain ⟨hp, hrest⟩ := List.pairwise_cons.1 hl
    cases l' with
    | nil => simpa [find?] using h p.1
    | cons q rest' =>
      obtain ⟨hq, hrest'⟩ := List.pairwise_cons.1 hl'
      rcases Std.lt_trichotomy p.1 q.1 with hlt | heq | hgt
      · have hnone : find? p.1 (q :: rest') = none := find?_eq_none fun r hr => by
          rcases List.mem_cons.1 hr with rfl | hr
          · exact hlt
          · exact String.lt_trans hlt (hq r hr)
        exact absurd ((h p.1).trans hnone) (by simp [find?])
      · have hpq : p = q := Prod.ext heq (by simpa [find?, heq] using h p.1)
        subst hpq
        have hfind : ∀ name, find? name rest = find? name rest' := fun name => by
          by_cases hname : name = p.1
          · rw [hname, find?_eq_none hp, find?_eq_none hq]
          · simpa [find?, hname] using h name
        rw [ih hrest hrest' hfind]
      · have hnone : find? q.1 (p :: rest) = none := find?_eq_none fun r hr => by
          rcases List.mem_cons.1 hr with rfl | hr
          · exact hgt
          · exact String.lt_trans hgt (hp r hr)
        exact absurd ((h q.1).symm.trans hnone) (by simp [find?])

/-- Maps that bind each name alike are equal. -/
theorem ext_get? {m n : NameMap α} (h : ∀ name, m.get? name = n.get? name) : m = n := by
  obtain ⟨l, hl⟩ := m
  obtain ⟨l', hl'⟩ := n
  congr
  exact eq_of_find?_eq hl hl' h

end NameMap

end MusicString
