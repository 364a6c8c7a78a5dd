import Mathlib.Computability.Language
import Mathlib.Data.List.TakeWhile
import MusicString.Proofs.Read.Locality

/-!
# What reads take

A read *meets* a relation `P` if `P t a rest` says exactly when it takes the text `t` and gives `a`
while `rest` follows.  What follows matters, because reads take as much as they can: digits end
where no digit follows.  Each read has one lemma, and the lemmas are put together by the rule for
binding, so that both what is accepted and what is refused can be told from the relation alone.

* `Read.Meets`, `Read.Meets.bind`;
* `Read.meets_reference`, `Read.meets_decimalByte`, `Read.meets_integer`, `Read.meets_long`,
  `Read.meets_double`, `Read.meets_expr`;
* `Read.meets_iterate`: a repeated step meets the repeated relation.
-/

namespace MusicString.Read

open Text

variable {α β : Type}

/--
The read takes `t` and gives `a` before `rest` exactly if `P t a rest`, wherever the text stands.
-/
structure Meets (r : Read α) (P : List Char → α → List Char → Prop) : Prop where
  complete : ∀ {t : List Char} {a : α} {rest : List Char}, P t a rest →
    ∀ k, r ⟨k, t ++ rest⟩ = .ok a ⟨k + t.length, rest⟩
  sound : ∀ {c : Cursor} {a : α} {d : Cursor}, r c = .ok a d →
    ∃ t, c.rest = t ++ d.rest ∧ P t a d.rest

namespace Meets

variable {r s : Read α} {P Q : List Char → α → List Char → Prop}

theorem congr (hr : r.Meets P) (h : ∀ t a rest, Q t a rest ↔ P t a rest) : r.Meets Q where
  complete hQ := hr.complete ((h _ _ _).1 hQ)
  sound hok :=
    have ⟨t, ht, hP⟩ := hr.sound hok
    ⟨t, ht, (h _ _ _).2 hP⟩

theorem pure (a : α) : Meets (pure a : Read α) fun t b _ => t = [] ∧ b = a where
  complete := by
    rintro t b rest ⟨rfl, rfl⟩ k
    rfl
  sound := by
    intro c b d h
    cases h
    exact ⟨[], rfl, rfl, rfl⟩

theorem bind {k : α → Read β} {R : α → List Char → β → List Char → Prop} (hr : r.Meets P)
    (hk : ∀ a, (k a).Meets (R a)) :
    (r >>= k).Meets fun t b rest =>
      ∃ a u v, t = u ++ v ∧ P u a (v ++ rest) ∧ R a v b rest where
  complete := by
    rintro t b rest ⟨a, u, v, rfl, hP, hR⟩ k
    rw [List.append_assoc, bind_of_ok (hr.complete hP k), (hk a).complete hR, List.length_append,
      Nat.add_assoc]
  sound := by
    intro c b d h
    obtain ⟨a, e, hfirst, hthen⟩ := bind_eq_ok h
    obtain ⟨u, hu, hP⟩ := hr.sound hfirst
    obtain ⟨v, hv, hR⟩ := (hk a).sound hthen
    rw [hv] at hu hP
    exact ⟨u ++ v, by rw [hu, List.append_assoc], a, u, v, rfl, hP, hR⟩

/-- What follows a read takes nothing. -/
theorem bind_check {k : α → Read β} {R : α → β → Prop} (hr : r.Meets P)
    (hk : ∀ a, (k a).Meets fun t b _ => t = [] ∧ R a b) :
    (r >>= k).Meets fun t b rest => ∃ a, P t a rest ∧ R a b := by
  refine (hr.bind hk).congr fun t b rest => ?_
  constructor
  · rintro ⟨a, hP, hR⟩
    exact ⟨a, t, [], (List.append_nil t).symm, hP, rfl, hR⟩
  · rintro ⟨a, u, v, rfl, hP, rfl, hR⟩
    exact ⟨a, by rwa [List.append_nil], hR⟩

/-- A read that uses the cursor for its errors only. -/
theorem get_bind {k : Cursor → Read α} (hk : ∀ c, (k c).Meets P) : (get >>= k).Meets P where
  complete hP n := (hk _).complete hP n
  sound h := (hk _).sound h

theorem position_bind {k : Nat → Read α} (hk : ∀ n, (k n).Meets P) :
    (position >>= k).Meets P where
  complete hP n := (hk _).complete hP n
  sound h := (hk _).sound h

theorem throw (e : ParseError) : Meets (throw e : Read α) fun _ _ _ => False where
  complete hP := hP.elim
  sound h := by cases h

/-- A failure that more would follow. -/
theorem throw_bind (e : ParseError) (k : α → Read β) :
    Meets (MonadExcept.throw e >>= k : Read β) fun _ _ _ => False where
  complete hP := hP.elim
  sound h := by cases h

/-- A failure after going back to a place. -/
theorem set_bind (c : Cursor) (hr : r.Meets fun _ _ _ => False) :
    Meets (do set c; r) fun _ _ _ => False where
  complete hP := hP.elim
  sound h :=
    have ⟨_, _, hfalse⟩ := hr.sound h
    hfalse.elim

theorem unexpected (wanted : String) : Meets (Read.unexpected wanted : Read α)
    fun _ _ _ => False where
  complete hP := hP.elim
  sound h := by cases h

theorem ite {p : Prop} [Decidable p] (hr : r.Meets P) (hs : s.Meets Q) :
    (if p then r else s).Meets fun t a rest => (p ∧ P t a rest) ∨ (¬ p ∧ Q t a rest) := by
  by_cases hp : p
  · simpa [hp] using hr
  · simpa [hp] using hs

/-- A read that takes nothing and gives what an option holds. -/
theorem of_option (o : Option α) (hsome : ∀ a, o = some a → r = Pure.pure a)
    (hnone : o = none → r.Meets fun _ _ _ => False) : r.Meets fun t a _ => t = [] ∧ o = some a := by
  cases ho : o with
  | some a =>
    rw [hsome a ho]
    exact (Meets.pure a).congr fun t b rest => by rw [Option.some.injEq, eq_comm (a := a)]
  | none => exact (hnone ho).congr fun t b rest => by simp

/-- A choice by the next character. -/
theorem ite_peek {p : Option Char → Prop} [DecidablePred p] (hr : r.Meets P) (hs : s.Meets Q) :
    Meets (do if p (← peek) then r else s) fun t a rest =>
      (p (t ++ rest).head? ∧ P t a rest) ∨ (¬ p (t ++ rest).head? ∧ Q t a rest) where
  complete := by
    intro t a rest h k
    show (if p (t ++ rest).head? then r else s) ⟨k, t ++ rest⟩ = _
    rcases h with ⟨hp, hP⟩ | ⟨hp, hQ⟩
    · rw [if_pos hp]
      exact hr.complete hP k
    · rw [if_neg hp]
      exact hs.complete hQ k
  sound := by
    intro c a d h
    change (if p c.rest.head? then r else s) c = _ at h
    by_cases hp : p c.rest.head?
    · rw [if_pos hp] at h
      obtain ⟨t, ht, hP⟩ := hr.sound h
      exact ⟨t, ht, .inl ⟨ht ▸ hp, hP⟩⟩
    · rw [if_neg hp] at h
      obtain ⟨t, ht, hQ⟩ := hs.sound h
      exact ⟨t, ht, .inr ⟨ht ▸ hp, hQ⟩⟩

/-- A read that gives a value only where it takes something leaves less of the text. -/
theorem shortens {r : Read (Option α)} {P : List Char → Option α → List Char → Prop}
    (hr : r.Meets P) (hP : ∀ t a rest, P t (some a) rest → t ≠ []) {c d : Cursor} {a : α}
    (h : r c = .ok (some a) d) : d.rest.length < c.rest.length := by
  obtain ⟨t, ht, hspelled⟩ := hr.sound h
  have hpos := List.length_pos_of_ne_nil (hP _ _ _ hspelled)
  rw [ht, List.length_append]
  omega

/-- A choice by whether a character can be taken. -/
theorem ite_eat {x : Char} (hr : r.Meets P) (hs : s.Meets Q) :
    Meets (do if ← eat x then r else s) fun t a rest =>
      (∃ u, t = x :: u ∧ P u a rest) ∨ ((t ++ rest).head? ≠ some x ∧ Q t a rest) where
  complete := by
    intro t a rest h k
    rcases h with ⟨u, rfl, hP⟩ | ⟨hx, hQ⟩
    · rw [bind_of_ok (eat_of_peek (x := x) rfl)]
      simpa [Cursor.move, Nat.add_assoc, Nat.add_comm 1] using hr.complete hP (k + 1)
    · have heat : eat x ⟨k, t ++ rest⟩ = .ok false ⟨k, t ++ rest⟩ := eat_of_not_peek hx
      rw [bind_of_ok heat]
      exact hs.complete hQ k
  sound := by
    intro c a d h
    by_cases hx : c.peek = some x
    · rw [bind_of_ok (eat_of_peek hx)] at h
      obtain ⟨u, hu, hP⟩ := hr.sound h
      exact ⟨x :: u, by rw [Cursor.rest_of_peek hx, hu]; rfl, .inl ⟨u, rfl, hP⟩⟩
    · rw [bind_of_ok (eat_of_not_peek hx)] at h
      obtain ⟨t, ht, hQ⟩ := hs.sound h
      refine ⟨t, ht, .inr ⟨?_, hQ⟩⟩
      rwa [← ht]

end Meets

/-! ### Single characters and runs of characters -/

/-- A text splits in one way into a run of characters with a property and what follows the run. -/
theorem takeWhile_append_of_all {p : Char → Bool} {t rest : List Char} (ht : ∀ x ∈ t, p x = true)
    (hrest : rest.head?.any p = false) : (t ++ rest).takeWhile p = t := by
  rw [takeWhile_append_of_stop hrest]
  exact List.takeWhile_eq_self_iff.2 ht

theorem head?_any_dropWhile (p : Char → Bool) (text : List Char) :
    (text.dropWhile p).head?.any p = false := by
  cases h : (text.dropWhile p).head? with
  | none => rfl
  | some x =>
    have hx := List.head?_dropWhile_not p text
    rw [h] at hx
    simpa using hx

theorem meets_run (p : Char → Bool) : (run p).Meets fun t taken rest =>
    taken = t ∧ (∀ x ∈ t, p x = true) ∧ rest.head?.any p = false where
  complete := by
    rintro t taken rest ⟨rfl, ht, hrest⟩ k
    rw [run_apply]
    simp only [takeWhile_append_of_all ht hrest, Cursor.move, List.drop_left]
  sound := by
    intro c taken d h
    rw [run_apply] at h
    cases h
    refine ⟨c.rest.takeWhile p, ?_, rfl, fun x hx => List.mem_takeWhile_imp hx, ?_⟩
    · rw [Cursor.rest_move_takeWhile, List.takeWhile_append_dropWhile]
    · rw [Cursor.rest_move_takeWhile]
      exact head?_any_dropWhile p c.rest

theorem meets_runUpTo (n : Nat) (p : Char → Bool) : (runUpTo n p).Meets fun t taken rest =>
    taken = t ∧ t.length ≤ n ∧ (∀ x ∈ t, p x = true) ∧
      (t.length < n → rest.head?.any p = false) where
  complete := by
    rintro t taken rest ⟨rfl, hle, ht, hstop⟩ k
    have htaken : ((taken ++ rest).take n).takeWhile p = taken := by
      rcases Nat.lt_or_eq_of_le hle with hlt | heq
      · rw [← List.take_takeWhile, takeWhile_append_of_all ht (hstop hlt),
          List.take_of_length_le hle]
      · rw [← heq, List.take_left]
        exact List.takeWhile_eq_self_iff.2 ht
    rw [runUpTo_apply]
    simp only [htaken, Cursor.move, List.drop_left]
  sound := by
    intro c taken d h
    rw [runUpTo_apply, ← List.take_takeWhile] at h
    cases h
    have hpre : (c.rest.takeWhile p).take n <+: c.rest :=
      (List.take_prefix _ _).trans (List.takeWhile_prefix p)
    refine ⟨_, (List.prefix_iff_eq_append.1 hpre).symm, rfl, List.length_take_le _ _, fun x hx =>
      List.mem_takeWhile_imp (List.mem_of_mem_take hx), fun hlt => ?_⟩
    -- Fewer characters than allowed are the whole run.
    have hwhole : (c.rest.takeWhile p).take n = c.rest.takeWhile p := by
      rw [List.length_take] at hlt
      exact List.take_of_length_le (by omega)
    rw [hwhole, Cursor.rest_move_takeWhile]
    exact head?_any_dropWhile p c.rest

theorem meets_eat (x : Char) : (eat x).Meets fun t taken rest =>
    (t = [x] ∧ taken = true) ∨ (t = [] ∧ taken = false ∧ rest.head? ≠ some x) where
  complete := by
    rintro t taken rest (⟨rfl, rfl⟩ | ⟨rfl, rfl, hx⟩) k
    · rw [eat_of_peek (x := x) rfl]
      rfl
    · exact eat_of_not_peek hx
  sound := by
    intro c taken d h
    by_cases hx : c.peek = some x
    · rw [eat_of_peek hx] at h
      cases h
      exact ⟨[x], Cursor.rest_of_peek hx, .inl ⟨rfl, rfl⟩⟩
    · rw [eat_of_not_peek hx] at h
      cases h
      exact ⟨[], rfl, .inr ⟨rfl, rfl, hx⟩⟩

theorem meets_expect (x : Char) : (expect x).Meets fun t _ _ => t = [x] := by
  refine (Meets.ite_eat (x := x) (Meets.pure ()) (Meets.unexpected _)).congr fun t _ rest => ?_
  constructor
  · rintro rfl
    exact .inl ⟨[], rfl, rfl, rfl⟩
  · rintro (⟨u, rfl, rfl, -⟩ | ⟨-, hfalse⟩)
    · rfl
    · exact hfalse.elim

/-! ### Names and numbers -/

/-- The texts that can stand in brackets. -/
def nameText : Language Char :=
  {t | t ≠ [] ∧ ∀ x ∈ t, x ≠ ']' ∧ isWhiteSpace x = false}

theorem mem_nameText {t : List Char} (hne : t ≠ [])
    (h : t.all (fun x => x ≠ ']' ∧ isWhiteSpace x = false) = true) : t ∈ nameText :=
  ⟨hne, fun x hx => of_decide_eq_true (List.all_eq_true.1 h x hx)⟩

/-- The texts that stand for a name, in brackets. -/
def bracketed (name : List Char) : List Char :=
  '[' :: (name ++ [']'])

theorem meets_token (delimiters : List Char) : (token false delimiters).Meets fun t taken rest =>
    taken = t ∧ (∀ x ∈ t, x ∉ delimiters ∧ isWhiteSpace x = false) ∧
      ∀ x, rest.head? = some x → x ∈ delimiters ∨ isWhiteSpace x = true := by
  have htoken : token false delimiters = run fun c => !delimiters.contains c && !isWhiteSpace c :=
    rfl
  rw [htoken]
  refine (meets_run _).congr fun t taken rest => ?_
  cases rest.head? <;> simp [or_iff_not_imp_left]

theorem meets_reference : reference.Meets fun t name rest =>
    match name with
    | some name => name.toList ∈ nameText ∧ t = bracketed name.toList
    | none => t = [] ∧ rest.head? ≠ some '[' := by
  unfold reference
  refine (Meets.get_bind fun start => Meets.ite_eat ((meets_token _).bind fun name =>
    Meets.ite_eat (Meets.ite (p := name = []) (Meets.set_bind start (Meets.throw _))
      (Meets.pure (some (String.ofList name))))
      (Meets.get_bind fun _ => Meets.set_bind start (Meets.throw _)))
    (Meets.pure none)).congr fun t name rest => ?_
  constructor
  · intro h
    cases name with
    | some name =>
      obtain ⟨⟨hne, hchars⟩, rfl⟩ := h
      refine .inl ⟨_, rfl, name.toList, name.toList, [']'], rfl, ⟨rfl, ?_, ?_⟩,
        .inl ⟨[], rfl, .inr ⟨hne, rfl, ?_⟩⟩⟩
      · simpa using hchars
      · simp
      · rw [String.ofList_toList]
    | none =>
      obtain ⟨rfl, hrest⟩ := h
      exact .inr ⟨hrest, rfl, rfl⟩
  · rintro (⟨u, rfl, taken, v, w, rfl, ⟨rfl, hchars, -⟩, hclosed⟩ | ⟨hrest, rfl, rfl⟩)
    · rcases hclosed with ⟨x, rfl, ⟨-, hfalse⟩ | ⟨hne, rfl, rfl⟩⟩ | ⟨-, hfalse⟩
      · exact hfalse.elim
      · refine ⟨?_, ?_⟩ <;> rw [String.toList_ofList]
        · exact ⟨hne, by simpa using hchars⟩
        · rfl
      · exact hfalse.elim
    · exact ⟨rfl, hrest⟩

theorem reference_bracketed {name : String} (h : name.toList ∈ nameText) (k : Nat)
    (rest : List Char) : reference ⟨k, bracketed name.toList ++ rest⟩ =
      .ok (some name) ⟨k + (bracketed name.toList).length, rest⟩ :=
  meets_reference.complete (a := some name) ⟨h, rfl⟩ k

/-- The runs of digits. -/
def IsDigits (t : List Char) : Prop :=
  ∀ x ∈ t, x.isDigit = true

theorem meets_digits : digits.Meets fun t ds rest =>
    ds = t ∧ IsDigits t ∧ rest.head?.any Char.isDigit = false :=
  meets_run Char.isDigit

/-- Digits of which there must be some, and a value that is made of them. -/
theorem meets_digits_bind {k : List Char → Read α} {o : List Char → Option α}
    (hnil : (k []).Meets fun _ _ _ => False)
    (hk : ∀ ds ≠ [], (k ds).Meets fun t a _ => t = [] ∧ o ds = some a) :
    (digits >>= k).Meets fun t a rest =>
      t ≠ [] ∧ IsDigits t ∧ rest.head?.any Char.isDigit = false ∧ o t = some a := by
  refine (meets_digits.bind_check (R := fun ds a => ds ≠ [] ∧ o ds = some a) fun ds => ?_).congr
    fun t a rest => ?_
  · by_cases hds : ds = []
    · rw [hds]
      exact hnil.congr fun t a rest => by simp
    · exact (hk ds hds).congr fun t a rest => by simp [hds]
  · constructor
    · rintro ⟨hne, hds, hrest, ha⟩
      exact ⟨t, ⟨rfl, hds, hrest⟩, hne, ha⟩
    · rintro ⟨ds, ⟨rfl, hds, hrest⟩, hne, ha⟩
      exact ⟨hne, hds, hrest, ha⟩

/-- The spellings of a byte. -/
def SpelledByte (t : List Char) (n : Byte) (rest : List Char) : Prop :=
  t ≠ [] ∧ IsDigits t ∧ rest.head?.any Char.isDigit = false ∧ n.val = Decimal.value t

theorem meets_decimalByte : decimalByte.Meets SpelledByte := by
  unfold decimalByte
  refine (Meets.get_bind fun start => meets_digits_bind
    (o := fun ds => Ranged.ofInt? (Decimal.value ds : Int)) (Meets.unexpected _)
    fun ds hds => ?_).congr fun t n rest => by
      simp only [Ranged.ofInt?_eq_some_iff, SpelledByte]
  simp only [hds, ↓reduceIte]
  refine Meets.of_option _ (fun n hn => ?_) fun hn => ?_ <;> rw [hn]
  exact Meets.set_bind start (Meets.throw _)

/-- A minus sign, if the number is negative. -/
def sign (negative : Bool) : List Char :=
  if negative then ['-'] else []

theorem meets_sign : (eat '-').Meets fun t negative rest =>
    t = sign negative ∧ (negative = false → rest.head? ≠ some '-') := by
  refine (meets_eat '-').congr fun t negative rest => ?_
  cases negative <;> simp [sign]

theorem head?_any_isDigit {ds : List Char} (hds : IsDigits ds) (hne : ds ≠ []) (rest : List Char) :
    (ds ++ rest).head?.any Char.isDigit = true := by
  obtain ⟨x, ds, rfl⟩ := List.exists_cons_of_ne_nil hne
  exact hds x List.mem_cons_self

theorem head?_of_digits {ds rest : List Char} {x : Char} (hds : IsDigits ds) (hne : ds ≠ [])
    (hx : x.isDigit = false) : (ds ++ rest).head? ≠ some x := by
  intro h
  have hdigit := head?_any_isDigit hds hne rest
  rw [h, Option.any_some, hx] at hdigit
  cases hdigit

/-- The spellings of a long. -/
def SpelledLong (t : List Char) (n : Long) (rest : List Char) : Prop :=
  ∃ negative ds, t = sign negative ++ ds ∧ ds ≠ [] ∧ IsDigits ds ∧
    rest.head?.any Char.isDigit = false ∧ longOfSize? negative (Decimal.value ds) = some n

theorem meets_long (what : String) : (long what).Meets SpelledLong := by
  unfold long
  refine (Meets.get_bind fun start => meets_sign.bind fun negative => meets_digits_bind
    (o := fun ds => longOfSize? negative (Decimal.value ds))
    (Meets.set_bind start (Meets.unexpected what)) fun ds hds => ?_).congr fun t n rest => ?_
  · simp only [hds, ↓reduceIte]
    refine Meets.of_option _ (fun n hn => ?_) fun hn => ?_ <;> rw [hn]
    exact Meets.set_bind start (Meets.throw _)
  · constructor
    · rintro ⟨negative, ds, rfl, hne, hds, hn⟩
      exact ⟨negative, sign negative, ds, rfl, ⟨rfl, fun _ => head?_of_digits hds hne (by decide)⟩,
        hne, hds, hn⟩
    · rintro ⟨negative, u, ds, rfl, ⟨rfl, -⟩, hne, hds, hn⟩
      exact ⟨negative, ds, rfl, hne, hds, hn⟩

/-- The spellings of an int. -/
def SpelledInteger (t : List Char) (i : Integer) (rest : List Char) : Prop :=
  ∃ n : Long, SpelledLong t n rest ∧ i.val = n.val

theorem meets_integer : integer.Meets SpelledInteger := by
  unfold integer
  refine (Meets.get_bind fun start => (meets_long "an int").bind_check fun n =>
    Meets.of_option (Ranged.ofInt? n.val) (fun i hi => ?_) fun hi => ?_).congr fun t i rest => ?_
  · rw [hi]
  · rw [hi]
    exact Meets.set_bind start (Meets.throw _)
  · simp only [Ranged.ofInt?_eq_some_iff, SpelledInteger]

/-- Digits after a point, unless there are none. -/
def pointed (part : List Char) : List Char :=
  if part = [] then [] else '.' :: part

/-- After a text without a point, no fraction is read if none goes on there. -/
def NoFraction (rest : List Char) : Prop :=
  ¬ (rest.head? = some '.' ∧ rest[1]?.any Char.isDigit)

theorem meets_fraction : fraction.Meets fun t part rest =>
    t = pointed part ∧ IsDigits part ∧ (part ≠ [] → rest.head?.any Char.isDigit = false) ∧
      (part = [] → NoFraction rest) where
  complete := by
    rintro t part rest ⟨rfl, hpart, hstop, hnone⟩ k
    by_cases hne : part = []
    · subst hne
      exact (fraction_apply _).trans (if_neg (hnone rfl))
    · obtain ⟨x, ds, rfl⟩ := List.exists_cons_of_ne_nil hne
      have hdigits := meets_digits.complete ⟨rfl, hpart, hstop hne⟩ (k + 1)
      have hpoint : (⟨k, pointed (x :: ds) ++ rest⟩ : Cursor).peek = some '.' ∧
          (pointed (x :: ds) ++ rest)[1]?.any Char.isDigit = true :=
        ⟨rfl, hpart x List.mem_cons_self⟩
      rw [fraction_apply, if_pos hpoint]
      simpa [Cursor.move, pointed, Nat.add_assoc, Nat.add_comm 1] using hdigits
  sound := by
    intro c part d h
    rw [fraction_apply] at h
    by_cases hpoint : c.peek = some '.' ∧ c.rest[1]?.any Char.isDigit
    · rw [if_pos hpoint] at h
      obtain ⟨ds, hrest, rfl, hds, hstop⟩ := meets_digits.sound h
      have hne : part ≠ [] := by
        rintro rfl
        have hnext := hpoint.2
        rw [Cursor.rest_of_peek hpoint.1, hrest] at hnext
        rw [List.nil_append, List.getElem?_cons_succ, ← List.head?_eq_getElem?, hstop] at hnext
        cases hnext
      refine ⟨pointed part, ?_, rfl, hds, fun _ => hstop, fun hnil => absurd hnil hne⟩
      rw [Cursor.rest_of_peek hpoint.1, hrest, pointed, if_neg hne]
      rfl
    · rw [if_neg hpoint] at h
      cases h
      exact ⟨[], rfl, rfl, by simp [IsDigits], fun hne => absurd rfl hne, fun _ => hpoint⟩

/-- The spellings of a double. -/
def SpelledDouble (t : List Char) (x : Float) (rest : List Char) : Prop :=
  ∃ negative whole part, t = sign negative ++ (whole ++ pointed part) ∧ IsDigits whole ∧
    IsDigits part ∧ ¬ (whole = [] ∧ part = []) ∧ rest.head?.any Char.isDigit = false ∧
    (part = [] → NoFraction rest) ∧ x = Double.ofDecimal (.ofParts negative whole part 0)

theorem meets_double : double.Meets SpelledDouble := by
  unfold double
  refine (Meets.get_bind fun start => meets_sign.bind fun negative => meets_digits.bind fun whole =>
    meets_fraction.bind_check (R := fun part x => ¬ (whole = [] ∧ part = []) ∧
      x = Double.ofDecimal (.ofParts negative whole part 0)) fun part => ?_).congr
    fun t x rest => ?_
  · by_cases hnone : whole = [] ∧ part = []
    · simp only [hnone, and_self, ↓reduceIte]
      exact (Meets.set_bind start (Meets.unexpected _)).congr fun t x rest => by simp
    · simp only [hnone, ↓reduceIte]
      exact (Meets.pure _).congr fun t x rest => by simp
  · constructor
    · rintro ⟨negative, whole, part, rfl, hwhole, hpart, hsome, hstop, hnone, rfl⟩
      have hpointed : (pointed part ++ rest).head?.any Char.isDigit = false := by
        unfold pointed
        split
        · exact hstop
        · rfl
      refine ⟨negative, _, _, rfl, ⟨rfl, fun _ => ?_⟩, whole, whole, _, rfl,
        ⟨rfl, hwhole, hpointed⟩, part, ⟨rfl, hpart, fun _ => hstop, hnone⟩, hsome, rfl⟩
      by_cases hne : whole = []
      · have hpart : part ≠ [] := fun h => hsome ⟨hne, h⟩
        simp [hne, pointed, hpart]
      · rw [List.append_assoc]
        exact head?_of_digits hwhole hne (by decide)
    · rintro ⟨negative, u, v, rfl, ⟨rfl, -⟩, whole, w, w', rfl, ⟨rfl, hwhole, hstop⟩, part,
        ⟨rfl, hpart, hrest, hnone⟩, hsome, rfl⟩
      refine ⟨negative, whole, part, rfl, hwhole, hpart, hsome, ?_, hnone, rfl⟩
      by_cases hne : part = []
      · simpa [hne, pointed] using hstop
      · exact hrest hne

/-- The spellings of an expression: a reference, or a number. -/
inductive SpelledExpr (P : List Char → α → List Char → Prop) :
    List Char → Expr α → List Char → Prop
  | reference {name : String} {rest : List Char} :
    name.toList ∈ nameText → SpelledExpr P (bracketed name.toList) (.reference name) rest
  | literal {t : List Char} {a : α} {rest : List Char} :
    (t ++ rest).head? ≠ some '[' → P t a rest → SpelledExpr P t (.literal a) rest

theorem exists_eq_toList (t : List Char) : ∃ s : String, t = s.toList :=
  ⟨String.ofList t, String.toList_ofList.symm⟩

theorem exists_spelledExpr_bracketed {P : List Char → α → List Char → Prop} {name : List Char}
    (h : name ∈ nameText) : ∃ e, ∀ rest, SpelledExpr P (bracketed name) e rest := by
  obtain ⟨s, rfl⟩ := exists_eq_toList name
  exact ⟨.reference s, fun _ => .reference h⟩

theorem meets_expr {literal : Read α} {P : List Char → α → List Char → Prop}
    (h : literal.Meets P) : (expr literal).Meets (SpelledExpr P) := by
  unfold expr
  refine (meets_reference.bind (R := fun name t e rest => match name with
    | some name => t = [] ∧ e = .reference name
    | none => ∃ a, P t a rest ∧ e = .literal a) fun name => ?_).congr fun t e rest => ?_
  · cases name with
    | some name => exact Meets.pure _
    | none => exact h.bind_check fun a => Meets.pure _
  · constructor
    · intro he
      cases he with
      | @reference name _ hname =>
        exact ⟨some name, _, [], (List.append_nil _).symm, ⟨hname, rfl⟩, rfl, rfl⟩
      | @literal _ a _ hhead hP => exact ⟨none, [], t, rfl, ⟨rfl, hhead⟩, a, hP, rfl⟩
    · rintro ⟨_ | name, u, v, rfl, hname, he⟩
      · obtain ⟨rfl, hrest⟩ := hname
        obtain ⟨a, hP, rfl⟩ := he
        exact .literal hrest hP
      · obtain ⟨rfl, rfl⟩ := he
        obtain ⟨hname, rfl⟩ := hname
        rw [List.append_nil]
        exact .reference hname

/-! ### Words -/

theorem longest_eq_none_iff {words : List String} : longest words = none ↔ words = [] := by
  cases words with
  | nil => simp [longest]
  | cons w words =>
    unfold longest
    split
    · simp
    · split <;> simp

theorem length_le_of_longest {words : List String} {w : String} (h : longest words = some w) :
    ∀ v ∈ words, v.length ≤ w.length := by
  induction words generalizing w with
  | nil => cases h
  | cons u words ih =>
    unfold longest at h
    refine List.forall_mem_cons.2 ?_
    split at h
    · have hnil := longest_eq_none_iff.1 ‹_›
      cases h
      exact ⟨Nat.le_refl _, by simp [hnil]⟩
    · rename_i longer hlonger
      split at h <;> cases h
      · exact ⟨Nat.le_refl _, fun v hv => Nat.le_trans (ih hlonger v hv) (Nat.le_of_lt ‹_›)⟩
      · exact ⟨Nat.le_of_not_lt ‹_›, ih hlonger⟩

theorem longestMatch_eq_none_iff {vocabulary : List String} {text : List Char} :
    longestMatch vocabulary text = none ↔ ∀ w ∈ vocabulary, ¬ w.toList <+: text := by
  simp [longestMatch, longest_eq_none_iff]

/-- The longest word that a text starts with is the only one of its length. -/
theorem longestMatch_eq_some_iff {vocabulary : List String} {text : List Char} {w : String} :
    longestMatch vocabulary text = some w ↔ w ∈ vocabulary ∧ w.toList <+: text ∧
      ∀ v ∈ vocabulary, v.toList <+: text → v.length ≤ w.length := by
  have hfound {u : String} (hu : longestMatch vocabulary text = some u) :
      u ∈ vocabulary ∧ u.toList <+: text ∧
        ∀ v ∈ vocabulary, v.toList <+: text → v.length ≤ u.length := by
    have hmem := List.mem_filter.1 (Frame.mem_of_longest hu)
    refine ⟨hmem.1, List.isPrefixOf_iff_prefix.1 hmem.2, fun v hv hpre => ?_⟩
    exact length_le_of_longest hu v (List.mem_filter.2 ⟨hv, List.isPrefixOf_iff_prefix.2 hpre⟩)
  refine ⟨hfound, fun ⟨hw, hpre, hlongest⟩ => ?_⟩
  cases hu : longestMatch vocabulary text with
  | none => exact absurd hpre (longestMatch_eq_none_iff.1 hu w hw)
  | some u =>
    obtain ⟨hmem, hupre, humax⟩ := hfound hu
    have hlength : u.toList.length = w.toList.length := by
      rw [String.length_toList, String.length_toList]
      exact Nat.le_antisymm (hlongest u hmem hupre) (humax w hw hpre)
    have heq : u.toList = w.toList :=
      (List.prefix_of_prefix_length_le hupre hpre (Nat.le_of_eq hlength)).eq_of_length hlength
    rw [String.toList_inj.1 heq]

theorem meets_keyword (vocabulary : List String) : (keyword vocabulary).Meets fun t w rest =>
    t = w.toList ∧ longestMatch vocabulary (t ++ rest) = some w where
  complete := by
    rintro t w rest ⟨rfl, hmatch⟩ k
    rw [keyword_of_match (c := ⟨k, _⟩) hmatch]
    simp [Cursor.move, ← String.length_toList]
  sound := by
    intro c w d h
    cases hmatch : longestMatch vocabulary c.rest with
    | some v =>
      rw [keyword_of_match hmatch] at h
      cases h
      obtain ⟨-, ⟨after, hafter⟩, -⟩ := longestMatch_eq_some_iff.1 hmatch
      have hdrop : c.rest.drop w.length = after := by
        rw [← hafter, ← String.length_toList, List.drop_left]
      refine ⟨w.toList, ?_, rfl, ?_⟩ <;> rw [Cursor.rest_move, hdrop, hafter]
      exact hmatch
    | none =>
      rw [keyword_of_no_match hmatch] at h
      cases h

theorem meets_optional_keyword (vocabulary : List String) :
    (optional (keyword vocabulary)).Meets fun t word rest =>
      match word with
      | some w => t = w.toList ∧ longestMatch vocabulary (t ++ rest) = some w
      | none => t = [] ∧ ∀ w ∈ vocabulary, ¬ w.toList <+: rest where
  complete := by
    intro t word rest h k
    unfold optional
    cases word with
    | some w => rw [(meets_keyword vocabulary).complete h]
    | none =>
      obtain ⟨rfl, hnone⟩ := h
      rw [keyword_of_no_match (longestMatch_eq_none_iff.2 hnone)]
      simp
  sound := by
    intro c word d h
    unfold optional at h
    cases hmatch : longestMatch vocabulary c.rest with
    | some w =>
      have hread := keyword_of_match hmatch
      rw [hread] at h
      cases h
      exact (meets_keyword vocabulary).sound hread
    | none =>
      rw [keyword_of_no_match hmatch] at h
      simp only [↓reduceIte] at h
      cases h
      exact ⟨[], rfl, rfl, longestMatch_eq_none_iff.1 hmatch⟩

/-! ### Repetition -/

/-- What steps take one after the other, until there is no next one. -/
inductive Iterated (P : α → List Char → Option α → List Char → Prop) :
    α → List Char → α → List Char → Prop
  | stop {a : α} {t rest : List Char} : P a t none rest → Iterated P a t a rest
  | step {a b z : α} {t u rest : List Char} :
    P a t (some b) (u ++ rest) → Iterated P b u z rest → Iterated P a (t ++ u) z rest

theorem meets_iterate {step : α → Read (Option α)}
    {P : α → List Char → Option α → List Char → Prop} (h : ∀ a, (step a).Meets (P a))
    (hP : ∀ a t b rest, P a t (some b) rest → t ≠ []) (a : α) :
    (iterate step a).Meets (Iterated P a) where
  complete := by
    intro t z rest hz k
    -- A step takes a character, so there are enough of them for what is left.
    have hsteps : ∀ n, t.length < n →
        iterateUpTo step n a ⟨k, t ++ rest⟩ = .ok z ⟨k + t.length, rest⟩ := by
      induction hz generalizing k with
      | stop hstop =>
        intro n hn
        obtain ⟨n, rfl⟩ := Nat.exists_eq_add_of_lt hn
        rw [iterateUpTo_succ, (h _).complete hstop]
      | @step a b z t u rest hstep _ ih =>
        intro n hn
        have hpos := List.length_pos_of_ne_nil (hP _ _ _ _ hstep)
        rw [List.length_append] at hn
        obtain ⟨n, rfl⟩ := Nat.exists_eq_add_of_lt hn
        rw [iterateUpTo_succ, List.append_assoc, (h _).complete hstep]
        dsimp only
        rw [ih (k + t.length) _ (by omega), List.length_append, Nat.add_assoc]
    refine hsteps _ ?_
    simp only [List.length_append]
    omega
  sound := by
    intro c z d hz
    have hsteps : ∀ n c a, c.rest.length < n → iterateUpTo step n a c = .ok z d →
        ∃ t, c.rest = t ++ d.rest ∧ Iterated P a t z d.rest := by
      intro n
      induction n with
      | zero => intro c a hn; omega
      | succ n ih =>
        intro c a hn hz
        rw [iterateUpTo_succ] at hz
        rcases hstep : step a c with ⟨_ | b, e⟩ | ⟨err, e⟩ <;> rw [hstep] at hz
        · cases hz
          obtain ⟨t, ht, hstop⟩ := (h z).sound hstep
          exact ⟨t, ht, .stop hstop⟩
        · obtain ⟨t, ht, hP'⟩ := (h a).sound hstep
          have hpos := List.length_pos_of_ne_nil (hP _ _ _ _ hP')
          rw [ht, List.length_append] at hn
          obtain ⟨u, hu, hlater⟩ := ih e b (by omega) hz
          rw [hu] at ht hP'
          exact ⟨t ++ u, by rw [ht, List.append_assoc], .step hP' hlater⟩
        · cases hz
    exact hsteps _ c a (Nat.lt_succ_self _) hz

/-- Steps that take a character each do not depend on how many are allowed, if these are enough. -/
theorem iterateUpTo_eq {step : α → Read (Option α)} (hstep : ∀ a c b d,
      step a c = .ok (some b) d → d.rest.length < c.rest.length) (m n : Nat) (a : α) (c : Cursor)
    (hm : c.rest.length < m) (hn : c.rest.length < n) :
    iterateUpTo step m a c = iterateUpTo step n a c := by
  induction m generalizing n a c with
  | zero => omega
  | succ m ih =>
    cases n with
    | zero => omega
    | succ n =>
      rw [iterateUpTo_succ, iterateUpTo_succ]
      rcases hs : step a c with ⟨_ | b, d⟩ | ⟨e, d⟩
      · rfl
      · have hlt := hstep a c b d hs
        exact ih n b d (by omega) (by omega)
      · rfl

theorem iterate_of_some {step : α → Read (Option α)} (hstep : ∀ a c b d,
      step a c = .ok (some b) d → d.rest.length < c.rest.length) {a b : α} {c d : Cursor}
    (h : step a c = .ok (some b) d) : iterate step a c = iterate step b d := by
  have hlt := hstep a c b d h
  show iterateUpTo step (c.rest.length + 1) a c = iterateUpTo step (d.rest.length + 1) b d
  rw [iterateUpTo_succ, h]
  exact iterateUpTo_eq hstep _ _ b d hlt (Nat.lt_succ_self _)

theorem iterate_of_error {step : α → Read (Option α)} {a : α} {c d : Cursor} {e : ParseError}
    (h : step a c = .error e d) : iterate step a c = .error e d := by
  show iterateUpTo step (c.rest.length + 1) a c = _
  rw [iterateUpTo_succ, h]

/-- A step after a mark: the mark, then what gives the next value, then the other steps. -/
theorem iterate_of_bind {step : α → Read (Option α)} (hstep : ∀ a c b d,
      step a c = .ok (some b) d → d.rest.length < c.rest.length) {a : α} {r : Read β} {g : β → α}
    {c d : Cursor} (h : step a c = (do return some (g (← r)) : Read (Option α)) d) :
    iterate step a c = (r >>= fun b => iterate step (g b)) d := by
  cases hr : r d with
  | ok b e =>
    rw [bind_of_ok hr] at h ⊢
    exact iterate_of_some hstep h
  | error err e =>
    rw [bind_of_error _ hr] at h ⊢
    exact iterate_of_error h

end MusicString.Read
