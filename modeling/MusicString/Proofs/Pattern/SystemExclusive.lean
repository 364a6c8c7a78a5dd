import Mathlib.Algebra.Group.Nat.Even
import MusicString.Proofs.Environment.Accepting
import MusicString.Proofs.Grammar.Failure
import MusicString.Proofs.Grammar.Joined
import MusicString.Proofs.Grammar.RoundTrip
import MusicString.Proofs.Pattern.Spellings
import MusicString.Proofs.Read.Hexadecimal

/-!
# System exclusive messages in hexadecimal

The bytes of a system exclusive message can be written in pairs of hexadecimal digits or as decimal
numbers, and both tokens are read as the same element.  The pairs are read by a repetition that
stops, without a failure, where no further pair follows; that nothing is lost is due to the end of
the token, which must follow.

* `IsHexPairs`, `pairValues`: texts of pairs, and what they stand for;
* `Grammar.meets_hexBytes`: what the repetition takes and what it leaves;
* `Pattern.systemExclusive_encodings`: both encodings, and which texts are accepted.
-/

namespace MusicString

open Read Text

/-! ### Pairs of digits -/

/-- One or more pairs of hexadecimal digits. -/
def IsHexPairs (s : List Char) : Prop :=
  s ≠ [] ∧ Even s.length ∧ ∀ x ∈ s, x ∈ hexDigits

/-- The numbers that the pairs of a text stand for. -/
def pairValues : List Char → List Nat
  | x :: y :: s => (16 * hexDigits.idxOf x + hexDigits.idxOf y) :: pairValues s
  | _ => []

theorem exists_bytes_of_pairs (s : List Char) (heven : Even s.length)
    (hdigits : ∀ x ∈ s, x ∈ hexDigits) :
    ∃ bytes : List Byte, s = bytes.flatMap hexText ∧ bytes.map Ranged.toNat = pairValues s := by
  fun_induction pairValues s with
  | case1 x y s ih =>
    obtain ⟨hx, hy, hs⟩ : x ∈ hexDigits ∧ y ∈ hexDigits ∧ ∀ z ∈ s, z ∈ hexDigits := by
      simpa using hdigits
    have hlater : Even s.length := by
      simpa [Nat.even_add_one] using heven
    obtain ⟨bytes, hbytes, hvalues⟩ := ih hlater hs
    refine ⟨byteOfHex x y :: bytes, ?_, ?_⟩
    · rw [List.flatMap_cons, hexText_byteOfHex hx hy, ← hbytes]
      rfl
    · rw [List.map_cons, toNat_byteOfHex hx hy, hvalues]
  | case2 s hshort =>
    match s, hshort with
    | [], _ => exact ⟨[], rfl, rfl⟩
    | [x], _ => simp at heven
    | x :: y :: s, hshort => exact absurd rfl (hshort x y s)

theorem isHexPairs_flatMap {bytes : List Byte} (hne : bytes ≠ []) :
    IsHexPairs (bytes.flatMap hexText) := by
  refine ⟨?_, ?_, fun x hx => ?_⟩
  · obtain ⟨b, later, rfl⟩ := List.exists_cons_of_ne_nil hne
    simp [hexText]
  · have hlength : (bytes.flatMap hexText).length = 2 * bytes.length := by
      simp [List.length_flatMap, hexText, Nat.mul_comm]
    exact ⟨bytes.length, hlength.trans (Nat.two_mul _)⟩
  · obtain ⟨b, -, hb⟩ := List.mem_flatMap.1 hx
    exact mem_hexDigits_of_mem_hexText hb

/-! ### Tokens -/

namespace Grammar

variable {rest : List Char}

theorem repeated_hexText {t : List Char} {bytes : List Byte} :
    Repeated (fun t b _ => t = hexText b) t bytes rest ↔
      t = bytes.flatMap hexText ∧ ∀ b, ¬ hexText b <+: rest := by
  constructor
  · intro h
    induction h with
    | stop hstop => exact ⟨rfl, fun b ⟨after, hafter⟩ => hstop _ b after hafter.symm rfl⟩
    | next ha _ ih => exact ⟨by rw [ha, ih.1, List.flatMap_cons], ih.2⟩
  · rintro ⟨rfl, hrest⟩
    induction bytes with
    | nil => exact .stop fun t b after hafter hb => hrest b ⟨after, by rw [hafter, hb]⟩
    | cons b bytes ih => exact .next rfl ih

/-- Bytes in hexadecimal are taken as long as pairs follow; there must be one at least. -/
theorem meets_hexBytes : hexBytes.Meets fun t elements rest => ∃ bytes : List Byte,
    bytes ≠ [] ∧ elements = bytes.map .literal ∧ t = bytes.flatMap hexText ∧
      ∀ b, ¬ hexText b <+: rest := by
  have hrepeated : (repeated hexByte).Meets _ :=
    meets_repeated meets_hexByte (fun t b rest h => by simp [h, hexText]) restores_hexByte
      (within_of_keeps fun f _ => f.keeps_hexByte)
  unfold hexBytes
  refine (hrepeated.bind_check (R := fun bytes elements =>
    bytes ≠ [] ∧ elements = bytes.map .literal) fun bytes => ?_).congr fun t elements rest => ?_
  · by_cases hnil : bytes = []
    · simp only [hnil, ↓reduceIte]
      exact (Meets.unexpected _).congr fun t elements rest => by simp
    · simp only [hnil, ↓reduceIte]
      exact (Meets.pure _).congr fun t elements rest => by simp [hnil]
  · simp only [repeated_hexText]
    constructor
    · rintro ⟨bytes, hne, helements, ht⟩
      exact ⟨bytes, ht, hne, helements⟩
    · rintro ⟨bytes, ht, hne, helements⟩
      exact ⟨bytes, hne, helements, ht⟩

/-- The token of bytes in hexadecimal. -/
def hexToken (bytes : List Byte) : List Char :=
  "^hex:".toList ++ bytes.flatMap hexText

/-- The token of bytes in decimal. -/
def decimalToken (bytes : List Byte) : List Char :=
  "^dec:".toList ++ [','].intercalate (bytes.map fun b => Decimal.ofInt b.val)

theorem element_hex (d : Dictionary) (k : Nat) (s : List Char) :
    element d ⟨k, "^hex:".toList ++ s⟩ =
      (hexBytes >>= fun bytes => pure (.systemExclusive bytes)) ⟨k + 5, s⟩ := by
  have hclaim (after : List Char) : firstClaim d rules ⟨k, '^' :: after⟩ =
      firstClaim d (marked "system exclusive" '^' systemExclusive :: rules.drop 15)
        ⟨k, '^' :: after⟩ := rfl
  have hmode : systemExclusive ⟨k + 1, "hex:".toList ++ s⟩ =
      (hexBytes >>= fun bytes => pure (.systemExclusive bytes)) ⟨k + 5, s⟩ := rfl
  exact (element_marked (hclaim _)).trans hmode

theorem element_hexToken (d : Dictionary) {bytes : List Byte} (hne : bytes ≠ [])
    (hrest : ∀ b, ¬ hexText b <+: rest) (k : Nat) :
    element d ⟨k, hexToken bytes ++ rest⟩ =
      .ok (.systemExclusive (bytes.map .literal)) ⟨k + (hexToken bytes).length, rest⟩ := by
  have hread := meets_hexBytes.complete ⟨bytes, hne, rfl, rfl, hrest⟩ (k + 5)
  rw [hexToken, List.append_assoc, element_hex, List.length_append, ← Nat.add_assoc]
  exact bind_of_ok hread

theorem EndsLine.not_hexText (h : EndsLine rest) (b : Byte) : ¬ hexText b <+: rest := by
  rintro ⟨after, rfl⟩
  have hdigit : '\n' ∈ hexText b := h.head? (x := hexDigit (b.toNat / 16)) rfl ▸ by simp [hexText]
  exact absurd (mem_hexDigits_of_mem_hexText hdigit) (by decide)

theorem decimalToken_eq (bytes : List Byte) :
    decimalToken bytes = Element.token (.systemExclusive (bytes.map .literal)) := by
  have htext (b : Byte) : (Expr.literal b).text.toList = Decimal.ofInt b.val :=
    String.toList_ofList
  simp [decimalToken, Element.token, Function.comp_def, htext]

theorem element_decimalToken (d : Dictionary) {bytes : List Byte} (hne : bytes ≠ [])
    (hrest : EndsLine rest) (k : Nat) :
    element d ⟨k, decimalToken bytes ++ rest⟩ =
      .ok (.systemExclusive (bytes.map .literal)) ⟨k + (decimalToken bytes).length, rest⟩ := by
  have hwritable : ∀ e ∈ bytes.map Expr.literal, e.Writable := by
    intro e he
    obtain ⟨b, -, rfl⟩ := List.mem_map.1 he
    trivial
  have hbody := systemExclusive_text hrest (by simpa using hne) hwritable (k + 1)
  rw [decimalToken_eq]
  exact element_of_body "system exclusive" (rules.drop 15) (fun _ => rfl) hbody

end Grammar

/-- Plain bytes are their own values. -/
theorem Element.evaluate_literals (d : Dictionary) (defaults : Defaults) (bytes : List Byte) :
    Element.evaluate d defaults (.systemExclusive (bytes.map .literal)) =
      .ok (.systemExclusive bytes) := by
  have hbytes : (bytes.map Expr.literal).mapM (Expr.eval d) = .ok bytes :=
    Evaluation.mapM_of_forall₂
      (List.forall₂_map_left_iff.2 (List.forall₂_same.2 fun b _ => Expr.eval_literal d b))
  simp only [Element.evaluate, hbytes]
  rfl

/-! ### Patterns -/

namespace Pattern

open Grammar Environment

variable {σ : Type} {s : List Char}

/-- The pattern of a system exclusive message with the given text after the radix. -/
def hexPattern (s : List Char) : String :=
  String.ofList ("^hex:".toList ++ s)

theorem parse_hexToken {bytes : List Byte} (hne : bytes ≠ []) (env : Environment σ) :
    parse (hexPattern (bytes.flatMap hexText)) env =
      fireOnly (.systemExclusive (bytes.map .literal)) env.reset := by
  have hend : ∀ b, ¬ hexText b <+: [] := by simp [hexText]
  have hread := element_hexToken env.base hne hend 0
  rw [List.append_nil] at hread
  exact parseFragment_of_element ⟨'^', rfl, by decide⟩ hread

/-- What is not made of pairs is refused: either no pair is found, or something is left. -/
theorem parse_of_not_isHexPairs (hs : ∀ x ∈ s, isWhiteSpace x = false) (hpairs : ¬ IsHexPairs s)
    (env : Environment σ) :
    ∃ e, parse (hexPattern s) env = .error e env.reset ∧ e.kind = .grammar := by
  have helement := element_hex env.base 0 s
  cases hread : hexBytes ⟨0 + 5, s⟩ with
  | error e c =>
    rw [bind_of_error _ hread] at helement
    exact ⟨e, parseFragment_of_error ⟨'^', rfl, by decide⟩ helement, grammatical_hexBytes hread⟩
  | ok elements c =>
    rw [bind_of_ok hread] at helement
    obtain ⟨t, ht, bytes, hne, rfl, rfl, -⟩ := meets_hexBytes.sound hread
    change s = bytes.flatMap hexText ++ c.rest at ht
    cases hrest : c.rest with
    | nil =>
      rw [hrest, List.append_nil] at ht
      exact absurd (ht ▸ isHexPairs_flatMap hne) hpairs
    | cons y after =>
      have hy : y ∈ s := by
        rw [ht, hrest]
        simp
      exact ⟨_, parseFragment_of_leftover ⟨'^', rfl, by decide⟩ helement
        (by rw [Cursor.peek, hrest]; rfl) (hs y hy), rfl⟩

theorem outcome_hexToken {bytes : List Byte} (hne : bytes ≠ []) {env : Environment σ}
    (h : env.NeverRejects) :
    outcome (parse (hexPattern (bytes.flatMap hexText))) env = .ok [.systemExclusive bytes] := by
  have hreset : env.reset.NeverRejects := h.congr rfl rfl
  have hevent : env.reset.evaluate (.systemExclusive (bytes.map .literal)) =
      .ok (.systemExclusive bytes) := Element.evaluate_literals _ _ bytes
  have hparse : parse (hexPattern (bytes.flatMap hexText)) env =
      .ok [.systemExclusive bytes] (env.reset.receive (.systemExclusive bytes)) := by
    rw [parse_hexToken hne, fireOnly, fire_of_neverRejects hreset, hevent]
  exact outcome_of_ok hparse

/--
**System exclusive messages in hexadecimal and in decimal.**  The tokens of some bytes in the two
encodings are read as the same element, with these bytes in order.  A text without white space is
accepted after `^hex:` exactly if it is made of pairs of digits, and then the bytes of the event are
what the pairs stand for; any other text fails and fires nothing.
-/
theorem systemExclusive_encodings (d : Dictionary) (env : Environment σ) :
    (∀ bytes : List Byte, bytes ≠ [] → ∀ rest, EndsLine rest → ∀ k,
      element d ⟨k, hexToken bytes ++ rest⟩ =
        .ok (.systemExclusive (bytes.map .literal)) ⟨k + (hexToken bytes).length, rest⟩ ∧
      element d ⟨k, decimalToken bytes ++ rest⟩ =
        .ok (.systemExclusive (bytes.map .literal)) ⟨k + (decimalToken bytes).length, rest⟩) ∧
    ∀ s : List Char, (∀ x ∈ s, isWhiteSpace x = false) →
      (env.NeverRejects → ∀ events, outcome (parse (hexPattern s)) env = .ok events ↔
        IsHexPairs s ∧ ∃ bytes : List Byte,
          bytes.map Ranged.toNat = pairValues s ∧ events = [.systemExclusive bytes]) ∧
      (¬ IsHexPairs s → ∃ e, parse (hexPattern s) env = .error e env.reset ∧ e.kind = .grammar) := by
  refine ⟨fun bytes hne rest hrest k => ⟨element_hexToken d hne hrest.not_hexText k,
    element_decimalToken d hne hrest k⟩, fun s hs => ⟨fun haccepts events => ?_,
    fun hpairs => parse_of_not_isHexPairs hs hpairs env⟩⟩
  by_cases hpairs : IsHexPairs s
  · obtain ⟨bytes, rfl, hvalues⟩ := exists_bytes_of_pairs s hpairs.2.1 hpairs.2.2
    have hne : bytes ≠ [] := by
      rintro rfl
      exact hpairs.1 rfl
    rw [outcome_hexToken hne haccepts]
    constructor
    · intro h
      cases h
      exact ⟨hpairs, bytes, hvalues, rfl⟩
    · rintro ⟨-, bytes', hvalues', rfl⟩
      rw [List.map_injective_iff.2 toNat_injective (hvalues'.trans hvalues.symm)]
  · obtain ⟨e, hparse, -⟩ := parse_of_not_isHexPairs hs hpairs env
    simp [outcome, hparse, hpairs]

theorem systemExclusive_encodings_pairs :
    let bytes : List Byte := [.nearest 240, .nearest 126]
    let env : Environment Unit := .ofDictionary .empty ()
    bytes ≠ [] ∧ EndsLine "\nC".toList ∧
      element .empty ⟨2, "^hex:F07E\nC".toList⟩ =
        .ok (.systemExclusive (bytes.map .literal)) ⟨11, "\nC".toList⟩ ∧
      element .empty ⟨2, "^dec:240,126\nC".toList⟩ =
        .ok (.systemExclusive (bytes.map .literal)) ⟨14, "\nC".toList⟩ ∧
      env.NeverRejects ∧ IsHexPairs "F07E".toList ∧
      outcome (parse "^hex:F07E") env = .ok [.systemExclusive bytes] ∧
      ¬ IsHexPairs "F07e".toList ∧
      ∃ e, parse "^hex:F07e" env = .error e env.reset ∧ e.kind = .grammar := by
  intro bytes env
  have hne : bytes ≠ [] := by simp [bytes]
  have hrest : EndsLine "\nC".toList := .inr ⟨['C'], rfl⟩
  have haccepts : env.NeverRejects := neverRejects_of_listeners (by simp [env, ofDictionary])
  have hpairs : IsHexPairs "F07E".toList := isHexPairs_flatMap hne
  have hnot : ¬ IsHexPairs "F07e".toList := fun h => absurd (h.2.2 'e' (by decide)) (by decide)
  have hblank : "F07E".toList.all (! isWhiteSpace ·) = true := by decide
  have hblank' : "F07e".toList.all (! isWhiteSpace ·) = true := by decide
  obtain ⟨htokens, hpatterns⟩ := systemExclusive_encodings .empty env
  obtain ⟨hhex, hdecimal⟩ := htokens bytes hne _ hrest 2
  exact ⟨hne, hrest, hhex, hdecimal, haccepts, hpairs,
    ((hpatterns "F07E".toList (by simpa using hblank)).1 haccepts _).2 ⟨hpairs, bytes, rfl, rfl⟩, hnot,
    (hpatterns "F07e".toList (by simpa using hblank')).2 hnot⟩

end Pattern

end MusicString
