import MusicString.Proofs.Grammar.Failure
import MusicString.Proofs.Pattern.Tokens

/-!
# Where a pattern fails

A run over tokens stops at the first one that cannot be read, evaluated or delivered.  A failure
that is not one of grammar stands at the first character of this token, unless the token is a
collection and the letter of a later note carries too many accidentals: then it stands at that note.

* `Pattern.failure_runTokens`: the token that a run stops at, and how it stops;
* `Pattern.Token.read_fails`: all failures of reading a token;
* `Pattern.position_of_rejection`: where the rejection of an event stands;
* `Pattern.position_of_failure`: where failures of meaning stand.
-/

namespace MusicString.Pattern

open Text Read

variable {σ : Type}

/-- A run stops in reading a token, or it fails to fire it and reports its first character. -/
theorem failure_runTokens {tokens : List Token} {env : Environment σ} {e : ParseError}
    (h : (runTokens tokens env).failure = some e) :
    ∃ before t later, tokens = before ++ t :: later ∧
      (runTokens tokens env).events.length =
        before.length + (if e.kind = .listener then 1 else 0) ∧
      ((∃ d, t.read d = .error e) ∨ e.position = t.offset) := by
  induction tokens generalizing env with
  | nil => cases h
  | cons t later ih =>
    rw [runTokens] at h ⊢
    cases hread : t.read env.dictionary with
    | error e' =>
      rw [hread] at h
      obtain rfl : e' = e := by simpa using h
      obtain ⟨hkind, -⟩ := Token.read_error hread
      exact ⟨[], t, later, rfl, by simp [hkind], .inl ⟨_, hread⟩⟩
    | ok element =>
      rw [hread] at h
      dsimp only at h ⊢
      rcases Environment.fire_cases element t.offset env with
        ⟨e', heval, hfire⟩ | ⟨event, heval, hfire | ⟨id, reason, hfire⟩⟩ <;> rw [hfire] at h ⊢
      · obtain rfl : ParseError.evaluation e' t.offset = e := by simpa using h
        have hkind : (ParseError.evaluation e' t.offset).kind ≠ .listener := e'.kind_ne_listener
        refine ⟨[], t, later, rfl, ?_, .inr rfl⟩
        simp [Environment.fired_of_error heval, hkind]
      · obtain ⟨before, t', later', rfl, hlength, hfails⟩ := ih h
        refine ⟨t :: before, t', later', rfl, ?_, hfails⟩
        simp only [List.length_cons, hlength]
        omega
      · obtain rfl : (⟨.rejected id event.kind reason, t.offset⟩ : ParseError) = e := by
          simpa using h
        refine ⟨[], t, later, rfl, ?_, .inr rfl⟩
        simp [Environment.fired_of_ok heval, ParseError.kind, Cause.kind]

/-- The failure of a note with too many accidentals that other notes of its token precede. -/
def Token.JoinedOverAltered (t : Token) (e : ParseError) : Prop :=
  ∃ earlier joint letter run rest, t.text = earlier ++ joint :: letter :: (run ++ rest) ∧
    (joint = '+' ∨ joint = '_') ∧ (Pitch.offset? letter).isSome ∧
    run.all Pitch.isAccidental = true ∧ 12 < (Pitch.accidentals run).natAbs ∧
    e.kind = .valueOutOfRange ∧ e.position = t.offset + (earlier.length + 1)

theorem Token.joinedOverAltered_later {t : Token} {e : ParseError}
    (h : Grammar.JoinedOverAltered (.start t.text) e) :
    t.JoinedOverAltered (e.later t.offset) := by
  obtain ⟨n, joint, hjoint, hpeek, letter, run, rest, hrest, hletter, hrun, hmost, rfl⟩ := h
  have hdrop : t.text.drop n = joint :: t.text.drop (n + 1) := by
    simpa [Cursor.start] using Cursor.rest_of_peek hpeek
  have hlength : n < t.text.length := by
    refine Nat.lt_of_not_le fun hle => ?_
    rw [List.drop_eq_nil_of_le hle] at hdrop
    cases hdrop
  refine ⟨t.text.take n, joint, letter, run, rest, ?_, hjoint, hletter, hrun, hmost, rfl, ?_⟩
  · calc t.text = t.text.take n ++ t.text.drop n := (List.take_append_drop n t.text).symm
      _ = t.text.take n ++ joint :: letter :: (run ++ rest) := by rw [hdrop]; exact hrest ▸ rfl
  · simp [ParseError.later, ParseError.evaluation, Cursor.start,
      Nat.min_eq_left (Nat.le_of_lt hlength), Nat.add_comm]

/-- Reading a token fails for reasons of grammar, at its start, or after a joint. -/
theorem Token.read_fails {t : Token} {d : Dictionary} {e : ParseError} (h : t.read d = .error e) :
    e.kind = .grammar ∨ e.position = t.offset ∨ t.JoinedOverAltered e := by
  unfold read at h
  split at h
  · split at h <;> cases h
    exact .inl rfl
  · next e' c hread =>
    cases h
    rcases Grammar.element_fails hread with hkind | hstart | hjoined
    · exact .inl hkind
    · refine .inr (.inl ?_)
      rw [ParseError.position_later, hstart]
      exact Nat.zero_add _
    · exact .inr (.inr (joinedOverAltered_later hjoined))

/-- The token at which a pattern fails: it cannot be read, or the failure stands where it starts. -/
theorem failure_parseFragment {text : String} {env env' : Environment σ} {e : ParseError}
    (h : parseFragment text env = .error e env') :
    ∃ before t later, tokens text = before ++ t :: later ∧
      (fired text env).length = before.length + (if e.kind = .listener then 1 else 0) ∧
      ((∃ d e', t.read d = .error e' ∧ e.kind = e'.kind ∧ e.position = e'.position) ∨
        e.position = t.offset) := by
  obtain ⟨htells, hevents⟩ := tells_fireUpTo 0 text.toList (Nat.le_refl _) env
  change Report.Tells _ (parseFragment text env) at htells
  rw [h] at htells
  obtain ⟨-, e', hfailure, hkind, hposition⟩ := htells
  obtain ⟨before, t, later, htokens, hlength, hfails⟩ := failure_runTokens hfailure
  refine ⟨before, t, later, htokens, ?_, ?_⟩
  · rw [hkind, ← hlength]
    exact congrArg List.length hevents
  · rcases hfails with ⟨d, hread⟩ | hstart
    · exact .inl ⟨d, e', hread, hkind, hposition⟩
    · exact .inr (hposition.trans hstart)

/-- A rejection stands where the token of the rejected event starts. -/
theorem position_of_rejection {text : String} {env env' : Environment σ} {e : ParseError}
    {before : List Event} {event : Event} (h : parseFragment text env = .error e env')
    (hkind : e.kind = .listener) (hfired : fired text env = before ++ [event]) :
    ∃ t, (tokens text)[before.length]? = some t ∧ e.position = t.offset := by
  obtain ⟨earlier, t, later, htokens, hlength, hfails⟩ := failure_parseFragment h
  rw [if_pos hkind, hfired, List.length_append, List.length_singleton] at hlength
  refine ⟨t, ?_, ?_⟩
  · rw [htokens, Nat.add_right_cancel hlength]
    simp
  · rcases hfails with ⟨d, e', hread, hkinds, -⟩ | hstart
    · exact absurd (hkinds.symm.trans hkind) (Token.read_error hread).1
    · exact hstart

/--
**Where failures of meaning stand.**  A failure that is not one of grammar stands at the first
character of the token after those that were fired, or at the note of this token that carries too
many accidentals.
-/
theorem position_of_failure {text : String} {env env' : Environment σ} {e : ParseError}
    (h : parseFragment text env = .error e env') (hkind : e.kind ≠ .grammar) :
    ∃ before t later, tokens text = before ++ t :: later ∧
      (fired text env).length = before.length + (if e.kind = .listener then 1 else 0) ∧
      (e.position = t.offset ∨ t.JoinedOverAltered e) := by
  obtain ⟨before, t, later, htokens, hlength, hfails⟩ := failure_parseFragment h
  refine ⟨before, t, later, htokens, hlength, ?_⟩
  rcases hfails with ⟨d, e', hread, hkinds, hpositions⟩ | hstart
  · rcases Token.read_fails hread with hgrammar | hstart | hjoined
    · exact absurd (hkinds.trans hgrammar) hkind
    · exact .inl (hpositions.trans hstart)
    · obtain ⟨earlier, joint, letter, run, rest, htext, hjoint, hletter, hrun, hmost, he⟩ := hjoined
      rw [← hkinds, ← hpositions] at he
      exact .inr ⟨earlier, joint, letter, run, rest, htext, hjoint, hletter, hrun, hmost, he⟩
  · exact .inl hstart

/-- A text in which the first token does not end is this token. -/
theorem tokensFrom_of_all {offset : Nat} {first : Char} {rest : List Char}
    (hfirst : isWhiteSpace first = false) (hrest : rest.all (goesOn first) = true) :
    tokensFrom offset (first :: rest) = [⟨offset, first :: rest⟩] := by
  have hall := List.all_eq_true.1 hrest
  have htake : (rest ++ []).takeWhile (goesOn first) = rest ++ [] :=
    List.takeWhile_append_of_pos hall
  have hdrop : (rest ++ []).dropWhile (goesOn first) = [] := List.dropWhile_append_of_pos hall
  rw [List.append_nil] at htake hdrop
  rw [tokensFrom, hfirst, htake, hdrop, tokensFrom]
  rfl

set_option maxRecDepth 2000 in
/-- A collection whose second note carries thirteen sharps fails at this note. -/
theorem parseFragment_overAltered :
    parseFragment "C+D#############" (.ofDictionary .empty () : Environment Unit) =
      .error (.evaluation (.outOfRange .accidentals 13 (-12) 12) 2) (.ofDictionary .empty ()) := rfl

theorem position_of_failure_joined :
    let env : Environment Unit := .ofDictionary .empty ()
    let e : ParseError := .evaluation (.outOfRange .accidentals 13 (-12) 12) 2
    parseFragment "C+D#############" env = .error e env ∧ e.kind ≠ .grammar ∧
      ∃ before t later, tokens "C+D#############" = before ++ t :: later ∧
        (fired "C+D#############" env).length =
          before.length + (if e.kind = .listener then 1 else 0) ∧
        (e.position = t.offset ∨ t.JoinedOverAltered e) := by
  intro env e
  have hkind : e.kind ≠ .grammar := by decide
  exact ⟨parseFragment_overAltered, hkind, position_of_failure parseFragment_overAltered hkind⟩

/-- Not every failure of meaning stands where its token starts. -/
theorem not_position_eq_offset :
    ¬ ∀ (text : String) (env env' : Environment Unit) (e : ParseError),
      parseFragment text env = .error e env' → e.kind = .valueOutOfRange →
        ∃ t ∈ tokens text, e.position = t.offset := by
  intro h
  obtain ⟨t, ht, hposition⟩ := h _ _ _ _ parseFragment_overAltered rfl
  have htokens : tokens "C+D#############" = [⟨0, "C+D#############".toList⟩] :=
    tokensFrom_of_all rfl rfl
  rw [htokens, List.mem_singleton] at ht
  rw [ht] at hposition
  cases hposition

end MusicString.Pattern
