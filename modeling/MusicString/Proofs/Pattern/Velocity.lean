import MusicString.Config
import MusicString.Proofs.Environment.Operation
import MusicString.Proofs.Pattern.FanOut

/-!
# Velocities

A velocity that a note states, as a number or by a name, is checked when the note is evaluated.  One
that it leaves out is the configured one, which is never checked: the velocities of all notes are in
range exactly if the configured ones are.

* `Environment.Operation.initial_inOrder`: no operation changes what patterns start from;
* `VelocityOf`, `Element.Evaluates.velocities`, `Environment.Yields.velocities`;
* `Config.velocities_of_patterns`.
-/

namespace MusicString

/-! ### The defaults that patterns start from -/

namespace Environment.Operation

variable {σ : Type}

theorem initial_effect (op : Operation σ) (env : Environment σ) :
    (op.effect.after env).initial = env.initial := by
  have hcall (c : Call) (env : Environment σ) : (c.effect.after env).initial = env.initial := by
    rw [(c.replays_effect env).1]
    exact (env.unchanged_receiveAll _).2.1
  cases op with
  | call c => exact hcall c env
  | parse text => exact hcall (.fragment text) env.reset
  | _ => rfl

theorem initial_inOrder (ops : List (Operation σ)) (env : Environment σ) :
    ((Effect.inOrder (ops.map effect)).after env).initial = env.initial := by
  have hkeeps : ∀ env : Environment σ,
      ((Effect.inOrder (ops.map effect)).after env).initial = env.initial := by
    refine Effect.inOrder_induction (p := fun e => ∀ env, (e.after env).initial = env.initial)
      (fun _ => rfl) (fun first second hfirst hsecond env => ?_) fun e he => ?_
    · rw [Effect.after_andThen, hsecond, hfirst]
    · obtain ⟨op, -, rfl⟩ := List.mem_map.1 he
      exact op.initial_effect
  exact hkeeps env

end Environment.Operation

/-! ### The velocities of an event -/

/-- The notes of an element: one, those of a collection, or none. -/
def Element.notes : Element → List NoteElement
  | note n => [n]
  | noteCollection notes => notes
  | _ => []

/-- The notes of an event: one, those of a collection, or none. -/
def Event.notes : Event → List NoteEvent
  | note n => [n]
  | noteCollection notes => notes
  | _ => []

/-- A velocity that is written is in range, and one that is left out is the configured one. -/
def VelocityOf (configured : Byte) : Option (Expr Byte) → Byte → Prop
  | some _, velocity => velocity.val ≤ 127
  | none, velocity => velocity = configured

theorem VelocityOf.le {configured velocity : Byte} {written : Option (Expr Byte)}
    (h : VelocityOf configured written velocity) (hconfigured : configured.val ≤ 127) :
    velocity.val ≤ 127 := by
  cases written with
  | none =>
    rw [show velocity = configured from h]
    exact hconfigured
  | some expr => exact h

theorem NoteElement.velocityOf_of_evaluate {field : Field} {written : Option (Expr Byte)}
    {configured velocity : Byte} {d : Dictionary}
    (h : evaluateVelocity field written configured d = .ok velocity) :
    VelocityOf configured written velocity := by
  cases written with
  | none =>
    cases h
    rfl
  | some expr =>
    obtain ⟨_, -, hcheck⟩ := Evaluation.bind_eq_ok h
    exact (check_eq_ok hcheck).2.2

/-- Each note of the event is that of a note of the element, with velocities it has from there. -/
def Event.VelocitiesOf (attack decay : Byte) (element : Element) (event : Event) : Prop :=
  ∀ n ∈ event.notes, ∃ m ∈ element.notes,
    VelocityOf attack m.attack n.attack ∧ VelocityOf decay m.decay n.decay

theorem Element.Evaluates.velocities {element : Element} {d : Dictionary} {defaults : Defaults}
    {event : Event} (h : element.Evaluates d defaults event) :
    event.VelocitiesOf defaults.attack defaults.decay element := by
  have hvelocities {m : NoteElement} {n : NoteEvent} (h : m.Evaluates d defaults n) :
      VelocityOf defaults.attack m.attack n.attack ∧ VelocityOf defaults.decay m.decay n.decay :=
    ⟨NoteElement.velocityOf_of_evaluate h.attack, NoteElement.velocityOf_of_evaluate h.decay⟩
  cases h with
  | note hnote =>
    intro n hn
    obtain rfl := List.mem_singleton.1 hn
    exact ⟨_, List.mem_singleton_self _, hvelocities hnote⟩
  | noteCollection hnotes =>
    intro n hn
    obtain ⟨m, hm, hnote⟩ := hnotes n hn
    exact ⟨m, hm, hvelocities hnote⟩
  | _ => exact fun n hn => absurd hn List.not_mem_nil

/-- No event sets a velocity, so that all notes take the velocities of the start. -/
theorem Environment.Yields.velocities {σ : Type} {env : Environment σ} {events : List Event}
    (h : env.Yields events) {event : Event} (hmem : event ∈ events) :
    ∃ element before, (env.receiveAll before).evaluate element = .ok event ∧
      event.VelocitiesOf env.defaults.attack env.defaults.decay element := by
  obtain ⟨before, later, rfl⟩ := List.append_of_mem hmem
  obtain ⟨-, ⟨element, heval⟩, -⟩ := yields_append.1 h
  have hvelocities := (Element.evaluate_eq_ok heval).velocities
  rw [defaults_receiveAll] at hvelocities
  exact ⟨element, before, heval, hvelocities⟩

/-! ### Patterns -/

namespace Pattern

variable {σ : Type} {env : Environment σ}

/-- The listeners are offered nothing but the events of the pattern. -/
theorem FansOut.event_mem {listeners : List (ListenerId × Listener σ)} {events : List Event}
    {offers : List Offer} {failure : Option ParseError}
    (h : FansOut listeners events offers failure) {o : Offer} (ho : o ∈ offers) :
    o.event ∈ events := by
  have htaken {event : Event} {place count : Nat} {o : Offer}
      (ho : o ∈ Offer.taken event place count) : o.event = event := by
    obtain ⟨_, -, rfl⟩ := List.mem_map.1 ho
    rfl
  have htakenByAll {events : List Event} {count : Nat} {o : Offer}
      (ho : o ∈ takenByAll events count) : o.event ∈ events := by
    obtain ⟨event, hevent, ho⟩ := List.mem_flatMap.1 ho
    rwa [htaken ho]
  cases h with
  | taken _ => exact htakenByAll ho
  | rejected _ =>
    rcases List.mem_append.1 ho with ho | ho
    · rcases List.mem_append.1 ho with ho | ho
      · exact List.mem_append_left _ (htakenByAll ho)
      · rw [htaken ho]
        exact List.mem_append_right _ (List.mem_singleton_self _)
    · rw [List.mem_singleton.1 ho]
      exact List.mem_append_right _ (List.mem_singleton_self _)

theorem exists_offers (text : String) (env : Environment σ) :
    ∃ offers, parse text (env.watched []) = watchedResult offers (parse text env) ∧
      ∀ o ∈ offers, o.event ∈ fired text env.reset := by
  obtain ⟨offers, hwatched, hfans⟩ :=
    fansOut_fireUpTo (text.toList.length + 1) (.start text.toList) env.reset []
  exact ⟨offers, hwatched, fun o ho => hfans.event_mem ho⟩

/-- The event of the first token is fired, even if a listener rejects it. -/
theorem mem_firedUpTo {n : Nat} {c c' : Cursor} {start : Nat} {element : Element} {event : Event}
    (hnext : nextToken env.dictionary c = .ok (some (start, element)) c')
    (heval : env.evaluate element = .ok event) : event ∈ firedUpTo (n + 1) c env := by
  rw [firedUpTo, hnext]
  rcases Environment.fire_cases element start env with
    ⟨e, herror, -⟩ | ⟨event', hok, hfire | ⟨id, reason, hfire⟩⟩
  · cases heval.symm.trans herror
  · cases heval.symm.trans hok
    simp only [hfire, List.mem_cons_self]
  · simp only [hfire, Environment.fired_of_ok heval, List.mem_singleton_self]

/-- A note that states all but its velocities has the velocities of the defaults. -/
theorem exists_fired_default (env : Environment σ) :
    ∃ event ∈ fired "C5w" env, ∃ n ∈ event.notes,
      n.attack = env.defaults.attack ∧ n.decay = env.defaults.decay := by
  -- With the octave and the length written out, no other default can make the note fail.
  let element : Element := .note
    { value := .pitch 0 (some (.literal (.nearest 5)))
      duration := some (.literal (Length.ofLetters ['w'])) }
  let n : NoteEvent :=
    { value := .nearest 60
      rest := false
      duration := Length.ofLetters ['w']
      attack := env.defaults.attack
      decay := env.defaults.decay
      tieStart := false
      tieEnd := false
      placement := .sequential
      voice := env.defaults.voice
      layer := env.defaults.layer
      chord := none }
  have hnext : nextToken env.dictionary (.start "C5w".toList) = .ok (some (0, element)) ⟨3, []⟩ :=
    rfl
  have heval : env.evaluate element = .ok (.note n) := rfl
  exact ⟨.note n, mem_firedUpTo hnext heval, n, List.mem_singleton_self n, rfl, rfl⟩

end Pattern

/-! ### Configurations -/

open Environment

/--
**Configured velocities.**  Whatever has been done with the environment of a configuration, a
pattern fires notes whose velocities are in range where they are written, and the configured ones
where they are left out, and the listeners are offered nothing else.  So no velocity is ever out of
range exactly if the configured ones are not.
-/
theorem Config.velocities_of_patterns {σ : Type} (c : Config) (state : σ)
    (ops : List (Operation σ)) :
    let env := (Effect.inOrder (ops.map Operation.effect)).after (c.environment state)
    (∀ text, ∀ event ∈ Pattern.fired text env.reset, ∃ element before,
      (env.reset.receiveAll before).evaluate element = .ok event ∧
        event.VelocitiesOf c.attack c.decay element) ∧
    (∀ text, ∃ offers,
      Pattern.parse text (env.watched []) =
          Pattern.watchedResult offers (Pattern.parse text env) ∧
        ∀ o ∈ offers, o.event ∈ Pattern.fired text env.reset) ∧
    ((∀ text, ∀ event ∈ Pattern.fired text env.reset, ∀ n ∈ event.notes,
      n.attack.val ≤ 127 ∧ n.decay.val ≤ 127) ↔ c.attack.val ≤ 127 ∧ c.decay.val ≤ 127) := by
  intro env
  have hinitial : env.reset.defaults = c.defaults :=
    Operation.initial_inOrder ops (c.environment state)
  have hvelocities : ∀ text, ∀ event ∈ Pattern.fired text env.reset, ∃ element before,
      (env.reset.receiveAll before).evaluate element = .ok event ∧
        event.VelocitiesOf c.attack c.decay element := by
    intro text event hevent
    have hyields := (Pattern.yields_firedUpTo _ _ env.reset).velocities hevent
    rwa [hinitial] at hyields
  refine ⟨hvelocities, fun text => Pattern.exists_offers text env, ?_, ?_⟩
  · intro hrange
    obtain ⟨event, hevent, n, hn, hattack, hdecay⟩ := Pattern.exists_fired_default env.reset
    rw [hinitial] at hattack hdecay
    have hn := hrange _ event hevent n hn
    rwa [hattack, hdecay] at hn
  · rintro ⟨hattack, hdecay⟩ text event hevent n hn
    obtain ⟨element, before, -, hnotes⟩ := hvelocities text event hevent
    obtain ⟨m, -, hattack', hdecay'⟩ := hnotes n hn
    exact ⟨hattack'.le hattack, hdecay'.le hdecay⟩

/-- A log that is registered with an environment holds the note that states no velocities. -/
theorem Pattern.parse_default_recorded (d : Dictionary) (defaults : Defaults) :
    let env := ((ofDictionary d []).setDefaults defaults).addListener
      (.recorder fun event log => log ++ [event])
    ∃ n env', parse "C5w" env.2 = .ok [.note n] env' ∧ env'.state = [.note n] ∧
      n.attack = defaults.attack ∧ n.decay = defaults.decay :=
  ⟨_, _, rfl, rfl, rfl, rfl⟩

/-- A configured attack of 200 reaches the listeners with the notes of a pattern. -/
theorem Config.loud_attack_recorded :
    let c : Config := { attack := .nearest 200 }
    let env := (c.environment []).addListener (.recorder fun event log => log ++ [event])
    ∃ n env', Pattern.parse "C5w" env.2 = .ok [.note n] env' ∧ env'.state = [.note n] ∧
      n.attack.val = 200 := by
  intro c env
  obtain ⟨n, env', hparse, hstate, hattack, -⟩ := Pattern.parse_default_recorded
    (Standard.dictionary.merge c.dictionary) c.defaults
  refine ⟨n, env', hparse, hstate, ?_⟩
  rw [hattack]
  rfl

end MusicString
